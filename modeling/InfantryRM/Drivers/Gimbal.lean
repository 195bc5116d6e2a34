import InfantryRM.Drivers.Hardware

/-!
# The gimbal servos

`Gimbal.c`: the conversion from degrees to a pulse width (`servoPerDegreeInit`), the function that
clamps an angle and writes its pulse to the servo of one axis (`servoSetAngleTo`), and the boot
position (`gimbalServerStart`). The angle parameter is a `uint32_t`, and its callers pass it an
`int`; on the range of the servo the conversion and the 32-bit arithmetic are exact
(`pulse_toNat`). The checks in front of the conversion keep every angle in that range, so a larger
angle never has a shorter pulse (`servoSetAngleTo_monotone`).
-/

namespace InfantryRM

open Run

def servoMinPulsewidth : UInt32 := 500
def servoMaxPulsewidth : UInt32 := 2500
def servoMaxDegree : Nat := 270
def servoMidDegree : Int := 135

/-- The two axes of the gimbal. -/
inductive Axis
  | yaw
  | pitch
  deriving DecidableEq, Repr

/-- The MCPWM unit of an axis. Source: `servo_set_angle_To` (`Gimbal.c:96`, `Gimbal.c:112`). -/
def Axis.unit : Axis → McpwmUnit
  | .yaw => .unit0
  | .pitch => .unit1

/-- The `MotorIndex` of an axis. Source: the parameter's comment (`Gimbal.c:70`). -/
def Axis.motorIndex : Axis → Int
  | .yaw => 0
  | .pitch => 1

/-- The pulse width of an angle, in wrapping 32-bit arithmetic. Source: `servo_per_degree_init`
(`Gimbal.c:20`). -/
def servoPerDegreeInit (degreeOfRotation : UInt32) : UInt32 :=
  servoMinPulsewidth +
    ((servoMaxPulsewidth - servoMinPulsewidth) * degreeOfRotation) / servoMaxDegree.toUInt32

/-- Source: `servo_set_angle_To` (`Gimbal.c:73`). -/
def servoSetAngleTo (setAngle : UInt32) (motorIndex : Int) : List Effect :=
  let setAngle := if setAngle ≤ 0 then 0 else setAngle
  let setAngle := if setAngle ≥ servoMaxDegree.toUInt32 then servoMaxDegree.toUInt32 else setAngle
  (if motorIndex = 0 then
    [.mcpwmSetDutyInUs .unit0 (servoPerDegreeInit setAngle), .vTaskDelay 10] else []) ++
  (if motorIndex = 1 then
    [.mcpwmSetDutyInUs .unit1 (servoPerDegreeInit setAngle), .vTaskDelay 10] else [])

/-- The boot position of the servos. Source: `Gimbal_server_start` (`Gimbal.c:30`). -/
def gimbalServerStart : List Effect := servoSetAngleTo 235 0 ++ servoSetAngleTo 90 1

/-- The pulse width of an `int` angle, converted to the parameter's `uint32_t`. -/
def pulse (angle : Int) : UInt32 := servoPerDegreeInit (UInt32.ofInt angle)

/-! ## Arithmetic -/

/-- On the range of the servo the 32-bit product does not wrap. -/
theorem servoPerDegreeInit_toNat {d : UInt32} (h : d.toNat ≤ servoMaxDegree) :
    (servoPerDegreeInit d).toNat = 500 + 2000 * d.toNat / 270 := by
  have hd : d.toNat ≤ 270 := h
  have hsub : (servoMaxPulsewidth - servoMinPulsewidth).toNat = 2000 := rfl
  have hmin : servoMinPulsewidth.toNat = 500 := rfl
  have hmax : (servoMaxDegree.toUInt32).toNat = 270 := rfl
  unfold servoPerDegreeInit
  have hmul : 2000 * d.toNat % 2 ^ 32 = 2000 * d.toNat := Nat.mod_eq_of_lt (by omega)
  rw [UInt32.toNat_add, UInt32.toNat_div, UInt32.toNat_mul, hsub, hmin, hmax, hmul]
  exact Nat.mod_eq_of_lt (by omega)

/-- The value of an `int` that is converted to `uint32_t`. -/
theorem toNat_ofInt_emod (a : Int) : ((UInt32.ofInt a).toNat : Int) = a % 2 ^ 32 := by
  rw [UInt32.ofInt, UInt32.toNat_ofNat']
  omega

/-- A nonnegative `int` keeps its value as a `uint32_t`. -/
theorem toNat_ofInt {a : Int} (h0 : 0 ≤ a) (h : a ≤ servoMaxDegree) :
    (UInt32.ofInt a).toNat = a.toNat := by
  have hmax : a ≤ 270 := h
  have hmod := toNat_ofInt_emod a
  omega

/-- The pulse width of an angle in the range of the servo. -/
theorem pulse_toNat {a : Int} (h0 : 0 ≤ a) (h : a ≤ servoMaxDegree) :
    ((pulse a).toNat : Int) = 500 + 2000 * a / 270 := by
  have hnat := toNat_ofInt h0 h
  have hmax : a ≤ 270 := h
  have hle : (UInt32.ofInt a).toNat ≤ servoMaxDegree := by
    rw [hnat]
    exact Int.toNat_le.2 h
  rw [pulse, servoPerDegreeInit_toNat hle, hnat]
  omega

/-! ## What the driver writes -/

/-- The angle after the driver's two checks. The first one has no effect: an unsigned angle is never
below 0. Source: `servo_set_angle_To` (`Gimbal.c:76`). -/
def checkedAngle (setAngle : UInt32) : UInt32 :=
  if setAngle ≥ servoMaxDegree.toUInt32 then servoMaxDegree.toUInt32 else setAngle

/-- For every unsigned angle the driver writes the pulse width of the checked angle to the servo of
the axis and waits. -/
theorem servoSetAngleTo_motorIndex (setAngle : UInt32) (axis : Axis) :
    servoSetAngleTo setAngle axis.motorIndex =
      [.mcpwmSetDutyInUs axis.unit (servoPerDegreeInit (checkedAngle setAngle)),
        .vTaskDelay 10] := by
  have hlow : (if setAngle ≤ 0 then 0 else setAngle) = setAngle := by
    split
    · next hle =>
      rw [UInt32.le_iff_toNat_le] at hle
      exact UInt32.toNat_inj.1 (Nat.le_zero.1 hle).symm
    · rfl
  unfold servoSetAngleTo
  simp only [hlow]
  cases axis <;> rfl

/-- The two checks leave the angle, up to the end of the servo's range. -/
theorem checkedAngle_toNat (u : UInt32) : (checkedAngle u).toNat = min u.toNat servoMaxDegree := by
  unfold checkedAngle
  split
  · next hge =>
    have hge : servoMaxDegree ≤ u.toNat := UInt32.le_iff_toNat_le.1 hge
    exact (min_eq_right hge).symm
  · next hlt =>
    have hlt : ¬ servoMaxDegree ≤ u.toNat := fun hge => hlt (UInt32.le_iff_toNat_le.2 hge)
    exact (min_eq_left (Nat.le_of_not_le hlt)).symm

/-- An angle beyond the end of the servo's range is cut to the end. -/
theorem checkedAngle_of_ge {u : UInt32} (h : servoMaxDegree ≤ u.toNat) :
    checkedAngle u = servoMaxDegree.toUInt32 := by
  refine UInt32.toNat_inj.1 ?_
  rw [checkedAngle_toNat, min_eq_right h]
  rfl

/-- An angle in the range of the servo stays. -/
theorem checkedAngle_of_le {u : UInt32} (h : u.toNat ≤ servoMaxDegree) : checkedAngle u = u := by
  refine UInt32.toNat_inj.1 ?_
  rw [checkedAngle_toNat, min_eq_left h]

/-- For an angle in the range of the servo the driver writes its pulse width to the servo of the
axis and waits. -/
theorem servoSetAngleTo_eq {a : Int} (h0 : 0 ≤ a) (h : a ≤ servoMaxDegree) (axis : Axis) :
    servoSetAngleTo (UInt32.ofInt a) axis.motorIndex =
      [.mcpwmSetDutyInUs axis.unit (pulse a), .vTaskDelay 10] := by
  have hle : (UInt32.ofInt a).toNat ≤ servoMaxDegree := by
    rw [toNat_ofInt h0 h]
    exact Int.toNat_le.2 h
  rw [servoSetAngleTo_motorIndex, checkedAngle_of_le hle, pulse]

/-- The product in `servo_per_degree_init` does not wrap for an angle that has passed the checks. -/
theorem checkedAngle_product (u : UInt32) :
    ((servoMaxPulsewidth - servoMinPulsewidth) * checkedAngle u).toNat =
      2000 * (checkedAngle u).toNat := by
  have hsub : (servoMaxPulsewidth - servoMinPulsewidth).toNat = 2000 := rfl
  have hmax : servoMaxDegree = 270 := rfl
  have hmin := checkedAngle_toNat u
  rw [UInt32.toNat_mul, hsub]
  exact Nat.mod_eq_of_lt (by omega)

/-- The pulse width of an angle that has passed the checks. -/
theorem servoPerDegreeInit_checkedAngle (u : UInt32) :
    (servoPerDegreeInit (checkedAngle u)).toNat = 500 + 2000 * min u.toNat 270 / 270 := by
  have hle : (checkedAngle u).toNat ≤ servoMaxDegree :=
    (checkedAngle_toNat u).trans_le (min_le_right _ _)
  rw [servoPerDegreeInit_toNat hle, checkedAngle_toNat]
  rfl

/-- **Monotone pulses.** Of two unsigned angles the driver writes no shorter pulse for the larger
one, and a longer one when both differ and lie in the range of the servo. The product in the
conversion does not wrap around for either. -/
theorem servoSetAngleTo_monotone {a b : UInt32} (hab : a ≤ b) (axis : Axis) :
    (∃ us us' : UInt32,
      servoSetAngleTo a axis.motorIndex = [.mcpwmSetDutyInUs axis.unit us, .vTaskDelay 10] ∧
      servoSetAngleTo b axis.motorIndex = [.mcpwmSetDutyInUs axis.unit us', .vTaskDelay 10] ∧
      us ≤ us' ∧ (a < b → b ≤ 270 → us < us')) ∧
    ∀ u : UInt32, ((servoMaxPulsewidth - servoMinPulsewidth) * checkedAngle u).toNat =
      (servoMaxPulsewidth - servoMinPulsewidth).toNat * (checkedAngle u).toNat := by
  have hle : a.toNat ≤ b.toNat := UInt32.le_iff_toNat_le.1 hab
  have hpa := servoPerDegreeInit_checkedAngle a
  have hpb := servoPerDegreeInit_checkedAngle b
  refine ⟨⟨_, _, servoSetAngleTo_motorIndex a axis, servoSetAngleTo_motorIndex b axis, ?_, ?_⟩,
    checkedAngle_product⟩
  · rw [UInt32.le_iff_toNat_le]
    omega
  · intro hlt hrange
    have hlt : a.toNat < b.toNat := UInt32.lt_iff_toNat_lt.1 hlt
    have hrange : b.toNat ≤ 270 := UInt32.le_iff_toNat_le.1 hrange
    -- one degree is more than seven microseconds
    rw [UInt32.lt_iff_toNat_lt]
    omega

/-- Two angles on either side of the middle. -/
theorem servoSetAngleTo_monotone_sides : ∃ us us' : UInt32,
    servoSetAngleTo 90 Axis.yaw.motorIndex = [.mcpwmSetDutyInUs .unit0 us, .vTaskDelay 10] ∧
    servoSetAngleTo 180 Axis.yaw.motorIndex = [.mcpwmSetDutyInUs .unit0 us', .vTaskDelay 10] ∧
    us ≤ us' ∧ ((90 : UInt32) < 180 → (180 : UInt32) ≤ 270 → us < us') :=
  (servoSetAngleTo_monotone (by decide) .yaw).1

/-- Without the checks the product wraps around, and a large angle has a short pulse. -/
example : servoPerDegreeInit 2147484 < servoPerDegreeInit 1 := by decide

end InfantryRM
