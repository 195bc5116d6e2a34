import InfantryRM.Drivers.Hardware

/-!
# The motor drivers

The four chassis motors (`Chassis.c`) and the friction-wheel and feeder motors (`Fire.c`), each
driven by two pins. The seven chassis functions are collected as `ChassisPattern`. Each writes all
eight chassis pins, so what they leave does not depend on what was there before
(`ChassisPattern.chassisPins_run`), and the seven patterns are pairwise different
(`ChassisPattern.pins_injective`) and none of them is the power-on state
(`ChassisPattern.pins_ne_powerOn`). A motor with equal levels on its two pins stands still
(`Motor.Stopped`).
-/

namespace InfantryRM

open Run

/-! ## Pins -/

def gpioOutputAIn1 : Pin := 16
def gpioOutputAIn2 : Pin := 17
def gpioOutputBIn1 : Pin := 32
def gpioOutputBIn2 : Pin := 33
def gpioOutputCIn1 : Pin := 13
def gpioOutputCIn2 : Pin := 15
def gpioOutputDIn1 : Pin := 0
def gpioOutputDIn2 : Pin := 2
def gpioFireAIn1 : Pin := 18
def gpioFireAIn2 : Pin := 5
def gpioFireBIn1 : Pin := 26
def gpioFireBIn2 : Pin := 25

/-- The level of a driven input. Source: `motorflagState` (`Chassis.h:29`), which no function
changes. -/
def motorflagState : Bool := false

/-- The level of a driven input of the launcher motors. Source: `FireFlagState` (`Fire.h:21`),
which no function changes. -/
def fireFlagState : Bool := false

/-- A DC motor on an L298N half: it turns when its two inputs differ. Source: the comments of
`Chassis.h:56` and `Fire.h:86`. -/
structure Motor where
  in1 : Pin
  in2 : Pin
  deriving DecidableEq, Repr

/-- IN1 = IN2: the motor brakes (both high) or coasts (both low). -/
def Motor.Stopped (m : Motor) (hw : Hardware) : Prop := hw.level m.in1 = hw.level m.in2

instance (m : Motor) (hw : Hardware) : Decidable (m.Stopped hw) :=
  inferInstanceAs (Decidable (_ = _))

def motorA : Motor := ⟨gpioOutputAIn1, gpioOutputAIn2⟩
def motorB : Motor := ⟨gpioOutputBIn1, gpioOutputBIn2⟩
def motorC : Motor := ⟨gpioOutputCIn1, gpioOutputCIn2⟩
def motorD : Motor := ⟨gpioOutputDIn1, gpioOutputDIn2⟩

/-- The feeder motor. Source: the pins of `Fire_A_config` (`Fire.h:45`). -/
def feederMotor : Motor := ⟨gpioFireAIn1, gpioFireAIn2⟩

/-- The friction-wheel motor. Source: the pins of `Fire_B_config` (`Fire.h:57`). -/
def frictionMotor : Motor := ⟨gpioFireBIn1, gpioFireBIn2⟩

def chassisMotors : List Motor := [motorA, motorB, motorC, motorD]

/-- The pins of a motor. -/
def Motor.pins (m : Motor) : List Pin := [m.in1, m.in2]

/-- The eight chassis pins. -/
def chassisPinList : List Pin := chassisMotors.flatMap Motor.pins

/-- The levels of the eight chassis pins. -/
def chassisPins (hw : Hardware) : List Bool := chassisPinList.map hw.level

/-- All four chassis motors stand still. -/
def ChassisStopped (hw : Hardware) : Prop := ∀ m ∈ chassisMotors, m.Stopped hw

instance (hw : Hardware) : Decidable (ChassisStopped hw) :=
  inferInstanceAs (Decidable (∀ m ∈ chassisMotors, m.Stopped hw))

/-! ## `Chassis.c` -/

/-- Source: `Chassis_En` (`Chassis.c:27`). -/
def chassisEn : List Effect :=
  [.gpioSetLevel gpioOutputAIn1 (!motorflagState),
   .gpioSetLevel gpioOutputAIn2 (!motorflagState),
   .gpioSetLevel gpioOutputBIn1 (!motorflagState),
   .gpioSetLevel gpioOutputBIn2 (!motorflagState),
   .gpioSetLevel gpioOutputCIn1 (!motorflagState),
   .gpioSetLevel gpioOutputCIn2 (!motorflagState),
   .gpioSetLevel gpioOutputDIn1 (!motorflagState),
   .gpioSetLevel gpioOutputDIn2 (!motorflagState)]

/-- Source: `Chassis_Forward` (`Chassis.c:74`). -/
def chassisForward : List Effect :=
  [.gpioSetLevel gpioOutputCIn1 (!motorflagState),
   .gpioSetLevel gpioOutputCIn2 motorflagState,
   .gpioSetLevel gpioOutputDIn1 (!motorflagState),
   .gpioSetLevel gpioOutputDIn2 motorflagState,
   .gpioSetLevel gpioOutputAIn1 motorflagState,
   .gpioSetLevel gpioOutputAIn2 (!motorflagState),
   .gpioSetLevel gpioOutputBIn1 motorflagState,
   .gpioSetLevel gpioOutputBIn2 (!motorflagState)]

/-- Source: `Chassis_Backward` (`Chassis.c:106`). -/
def chassisBackward : List Effect :=
  [.gpioSetLevel gpioOutputAIn1 (!motorflagState),
   .gpioSetLevel gpioOutputAIn2 motorflagState,
   .gpioSetLevel gpioOutputBIn1 (!motorflagState),
   .gpioSetLevel gpioOutputBIn2 motorflagState,
   .gpioSetLevel gpioOutputCIn1 motorflagState,
   .gpioSetLevel gpioOutputCIn2 (!motorflagState),
   .gpioSetLevel gpioOutputDIn1 motorflagState,
   .gpioSetLevel gpioOutputDIn2 (!motorflagState)]

/-- Source: `Chassis_Left` (`Chassis.c:138`). -/
def chassisLeft : List Effect :=
  [.gpioSetLevel gpioOutputBIn1 motorflagState,
   .gpioSetLevel gpioOutputBIn2 (!motorflagState),
   .gpioSetLevel gpioOutputCIn1 motorflagState,
   .gpioSetLevel gpioOutputCIn2 (!motorflagState),
   .gpioSetLevel gpioOutputDIn1 (!motorflagState),
   .gpioSetLevel gpioOutputDIn2 motorflagState,
   .gpioSetLevel gpioOutputAIn1 (!motorflagState),
   .gpioSetLevel gpioOutputAIn2 motorflagState]

/-- Source: `Chassis_Right` (`Chassis.c:170`). -/
def chassisRight : List Effect :=
  [.gpioSetLevel gpioOutputAIn1 motorflagState,
   .gpioSetLevel gpioOutputAIn2 (!motorflagState),
   .gpioSetLevel gpioOutputDIn1 motorflagState,
   .gpioSetLevel gpioOutputDIn2 (!motorflagState),
   .gpioSetLevel gpioOutputBIn1 (!motorflagState),
   .gpioSetLevel gpioOutputBIn2 motorflagState,
   .gpioSetLevel gpioOutputCIn1 (!motorflagState),
   .gpioSetLevel gpioOutputCIn2 motorflagState]

/-- Source: `Chassis_Left_revolve` (`Chassis.c:202`). -/
def chassisLeftRevolve : List Effect :=
  [.gpioSetLevel gpioOutputAIn1 motorflagState,
   .gpioSetLevel gpioOutputAIn2 (!motorflagState),
   .gpioSetLevel gpioOutputBIn1 (!motorflagState),
   .gpioSetLevel gpioOutputBIn2 motorflagState,
   .gpioSetLevel gpioOutputCIn1 motorflagState,
   .gpioSetLevel gpioOutputCIn2 (!motorflagState),
   .gpioSetLevel gpioOutputDIn1 (!motorflagState),
   .gpioSetLevel gpioOutputDIn2 motorflagState]

/-- Source: `Chassis_Right_revolve` (`Chassis.c:229`). -/
def chassisRightRevolve : List Effect :=
  [.gpioSetLevel gpioOutputAIn1 (!motorflagState),
   .gpioSetLevel gpioOutputAIn2 motorflagState,
   .gpioSetLevel gpioOutputBIn1 motorflagState,
   .gpioSetLevel gpioOutputBIn2 (!motorflagState),
   .gpioSetLevel gpioOutputCIn1 (!motorflagState),
   .gpioSetLevel gpioOutputCIn2 motorflagState,
   .gpioSetLevel gpioOutputDIn1 motorflagState,
   .gpioSetLevel gpioOutputDIn2 (!motorflagState)]

/-! ## `Fire.c` -/

/-- Source: `Fire_friction_wheel` (`Fire.c:27`). -/
def fireFrictionWheel : List Effect :=
  [.gpioSetLevel gpioFireBIn1 (!fireFlagState), .gpioSetLevel gpioFireBIn2 fireFlagState]

/-- Source: `Fire_Pluck_Run` (`Fire.c:36`). -/
def firePluckRun : List Effect :=
  [.gpioSetLevel gpioFireAIn1 fireFlagState, .gpioSetLevel gpioFireAIn2 (!fireFlagState)]

/-- Source: `Stop_Fire_friction` (`Fire.c:45`). -/
def stopFireFriction : List Effect :=
  [.gpioSetLevel gpioFireBIn1 (!fireFlagState), .gpioSetLevel gpioFireBIn2 (!fireFlagState)]

/-- Source: `Stop_Fire_Pluck` (`Fire.c:54`). -/
def stopFirePluck : List Effect :=
  [.gpioSetLevel gpioFireAIn1 (!fireFlagState), .gpioSetLevel gpioFireAIn2 (!fireFlagState)]

/-! ## Movement patterns -/

/-- The movements of the chassis, one for each driver function. -/
inductive ChassisPattern
  | stop
  | forward
  | backward
  | left
  | right
  | leftRevolve
  | rightRevolve
  deriving DecidableEq, Repr

instance : Fintype ChassisPattern where
  elems := {.stop, .forward, .backward, .left, .right, .leftRevolve, .rightRevolve}
  complete p := by cases p <;> decide

/-- The driver function of a movement. -/
def ChassisPattern.drive : ChassisPattern → List Effect
  | .stop => chassisEn
  | .forward => chassisForward
  | .backward => chassisBackward
  | .left => chassisLeft
  | .right => chassisRight
  | .leftRevolve => chassisLeftRevolve
  | .rightRevolve => chassisRightRevolve

/-- The levels that a movement's driver function leaves on the eight chassis pins. -/
def ChassisPattern.pins (p : ChassisPattern) : List Bool := chassisPins (powerOn.run p.drive)

/-- Every driver function writes every chassis pin, so it leaves its pattern whatever was there
before. -/
theorem ChassisPattern.chassisPins_run (p : ChassisPattern) (hw : Hardware) :
    chassisPins (hw.run p.drive) = p.pins := by
  have hall : ∀ p : ChassisPattern, ∀ pin ∈ chassisPinList,
      (lastSome (Effect.levelOf pin) p.drive).isSome := by decide
  exact Hardware.run_map_level_eq (hall p) hw powerOn

/-- Different movements have different levels. -/
theorem ChassisPattern.pins_injective : Function.Injective ChassisPattern.pins := by
  have h : ∀ p q : ChassisPattern, p.pins = q.pins → p = q := by decide
  exact fun p q => h p q

/-- No movement leaves the levels of power-on. -/
theorem ChassisPattern.pins_ne_powerOn (p : ChassisPattern) : p.pins ≠ chassisPins powerOn := by
  have h : ∀ p : ChassisPattern, p.pins ≠ chassisPins powerOn := by decide
  exact h p

/-! ## Standing still -/

/-- Whether the chassis stands still is read off the eight chassis pins. -/
theorem chassisStopped_congr {hw hw' : Hardware} (h : chassisPins hw = chassisPins hw') :
    ChassisStopped hw ↔ ChassisStopped hw' := by
  have hpin : ∀ pin ∈ chassisPinList, hw.level pin = hw'.level pin := List.map_inj_left.1 h
  refine forall₂_congr ?_
  intro m hm
  have hm1 : m.in1 ∈ chassisPinList := List.mem_flatMap.2 ⟨m, hm, by simp [Motor.pins]⟩
  have hm2 : m.in2 ∈ chassisPinList := List.mem_flatMap.2 ⟨m, hm, by simp [Motor.pins]⟩
  unfold Motor.Stopped
  rw [hpin _ hm1, hpin _ hm2]

/-- Of the seven movements only the stop makes the chassis stand still. -/
theorem ChassisPattern.chassisStopped_run_iff (p : ChassisPattern) (hw : Hardware) :
    ChassisStopped (hw.run p.drive) ↔ p = .stop := by
  have h : ∀ p : ChassisPattern, ChassisStopped (powerOn.run p.drive) ↔ p = .stop := by decide
  exact (chassisStopped_congr (p.chassisPins_run hw)).trans (h p)

end InfantryRM
