import InfantryRM.DnsServer.Task
import InfantryRM.Robot.Range
import InfantryRM.Server.Transients

/-!
# The firmware from power-on

`app_main` sets up the pins of the motors and of the servos, moves the servos to their boot
position, starts the network and then the two servers. Some of its calls are checked: when one of
them fails the chip restarts, and `app_main` begins again, with the pins and the PWM units as they
were or as after power-on. The calls that create a task are not checked: `app_main` goes on without
the task. `Firmware` composes all of this with the tasks of the web server (`Server`) and of the DNS
server (`DnsTask`), which share nothing.

**Configured before use** (`configured_before_use`): however often the firmware restarts, no task
and no part of `app_main` writes to an actuator that is not set up for the write, the pins of the
motors are low from their set-up until the web server is up, and the servers' tasks behave as they
do on their own, started from the state after a boot without failures. Until its set-up a pin is as
the reset of the chip leaves it, which may be an input with a pull-up resistor (`Device.level`).
-/

namespace InfantryRM

open Run

/-! ## Pins and PWM units -/

/-- The direction of a pin. -/
inductive GpioMode
  | disable
  | input
  | output
  deriving DecidableEq, Repr

/-- The argument of `gpio_config`. -/
structure GpioConfig where
  pinBitMask : UInt64
  mode : GpioMode
  pullUpEn : Bool
  pullDownEn : Bool
  deriving DecidableEq, Repr

/-- The argument of `mcpwm_init`: a frequency in Hz and a duty in percent. -/
structure McpwmConfig where
  frequency : Nat
  cmprA : Nat
  deriving DecidableEq, Repr

/-- How a pin is set up: its direction, its pull resistors, and the PWM unit that drives it as an
output instead of its latch, if one does. -/
structure PinSetup where
  mode : GpioMode
  pullUpEn : Bool
  pullDownEn : Bool
  source : Option McpwmUnit
  deriving DecidableEq, Repr

/-- The peripherals. A PWM unit that has not been initialised has frequency 0. -/
structure Device where
  pins : Pin → PinSetup
  frequency : McpwmUnit → Nat
  hw : Hardware

/-- The peripherals after power-on, which leaves the pins in a setup of the chip. -/
def Device.powerOn (resetPins : Pin → PinSetup) : Device :=
  ⟨resetPins, fun _ => 0, InfantryRM.powerOn⟩

/-- The pins `in1` and `in2` as bits. Source: `GPIO_OUTPUT_A_PIN_SEL` (`Chassis.h:66`). -/
def Motor.pinSel (m : Motor) : UInt64 := 1 <<< m.in1.toUInt64 ||| 1 <<< m.in2.toUInt64

/-- Two output pins without pull resistors, as every motor has them. -/
def Motor.conf (m : Motor) : GpioConfig := ⟨m.pinSel, .output, false, false⟩

/-- Source: `motorA_conf` (`Chassis.h:84`). -/
def motorAConf : GpioConfig := motorA.conf

/-- Source: `motorB_conf` (`Chassis.h:96`). -/
def motorBConf : GpioConfig := motorB.conf

/-- Source: `motorC_conf` (`Chassis.h:108`). -/
def motorCConf : GpioConfig := motorC.conf

/-- Source: `motorD_conf` (`Chassis.h:120`). -/
def motorDConf : GpioConfig := motorD.conf

/-- Source: `Fire_A_config` (`Fire.h:45`). -/
def fireAConfig : GpioConfig := feederMotor.conf

/-- Source: `Fire_B_config` (`Fire.h:57`). -/
def fireBConfig : GpioConfig := frictionMotor.conf

def gpioGimbalYaw : Pin := 22
def gpioGimbalPitch : Pin := 23

/-- The pin of a servo. -/
def McpwmUnit.gpio : McpwmUnit → Pin
  | .unit0 => gpioGimbalYaw
  | .unit1 => gpioGimbalPitch

/-- Source: `Yaw_pwm_config` (`Gimbal.h:44`). -/
def yawPwmConfig : McpwmConfig := ⟨50, 0⟩

/-- Source: `Pitch_pwm_config` (`Gimbal.h:52`). -/
def pitchPwmConfig : McpwmConfig := ⟨50, 0⟩

/-! ## `app_main` -/

/-- The calls of the network stack. -/
inductive NetworkCall
  | nvsFlashInit
  | tcpipAdapterInit
  | xEventGroupCreate
  | espEventLoopInit
  | espWifiInit
  | espWifiSetMode
  | espWifiSetConfig
  | espWifiStart
  deriving DecidableEq, Repr

/-- The tasks that `app_main` creates. -/
inductive Service
  | myDnsServer
  | webserver
  deriving DecidableEq, Repr

/-- A call of `app_main`. A network call in `ESP_ERROR_CHECK` is an `errorCheck`. -/
inductive BootCall
  | gpioConfig (conf : GpioConfig)
  | mcpwmGpioInit (unit : McpwmUnit) (gpio : Pin)
  | mcpwmInit (unit : McpwmUnit) (conf : McpwmConfig)
  | effect (e : Effect)
  | network (call : NetworkCall)
  | errorCheck (call : NetworkCall)
  | xQueueCreate
  | xTaskCreate (service : Service)
  deriving DecidableEq, Repr

/-- Source: `Chassis_Init` (`Chassis.c:10`). -/
def chassisInit : List BootCall :=
  [.gpioConfig motorAConf, .gpioConfig motorBConf, .gpioConfig motorCConf, .gpioConfig motorDConf]

/-- Source: `mcpwm_example_gpio_initialize` (`Gimbal.c:8`). -/
def mcpwmExampleGpioInitialize : List BootCall :=
  [.mcpwmGpioInit .unit0 gpioGimbalYaw, .mcpwmGpioInit .unit1 gpioGimbalPitch]

/-- All calls of `Gimbal_server_start` (`Gimbal.c:30`); those that move the servos are
`gimbalServerStart`. -/
def gimbalServerStartCalls : List BootCall :=
  mcpwmExampleGpioInitialize ++
    [.mcpwmInit .unit0 yawPwmConfig, .mcpwmInit .unit1 pitchPwmConfig] ++
    gimbalServerStart.map .effect

/-- Source: `FIRE_Init` (`Fire.c:17`). -/
def fireInit : List BootCall := [.gpioConfig fireAConfig, .gpioConfig fireBConfig]

/-- Source: `initialise_wifi` (`main.c:82`). -/
def initialiseWifi : List BootCall :=
  [.network .tcpipAdapterInit, .network .xEventGroupCreate, .errorCheck .espEventLoopInit,
    .errorCheck .espWifiInit, .errorCheck .espWifiSetMode, .errorCheck .espWifiSetConfig,
    .errorCheck .espWifiStart]

/-- Source: `dns_server_start` (`my_dns_server.c:147`). -/
def dnsServerStart : List BootCall := [.xTaskCreate .myDnsServer]

/-- Source: `web_server_start` (`webserver.c:579`). -/
def webServerStart : List BootCall := [.xQueueCreate, .xTaskCreate .webserver]

/-- The delay is a second at 100 ticks a second. Source: `app_main` (`main.c:148`). -/
def appMain : List BootCall :=
  chassisInit ++ gimbalServerStartCalls ++ fireInit ++
    [.effect (.vTaskDelay 100), .errorCheck .nvsFlashInit] ++
    initialiseWifi ++ dnsServerStart ++ webServerStart

/-- A call that succeeds. `gpio_config` takes the pins from whatever drove them, `mcpwm_gpio_init`
gives its pin to the unit, and `mcpwm_init` sets the frequency and the duty. -/
def Device.call (d : Device) : BootCall → Device
  | .gpioConfig conf =>
    { d with pins := fun pin =>
        if conf.pinBitMask.toNat.testBit pin then
          ⟨conf.mode, conf.pullUpEn, conf.pullDownEn, none⟩
        else d.pins pin }
  | .mcpwmGpioInit unit gpio =>
    let setup := { d.pins gpio with mode := .output, source := some unit }
    { d with pins := Function.update d.pins gpio setup }
  | .mcpwmInit unit conf =>
    let us := conf.cmprA * (1000000 / conf.frequency) / 100
    { d with
      frequency := Function.update d.frequency unit conf.frequency
      hw := { d.hw with duty := Function.update d.hw.duty unit us.toUInt32 } }
  | .effect e => { d with hw := d.hw.apply e }
  | .network _ | .errorCheck _ | .xQueueCreate | .xTaskCreate _ => d

/-! ## The firmware -/

/-- Where the task of the web server stands. Its loop and the tasks that this creates are a
`Server`. Source: `webserver` (`webserver.c:492`). -/
inductive WebServer
  | absent
  | socket
  | bind
  | running (s : Server)
  | deleted

/-- `app_main` with what is left of it, and the tasks that it has created. -/
structure Firmware where
  todo : List BootCall
  device : Device
  dns : Option DnsTask
  web : WebServer

/-- Where `app_main` begins. -/
def Firmware.start (d : Device) : Firmware := ⟨appMain, d, none, .absent⟩

/-- The web server before the first connection, when the peripherals hold `hw`. -/
def Server.ofHardware (hw : Hardware) : Server := { Server.init with robot := ⟨Angles.init, hw⟩ }

/-- The next call of `app_main` succeeds. `data` is what the stack of a new task holds. -/
def Firmware.call (f : Firmware) (data : Data) : Option Firmware :=
  match f.todo with
  | [] => none
  | c :: todo =>
    let next := { f with todo := todo, device := f.device.call c }
    match c with
    | .xTaskCreate .myDnsServer => some { next with dns := some (.init data) }
    | .xTaskCreate .webserver => some { next with web := .socket }
    | _ => some next

/-- The next call of `app_main` fails. After a checked call the chip restarts; `keeps` tells whether
the peripherals keep their state. The result of `xTaskCreate` is not looked at. -/
def Firmware.fail (resetPins : Pin → PinSetup) (f : Firmware) (keeps : Bool) : Option Firmware :=
  match f.todo with
  | .errorCheck _ :: _ | .xQueueCreate :: _ =>
    some (.start (if keeps then f.device else .powerOn resetPins))
  | .xTaskCreate _ :: todo => some { f with todo := todo }
  | _ => none

/-- The web server's call of `socket` returns; without a socket the task ends. Source:
`webserver.c:504`. -/
def Firmware.socket (f : Firmware) (ok : Bool) : Option Firmware :=
  match f.web with
  | .socket => some { f with web := if ok then .bind else .deleted }
  | _ => none

/-- The web server's call of `bind` returns. Source: `webserver.c:515`. -/
def Firmware.bind (f : Firmware) (ok : Bool) : Option Firmware :=
  match f.web with
  | .bind => some { f with web := if ok then .running (.ofHardware f.device.hw) else .deleted }
  | _ => none

/-- A task of the web server moves. -/
def Firmware.webStep (indexHtml : List UInt8) (f : Firmware) (l : Label) : Option Firmware :=
  match f.web with
  | .running s =>
    (s.step indexHtml l).map fun t =>
      { f with device := { f.device with hw := t.robot.hw }, web := .running t }
  | _ => none

/-- The task of the DNS server moves. -/
def Firmware.dnsStep (f : Firmware) (l : DnsLabel) : Option Firmware :=
  match f.dns with
  | some s => (s.step l).map fun t => { f with dns := some t }
  | none => none

/-- Who moves in the firmware. -/
inductive FirmwareLabel
  | call (data : Data)
  | fail (keeps : Bool)
  | socket (ok : Bool)
  | bind (ok : Bool)
  | web (l : Label)
  | dns (l : DnsLabel)

/-- A step of the firmware. -/
def Firmware.step (indexHtml : List UInt8) (resetPins : Pin → PinSetup) (f : Firmware) :
    FirmwareLabel → Option Firmware
  | .call data => f.call data
  | .fail keeps => f.fail resetPins keeps
  | .socket ok => f.socket ok
  | .bind ok => f.bind ok
  | .web l => f.webStep indexHtml l
  | .dns l => f.dnsStep l

/-- The actuator write of a call. -/
def BootCall.write : BootCall → Option Effect
  | .effect e => if e.isWrite then some e else none
  | _ => none

/-- The actuator write of a step. -/
def Firmware.write (f : Firmware) : FirmwareLabel → Option Effect
  | .call _ => f.todo.head?.bind BootCall.write
  | .web l =>
    match f.web with
    | .running s => s.write l
    | _ => none
  | .fail _ | .socket _ | .bind _ | .dns _ => none

/-- The states of the runs from power-on. -/
def Firmware.Reachable (indexHtml : List UInt8) (resetPins : Pin → PinSetup) (f : Firmware) :
    Prop :=
  Run.Reachable (Firmware.step indexHtml resetPins) (.start (.powerOn resetPins)) f

/-! ## What a call needs -/

/-- The level of a pin, as far as the chip decides it. An output that no PWM unit drives has the
level of its latch, and a pin that is no output has that of its pull resistor. -/
def Device.level (d : Device) (pin : Pin) : Option Bool :=
  let setup := d.pins pin
  match setup.mode, setup.source with
  | .output, none => some (d.hw.level pin)
  | .output, some _ => none
  | .input, _ | .disable, _ =>
    if setup.pullUpEn = setup.pullDownEn then none else some setup.pullUpEn

/-- The direction of a pin, and what drives it. -/
def Device.signal (d : Device) (pin : Pin) : GpioMode × Option McpwmUnit :=
  ((d.pins pin).mode, (d.pins pin).source)

/-- A unit's pulses reach its servo, 50 of them in a second. -/
def Device.ServoReady (d : Device) (unit : McpwmUnit) : Prop :=
  d.signal unit.gpio = (.output, some unit) ∧ d.frequency unit = 50

/-- The peripherals are set up for a write: a level reaches its pin, and a pulse reaches its servo
and fits in the 20 ms of its period. -/
def Device.Ready (d : Device) : Effect → Prop
  | .gpioSetLevel pin _ => d.signal pin = (.output, none)
  | .mcpwmSetDutyInUs unit us => d.ServoReady unit ∧ 0 < us.toNat ∧ us.toNat ≤ 20000
  | .vTaskDelay _ => True

/-- All motors and servos are set up. -/
structure Device.Configured (d : Device) : Prop where
  motors : ∀ m ∈ motors, ∀ pin ∈ m.pins, d.signal pin = (.output, none)
  servos : ∀ unit, d.ServoReady unit

/-- No output latch is high. -/
def Device.Quiet (d : Device) : Prop := d.hw.level = fun _ => false

/-- Nothing has been written to the motors: no output latch is high, and their pins are as the reset
leaves them, or outputs. -/
structure Device.Untouched (resetPins : Pin → PinSetup) (d : Device) : Prop where
  quiet : d.Quiet
  pins : ∀ m ∈ motors, ∀ pin ∈ m.pins, d.pins pin = resetPins pin ∨ d.signal pin = (.output, none)

/-- What a call makes of a pin. -/
def BootCall.signalOf (pin : Pin) : BootCall → Option (GpioMode × Option McpwmUnit)
  | .gpioConfig conf => if conf.pinBitMask.toNat.testBit pin then some (conf.mode, none) else none
  | .mcpwmGpioInit unit gpio => if gpio = pin then some (.output, some unit) else none
  | _ => none

/-- The frequency that a call gives to a unit. -/
def BootCall.frequencyOf (unit : McpwmUnit) : BootCall → Option Nat
  | .mcpwmInit u conf => if u = unit then some conf.frequency else none
  | _ => none

/-- The duty that a call gives to a unit. -/
def BootCall.dutyOf (unit : McpwmUnit) : BootCall → Option UInt32
  | .mcpwmInit u conf =>
    if u = unit then some (conf.cmprA * (1000000 / conf.frequency) / 100).toUInt32 else none
  | .effect e => e.dutyOf unit
  | _ => none

/-- The calls make a servo ready. -/
def ServoSet (done : List BootCall) (unit : McpwmUnit) : Prop :=
  lastSome (BootCall.signalOf unit.gpio) done = some (.output, some unit) ∧
    lastSome (BootCall.frequencyOf unit) done = some 50

instance (done : List BootCall) (unit : McpwmUnit) : Decidable (ServoSet done unit) :=
  inferInstanceAs (Decidable (_ ∧ _))

/-- What a call needs of the calls before it. `app_main` drives no motor itself, and it starts the
web server last. -/
def BootCall.Prepared (done : List BootCall) : BootCall → Prop
  | .effect (.gpioSetLevel _ _) => False
  | .effect (.mcpwmSetDutyInUs unit us) => ServoSet done unit ∧ 0 < us.toNat ∧ us.toNat ≤ 20000
  | .xTaskCreate .webserver =>
    (∀ m ∈ motors, ∀ pin ∈ m.pins,
      lastSome (BootCall.signalOf pin) done = some (.output, none)) ∧
    (∀ unit ∈ [McpwmUnit.unit0, .unit1], ServoSet done unit ∧
      lastSome (BootCall.dutyOf unit) done = some (boot.hw.duty unit)) ∧
    done.length + 1 = appMain.length
  | _ => True

instance (done : List BootCall) (c : BootCall) : Decidable (c.Prepared done) := by
  unfold BootCall.Prepared
  split <;> infer_instance

/-- Every call of `app_main` finds what it needs. -/
theorem appMain_prepared : ∀ k (hk : k < appMain.length), appMain[k].Prepared (appMain.take k) := by
  decide +kernel

/-- `app_main` makes the pins of the motors outputs, and makes nothing else of them. -/
theorem appMain_signalOf : ∀ m ∈ motors, ∀ pin ∈ m.pins,
    (∀ c ∈ appMain, c.signalOf pin = none ∨ c.signalOf pin = some (.output, none)) ∧
      lastSome (BootCall.signalOf pin) appMain = some (.output, none) := by
  decide +kernel

section
variable {d : Device} {c : BootCall} {todo : List BootCall} {e : Effect} {unit : McpwmUnit}
  {resetPins : Pin → PinSetup} {m : Motor} {pin : Pin}

theorem Device.signal_call (pin : Pin) (d : Device) (c : BootCall) :
    (d.call c).signal pin = (c.signalOf pin).getD (d.signal pin) := by
  cases c with
  | gpioConfig conf =>
    unfold Device.signal Device.call BootCall.signalOf
    dsimp only
    split <;> rfl
  | mcpwmGpioInit unit gpio =>
    by_cases h : gpio = pin
    · subst h; simp [Device.signal, Device.call, BootCall.signalOf]
    · simp [Device.signal, Device.call, BootCall.signalOf, h, Function.update_of_ne (Ne.symm h)]
  | mcpwmInit | effect | network | errorCheck | xQueueCreate | xTaskCreate => rfl

/-- A call that is not for a pin leaves its setup alone. -/
theorem Device.pins_call (h : c.signalOf pin = none) : (d.call c).pins pin = d.pins pin := by
  cases c with
  | gpioConfig conf =>
    by_cases hbit : conf.pinBitMask.toNat.testBit pin = true
    · rw [BootCall.signalOf, if_pos hbit] at h
      cases h
    · exact if_neg hbit
  | mcpwmGpioInit unit gpio =>
    by_cases hgpio : gpio = pin
    · rw [BootCall.signalOf, if_pos hgpio] at h
      cases h
    · exact Function.update_of_ne (Ne.symm hgpio) _ _
  | mcpwmInit | effect | network | errorCheck | xQueueCreate | xTaskCreate => rfl

/-- A low output. -/
theorem Device.Quiet.level (hd : d.Quiet) (hpin : d.signal pin = (.output, none)) :
    d.level pin = some false := by
  obtain ⟨hmode, hsource⟩ := Prod.mk.inj hpin
  have hlatch : d.hw.level pin = false := congrFun hd pin
  simp only [Device.level, hmode, hsource, hlatch]

theorem Device.frequency_call (unit : McpwmUnit) (d : Device) (c : BootCall) :
    (d.call c).frequency unit = (c.frequencyOf unit).getD (d.frequency unit) := by
  cases c with
  | mcpwmInit u conf =>
    by_cases h : u = unit
    · subst h; simp [Device.call, BootCall.frequencyOf]
    · simp [Device.call, BootCall.frequencyOf, h, Function.update_of_ne (Ne.symm h)]
  | gpioConfig | mcpwmGpioInit | effect | network | errorCheck | xQueueCreate | xTaskCreate => rfl

theorem Device.duty_call (unit : McpwmUnit) (d : Device) (c : BootCall) :
    (d.call c).hw.duty unit = (c.dutyOf unit).getD (d.hw.duty unit) := by
  cases c with
  | mcpwmInit u conf =>
    by_cases h : u = unit
    · subst h; simp [Device.call, BootCall.dutyOf]
    · simp [Device.call, BootCall.dutyOf, h, Function.update_of_ne (Ne.symm h)]
  | effect e =>
    have hrun := d.hw.run_duty [e] unit
    rwa [lastSome, List.reverse_singleton, List.findSome?_singleton] at hrun
  | gpioConfig | mcpwmGpioInit | network | errorCheck | xQueueCreate | xTaskCreate => rfl

/-- A call that is prepared leaves the output latches as they are. -/
theorem Device.Quiet.call {done : List BootCall} (hd : d.Quiet) (hc : c.Prepared done) :
    (d.call c).Quiet := by
  cases c with
  | effect e =>
    cases e with
    | gpioSetLevel pin level => exact hc.elim
    | mcpwmSetDutyInUs | vTaskDelay => exact hd
  | gpioConfig | mcpwmGpioInit | mcpwmInit | network | errorCheck | xQueueCreate | xTaskCreate =>
    exact hd

/-- `app_main` writes nothing to the motors. -/
theorem untouched_of_underway
    (h : Underway Device.call (Device.Untouched resetPins) appMain todo d) :
    d.Untouched resetPins := by
  refine h.keeps ?_
  intro c hc d hd
  refine ⟨?_, fun m hm pin hpin => ?_⟩
  · obtain ⟨done, rest, hsplit⟩ := List.append_of_mem hc
    exact hd.quiet.call (of_forall_take appMain_prepared hsplit.symm)
  · have hsignal := d.signal_call pin c
    rcases (appMain_signalOf m hm pin hpin).1 c hc with hnone | hout
    · rw [hnone] at hsignal
      exact (hd.pins m hm pin hpin).imp (Device.pins_call hnone).trans hsignal.trans
    · rw [hout] at hsignal
      exact .inr hsignal

/-- During the boot a motor's pin is low, or it is as the reset leaves it and its set-up is still to
come. -/
theorem low_of_underway (h : Underway Device.call (Device.Untouched resetPins) appMain todo d)
    (hm : m ∈ motors) (hpin : pin ∈ m.pins) :
    d.level pin = some false ∨
      d.pins pin = resetPins pin ∧ ∃ c ∈ todo, c.signalOf pin = some (.output, none) := by
  have hd := untouched_of_underway h
  obtain ⟨hcalls, hlast⟩ := appMain_signalOf m hm pin hpin
  by_cases hcomes : ∃ c ∈ todo, c.signalOf pin = some (.output, none)
  · exact (hd.pins m hm pin hpin).symm.imp hd.quiet.level fun hreset => ⟨hreset, hcomes⟩
  · refine .inl (hd.quiet.level ?_)
    refine h.register (fun d => d.signal pin) (Device.signal_call pin) fun done hdone => ?_
    -- no call that is left is for the pin, so the last one that is has been made
    have hrest : lastSome (BootCall.signalOf pin) todo = none := by
      refine List.findSome?_eq_none_iff.2 fun c hc => ?_
      have hmem := List.mem_reverse.1 hc
      have happ : c ∈ appMain := hdone ▸ List.mem_append_right done hmem
      exact (hcalls c happ).resolve_right fun hout => hcomes ⟨c, hmem, hout⟩
    rwa [← hdone, lastSome_append, hrest, Option.none_or] at hlast

/-- The calls so far have made a servo ready. -/
theorem servoReady_of_underway
    (h : Underway Device.call (Device.Untouched resetPins) appMain todo d)
    (hset : ∀ done, done ++ todo = appMain → ServoSet done unit) : d.ServoReady unit :=
  ⟨h.register (fun d => d.signal unit.gpio) (Device.signal_call _) fun done hd => (hset done hd).1,
    h.register (fun d => d.frequency unit) (Device.frequency_call _) fun done hd =>
      (hset done hd).2⟩

/-- **A part of the boot.** The peripherals are set up for the next write of `app_main`. -/
theorem ready_of_underway
    (h : Underway Device.call (Device.Untouched resetPins) appMain (.effect e :: todo) d) :
    d.Ready e := by
  have hprepared (done : List BootCall) (hd : done ++ .effect e :: todo = appMain) :
      (BootCall.effect e).Prepared done := of_forall_take appMain_prepared hd
  obtain ⟨done, -, hd, -⟩ := id h
  cases e with
  | gpioSetLevel pin level => exact (hprepared done hd).elim
  | mcpwmSetDutyInUs unit us =>
    refine ⟨servoReady_of_underway h fun done hd => (hprepared done hd).1, (hprepared done hd).2⟩
  | vTaskDelay ticks => trivial

/-- **The whole boot.** When the web server starts, nothing is left of `app_main`, all motors and
servos are set up, and the peripherals hold what they hold after a boot without failures. -/
theorem configured_of_underway
    (h : Underway Device.call (Device.Untouched resetPins) appMain
      (.xTaskCreate .webserver :: todo) d) :
    todo = [] ∧ d.Configured ∧ d.hw = boot.hw := by
  have hprepared (done : List BootCall) (hd : done ++ .xTaskCreate .webserver :: todo = appMain) :
      (BootCall.xTaskCreate .webserver).Prepared done := of_forall_take appMain_prepared hd
  have hunit (unit : McpwmUnit) : unit ∈ [McpwmUnit.unit0, .unit1] := by cases unit <;> decide
  refine ⟨?_, ⟨fun m hm pin hpin => ?_, fun unit => ?_⟩, ?_⟩
  · obtain ⟨done, -, hd, -⟩ := h
    have hlast := (hprepared done hd).2.2
    rw [← hd, List.length_append, List.length_cons] at hlast
    exact List.length_eq_zero_iff.1 (by omega)
  · exact h.register (fun d => d.signal pin) (Device.signal_call pin) fun done hd =>
      (hprepared done hd).1 m hm pin hpin
  · exact servoReady_of_underway h fun done hd => ((hprepared done hd).2.1 unit (hunit unit)).1
  · have hlevel : d.hw.level = boot.hw.level := (untouched_of_underway h).quiet
    have hduty : d.hw.duty = boot.hw.duty := by
      funext unit
      exact h.register (fun d => d.hw.duty unit) (Device.duty_call unit) fun done hd =>
        ((hprepared done hd).2.1 unit (hunit unit)).2
    show Hardware.mk d.hw.level d.hw.duty = _
    rw [hlevel, hduty]

/-- **The calls of a record.** Set-up peripherals are ready for all of them. -/
theorem Device.Configured.ready (hd : d.Configured) {j : Job} {g : Angles}
    (he : e ∈ (webRecdata j g).2) : d.Ready e := by
  rcases mem_webRecdata he with ⟨pin, hpin, level, rfl⟩ | ⟨-, unit, us, rfl⟩ | ⟨ticks, rfl⟩
  · have hall : ∀ S : Subsystem, ∀ pin ∈ S.pins, ∃ m ∈ InfantryRM.motors, pin ∈ m.pins := by
      intro S
      cases S <;> decide
    obtain ⟨m, hm, hpin⟩ := hall _ pin hpin
    exact hd.motors m hm pin hpin
  · obtain ⟨a, h0, hmax, rfl⟩ := exists_pulse_of_mem_webRecdata he
    have hpulse := pulse_toNat h0 hmax
    have hmax : a ≤ 270 := hmax
    refine ⟨hd.servos unit, ?_, ?_⟩
    · omega
    · omega
  · trivial

end

/-! ## What a step can do -/

section
variable {f g : Firmware} {indexHtml : List UInt8} {resetPins : Pin → PinSetup}

theorem Firmware.call_cases {data : Data} (h : f.call data = some g) :
    ∃ c todo, f.todo = c :: todo ∧
      (c = .xTaskCreate .myDnsServer ∧
          g = { f with todo := todo, device := f.device.call c, dns := some (.init data) } ∨
        c = .xTaskCreate .webserver ∧
          g = { f with todo := todo, device := f.device.call c, web := .socket } ∨
        g = { f with todo := todo, device := f.device.call c }) := by
  unfold Firmware.call at h
  split at h
  · cases h
  · next c todo htodo =>
    refine ⟨c, todo, htodo, ?_⟩
    dsimp only at h
    split at h
    · cases h
      exact .inl ⟨rfl, rfl⟩
    · cases h
      exact .inr (.inl ⟨rfl, rfl⟩)
    · cases h
      exact .inr (.inr rfl)

theorem Firmware.fail_cases {keeps : Bool} (h : f.fail resetPins keeps = some g) :
    (f.todo ≠ [] ∧ g = .start (if keeps then f.device else .powerOn resetPins)) ∨
      ∃ service todo, f.todo = .xTaskCreate service :: todo ∧ g = { f with todo := todo } := by
  unfold Firmware.fail at h
  split at h
  · next htodo =>
    cases h
    exact .inl ⟨by rw [htodo]; exact List.cons_ne_nil _ _, rfl⟩
  · next htodo =>
    cases h
    exact .inl ⟨by rw [htodo]; exact List.cons_ne_nil _ _, rfl⟩
  · next service todo htodo =>
    cases h
    exact .inr ⟨service, todo, htodo, rfl⟩
  · cases h

theorem Firmware.socket_cases {ok : Bool} (h : f.socket ok = some g) :
    f.web = .socket ∧ g = { f with web := if ok then .bind else .deleted } := by
  unfold Firmware.socket at h
  split at h
  · next hweb =>
    cases h
    exact ⟨hweb, rfl⟩
  · cases h

theorem Firmware.bind_cases {ok : Bool} (h : f.bind ok = some g) :
    f.web = .bind ∧
      g = { f with web := if ok then .running (.ofHardware f.device.hw) else .deleted } := by
  unfold Firmware.bind at h
  split at h
  · next hweb =>
    cases h
    exact ⟨hweb, rfl⟩
  · cases h

theorem Firmware.webStep_cases {l : Label} (h : f.webStep indexHtml l = some g) :
    ∃ s t, f.web = .running s ∧ s.step indexHtml l = some t ∧
      g = { f with device := { f.device with hw := t.robot.hw }, web := .running t } := by
  unfold Firmware.webStep at h
  split at h
  · next s hweb =>
    obtain ⟨t, hst, rfl⟩ := Option.map_eq_some_iff.1 h
    exact ⟨s, t, hweb, hst, rfl⟩
  · cases h

theorem Firmware.dnsStep_cases {l : DnsLabel} (h : f.dnsStep l = some g) :
    ∃ s t, f.dns = some s ∧ s.step l = some t ∧ g = { f with dns := some t } := by
  unfold Firmware.dnsStep at h
  split at h
  · next s hdns =>
    obtain ⟨t, hst, rfl⟩ := Option.map_eq_some_iff.1 h
    exact ⟨s, t, hdns, hst, rfl⟩
  · cases h

/-- A call that writes is the write. -/
theorem BootCall.eq_of_write {c : BootCall} {e : Effect} (h : c.write = some e) :
    c = .effect e := by
  cases c with
  | effect e' =>
    rw [BootCall.write] at h
    split_ifs at h
    cases h
    rfl
  | gpioConfig | mcpwmGpioInit | mcpwmInit | network | errorCheck | xQueueCreate | xTaskCreate =>
    cases h

/-! ## The invariant -/

/-- The web server finds what the boot leaves, and then behaves as it does on its own. -/
def WebServer.Ok (indexHtml : List UInt8) (hw : Hardware) : WebServer → Prop
  | .absent => True
  | .socket | .bind | .deleted => hw = boot.hw
  | .running s => s.Reachable indexHtml ∧ s.robot.hw = hw

/-- `app_main` is under way until the web server's task is created, which is the last thing that it
does, on set-up peripherals. -/
structure Firmware.Ok (indexHtml : List UInt8) (resetPins : Pin → PinSetup) (f : Firmware) :
    Prop where
  booting : f.web = .absent →
    Underway Device.call (Device.Untouched resetPins) appMain f.todo f.device
  up : f.web ≠ .absent → f.todo = [] ∧ f.device.Configured
  web : f.web.Ok indexHtml f.device.hw
  dns : ∀ s, f.dns = some s → ∃ data, Run.Reachable DnsTask.step (.init data) s

/-- While something is left of `app_main` there is no web server. -/
theorem Firmware.Ok.underway (hf : f.Ok indexHtml resetPins) (htodo : f.todo ≠ []) :
    f.web = .absent ∧
      Underway Device.call (Device.Untouched resetPins) appMain f.todo f.device := by
  by_cases hweb : f.web = .absent
  · exact ⟨hweb, hf.booting hweb⟩
  · exact absurd (hf.up hweb).1 htodo

/-- The peripherals after power-on. -/
theorem Device.untouched_powerOn (resetPins : Pin → PinSetup) :
    (Device.powerOn resetPins).Untouched resetPins := ⟨rfl, fun _ _ _ _ => .inl rfl⟩

/-- Where `app_main` begins, also after a restart. -/
theorem Firmware.ok_start {d : Device} (hd : d.Untouched resetPins) :
    (Firmware.start d).Ok indexHtml resetPins where
  booting _ := .start hd
  up h := absurd rfl h
  web := trivial
  dns s hs := by cases hs

/-- A call that succeeds. -/
theorem Firmware.Ok.call (hf : f.Ok indexHtml resetPins) {data : Data} (h : f.call data = some g) :
    g.Ok indexHtml resetPins := by
  obtain ⟨c, todo, htodo, hcases⟩ := Firmware.call_cases h
  obtain ⟨hweb, hunder⟩ := hf.underway (by rw [htodo]; exact List.cons_ne_nil c todo)
  rw [htodo] at hunder
  have hok (hw : Hardware) : f.web.Ok indexHtml hw := by rw [hweb]; trivial
  rcases hcases with ⟨-, rfl⟩ | ⟨rfl, rfl⟩ | rfl
  · refine ⟨fun _ => hunder.next, fun hne => absurd hweb hne, hok _, ?_⟩
    rintro s ⟨⟩
    exact ⟨data, .refl⟩
  · obtain ⟨htodo, hconfigured, hhw⟩ := configured_of_underway hunder
    exact ⟨fun habsent => WebServer.noConfusion habsent, fun _ => ⟨htodo, hconfigured⟩, hhw, hf.dns⟩
  · exact ⟨fun _ => hunder.next, fun hne => absurd hweb hne, hok _, hf.dns⟩

/-- A call that fails. -/
theorem Firmware.Ok.fail (hf : f.Ok indexHtml resetPins) {keeps : Bool}
    (h : f.fail resetPins keeps = some g) : g.Ok indexHtml resetPins := by
  rcases Firmware.fail_cases h with ⟨htodo, rfl⟩ | ⟨service, todo, htodo, rfl⟩
  · refine Firmware.ok_start ?_
    split
    · exact untouched_of_underway (hf.underway htodo).2
    · exact Device.untouched_powerOn resetPins
  · obtain ⟨hweb, hunder⟩ := hf.underway (by rw [htodo]; exact List.cons_ne_nil _ todo)
    rw [htodo] at hunder
    exact ⟨fun _ => hunder.next, fun hne => absurd hweb hne, hf.web, hf.dns⟩

/-- The task of the web server goes on. -/
theorem Firmware.Ok.setWeb (hf : f.Ok indexHtml resetPins) (hweb : f.web ≠ .absent) {w : WebServer}
    (hw : w ≠ .absent) {hardware : Hardware} (hok : w.Ok indexHtml hardware) :
    Firmware.Ok indexHtml resetPins
      { f with device := { f.device with hw := hardware }, web := w } where
  booting habsent := absurd habsent hw
  up _ := ⟨(hf.up hweb).1, ⟨(hf.up hweb).2.motors, (hf.up hweb).2.servos⟩⟩
  web := hok
  dns := hf.dns

/-- **One step.** Every step keeps the invariant. -/
theorem Firmware.Ok.step (hf : f.Ok indexHtml resetPins) {l : FirmwareLabel}
    (hst : f.step indexHtml resetPins l = some g) : g.Ok indexHtml resetPins := by
  have hok := hf.web
  cases l with
  | call data => exact hf.call hst
  | fail keeps => exact hf.fail hst
  | socket ok =>
    obtain ⟨hweb, rfl⟩ := Firmware.socket_cases hst
    rw [hweb] at hok
    refine hf.setWeb (by rw [hweb]; exact WebServer.noConfusion) ?_ ?_
    · cases ok <;> exact WebServer.noConfusion
    · cases ok <;> exact hok
  | bind ok =>
    obtain ⟨hweb, rfl⟩ := Firmware.bind_cases hst
    rw [hweb] at hok
    refine hf.setWeb (by rw [hweb]; exact WebServer.noConfusion) ?_ ?_
    · cases ok <;> exact WebServer.noConfusion
    · cases ok with
      | false => exact hok
      | true =>
        have hhw : f.device.hw = boot.hw := hok
        refine ⟨?_, rfl⟩
        rw [hhw]
        exact .refl
  | web l =>
    obtain ⟨s, t, hweb, hserver, rfl⟩ := Firmware.webStep_cases hst
    rw [hweb] at hok
    exact hf.setWeb (by rw [hweb]; exact WebServer.noConfusion) WebServer.noConfusion
      ⟨hok.1.tail hserver, rfl⟩
  | dns l =>
    obtain ⟨s, t, hs, htask, rfl⟩ := Firmware.dnsStep_cases hst
    obtain ⟨data, hreach⟩ := hf.dns s hs
    refine ⟨hf.booting, hf.up, hf.web, ?_⟩
    rintro _ ⟨⟩
    exact ⟨data, hreach.tail htask⟩

theorem Firmware.Reachable.ok (h : f.Reachable indexHtml resetPins) : f.Ok indexHtml resetPins :=
  Run.Reachable.invariant h (Firmware.ok_start (Device.untouched_powerOn resetPins))
    fun _ _ _ hf hst => hf.step hst

/-- Until the web server runs, the pins of the motors are low from their set-up on. -/
theorem Firmware.Ok.low (hf : f.Ok indexHtml resetPins) (hweb : ∀ s, f.web ≠ .running s) :
    f.device.Quiet ∧ ∀ m ∈ motors, ∀ pin ∈ m.pins, f.device.level pin = some false ∨
      f.device.pins pin = resetPins pin ∧
        ∃ c ∈ f.todo, c.signalOf pin = some (.output, none) := by
  have hok := hf.web
  cases hw : f.web with
  | absent =>
    have hunder := hf.booting hw
    exact ⟨(untouched_of_underway hunder).quiet, fun m hm pin => low_of_underway hunder hm⟩
  | socket | bind | deleted =>
    rw [hw] at hok
    have hhw : f.device.hw = boot.hw := hok
    have hquiet : f.device.Quiet := by
      rw [Device.Quiet, hhw]
      rfl
    have hup := (hf.up (by rw [hw]; exact WebServer.noConfusion)).2
    exact ⟨hquiet, fun m hm pin hpin => .inl (hquiet.level (hup.motors m hm pin hpin))⟩
  | running s => exact absurd hw (hweb s)

/-- **Configured before use.** Of every reachable state of the firmware, whatever failed before it:
every write that can come next finds the peripherals set up for it; until the web server runs, no
output latch of a motor is high, and each of its pins is low, or it is as the reset leaves it and
`app_main` has still to make it an output; and the tasks are in states that they reach on their own.
-/
theorem configured_before_use (hf : f.Reachable indexHtml resetPins) :
    (∀ l e, f.write l = some e → f.device.Ready e) ∧
      ((∀ s, f.web ≠ .running s) → ∀ m ∈ motors, m.levels f.device.hw = (false, false) ∧
        ∀ pin ∈ m.pins, f.device.level pin = some false ∨
          f.device.pins pin = resetPins pin ∧
            ∃ c ∈ f.todo, c.signalOf pin = some (.output, none)) ∧
      (∀ s, f.web = .running s → s.Reachable indexHtml ∧ s.robot.hw = f.device.hw) ∧
      ∀ s, f.dns = some s → ∃ data, Run.Reachable DnsTask.step (.init data) s := by
  have hok := hf.ok
  have hrunning (s : Server) (hs : f.web = .running s) :
      s.Reachable indexHtml ∧ s.robot.hw = f.device.hw := by
    have hweb := hok.web
    rwa [hs] at hweb
  refine ⟨?_, ?_, hrunning, hok.dns⟩
  · intro l e he
    cases l with
    | call data =>
      obtain ⟨c, hhead, hwrite⟩ := Option.bind_eq_some_iff.1 he
      obtain ⟨todo, htodo⟩ := List.head?_eq_some_iff.1 hhead
      have hunder := (hok.underway (by rw [htodo]; exact List.cons_ne_nil c todo)).2
      rw [htodo, BootCall.eq_of_write hwrite] at hunder
      exact ready_of_underway hunder
    | web l =>
      cases hweb : f.web with
      | running s =>
        simp only [Firmware.write, hweb] at he
        obtain ⟨j, g, hmem⟩ := (hrunning s hweb).1.mem_webRecdata he
        refine (hok.up ?_).2.ready hmem
        rw [hweb]
        exact WebServer.noConfusion
      | absent | socket | bind | deleted =>
        simp only [Firmware.write, hweb] at he
        cases he
    | fail | socket | bind | dns => cases he
  · intro hweb m hm
    obtain ⟨hquiet, hlow⟩ := hok.low hweb
    have hlevel : f.device.hw.level = fun _ => false := hquiet
    refine ⟨?_, hlow m hm⟩
    rw [Motor.levels, hlevel]

end

/-- `app_main` makes `n` calls. -/
def bootCalls (n : Nat) : List FirmwareLabel :=
  List.replicate n (.call (List.Vector.replicate 128 0))

/-- The first boot fails at the flash memory, after the servos have moved, and the peripherals keep
their state; in the second one the joystick moves. -/
def rebootRun : List FirmwareLabel :=
  bootCalls 15 ++ [.fail true] ++ bootCalls appMain.length ++ [.socket true, .bind true] ++
    startingRun.map .web

/-- Every pin is an input after power-on, and three of them are pulled up: one of motor C, one of
motor D and one of the feeder. -/
def inputPins : Pin → PinSetup := fun pin =>
  ⟨.input, decide (pin ∈ [gpioOutputCIn2, gpioOutputDIn1, gpioFireAIn2]), false, none⟩

/-- The firmware at the end of a run, with an empty page. -/
def firmwareAfter (ls : List FirmwareLabel) : Firmware :=
  (exec (Firmware.step [] inputPins) (.start (.powerOn inputPins)) ls).getD
    (.start (.powerOn inputPins))

/-- While the servos move to their boot position, the pins of the chassis are low, and the second
input of the feeder is still pulled up. -/
example : (firmwareAfter (bootCalls 8)).device.level gpioOutputCIn2 = some false ∧
    (firmwareAfter (bootCalls 8)).device.level gpioFireAIn2 = some true := by decide +kernel

/-- The next write of the record finds its pin set up. -/
theorem configured_before_use_reboot :
    (firmwareAfter rebootRun).write (.web (.drive 0)) = some (.gpioSetLevel 2 false) ∧
      (firmwareAfter rebootRun).device.Ready (.gpioSetLevel 2 false) := by
  have hrun : (firmwareAfter rebootRun).Reachable [] inputPins :=
    ⟨rebootRun, exec_eq_getD (by decide +kernel)⟩
  have hwrite : (firmwareAfter rebootRun).write (.web (.drive 0)) =
      some (.gpioSetLevel 2 false) := by decide +kernel
  exact ⟨hwrite, (configured_before_use hrun).1 _ _ hwrite⟩

end InfantryRM
