import GrblhalSim.GpioEdges
import GrblhalSim.SimModel

namespace GrblhalSim

open Countdown

def axesBitmask : UInt16 := 0x1F

def controlMask : UInt16 := 0xCF

def probeConnectedBit : UInt16 := 0x02

def GpioPort.index : GpioPort → Fin mcuNGpio
  | .limits0 => ⟨0, by decide⟩
  | .control => ⟨2, by decide⟩
  | .probe => ⟨5, by decide⟩

/-- A call of one of the core's interrupt callbacks, with the signals that it gets. -/
inductive SignalCall
  | control (signals : UInt16)
  | limits (min : UInt8)
  deriving DecidableEq

/-- The settings that the handlers read, and the calls that they have made. -/
structure InputState where
  controlInvert : UInt16
  limitsInvert : UInt8
  calls : List SignalCall
  deriving DecidableEq

def InputState.called (x : InputState) (calls : List SignalCall) : InputState :=
  { x with calls := x.calls ++ calls }

theorem called_nil (x : InputState) : x.called [] = x := by
  rw [InputState.called, List.append_nil]

theorem called_called (x : InputState) (first second : List SignalCall) :
    (x.called first).called second = x.called (first ++ second) := by
  simp only [InputState.called, List.append_assoc]

def Mcu.port (m : Mcu) (p : GpioPort) : GpioPortT := m.gpio[p.index]

def Mcu.setPort (m : Mcu) (p : GpioPort) (port : GpioPortT) : Mcu :=
  { m with gpio := m.gpio.set p.index port }

/-- `systemGetState`; `limitsOverride` is the mask of that signal. -/
def systemGetState (limitsOverride state controlInvert : UInt16) : UInt16 :=
  let signals := (state &&& ~~~limitsOverride) ||| (controlInvert &&& limitsOverride)
  if controlInvert ≠ 0 then signals ^^^ controlInvert else signals

def limitsGetState (state : UInt16) (invert : UInt8) : UInt8 :=
  if invert ≠ 0 then state.toUInt8 ^^^ invert else state.toUInt8

def controlIrqHandler (limitsOverride : UInt16) : Handler InputState := fun (m, x) =>
  let m := m.setPort .control { m.port .control with irqState := ~~~controlMask }
  (m, x.called [.control (systemGetState limitsOverride (m.port .control).state x.controlInvert)])

def limits0IrqHandler : Handler InputState := fun (m, x) =>
  let m := m.setPort .limits0 { m.port .limits0 with irqState := (~~~axesBitmask).toUInt8.toUInt16 }
  (m, x.called [.limits (limitsGetState (m.port .limits0).state x.limitsInvert)])

def Mcu.limitsEnable (m : Mcu) (on : Bool) : Mcu :=
  m.setPort .limits0 { m.port .limits0 with irqMask := if on then axesBitmask else 0, irqState := 0 }

/-- What `driver_setup` does to the inputs. -/
def Mcu.driverSetup (m : Mcu) : Mcu :=
  let m := m.setPort .limits0 { m.port .limits0 with rising := axesBitmask }
  let m := m.setPort .control { m.port .control with rising := controlMask, irqMask := controlMask }
  m.setPort .probe
    ((mcuGpioIn 8 (m.port .probe) probeConnectedBit probeConnectedBit).getD (m.port .probe))

def Mcu.toggleIn (m : Mcu) (p : GpioPort) (pins : UInt16) : Mcu :=
  m.setPort p ((mcuGpioToggleIn 8 (m.port p) pins).getD (m.port p))

/-- What `grbl_per_byte` does to the inputs. -/
def Mcu.key (m : Mcu) (c : UInt8) : Mcu :=
  match stdinCommand c with
  | some (.toggleIn pins) => pins.foldl (fun m pin => m.toggleIn pin.1 (1 <<< UInt16.ofNat pin.2)) m
  | _ => m

/-- What happens to the inputs: a byte on stdin, a call of `mcu_master_clock`, the core enables or
disables the limits or changes the settings, or other code runs. -/
inductive InputEvent
  | key (c : UInt8)
  | clock
  | limitsEnable (on : Bool)
  | settings (controlInvert : UInt16) (limitsInvert : UInt8)
  | other (code : Handler InputState)

def Machine.input (isr : IsrTable InputState) (s : Machine InputState) :
    InputEvent → Machine InputState
  | .key c => { s with mcu := s.mcu.key c }
  | .clock => mcuMasterClock isr s
  | .limitsEnable on => { s with mcu := s.mcu.limitsEnable on }
  | .settings controlInvert limitsInvert =>
    { s with rest := { s.rest with controlInvert := controlInvert, limitsInvert := limitsInvert } }
  | .other code => s.after isr (.program code)

/-- What the inputs consist of. -/
structure InputView where
  booted : Bool
  limits : GpioPortT
  control : GpioPortT
  probe : GpioPortT
  rest : InputState

def inputView (x : Mcu × InputState) : InputView :=
  ⟨x.1.booted, x.1.port .limits0, x.1.port .control, x.1.port .probe, x.2⟩

def Machine.inputs (s : Machine InputState) : InputView := inputView (s.mcu, s.rest)

/-- The handlers that driver.c registers for the inputs; the others have nothing to do with them. -/
structure Wired (limitsOverride : UInt16) (isr : IsrTable InputState) : Prop where
  limits : isr (.gpio GpioPort.limits0.index) = limits0IrqHandler
  control : isr (.gpio GpioPort.control.index) = controlIrqHandler limitsOverride
  others : ∀ irq, irq ≠ .gpio GpioPort.limits0.index → irq ≠ .gpio GpioPort.control.index →
    ∀ x, inputView (isr irq x) = inputView x

/-- The handler of the limits, if one of their interrupts is pending. -/
def InputView.limitsIrq (v : InputView) : InputView :=
  if v.limits.irqState &&& v.limits.irqMask ≠ 0 then
    { v with
      limits := { v.limits with irqState := (~~~axesBitmask).toUInt8.toUInt16 }
      rest := v.rest.called [.limits (limitsGetState v.limits.state v.rest.limitsInvert)] }
  else v

def InputView.controlIrq (limitsOverride : UInt16) (v : InputView) : InputView :=
  if v.control.irqState &&& v.control.irqMask ≠ 0 then
    { v with
      control := { v.control with irqState := ~~~controlMask }
      rest := v.rest.called
        [.control (systemGetState limitsOverride v.control.state v.rest.controlInvert)] }
  else v

@[simp] theorem port_setPort (m : Mcu) (p : GpioPort) (port : GpioPortT) :
    (m.setPort p port).port p = port := by
  rw [Mcu.port, Mcu.setPort]
  exact Vector.getElem_set_self _

theorem port_setPort_ne (m : Mcu) {p q : GpioPort} (apart : p.index ≠ q.index) (port : GpioPortT) :
    (m.setPort p port).port q = m.port q := by
  have other : p.index.val ≠ q.index.val := fun same => apart (Fin.ext same)
  exact Vector.getElem_set_ne p.index.isLt q.index.isLt other

theorem inputView_limits (m : Mcu) (port : GpioPortT) (x : InputState) :
    inputView (m.setPort .limits0 port, x) = { inputView (m, x) with limits := port } := by
  have control : GpioPort.limits0.index ≠ GpioPort.control.index := by decide
  have probe : GpioPort.limits0.index ≠ GpioPort.probe.index := by decide
  simp only [inputView, port_setPort, port_setPort_ne m control, port_setPort_ne m probe]
  rfl

theorem inputView_control (m : Mcu) (port : GpioPortT) (x : InputState) :
    inputView (m.setPort .control port, x) = { inputView (m, x) with control := port } := by
  have limits : GpioPort.control.index ≠ GpioPort.limits0.index := by decide
  have probe : GpioPort.control.index ≠ GpioPort.probe.index := by decide
  simp only [inputView, port_setPort, port_setPort_ne m limits, port_setPort_ne m probe]
  rfl

theorem inputView_probe (m : Mcu) (port : GpioPortT) (x : InputState) :
    inputView (m.setPort .probe port, x) = { inputView (m, x) with probe := port } := by
  have limits : GpioPort.probe.index ≠ GpioPort.limits0.index := by decide
  have control : GpioPort.probe.index ≠ GpioPort.control.index := by decide
  simp only [inputView, port_setPort, port_setPort_ne m limits, port_setPort_ne m control]
  rfl

variable {limitsOverride : UInt16} {isr : IsrTable InputState}

theorem clockTimer_inputs (wired : Wired limitsOverride isr) (s : Machine InputState)
    (i : Fin mcuNTimers) : (s.clockTimer isr i).inputs = s.inputs :=
  clockTimer_frame Machine.inputs (fun _ _ => rfl)
    (fun s => wired.others (.timer i) (fun h => by cases h) (fun h => by cases h) (s.mcu, s.rest)) s

theorem clockSystick_inputs (wired : Wired limitsOverride isr) (s : Machine InputState) :
    (s.clockSystick isr).inputs = s.inputs :=
  clockSystick_frame Machine.inputs (fun _ _ => rfl)
    (fun s => wired.others .systick (fun h => by cases h) (fun h => by cases h) (s.mcu, s.rest)) s

theorem clockGpio_inputs (wired : Wired limitsOverride isr) (s : Machine InputState)
    {i : Fin mcuNGpio} (limits : i ≠ GpioPort.limits0.index) (control : i ≠ GpioPort.control.index) :
    (s.clockGpio isr i).inputs = s.inputs :=
  clockGpio_frame Machine.inputs
    (fun s => wired.others (.gpio i) (fun h => limits (IrqNum.gpio.inj h))
      (fun h => control (IrqNum.gpio.inj h)) (s.mcu, s.rest)) s

theorem clockGpio_limits (wired : Wired limitsOverride isr) (s : Machine InputState) :
    (s.clockGpio isr GpioPort.limits0.index).inputs = s.inputs.limitsIrq := by
  unfold Machine.clockGpio InputView.limitsIrq
  by_cases pending : s.inputs.limits.irqState &&& s.inputs.limits.irqMask ≠ 0
  · have taken : (s.interrupt isr (.gpio GpioPort.limits0.index)).inputs =
        inputView (limits0IrqHandler (s.mcu, s.rest)) := by
      rw [← wired.limits]
      rfl
    rw [if_pos pending]
    refine (congrArg Machine.inputs (if_pos pending)).trans (taken.trans ?_)
    rw [limits0IrqHandler, inputView_limits, port_setPort]
    rfl
  · rw [if_neg pending]
    exact congrArg Machine.inputs (if_neg pending)

theorem clockGpio_control (wired : Wired limitsOverride isr) (s : Machine InputState) :
    (s.clockGpio isr GpioPort.control.index).inputs = s.inputs.controlIrq limitsOverride := by
  unfold Machine.clockGpio InputView.controlIrq
  by_cases pending : s.inputs.control.irqState &&& s.inputs.control.irqMask ≠ 0
  · have taken : (s.interrupt isr (.gpio GpioPort.control.index)).inputs =
        inputView (controlIrqHandler limitsOverride (s.mcu, s.rest)) := by
      rw [← wired.control]
      rfl
    rw [if_pos pending]
    refine (congrArg Machine.inputs (if_pos pending)).trans (taken.trans ?_)
    rw [controlIrqHandler, inputView_control, port_setPort]
    rfl
  · rw [if_neg pending]
    exact congrArg Machine.inputs (if_neg pending)

/-- A clock calls the handler of the limits, then that of the controls, where they are due. -/
theorem masterClock_inputs (wired : Wired limitsOverride isr) (s : Machine InputState) :
    (mcuMasterClock isr s).inputs =
      if s.mcu.booted then s.inputs.limitsIrq.controlIrq limitsOverride else s.inputs := by
  unfold mcuMasterClock
  cases booted : s.mcu.booted with
  | false =>
    simp only [booted, Bool.not_false, if_true, Bool.false_eq_true, if_false]
    rfl
  | true =>
    simp only [booted, Bool.not_true, Bool.false_eq_true, if_false, if_true]
    have timers (s : Machine InputState) :
        ((List.finRange mcuNTimers).foldl (Machine.clockTimer isr) s).inputs = s.inputs :=
      foldl_same Machine.inputs (fun i _ s => clockTimer_inputs wired s i) s
    have ports : List.finRange mcuNGpio = GpioPort.limits0.index :: ⟨1, by decide⟩ ::
        GpioPort.control.index :: (List.finRange mcuNGpio).drop 3 := by decide
    have apart : ∀ i ∈ (List.finRange mcuNGpio).drop 3,
        i ≠ GpioPort.limits0.index ∧ i ≠ GpioPort.control.index := by decide
    have later (s : Machine InputState) :
        (((List.finRange mcuNGpio).drop 3).foldl (Machine.clockGpio isr) s).inputs = s.inputs :=
      foldl_same Machine.inputs
        (fun i inside s => clockGpio_inputs wired s (apart i inside).1 (apart i inside).2) s
    rw [clockSystick_inputs wired, ports, List.foldl_cons, List.foldl_cons, List.foldl_cons, later,
      clockGpio_control wired, clockGpio_inputs wired _ (by decide) (by decide),
      clockGpio_limits wired, timers]
    rfl

end GrblhalSim
