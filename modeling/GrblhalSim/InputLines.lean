import GrblhalSim.InputPorts

namespace GrblhalSim

/-- The input lines as they are seen from outside: their levels, and whether a line of a port has
risen since its interrupt was taken, for the limits also since they were enabled or disabled. -/
structure Panel where
  limits : UInt16
  control : UInt16
  probe : UInt16
  limitsOn : Bool
  limitsRose : Bool
  controlRose : Bool
  rest : InputState
  deriving DecidableEq

def bitOf (i : Nat) : UInt16 := 1 <<< UInt16.ofNat i

def Panel.toggle (p : Panel) : GpioPort × Nat → Panel
  | (.limits0, i) =>
    { p with
      limits := p.limits ^^^ bitOf i
      limitsRose := p.limitsRose || (pin axesBitmask i && !pin p.limits i) }
  | (.control, i) =>
    { p with
      control := p.control ^^^ bitOf i
      controlRose := p.controlRose || (pin controlMask i && !pin p.control i) }
  | (.probe, i) => { p with probe := p.probe ^^^ bitOf i }

/-- What a clock calls. -/
def Panel.due (limitsOverride : UInt16) (p : Panel) : List SignalCall :=
  (if p.limitsOn && p.limitsRose then [.limits (p.limits.toUInt8 ^^^ p.rest.limitsInvert)] else []) ++
    (if p.controlRose then [.control ((p.control ^^^ p.rest.controlInvert) &&& ~~~limitsOverride)]
      else [])

def Panel.key (p : Panel) (c : UInt8) : Panel :=
  match stdinCommand c with
  | some (.toggleIn pins) => pins.foldl Panel.toggle p
  | _ => p

def Panel.step (limitsOverride : UInt16) (p : Panel) : InputEvent → Panel
  | .key c => p.key c
  | .clock =>
    { p with
      limitsRose := p.limitsRose && !p.limitsOn
      controlRose := false
      rest := p.rest.called (p.due limitsOverride) }
  | .limitsEnable on => { p with limitsOn := on, limitsRose := false }
  | .settings controlInvert limitsInvert =>
    { p with rest := { p.rest with controlInvert := controlInvert, limitsInvert := limitsInvert } }
  | .other _ => p

/-- The lines when `driver_setup` is done: the probe is connected, and nothing has risen. -/
def Panel.start (m : Mcu) (rest : InputState) : Panel where
  limits := (m.port .limits0).state
  control := (m.port .control).state
  probe := (m.port .probe).state ||| probeConnectedBit
  limitsOn := false
  limitsRose := false
  controlRose := false
  rest := rest

theorem pin_ext {m n : UInt16} (same : ∀ i, pin m i = pin n i) : m = n := by
  rw [← UInt16.toBitVec_inj]
  exact BitVec.eq_of_getLsbD_eq fun i _ => same i

theorem and_ne_zero (m n : UInt16) : m &&& n ≠ 0 ↔ ∃ i, pin m i = true ∧ pin n i = true := by
  constructor
  · intro some
    by_contra! none
    refine some (pin_ext fun i => ?_)
    rw [pin_and]
    cases on : pin m i with
    | false => simp [pin]
    | true =>
      have off : pin n i = false := Bool.not_eq_true _ ▸ none i on
      rw [off]
      simp [pin]
  · rintro ⟨i, left, right⟩ zero
    have both : pin (m &&& n) i = true := by rw [pin_and, left, right, Bool.and_self]
    rw [zero] at both
    simp [pin] at both

theorem pin_bitOf {i : Nat} (low : i < 8) (j : Nat) : pin (bitOf i) j = decide (j = i) := by
  have small : ∀ i < 8, ∀ j < 16, pin (bitOf i) j = decide (j = i) := by decide
  by_cases inside : j < 16
  · exact small i low j inside
  · have other : ¬ j = i := by omega
    rw [pin_of_le (by omega), decide_eq_false other]

/-- A toggled pin: eight passes of the loop suffice. -/
theorem toggleIn_low (port : GpioPortT) (pins : UInt16) :
    RecordsLow port ((mcuGpioToggleIn 8 port pins).getD port) (.toggleIn pins) := by
  obtain ⟨port', ⟨enough, returns⟩, low⟩ := call_returns port (.toggleIn pins)
  obtain ⟨irqState, result, -⟩ := mcuGpioIn_some port ((port.state &&& pins) ^^^ pins) pins
  have eight := result 8 le_rfl
  have more := result (max enough 8) (le_max_right _ _)
  have same : mcuGpioToggleIn 8 port pins = some port' :=
    (eight.trans more.symm).trans (returns _ (le_max_left _ _))
  rw [same]
  exact low

/-- A port whose rising edges are enabled on the pins of `mask`, and no other edges. -/
structure PortShows (port : GpioPortT) (mask levels : UInt16) (rose : Bool) : Prop where
  rising : port.rising = mask
  falling : port.falling = 0
  state : port.state = levels
  pending : port.irqState &&& mask ≠ 0 ↔ rose = true

theorem PortShows.toggle {port : GpioPortT} {mask levels : UInt16} {rose : Bool}
    (h : PortShows port mask levels rose) {i : Nat} (low : i < 8) :
    PortShows ((mcuGpioToggleIn 8 port (bitOf i)).getD port) mask (levels ^^^ bitOf i)
        (rose || (pin mask i && !pin levels i)) ∧
      ((mcuGpioToggleIn 8 port (bitOf i)).getD port).irqMask = port.irqMask := by
  have records := toggleIn_low port (bitOf i)
  generalize (mcuGpioToggleIn 8 port (bitOf i)).getD port = port' at records ⊢
  obtain ⟨levels', pending, wiring⟩ := records
  have rising : port'.rising = port.rising := by rw [wiring]
  have falling : port'.falling = port.falling := by rw [wiring]
  have irqMask : port'.irqMask = port.irqMask := by rw [wiring]
  have off (j : Nat) : pin port.falling j = false := by rw [h.falling]; simp [pin]
  refine ⟨⟨rising.trans h.rising, falling.trans h.falling, pin_ext fun j => ?_, ?_⟩, irqMask⟩
  · rw [levels', GpioCall.level, pin_xor, h.state]
    cases pin (bitOf i) j <;> simp
  · rw [and_ne_zero, Bool.or_eq_true, ← h.pending, and_ne_zero]
    simp only [pending, EnabledEdge, GpioCall.level, pin_bitOf low, off, h.rising, h.state,
      Bool.false_eq_true, and_false, or_false]
    constructor
    · rintro ⟨j, before | ⟨-, grounded, rises, -⟩, inside⟩
      · exact Or.inl ⟨j, before, inside⟩
      · right
        by_cases same : j = i
        · subst same
          simp [inside, grounded]
        · simp [same, grounded] at rises
    · rintro (⟨j, before, inside⟩ | new)
      · exact ⟨j, Or.inl before, inside⟩
      · have edge : pin mask i = true ∧ pin levels i = false := by simpa using new
        exact ⟨i, Or.inr ⟨low, edge.2, by simp [edge.2], edge.1⟩, edge.1⟩

theorem stdinCommand_low {c : UInt8} {pins : List (GpioPort × Nat)}
    (command : stdinCommand c = some (.toggleIn pins)) : ∀ q ∈ pins, q.2 < 8 := by
  unfold stdinCommand at command
  split at command
  all_goals
    first
    | cases command
      decide
    | cases command

/-- The panel shows the ports. -/
structure Panel.Shows (p : Panel) (v : InputView) : Prop where
  booted : v.booted = true
  limits : PortShows v.limits axesBitmask p.limits p.limitsRose
  limitsEnabled : v.limits.irqMask = if p.limitsOn then axesBitmask else 0
  control : PortShows v.control controlMask p.control p.controlRose
  controlEnabled : v.control.irqMask = controlMask
  probe : v.probe.state = p.probe
  rest : v.rest = p.rest

theorem Panel.Shows.toggle {p : Panel} {m : Mcu} {x : InputState}
    (h : p.Shows (inputView (m, x))) {q : GpioPort × Nat} (low : q.2 < 8) :
    (p.toggle q).Shows (inputView (m.toggleIn q.1 (bitOf q.2), x)) := by
  obtain ⟨port, i⟩ := q
  unfold Mcu.toggleIn
  cases port with
  | limits0 =>
    obtain ⟨shown, mask⟩ := h.limits.toggle low
    rw [inputView_limits]
    exact { h with limits := shown, limitsEnabled := mask.trans h.limitsEnabled }
  | control =>
    obtain ⟨shown, mask⟩ := h.control.toggle low
    rw [inputView_control]
    exact { h with control := shown, controlEnabled := mask.trans h.controlEnabled }
  | probe =>
    have records := toggleIn_low (m.port .probe) (bitOf i)
    have level : (m.port .probe).state = p.probe := h.probe
    rw [inputView_probe]
    refine { h with probe := pin_ext fun j => ?_ }
    rw [records.levels, GpioCall.level, Panel.toggle, pin_xor, level]
    cases pin (bitOf i) j <;> simp

theorem Panel.Shows.toggles {pins : List (GpioPort × Nat)} (low : ∀ q ∈ pins, q.2 < 8) {p : Panel}
    {m : Mcu} {x : InputState} (h : p.Shows (inputView (m, x))) :
    (pins.foldl Panel.toggle p).Shows
      (inputView (pins.foldl (fun m pin => m.toggleIn pin.1 (1 <<< UInt16.ofNat pin.2)) m, x)) := by
  induction pins generalizing p m with
  | nil => exact h
  | cons q pins ih =>
    obtain ⟨first, later⟩ := List.forall_mem_cons.mp low
    rw [List.foldl_cons, List.foldl_cons]
    exact ih later (h.toggle first)

theorem Panel.Shows.key {p : Panel} {m : Mcu} {x : InputState} (h : p.Shows (inputView (m, x)))
    (c : UInt8) : (p.key c).Shows (inputView (m.key c, x)) := by
  unfold Mcu.key Panel.key
  cases command : stdinCommand c with
  | none => exact h
  | some meaning =>
    cases meaning with
    | toggleIn pins => exact h.toggles (stdinCommand_low command)
    | _ => exact h

/-- `limits_override` is never set in what `systemGetState` returns. -/
theorem systemGetState_eq (limitsOverride state controlInvert : UInt16) :
    systemGetState limitsOverride state controlInvert =
      (state ^^^ controlInvert) &&& ~~~limitsOverride := by
  refine pin_ext fun i => ?_
  unfold systemGetState
  by_cases inside : i < 16
  · split
    next =>
      simp only [pin_xor, pin_or, pin_and, pin_not, inside, decide_true, Bool.true_and]
      cases pin limitsOverride i <;> cases pin controlInvert i <;> cases pin state i <;> rfl
    next none =>
      have zero : controlInvert = 0 := Classical.not_not.mp none
      simp [zero]
  · rw [pin_of_le (by omega), pin_of_le (by omega)]

theorem limitsGetState_eq (state : UInt16) (invert : UInt8) :
    limitsGetState state invert = state.toUInt8 ^^^ invert := by
  unfold limitsGetState
  split
  next => rfl
  next none => rw [Classical.not_not.mp none, UInt8.xor_zero]

theorem Panel.Shows.limitsIrq {p : Panel} {v : InputView} (h : p.Shows v) :
    Panel.Shows { p with
      limitsRose := p.limitsRose && !p.limitsOn
      rest := p.rest.called (if p.limitsOn && p.limitsRose then
        [.limits (p.limits.toUInt8 ^^^ p.rest.limitsInvert)] else []) } v.limitsIrq := by
  obtain ⟨limits, control, probe, limitsOn, limitsRose, controlRose, x⟩ := p
  have mask := h.limitsEnabled
  have pending := h.limits.pending
  unfold InputView.limitsIrq
  cases limitsOn with
  | false =>
    have none : v.limits.irqState &&& v.limits.irqMask = 0 := by
      rw [mask]
      exact UInt16.and_zero
    rw [if_neg (Classical.not_not.mpr none)]
    simpa only [Bool.false_and, Bool.false_eq_true, if_false, Bool.not_false, Bool.and_true,
      called_nil] using h
  | true =>
    have all : v.limits.irqMask = axesBitmask := mask
    rw [all]
    cases limitsRose with
    | false =>
      rw [if_neg (mt pending.mp Bool.false_ne_true)]
      simpa only [Bool.and_false, Bool.false_eq_true, if_false, Bool.false_and,
        called_nil] using h
    | true =>
      have cleared : (~~~axesBitmask).toUInt8.toUInt16 &&& axesBitmask = 0 := by decide
      rw [if_pos (pending.mpr rfl), limitsGetState_eq, h.limits.state, h.rest]
      exact { h with
        limits := { h.limits with
          pending := iff_of_false (fun some => some cleared) Bool.false_ne_true }
        limitsEnabled := mask
        rest := rfl }

theorem Panel.Shows.controlIrq (limitsOverride : UInt16) {p : Panel} {v : InputView}
    (h : p.Shows v) :
    Panel.Shows { p with
      controlRose := false
      rest := p.rest.called (if p.controlRose then
        [.control ((p.control ^^^ p.rest.controlInvert) &&& ~~~limitsOverride)] else []) }
      (v.controlIrq limitsOverride) := by
  obtain ⟨limits, control, probe, limitsOn, limitsRose, controlRose, x⟩ := p
  have pending := h.control.pending
  unfold InputView.controlIrq
  rw [h.controlEnabled]
  cases controlRose with
  | false =>
    rw [if_neg (mt pending.mp Bool.false_ne_true)]
    simpa only [Bool.false_eq_true, if_false, called_nil] using h
  | true =>
    have cleared : ~~~controlMask &&& controlMask = 0 := by decide
    rw [if_pos (pending.mpr rfl), systemGetState_eq, h.control.state, h.rest]
    exact { h with
      control := { h.control with
        pending := iff_of_false (fun some => some cleared) Bool.false_ne_true }
      rest := rfl }

/-- Each event does to the ports what it does to the panel. -/
theorem Panel.Shows.step {limitsOverride : UInt16} {isr : IsrTable InputState}
    (wired : Wired limitsOverride isr) {p : Panel} {s : Machine InputState} (h : p.Shows s.inputs)
    {event : InputEvent}
    (apart : ∀ code, event = .other code → ∀ x, inputView (code x) = inputView x) :
    (p.step limitsOverride event).Shows (s.input isr event).inputs := by
  cases event with
  | key c => exact h.key c
  | clock =>
    have booted : s.mcu.booted = true := h.booted
    have called := h.limitsIrq.controlIrq limitsOverride
    rw [called_called] at called
    rw [Machine.input, masterClock_inputs wired, if_pos booted]
    exact called
  | limitsEnable on =>
    have view : (s.input isr (.limitsEnable on)).inputs = { s.inputs with
        limits := { s.inputs.limits with
          irqMask := if on then axesBitmask else 0, irqState := 0 } } := inputView_limits _ _ _
    rw [view]
    exact { h with
      limits := { h.limits with
        pending := iff_of_false (fun some => some UInt16.zero_and) Bool.false_ne_true }
      limitsEnabled := rfl }
  | settings controlInvert limitsInvert =>
    refine { h with rest := ?_ }
    have same : s.rest = p.rest := h.rest
    show { s.rest with controlInvert := controlInvert, limitsInvert := limitsInvert } = _
    rw [same]
    rfl
  | other code =>
    have kept : (s.input isr (.other code)).inputs = s.inputs := apart code rfl (s.mcu, s.rest)
    rw [kept]
    exact h

/-- A port as `mcu_reset` leaves it, but for its levels. -/
structure PortQuiet (port : GpioPortT) : Prop where
  irqMask : port.irqMask = 0
  irqState : port.irqState = 0
  rising : port.rising = 0
  falling : port.falling = 0

theorem PortQuiet.toggle {port : GpioPortT} (h : PortQuiet port) (pins : UInt16) :
    PortQuiet ((mcuGpioToggleIn 8 port pins).getD port) := by
  have records := toggleIn_low port pins
  generalize (mcuGpioToggleIn 8 port pins).getD port = port' at records ⊢
  obtain ⟨-, pending, wiring⟩ := records
  have still : port'.irqState = port.irqState := pin_ext fun i => by
    have none : ¬ EnabledEdge port (.toggleIn pins) (pin port.state) i := by
      simp [EnabledEdge, h.rising, h.falling, pin]
    have same := pending i
    rw [or_iff_left fun edge => none edge.2] at same
    exact Bool.eq_iff_iff.mpr same
  refine ⟨?_, still.trans h.irqState, ?_, ?_⟩
  · rw [wiring]
    exact h.irqMask
  · rw [wiring]
    exact h.rising
  · rw [wiring]
    exact h.falling

/-- The inputs between `mcu_reset` and `driver_setup`. -/
structure Mcu.Quiet (m : Mcu) : Prop where
  booted : m.booted = true
  limits : PortQuiet (m.port .limits0)
  control : PortQuiet (m.port .control)

theorem Mcu.Quiet.toggle {m : Mcu} (h : m.Quiet) (p : GpioPort) (pins : UInt16) :
    (m.toggleIn p pins).Quiet := by
  unfold Mcu.toggleIn
  cases p with
  | limits0 =>
    refine ⟨h.booted, ?_, ?_⟩
    · rw [port_setPort]
      exact h.limits.toggle pins
    · rw [port_setPort_ne _ (by decide)]
      exact h.control
  | control =>
    refine ⟨h.booted, ?_, ?_⟩
    · rw [port_setPort_ne _ (by decide)]
      exact h.limits
    · rw [port_setPort]
      exact h.control.toggle pins
  | probe =>
    refine ⟨h.booted, ?_, ?_⟩
    · rw [port_setPort_ne _ (by decide)]
      exact h.limits
    · rw [port_setPort_ne _ (by decide)]
      exact h.control

theorem Mcu.Quiet.key {m : Mcu} (h : m.Quiet) (c : UInt8) : (m.key c).Quiet := by
  unfold Mcu.key
  split
  next pins command =>
    clear command
    induction pins generalizing m with
    | nil => exact h
    | cons q pins ih => exact ih (h.toggle q.1 (1 <<< UInt16.ofNat q.2))
  next => exact h

theorem reset_quiet : mcuReset.Quiet where
  booted := rfl
  limits := ⟨rfl, rfl, rfl, rfl⟩
  control := ⟨rfl, rfl, rfl, rfl⟩

theorem keys_quiet (keys : List UInt8) : (keys.foldl Mcu.key mcuReset).Quiet := by
  have kept (keys : List UInt8) {m : Mcu} (h : m.Quiet) : (keys.foldl Mcu.key m).Quiet := by
    induction keys generalizing m with
    | nil => exact h
    | cons c keys ih => exact ih (h.key c)
  exact kept keys reset_quiet

theorem probeConnect_state (port : GpioPortT) :
    ((mcuGpioIn 8 port probeConnectedBit probeConnectedBit).getD port).state =
      port.state ||| probeConnectedBit := by
  obtain ⟨irqState, result, -⟩ := mcuGpioIn_some port probeConnectedBit probeConnectedBit
  rw [result 8 le_rfl, Option.getD_some]
  refine pin_ext fun i => ?_
  rw [pin_or, pin_and, pin_not, pin_and, pin_or]
  by_cases inside : i < 16
  · cases pin port.state i <;> cases pin probeConnectedBit i <;> simp [inside]
  · rw [pin_of_le (by omega), pin_of_le (by omega)]
    rfl

theorem driverSetup_shows {m : Mcu} (quiet : m.Quiet) (x : InputState) :
    (Panel.start m x).Shows (inputView (m.driverSetup, x)) := by
  have control (port : GpioPortT) : (m.setPort .limits0 port).port .control = m.port .control :=
    port_setPort_ne m (by decide) port
  have probe (first second : GpioPortT) :
      ((m.setPort .limits0 first).setPort .control second).port .probe = m.port .probe := by
    rw [port_setPort_ne _ (by decide), port_setPort_ne _ (by decide)]
  have none (mask : UInt16) : (0 : UInt16) &&& mask ≠ 0 ↔ false = true :=
    iff_of_false (fun some => some UInt16.zero_and) Bool.false_ne_true
  unfold Mcu.driverSetup
  dsimp only
  rw [inputView_probe, inputView_control, inputView_limits, control, probe]
  refine ⟨quiet.booted, ⟨rfl, quiet.limits.falling, rfl, ?_⟩, quiet.limits.irqMask,
    ⟨rfl, quiet.control.falling, rfl, ?_⟩, rfl, probeConnect_state _, rfl⟩
  · rw [quiet.limits.irqState]
    exact none axesBitmask
  · rw [quiet.control.irqState]
    exact none controlMask

/-- Whether the two lines that tell about the probe agree. -/
def Panel.probeAgrees (p : Panel) : Bool := pin p.probe 1 ^^ pin p.control 7

/-- Whether the toggling of a pin changes that. -/
def probeFlip : GpioPort × Nat → Bool
  | (.probe, i) => decide (1 = i)
  | (.control, i) => decide (7 = i)
  | (.limits0, _) => false

theorem toggle_probeAgrees (p : Panel) {q : GpioPort × Nat} (low : q.2 < 8) :
    (p.toggle q).probeAgrees = (p.probeAgrees ^^ probeFlip q) := by
  obtain ⟨port, i⟩ := q
  cases port with
  | limits0 => exact (Bool.xor_false _).symm
  | control =>
    rw [Panel.probeAgrees, Panel.toggle, pin_xor, pin_bitOf low, Panel.probeAgrees, Bool.xor_assoc]
    rfl
  | probe =>
    rw [Panel.probeAgrees, Panel.toggle, pin_xor, pin_bitOf low, Panel.probeAgrees, Bool.xor_assoc,
      Bool.xor_assoc, Bool.xor_comm (pin p.control 7)]
    rfl

theorem stdinCommand_probe {c : UInt8} {pins : List (GpioPort × Nat)}
    (command : stdinCommand c = some (.toggleIn pins)) (agrees : Bool) :
    pins.foldl (fun agrees q => agrees ^^ probeFlip q) agrees = agrees := by
  unfold stdinCommand at command
  split at command
  all_goals
    first
    | cases command
      cases agrees <;> rfl
    | cases command

theorem key_probeAgrees (p : Panel) (c : UInt8) : (p.key c).probeAgrees = p.probeAgrees := by
  have toggles (pins : List (GpioPort × Nat)) (low : ∀ q ∈ pins, q.2 < 8) (p : Panel) :
      (pins.foldl Panel.toggle p).probeAgrees =
        pins.foldl (fun agrees q => agrees ^^ probeFlip q) p.probeAgrees := by
    induction pins generalizing p with
    | nil => rfl
    | cons q pins ih =>
      obtain ⟨first, later⟩ := List.forall_mem_cons.mp low
      rw [List.foldl_cons, List.foldl_cons, ih later, toggle_probeAgrees p first]
  unfold Panel.key
  split
  next pins command =>
    rw [toggles pins (stdinCommand_low command), stdinCommand_probe command]
  next => rfl

theorem step_probeAgrees (limitsOverride : UInt16) (p : Panel) (event : InputEvent) :
    (p.step limitsOverride event).probeAgrees = p.probeAgrees := by
  cases event with
  | key c => exact key_probeAgrees p c
  | _ => rfl

/-- Whatever happens from `driver_setup` on, the ports have the levels of the panel, and the core's
callbacks are called as it says: at a clock once for each port on which a line has risen. The probe
stays connected as long as it is not said to be disconnected, if it was so at the start. -/
theorem inputs_follow {limitsOverride : UInt16} {isr : IsrTable InputState}
    (wired : Wired limitsOverride isr) (early : List UInt8) (x : InputState)
    {events : List InputEvent}
    (apart : ∀ code, .other code ∈ events → ∀ x, inputView (code x) = inputView x) :
    let m := early.foldl Mcu.key mcuReset
    let s := events.foldl (Machine.input isr) (Machine.start m.driverSetup x)
    let p := events.foldl (Panel.step limitsOverride) (Panel.start m x)
    s.rest = p.rest ∧ (s.mcu.port .limits0).state = p.limits ∧
      (s.mcu.port .control).state = p.control ∧ (s.mcu.port .probe).state = p.probe ∧
      pin p.probe 1 = !(pin p.control 7 ^^ pin (m.port .control).state 7) := by
  intro m s p
  have runs (events : List InputEvent)
      (apart : ∀ code, .other code ∈ events → ∀ x, inputView (code x) = inputView x) (p : Panel)
      (s : Machine InputState) (shows : p.Shows s.inputs) :
      (events.foldl (Panel.step limitsOverride) p).Shows
          (events.foldl (Machine.input isr) s).inputs ∧
        (events.foldl (Panel.step limitsOverride) p).probeAgrees = p.probeAgrees := by
    induction events generalizing p s with
    | nil => exact ⟨shows, rfl⟩
    | cons event events ih =>
      have first := shows.step wired fun code here =>
        apart code (here ▸ List.mem_cons_self)
      obtain ⟨shown, agrees⟩ := ih (fun code later => apart code (List.mem_cons_of_mem _ later)) _ _
        first
      exact ⟨shown, agrees.trans (step_probeAgrees limitsOverride p event)⟩
  obtain ⟨shown, agrees⟩ := runs events apart (Panel.start m x) (Machine.start m.driverSetup x)
    (driverSetup_shows (keys_quiet early) x)
  refine ⟨shown.rest, shown.limits.state, shown.control.state, shown.probe, ?_⟩
  have connected : pin (Panel.start m x).probe 1 = true := by
    have bit : pin probeConnectedBit 1 = true := by decide
    rw [Panel.start, pin_or, bit, Bool.or_true]
  rw [Panel.probeAgrees, Panel.probeAgrees, connected] at agrees
  have solve : ∀ a b c : Bool, (a ^^ b) = (true ^^ c) → a = !(b ^^ c) := by decide
  exact solve _ _ _ agrees

/-- Nothing but the inputs, with `limits_override` as the eleventh signal. -/
def inputIsr : IsrTable InputState
  | .gpio i =>
    if i = GpioPort.limits0.index then limits0IrqHandler
    else if i = GpioPort.control.index then controlIrqHandler 0x400
    else id
  | _ => id

theorem inputIsr_wired : Wired 0x400 inputIsr where
  limits := rfl
  control := rfl
  others irq limits control x := by
    cases irq with
    | gpio i =>
      have first : i ≠ GpioPort.limits0.index := fun same => limits (congrArg IrqNum.gpio same)
      have second : i ≠ GpioPort.control.index := fun same => control (congrArg IrqNum.gpio same)
      simp only [inputIsr, if_neg first, if_neg second, id_eq]
    | _ => rfl

/-- The E-stop is pressed, then the X limit, with a clock after each. -/
theorem inputs_follow_estop :
    ([.limitsEnable true, .key 0x65, .clock, .key 0x78, .clock].foldl (Machine.input inputIsr)
      (Machine.start ([].foldl Mcu.key mcuReset).driverSetup ⟨0, 0, []⟩)).rest.calls =
        [.control 0x40, .limits 1] :=
  (congrArg InputState.calls
    (inputs_follow inputIsr_wired [] ⟨0, 0, []⟩ fun code other => by simp at other).1).trans
      (by decide)

end GrblhalSim
