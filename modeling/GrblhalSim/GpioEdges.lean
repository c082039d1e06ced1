import GrblhalSim.McuModel

namespace GrblhalSim

def pin (n : UInt16) (i : Nat) : Bool := n.toBitVec.getLsbD i

def pin8 (n : UInt8) (i : Nat) : Bool := n.toBitVec.getLsbD i

def recordEdge (port : GpioPortT) (irqState : UInt16) (bitflag : UInt8) : UInt16 :=
  if port.state &&& bitflag.toUInt16 ≠ 0 then
    if port.falling &&& bitflag.toUInt16 ≠ 0 then irqState ||| bitflag.toUInt16 else irqState
  else
    if port.rising &&& bitflag.toUInt16 ≠ 0 then irqState ||| bitflag.toUInt16 else irqState

/-- The loop of `mcu_gpio_in`: the `irq_state` it leaves; `none` when the fuel does not last. -/
def edgeLoop (port : GpioPortT) : Nat → UInt8 → UInt8 → UInt16 → Option UInt16
  | 0, _, _, _ => none
  | fuel + 1, changed, bitflag, irqState =>
    let here : Bool := changed &&& bitflag ≠ 0
    let irqState := if here then recordEdge port irqState bitflag else irqState
    let changed := if here then changed &&& ~~~bitflag else changed
    if changed ≠ 0 then edgeLoop port fuel changed (bitflag <<< 1) irqState else some irqState

def mcuGpioIn (fuel : Nat) (port : GpioPortT) (pins mask : UInt16) : Option GpioPortT :=
  let pins := pins &&& mask
  let changed := ((port.state &&& mask) ^^^ pins).toUInt8
  (edgeLoop port fuel changed 1 port.irqState).map fun irqState =>
    { port with irqState := irqState, state := (port.state &&& ~~~mask) ||| pins }

def mcuGpioToggleIn (fuel : Nat) (port : GpioPortT) (pins : UInt16) : Option GpioPortT :=
  mcuGpioIn fuel port ((port.state &&& pins) ^^^ pins) pins

@[simp] theorem pin_and (m n : UInt16) (i : Nat) : pin (m &&& n) i = (pin m i && pin n i) := by
  simp [pin]

@[simp] theorem pin_or (m n : UInt16) (i : Nat) : pin (m ||| n) i = (pin m i || pin n i) := by
  simp [pin]

@[simp] theorem pin_xor (m n : UInt16) (i : Nat) : pin (m ^^^ n) i = (pin m i ^^ pin n i) := by
  simp [pin]

@[simp] theorem pin_not (n : UInt16) (i : Nat) : pin (~~~n) i = (decide (i < 16) && !pin n i) := by
  simp [pin]

theorem pin_of_le {n : UInt16} {i : Nat} (h : 16 ≤ i) : pin n i = false :=
  BitVec.getLsbD_of_ge _ _ h

theorem pin_toUInt8 (n : UInt16) (i : Nat) : pin8 n.toUInt8 i = (decide (i < 8) && pin n i) := by
  simp [pin, pin8]

def flagOf (k : Nat) : UInt8 := ⟨BitVec.twoPow 8 k⟩

theorem flagOf_shift : ∀ k < 8, flagOf k <<< 1 = flagOf (k + 1) := by decide

theorem flagOf_wide : ∀ k < 8, (flagOf k).toUInt16.toBitVec = BitVec.twoPow 16 k := by decide

theorem and_twoPow_ne_zero {w k : Nat} (hk : k < w) (x : BitVec w) :
    x &&& BitVec.twoPow w k ≠ 0#w ↔ x.getLsbD k = true := by
  rw [BitVec.and_twoPow]
  cases x.getLsbD k with
  | false => simp
  | true =>
    refine iff_of_true (fun zero => ?_) rfl
    have bit := BitVec.getLsbD_twoPow k k (w := w)
    rw [show BitVec.twoPow w k = 0#w from zero] at bit
    simp [hk] at bit

theorem flagOf_and {n : UInt8} {k : Nat} (hk : k < 8) : n &&& flagOf k ≠ 0 ↔ pin8 n k = true := by
  rw [ne_eq, ← UInt8.toBitVec_inj]
  exact and_twoPow_ne_zero hk n.toBitVec

theorem flagOf_and_wide {n : UInt16} {k : Nat} (hk : k < 8) :
    n &&& (flagOf k).toUInt16 ≠ 0 ↔ pin n k = true := by
  rw [ne_eq, ← UInt16.toBitVec_inj, UInt16.toBitVec_and, flagOf_wide k hk]
  exact and_twoPow_ne_zero (by omega) n.toBitVec

theorem pin_flagOf {k : Nat} (hk : k < 8) (i : Nat) :
    pin (flagOf k).toUInt16 i = decide (i = k) := by
  rw [pin, flagOf_wide k hk, BitVec.getLsbD_twoPow]
  have : k < 16 := by omega
  simp [this, eq_comm]

theorem pin8_clear {n : UInt8} {k : Nat} (i : Nat) :
    pin8 (n &&& ~~~flagOf k) i = (pin8 n i && decide (i ≠ k)) := by
  by_cases inside : i < 8
  · by_cases same : k = i
    · simp [pin8, flagOf, inside, same]
    · simp [pin8, flagOf, inside, Ne.symm same]
  · have outside : pin8 n i = false := BitVec.getLsbD_of_ge _ _ (by omega)
    have cleared : pin8 (n &&& ~~~flagOf k) i = false := BitVec.getLsbD_of_ge _ _ (by omega)
    simp [outside, cleared]

/-- The loop adds one pin in pass `k`, if its edge is enabled. -/
theorem pin_recordEdge (port : GpioPortT) (irqState : UInt16) {k : Nat} (hk : k < 8) (i : Nat) :
    pin (recordEdge port irqState (flagOf k)) i = (pin irqState i || (decide (i = k) &&
      if pin port.state i then pin port.falling i else pin port.rising i)) := by
  simp only [recordEdge, flagOf_and_wide hk]
  by_cases here : i = k
  · subst here
    cases pin port.state i <;> cases pin port.falling i <;> cases pin port.rising i <;>
      simp [pin_flagOf hk]
  · cases pin port.state k <;> cases pin port.falling k <;> cases pin port.rising k <;>
      simp [pin_flagOf hk, here]

theorem pin8_some {n : UInt8} (h : n ≠ 0) : ∃ j < 8, pin8 n j = true := by
  by_contra! all_off
  apply h
  rw [← UInt8.toBitVec_inj]
  exact BitVec.eq_of_getLsbD_eq fun j inside => by simpa [pin8] using all_off j inside

section Pass

variable (port : GpioPortT) (changed : UInt8) (irqState : UInt16) {k : Nat} (hk : k < 8)
include hk

theorem pass_taken : decide (changed &&& flagOf k ≠ 0) = pin8 changed k := by
  rw [Bool.eq_iff_iff, decide_eq_true_iff]
  exact flagOf_and hk

theorem pin8_pass (i : Nat) :
    pin8 (if (decide (changed &&& flagOf k ≠ 0)) = true then changed &&& ~~~flagOf k
        else changed) i =
      (pin8 changed i && decide (i ≠ k)) := by
  rw [pass_taken changed hk]
  cases here : pin8 changed k with
  | true => rw [if_pos rfl, pin8_clear]
  | false =>
    rw [if_neg Bool.false_ne_true]
    by_cases same : i = k
    · simp [same, here]
    · simp [same]

theorem pin_pass (i : Nat) :
    pin (if (decide (changed &&& flagOf k ≠ 0)) = true then recordEdge port irqState (flagOf k)
        else irqState) i =
      (pin irqState i || (pin8 changed i && decide (i = k) &&
        if pin port.state i then pin port.falling i else pin port.rising i)) := by
  rw [pass_taken changed hk]
  by_cases same : i = k
  · cases here : pin8 changed k with
    | true => rw [if_pos rfl, pin_recordEdge port irqState hk, same, here, Bool.true_and]
    | false => simp [same, here]
  · cases here : pin8 changed k with
    | true => simp [pin_recordEdge port irqState hk, same]
    | false => simp [same]

end Pass

/-- From pass `k` on, the loop adds the changed pins whose edge is enabled. It ends, as no pin
before `k` and none after the eighth is left in `changed`. -/
theorem edgeLoop_some (port : GpioPortT) {fuel k : Nat} (changed : UInt8) (irqState : UInt16)
    (hk : k < 8) (enough : 8 ≤ fuel + k) (visited : ∀ i < k, pin8 changed i = false) :
    ∃ irqState', edgeLoop port fuel changed (flagOf k) irqState = some irqState' ∧
      ∀ i, pin irqState' i = (pin irqState i || (pin8 changed i &&
        if pin port.state i then pin port.falling i else pin port.rising i)) := by
  induction fuel generalizing k changed irqState with
  | zero => omega
  | succ fuel ih =>
    have rest_pins := pin8_pass changed hk
    have irq_pins := pin_pass port changed irqState hk
    unfold edgeLoop
    dsimp only
    generalize (if (decide (changed &&& flagOf k ≠ 0)) = true then changed &&& ~~~flagOf k
      else changed) = rest at rest_pins ⊢
    generalize (if (decide (changed &&& flagOf k ≠ 0)) = true then
      recordEdge port irqState (flagOf k) else irqState) = irq at irq_pins ⊢
    by_cases more : rest ≠ 0
    · obtain ⟨j, inside, on⟩ := pin8_some more
      have changed_j : pin8 changed j = true ∧ j ≠ k := by
        simpa [on] using (rest_pins j).symm
      have after : ¬ j < k := fun before => by
        rw [visited j before] at changed_j
        exact absurd changed_j.1 (by simp)
      have visited' : ∀ i < k + 1, pin8 rest i = false := by
        intro i before
        rw [rest_pins]
        by_cases same : i = k
        · simp [same]
        · simp [visited i (by omega)]
      obtain ⟨irqState', result, pins⟩ := ih rest irq (by omega) (by omega) visited'
      rw [if_pos more, flagOf_shift k hk]
      refine ⟨irqState', result, fun i => ?_⟩
      rw [pins, irq_pins, rest_pins]
      by_cases same : i = k
      · simp [same]
      · simp [same]
    · rw [if_neg more]
      refine ⟨irq, rfl, fun i => ?_⟩
      have gone : pin8 rest i = false := by
        rw [Classical.not_not.mp more]
        simp [pin8]
      rw [irq_pins]
      rw [rest_pins] at gone
      by_cases same : i = k
      · simp [same]
      · have off : pin8 changed i = false := by simpa [same] using gone
        simp [off]

/-- A call that changes the inputs of a port. -/
inductive GpioCall
  | gpioIn (pins mask : UInt16)
  | toggleIn (pins : UInt16)

def GpioCall.apply (fuel : Nat) (port : GpioPortT) : GpioCall → Option GpioPortT
  | gpioIn pins mask => mcuGpioIn fuel port pins mask
  | toggleIn pins => mcuGpioToggleIn fuel port pins

/-- The call returns, however much longer its loop might run. -/
def GpioCall.Returns (c : GpioCall) (port port' : GpioPortT) : Prop :=
  ∃ enough, ∀ fuel, enough ≤ fuel → c.apply fuel port = some port'

/-- The levels of the pins after a call, from those before it. -/
def GpioCall.level (levels : Nat → Bool) (i : Nat) : GpioCall → Bool
  | gpioIn pins mask => if pin mask i then pin pins i else levels i
  | toggleIn pins => if pin pins i then !levels i else levels i

def EnabledEdge (port : GpioPortT) (c : GpioCall) (levels : Nat → Bool) (i : Nat) : Prop :=
  (levels i = false ∧ c.level levels i = true ∧ pin port.rising i = true) ∨
    (levels i = true ∧ c.level levels i = false ∧ pin port.falling i = true)

instance (port : GpioPortT) (c : GpioCall) (levels : Nat → Bool) (i : Nat) :
    Decidable (EnabledEdge port c levels i) := by
  unfold EnabledEdge
  infer_instance

/-- An enabled edge occurs on pin `i` in one of the calls. -/
def EdgeOccurs (port : GpioPortT) : List GpioCall → (Nat → Bool) → Nat → Prop
  | [], _, _ => False
  | c :: cs, levels, i =>
    EnabledEdge port c levels i ∨ EdgeOccurs port cs (fun j => c.level levels j) i

/-- What a call is to do: set the levels, and add to `irq_state` the pins with an enabled edge. -/
structure RecordsEdges (port port' : GpioPortT) (c : GpioCall) : Prop where
  levels : ∀ i, pin port'.state i = c.level (pin port.state) i
  pending : ∀ i, pin port'.irqState i = true ↔
    pin port.irqState i = true ∨ EnabledEdge port c (pin port.state) i
  wiring : port' = { port with state := port'.state, irqState := port'.irqState }

def EachRecords (port port' : GpioPortT) : List GpioCall → Prop
  | [] => port' = port
  | c :: cs => ∃ next, c.Returns port next ∧ RecordsEdges port next c ∧ EachRecords next port' cs

theorem returns_unique {c : GpioCall} {port port' port'' : GpioPortT} (h : c.Returns port port')
    (h' : c.Returns port port'') : port' = port'' := by
  obtain ⟨enough, returned⟩ := h
  obtain ⟨enough', returned'⟩ := h'
  have same := (returned _ (le_max_left enough enough')).symm.trans
    (returned' _ (le_max_right enough enough'))
  exact Option.some.inj same

/-- `mcu_gpio_in` records the enabled edges of the first eight pins. -/
theorem mcuGpioIn_some (port : GpioPortT) (pins mask : UInt16) :
    ∃ irqState, (∀ fuel, 8 ≤ fuel → mcuGpioIn fuel port pins mask =
        some { port with
          irqState := irqState, state := (port.state &&& ~~~mask) ||| (pins &&& mask) }) ∧
      ∀ i, pin irqState i = true ↔ pin port.irqState i = true ∨
        (i < 8 ∧ EnabledEdge port (.gpioIn pins mask) (pin port.state) i) := by
  have run : ∀ fuel, 8 ≤ fuel → ∃ irqState,
      edgeLoop port fuel ((port.state &&& mask) ^^^ (pins &&& mask)).toUInt8 (flagOf 0)
        port.irqState = some irqState ∧ ∀ i, pin irqState i = (pin port.irqState i ||
          (pin8 ((port.state &&& mask) ^^^ (pins &&& mask)).toUInt8 i &&
            if pin port.state i then pin port.falling i else pin port.rising i)) :=
    fun fuel enough => edgeLoop_some port _ _ (by decide) (by omega)
      (fun i before => absurd before (Nat.not_lt_zero i))
  obtain ⟨irqState, _, pins_eq⟩ := run 8 le_rfl
  refine ⟨irqState, fun fuel enough => ?_, fun i => ?_⟩
  · obtain ⟨irqState', result, pins_eq'⟩ := run fuel enough
    have same : irqState' = irqState := by
      rw [← UInt16.toBitVec_inj]
      refine BitVec.eq_of_getLsbD_eq fun i _ => ?_
      exact (pins_eq' i).trans (pins_eq i).symm
    rw [← same]
    exact congrArg (Option.map _) result
  · rw [pins_eq, pin_toUInt8]
    simp only [EnabledEdge, GpioCall.level, pin_xor, pin_and]
    by_cases low : i < 8
    · cases pin mask i <;> cases pin port.state i <;> cases pin pins i <;> simp [low]
    · simp [low]

structure RecordsLow (port port' : GpioPortT) (c : GpioCall) : Prop where
  levels : ∀ i, pin port'.state i = c.level (pin port.state) i
  pending : ∀ i, pin port'.irqState i = true ↔
    pin port.irqState i = true ∨ (i < 8 ∧ EnabledEdge port c (pin port.state) i)
  wiring : port' = { port with state := port'.state, irqState := port'.irqState }

theorem call_returns (port : GpioPortT) (c : GpioCall) :
    ∃ port', c.Returns port port' ∧ RecordsLow port port' c := by
  cases c with
  | gpioIn pins mask =>
    obtain ⟨irqState, result, pending⟩ := mcuGpioIn_some port pins mask
    refine ⟨_, ⟨8, result⟩, fun i => ?_, pending, rfl⟩
    simp only [GpioCall.level, pin_or, pin_and, pin_not]
    by_cases inside : i < 16
    · cases pin mask i <;> simp [inside]
    · simp [pin_of_le (Nat.le_of_not_lt inside)]
  | toggleIn pins =>
    obtain ⟨irqState, result, pending⟩ :=
      mcuGpioIn_some port ((port.state &&& pins) ^^^ pins) pins
    refine ⟨_, ⟨8, result⟩, fun i => ?_, fun i => ?_, rfl⟩
    · simp only [GpioCall.level, pin_or, pin_and, pin_xor, pin_not]
      by_cases inside : i < 16
      · cases pin pins i <;> simp [inside]
      · simp [pin_of_le (Nat.le_of_not_lt inside)]
    · rw [pending]
      simp only [EnabledEdge, GpioCall.level, pin_xor, pin_and]
      cases pin pins i <;> cases pin port.state i <;> simp

theorem enabledEdge_wiring {port port' : GpioPortT} {state irqState : UInt16}
    (wiring : port' = { port with state := state, irqState := irqState }) (c : GpioCall)
    (levels : Nat → Bool) (i : Nat) :
    EnabledEdge port' c levels i ↔ EnabledEdge port c levels i := by
  rw [wiring]
  rfl

theorem edgeOccurs_wiring {port port' : GpioPortT} {state irqState : UInt16}
    (wiring : port' = { port with state := state, irqState := irqState }) (calls : List GpioCall)
    (levels : Nat → Bool) (i : Nat) :
    EdgeOccurs port' calls levels i ↔ EdgeOccurs port calls levels i := by
  induction calls generalizing levels with
  | nil => exact Iff.rfl
  | cons c cs ih => rw [EdgeOccurs, EdgeOccurs, enabledEdge_wiring wiring, ih]

/-- The edges on the high pins are those that the code does not record. -/
def HighEdgesPending (port : GpioPortT) (calls : List GpioCall) : Prop :=
  ∀ i, 8 ≤ i → EdgeOccurs port calls (pin port.state) i → pin port.irqState i = true

theorem highEdges_cons {port port' : GpioPortT} {c : GpioCall} (h : RecordsLow port port' c)
    (cs : List GpioCall) : HighEdgesPending port (c :: cs) ↔
      (∀ i, 8 ≤ i → EnabledEdge port c (pin port.state) i → pin port.irqState i = true) ∧
        HighEdgesPending port' cs := by
  have levels : pin port'.state = fun i => c.level (pin port.state) i := funext h.levels
  have kept : ∀ i, 8 ≤ i → (pin port'.irqState i = true ↔ pin port.irqState i = true) := by
    intro i high
    have low : ¬ (i < 8 ∧ EnabledEdge port c (pin port.state) i) := fun edge => by omega
    rw [h.pending, or_iff_left low]
  simp only [HighEdgesPending, EdgeOccurs, levels, edgeOccurs_wiring h.wiring]
  constructor
  · intro all
    exact ⟨fun i high edge => all i high (Or.inl edge),
      fun i high edge => (kept i high).mpr (all i high (Or.inr edge))⟩
  · rintro ⟨first, later⟩ i high (edge | edge)
    · exact first i high edge
    · exact (kept i high).mp (later i high edge)

theorem records_of_low {port port' : GpioPortT} {c : GpioCall} (h : RecordsLow port port' c) :
    RecordsEdges port port' c ↔
      ∀ i, 8 ≤ i → EnabledEdge port c (pin port.state) i → pin port.irqState i = true := by
  constructor
  · intro exact i high edge
    have pending := (exact.pending i).mpr (Or.inr edge)
    have low : ¬ (i < 8 ∧ EnabledEdge port c (pin port.state) i) := fun both => by omega
    rwa [h.pending, or_iff_left low] at pending
  · intro high
    refine ⟨h.levels, fun i => ?_, h.wiring⟩
    rw [h.pending]
    constructor
    · exact Or.imp_right And.right
    · rintro (before | edge)
      · exact Or.inl before
      · by_cases low : i < 8
        · exact Or.inr ⟨low, edge⟩
        · exact Or.inl (high i (by omega) edge)

theorem eachRecords_iff (port : GpioPortT) (calls : List GpioCall) :
    (∃ port', EachRecords port port' calls) ↔ HighEdgesPending port calls := by
  induction calls generalizing port with
  | nil => exact iff_of_true ⟨port, rfl⟩ fun _ _ edge => edge.elim
  | cons c cs ih =>
    obtain ⟨next, returns, low⟩ := call_returns port c
    rw [highEdges_cons low, ← ih, ← records_of_low low]
    constructor
    · rintro ⟨port', next', returns', records, later⟩
      cases returns_unique returns' returns
      exact ⟨records, port', later⟩
    · rintro ⟨records, port', later⟩
      exact ⟨port', next, returns, records, later⟩

/-- After calls that each do what they are to do, a pin is pending if it was before or if an
enabled edge has occurred on it. -/
theorem eachRecords_pending {port port' : GpioPortT} {calls : List GpioCall}
    (h : EachRecords port port' calls) (i : Nat) : pin port'.irqState i = true ↔
      pin port.irqState i = true ∨ EdgeOccurs port calls (pin port.state) i := by
  induction calls generalizing port with
  | nil =>
    cases h
    simp [EdgeOccurs]
  | cons c cs ih =>
    obtain ⟨next, _, records, later⟩ := h
    have levels : pin next.state = fun i => c.level (pin port.state) i := funext records.levels
    rw [ih later, records.pending, levels, edgeOccurs_wiring records.wiring, EdgeOccurs, or_assoc]

/-- Input edges are recorded exactly as long as every enabled edge on one of the pins 8 to 15 is
on a pin that is pending already. -/
theorem gpio_edges_recorded_iff (port : GpioPortT) (calls : List GpioCall) :
    (∃ port', EachRecords port port' calls ∧ ∀ i, pin port'.irqState i = true ↔
        pin port.irqState i = true ∨ EdgeOccurs port calls (pin port.state) i) ↔
      HighEdgesPending port calls := by
  rw [← eachRecords_iff]
  constructor
  · rintro ⟨port', each, _⟩
    exact ⟨port', each⟩
  · rintro ⟨port', each⟩
    exact ⟨port', each, eachRecords_pending each⟩

/-- Pin 8 rises, and its edge is enabled, but it does not become pending. -/
theorem pin_8_not_recorded :
    (GpioCall.gpioIn 0x100 0x100).Returns ⟨0, 0x100, 0, 0x100, 0⟩ ⟨0x100, 0x100, 0, 0x100, 0⟩ ∧
      EnabledEdge ⟨0, 0x100, 0, 0x100, 0⟩ (.gpioIn 0x100 0x100) (pin 0) 8 ∧
      ¬ ∃ port', EachRecords ⟨0, 0x100, 0, 0x100, 0⟩ port' [.gpioIn 0x100 0x100] := by
  have returns : (GpioCall.gpioIn 0x100 0x100).Returns ⟨0, 0x100, 0, 0x100, 0⟩
      ⟨0x100, 0x100, 0, 0x100, 0⟩ := by
    refine ⟨1, fun fuel enough => ?_⟩
    obtain ⟨fuel, rfl⟩ := Nat.exists_eq_add_of_le' enough
    rfl
  have edge : EnabledEdge ⟨0, 0x100, 0, 0x100, 0⟩ (.gpioIn 0x100 0x100) (pin 0) 8 := by decide
  refine ⟨returns, edge, ?_⟩
  rintro ⟨port', next, returns', records, _⟩
  cases returns_unique returns' returns
  have pending := (records.pending 8).mpr (Or.inr edge)
  exact absurd pending (by decide)

end GrblhalSim
