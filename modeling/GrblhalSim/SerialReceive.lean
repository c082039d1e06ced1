import GrblhalSim.SerialTransmit

namespace GrblhalSim

open CallRun RingQueue

variable {tx rx : Nat}

/-- No byte was lost to a full ring, and what was returned and the ring make up what was kept. -/
structure Receives (x : Traffic tx rx) : Prop where
  noOverflow : x.serial.overflow = false
  delivered : x.line.kept = x.returned ++ x.serial.rxbuffer.toList

structure RxInv (x : Traffic tx rx) : Prop extends Receives x where
  idle : x.serial.Idle
  enabled : x.serial.TxEnabled

/-- `serialGetC` returns the oldest byte that it has not returned yet, and none when there is
none. -/
def ReturnsNext (x : Traffic tx rx) : SerialEvent → Prop
  | .core .getC => x.serial.serialGetC.1 = (x.line.kept.drop x.returned.length).head?
  | _ => True

def SerialEvent.isGetC : SerialEvent → Bool
  | .core .getC => true
  | _ => false

def SerialEvent.discards : SerialEvent → Bool
  | .core .rxFlush | .core .rxCancel => true
  | _ => false

theorem serialRxCancel_toList (large : 1 < 2 ^ rx) (s : Serial tx rx) :
    s.serialRxCancel.rxbuffer.toList = [asciiCan] := by
  have empty : (s.serialRxFlush.rxbuffer).count = 0 := by
    simp [Serial.serialRxFlush, Ring.count]
  have pushed : s.serialRxCancel.rxbuffer = s.serialRxFlush.rxbuffer.push asciiCan := by
    rw [Ring.push_room (by omega)]
    simp [Serial.serialRxCancel, nextIndex_eq, Serial.serialRxFlush]
  have nothing : s.serialRxFlush.rxbuffer.toList = [] := by
    rw [Ring.toList, empty]
    rfl
  rw [pushed, Ring.toList_push (by omega), nothing, List.nil_append]

/-- A call that discards nothing keeps what was kept and returns the next byte if it is a read. -/
structure ReceiveStep (x x' : Traffic tx rx) (e : SerialEvent) : Prop where
  kept : x.line.kept <+: x'.line.kept
  returned : x'.returned =
    x.returned ++ if e.isGetC then x.serial.rxbuffer.toList.head?.toList else []

theorem putC_receiving (x : Traffic tx rx) (c : UInt8) (blocking : Bool) :
    (x.core (.putC c blocking)).serial.rxbuffer = x.serial.rxbuffer ∧
      (x.core (.putC c blocking)).serial.overflow = x.serial.overflow := by
  rcases serialPutC_cases x.serial c blocking with ⟨result, _, same⟩ | ⟨_, taken⟩
  · simp [Traffic.core, same]
  · simp [Traffic.core, taken]

theorem getC_receiving (x : Traffic tx rx) :
    (x.core .getC).returned = x.returned ++ x.serial.rxbuffer.toList.head?.toList ∧
      x.serial.rxbuffer.toList =
        x.serial.rxbuffer.toList.head?.toList ++ (x.core .getC).serial.rxbuffer.toList ∧
      x.serial.serialGetC.1 = x.serial.rxbuffer.toList.head? ∧
      (x.core .getC).serial.overflow = x.serial.overflow := by
  simp only [Traffic.core, serialGetC_eq]
  split
  next c ring popped => simp [Ring.pop_some popped]
  next none => simp [Ring.pop_none none]

theorem RxInv.core {x : Traffic tx rx} (large : 1 < 2 ^ rx) (h : RxInv x) (call : CoreCall) :
    RxInv (x.core call) ∧
      (SerialEvent.discards (.core call) = false → ReceiveStep x (x.core call) (.core call)) := by
  obtain ⟨_, transmit⟩ := core_transmit h.enabled call
  have idle := h.idle.core call
  cases call with
  | putC c blocking =>
    obtain ⟨ring, overflow⟩ := putC_receiving x c blocking
    refine ⟨⟨⟨overflow.trans h.noOverflow, ?_⟩, idle, transmit.enabled⟩, fun _ => ⟨?_, ?_⟩⟩
    · rw [ring]
      exact h.delivered
    · exact List.prefix_rfl
    · simp [Traffic.core, SerialEvent.isGetC]
  | getC =>
    obtain ⟨returned, taken, _, overflow⟩ := getC_receiving x
    refine ⟨⟨⟨overflow.trans h.noOverflow, ?_⟩, idle, transmit.enabled⟩, fun _ => ⟨?_, ?_⟩⟩
    · rw [returned, List.append_assoc, ← taken]
      exact h.delivered
    · exact List.prefix_rfl
    · simp [returned, SerialEvent.isGetC]
  | rxFlush =>
    refine ⟨⟨⟨rfl, ?_⟩, idle, transmit.enabled⟩, fun keeps => by cases keeps⟩
    exact ((Ring.toList_eq_nil _).mpr rfl).symm
  | rxCancel =>
    refine ⟨⟨⟨rfl, ?_⟩, idle, transmit.enabled⟩, fun keeps => by cases keeps⟩
    exact (serialRxCancel_toList large x.serial).symm

theorem RxInv.simulate {x : Traffic tx rx} (h : RxInv x) (charIn : UInt8)
    (realtime : UInt8 → Bool) :
    ∃ x', trafficStep x (.simulate charIn realtime) = .ok x' ∧ RxInv x' ∧
      ReceiveStep x x' (.simulate charIn realtime) := by
  obtain ⟨s', step, quiet | ⟨_, room, taken⟩⟩ := simulate_cases h.idle h.enabled charIn realtime
  · refine ⟨_, quiet, ⟨⟨step.overflow.trans h.noOverflow, ?_⟩, step.idle, step.enabled⟩, ?_⟩
    · rw [step.rxbuffer]
      exact h.delivered
    · exact ⟨List.prefix_rfl, by simp [SerialEvent.isGetC]⟩
  · have idle : ({ s'.uart with rxData := charIn } : Uart).txIrq = false ∧
        ({ s'.uart with rxData := charIn } : Uart).rxIrq = false := ⟨step.idle.txIrq, step.idle.rxIrq⟩
    refine ⟨_, taken, ⟨⟨step.overflow.trans h.noOverflow, ?_⟩, ⟨step.idle.booted, idle.1, idle.2⟩,
      step.enabled⟩, ⟨?_, by simp [SerialEvent.isGetC]⟩⟩
    · cases realtime charIn with
      | true => simp [step.rxbuffer, h.delivered]
      | false =>
        simp only [Bool.false_eq_true, if_false]
        rw [Ring.toList_push room, step.rxbuffer, h.delivered, List.append_assoc]
    · cases realtime charIn <;> simp

theorem RxInv.step {x : Traffic tx rx} (large : 1 < 2 ^ rx) (h : RxInv x) (e : SerialEvent) :
    ∃ x', trafficStep x e = .ok x' ∧ RxInv x' ∧ (e.discards = false → ReceiveStep x x' e) := by
  cases e with
  | core call => exact ⟨_, rfl, h.core large call⟩
  | simulate charIn realtime =>
    obtain ⟨x', hs, inv, step⟩ := h.simulate charIn realtime
    exact ⟨x', hs, inv, fun _ => step⟩

theorem start_rxInv : RxInv (Traffic.start : Traffic tx rx) where
  noOverflow := rfl
  delivered := by simp [Traffic.start, Serial.serialInit, Ring.toList_empty]
  idle := serialInit_idle
  enabled := serialInit_txEnabled

theorem RxInv.returnsNext {x : Traffic tx rx} (h : RxInv x) (e : SerialEvent) : ReturnsNext x e := by
  match e with
  | .core .getC => simp [ReturnsNext, h.delivered, (getC_receiving x).2.2.1]
  | .core (.putC _ _) | .core .rxFlush | .core .rxCancel | .simulate _ _ => trivial

theorem RxInv.returned_later {x : Traffic tx rx} {m : Nat} (large : 1 < 2 ^ rx) (h : RxInv x)
    (within : m ≤ x.line.kept.length) (more : List SerialEvent)
    (keeps : ∀ e ∈ more, e.discards = false)
    (enough : m - x.returned.length ≤ more.countP SerialEvent.isGetC) :
    ∃ x', run trafficStep x more = .ok x' ∧ RxInv x' ∧ m ≤ x'.returned.length ∧
      x.line.kept <+: x'.line.kept := by
  induction more generalizing x with
  | nil =>
    rw [List.countP_nil] at enough
    exact ⟨x, rfl, h, by omega, List.prefix_rfl⟩
  | cons e more ih =>
    obtain ⟨next, hs, hnext, step⟩ := h.step large e
    have receive := step (keeps e List.mem_cons_self)
    have total := congrArg List.length h.delivered
    have returned := congrArg List.length receive.returned
    simp only [List.length_append] at total returned
    have later : m - next.returned.length ≤ more.countP SerialEvent.isGetC := by
      rw [List.countP_cons] at enough
      cases read : e.isGetC with
      | false =>
        simp [read] at enough returned
        omega
      | true =>
        cases left : x.serial.rxbuffer.toList <;> simp [read, left] at enough returned total <;> omega
    obtain ⟨x', hrun, hx', all, kept⟩ := ih hnext (within.trans receive.kept.length_le)
      (fun e he => keeps e (List.mem_cons_of_mem _ he)) later
    exact ⟨x', (run_cons hs more).trans hrun, hx', all, receive.kept.trans kept⟩

/-- In every interleaving nothing overflows, `serialGetC` returns the bytes that were kept in
order, none lost and none twice, and all of them once it has been called often enough. A cancel
leaves one `ASCII_CAN`. -/
theorem serial_receives (large : 101 < 2 ^ rx) (events : List SerialEvent) :
    EachState trafficStep Receives (Traffic.start : Traffic tx rx) events ∧
      EachCall trafficStep ReturnsNext (Traffic.start : Traffic tx rx) events ∧
      (∀ s : Serial tx rx, s.serialRxCancel.rxbuffer.toList = [asciiCan]) ∧
      ∃ x, run trafficStep (Traffic.start : Traffic tx rx) events = .ok x ∧
        ∀ more : List SerialEvent, (∀ e ∈ more, e.discards = false) →
          x.serial.rxbuffer.count ≤ more.countP SerialEvent.isGetC →
          ∃ x', run trafficStep x more = .ok x' ∧ x.line.kept <+: x'.returned := by
  have two : 1 < 2 ^ rx := by omega
  have kept : ∀ (x : Traffic tx rx) e x', RxInv x → trafficStep x e = .ok x' → RxInv x' := by
    intro x e x' h hs
    obtain ⟨next, hnext, inv, _⟩ := h.step two e
    cases Except.ok.inj (hnext.symm.trans hs)
    exact inv
  have every : EachCall trafficStep (fun _ _ => True) (Traffic.start : Traffic tx rx) events :=
    eachCall_all (fun _ _ => trivial) _ _
  refine ⟨?_, ?_, serialRxCancel_toList two, ?_⟩
  · exact (eachState_of_step events kept start_rxInv).mono fun _ h => h.toReceives
  · exact (eachCall_iff (fun x e x' h _ hs => kept x e x' h hs)
      (fun x e h _ => iff_of_true (h.returnsNext e) trivial) start_rxInv every).mpr every
  · obtain ⟨x, hrun, h⟩ := run_ok
      (fun x e h _ => (h.step two e).imp fun _ step => ⟨step.1, step.2.1⟩) start_rxInv every
    refine ⟨x, hrun, fun more keeps enough => ?_⟩
    have total := congrArg List.length h.delivered
    simp only [List.length_append, Ring.length_toList] at total
    obtain ⟨x', hmore, h', all, grows⟩ := h.returned_later two le_rfl more keeps (by omega)
    refine ⟨x', hmore, ?_⟩
    rw [h'.delivered] at grows
    exact List.prefix_of_prefix_length_le grows (List.prefix_append _ _) all

/-- `G1` comes with a status query in between; grblHAL reads the G, and prints a byte. -/
def queryTraffic : List SerialEvent :=
  [.simulate 0x47 (· == 0x3F), .simulate 0x3F (· == 0x3F), .core .getC,
    .simulate 0x31 (· == 0x3F), .core (.putC 0x6F true), .simulate 0 (· == 0x3F)]

theorem serial_receives_128 :
    EachState trafficStep Receives (Traffic.start : Traffic 1 7) queryTraffic ∧
      EachCall trafficStep ReturnsNext (Traffic.start : Traffic 1 7) queryTraffic ∧
      ∃ x x', run trafficStep (Traffic.start : Traffic 1 7) queryTraffic = .ok x ∧
        x.returned = [0x47] ∧ run trafficStep x [.core .getC] = .ok x' ∧
        [0x47, 0x31] <+: x'.returned := by
  obtain ⟨receives, returns, -, x, ran, later⟩ :=
    @serial_receives 1 7 (by decide) queryTraffic
  have observed : (run trafficStep (Traffic.start : Traffic 1 7) queryTraffic).map
      (fun x => (x.line.kept, x.returned, x.serial.rxbuffer.count)) =
        .ok ([0x47, 0x31], [0x47], 1) := by
    rfl
  rw [ran] at observed
  obtain ⟨kept, one, count⟩ : x.line.kept = [0x47, 0x31] ∧ x.returned = [0x47] ∧
      x.serial.rxbuffer.count = 1 := by
    simpa [Except.map] using observed
  obtain ⟨x', reads, all⟩ := later [.core .getC] (by decide) (by rw [count]; decide)
  exact ⟨receives, returns, x, x', ran, one, reads, kept ▸ all⟩

end GrblhalSim
