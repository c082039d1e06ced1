import GrblhalSim.SerialRun

namespace GrblhalSim

open CallRun RingQueue

variable {tx rx : Nat}

/-- What was sent, the byte on its way out and the ring make up what was accepted. -/
structure Transmits (x : Traffic tx rx) : Prop where
  delivered : x.accepted = x.line.sent ++ x.serial.held ++ x.serial.txbuffer.toList
  enabled : x.serial.TxEnabled

structure TxInv (x : Traffic tx rx) : Prop extends Transmits x where
  idle : x.serial.Idle

def SerialEvent.isSimulate : SerialEvent → Bool
  | .core _ => false
  | .simulate _ _ => true

/-- A call of grblHAL adds to the transmit side at most the byte that it is called with. -/
structure CoreTransmit (x x' : Traffic tx rx) (more : List UInt8) : Prop where
  accepted : x'.accepted = x.accepted ++ more
  queued : x'.serial.txbuffer.toList = x.serial.txbuffer.toList ++ more
  sent : x'.line.sent = x.line.sent
  held : x'.serial.held = x.serial.held
  enabled : x'.serial.TxEnabled

theorem core_transmit {x : Traffic tx rx} (enabled : x.serial.TxEnabled) (call : CoreCall) :
    ∃ more, CoreTransmit x (x.core call) more := by
  have receiving : ∀ x' : Traffic tx rx, x'.serial.txbuffer = x.serial.txbuffer →
      x'.serial.uart = x.serial.uart → x'.accepted = x.accepted → x'.line.sent = x.line.sent →
      ∃ more, CoreTransmit x x' more := by
    intro x' ring uart accepted sent
    refine ⟨[], by simp [accepted], by simp [ring], sent, by simp [Serial.held, uart], ?_⟩
    rwa [Serial.TxEnabled, ring, uart]
  cases call with
  | putC c blocking =>
    rcases serialPutC_cases x.serial c blocking with ⟨result, refused, same⟩ | ⟨room, taken⟩
    · apply receiving <;> simp [Traffic.core, same, refused]
    · refine ⟨[c], ?_, ?_, ?_, ?_, ?_⟩
      · simp [Traffic.core, taken]
      · simp [Traffic.core, taken, Ring.toList_push room]
      · simp [Traffic.core]
      · simp [Traffic.core, taken, Serial.held]
      · simp [Traffic.core, taken, Serial.TxEnabled, Ring.toList_push room]
  | getC =>
    have same := serialGetC_eq x.serial
    apply receiving <;> simp only [Traffic.core, same] <;> split <;> rfl
  | rxFlush => exact receiving _ rfl rfl rfl rfl
  | rxCancel => exact receiving _ rfl rfl rfl rfl

theorem start_txInv : TxInv (Traffic.start : Traffic tx rx) where
  delivered := by simp [Traffic.start, Serial.held, Serial.serialInit, Ring.toList_empty]
  enabled := serialInit_txEnabled
  idle := serialInit_idle

/-- A call of `simulate_serial` sends the held byte and takes the next one off the ring. -/
structure SimulateTransmit (x x' : Traffic tx rx) : Prop where
  accepted : x'.accepted = x.accepted
  sent : x'.line.sent = x.line.sent ++ x.serial.held
  moved : x.serial.txbuffer.toList = x'.serial.held ++ x'.serial.txbuffer.toList
  filled : x.serial.txbuffer.toList ≠ [] → x'.serial.held ≠ []
  enabled : x'.serial.TxEnabled
  idle : x'.serial.Idle

theorem simulate_transmit {x : Traffic tx rx} (idle : x.serial.Idle) (enabled : x.serial.TxEnabled)
    (charIn : UInt8) (realtime : UInt8 → Bool) :
    ∃ x', trafficStep x (.simulate charIn realtime) = .ok x' ∧ SimulateTransmit x x' := by
  obtain ⟨s', step, quiet | ⟨_, _, taken⟩⟩ := simulate_cases idle enabled charIn realtime
  · exact ⟨_, quiet, rfl, rfl, step.moved, step.filled, step.enabled, step.idle⟩
  · exact ⟨_, taken, rfl, rfl, step.moved, step.filled, step.enabled,
      ⟨step.idle.booted, step.idle.txIrq, step.idle.rxIrq⟩⟩

theorem TxInv.step {x : Traffic tx rx} (h : TxInv x) (e : SerialEvent) :
    ∃ x', trafficStep x e = .ok x' ∧ TxInv x' := by
  cases e with
  | core call =>
    obtain ⟨more, core⟩ := core_transmit h.enabled call
    refine ⟨_, rfl, ⟨?_, core.enabled⟩, h.idle.core call⟩
    rw [core.accepted, core.sent, core.held, core.queued, h.delivered]
    simp only [List.append_assoc]
  | simulate charIn realtime =>
    obtain ⟨x', hs, tick⟩ := simulate_transmit h.idle h.enabled charIn realtime
    refine ⟨x', hs, ⟨?_, tick.enabled⟩, tick.idle⟩
    rw [tick.accepted, tick.sent, h.delivered, tick.moved]
    simp only [List.append_assoc]

/-- How many calls of `simulate_serial` it takes at most until `m` bytes have been sent. -/
def Traffic.ticksLeft (m : Nat) (x : Traffic tx rx) : Nat :=
  if m ≤ x.line.sent.length then 0
  else m - x.line.sent.length + if x.serial.held = [] then 1 else 0

theorem TxInv.ticksLeft_step {x x' : Traffic tx rx} {m : Nat} (h : TxInv x) {e : SerialEvent}
    (within : m ≤ x.accepted.length) (hs : trafficStep x e = .ok x') :
    x'.ticksLeft m ≤ x.ticksLeft m - e.isSimulate.toNat ∧ x.accepted <+: x'.accepted := by
  cases e with
  | core call =>
    obtain ⟨more, core⟩ := core_transmit h.enabled call
    cases hs
    refine ⟨?_, by simp [core.accepted]⟩
    simp [Traffic.ticksLeft, core.sent, core.held, SerialEvent.isSimulate]
  | simulate charIn realtime =>
    obtain ⟨next, hnext, tick⟩ := simulate_transmit h.idle h.enabled charIn realtime
    cases Except.ok.inj (hnext.symm.trans hs)
    refine ⟨?_, tick.accepted ▸ List.prefix_rfl⟩
    have total := congrArg List.length h.delivered
    have sent := congrArg List.length tick.sent
    have one : x.serial.held.length ≤ 1 := by unfold Serial.held; split <;> simp
    simp only [List.length_append] at total sent
    simp only [Traffic.ticksLeft, SerialEvent.isSimulate, Bool.toNat_true]
    by_cases all : m ≤ x'.line.sent.length
    · simp [all]
    · -- Something is left on the ring, so the UART holds a byte after the call.
      have left : x.serial.txbuffer.toList ≠ [] := by
        intro none
        rw [none, List.length_nil] at total
        omega
      have before : ¬ m ≤ x.line.sent.length := by omega
      simp only [if_neg all, if_neg before, if_neg (tick.filled left)]
      cases held : x.serial.held with
      | nil =>
        rw [held, List.length_nil] at sent
        simp only [if_true]
        omega
      | cons c cs =>
        rw [held, List.length_cons] at sent
        simp only [reduceCtorEq, if_false]
        omega

theorem TxInv.sent_later {x : Traffic tx rx} {m : Nat} (h : TxInv x) (within : m ≤ x.accepted.length)
    (more : List SerialEvent) (enough : x.ticksLeft m ≤ more.countP SerialEvent.isSimulate) :
    ∃ x', run trafficStep x more = .ok x' ∧ TxInv x' ∧ m ≤ x'.line.sent.length ∧
      x.accepted <+: x'.accepted := by
  induction more generalizing x with
  | nil =>
    refine ⟨x, rfl, h, ?_, List.prefix_rfl⟩
    simp only [Traffic.ticksLeft, List.countP_nil, Nat.le_zero] at enough
    by_contra short
    rw [if_neg short] at enough
    omega
  | cons e more ih =>
    obtain ⟨next, hs, hnext⟩ := h.step e
    obtain ⟨fewer, grows⟩ := h.ticksLeft_step within hs
    have later : next.ticksLeft m ≤ more.countP SerialEvent.isSimulate := by
      rw [List.countP_cons] at enough
      cases sim : e.isSimulate <;> simp [sim] at enough fewer <;> omega
    obtain ⟨x', hrun, hx', sent, accepted⟩ := ih hnext (within.trans grows.length_le) later
    exact ⟨x', (run_cons hs more).trans hrun, hx', sent, grows.trans accepted⟩

/-- In every interleaving the accepted bytes are sent in order, none lost and none twice, and each
of them is sent once `simulate_serial` has been called often enough. -/
theorem serial_transmits (events : List SerialEvent) :
    EachState trafficStep Transmits (Traffic.start : Traffic tx rx) events ∧
      ∃ x, run trafficStep (Traffic.start : Traffic tx rx) events = .ok x ∧
        ∀ more : List SerialEvent,
          x.serial.txbuffer.count < more.countP SerialEvent.isSimulate →
          ∃ x', run trafficStep x more = .ok x' ∧ x.accepted <+: x'.line.sent := by
  have every : EachCall trafficStep (fun _ _ => True) (Traffic.start : Traffic tx rx) events :=
    eachCall_all (fun _ _ => trivial) _ _
  constructor
  · refine (eachState_of_step events ?_ start_txInv).mono fun _ h => h.toTransmits
    intro x e x' h hs
    obtain ⟨next, hnext, inv⟩ := h.step e
    cases Except.ok.inj (hnext.symm.trans hs)
    exact inv
  · obtain ⟨x, hrun, h⟩ := run_ok (fun x e h _ => h.step e) start_txInv every
    refine ⟨x, hrun, fun more enough => ?_⟩
    have total := congrArg List.length h.delivered
    have one : x.serial.held.length ≤ 1 := by unfold Serial.held; split <;> simp
    simp only [List.length_append, Ring.length_toList] at total
    have ticks : x.ticksLeft x.accepted.length ≤ more.countP SerialEvent.isSimulate := by
      unfold Traffic.ticksLeft
      split
      · omega
      · split
        next none => rw [none, List.length_nil] at total; omega
        next => omega
    obtain ⟨x', hmore, h', sent, accepted⟩ := h.sent_later le_rfl more ticks
    refine ⟨x', hmore, ?_⟩
    rw [h'.delivered, List.append_assoc] at accepted
    exact List.prefix_of_prefix_length_le accepted (List.prefix_append _ _) sent

end GrblhalSim
