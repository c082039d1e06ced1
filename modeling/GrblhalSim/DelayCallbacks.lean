import GrblhalSim.DelayModel

namespace GrblhalSim

open CallRun

/-- No delay is running. -/
structure DelayState.Idle (x : DelayState) : Prop where
  due : ∀ r ∈ x.requests, r.due ≤ x.now
  invoked : x.invoked = x.requests.map DelayRequest.invocation
  off : x.ms = 0 ∨ x.callback = none

/-- The last request is waiting for its time, which `ms` counts down to. -/
structure DelayState.Waiting (x : DelayState) (earlier : List DelayRequest) (r : DelayRequest) :
    Prop where
  last : x.requests = earlier ++ [r]
  due : ∀ q ∈ earlier, q.due ≤ x.now
  invoked : x.invoked = earlier.map DelayRequest.invocation
  left : x.now + x.ms.toNat = r.due
  counting : 0 < x.ms.toNat

/-- The callback of the last request is in place. -/
def DelayState.Armed (x : DelayState) (r : DelayRequest) : Prop :=
  x.callback = some r.number ∧ .sysTick ∉ x.running

/-- The callback of the last request is gone, or will be when the handler goes on. -/
def DelayState.Lost (x : DelayState) : Prop := .sysTick ∈ x.running ∨ x.callback = none

variable {x : DelayState} {earlier : List DelayRequest} {r : DelayRequest}

theorem DelayState.Idle.onTime (h : x.Idle) : OnTime x := by
  rw [OnTime, List.filter_eq_self.mpr fun r hr => decide_eq_true (h.due r hr)]
  exact h.invoked

theorem DelayState.Waiting.onTime (h : x.Waiting earlier r) : OnTime x := by
  have later : ¬ r.due ≤ x.now := by
    have := h.left
    have := h.counting
    omega
  rw [OnTime, h.last, List.filter_append,
    List.filter_eq_self.mpr fun q hq => decide_eq_true (h.due q hq)]
  simpa [later] using h.invoked

theorem start_idle : DelayState.start.Idle := ⟨by simp [DelayState.start], rfl, Or.inr rfl⟩

theorem sysTickHandler_off (off : x.ms = 0 ∨ x.callback = none) :
    ∃ ms, (ms = 0 ∨ x.callback = none) ∧
      x.sysTickHandler = { x with ms := ms, ticks := x.ticks + 1, now := x.now + 1 } := by
  unfold DelayState.sysTickHandler
  rcases off with zero | none
  · exact ⟨0, Or.inl rfl, by simp [zero]⟩
  · by_cases zero : x.ms = 0
    · exact ⟨0, Or.inl rfl, by simp [zero]⟩
    · refine ⟨x.ms - 1, Or.inr none, ?_⟩
      simp [zero, none]

theorem pred_toNat {ms : UInt32} (counting : 0 < ms.toNat) : (ms - 1).toNat = ms.toNat - 1 :=
  UInt32.toNat_sub_of_le ms 1 counting

theorem sysTickHandler_counts (more : 1 < x.ms.toNat) :
    x.sysTickHandler = { x with ms := x.ms - 1, ticks := x.ticks + 1, now := x.now + 1 } := by
  have nonzero : x.ms ≠ 0 := fun zero => by simp [zero] at more
  have left : x.ms - 1 ≠ 0 := fun zero => by
    have value := pred_toNat (show 0 < x.ms.toNat by omega)
    simp only [zero, UInt32.toNat_zero] at value
    omega
  simp [DelayState.sysTickHandler, nonzero, left]

theorem sysTickHandler_expires (one : x.ms.toNat = 1) :
    x.sysTickHandler = match x.callback with
      | some n => { x with
          ms := 0
          ticks := x.ticks + 1
          now := x.now + 1
          invoked := x.invoked ++ [(n, x.now + 1)]
          running := .sysTick :: x.running }
      | none => { x with ms := 0, ticks := x.ticks + 1, now := x.now + 1 } := by
  have value : x.ms = 1 := UInt32.toNat_inj.mp one
  rw [DelayState.sysTickHandler, value]
  cases x.callback with
  | none => rfl
  | some n => rfl

theorem DelayState.Idle.sysTick (h : x.Idle) : x.sysTickHandler.Idle := by
  obtain ⟨ms, off, hs⟩ := sysTickHandler_off h.off
  rw [hs]
  exact ⟨fun r hr => Nat.le_succ_of_le (h.due r hr), h.invoked, off⟩

theorem DelayState.Idle.returns (h : x.Idle) : x.callbackReturns.Idle := by
  unfold DelayState.callbackReturns
  split
  · exact ⟨h.due, h.invoked, Or.inr rfl⟩
  · exact ⟨h.due, h.invoked, h.off⟩
  · exact h

theorem DelayState.Idle.request_now (h : x.Idle) : (x.driverDelayMs 0).Idle := by
  refine ⟨?_, ?_, Or.inl rfl⟩
  · intro r hr
    rcases List.mem_append.mp hr with old | new
    · exact h.due r old
    · rw [List.mem_singleton.mp new]
      exact Nat.le_refl _
  · simp [DelayState.driverDelayMs, h.invoked, DelayRequest.invocation, DelayRequest.due]

theorem DelayState.Idle.request (h : x.Idle) {ms : UInt32} (positive : ms > 0) :
    ∃ r, (x.driverDelayMs ms).Waiting x.requests r ∧
      (NotChained x (.delayMs ms) → (x.driverDelayMs ms).Armed r) ∧
      (¬ NotChained x (.delayMs ms) → (x.driverDelayMs ms).Lost) := by
  have requested : x.driverDelayMs ms = { x with
      ms := ms
      requests := x.requests ++ [⟨x.requests.length, x.now, ms⟩]
      systickEnable := true
      callback := some x.requests.length } := by
    simp [DelayState.driverDelayMs, positive]
  rw [requested]
  refine ⟨⟨x.requests.length, x.now, ms⟩, ⟨rfl, h.due, h.invoked, rfl, positive⟩, ?_, ?_⟩
  · exact fun apart => ⟨rfl, apart positive⟩
  · intro chained
    left
    by_contra apart
    exact chained fun _ => apart

theorem DelayState.Waiting.returns (h : x.Waiting earlier r) :
    x.callbackReturns.Waiting earlier r ∧ (x.Armed r → x.callbackReturns.Armed r) ∧
      (x.Lost → x.callbackReturns.Lost) := by
  unfold DelayState.callbackReturns
  split
  next running eq =>
    refine ⟨⟨h.last, h.due, h.invoked, h.left, h.counting⟩, fun armed => ?_, fun _ => Or.inr rfl⟩
    exact absurd (by simp [eq]) armed.2
  next running eq =>
    refine ⟨⟨h.last, h.due, h.invoked, h.left, h.counting⟩, fun armed => ⟨armed.1, ?_⟩, ?_⟩
    · exact fun mem => armed.2 (eq ▸ List.mem_cons_of_mem _ mem)
    · exact fun lost => lost.imp_left fun mem => by simpa [eq] using mem
  next => exact ⟨h, id, id⟩

theorem DelayState.Waiting.counts (h : x.Waiting earlier r) (more : 1 < x.ms.toNat) :
    x.sysTickHandler.Waiting earlier r ∧ (x.Armed r → x.sysTickHandler.Armed r) ∧
      (x.Lost → x.sysTickHandler.Lost) := by
  have left := h.left
  rw [sysTickHandler_counts more]
  refine ⟨⟨h.last, fun q hq => Nat.le_succ_of_le (h.due q hq), h.invoked, ?_, ?_⟩, id, id⟩
  · simp only [pred_toNat h.counting]
    omega
  · simp only [pred_toNat h.counting]
    omega

theorem DelayState.Waiting.expires (h : x.Waiting earlier r) (one : x.ms.toNat = 1)
    (armed : x.Armed r) : x.sysTickHandler.Idle := by
  have left := h.left
  rw [sysTickHandler_expires one, armed.1]
  refine ⟨?_, ?_, Or.inl rfl⟩
  · intro q hq
    rcases List.mem_append.mp (h.last ▸ hq) with old | new
    · exact Nat.le_succ_of_le (h.due q old)
    · rw [List.mem_singleton.mp new]
      exact (by omega : r.due ≤ x.now + 1)
  · have due : x.now + 1 = r.due := by omega
    simp [h.last, h.invoked, DelayRequest.invocation, due]

/-- A lost callback is not invoked when its time comes. -/
theorem DelayState.Waiting.misses (h : x.Waiting earlier r) (one : x.ms.toNat = 1) (lost : x.Lost)
    (outside : .sysTick ∉ x.running) : ¬ OnTime x.sysTickHandler := by
  have left := h.left
  have due : x.now + 1 = r.due := by omega
  rw [sysTickHandler_expires one, lost.resolve_left outside]
  intro onTime
  have all : x.requests.filter (fun q => q.due ≤ x.now + 1) = x.requests := by
    rw [List.filter_eq_self]
    intro q hq
    rcases List.mem_append.mp (h.last ▸ hq) with old | new
    · exact decide_eq_true (Nat.le_succ_of_le (h.due q old))
    · rw [List.mem_singleton.mp new]
      exact decide_eq_true (Nat.le_of_eq due.symm)
  have counts := congrArg List.length onTime
  simp only [all, List.length_map] at counts
  rw [h.invoked, h.last] at counts
  simp at counts

def DelayEvent.isRequest : DelayEvent → Bool
  | .delayMs _ => true
  | _ => false

def DelayState.Inv (x : DelayState) : Prop :=
  x.Idle ∨ ∃ earlier r, x.Waiting earlier r ∧ x.Armed r

def DelayState.Doomed (x : DelayState) : Prop := x.Lost ∧ ∃ earlier r, x.Waiting earlier r

theorem DelayState.Inv.onTime (h : x.Inv) : OnTime x := by
  rcases h with idle | ⟨earlier, r, waiting, _⟩
  · exact idle.onTime
  · exact waiting.onTime

theorem DelayState.Waiting.not_allowed (h : x.Waiting earlier r) {ms : UInt32} :
    ¬ Allowed x (.delayMs ms) := by
  intro allowed
  have passed := allowed r (by simp [h.last])
  have := h.left
  have := h.counting
  omega

theorem DelayState.Inv.after (h : x.Inv) {e : DelayEvent} (allowed : Allowed x e) :
    (NotChained x e → (x.after e).Inv) ∧ (¬ NotChained x e → (x.after e).Doomed) := by
  rcases h with idle | ⟨earlier, r, waiting, armed⟩
  · cases e with
    | sysTick => exact ⟨fun _ => Or.inl idle.sysTick, fun chained => absurd trivial chained⟩
    | callbackReturns => exact ⟨fun _ => Or.inl idle.returns, fun chained => absurd trivial chained⟩
    | delayMs ms =>
      by_cases positive : ms > 0
      · obtain ⟨r, waiting, armed, lost⟩ := idle.request positive
        exact ⟨fun apart => Or.inr ⟨_, r, waiting, armed apart⟩,
          fun chained => ⟨lost chained, _, r, waiting⟩⟩
      · have zero : ms = 0 := by simpa using positive
        subst zero
        exact ⟨fun _ => Or.inl idle.request_now,
          fun chained => absurd (fun h => absurd h positive) chained⟩
  · cases e with
    | sysTick =>
      refine ⟨fun _ => ?_, fun chained => absurd trivial chained⟩
      by_cases one : x.ms.toNat = 1
      · exact Or.inl (waiting.expires one armed)
      · have counting := waiting.counting
        obtain ⟨still, arms, _⟩ := waiting.counts (by omega)
        exact Or.inr ⟨earlier, r, still, arms armed⟩
    | callbackReturns =>
      obtain ⟨still, arms, _⟩ := waiting.returns
      exact ⟨fun _ => Or.inr ⟨earlier, r, still, arms armed⟩, fun chained => absurd trivial chained⟩
    | delayMs ms => exact absurd allowed waiting.not_allowed

theorem DelayState.Doomed.after (h : x.Doomed) {e : DelayEvent} (allowed : Allowed x e) :
    ¬ OnTime (x.after e) ∨ (x.after e).Doomed := by
  obtain ⟨lost, earlier, r, waiting⟩ := h
  cases e with
  | sysTick =>
    by_cases one : x.ms.toNat = 1
    · exact Or.inl (waiting.misses one lost allowed)
    · have counting := waiting.counting
      obtain ⟨still, _, loses⟩ := waiting.counts (by omega)
      exact Or.inr ⟨loses lost, earlier, r, still⟩
  | callbackReturns =>
    obtain ⟨still, _, loses⟩ := waiting.returns
    exact Or.inr ⟨loses lost, earlier, r, still⟩
  | delayMs ms => exact absurd allowed waiting.not_allowed

/-- When the running callbacks return and the time passes, a lost callback is missed. -/
theorem DelayState.Doomed.missed {n : Nat} (h : x.Doomed) (size : x.running.length + x.ms.toNat = n) :
    ∃ more, (∀ e ∈ more, e.isRequest = false) ∧ EachCall delayStep Allowed x more ∧
      ¬ EachState delayStep OnTime x more := by
  induction n using Nat.strongRecOn generalizing x with
  | ind n ih =>
    obtain ⟨lost, earlier, r, waiting⟩ := h
    have counting := waiting.counting
    cases running : x.running with
    | cons top below =>
      have allowed : Allowed x .callbackReturns := by simp [Allowed, running]
      obtain ⟨still, _, loses⟩ := waiting.returns
      have shorter : x.callbackReturns.running.length + x.callbackReturns.ms.toNat + 1 = n := by
        cases top <;> simp [DelayState.callbackReturns, running] at size ⊢ <;> omega
      obtain ⟨more, free, calls, fails⟩ := ih _ (by omega) ⟨loses lost, earlier, r, still⟩ rfl
      refine ⟨.callbackReturns :: more, ?_, eachCall_delay.mpr ⟨allowed, calls⟩, ?_⟩
      · simpa [DelayEvent.isRequest] using free
      · exact fun onTime => fails (eachState_delay.mp onTime).2
    | nil =>
      have outside : .sysTick ∉ x.running := by simp [running]
      have allowed : Allowed x .sysTick := outside
      by_cases one : x.ms.toNat = 1
      · refine ⟨[.sysTick], by simp [DelayEvent.isRequest], eachCall_delay.mpr ⟨allowed, trivial⟩, ?_⟩
        exact fun onTime => waiting.misses one lost outside (eachState_delay.mp onTime).2
      · obtain ⟨still, _, loses⟩ := waiting.counts (by omega)
        have shorter : x.sysTickHandler.running.length + x.sysTickHandler.ms.toNat + 1 = n := by
          rw [sysTickHandler_counts (by omega)]
          simp only [pred_toNat counting]
          omega
        obtain ⟨more, free, calls, fails⟩ := ih _ (by omega) ⟨loses lost, earlier, r, still⟩ rfl
        refine ⟨.sysTick :: more, ?_, eachCall_delay.mpr ⟨allowed, calls⟩, ?_⟩
        · simpa [DelayEvent.isRequest] using free
        · exact fun onTime => fails (eachState_delay.mp onTime).2

theorem DelayState.Doomed.fails {events : List DelayEvent} (h : x.Doomed)
    (allowed : EachCall delayStep Allowed x events) :
    ∃ more, (∀ e ∈ more, e.isRequest = false) ∧ EachCall delayStep Allowed x (events ++ more) ∧
      ¬ EachState delayStep OnTime x (events ++ more) := by
  induction events generalizing x with
  | nil => exact h.missed rfl
  | cons e events ih =>
    obtain ⟨first, rest⟩ := eachCall_delay.mp allowed
    rcases h.after first with late | doomed
    · refine ⟨[], by simp, by simpa using allowed, fun onTime => late ?_⟩
      rw [List.append_nil] at onTime
      exact (eachState_delay.mp onTime).2.first
    · obtain ⟨more, free, calls, fails⟩ := ih doomed rest
      refine ⟨more, free, eachCall_delay.mpr ⟨first, calls⟩, fun onTime => fails ?_⟩
      exact (eachState_delay.mp onTime).2

theorem DelayState.Inv.notChained {events : List DelayEvent} (h : x.Inv)
    (allowed : EachCall delayStep Allowed x events)
    (onTime : ∀ more, (∀ e ∈ more, e.isRequest = false) →
      EachCall delayStep Allowed x (events ++ more) → EachState delayStep OnTime x (events ++ more)) :
    EachCall delayStep NotChained x events := by
  induction events generalizing x with
  | nil => trivial
  | cons e events ih =>
    obtain ⟨first, rest⟩ := eachCall_delay.mp allowed
    obtain ⟨keeps, dooms⟩ := h.after first
    have apart : NotChained x e := by
      by_contra chained
      obtain ⟨more, free, calls, fails⟩ := (dooms chained).fails rest
      exact fails (eachState_delay.mp
        (onTime more free (eachCall_delay.mpr ⟨first, calls⟩))).2
    refine eachCall_delay.mpr ⟨apart, ih (keeps apart) rest fun more free calls => ?_⟩
    exact (eachState_delay.mp (onTime more free (eachCall_delay.mpr ⟨first, calls⟩))).2

theorem DelayState.Inv.run {events : List DelayEvent} (h : x.Inv)
    (allowed : EachCall delayStep Allowed x events) (apart : EachCall delayStep NotChained x events) :
    EachState delayStep OnTime x events := by
  induction events generalizing x with
  | nil => exact h.onTime
  | cons e events ih =>
    obtain ⟨first, rest⟩ := eachCall_delay.mp allowed
    obtain ⟨here, later⟩ := eachCall_delay.mp apart
    exact eachState_delay.mpr ⟨h.onTime, ih ((h.after first).1 here) rest later⟩

theorem notChained_of_free (y : DelayState) {more : List DelayEvent}
    (free : ∀ e ∈ more, e.isRequest = false) : EachCall delayStep NotChained y more := by
  induction more generalizing y with
  | nil => trivial
  | cons e more ih =>
    refine eachCall_delay.mpr ⟨?_, ih _ fun d hd => free d (List.mem_cons_of_mem _ hd)⟩
    cases e with
    | delayMs ms => cases free (.delayMs ms) List.mem_cons_self
    | sysTick => trivial
    | callbackReturns => trivial

theorem start_inv : DelayState.start.Inv := Or.inl start_idle

/-- With requests that do not overlap, a run and everything that can follow it is on time exactly
when no delay is requested from a callback that the handler runs. -/
theorem delays_on_time_iff (events : List DelayEvent)
    (allowed : EachCall delayStep Allowed DelayState.start events) :
    (∀ more, (∀ e ∈ more, e.isRequest = false) →
        EachCall delayStep Allowed DelayState.start (events ++ more) →
        EachState delayStep OnTime DelayState.start (events ++ more)) ↔
      EachCall delayStep NotChained DelayState.start events := by
  constructor
  · exact start_inv.notChained allowed
  · intro apart more free calls
    exact start_inv.run calls (eachCall_append.mpr ⟨apart, fun y _ => notChained_of_free y free⟩)

/-- A delay of 2 ms, and one of 1 ms when its callback has returned. -/
def delaysInTurn : List DelayEvent :=
  [.delayMs 2, .sysTick, .sysTick, .callbackReturns, .delayMs 1, .sysTick, .callbackReturns]

theorem delays_on_time_iff_turn :
    EachCall delayStep NotChained DelayState.start delaysInTurn ∧
      ∀ more, (∀ e ∈ more, e.isRequest = false) →
        EachCall delayStep Allowed DelayState.start (delaysInTurn ++ more) →
        EachState delayStep OnTime DelayState.start (delaysInTurn ++ more) := by
  have allowed : EachCall delayStep Allowed DelayState.start delaysInTurn := by
    simp only [delaysInTurn, eachCall_delay]
    exact ⟨by decide, by decide, by decide, by decide, by decide, by decide, by decide, trivial⟩
  have apart : EachCall delayStep NotChained DelayState.start delaysInTurn := by
    simp only [delaysInTurn, eachCall_delay]
    exact ⟨fun _ => by decide, trivial, trivial, trivial, fun _ => by decide, trivial, trivial,
      trivial⟩
  exact ⟨apart, (delays_on_time_iff delaysInTurn allowed).mpr apart⟩

/-- A delay of 1 ms, whose callback requests another one of 1 ms. -/
def chainedDelays : List DelayEvent :=
  [.delayMs 1, .sysTick, .delayMs 1, .callbackReturns, .sysTick]

theorem chained_delay_lost : EachCall delayStep Allowed DelayState.start chainedDelays ∧
    ¬ EachState delayStep OnTime DelayState.start chainedDelays := by
  constructor
  · simp only [chainedDelays, eachCall_delay]
    refine ⟨by decide, by decide, by decide, by decide, by decide, trivial⟩
  · intro onTime
    have last : OnTime (chainedDelays.foldl DelayState.after DelayState.start) := onTime.last rfl
    exact absurd last (by decide)

end GrblhalSim
