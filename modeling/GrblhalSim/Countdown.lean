import Mathlib.Algebra.BigOperators.Group.List.Basic
import Mathlib.Tactic.Linarith
import Mathlib.Tactic.Ring

namespace Countdown

/-- A counter that counts down from its load. -/
structure Counter where
  value : Nat
  load : Nat

inductive Outcome
  | loaded
  | counting
  | expired
  deriving DecidableEq

/-- A counter at zero is loaded; one that comes to zero expires and is loaded again. -/
def Counter.tick (c : Counter) : Counter × Outcome :=
  if c.value = 0 then (⟨c.load, c.load⟩, .loaded)
  else if c.value = 1 then (⟨c.load, c.load⟩, .expired)
  else (⟨c.value - 1, c.load⟩, .counting)

/-- The ticks up to and with the one at which the counter expires. -/
def Counter.left (c : Counter) : Nat := if c.value = 0 then c.load + 1 else c.value

theorem Counter.left_pos (c : Counter) : 0 < c.left := by
  unfold Counter.left
  split
  next => exact Nat.succ_pos _
  next more => exact Nat.pos_of_ne_zero more

theorem Counter.tick_load (c : Counter) : c.tick.1.load = c.load := by
  unfold Counter.tick
  split
  next => rfl
  next => split <;> rfl

theorem Counter.tick_expired (c : Counter) : c.tick.2 = .expired ↔ c.value = 1 := by
  unfold Counter.tick
  split
  next zero => simp [zero]
  next =>
    split
    next one => simp [one]
    next more => simp [more]

theorem Counter.tick_left {c : Counter} (pos : 0 < c.load) (h : c.tick.2 ≠ .expired) :
    c.tick.1.left + 1 = c.left := by
  have not_one : c.value ≠ 1 := fun one => h (c.tick_expired.mpr one)
  unfold Counter.tick Counter.left
  by_cases zero : c.value = 0
  · simp [zero, pos.ne']
  · have : c.value - 1 ≠ 0 := by omega
    simp only [zero, not_one, this, if_false]
    omega

/-- A counter that started at zero, after `n` ticks of which `k` expired. -/
structure Counted (c : Counter) (n k : Nat) : Prop where
  due : n + c.left = 1 + c.load * (k + 1)
  range : if n = 0 then c.value = 0 else 0 < c.value ∧ c.value ≤ c.load

theorem Counted.start (load : Nat) : Counted ⟨0, load⟩ 0 0 :=
  ⟨by simp [Counter.left, Nat.add_comm], rfl⟩

theorem Counted.tick {c : Counter} {n k : Nat} (h : Counted c n k) (pos : 0 < c.load) :
    Counted c.tick.1 (n + 1) (if c.tick.2 = .expired then k + 1 else k) := by
  have due := h.due
  have range := h.range
  have reloaded : (Counter.mk c.load c.load).left = c.load := if_neg pos.ne'
  by_cases one : c.value = 1
  · have tick : c.tick = (⟨c.load, c.load⟩, .expired) := by simp [Counter.tick, one]
    have left : c.left = 1 := by simp [Counter.left, one]
    rw [tick, if_pos rfl]
    refine ⟨?_, by simp [pos]⟩
    rw [reloaded]
    show n + 1 + c.load = 1 + c.load * (k + 1 + 1)
    rw [Nat.mul_succ]
    omega
  · have running : c.tick.2 ≠ .expired := fun expired => one (c.tick_expired.mp expired)
    have next := c.tick_left pos running
    rw [if_neg running]
    refine ⟨by rw [c.tick_load]; omega, ?_⟩
    rw [if_neg (by omega), c.tick_load]
    unfold Counter.tick
    by_cases zero : c.value = 0
    · simp [zero, pos]
    · have counted : n ≠ 0 := fun first => zero (by rwa [if_pos first] at range)
      rw [if_neg counted] at range
      simp only [zero, one, if_false]
      omega

/-- The ticks at which the counter expires are each `load` apart, after one that loads it. -/
theorem Counted.expired {c : Counter} {n k : Nat} (h : Counted c n k) (pos : 0 < c.load) :
    k = (n - 1) / c.load := by
  have due := h.due
  have range := h.range
  rw [Nat.mul_succ, Nat.mul_comm c.load k] at due
  have count : (n - 1) / c.load = k := by
    rw [Nat.div_eq_iff pos]
    by_cases first : n = 0
    · rw [if_pos first] at range
      simp only [Counter.left, range, if_true] at due
      omega
    · rw [if_neg first] at range
      have left : c.left = c.value := if_neg range.1.ne'
      rw [left] at due
      omega
  exact count.symm

/-- The ticks at which the counter does not just count down are each `load` apart. -/
theorem Counted.reloaded {c : Counter} {n k : Nat} (h : Counted c n k) (pos : 0 < c.load) :
    (if n = 0 then k else k + 1) = (n + c.load - 1) / c.load := by
  have expired := h.expired pos
  by_cases first : n = 0
  · have none_yet : (0 + c.load - 1) / c.load = 0 := Nat.div_eq_of_lt (by omega)
    rw [first] at expired
    rw [if_pos first, first, none_yet, expired, Nat.zero_sub, Nat.zero_div]
  · have shift : n + c.load - 1 = n - 1 + c.load := by omega
    rw [if_neg first, shift, Nat.add_div_right _ pos, expired]

/-- A counter that ticks when another, its prescaler, does not just count down. -/
structure Prescaled where
  scale : Counter
  main : Counter

/-- The flag tells whether the main counter expires. -/
def Prescaled.tick (p : Prescaled) : Prescaled × Bool :=
  if p.scale.tick.2 = .counting then (⟨p.scale.tick.1, p.main⟩, false)
  else (⟨p.scale.tick.1, p.main.tick.1⟩, p.main.tick.2 = .expired)

theorem Prescaled.tick_scale (p : Prescaled) : p.tick.1.scale = p.scale.tick.1 := by
  unfold Prescaled.tick
  split <;> rfl

/-- Both counters started at zero, `n` ticks ago, and the main one expired `k` times. -/
def PrescaledCounted (p : Prescaled) (n k : Nat) : Prop :=
  ∃ m, Counted p.scale n m ∧ Counted p.main (if n = 0 then m else m + 1) k

theorem PrescaledCounted.start (scale main : Nat) : PrescaledCounted ⟨⟨0, scale⟩, ⟨0, main⟩⟩ 0 0 :=
  ⟨0, Counted.start scale, Counted.start main⟩

theorem Counted.tick_loaded {c : Counter} {n k : Nat} (h : Counted c n k) :
    c.tick.2 = .loaded ↔ n = 0 := by
  have range := h.range
  have outcome : c.tick.2 = .loaded ↔ c.value = 0 := by
    unfold Counter.tick
    split
    next zero => simp [zero]
    next more => split <;> simp [more]
  rw [outcome]
  by_cases first : n = 0
  · rw [if_pos first] at range
    exact iff_of_true range first
  · rw [if_neg first] at range
    exact iff_of_false range.1.ne' first

theorem PrescaledCounted.tick {p : Prescaled} {n k : Nat} (h : PrescaledCounted p n k)
    (scale : 0 < p.scale.load) (main : 0 < p.main.load) :
    PrescaledCounted p.tick.1 (n + 1) (if p.tick.2 then k + 1 else k) := by
  obtain ⟨m, scaled, counted⟩ := h
  have next := scaled.tick scale
  have first := scaled.tick_loaded
  refine ⟨_, p.tick_scale ▸ next, ?_⟩
  rw [if_neg (Nat.succ_ne_zero n)]
  unfold Prescaled.tick
  cases outcome : p.scale.tick.2 with
  | counting =>
    have later : n ≠ 0 := fun zero => by
      rw [first.mpr zero] at outcome
      cases outcome
    simpa [later] using counted
  | loaded =>
    rw [first.mp outcome, if_pos rfl] at counted
    have := counted.tick main
    simpa using this
  | expired =>
    have later : n ≠ 0 := fun zero => by
      rw [first.mpr zero] at outcome
      cases outcome
    rw [if_neg later] at counted
    have := counted.tick main
    simpa using this

theorem PrescaledCounted.expired {p : Prescaled} {n k : Nat} (h : PrescaledCounted p n k)
    (scale : 0 < p.scale.load) (main : 0 < p.main.load) :
    k = ((n + p.scale.load - 1) / p.scale.load - 1) / p.main.load := by
  obtain ⟨m, scaled, counted⟩ := h
  rw [← scaled.reloaded scale]
  exact counted.expired main

section Schedule

variable {α : Type} {time gap : α → Nat}

/-- Each alarm has come when it was due and has told the gap to the next one, for which it is too
early at `now`. -/
def OnSchedule (time gap : α → Nat) (due now : Nat) : List α → Prop
  | [] => now < due
  | a :: as => time a = due ∧ due ≤ now ∧ OnSchedule time gap (due + gap a) now as

theorem OnSchedule.alarm {due now now' : Nat} {as : List α} {a : α}
    (h : OnSchedule time gap due now as) (later : now ≤ now')
    (at_due : time a = due + (as.map gap).sum) (come : time a ≤ now')
    (early : now' < due + (as.map gap).sum + gap a) :
    OnSchedule time gap due now' (as ++ [a]) := by
  induction as generalizing due with
  | nil =>
    have first : time a = due := at_due
    exact ⟨first, first ▸ come, early⟩
  | cons b bs ih =>
    rw [List.map_cons, List.sum_cons, ← Nat.add_assoc] at at_due early
    exact ⟨h.1, h.2.1.trans later, ih h.2.2 at_due early⟩

theorem OnSchedule.wait {due now now' : Nat} {as : List α} (h : OnSchedule time gap due now as)
    (later : now ≤ now') (early : now' < due + (as.map gap).sum) :
    OnSchedule time gap due now' as := by
  induction as generalizing due with
  | nil => exact early
  | cons b bs ih =>
    rw [List.map_cons, List.sum_cons, ← Nat.add_assoc] at early
    exact ⟨h.1, h.2.1.trans later, ih h.2.2 early⟩

theorem OnSchedule.split {due now : Nat} {as bs : List α}
    (h : OnSchedule time gap due now (as ++ bs)) :
    OnSchedule time gap (due + (as.map gap).sum) now bs := by
  induction as generalizing due with
  | nil => exact h
  | cons b bs ih =>
    rw [List.map_cons, List.sum_cons, ← Nat.add_assoc]
    exact ih h.2.2

/-- An alarm comes when the one before it has told. -/
theorem OnSchedule.consecutive {due now : Nat} {as bs : List α} {a b : α}
    (h : OnSchedule time gap due now (as ++ a :: b :: bs)) : time b = time a + gap a := by
  obtain ⟨first, _, second, _⟩ := h.split
  rw [second, first]

theorem OnSchedule.early {due now : Nat} {as : List α} {a : α}
    (h : OnSchedule time gap due now (as ++ [a])) : now < time a + gap a := by
  obtain ⟨first, _, early⟩ := h.split
  rw [first]
  exact early

/-- From the first alarm to the last, the gaps that all but the last have told add up. -/
theorem OnSchedule.total {due now : Nat} {as : List α} {a b : α}
    (h : OnSchedule time gap due now (a :: (as ++ [b]))) :
    time b = time a + ((a :: as).map gap).sum := by
  obtain ⟨first, _, rest⟩ := h
  rw [rest.split.1, first, List.map_cons, List.sum_cons, Nat.add_assoc]

end Schedule

section Slots

variable {ι σ β : Type}

theorem foldl_same {f : σ → ι → σ} (view : σ → β) {slots : List ι}
    (kept : ∀ j ∈ slots, ∀ s, view (f s j) = view s) (s : σ) :
    view (slots.foldl f s) = view s := by
  induction slots generalizing s with
  | nil => rfl
  | cons j js ih =>
    obtain ⟨here, later⟩ := List.forall_mem_cons.mp kept
    rw [List.foldl_cons, ih later, here]

/-- A loop over slots of which only `i` touches what `view` shows. -/
theorem foldl_one {f : σ → ι → σ} {view : σ → β} {i : ι} {slots : List ι} (once : slots.Nodup)
    (listed : i ∈ slots) (others : ∀ j, j ≠ i → ∀ s, view (f s j) = view s) {R : β → β → Prop}
    (own : ∀ s, R (view s) (view (f s i))) (s : σ) : R (view s) (view (slots.foldl f s)) := by
  induction slots generalizing s with
  | nil => cases listed
  | cons j js ih =>
    obtain ⟨fresh, once⟩ := List.nodup_cons.mp once
    rw [List.foldl_cons]
    by_cases here : j = i
    · subst here
      rw [foldl_same view fun k later => others k fun same => fresh (same ▸ later)]
      exact own s
    · have later : i ∈ js := (List.mem_cons.mp listed).resolve_left (Ne.symm here)
      rw [← others j here s]
      exact ih once later (f s j)

end Slots

end Countdown
