import Mathlib.Algebra.Order.Field.Basic
import Mathlib.Tactic.Linarith
import Mathlib.Tactic.Ring

namespace SlabClip

variable {K : Type*} [Field K] [LinearOrder K]

structure Window (K : Type*) where
  t0 : K
  t1 : K

def Window.Has (w : Window K) (t : K) : Prop := w.t0 ≤ t ∧ t ≤ w.t1

/-- One Liang-Barsky cut, for `p` not zero: keep the parameters with `p * t ≤ q`. -/
def cut (p q : K) (w : Window K) : Option (Window K) :=
  let t := q / p
  if p < 0 then
    if t > w.t1 then none else some ⟨if t > w.t0 then t else w.t0, w.t1⟩
  else
    if t < w.t0 then none else some ⟨w.t0, if t < w.t1 then t else w.t1⟩

/-- One coordinate of a segment against the interval it is to stay in. -/
structure Slab (K : Type*) where
  start : K
  delta : K
  lo : K
  hi : K

def Slab.at (s : Slab K) (t : K) : K := s.start + t * s.delta

def Slab.Inside (s : Slab K) (t : K) : Prop := s.lo ≤ s.at t ∧ s.at t ≤ s.hi

def Slab.Strict (s : Slab K) (t : K) : Prop := s.lo < s.at t ∧ s.at t < s.hi

def Slab.clip (s : Slab K) (w : Window K) : Option (Window K) :=
  let pNeg := -s.delta
  let qNeg := s.start - s.lo
  let pPos := s.delta
  let qPos := s.hi - s.start
  if pNeg = 0 ∧ pPos = 0 then
    if qNeg < 0 ∨ qPos < 0 then none else some w
  else
    (cut pNeg qNeg w).bind (cut pPos qPos)

/-- The cuts of every slab in turn; `none` once the window is empty. -/
def clipAll : List (Slab K) → Window K → Option (Window K)
  | [], w => some w
  | s :: ss, w => (s.clip w).bind (clipAll ss)

/-- One side of a slab, of either sign: the bound `p * t ≤ q` where `p` may be zero. -/
def clipSide (p q : K) (w : Window K) : Option (Window K) :=
  if p = 0 then
    if q < 0 then none else some w
  else cut p q w

def clipSides : List (K × K) → Window K → Option (Window K)
  | [], w => some w
  | (p, q) :: sides, w => (clipSide p q w).bind (clipSides sides)

def Slab.sides (s : Slab K) : List (K × K) :=
  [(-s.delta, s.start - s.lo), (s.delta, s.hi - s.start)]

theorem cut_neg {p : K} (neg : p < 0) (q : K) (w : Window K) :
    cut p q w = if w.t1 < q / p then none else some ⟨max (q / p) w.t0, w.t1⟩ := by
  have later : (if q / p > w.t0 then q / p else w.t0) = max (q / p) w.t0 := by
    rw [max_comm, max_def_lt]
  simp only [cut, if_pos neg, gt_iff_lt, later]

theorem cut_pos {p : K} (pos : 0 < p) (q : K) (w : Window K) :
    cut p q w = if q / p < w.t0 then none else some ⟨w.t0, min (q / p) w.t1⟩ := by
  have earlier : (if q / p < w.t1 then q / p else w.t1) = min (q / p) w.t1 := by
    rw [min_def_lt]
  simp only [cut, if_neg (not_lt.mpr pos.le), earlier]

theorem Slab.clip_moving {s : Slab K} (hd : s.delta ≠ 0) (w : Window K) :
    s.clip w = (cut (-s.delta) (s.start - s.lo) w).bind (cut s.delta (s.hi - s.start)) := by
  simp [Slab.clip, hd]

theorem Slab.Strict.inside {s : Slab K} {t : K} (h : s.Strict t) : s.Inside t :=
  ⟨h.1.le, h.2.le⟩

theorem cut_ordered {p q : K} {w w' : Window K} (hp : p ≠ 0) (hw : w.t0 ≤ w.t1)
    (h : cut p q w = some w') : w'.t0 ≤ w'.t1 := by
  rcases lt_or_gt_of_ne hp with neg | pos
  · rw [cut_neg neg] at h
    split at h
    next => simp at h
    next hb => cases Option.some.inj h; exact max_le (not_lt.mp hb) hw
  · rw [cut_pos pos] at h
    split at h
    next => simp at h
    next hb => cases Option.some.inj h; exact le_min (not_lt.mp hb) hw

theorem clipSides_append (sides sides' : List (K × K)) (w : Window K) :
    clipSides (sides ++ sides') w = (clipSides sides w).bind (clipSides sides') := by
  induction sides generalizing w with
  | nil => rfl
  | cons side sides ih =>
    rw [List.cons_append, clipSides, clipSides, Option.bind_assoc]
    exact congrArg _ (funext ih)

variable [IsStrictOrderedRing K]

theorem Slab.clip_parallel {s : Slab K} (hd : s.delta = 0) (w : Window K) :
    s.clip w = if s.lo ≤ s.start ∧ s.start ≤ s.hi then some w else none := by
  by_cases hin : s.lo ≤ s.start ∧ s.start ≤ s.hi
  · simp [Slab.clip, hd, hin]
  · rw [if_neg hin]
    rw [not_and_or, not_le, not_le] at hin
    simp [Slab.clip, hd, hin]

theorem Slab.clip_ordered {s : Slab K} {w w' : Window K} (hw : w.t0 ≤ w.t1)
    (h : s.clip w = some w') : w'.t0 ≤ w'.t1 := by
  by_cases hd : s.delta = 0
  · rw [Slab.clip_parallel hd] at h
    split at h
    next => cases Option.some.inj h; exact hw
    next => simp at h
  · rw [Slab.clip_moving hd] at h
    obtain ⟨mid, h1, h2⟩ := Option.bind_eq_some_iff.mp h
    exact cut_ordered hd (cut_ordered (neg_ne_zero.mpr hd) hw h1) h2

theorem clipAll_ordered {ss : List (Slab K)} {w w' : Window K} (hw : w.t0 ≤ w.t1)
    (h : clipAll ss w = some w') : w'.t0 ≤ w'.t1 := by
  induction ss generalizing w with
  | nil => cases Option.some.inj h; exact hw
  | cons s ss ih =>
    obtain ⟨mid, h1, h2⟩ := Option.bind_eq_some_iff.mp h
    exact ih (Slab.clip_ordered hw h1) h2

theorem mul_le_of_neg {p : K} (neg : p < 0) (q t : K) : p * t ≤ q ↔ q / p ≤ t := by
  rw [div_le_iff_of_neg neg, mul_comm]

theorem mul_le_of_pos {p : K} (pos : 0 < p) (q t : K) : p * t ≤ q ↔ t ≤ q / p := by
  rw [le_div_iff₀ pos, mul_comm]

theorem mul_lt_of_neg {p : K} (neg : p < 0) (q t : K) : p * t < q ↔ q / p < t := by
  rw [div_lt_iff_of_neg neg, mul_comm]

theorem mul_lt_of_pos {p : K} (pos : 0 < p) (q t : K) : p * t < q ↔ t < q / p := by
  rw [lt_div_iff₀ pos, mul_comm]

theorem cut_has {p q t : K} {w w' : Window K} (hp : p ≠ 0) (h : cut p q w = some w') :
    w'.Has t ↔ w.Has t ∧ p * t ≤ q := by
  rcases lt_or_gt_of_ne hp with neg | pos
  · rw [cut_neg neg] at h
    split at h
    next => simp at h
    next =>
      cases Option.some.inj h
      rw [mul_le_of_neg neg]
      simp only [Window.Has, max_le_iff]
      tauto
  · rw [cut_pos pos] at h
    split at h
    next => simp at h
    next =>
      cases Option.some.inj h
      rw [mul_le_of_pos pos]
      simp only [Window.Has, le_min_iff]
      tauto

theorem cut_none {p q t : K} {w : Window K} (hp : p ≠ 0) (h : cut p q w = none)
    (ht : w.Has t) : q < p * t := by
  by_contra hh
  rw [not_lt] at hh
  rcases lt_or_gt_of_ne hp with neg | pos
  · have hb : ¬w.t1 < q / p := not_lt.mpr (((mul_le_of_neg neg q t).mp hh).trans ht.2)
    simp [cut_neg neg, hb] at h
  · have hb : ¬q / p < w.t0 := not_lt.mpr (ht.1.trans ((mul_le_of_pos pos q t).mp hh))
    simp [cut_pos pos, hb] at h

theorem cut_strict {p q t : K} {w : Window K} (hp : p ≠ 0) (hw : w.t0 < w.t1)
    (ht : w.Has t) (hs : p * t < q) : ∃ w', cut p q w = some w' ∧ w'.t0 < w'.t1 := by
  rcases lt_or_gt_of_ne hp with neg | pos
  · have hb := (mul_lt_of_neg neg q t).mp hs
    rw [cut_neg neg, if_neg (not_lt.mpr (hb.le.trans ht.2))]
    exact ⟨_, rfl, max_lt (hb.trans_le ht.2) hw⟩
  · have hb := (mul_lt_of_pos pos q t).mp hs
    rw [cut_pos pos, if_neg (not_lt.mpr (ht.1.trans hb.le))]
    exact ⟨_, rfl, lt_min (ht.1.trans_lt hb) hw⟩

theorem cut_entry_lt {p q t : K} {w w' : Window K} (hp : p ≠ 0) (hs : p * t < q)
    (ht : w.t0 < t) (h : cut p q w = some w') : w'.t0 < t := by
  rcases lt_or_gt_of_ne hp with neg | pos
  · rw [cut_neg neg] at h
    split at h
    next => simp at h
    next => cases Option.some.inj h; exact max_lt ((mul_lt_of_neg neg q t).mp hs) ht
  · rw [cut_pos pos] at h
    split at h
    next => simp at h
    next => cases Option.some.inj h; exact ht

theorem Slab.inside_iff (s : Slab K) (t : K) :
    s.Inside t ↔ -s.delta * t ≤ s.start - s.lo ∧ s.delta * t ≤ s.hi - s.start := by
  simp only [Slab.Inside, Slab.at]
  constructor <;> rintro ⟨h1, h2⟩ <;> constructor <;> linarith [mul_comm t s.delta]

theorem Slab.strict_iff (s : Slab K) (t : K) :
    s.Strict t ↔ -s.delta * t < s.start - s.lo ∧ s.delta * t < s.hi - s.start := by
  simp only [Slab.Strict, Slab.at]
  constructor <;> rintro ⟨h1, h2⟩ <;> constructor <;> linarith [mul_comm t s.delta]

theorem Slab.clip_has {s : Slab K} {w w' : Window K} {t : K} (h : s.clip w = some w') :
    w'.Has t ↔ w.Has t ∧ s.Inside t := by
  by_cases hd : s.delta = 0
  · rw [Slab.clip_parallel hd] at h
    split at h
    next hin =>
      cases Option.some.inj h
      simp [Slab.Inside, Slab.at, hd, hin]
    next => simp at h
  · rw [Slab.clip_moving hd] at h
    obtain ⟨mid, h1, h2⟩ := Option.bind_eq_some_iff.mp h
    rw [cut_has hd h2, cut_has (neg_ne_zero.mpr hd) h1, s.inside_iff, and_assoc]

theorem Slab.clip_none {s : Slab K} {w : Window K} {t : K} (h : s.clip w = none)
    (ht : w.Has t) : ¬s.Inside t := by
  intro hin
  by_cases hd : s.delta = 0
  · rw [Slab.clip_parallel hd] at h
    simp only [Slab.Inside, Slab.at, hd, mul_zero, add_zero] at hin
    simp [hin] at h
  · rw [Slab.clip_moving hd] at h
    obtain ⟨lower, upper⟩ := (s.inside_iff t).mp hin
    cases h1 : cut (-s.delta) (s.start - s.lo) w with
    | none => exact absurd (cut_none (neg_ne_zero.mpr hd) h1 ht) (not_lt.mpr lower)
    | some mid =>
      have hmid := (cut_has (neg_ne_zero.mpr hd) h1).mpr ⟨ht, lower⟩
      rw [h1, Option.bind_some] at h
      exact absurd (cut_none hd h hmid) (not_lt.mpr upper)

theorem Slab.clip_strict {s : Slab K} {w : Window K} {t : K} (hw : w.t0 < w.t1)
    (ht : w.Has t) (hs : s.Strict t) : ∃ w', s.clip w = some w' ∧ w'.t0 < w'.t1 := by
  by_cases hd : s.delta = 0
  · have hin := hs.inside
    simp only [Slab.Inside, Slab.at, hd, mul_zero, add_zero] at hin
    exact ⟨w, by rw [Slab.clip_parallel hd, if_pos hin], hw⟩
  · obtain ⟨lower, upper⟩ := (s.strict_iff t).mp hs
    obtain ⟨mid, h1, hmid⟩ := cut_strict (neg_ne_zero.mpr hd) hw ht lower
    have tmid := (cut_has (neg_ne_zero.mpr hd) h1).mpr ⟨ht, lower.le⟩
    obtain ⟨w', h2, hw'⟩ := cut_strict hd hmid tmid upper
    exact ⟨w', by rw [Slab.clip_moving hd, h1, Option.bind_some, h2], hw'⟩

theorem Slab.clip_entry_lt {s : Slab K} {w w' : Window K} {t : K} (hs : s.Strict t)
    (ht : w.t0 < t) (h : s.clip w = some w') : w'.t0 < t := by
  by_cases hd : s.delta = 0
  · rw [Slab.clip_parallel hd] at h
    split at h
    next => cases Option.some.inj h; exact ht
    next => simp at h
  · obtain ⟨lower, upper⟩ := (s.strict_iff t).mp hs
    rw [Slab.clip_moving hd] at h
    obtain ⟨mid, h1, h2⟩ := Option.bind_eq_some_iff.mp h
    exact cut_entry_lt hd upper (cut_entry_lt (neg_ne_zero.mpr hd) lower ht h1) h2

/-- What is left after every slab is the part of the window inside all of them. -/
theorem clipAll_has {ss : List (Slab K)} {w w' : Window K} {t : K} (h : clipAll ss w = some w') :
    w'.Has t ↔ w.Has t ∧ ∀ s ∈ ss, s.Inside t := by
  induction ss generalizing w with
  | nil => cases Option.some.inj h; simp
  | cons s ss ih =>
    obtain ⟨mid, h1, h2⟩ := Option.bind_eq_some_iff.mp h
    rw [ih h2, Slab.clip_has h1, List.forall_mem_cons, and_assoc]

theorem clipAll_none {ss : List (Slab K)} {w : Window K} {t : K} (h : clipAll ss w = none)
    (ht : w.Has t) : ∃ s ∈ ss, ¬s.Inside t := by
  induction ss generalizing w with
  | nil => simp [clipAll] at h
  | cons s ss ih =>
    cases h1 : s.clip w with
    | none => exact ⟨s, by simp, Slab.clip_none h1 ht⟩
    | some mid =>
      by_cases hin : s.Inside t
      · rw [clipAll, h1, Option.bind_some] at h
        obtain ⟨s', hm, hs'⟩ := ih h ((Slab.clip_has h1).mpr ⟨ht, hin⟩)
        exact ⟨s', List.mem_cons_of_mem s hm, hs'⟩
      · exact ⟨s, by simp, hin⟩

theorem clipAll_strict {ss : List (Slab K)} {w : Window K} {t : K} (hw : w.t0 < w.t1)
    (ht : w.Has t) (hs : ∀ s ∈ ss, s.Strict t) :
    ∃ w', clipAll ss w = some w' ∧ w'.t0 < w'.t1 := by
  induction ss generalizing w with
  | nil => exact ⟨w, rfl, hw⟩
  | cons s ss ih =>
    have hs' := List.forall_mem_cons.mp hs
    obtain ⟨mid, h1, hmid⟩ := Slab.clip_strict hw ht hs'.1
    obtain ⟨w', h2, hw'⟩ := ih hmid ((Slab.clip_has h1).mpr ⟨ht, hs'.1.inside⟩) hs'.2
    exact ⟨w', by rw [clipAll, h1, Option.bind_some, h2], hw'⟩

/-- No parameter strictly inside every slab comes before the window that is left, nor at its
start, once it is past the start of the first window. -/
theorem clipAll_entry_lt {ss : List (Slab K)} {w w' : Window K} {t : K}
    (hs : ∀ s ∈ ss, s.Strict t) (ht : w.t0 < t) (h : clipAll ss w = some w') : w'.t0 < t := by
  induction ss generalizing w with
  | nil => cases Option.some.inj h; exact ht
  | cons s ss ih =>
    have hs' := List.forall_mem_cons.mp hs
    obtain ⟨mid, h1, h2⟩ := Option.bind_eq_some_iff.mp h
    exact ih hs'.2 (Slab.clip_entry_lt hs'.1 ht h1) h2

theorem Slab.clip_sides (s : Slab K) (w : Window K) : clipSides s.sides w = s.clip w := by
  by_cases hd : s.delta = 0
  · rw [Slab.clip_parallel hd]
    by_cases above : s.lo ≤ s.start
    · by_cases below : s.start ≤ s.hi
      · simp [Slab.sides, clipSides, clipSide, hd, above, below, not_lt.mpr]
      · simp [Slab.sides, clipSides, clipSide, hd, not_lt.mpr above, below, lt_of_not_ge below]
    · simp [Slab.sides, clipSides, clipSide, hd, above, lt_of_not_ge above]
  · rw [Slab.clip_moving hd]
    simp [Slab.sides, clipSides, clipSide, hd]

/-- A loop over the sides computes what a loop over the slabs does. -/
theorem clipSides_slabs (ss : List (Slab K)) (w : Window K) :
    clipSides (ss.flatMap Slab.sides) w = clipAll ss w := by
  induction ss generalizing w with
  | nil => rfl
  | cons s ss ih =>
    rw [List.flatMap_cons, clipSides_append, Slab.clip_sides, clipAll]
    exact congrArg _ (funext ih)

/-- The segment is inside every slab at `t` for the first time. -/
structure EntersAt (ss : List (Slab K)) (t : K) : Prop where
  nonneg : 0 ≤ t
  le_one : t ≤ 1
  inside : ∀ s ∈ ss, s.Inside t
  first : ∀ u, 0 ≤ u → u < t → ¬∀ s ∈ ss, s.Inside u

theorem entersAt_iff {ss : List (Slab K)} {t : K} :
    EntersAt ss t ↔ ∃ w, clipAll ss ⟨0, 1⟩ = some w ∧ w.t0 = t := by
  constructor
  · intro h
    have entry : (⟨0, 1⟩ : Window K).Has t := ⟨h.nonneg, h.le_one⟩
    cases hw : clipAll ss ⟨0, 1⟩ with
    | none =>
      obtain ⟨s, hm, hs⟩ := clipAll_none hw entry
      exact absurd (h.inside s hm) hs
    | some w =>
      have start := (clipAll_has hw).mp ⟨le_rfl, clipAll_ordered zero_le_one hw⟩
      have after := (clipAll_has hw).mpr ⟨entry, h.inside⟩
      refine ⟨w, rfl, after.1.antisymm (not_lt.mp fun before => ?_)⟩
      exact h.first w.t0 start.1.1 before start.2
  · rintro ⟨w, hw, rfl⟩
    have start := (clipAll_has hw).mp ⟨le_rfl, clipAll_ordered zero_le_one hw⟩
    refine ⟨start.1.1, start.1.2, start.2, fun u hu before inside => ?_⟩
    have window : (⟨0, 1⟩ : Window K).Has u := ⟨hu, before.le.trans start.1.2⟩
    exact absurd ((clipAll_has hw).mpr ⟨window, inside⟩).1 (not_le.mpr before)

/-- The segment is inside every slab on a stretch of positive length. -/
def Overlaps (ss : List (Slab K)) : Prop :=
  ∃ t t', 0 ≤ t ∧ t < t' ∧ t' ≤ 1 ∧ (∀ s ∈ ss, s.Inside t) ∧ ∀ s ∈ ss, s.Inside t'

theorem overlaps_iff {ss : List (Slab K)} :
    Overlaps ss ↔ ∃ w, clipAll ss ⟨0, 1⟩ = some w ∧ w.t0 < w.t1 := by
  constructor
  · rintro ⟨t, t', ht, hlt, ht', hin, hin'⟩
    have first : (⟨0, 1⟩ : Window K).Has t := ⟨ht, hlt.le.trans ht'⟩
    have second : (⟨0, 1⟩ : Window K).Has t' := ⟨ht.trans hlt.le, ht'⟩
    cases h : clipAll ss ⟨0, 1⟩ with
    | none =>
      obtain ⟨s, hm, hs⟩ := clipAll_none h first
      exact absurd (hin s hm) hs
    | some w =>
      have hw := (clipAll_has h).mpr ⟨first, hin⟩
      have hw' := (clipAll_has h).mpr ⟨second, hin'⟩
      exact ⟨w, rfl, hw.1.trans_lt (hlt.trans_le hw'.2)⟩
  · rintro ⟨w, h, hlt⟩
    have start := (clipAll_has h).mp ⟨le_rfl, hlt.le⟩
    have finish := (clipAll_has h).mp ⟨hlt.le, le_rfl⟩
    exact ⟨w.t0, w.t1, start.1.1, hlt, finish.1.2, start.2, finish.2⟩

theorem overlaps_of_strict {ss : List (Slab K)} {t : K} (h0 : 0 ≤ t) (h1 : t ≤ 1)
    (hs : ∀ s ∈ ss, s.Strict t) : Overlaps ss :=
  overlaps_iff.mpr (clipAll_strict zero_lt_one ⟨h0, h1⟩ hs)

end SlabClip
