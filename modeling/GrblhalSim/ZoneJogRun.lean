import GrblhalSim.ZoneJog
import Mathlib.Order.Bounds.Basic

namespace GrblhalSim

open SlabClip

/-- The zone loop after the first `n` slots. -/
def jogAfter {k : Nat} (cfg : EzConfig) (position target : Axes k) : Nat → JogState k
  | 0 => .running target []
  | n + 1 =>
    match cfg.zones[n]? with
    | some z => (jogAfter cfg position target n).step position z
    | none => jogAfter cfg position target n

@[simp] theorem ezJogZones_nil {k : Nat} (cfg : EzConfig) (position : Axes k) (s : JogState k) :
    ezJogZones cfg position [] s = some s := by
  cases s <;> rfl

@[simp] theorem ezJogZones_returned {k : Nat} (cfg : EzConfig) (position target : Axes k)
    (is : List Nat) (warnings : List Message) :
    ezJogZones cfg position is (.returned target warnings) = some (.returned target warnings) := by
  cases is <;> rfl

theorem ezJogZones_append {k : Nat} (cfg : EzConfig) (position : Axes k) (is js : List Nat)
    (s : JogState k) : ezJogZones cfg position (is ++ js) s =
      (ezJogZones cfg position is s).bind (ezJogZones cfg position js) := by
  induction is generalizing s with
  | nil => simp
  | cons i is ih =>
    cases s with
    | returned target warnings => simp
    | running target warnings =>
      simp only [List.cons_append, ezJogZones]
      cases hz : cfg.zones[i]? with
      | none => rfl
      | some z => exact ih _

theorem ezJogZones_range {k : Nat} (cfg : EzConfig) (position target : Axes k) {n : Nat}
    (hn : n ≤ ezMaxZones) :
    ezJogZones cfg position (List.range n) (.running target []) =
      some (jogAfter cfg position target n) := by
  induction n with
  | zero => rfl
  | succ n ih =>
    have hz : cfg.zones[n]? = some cfg.zones[n] := by simp [show n < ezMaxZones by omega]
    rw [List.range_succ, ezJogZones_append, ih (by omega), Option.bind_some, jogAfter, hz]
    cases jogAfter cfg position target n with
    | returned => simp [JogState.step]
    | running cur warnings => simp [ezJogZones, hz]

theorem ezApplyTravel_target {k : Nat} {ω : Type} {cfg : EzConfig}
    (hcount : cfg.count ≤ ezMaxZones) (hon : cfg.globalEnabled = true)
    {prev : Option (ApplyHook k ω)} (hprev : ∀ hook, prev = some hook → ∀ t p e, hook t p e = t)
    (target position : Axes k) (envelope : ω) :
    ∃ warnings, ezApplyTravel cfg prev target position envelope =
      some ((jogAfter cfg position target cfg.count).target, warnings) := by
  have loop := ezJogZones_range cfg position target hcount
  have same : ∀ t, callApplyHook prev t position envelope = t := by
    intro t
    cases prev with
    | none => rfl
    | some hook => exact hprev hook rfl t position envelope
  cases hs : jogAfter cfg position target cfg.count with
  | running cur warnings =>
    exact ⟨warnings, by simp [ezApplyTravel, hon, loop, hs, same, JogState.target]⟩
  | returned cur warnings =>
    exact ⟨warnings, by simp [ezApplyTravel, hon, loop, hs, JogState.target]⟩

/-- The point that is `a` of the way from `p` to `q` in X and Y, and `b` of the way in Z. -/
def Point.reach (p q : Point) (a b : ℚ) : Point :=
  ⟨p.x + a * (q.x - p.x), p.y + a * (q.y - p.y), p.z + b * (q.z - p.z)⟩

/-- The zone cuts the jog from `p` to `q` short. -/
def Zone.Cuts (z : Zone) (p q : Point) : Prop :=
  z.Forbids .jog ∧ p ∉ z.box 0 ∧ z.Crossed p q

/-- The zone stops the jog from `p` to `q` altogether, as it starts in the zone. -/
def Zone.Stops (z : Zone) (p q : Point) : Prop :=
  z.Forbids .jog ∧ (p ∈ z.interior ezTolerance ∨ p ∈ z.box 0 ∧ z.Crossed p q)

/-- The segment from `p` to `q` comes to the zone's own box at `r` of the way. -/
def Zone.EntersAt (z : Zone) (p q : Point) (r : ℚ) : Prop :=
  IsLeast {t | 0 ≤ t ∧ t ≤ 1 ∧ p.toward q t ∈ z.box 0} r

/-- The jog from `p` to `q` comes to slot `n` of the table cut down to `a` of the way in X and Y and
to `b` of the way in Z. -/
inductive ComesTo (cfg : EzConfig) (p q : Point) : Nat → ℚ → ℚ → Prop
  | start : ComesTo cfg p q 0 1 1
  | kept {n a b z} (before : ComesTo cfg p q n a b) (slot : cfg.zones[n]? = some z)
      (cuts : ¬z.Cuts p (p.reach q a b)) (stops : ¬z.Stops p (p.reach q a b)) :
      ComesTo cfg p q (n + 1) a b
  | cut {n a b r z} (before : ComesTo cfg p q n a b) (slot : cfg.zones[n]? = some z)
      (deep : zoneZUndefined z = false) (cuts : z.Cuts p (p.reach q a b))
      (enters : z.EntersAt p (p.reach q a b) r) : ComesTo cfg p q (n + 1) (r * a) (r * b)
  | flattened {n a b r z} (before : ComesTo cfg p q n a b) (slot : cfg.zones[n]? = some z)
      (flat : zoneZUndefined z = true) (cuts : z.Cuts p (p.reach q a b))
      (enters : z.EntersAt p q r) : ComesTo cfg p q (n + 1) r b

/-- The zone of slot `n` has no depth and cuts the jog as it comes to the slot. -/
def FlattensAt (cfg : EzConfig) (p q : Point) (n : Nat) : Prop :=
  ∃ z a b, cfg.zones[n]? = some z ∧ zoneZUndefined z = true ∧ ComesTo cfg p q n a b ∧
    z.Cuts p (p.reach q a b)

/-- The zone of slot `n` stops the jog as it comes to the slot. -/
def StopsAt (cfg : EzConfig) (p q : Point) (n : Nat) : Prop :=
  ∃ z a b, cfg.zones[n]? = some z ∧ ComesTo cfg p q n a b ∧ z.Stops p (p.reach q a b)

theorem reach_same (p q : Point) (t : ℚ) : p.reach q t t = p.toward q t := rfl

theorem reach_whole (p q : Point) : p.reach q 1 1 = q := by
  simp [Point.reach]

theorem reach_reach (p q : Point) (a b r s : ℚ) :
    p.reach (p.reach q a b) r s = p.reach q (r * a) (s * b) := by
  simp only [Point.reach, Point.mk.injEq]
  refine ⟨?_, ?_, ?_⟩ <;> ring

theorem toward_reach (p q : Point) (a b t : ℚ) :
    p.toward (p.reach q a b) t = p.reach q (t * a) (t * b) := by
  rw [← reach_same, reach_reach]

theorem box_widen {z : Zone} {p : Point} (h : p ∈ z.box ezTolerance) : p ∈ z.box 0 := by
  have wide := ezTolerance_nonneg
  obtain ⟨hx, hx', hy, hy', hz⟩ := h
  refine ⟨by linarith, by linarith, by linarith, by linarith, fun deep => ?_⟩
  have := hz deep
  exact ⟨by linarith, by linarith⟩

theorem interior_box {z : Zone} {m : ℚ} {p : Point} (h : p ∈ z.interior m) : p ∈ z.box m :=
  ⟨h.1.le, h.2.1.le, h.2.2.1.le, h.2.2.2.1.le, fun deep =>
    ⟨(h.2.2.2.2 deep).1.le, (h.2.2.2.2 deep).2.le⟩⟩

theorem box_congr_flat {z : Zone} {m : ℚ} {p q : Point} (flat : zoneZUndefined z = true)
    (hx : p.x = q.x) (hy : p.y = q.y) : p ∈ z.box m ↔ q ∈ z.box m := by
  have noDepth : z.zMin = 0 ∧ z.zMax = 0 := by simpa [zoneZUndefined] using flat
  simp [Zone.box, noDepth, hx, hy]

/-- The clipping loop on the zone's own box starts its window where the segment enters. -/
theorem entersAt_of_clip {z : Zone} {p q : Point} {w : Window ℚ}
    (h : clipAll (z.slabs 0 p q) ⟨0, 1⟩ = some w) : z.EntersAt p q w.t0 := by
  have has : ∀ t, w.Has t ↔ 0 ≤ t ∧ t ≤ 1 ∧ p.toward q t ∈ z.box 0 := by
    intro t
    rw [clipAll_has h, slabs_inside]
    exact and_assoc
  constructor
  · exact (has w.t0).mp ⟨le_rfl, clipAll_ordered zero_le_one h⟩
  · exact fun t inside => ((has t).mpr inside).1

theorem EntersAt.unique {z : Zone} {p q : Point} {r s : ℚ} (hr : z.EntersAt p q r)
    (hs : z.EntersAt p q s) : r = s :=
  IsLeast.unique hr hs

/-- The clipping loop on a zone that the segment crosses enters before the end, and after the
start when that is outside. -/
theorem crossed_entry {z : Zone} {p q : Point} (h : z.Crossed p q) :
    ∃ w, clipAll (z.slabs 0 p q) ⟨0, 1⟩ = some w ∧ w.t0 < 1 ∧ (0 < w.t0 ↔ p ∉ z.box 0) := by
  obtain ⟨t, t', h0, hlt, h1, inside, inside'⟩ := h
  have overlap : Overlaps (z.slabs 0 p q) :=
    ⟨t, t', h0, hlt, h1, slabs_inside.mpr (box_widen inside), slabs_inside.mpr (box_widen inside')⟩
  obtain ⟨w, hw, shorter⟩ := overlaps_iff.mp overlap
  have start := (clipAll_has hw).mp ⟨le_rfl, shorter.le⟩
  have finish := (clipAll_has hw).mp ⟨shorter.le, le_rfl⟩
  refine ⟨w, hw, shorter.trans_le finish.1.2, ?_⟩
  have first : (⟨0, 1⟩ : Window ℚ).Has 0 := ⟨le_rfl, zero_le_one⟩
  constructor
  · intro later inBox
    have here : ∀ s ∈ z.slabs 0 p q, s.Inside 0 := slabs_inside.mpr (by rwa [toward_zero])
    exact absurd ((clipAll_has hw).mpr ⟨first, here⟩).1 (not_le.mpr later)
  · intro outside
    by_contra early
    have zero : w.t0 = 0 := le_antisymm (not_lt.mp early) start.1.1
    have inBox := slabs_inside.mp start.2
    rw [zero, toward_zero] at inBox
    exact outside inBox

theorem Zone.Cuts.entry {z : Zone} {p q : Point} (h : z.Cuts p q) :
    ∃ w, clipAll (z.slabs 0 p q) ⟨0, 1⟩ = some w ∧ z.EntersAt p q w.t0 ∧ 0 < w.t0 ∧ w.t0 < 1 := by
  obtain ⟨_, outside, crossed⟩ := h
  obtain ⟨w, hw, before, late⟩ := crossed_entry crossed
  exact ⟨w, hw, entersAt_of_clip hw, late.mpr outside, before⟩

theorem Zone.Cuts.enters_inside {z : Zone} {p q : Point} (h : z.Cuts p q) {r : ℚ}
    (enters : z.EntersAt p q r) : 0 < r ∧ r < 1 := by
  obtain ⟨w, _, first, inside⟩ := h.entry
  rwa [EntersAt.unique enters first]

/-- What is left of the segment stays outside the zone that it was cut at. -/
theorem Zone.Cuts.clear {z : Zone} {p q : Point} (h : z.Cuts p q)
    (outside : p ∉ z.interior ezTolerance) {r : ℚ} (enters : z.EntersAt p q r) :
    z.Clear p (p.toward q r) := by
  obtain ⟨w, hw, first, pos, _⟩ := h.entry
  rw [EntersAt.unique enters first]
  intro t h0 h1
  rw [toward_toward]
  rcases h0.eq_or_lt with rfl | positive
  · rwa [zero_mul, toward_zero]
  · exact entry_clear hw (mul_pos positive pos) (mul_le_of_le_one_left pos.le h1)

theorem not_stops_of_cuts {z : Zone} {p q q' : Point} (cuts : z.Cuts p q) : ¬z.Stops p q' := by
  rintro ⟨_, inside | ⟨inBox, _⟩⟩
  · exact cuts.2.1 (box_widen (interior_box inside))
  · exact cuts.2.1 inBox

/-- A zone without a depth is entered at the same point of the commanded way, however far Z comes
on the segment. -/
theorem entersAt_flat {z : Zone} {p q : Point} {a b r : ℚ} (flat : zoneZUndefined z = true)
    (pos : 0 < a) (le : a ≤ 1) (enters : z.EntersAt p (p.reach q a b) r) : z.EntersAt p q (r * a) := by
  have inBox : ∀ t, p.toward (p.reach q a b) t ∈ z.box 0 ↔ p.toward q (t * a) ∈ z.box 0 := by
    intro t
    rw [toward_reach, ← reach_same]
    exact box_congr_flat flat rfl rfl
  obtain ⟨⟨r0, r1, inside⟩, least⟩ := enters
  refine ⟨⟨mul_nonneg r0 pos.le, mul_le_one₀ r1 pos.le le, (inBox r).mp inside⟩, ?_⟩
  rintro t ⟨t0, t1, inside'⟩
  by_contra! earlier
  have before : t / a < r := (div_lt_iff₀ pos).mpr earlier
  have first : r ≤ t / a := least
    ⟨div_nonneg t0 pos.le, before.le.trans r1, (inBox _).mpr (by rwa [div_mul_cancel₀ _ pos.ne'])⟩
  exact absurd first (not_le.mpr before)

/-- A zone without a depth cuts only a jog that moves in X or Y. -/
theorem cuts_flat_moves {z : Zone} {p q : Point} (flat : zoneZUndefined z = true) (h : z.Cuts p q) :
    p.x ≠ q.x ∨ p.y ≠ q.y := by
  obtain ⟨_, outside, t, _, _, _, _, inside, _⟩ := h
  by_contra! still
  have inBox : p.toward q t ∈ z.box 0 := box_widen inside
  rw [box_congr_flat flat (q := p) (by simp [Point.toward, still.1]) (by simp [Point.toward, still.2])]
    at inBox
  exact outside inBox

section Jog

variable {k : Nat} {z : Zone} {position target : Axes k}

theorem ezJogZone_other (h : ¬z.Forbids .jog) : ezJogZone z position target = .keep := by
  cases he : z.flags.enabled with
  | false => simp [ezJogZone, he]
  | true =>
    cases ha : opAllowedInZone z .jog with
    | true => simp [ezJogZone, ha]
    | false => exact absurd ⟨he, ha⟩ h

theorem ezJogZone_stops (h : z.Stops position.point target.point) :
    ∃ warning, ezJogZone z position target = .blocked warning := by
  obtain ⟨hf, inside | ⟨inBox, crossed⟩⟩ := h
  · simp [ezJogZone, hf.1, hf.2, pointDeepInZone_iff.mpr inside]
  · obtain ⟨w, hw, _, late⟩ := crossed_entry crossed
    have early : ¬ w.t0 > 0 := fun later => late.mp later inBox
    have none_left : clipToZoneBoundary z position target = none := by
      simp only [clipToZoneBoundary, boundary_slabs, hw, early, if_false]
    have cross := segmentIntersectsZone_iff.mpr crossed
    cases deep : pointDeepInZone z position.point with
    | true => simp [ezJogZone, hf.1, hf.2, deep]
    | false => simp [ezJogZone, hf.1, hf.2, deep, cross, none_left]

/-- The cut leaves X and Y where the jog enters the zone, and Z as far along if the zone has a
depth. -/
theorem ezJogZone_cuts (h : z.Cuts position.point target.point) :
    ∃ clipped warning r, ezJogZone z position target = .clipped clipped warning ∧
      z.EntersAt position.point target.point r ∧
      clipped.point = position.point.reach target.point r (if zoneZUndefined z then 1 else r) := by
  obtain ⟨w, hw, enters, later, before⟩ := h.entry
  obtain ⟨hf, outside, crossed⟩ := h
  have cross := segmentIntersectsZone_iff.mpr crossed
  have deep : pointDeepInZone z position.point = false := by
    rw [Bool.eq_false_iff]
    intro inside
    exact outside (box_widen (interior_box (pointDeepInZone_iff.mp inside)))
  cases clip : clipToZoneBoundary z position target with
  | none =>
    simp only [clipToZoneBoundary, boundary_slabs, hw, gt_iff_lt, later, if_true] at clip
    split at clip <;> cases clip
  | some clipped =>
    obtain ⟨w', hw', _, hx, hy, hz⟩ := clipToZoneBoundary_spec clip
    cases Option.some.inj (hw.symm.trans hw')
    refine ⟨clipped, ⟨"EZ: Jog clipped at exclusion boundary", .warning⟩, w.t0,
      by simp [ezJogZone, hf.1, hf.2, deep, cross, clip], enters, ?_⟩
    simp only [Axes.point, hx, hy, hz, Point.reach, Point.toward]
    split
    next => simp
    next => rfl

theorem not_crossed_of_kept {p q : Point} (hf : z.Forbids .jog) (cuts : ¬z.Cuts p q)
    (stops : ¬z.Stops p q) : ¬z.Crossed p q := by
  intro crossed
  by_cases inBox : p ∈ z.box 0
  · exact stops ⟨hf, Or.inr ⟨inBox, crossed⟩⟩
  · exact cuts ⟨hf, inBox, crossed⟩

theorem ezJogZone_else (cuts : ¬z.Cuts position.point target.point)
    (stops : ¬z.Stops position.point target.point) : ezJogZone z position target = .keep := by
  by_cases hf : z.Forbids .jog
  · have crossed := not_crossed_of_kept hf cuts stops
    have outside : position.point ∉ z.interior ezTolerance := fun inside => stops ⟨hf, Or.inl inside⟩
    have atEnd : target.point ∉ z.interior ezTolerance := by
      intro inside
      have reached : position.point.toward target.point 1 ∈ z.interior ezTolerance := by
        simpa [Point.toward] using inside
      exact crossed (crossed_of_interior zero_le_one le_rfl reached)
    rw [← pointDeepInZone_iff, Bool.not_eq_true] at outside atEnd
    rw [← segmentIntersectsZone_iff, Bool.not_eq_true] at crossed
    simp [ezJogZone, outside, atEnd, crossed]
  · exact ezJogZone_other hf

end Jog

section Course

variable {cfg : EzConfig} {p q : Point} {n : Nat} {a b : ℚ}

theorem ComesTo.bounds (comes : ComesTo cfg p q n a b) : 0 < a ∧ a ≤ b ∧ b ≤ 1 := by
  induction comes with
  | start => exact ⟨one_pos, le_rfl, le_rfl⟩
  | kept _ _ _ _ ih => exact ih
  | cut _ _ _ cuts enters ih =>
    obtain ⟨pos, lt⟩ := cuts.enters_inside enters
    obtain ⟨ha, hab, hb⟩ := ih
    exact ⟨mul_pos pos ha, mul_le_mul_of_nonneg_left hab pos.le,
      mul_le_one₀ lt.le (ha.le.trans hab) hb⟩
  | @flattened n a b r z _ _ flat cuts enters ih =>
    obtain ⟨ha, hab, hb⟩ := ih
    obtain ⟨w, _, first, pos, lt⟩ := cuts.entry
    have same : r = w.t0 * a :=
      EntersAt.unique enters (entersAt_flat flat ha (hab.trans hb) first)
    rw [same]
    exact ⟨mul_pos pos ha, (mul_le_of_le_one_left ha.le lt.le).trans hab, hb⟩

/-- What a zone without a depth leaves in X and Y is less than before, so less than in Z. -/
theorem ComesTo.flattens (comes : ComesTo cfg p q n a b) {z : Zone} (flat : zoneZUndefined z = true)
    (cuts : z.Cuts p (p.reach q a b)) : ∃ r, z.EntersAt p q r ∧ 0 < r ∧ r < a := by
  obtain ⟨ha, hab, hb⟩ := comes.bounds
  obtain ⟨w, _, first, pos, lt⟩ := cuts.entry
  exact ⟨w.t0 * a, entersAt_flat flat ha (hab.trans hb) first, mul_pos pos ha,
    mul_lt_of_lt_one_left ha lt⟩

theorem ComesTo.unique (comes : ComesTo cfg p q n a b) {a' b' : ℚ}
    (comes' : ComesTo cfg p q n a' b') : a' = a ∧ b' = b := by
  induction comes generalizing a' b' with
  | start =>
    cases comes'
    exact ⟨rfl, rfl⟩
  | kept before slot cuts stops ih =>
    cases comes' with
    | kept before' slot' cuts' stops' => exact ih before'
    | cut before' slot' deep' cuts' enters' =>
      obtain ⟨rfl, rfl⟩ := ih before'
      cases Option.some.inj (slot.symm.trans slot')
      exact absurd cuts' cuts
    | flattened before' slot' flat' cuts' enters' =>
      obtain ⟨rfl, rfl⟩ := ih before'
      cases Option.some.inj (slot.symm.trans slot')
      exact absurd cuts' cuts
  | cut before slot deep cuts enters ih =>
    cases comes' with
    | kept before' slot' cuts' stops' =>
      obtain ⟨rfl, rfl⟩ := ih before'
      cases Option.some.inj (slot.symm.trans slot')
      exact absurd cuts cuts'
    | cut before' slot' deep' cuts' enters' =>
      obtain ⟨rfl, rfl⟩ := ih before'
      cases Option.some.inj (slot.symm.trans slot')
      rw [EntersAt.unique enters' enters]
      exact ⟨rfl, rfl⟩
    | flattened before' slot' flat' cuts' enters' =>
      cases Option.some.inj (slot.symm.trans slot')
      rw [deep] at flat'
      cases flat'
  | flattened before slot flat cuts enters ih =>
    cases comes' with
    | kept before' slot' cuts' stops' =>
      obtain ⟨rfl, rfl⟩ := ih before'
      cases Option.some.inj (slot.symm.trans slot')
      exact absurd cuts cuts'
    | cut before' slot' deep' cuts' enters' =>
      cases Option.some.inj (slot.symm.trans slot')
      rw [deep'] at flat
      cases flat
    | flattened before' slot' flat' cuts' enters' =>
      obtain ⟨rfl, rfl⟩ := ih before'
      cases Option.some.inj (slot.symm.trans slot')
      exact ⟨EntersAt.unique enters' enters, rfl⟩

theorem ComesTo.stopsAt_iff (comes : ComesTo cfg p q n a b) {z : Zone}
    (slot : cfg.zones[n]? = some z) : StopsAt cfg p q n ↔ z.Stops p (p.reach q a b) := by
  constructor
  · rintro ⟨z', a', b', slot', comes', stops⟩
    cases Option.some.inj (slot.symm.trans slot')
    obtain ⟨rfl, rfl⟩ := comes.unique comes'
    exact stops
  · exact fun stops => ⟨z, a, b, slot, comes, stops⟩

theorem ComesTo.flattensAt_iff (comes : ComesTo cfg p q n a b) {z : Zone}
    (slot : cfg.zones[n]? = some z) :
    FlattensAt cfg p q n ↔ zoneZUndefined z = true ∧ z.Cuts p (p.reach q a b) := by
  constructor
  · rintro ⟨z', a', b', slot', flat, comes', cuts⟩
    cases Option.some.inj (slot.symm.trans slot')
    obtain ⟨rfl, rfl⟩ := comes.unique comes'
    exact ⟨flat, cuts⟩
  · rintro ⟨flat, cuts⟩
    exact ⟨z, a, b, slot, flat, comes, cuts⟩

theorem below_succ {P : Nat → Prop} {n : Nat} : (∃ m < n + 1, P m) ↔ (∃ m < n, P m) ∨ P n := by
  constructor
  · rintro ⟨m, hm, h⟩
    by_cases last : m = n
    · exact Or.inr (last ▸ h)
    · exact Or.inl ⟨m, by omega, h⟩
  · rintro (⟨m, hm, h⟩ | h)
    · exact ⟨m, by omega, h⟩
    · exact ⟨n, by omega, h⟩

end Course

section Run

variable {k : Nat} {cfg : EzConfig} {position target : Axes k} {n : Nat}

/-- One zone of the loop does what the course of the jog says. -/
theorem jogAfter_course_step {z : Zone} {cur : Axes k} {warnings : List Message} {a b : ℚ}
    (hz : cfg.zones[n]? = some z) (hs : jogAfter cfg position target n = .running cur warnings)
    (comes : ComesTo cfg position.point target.point n a b)
    (at_ab : cur.point = position.point.reach target.point a b) :
    (StopsAt cfg position.point target.point n ∧
      ∃ warnings', jogAfter cfg position target (n + 1) = .returned position warnings') ∨
    (¬StopsAt cfg position.point target.point n ∧
      ∃ cur' warnings' a' b', jogAfter cfg position target (n + 1) = .running cur' warnings' ∧
        ComesTo cfg position.point target.point (n + 1) a' b' ∧
        cur'.point = position.point.reach target.point a' b') := by
  have next : jogAfter cfg position target (n + 1) =
      (JogState.running cur warnings).step position z := by simp only [jogAfter, hz, hs]
  rw [comes.stopsAt_iff hz]
  by_cases stops : z.Stops position.point (position.point.reach target.point a b)
  · obtain ⟨warning, blocked⟩ := ezJogZone_stops (at_ab ▸ stops)
    refine Or.inl ⟨stops, warnings ++ [warning], ?_⟩
    rw [next, JogState.step, blocked]
  · refine Or.inr ⟨stops, ?_⟩
    by_cases cuts : z.Cuts position.point (position.point.reach target.point a b)
    · obtain ⟨clipped, warning, r, clip, enters, at_r⟩ := ezJogZone_cuts (at_ab ▸ cuts)
      have step : jogAfter cfg position target (n + 1) = .running clipped (warnings ++ [warning]) := by
        rw [next, JogState.step, clip]
      rw [at_ab, reach_reach] at at_r
      rw [at_ab] at enters
      cases flat : zoneZUndefined z with
      | true =>
        obtain ⟨ha, hab, hb⟩ := comes.bounds
        rw [flat, if_pos rfl, one_mul] at at_r
        exact ⟨clipped, _, r * a, b, step,
          .flattened comes hz flat cuts (entersAt_flat flat ha (hab.trans hb) enters), at_r⟩
      | false =>
        rw [flat, if_neg (by decide)] at at_r
        exact ⟨clipped, _, r * a, r * b, step, .cut comes hz flat cuts enters, at_r⟩
    · refine ⟨cur, warnings, a, b, ?_, .kept comes hz cuts stops, at_ab⟩
      rw [next, JogState.step, ezJogZone_else (at_ab ▸ cuts) (at_ab ▸ stops)]

variable (position target) in
/-- The loop follows the course of the jog, by induction on the slots. -/
theorem jogAfter_course (hn : n ≤ ezMaxZones) :
    ((∃ m < n, StopsAt cfg position.point target.point m) ∧
      ∃ warnings, jogAfter cfg position target n = .returned position warnings) ∨
    ((¬∃ m < n, StopsAt cfg position.point target.point m) ∧
      ∃ cur warnings a b, jogAfter cfg position target n = .running cur warnings ∧
        ComesTo cfg position.point target.point n a b ∧
        cur.point = position.point.reach target.point a b) := by
  induction n with
  | zero => exact Or.inr ⟨by simp, target, [], 1, 1, rfl, .start, (reach_whole _ _).symm⟩
  | succ n ih =>
    have hz : cfg.zones[n]? = some cfg.zones[n] := by simp [show n < ezMaxZones by omega]
    simp only [below_succ]
    rcases ih (by omega) with
      ⟨stopped, warnings, hs⟩ | ⟨running, cur, warnings, a, b, hs, comes, at_ab⟩
    · exact Or.inl ⟨Or.inl stopped, warnings, by simp only [jogAfter, hz, hs, JogState.step]⟩
    · rcases jogAfter_course_step hz hs comes at_ab with ⟨stops, finish⟩ | ⟨goes, finish⟩
      · exact Or.inl ⟨Or.inr stops, finish⟩
      · exact Or.inr ⟨not_or.mpr ⟨running, goes⟩, finish⟩

end Run

end GrblhalSim
