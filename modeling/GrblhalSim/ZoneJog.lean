import GrblhalSim.ZoneCheck

namespace GrblhalSim

open SlabClip

/-- No point of the segment from `p` to `q` is strictly inside the shrunk box. -/
def Zone.Clear (z : Zone) (p q : Point) : Prop :=
  ∀ t, 0 ≤ t → t ≤ 1 → p.toward q t ∉ z.interior ezTolerance

theorem toward_zero (p q : Point) : p.toward q 0 = p := by
  simp [Point.toward]

theorem toward_self (p : Point) (t : ℚ) : p.toward p t = p := by
  simp [Point.toward]

theorem toward_toward (p q : Point) (r t : ℚ) :
    p.toward (p.toward q r) t = p.toward q (t * r) := by
  simp only [Point.toward, Point.mk.injEq]
  refine ⟨?_, ?_, ?_⟩ <;> ring

theorem clear_of_not_crossed {z : Zone} {p q : Point} (h : ¬z.Crossed p q) : z.Clear p q :=
  fun _ h0 h1 inside => h (crossed_of_interior h0 h1 inside)

theorem clear_self {z : Zone} {p : Point} (h : p ∉ z.interior ezTolerance) : z.Clear p p := by
  intro t _ _
  rwa [toward_self]

theorem interior_congr_flat {z : Zone} {p q : Point} (hz : zoneZUndefined z = true)
    (hx : p.x = q.x) (hy : p.y = q.y) : p ∈ z.interior ezTolerance ↔ q ∈ z.interior ezTolerance := by
  have flat : z.zMin = 0 ∧ z.zMax = 0 := by simpa [zoneZUndefined] using hz
  simp [Zone.interior, flat, hx, hy]

theorem scaled_mem {t r : ℚ} (h0 : 0 ≤ t) (h1 : t ≤ 1) (hr0 : 0 ≤ r) (hr1 : r ≤ 1) :
    0 ≤ t * r ∧ t * r ≤ 1 :=
  ⟨mul_nonneg h0 hr0, mul_le_one₀ h1 hr0 hr1⟩

theorem clear_shortened {z : Zone} {p q : Point} {r : ℚ} (h : z.Clear p q) (hr0 : 0 ≤ r)
    (hr1 : r ≤ 1) : z.Clear p (p.toward q r) := by
  intro t h0 h1
  rw [toward_toward]
  exact h _ (scaled_mem h0 h1 hr0 hr1).1 (scaled_mem h0 h1 hr0 hr1).2

theorem clear_shortened_flat {z : Zone} {p q q' : Point} {r : ℚ} (hz : zoneZUndefined z = true)
    (h : z.Clear p q) (hr0 : 0 ≤ r) (hr1 : r ≤ 1) (hx : q'.x = (p.toward q r).x)
    (hy : q'.y = (p.toward q r).y) : z.Clear p q' := by
  intro t h0 h1
  have same := interior_congr_flat (p := p.toward q' t) (q := p.toward (p.toward q r) t) hz
    (by simp only [Point.toward, hx]) (by simp only [Point.toward, hy])
  rw [same]
  exact clear_shortened h hr0 hr1 t h0 h1

theorem interior_widen {z : Zone} {m : ℚ} {p : Point} (hm : 0 ≤ m) (h : p ∈ z.interior m) :
    p ∈ z.interior 0 := by
  obtain ⟨hx, hx', hy, hy', hz⟩ := h
  refine ⟨by linarith, by linarith, by linarith, by linarith, ?_⟩
  intro deep
  have := hz deep
  exact ⟨by linarith, by linarith⟩

theorem ezTolerance_nonneg : 0 ≤ ezTolerance := by
  norm_num [ezTolerance]

/-- The clipping loop on the zone's own box, from the start of the segment: the parameter it
ends at, when it is positive, is where the segment enters, and nothing before it is inside. -/
theorem entry_clear {z : Zone} {p q : Point} {w : Window ℚ}
    (h : clipAll (z.slabs 0 p q) ⟨0, 1⟩ = some w) {t : ℚ} (ht : 0 < t) (hw : t ≤ w.t0) :
    p.toward q t ∉ z.interior ezTolerance := by
  intro inside
  have strict := slabs_strict.mpr (interior_widen ezTolerance_nonneg inside)
  exact absurd (clipAll_entry_lt strict ht h) (not_lt.mpr hw)

theorem entry_le_one {ss : List (Slab ℚ)} {w : Window ℚ} (h : clipAll ss ⟨0, 1⟩ = some w) :
    w.t0 ≤ 1 :=
  ((clipAll_has h).mp ⟨le_rfl, clipAll_ordered zero_le_one h⟩).1.2

/-- The slabs of `clip_to_zone_boundary`. -/
theorem boundary_slabs (z : Zone) (p q : Point) :
    (axisSlabs p q ⟨z.xMin, z.yMin, z.zMin⟩ ⟨z.xMax, z.yMax, z.zMax⟩).take (zoneDims z) =
      z.slabs 0 p q := by
  simp [Zone.slabs]

/-- What `clip_to_zone_boundary` leaves: X and Y, and Z of a zone with a depth, cut at one common
parameter; Z is the commanded one for a zone without a depth. -/
theorem clipToZoneBoundary_spec {k : Nat} {z : Zone} {start target clipped : Axes k}
    (h : clipToZoneBoundary z start target = some clipped) :
    ∃ w, clipAll (z.slabs 0 start.point target.point) ⟨0, 1⟩ = some w ∧ 0 < w.t0 ∧
      clipped.x = (start.point.toward target.point w.t0).x ∧
      clipped.y = (start.point.toward target.point w.t0).y ∧
      clipped.z = if zoneZUndefined z then target.z
        else (start.point.toward target.point w.t0).z := by
  simp only [clipToZoneBoundary, boundary_slabs] at h
  split at h
  next => simp at h
  next w hw =>
    split at h
    next pos =>
      refine ⟨w, hw, pos, ?_⟩
      cases hz : zoneZUndefined z with
      | true =>
        simp only [hz, Bool.not_true, Bool.false_eq_true, if_false] at h
        cases Option.some.inj h
        simp [Point.toward, Axes.point]
      | false =>
        simp only [hz, Bool.not_false, if_true] at h
        cases Option.some.inj h
        simp [Point.toward, Axes.point]
    next => simp at h

theorem clipToZoneBoundary_clear {k : Nat} {z : Zone} {start target clipped : Axes k}
    (hs : start.point ∉ z.interior ezTolerance)
    (h : clipToZoneBoundary z start target = some clipped) :
    z.Clear start.point clipped.point := by
  obtain ⟨w, hw, pos, hx, hy, hz⟩ := clipToZoneBoundary_spec h
  have cutClear : z.Clear start.point (start.point.toward target.point w.t0) := by
    intro t h0 h1
    rw [toward_toward]
    rcases h0.eq_or_lt with rfl | positive
    · rwa [zero_mul, toward_zero]
    · exact entry_clear hw (mul_pos positive pos) (mul_le_of_le_one_left pos.le h1)
  cases flat : zoneZUndefined z with
  | true =>
    intro t h0 h1
    rw [interior_congr_flat (q := start.point.toward (start.point.toward target.point w.t0) t) flat
      (by simp only [Point.toward, Axes.point, hx]) (by simp only [Point.toward, Axes.point, hy])]
    exact cutClear t h0 h1
  | false =>
    have same : clipped.point = start.point.toward target.point w.t0 := by
      simp only [flat, Bool.false_eq_true, if_false] at hz
      simp only [Axes.point, hx, hy, hz]
    rw [same]
    exact cutClear

end GrblhalSim
