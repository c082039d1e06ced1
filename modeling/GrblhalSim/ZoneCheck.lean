import GrblhalSim.ZoneTravel

namespace GrblhalSim

open SlabClip

/-- The point of the segment from `p` to `q` at parameter `t`. -/
def Point.toward (p q : Point) (t : ℚ) : Point :=
  ⟨p.x + t * (q.x - p.x), p.y + t * (q.y - p.y), p.z + t * (q.z - p.z)⟩

/-- The zone's box moved in by `m` on each side, of any depth if the zone has none. -/
def Zone.box (z : Zone) (m : ℚ) : Set Point :=
  {p | z.xMin + m ≤ p.x ∧ p.x ≤ z.xMax - m ∧ z.yMin + m ≤ p.y ∧ p.y ≤ z.yMax - m ∧
    (¬(z.zMin = 0 ∧ z.zMax = 0) → z.zMin + m ≤ p.z ∧ p.z ≤ z.zMax - m)}

def Zone.interior (z : Zone) (m : ℚ) : Set Point :=
  {p | z.xMin + m < p.x ∧ p.x < z.xMax - m ∧ z.yMin + m < p.y ∧ p.y < z.yMax - m ∧
    (¬(z.zMin = 0 ∧ z.zMax = 0) → z.zMin + m < p.z ∧ p.z < z.zMax - m)}

def Zone.Forbids (z : Zone) (op : EzOp) : Prop :=
  z.flags.enabled = true ∧ opAllowedInZone z op = false

def EzConfig.Lists (cfg : EzConfig) (z : Zone) : Prop :=
  ∃ i < cfg.count, cfg.zones[i]? = some z

/-- The segment and the shrunk box share a stretch of positive length in the parameter. -/
def Zone.Crossed (z : Zone) (p q : Point) : Prop :=
  ∃ t t', 0 ≤ t ∧ t < t' ∧ t' ≤ 1 ∧ p.toward q t ∈ z.box ezTolerance ∧ p.toward q t' ∈ z.box ezTolerance

theorem pointDeepInZone_iff {z : Zone} {p : Point} :
    pointDeepInZone z p = true ↔ p ∈ z.interior ezTolerance := by
  by_cases hz : z.zMin = 0 ∧ z.zMax = 0
  · simp [pointDeepInZone, zoneZUndefined, Zone.interior, hz, lt_sub_iff_add_lt]
  · simp [pointDeepInZone, zoneZUndefined, Zone.interior, hz, lt_sub_iff_add_lt, and_assoc]

/-- The slabs of a clipping loop run on the box moved in by `m`. -/
def Zone.slabs (z : Zone) (m : ℚ) (p q : Point) : List (Slab ℚ) :=
  (axisSlabs p q ⟨z.xMin + m, z.yMin + m, z.zMin + m⟩
    ⟨z.xMax - m, z.yMax - m, z.zMax - m⟩).take (zoneDims z)

theorem slabs_inside {z : Zone} {m : ℚ} {p q : Point} {t : ℚ} :
    (∀ s ∈ z.slabs m p q, s.Inside t) ↔ p.toward q t ∈ z.box m := by
  by_cases hz : z.zMin = 0 ∧ z.zMax = 0
  · simp [Zone.slabs, axisSlabs, zoneDims, zoneZUndefined, Zone.box, Slab.Inside, Slab.at,
      Point.toward, hz, and_assoc]
  · simp [Zone.slabs, axisSlabs, zoneDims, zoneZUndefined, Zone.box, Slab.Inside, Slab.at,
      Point.toward, hz, and_assoc]

theorem slabs_strict {z : Zone} {m : ℚ} {p q : Point} {t : ℚ} :
    (∀ s ∈ z.slabs m p q, s.Strict t) ↔ p.toward q t ∈ z.interior m := by
  by_cases hz : z.zMin = 0 ∧ z.zMax = 0
  · simp [Zone.slabs, axisSlabs, zoneDims, zoneZUndefined, Zone.interior, Slab.Strict, Slab.at,
      Point.toward, hz, and_assoc]
  · simp [Zone.slabs, axisSlabs, zoneDims, zoneZUndefined, Zone.interior, Slab.Strict, Slab.at,
      Point.toward, hz, and_assoc]

theorem segmentIntersectsZone_iff {z : Zone} {p q : Point} :
    segmentIntersectsZone z p q = true ↔ z.Crossed p q := by
  have crossed : z.Crossed p q ↔ Overlaps (z.slabs ezTolerance p q) := by
    simp only [Zone.Crossed, Overlaps, slabs_inside]
  rw [crossed, overlaps_iff]
  simp only [segmentIntersectsZone]
  split
  next out =>
    have clipped : clipAll (z.slabs ezTolerance p q) ⟨0, 1⟩ = none := out
    simp [clipped]
  next w out =>
    have clipped : clipAll (z.slabs ezTolerance p q) ⟨0, 1⟩ = some w := out
    simp [clipped]

theorem crossed_of_interior {z : Zone} {p q : Point} {t : ℚ} (h0 : 0 ≤ t) (h1 : t ≤ 1)
    (h : p.toward q t ∈ z.interior ezTolerance) : z.Crossed p q := by
  obtain ⟨u, u', hu, hlt, hu', hin, hin'⟩ := overlaps_of_strict h0 h1 (slabs_strict.mpr h)
  exact ⟨u, u', hu, hlt, hu', slabs_inside.mp hin, slabs_inside.mp hin'⟩

theorem ezCheckZone_of_not_forbids {z : Zone} {op : EzOp} {p q : Point} (h : ¬z.Forbids op) :
    ezCheckZone z op p q = none := by
  unfold ezCheckZone
  cases he : z.flags.enabled with
  | false => rfl
  | true =>
    have ha : opAllowedInZone z op = true := by
      by_contra ha
      exact h ⟨he, by simpa using ha⟩
    simp [ha]

/-- A zone lets a move pass iff it allows the operation or the move stays clear of it. -/
theorem ezCheckZone_none {z : Zone} {op : EzOp} {p q : Point} :
    ezCheckZone z op p q = none ↔
      (z.Forbids op → q ∉ z.interior ezTolerance ∧ ¬z.Crossed p q) := by
  by_cases hf : z.Forbids op
  · rw [← pointDeepInZone_iff, ← segmentIntersectsZone_iff]
    simp only [hf, true_implies, ezCheckZone, hf.1, hf.2, Bool.not_true, Bool.false_eq_true,
      if_false]
    split
    next inside => split <;> simp [inside]
    next outside =>
      split
      next crossing => split <;> simp [crossing]
      next clear => simp [outside, clear]
  · simp [hf, ezCheckZone_of_not_forbids hf]

theorem ezCheckZones_none (cfg : EzConfig) (op : EzOp) (p q : Point) {slots : List Nat}
    (hs : ∀ i ∈ slots, i < ezMaxZones) :
    ∃ result, ezCheckZones cfg op p q slots = some result ∧
      (result = none ↔ ∀ i ∈ slots, ∀ z, cfg.zones[i]? = some z → ezCheckZone z op p q = none) := by
  induction slots with
  | nil => exact ⟨none, rfl, by simp⟩
  | cons i slots ih =>
    have hi : i < ezMaxZones := hs i (by simp)
    have hz : cfg.zones[i]? = some cfg.zones[i] := by simp [hi]
    obtain ⟨result, hr, hiff⟩ := ih (fun j hj => hs j (List.mem_cons_of_mem i hj))
    cases hc : ezCheckZone cfg.zones[i] op p q with
    | some warning =>
      refine ⟨some warning, by simp [ezCheckZones, hz, hc], ?_⟩
      simp only [reduceCtorEq, false_iff]
      intro clear
      have := clear i (by simp) _ hz
      simp [this] at hc
    | none =>
      refine ⟨result, by simp [ezCheckZones, hz, hc, hr], ?_⟩
      rw [hiff, List.forall_mem_cons]
      constructor
      · intro clear
        refine ⟨?_, clear⟩
        intro z h
        rw [hz] at h
        cases Option.some.inj h
        exact hc
      · exact fun clear => clear.2

theorem EzConfig.slot_exists {cfg : EzConfig} (hcount : cfg.count ≤ ezMaxZones) {i : Nat}
    (hi : i ∈ List.range cfg.count) : i < ezMaxZones :=
  (List.mem_range.mp hi).trans_le hcount

theorem ezCheckZones_table {cfg : EzConfig} (hcount : cfg.count ≤ ezMaxZones) (op : EzOp)
    (p q : Point) :
    ∃ result, ezCheckZones cfg op p q (List.range cfg.count) = some result ∧
      (result = none ↔
        ∀ z, cfg.Lists z → z.Forbids op → q ∉ z.interior ezTolerance ∧ ¬z.Crossed p q) := by
  obtain ⟨result, hr, hiff⟩ := ezCheckZones_none cfg op p q
    (fun i hi => cfg.slot_exists hcount hi)
  refine ⟨result, hr, ?_⟩
  rw [hiff]
  constructor
  · rintro clear z ⟨i, hi, hz⟩
    exact ezCheckZone_none.mp (clear i (List.mem_range.mpr hi) z hz)
  · intro clear i hi z hz
    exact ezCheckZone_none.mpr (clear z ⟨i, List.mem_range.mp hi, hz⟩)

/-- With exclusion enabled, `ez_check_travel` refuses a move exactly when its target lies inside
a zone that forbids the operation, when it crosses one, or when the previous hook refuses; an
accepted move has no point strictly inside such a zone. -/
theorem ezCheckTravel_exact {k : Nat} {σ ω : Type} (cfg : EzConfig)
    (hcount : cfg.count ≤ ezMaxZones) (hon : cfg.globalEnabled = true) (tcMacroRunning : Bool)
    (prev : Option (CheckHook k σ ω)) (planPosition : Option (Axes k)) (target : Axes k)
    (axes : σ) (isCartesian : Bool) (envelope : ω) :
    ∃ verdict warnings,
      ezCheckTravel cfg tcMacroRunning prev planPosition target axes isCartesian envelope =
        some (verdict, warnings) ∧
      (verdict = false ↔
        (∃ z, cfg.Lists z ∧ z.Forbids (currentOp tcMacroRunning) ∧
          (target.point ∈ z.interior ezTolerance ∨ z.Crossed (planStart planPosition) target.point)) ∨
        ∃ hook, prev = some hook ∧ hook target axes isCartesian envelope = false) ∧
      (verdict = true → ∀ z, cfg.Lists z → z.Forbids (currentOp tcMacroRunning) →
        ∀ t, 0 ≤ t → t ≤ 1 →
          (planStart planPosition).toward target.point t ∉ z.interior ezTolerance) := by
  obtain ⟨result, hr, hiff⟩ := ezCheckZones_table hcount (currentOp tcMacroRunning)
    (planStart planPosition) target.point
  cases result with
  | some warning =>
    refine ⟨false, [warning], by simp [ezCheckTravel, hon, hr], ?_, by simp⟩
    simp only [reduceCtorEq, false_iff, not_forall] at hiff
    obtain ⟨z, hz, hf, hh⟩ := hiff
    simp only [true_iff]
    refine Or.inl ⟨z, hz, hf, ?_⟩
    tauto
  | none =>
    have clear := hiff.mp rfl
    refine ⟨callCheckHook prev target axes isCartesian envelope, [],
      by simp [ezCheckTravel, hon, hr], ?_, ?_⟩
    · have noZone : ¬∃ z, cfg.Lists z ∧ z.Forbids (currentOp tcMacroRunning) ∧
          (target.point ∈ z.interior ezTolerance ∨
            z.Crossed (planStart planPosition) target.point) := by
        rintro ⟨z, hz, hf, inside | crossing⟩
        · exact (clear z hz hf).1 inside
        · exact (clear z hz hf).2 crossing
      rw [or_iff_right noZone]
      cases prev <;> simp [callCheckHook]
    · intro _ z hz hf t h0 h1 inside
      exact (clear z hz hf).2 (crossed_of_interior h0 h1 inside)

def noZone : Zone := ⟨0, 0, 0, 0, 0, 0, ⟨0⟩⟩

def shelf : Zone := ⟨10, -10, -10, 20, 10, -5, ⟨0x08⟩⟩

def column : Zone := ⟨25, -10, 0, 40, 10, 0, ⟨0x08⟩⟩

def shelfTable : EzConfig :=
  ⟨3, true, ((Vector.replicate ezMaxZones noZone).set 1 shelf (by decide)).set 2 column (by decide)⟩

def machineZero : Axes 0 := ⟨0, 0, 0, #v[]⟩

theorem ezCheckTravel_exact_column : ∃ warnings,
    ezCheckTravel shelfTable false none (some machineZero) ⟨30, 0, -1, #v[]⟩ () true () =
      some (false, warnings) := by
  obtain ⟨verdict, warnings, h, refused, _⟩ := ezCheckTravel_exact shelfTable (by decide) rfl false
    none (some machineZero) ⟨30, 0, -1, #v[]⟩ () true ()
  have inside : Axes.point ⟨30, 0, -1, #v[]⟩ ∈ column.interior ezTolerance :=
    pointDeepInZone_iff.mp (by decide +kernel)
  have hv := refused.mpr (Or.inl ⟨column, ⟨2, by decide, rfl⟩, ⟨rfl, rfl⟩, Or.inl inside⟩)
  exact ⟨warnings, by rw [h, hv]⟩

end GrblhalSim
