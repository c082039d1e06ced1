import GrblhalSim.AtciAgree

namespace GrblhalSim

/-- What a jog from `position` to `target` becomes while the keepout is active: X and Y stay out
of the shrunk rectangle, and a jog that has no stretch in it and does not end in it is kept. -/
structure KeepoutJogSafe {k : Nat} (s : Atci ℚ) (position target result : Axes k) : Prop where
  stays : position.point ∈ s.rectangle.interior keepoutTolerance → result = position
  clear : position.point ∉ s.rectangle.interior keepoutTolerance → ∀ t, 0 ≤ t → t ≤ 1 →
    position.point.toward result.point t ∉ s.rectangle.interior keepoutTolerance
  kept : (∀ t u, 0 ≤ t → t ≤ 1 → 0 ≤ u → u ≤ 1 →
      position.point.toward target.point t ∈ s.rectangle.box keepoutTolerance →
      position.point.toward target.point u ∈ s.rectangle.box keepoutTolerance → t = u) →
    target.point ∉ s.rectangle.interior keepoutTolerance → result = target

theorem not_crossed_of_single {z : Zone} {p q : Point}
    (single : ∀ t u, 0 ≤ t → t ≤ 1 → 0 ≤ u → u ≤ 1 → p.toward q t ∈ z.box ezTolerance →
      p.toward q u ∈ z.box ezTolerance → t = u) : ¬z.Crossed p q := by
  rintro ⟨t, u, ht, hlt, hu, inside, inside'⟩
  have same := single t u ht (hlt.le.trans hu) (ht.trans hlt.le) hu inside inside'
  exact hlt.ne same

/-- Where the hooks send a jog that starts outside: not through the zone, and where it was to go
if it neither ends in the zone nor crosses it. -/
theorem zone0Jog_outside {k : Nat} {z : Zone} {position target : Axes k}
    (outside : position.point ∉ z.interior ezTolerance) :
    z.Clear position.point (zone0Jog z target position id id).point ∧
      (target.point ∉ z.interior ezTolerance → ¬z.Crossed position.point target.point →
        zone0Jog z target position id id = target) := by
  have start : pointDeepInZone z position.point = false := by
    rwa [← Bool.not_eq_true, pointDeepInZone_iff]
  by_cases meets : target.point ∈ z.interior ezTolerance ∨ z.Crossed position.point target.point
  · have branch := meets
    rw [← pointDeepInZone_iff, ← segmentIntersectsZone_iff] at branch
    refine ⟨?_, fun away apart => absurd meets (not_or.mpr ⟨away, apart⟩)⟩
    cases clip : clipToZoneBoundary z position target with
    | none =>
      simp only [zone0Jog, start, branch, clip, Bool.or_eq_true, Bool.false_eq_true, if_false,
        if_true]
      exact clear_self outside
    | some clipped =>
      simp only [zone0Jog, start, branch, clip, Bool.or_eq_true, Bool.false_eq_true, if_false,
        if_true, id]
      exact clipToZoneBoundary_clear outside clip
  · have kept : zone0Jog z target position id id = target := by
      rw [← pointDeepInZone_iff, ← segmentIntersectsZone_iff] at meets
      simp only [zone0Jog, start, meets, Bool.or_eq_true, Bool.false_eq_true, if_false, id]
    rw [kept]
    exact ⟨clear_of_not_crossed (not_or.mp meets).2, fun _ _ => rfl⟩

/-- With the keepout active, the target that `keepout_apply_travel_limits` leaves is safe. -/
theorem keepout_jog_safe {k : Nat} {ω : Type} (s : Atci ℚ) (active : s.isKeepoutActive = true)
    (prev : Option (ApplyHook k ω)) (hprev : ∀ hook, prev = some hook → ∀ t p e, hook t p e = t)
    (target position : Axes k) (envelope : ω) :
    KeepoutJogSafe s position target
      (s.keepoutApplyTravelLimits prev target position envelope).1 := by
  have unchanged : (callApplyHook prev · position envelope) = id := by
    funext t
    cases prev with
    | none => rfl
    | some hook => exact hprev hook rfl t position envelope
  rw [keepoutApplyTravelLimits_rectangle active, unchanged]
  refine ⟨fun inside => ?_, fun outside => (zone0Jog_outside outside).1, fun single away => ?_⟩
  · have deep : pointDeepInZone s.rectangle position.point = true := pointDeepInZone_iff.mpr inside
    rw [zone0Jog, if_pos deep]
  · have apart := not_crossed_of_single single
    by_cases inside : position.point ∈ s.rectangle.interior ezTolerance
    · have at_start : position.point.toward target.point 0 ∈ s.rectangle.interior ezTolerance := by
        rwa [toward_zero]
      exact absurd (crossed_of_interior le_rfl zero_le_one at_start) apart
    · exact (zone0Jog_outside inside).2 away apart

theorem keepout_jog_safe_enabled :
    KeepoutJogSafe enabledKeepout.keepoutSet machineZero ⟨30, 20, 5, #v[]⟩
      (enabledKeepout.keepoutSet.keepoutApplyTravelLimits (none : Option (ApplyHook 0 Unit))
        ⟨30, 20, 5, #v[]⟩ machineZero ()).1 :=
  keepout_jog_safe enabledKeepout.keepoutSet rfl none (by simp) _ _ ()

end GrblhalSim
