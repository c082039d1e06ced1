import GrblhalSim.ZoneJogRun

namespace GrblhalSim

theorem ComesTo.turned {cfg : EzConfig} {p q : Point} {n : Nat} {a b : ℚ}
    (comes : ComesTo cfg p q n a b) :
    ((∃ m < n, FlattensAt cfg p q m) ↔ a < b) ∧ (a < b → p.x ≠ q.x ∨ p.y ≠ q.y) := by
  induction comes with
  | start => simp
  | kept before slot cuts stops ih =>
    rw [below_succ, before.flattensAt_iff slot]
    simpa [cuts] using ih
  | cut before slot deep cuts enters ih =>
    obtain ⟨pos, _⟩ := cuts.enters_inside enters
    rw [below_succ, before.flattensAt_iff slot, mul_lt_mul_iff_right₀ pos]
    simpa [deep] using ih
  | flattened before slot flat cuts enters _ =>
    obtain ⟨_, hab, _⟩ := before.bounds
    obtain ⟨r, first, _, lt⟩ := before.flattens flat cuts
    have same := EntersAt.unique enters first
    refine ⟨iff_of_true (below_succ.mpr (Or.inr ?_)) (same ▸ lt.trans_le hab), fun _ => ?_⟩
    · exact (before.flattensAt_iff slot).mpr ⟨flat, cuts⟩
    · refine (cuts_flat_moves flat cuts).imp (fun moved level => moved ?_) fun moved level => moved ?_
      · simp [Point.reach, level]
      · simp [Point.reach, level]

/-- What is left of a jog is on the commanded segment unless it was flattened, and then if Z is not
to move. -/
theorem reach_straight_iff {p q : Point} {a b : ℚ} (ha : 0 ≤ a) (hab : a ≤ b) (hb : b ≤ 1)
    (moves : a < b → p.x ≠ q.x ∨ p.y ≠ q.y) :
    (∃ t, 0 ≤ t ∧ t ≤ 1 ∧ p.reach q a b = p.toward q t) ↔ p.z = q.z ∨ ¬a < b := by
  constructor
  · rintro ⟨t, _, _, same⟩
    rw [or_iff_not_imp_right, Classical.not_not]
    intro shorter
    simp only [Point.reach, Point.toward, Point.mk.injEq, add_right_inj, mul_eq_mul_right_iff,
      sub_eq_zero] at same
    obtain ⟨hx, hy, hz⟩ := same
    have at_t : a = t := by
      rcases moves shorter with moved | moved
      · exact hx.resolve_right (Ne.symm moved)
      · exact hy.resolve_right (Ne.symm moved)
    exact (hz.resolve_left (by rw [← at_t]; exact shorter.ne')).symm
  · rintro (level | straight)
    · exact ⟨a, ha, hab.trans hb, by simp [Point.reach, Point.toward, level]⟩
    · have same : a = b := le_antisymm hab (not_lt.mp straight)
      exact ⟨b, ha.trans hab, hb, by rw [same, reach_same]⟩

def JogShortened {k : Nat} {ω : Type} (cfg : EzConfig) (prev : Option (ApplyHook k ω))
    (target position : Axes k) (envelope : ω) : Prop :=
  ∃ result warnings, ezApplyTravel cfg prev target position envelope = some (result, warnings) ∧
    ∃ t, 0 ≤ t ∧ t ≤ 1 ∧ result.point = position.point.toward target.point t

/-- A jog is shortened and not redirected exactly when Z is not to move, a zone stops the jog, or
no zone without a depth cuts it. -/
theorem ezApplyTravel_shortened_iff {k : Nat} {ω : Type} (cfg : EzConfig)
    (hcount : cfg.count ≤ ezMaxZones) (prev : Option (ApplyHook k ω))
    (hprev : ∀ hook, prev = some hook → ∀ t p e, hook t p e = t) (target position : Axes k)
    (envelope : ω) :
    JogShortened cfg prev target position envelope ↔
      cfg.globalEnabled = false ∨ position.z = target.z ∨
        (∃ n < cfg.count, StopsAt cfg position.point target.point n) ∨
        ∀ n < cfg.count, ¬FlattensAt cfg position.point target.point n := by
  cases hon : cfg.globalEnabled with
  | false =>
    have same : callApplyHook prev target position envelope = target := by
      cases prev with
      | none => rfl
      | some hook => exact hprev hook rfl target position envelope
    refine iff_of_true ⟨target, [], by simp [ezApplyTravel, hon, same], 1, zero_le_one, le_rfl, ?_⟩
      (Or.inl rfl)
    simp [Point.toward]
  | true =>
    obtain ⟨warnings, hr⟩ := ezApplyTravel_target hcount hon hprev target position envelope
    have shortened : JogShortened cfg prev target position envelope ↔ ∃ t, 0 ≤ t ∧ t ≤ 1 ∧
        (jogAfter cfg position target cfg.count).target.point =
          position.point.toward target.point t := by
      constructor
      · rintro ⟨result, warnings', hr', on_segment⟩
        cases Option.some.inj (hr.symm.trans hr')
        exact on_segment
      · exact fun on_segment => ⟨_, warnings, hr, on_segment⟩
    rw [shortened]
    rcases jogAfter_course position target hcount with
      ⟨stopped, _, hs⟩ | ⟨running, cur, _, a, b, hs, comes, at_ab⟩
    · refine iff_of_true ⟨0, le_rfl, zero_le_one, ?_⟩ (Or.inr (Or.inr (Or.inl stopped)))
      rw [hs, toward_zero, JogState.target]
    · have level : position.point.z = target.point.z ↔ position.z = target.z := Iff.rfl
      obtain ⟨ha, hab, hb⟩ := comes.bounds
      obtain ⟨flattened, moves⟩ := comes.turned
      rw [hs, JogState.target, at_ab, reach_straight_iff ha.le hab hb moves, level, ← flattened]
      simp [running]

theorem ezApplyTravel_shortened_shelf :
    JogShortened shelfTable (none : Option (ApplyHook 0 Unit)) ⟨100, 0, 0, #v[]⟩ machineZero () ↔
      shelfTable.globalEnabled = false ∨ machineZero.z = 0 ∨
        (∃ n < shelfTable.count, StopsAt shelfTable machineZero.point ⟨100, 0, 0⟩ n) ∨
        ∀ n < shelfTable.count, ¬FlattensAt shelfTable machineZero.point ⟨100, 0, 0⟩ n :=
  ezApplyTravel_shortened_iff shelfTable (by decide) none (by simp) _ _ ()

/-- A jog that rises by 10 over 100 in X is cut at X = 25, still to rise by 10. -/
theorem ezApplyTravel_steeper :
    shelfTable.count ≤ ezMaxZones ∧
      ezApplyTravel shelfTable none ⟨100, 0, 10, #v[]⟩ machineZero () =
        some (⟨25, 0, 10, #v[]⟩, [⟨"EZ: Jog clipped at exclusion boundary", .warning⟩]) ∧
      ¬JogShortened shelfTable (none : Option (ApplyHook 0 Unit)) ⟨100, 0, 10, #v[]⟩ machineZero
        () := by
  have call : ezApplyTravel shelfTable (none : Option (ApplyHook 0 Unit)) ⟨100, 0, 10, #v[]⟩
      machineZero () =
        some (⟨25, 0, 10, #v[]⟩, [⟨"EZ: Jog clipped at exclusion boundary", .warning⟩]) := by
    decide +kernel
  refine ⟨by decide, call, ?_⟩
  rintro ⟨result, warnings, call', t, _, _, same⟩
  cases Option.some.inj (call.symm.trans call')
  simp only [Axes.point, machineZero, Point.toward, Point.mk.injEq] at same
  linarith [same.1, same.2.2]

end GrblhalSim
