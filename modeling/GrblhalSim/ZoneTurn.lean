import GrblhalSim.ZoneJogRun

namespace GrblhalSim

def JogSafe {k : Nat} {ω : Type} (cfg : EzConfig) (prev : Option (ApplyHook k ω))
    (target position : Axes k) (envelope : ω) : Prop :=
  ∃ result warnings, ezApplyTravel cfg prev target position envelope = some (result, warnings) ∧
    ∀ z, cfg.Lists z → z.Forbids .jog → z.Clear position.point result.point

theorem jogSafe_iff {k : Nat} {ω : Type} (cfg : EzConfig) (hcount : cfg.count ≤ ezMaxZones)
    (hon : cfg.globalEnabled = true) {prev : Option (ApplyHook k ω)}
    (hprev : ∀ hook, prev = some hook → ∀ t p e, hook t p e = t) {target position : Axes k}
    {envelope : ω} :
    JogSafe cfg prev target position envelope ↔ ∀ z, cfg.Lists z → z.Forbids .jog →
      z.Clear position.point (jogAfter cfg position target cfg.count).target.point := by
  obtain ⟨warnings, hr⟩ := ezApplyTravel_target hcount hon hprev target position envelope
  constructor
  · rintro ⟨result, warnings', hr', clear⟩
    cases Option.some.inj (hr.symm.trans hr')
    exact clear
  · exact fun clear => ⟨_, warnings, hr, clear⟩

theorem outside_of_slots {cfg : EzConfig} {p : Point}
    (h : ∀ i < cfg.count, (cfg.zones[i]?.any fun z => pointDeepInZone z p) = false) :
    ∀ z, cfg.Lists z → p ∉ z.interior ezTolerance := by
  rintro z ⟨i, hi, hz⟩ inside
  have deep := h i hi
  simp [hz, pointDeepInZone_iff.mpr inside] at deep

theorem machineZero_outside : ∀ z, shelfTable.Lists z → z.Forbids .jog →
    machineZero.point ∉ z.interior ezTolerance :=
  fun z hz _ => outside_of_slots (by decide +kernel) z hz

/-- The zone of slot `n` has no depth and cuts a jog that moves in Z while it is on the commanded
segment yet, `c` of the way; it leaves `r` of the way in X and Y. -/
def TurnsAt (cfg : EzConfig) (p q : Point) (n : Nat) (c r : ℚ) : Prop :=
  p.z ≠ q.z ∧ ∃ z, cfg.zones[n]? = some z ∧ zoneZUndefined z = true ∧ ComesTo cfg p q n c c ∧
    z.Cuts p (p.toward q c) ∧ z.EntersAt p q r

/-- The zone has a depth, forbids jogging and stands in a slot before `n`. -/
def DeepBefore (cfg : EzConfig) (n : Nat) (e : Zone) : Prop :=
  ∃ i < n, cfg.zones[i]? = some e ∧ zoneZUndefined e = false ∧ e.Forbids .jog

/-- Where a zone without a depth turns the jog off the commanded segment, the turned jog is clear of
the zones with a depth before it. Where another such zone may cut the turned jog short in X and Y,
the zones with a depth before that one lie clear of all that it can be turned to. -/
def TurnsClear (cfg : EzConfig) (p q : Point) : Prop :=
  ∀ n < cfg.count, ∀ c r, TurnsAt cfg p q n c r →
    (∀ e, DeepBefore cfg n e → e.Clear p (p.reach q r c)) ∧
    ∀ m < cfg.count, n < m → ∀ z s, cfg.zones[m]? = some z → zoneZUndefined z = true →
      z.Cuts p q → z.EntersAt p q s → s < r →
      ∀ e, DeepBefore cfg m e → ∀ x y, 0 ≤ x → x ≤ s → c * x ≤ r * y → y ≤ c →
        p.reach q x y ∉ e.interior ezTolerance

/-- From some slot on the jog is turned: it goes up or down more steeply than at its first turn. -/
def Turned (cfg : EzConfig) (p q : Point) (n : Nat) (a b : ℚ) : Prop :=
  ∃ m < n, ∃ c r, TurnsAt cfg p q m c r ∧ a ≤ r ∧ b ≤ c ∧ c * a ≤ r * b

section Course

variable {cfg : EzConfig} {p q : Point} {n : Nat} {a b : ℚ}

theorem cuts_flat_whole {z : Zone} (flat : zoneZUndefined z = true) (ha : 0 < a) (ha' : a ≤ 1)
    (cuts : z.Cuts p (p.reach q a b)) : z.Cuts p q := by
  obtain ⟨hf, outside, t, t', h0, hlt, h1, inside, inside'⟩ := cuts
  have inBox : ∀ t, p.toward (p.reach q a b) t ∈ z.box ezTolerance →
      p.toward q (t * a) ∈ z.box ezTolerance := by
    intro t h
    have same : p.reach q (t * a) (t * b) ∈ z.box ezTolerance ↔
        p.toward q (t * a) ∈ z.box ezTolerance := box_congr_flat flat rfl rfl
    rwa [toward_reach, same] at h
  exact ⟨hf, outside, t * a, t' * a, mul_nonneg h0 ha.le, (mul_lt_mul_iff_left₀ ha).mpr hlt,
    mul_le_one₀ h1 ha.le ha', inBox t inside, inBox t' inside'⟩

/-- One slot shortens the jog as it is, or cuts X and Y alone. -/
theorem ComesTo.succ_cases {a' b' : ℚ} (comes : ComesTo cfg p q (n + 1) a' b') :
    ∃ a b, ComesTo cfg p q n a b ∧
      ((∃ r, 0 < r ∧ r ≤ 1 ∧ a' = r * a ∧ b' = r * b) ∨
        b' = b ∧ a' < a ∧ ∃ z, cfg.zones[n]? = some z ∧ zoneZUndefined z = true ∧
          z.Cuts p (p.reach q a b) ∧ z.EntersAt p q a') := by
  cases comes with
  | kept before slot cuts stops =>
    exact ⟨a', b', before, Or.inl ⟨1, one_pos, le_rfl, (one_mul _).symm, (one_mul _).symm⟩⟩
  | @cut _ a b r z before slot deep cuts enters =>
    obtain ⟨pos, lt⟩ := cuts.enters_inside enters
    exact ⟨a, b, before, Or.inl ⟨r, pos, lt.le, rfl, rfl⟩⟩
  | @flattened _ a b r z before slot flat cuts enters =>
    obtain ⟨s, first, _, lt⟩ := before.flattens flat cuts
    rw [← EntersAt.unique enters first] at lt
    exact ⟨a, b', before, Or.inr ⟨rfl, lt, z, slot, flat, cuts, enters⟩⟩

theorem ComesTo.own_clear (comes : ComesTo cfg p q (n + 1) a b) {z : Zone}
    (slot : cfg.zones[n]? = some z) (hf : z.Forbids .jog) (outside : p ∉ z.interior ezTolerance) :
    z.Clear p (p.reach q a b) := by
  cases comes with
  | kept before slot' cuts stops =>
    cases Option.some.inj (slot.symm.trans slot')
    exact clear_of_not_crossed (not_crossed_of_kept hf cuts stops)
  | cut before slot' deep cuts enters =>
    cases Option.some.inj (slot.symm.trans slot')
    rw [← toward_reach]
    exact cuts.clear outside enters
  | @flattened _ a₀ _ _ _ before slot' flat cuts enters =>
    cases Option.some.inj (slot.symm.trans slot')
    obtain ⟨w, _, first, _, _⟩ := cuts.entry
    obtain ⟨ha, hab, hb⟩ := before.bounds
    have same := EntersAt.unique enters (entersAt_flat flat ha (hab.trans hb) first)
    refine clear_shortened_flat flat (cuts.clear outside first) zero_le_one le_rfl ?_ ?_
    · simp only [Point.toward, Point.reach, same]
      ring
    · simp only [Point.toward, Point.reach, same]
      ring

theorem clear_shorter {e : Zone} {r : ℚ} (h : e.Clear p (p.reach q a b)) (pos : 0 < r) (le : r ≤ 1) :
    e.Clear p (p.reach q (r * a) (r * b)) := by
  rw [← toward_reach]
  exact clear_shortened h pos.le le

theorem clear_flatter {e : Zone} {r : ℚ} (flat : zoneZUndefined e = true) (ha : 0 < a) (hr : 0 ≤ r)
    (le : r ≤ a) (h : e.Clear p (p.reach q a b)) : e.Clear p (p.reach q r b) := by
  have back : r / a * a = r := div_mul_cancel₀ _ ha.ne'
  refine clear_shortened_flat (r := r / a) flat h (div_nonneg hr ha.le) ((div_le_one ha).mpr le) ?_ ?_
  · rw [toward_reach, back]
    rfl
  · rw [toward_reach, back]
    rfl

/-- A jog that does not move in Z stays on the commanded segment. -/
theorem clear_level {e : Zone} {r : ℚ} (level : p.z = q.z) (ha : 0 < a) (hr : 0 ≤ r) (le : r ≤ a)
    (h : e.Clear p (p.reach q a b)) : e.Clear p (p.reach q r b) := by
  have back : r / a * a = r := div_mul_cancel₀ _ ha.ne'
  have same : (p.reach q r b) = p.toward (p.reach q a b) (r / a) := by
    rw [toward_reach, back, Point.reach, Point.reach, level]
    simp only [sub_self, mul_zero]
  rw [same]
  exact clear_shortened h (div_nonneg hr ha.le) ((div_le_one ha).mpr le)

theorem ComesTo.clear_flat (outside : ∀ z, cfg.Lists z → z.Forbids .jog → p ∉ z.interior ezTolerance)
    (hn : n ≤ cfg.count) (comes : ComesTo cfg p q n a b) {i : Nat} (hi : i < n) {e : Zone}
    (he : cfg.zones[i]? = some e) (flat : zoneZUndefined e = true) (hf : e.Forbids .jog) :
    e.Clear p (p.reach q a b) := by
  induction n generalizing a b with
  | zero => omega
  | succ n ih =>
    by_cases own : i = n
    · subst own
      exact comes.own_clear he hf (outside e ⟨i, by omega, he⟩ hf)
    · obtain ⟨a₀, b₀, before, ⟨r, pos, le, rfl, rfl⟩ | ⟨rfl, lt, _⟩⟩ := comes.succ_cases
      · exact clear_shorter (ih (by omega) before (by omega)) pos le
      · exact clear_flatter flat before.bounds.1 comes.bounds.1.le lt.le
          (ih (by omega) before (by omega))

theorem Turned.shorten (turned : Turned cfg p q n a b) (ha : 0 ≤ a) (hb : 0 ≤ b) {r : ℚ}
    (pos : 0 < r) (le : r ≤ 1) : Turned cfg p q (n + 1) (r * a) (r * b) := by
  obtain ⟨m, hm, c, s, turns, has, hbc, steep⟩ := turned
  refine ⟨m, by omega, c, s, turns, (mul_le_of_le_one_left ha le).trans has,
    (mul_le_of_le_one_left hb le).trans hbc, ?_⟩
  calc c * (r * a) = r * (c * a) := by ring
    _ ≤ r * (s * b) := mul_le_mul_of_nonneg_left steep pos.le
    _ = s * (r * b) := by ring

theorem TurnsAt.course {c r : ℚ} (turns : TurnsAt cfg p q n c r) : ComesTo cfg p q (n + 1) r c := by
  obtain ⟨_, z, slot, flat, comes, cuts, enters⟩ := turns
  exact .flattened comes slot flat cuts enters

theorem TurnsAt.pos {c r : ℚ} (turns : TurnsAt cfg p q n c r) : 0 < r ∧ 0 < c := by
  obtain ⟨hr, hrc, _⟩ := turns.course.bounds
  exact ⟨hr, hr.trans_le hrc⟩

theorem Turned.flatten (turned : Turned cfg p q n a b) {r : ℚ} (le : r ≤ a) :
    Turned cfg p q (n + 1) r b := by
  obtain ⟨m, hm, c, s, turns, has, hbc, steep⟩ := turned
  exact ⟨m, by omega, c, s, turns, le.trans has, hbc,
    (mul_le_mul_of_nonneg_left le turns.pos.2.le).trans steep⟩

theorem ComesTo.straight_or_turned (moves : p.z ≠ q.z) (comes : ComesTo cfg p q n a b) :
    a = b ∨ Turned cfg p q n a b := by
  induction n generalizing a b with
  | zero =>
    cases comes
    exact Or.inl rfl
  | succ n ih =>
    obtain ⟨a₀, b₀, before, ⟨r, pos, le, rfl, rfl⟩ | ⟨rfl, lt, z, slot, flat, cuts, enters⟩⟩ :=
      comes.succ_cases
    · obtain ⟨ha, hab, _⟩ := before.bounds
      rcases ih before with same | turned
      · exact Or.inl (congrArg (r * ·) same)
      · exact Or.inr (turned.shorten ha.le (ha.le.trans hab) pos le)
    · rcases ih before with rfl | turned
      · exact Or.inr ⟨n, by omega, a₀, a, ⟨moves, z, slot, flat, before, cuts, enters⟩, le_rfl,
          le_rfl, (mul_comm a₀ a).le⟩
      · exact Or.inr (turned.flatten lt.le)

/-- A cut in X and Y alone leaves the jog clear of the zones with a depth before the cut. -/
theorem TurnsClear.flattened (turns : TurnsClear cfg p q) (moves : p.z ≠ q.z) (hn : n < cfg.count)
    (before : ComesTo cfg p q n a b) {z : Zone} (slot : cfg.zones[n]? = some z)
    (flat : zoneZUndefined z = true) (cuts : z.Cuts p (p.reach q a b)) {r : ℚ}
    (enters : z.EntersAt p q r) (pos : 0 < r) (lt : r < a) {e : Zone} (he : DeepBefore cfg n e) :
    e.Clear p (p.reach q r b) := by
  obtain ⟨ha, hab, hb⟩ := before.bounds
  rcases before.straight_or_turned moves with rfl | ⟨m, hm, c, s, first, has, hbc, steep⟩
  · exact (turns n hn a r ⟨moves, z, slot, flat, before, cuts, enters⟩).1 e he
  · intro t h0 h1
    have whole := cuts_flat_whole flat ha (hab.trans hb) cuts
    have hc := first.pos.2
    rw [toward_reach]
    refine (turns m (by omega) c s first).2 n hn hm z r slot flat whole enters (lt.trans_le has) e he
      (t * r) (t * b) (mul_nonneg h0 pos.le) (mul_le_of_le_one_left pos.le h1) ?_
      ((mul_le_of_le_one_left (ha.le.trans hab) h1).trans hbc)
    calc c * (t * r) = t * (c * r) := by ring
      _ ≤ t * (c * a) := mul_le_mul_of_nonneg_left (mul_le_mul_of_nonneg_left lt.le hc.le) h0
      _ ≤ t * (s * b) := mul_le_mul_of_nonneg_left steep h0
      _ = s * (t * b) := by ring

/-- Where every turn is clear, the jog stays clear of the zones with a depth that it comes by. -/
theorem ComesTo.clear_deep (turns : TurnsClear cfg p q)
    (outside : ∀ z, cfg.Lists z → z.Forbids .jog → p ∉ z.interior ezTolerance) (hn : n ≤ cfg.count)
    (comes : ComesTo cfg p q n a b) {e : Zone} (he : DeepBefore cfg n e) :
    e.Clear p (p.reach q a b) := by
  induction n generalizing a b with
  | zero =>
    obtain ⟨i, hi, _⟩ := he
    omega
  | succ n ih =>
    obtain ⟨i, hi, slot, deep, hf⟩ := he
    by_cases own : i = n
    · subst own
      exact comes.own_clear slot hf (outside e ⟨i, by omega, slot⟩ hf)
    · have earlier : DeepBefore cfg n e := ⟨i, by omega, slot, deep, hf⟩
      obtain ⟨a₀, b₀, before, ⟨r, pos, le, rfl, rfl⟩ | ⟨rfl, lt, z, slot', flat, cuts, enters⟩⟩ :=
        comes.succ_cases
      · exact clear_shorter (ih (by omega) before earlier) pos le
      · by_cases level : p.z = q.z
        · exact clear_level level before.bounds.1 comes.bounds.1.le lt.le
            (ih (by omega) before earlier)
        · exact turns.flattened level (by omega) before slot' flat cuts enters comes.bounds.1 lt
            earlier

theorem ComesTo.not_stopsAt (comes : ComesTo cfg p q n a b) : ¬∃ m < n, StopsAt cfg p q m := by
  induction comes with
  | start => simp
  | kept before slot cuts stops ih =>
    rw [below_succ, before.stopsAt_iff slot]
    exact not_or.mpr ⟨ih, stops⟩
  | cut before slot deep cuts enters ih =>
    rw [below_succ, before.stopsAt_iff slot]
    exact not_or.mpr ⟨ih, not_stops_of_cuts cuts⟩
  | flattened before slot flat cuts enters ih =>
    rw [below_succ, before.stopsAt_iff slot]
    exact not_or.mpr ⟨ih, not_stops_of_cuts cuts⟩

theorem ComesTo.unmet (comes : ComesTo cfg p q n a b) {m : Nat} (hm : n ≤ m) (hm' : m ≤ cfg.count)
    (outside : ∀ z, cfg.Lists z → z.Forbids .jog → p ∉ z.interior ezTolerance)
    (hcount : cfg.count ≤ ezMaxZones)
    (unmet : ∀ i < cfg.count, n ≤ i → ∀ z, cfg.zones[i]? = some z → z.Forbids .jog →
      ¬z.Crossed p (p.reach q a b)) : ComesTo cfg p q m a b := by
  induction m, hm using Nat.le_induction with
  | base => exact comes
  | succ m hm ih =>
    have hz : cfg.zones[m]? = some cfg.zones[m] := by simp [show m < ezMaxZones by omega]
    refine .kept (ih (by omega)) hz (fun cuts => ?_) fun stops => ?_
    · exact unmet m (by omega) hm _ hz cuts.1 cuts.2.2
    · rcases stops with ⟨hf, inside | ⟨_, crossed⟩⟩
      · exact outside _ ⟨m, by omega, hz⟩ hf inside
      · exact unmet m (by omega) hm _ hz hf crossed

end Course

section Claim

variable {k : Nat} {ω : Type} {cfg : EzConfig} {target position : Axes k}

theorem jogAfter_clear (turns : (∃ n < cfg.count, StopsAt cfg position.point target.point n) ∨
      TurnsClear cfg position.point target.point)
    (hcount : cfg.count ≤ ezMaxZones)
    (outside : ∀ z, cfg.Lists z → z.Forbids .jog → position.point ∉ z.interior ezTolerance) {e : Zone}
    (listed : cfg.Lists e) (hf : e.Forbids .jog) :
    e.Clear position.point (jogAfter cfg position target cfg.count).target.point := by
  rcases jogAfter_course position target hcount with
    ⟨_, _, hs⟩ | ⟨running, cur, _, a, b, hs, comes, at_ab⟩
  · rw [hs]
    exact clear_self (outside e listed hf)
  · rw [hs, JogState.target, at_ab]
    have turns := turns.resolve_left running
    obtain ⟨i, hi, slot⟩ := listed
    cases flat : zoneZUndefined e with
    | true => exact comes.clear_flat outside le_rfl hi slot flat hf
    | false => exact comes.clear_deep turns outside le_rfl ⟨i, hi, slot, flat, hf⟩

theorem jogAfter_unmet {n : Nat} {a b : ℚ} (comes : ComesTo cfg position.point target.point n a b)
    (hn : n ≤ cfg.count) (hcount : cfg.count ≤ ezMaxZones)
    (outside : ∀ z, cfg.Lists z → z.Forbids .jog → position.point ∉ z.interior ezTolerance)
    (unmet : ∀ i < cfg.count, n ≤ i → ∀ z, cfg.zones[i]? = some z → z.Forbids .jog →
      ¬z.Crossed position.point (position.point.reach target.point a b)) :
    (jogAfter cfg position target cfg.count).target.point =
      position.point.reach target.point a b := by
  have last := comes.unmet hn le_rfl outside hcount unmet
  rcases jogAfter_course position target hcount with
    ⟨stopped, _⟩ | ⟨_, cur, _, a', b', hs, comes', at_ab⟩
  · exact absurd stopped last.not_stopsAt
  · obtain ⟨rfl, rfl⟩ := last.unique comes'
    rw [hs, JogState.target, at_ab]

/-- The jog that `ez_apply_travel` leaves is safe when it is stopped where it starts, or each turn
that a zone without a depth gives it is clear of the zones before. A turned jog that no later zone
crosses is safe only then. -/
theorem ezApplyTravel_safe (cfg : EzConfig) (hcount : cfg.count ≤ ezMaxZones)
    (hon : cfg.globalEnabled = true) (prev : Option (ApplyHook k ω))
    (hprev : ∀ hook, prev = some hook → ∀ t p e, hook t p e = t) (target position : Axes k)
    (envelope : ω)
    (hp : ∀ z, cfg.Lists z → z.Forbids .jog → position.point ∉ z.interior ezTolerance) :
    ((∃ n < cfg.count, StopsAt cfg position.point target.point n) ∨
        TurnsClear cfg position.point target.point →
      JogSafe cfg prev target position envelope) ∧
    ∀ n < cfg.count, ∀ c r, TurnsAt cfg position.point target.point n c r →
      (∀ m < cfg.count, n < m → ∀ z, cfg.zones[m]? = some z → z.Forbids .jog →
        ¬z.Crossed position.point (position.point.reach target.point r c)) →
      (JogSafe cfg prev target position envelope ↔
        ∀ e, DeepBefore cfg n e → e.Clear position.point (position.point.reach target.point r c)) := by
  rw [jogSafe_iff cfg hcount hon hprev]
  refine ⟨fun turns e listed hf => jogAfter_clear turns hcount hp listed hf, ?_⟩
  intro n hn c r turns unmet
  have comes := turns.course
  obtain ⟨_, z, slot, flat, _⟩ := turns
  rw [jogAfter_unmet comes hn hcount hp unmet]
  constructor
  · rintro safe e ⟨i, hi, he, _, hf⟩
    exact safe e ⟨i, by omega, he⟩ hf
  · rintro clear e ⟨i, hi, he⟩ hf
    by_cases later : n < i
    · exact clear_of_not_crossed (unmet i hi later e he hf)
    · cases deep : zoneZUndefined e with
      | true => exact comes.clear_flat hp hn (by omega) he deep hf
      | false =>
        have other : i ≠ n := by
          rintro rfl
          cases Option.some.inj (slot.symm.trans he)
          rw [flat] at deep
          cases deep
        exact clear e ⟨i, by omega, he, deep, hf⟩

end Claim

theorem shelf_deep {n : Nat} (hn : n < 3) {e : Zone} (he : DeepBefore shelfTable n e) : e = shelf := by
  obtain ⟨i, hi, slot, deep, hf⟩ := he
  rcases (show i = 0 ∨ i = 1 by omega) with rfl | rfl
  · cases Option.some.inj slot
    cases hf.1
  · exact (Option.some.inj slot).symm

/-- The jog rises to Z5 on its way and is turned at the column, away from the shelf. -/
theorem ezApplyTravel_safe_column :
    (ezApplyTravel shelfTable none ⟨100, 0, 5, #v[]⟩ machineZero ()).map (·.1) =
      some ⟨25, 0, 5, #v[]⟩ ∧
    JogSafe shelfTable (none : Option (ApplyHook 0 Unit)) ⟨100, 0, 5, #v[]⟩ machineZero () := by
  refine ⟨by decide +kernel, ?_⟩
  refine (ezApplyTravel_safe shelfTable (by decide) rfl none (by simp) _ _ () machineZero_outside).1
    (Or.inr ?_)
  have above : ∀ x y : ℚ, 0 ≤ y →
      machineZero.point.reach ⟨100, 0, 5⟩ x y ∉ shelf.interior ezTolerance := by
    intro x y rising inside
    have under := (inside.2.2.2.2 (by decide)).2
    simp only [Point.reach, Axes.point, machineZero, shelf, ezTolerance] at under
    linarith
  intro n hn c r turns
  obtain ⟨hr, hc⟩ := turns.pos
  refine ⟨fun e he t h0 _ => ?_, fun m hm _ _ _ _ _ _ _ _ e he x y hx _ steep _ => ?_⟩
  · rw [shelf_deep hn he, toward_reach]
    exact above _ _ (mul_nonneg h0 hc.le)
  · rw [shelf_deep hm he]
    refine above x y ?_
    by_contra! falling
    have low := mul_neg_of_pos_of_neg hr falling
    have high := mul_nonneg hc.le hx
    linarith

/-- A jog that passes above the shelf is cut at the column in X and Y only, and then descends
through the shelf. -/
theorem ezApplyTravel_through_shelf :
    shelfTable.count ≤ ezMaxZones ∧ shelfTable.globalEnabled = true ∧
    (∀ z, shelfTable.Lists z → z.Forbids .jog → machineZero.point ∉ z.interior ezTolerance) ∧
    ∃ result warnings,
      ezApplyTravel shelfTable none ⟨100, 0, -10, #v[]⟩ machineZero () = some (result, warnings) ∧
      ∃ z t, shelfTable.Lists z ∧ z.Forbids .jog ∧ 0 ≤ t ∧ t ≤ 1 ∧
        machineZero.point.toward result.point t ∈ z.interior ezTolerance := by
  refine ⟨by decide, rfl, machineZero_outside, ⟨25, 0, -10, #v[]⟩,
    [⟨"EZ: Jog clipped at exclusion boundary", .warning⟩], by decide +kernel,
    shelf, 3 / 5, ⟨1, by decide, rfl⟩, ⟨rfl, rfl⟩, by norm_num, by norm_num, ?_⟩
  exact pointDeepInZone_iff.mp (by decide +kernel)

end GrblhalSim
