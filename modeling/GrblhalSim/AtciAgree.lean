import GrblhalSim.AtciTravel
import GrblhalSim.ZoneJog

namespace GrblhalSim

open SlabClip

section Agree

variable (s : Atci ℚ)

/-- The zone that `sync_zone0_from_atci` makes of the settings. -/
def Atci.zone0 : Zone := zone0FromAtci s.config.settings

theorem zone0_flat : zoneZUndefined s.zone0 = true := rfl

/-- The rectangle that the hooks enforce, as a zone without a depth. -/
def Atci.rectangle : Zone :=
  ⟨s.atci.xMin, s.atci.yMin, 0, s.atci.xMax, s.atci.yMax, 0, ⟨0x0C⟩⟩

theorem rectangle_flat : zoneZUndefined s.rectangle = true := rfl

theorem deepInside_rectangle (p : Point) :
    s.deepInside p.x p.y = pointDeepInZone s.rectangle p := by
  unfold pointDeepInZone
  rw [rectangle_flat, if_pos rfl]
  show s.deepInside p.x p.y = if !s.deepInside p.x p.y then false else true
  cases s.deepInside p.x p.y <;> rfl

theorem rectangle_slabs (m : ℚ) (p q : Point) : (s.rectangle.slabs m p q).flatMap Slab.sides =
    [(-(q.x - p.x), p.x - s.atci.xMin - m), (q.x - p.x, s.atci.xMax - p.x - m),
      (-(q.y - p.y), p.y - s.atci.yMin - m), (q.y - p.y, s.atci.yMax - p.y - m)] := by
  have slabs : s.rectangle.slabs m p q =
      [⟨p.x, q.x - p.x, s.atci.xMin + m, s.atci.xMax - m⟩,
        ⟨p.y, q.y - p.y, s.atci.yMin + m, s.atci.yMax - m⟩] := rfl
  rw [slabs]
  simp only [List.flatMap_cons, List.flatMap_nil, List.append_nil, Slab.sides, List.cons_append,
    List.nil_append, sub_add_eq_sub_sub, sub_right_comm]

theorem lineIntersects_rectangle (p q : Point) :
    s.lineIntersectsKeepout p.x p.y q.x q.y = segmentIntersectsZone s.rectangle p q := by
  have sides := clipSides_slabs (s.rectangle.slabs ezTolerance p q) ⟨0, 1⟩
  rw [rectangle_slabs] at sides
  have loop : clipSides
      [(-(q.x - p.x), p.x - s.atci.xMin - keepoutTolerance),
        (q.x - p.x, s.atci.xMax - p.x - keepoutTolerance),
        (-(q.y - p.y), p.y - s.atci.yMin - keepoutTolerance),
        (q.y - p.y, s.atci.yMax - p.y - keepoutTolerance)] ⟨0, 1⟩ =
      clipAll (s.rectangle.slabs ezTolerance p q) ⟨0, 1⟩ := sides
  simp only [Atci.lineIntersectsKeepout, loop]
  rfl

theorem calculateClippedPoint_rectangle {k : Nat} (start target : Axes k) :
    s.calculateClippedPoint start target = clipToZoneBoundary s.rectangle start target := by
  have sides := clipSides_slabs (s.rectangle.slabs 0 start.point target.point) ⟨0, 1⟩
  rw [rectangle_slabs] at sides
  simp only [sub_zero] at sides
  have loop : clipSides
      [(-(target.x - start.x), start.x - s.atci.xMin), (target.x - start.x, s.atci.xMax - start.x),
        (-(target.y - start.y), start.y - s.atci.yMin),
        (target.y - start.y, s.atci.yMax - start.y)] ⟨0, 1⟩ =
      clipAll (s.rectangle.slabs 0 start.point target.point) ⟨0, 1⟩ := sides
  simp only [Atci.calculateClippedPoint, clipToZoneBoundary, loop, boundary_slabs, rectangle_flat]
  rfl

/-- A table with no more than slot 0, after its sync. -/
def Atci.zone0Table (cfg : EzConfig) : EzConfig := syncZone0FromAtci s.config.settings cfg

variable {cfg : EzConfig}

theorem zone0Table_slots (only : cfg.count ≤ 1) : List.range (s.zone0Table cfg).count = [0] := by
  have count := syncZone0_count s.config.settings cfg
  rw [max_eq_right only] at count
  exact congrArg List.range count

theorem zone0Table_zone : (s.zone0Table cfg).zones[0]? = some s.zone0 :=
  (syncZone0_zones _ cfg 0).trans (if_pos rfl)

theorem zone0_forbids {op : EzOp} (h : op ≠ .toolchange) : s.zone0.Forbids op := by
  have flags : s.zone0.flags = ⟨0x0C⟩ := rfl
  cases op with
  | toolchange => exact absurd rfl h
  | _ =>
    refine ⟨?_, ?_⟩
    · rw [flags]
      decide
    · simp only [opAllowedInZone, flags]
      decide

end Agree

section Hooks

variable {k : Nat} {σ ω : Type} {s : Atci ℚ} (active : s.isKeepoutActive = true) {cfg : EzConfig}
  (only : cfg.count ≤ 1) (on : cfg.globalEnabled = true)
include active only on

omit active in
theorem ezCheckTravel_zone0 (prev : Option (CheckHook k σ ω)) (planPosition : Option (Axes k))
    (target : Axes k) (axes : σ) (isCartesian : Bool) (envelope : ω) :
    (ezCheckTravel (s.zone0Table cfg) false prev planPosition target axes isCartesian
        envelope).map (·.1) =
      some (if pointDeepInZone s.zone0 target.point ||
          segmentIntersectsZone s.zone0 (planStart planPosition) target.point then false
        else callCheckHook prev target axes isCartesian envelope) := by
  have enabled : (s.zone0Table cfg).globalEnabled = true := on
  have op : currentOp false = .gcode := rfl
  have forbids : s.zone0.Forbids .gcode := zone0_forbids s (by decide)
  simp only [ezCheckTravel, enabled, if_true, zone0Table_slots s only, ezCheckZones,
    zone0Table_zone, bind, Option.bind, op, ezCheckZone, forbids.1, forbids.2]
  cases pointDeepInZone s.zone0 target.point <;>
    cases segmentIntersectsZone s.zone0 (planStart planPosition) target.point <;>
    cases pointDeepInZone s.zone0 (planStart planPosition) <;> rfl

omit only on in
theorem travelLimitsCheck_rectangle (prev : Option (CheckHook k σ ω)) (planPosition : Option (Axes k))
    (target : Axes k) (axes : σ) (isCartesian : Bool) (envelope : ω) :
    (s.travelLimitsCheck prev planPosition target axes isCartesian envelope).1 =
      if pointDeepInZone s.rectangle target.point ||
          segmentIntersectsZone s.rectangle (planStart planPosition) target.point then false
        else callCheckHook prev target axes isCartesian envelope := by
  have deep := deepInside_rectangle s target.point
  have crossing := lineIntersects_rectangle s (planStart planPosition) target.point
  simp only [Axes.point] at deep crossing
  simp only [Atci.travelLimitsCheck, active, deep, crossing, Axes.point]
  by_cases inside : pointDeepInZone s.rectangle ⟨target.x, target.y, target.z⟩ = true
  · cases s.deepInside (planStart planPosition).x (planStart planPosition).y <;> simp [inside]
  · by_cases crosses : segmentIntersectsZone s.rectangle (planStart planPosition)
        ⟨target.x, target.y, target.z⟩ = true
    · cases s.deepInside (planStart planPosition).x (planStart planPosition).y <;>
        simp [inside, crosses]
    · simp [inside, crosses]

/-- Where both jog hooks send a jog, but for the hook that `clipped` tells to be called or not
after a clip. -/
def zone0Jog (z : Zone) (target position : Axes k) (clear clipped : Axes k → Axes k) : Axes k :=
  if pointDeepInZone z position.point then position
  else if pointDeepInZone z target.point || segmentIntersectsZone z position.point target.point then
    match clipToZoneBoundary z position target with
    | some cut => clipped cut
    | none => position
  else clear target

omit active in
theorem ezApplyTravel_zone0 (prev : Option (ApplyHook k ω)) (target position : Axes k)
    (envelope : ω) :
    (ezApplyTravel (s.zone0Table cfg) prev target position envelope).map (·.1) =
      some (zone0Jog s.zone0 target position (callApplyHook prev · position envelope)
        (callApplyHook prev · position envelope)) := by
  have enabled : (s.zone0Table cfg).globalEnabled = true := on
  have forbids : s.zone0.Forbids .jog := zone0_forbids s (by decide)
  simp only [ezApplyTravel, enabled, if_true, zone0Table_slots s only, ezJogZones,
    zone0Table_zone, bind, Option.bind, JogState.step, ezJogZone, forbids.1, forbids.2, zone0Jog]
  cases pointDeepInZone s.zone0 position.point with
  | true => rfl
  | false =>
    cases pointDeepInZone s.zone0 target.point ||
        segmentIntersectsZone s.zone0 position.point target.point with
    | true => cases clipToZoneBoundary s.zone0 position target <;> rfl
    | false => rfl

omit only on in
theorem keepoutApplyTravelLimits_rectangle (prev : Option (ApplyHook k ω)) (target position : Axes k)
    (envelope : ω) :
    (s.keepoutApplyTravelLimits prev target position envelope).1 =
      zone0Jog s.rectangle target position (callApplyHook prev · position envelope) id := by
  have deepStart := deepInside_rectangle s position.point
  have deepTarget := deepInside_rectangle s target.point
  have crossing := lineIntersects_rectangle s position.point target.point
  simp only [Axes.point] at deepStart deepTarget crossing
  simp only [Atci.keepoutApplyTravelLimits, zone0Jog, active, deepStart, deepTarget, crossing,
    calculateClippedPoint_rectangle, Axes.point]
  by_cases inside : pointDeepInZone s.rectangle ⟨position.x, position.y, position.z⟩ = true
  · simp [inside]
  · by_cases meets : pointDeepInZone s.rectangle ⟨target.x, target.y, target.z⟩ = true ∨
        segmentIntersectsZone s.rectangle ⟨position.x, position.y, position.z⟩
          ⟨target.x, target.y, target.z⟩ = true
    · cases clipToZoneBoundary s.rectangle position target <;> simp [inside, meets]
    · simp [inside, meets]

end Hooks

/-- The segment from `p` to `q`, which starts outside, meets the zone's box at `t` first. -/
structure Zone.EnteredAt (z : Zone) (p q : Point) (t : ℚ) : Prop where
  pos : 0 < t
  le_one : t ≤ 1
  inside : p.toward q t ∈ z.box 0
  first : ∀ u, 0 ≤ u → u < t → p.toward q u ∉ z.box 0

theorem enteredAt_iff {z : Zone} {p q : Point} {t : ℚ} :
    z.EnteredAt p q t ↔ 0 < t ∧ EntersAt (z.slabs 0 p q) t := by
  constructor
  · intro h
    refine ⟨h.pos, h.pos.le, h.le_one, slabs_inside.mpr h.inside, fun u hu before inside => ?_⟩
    exact h.first u hu before (slabs_inside.mp inside)
  · rintro ⟨pos, h⟩
    refine ⟨pos, h.le_one, slabs_inside.mp h.inside, fun u hu before inside => ?_⟩
    exact h.first u hu before (slabs_inside.mpr inside)

theorem clipToZoneBoundary_some {k : Nat} {z : Zone} (flat : zoneZUndefined z = true)
    {position target clipped : Axes k} :
    clipToZoneBoundary z position target = some clipped ↔
      ∃ t, z.EnteredAt position.point target.point t ∧ clipped = position.cutXY target t := by
  simp only [enteredAt_iff, entersAt_iff]
  simp only [clipToZoneBoundary, boundary_slabs, flat, Bool.not_true, Bool.false_eq_true, if_false]
  cases clipAll (z.slabs 0 position.point target.point) ⟨0, 1⟩ with
  | none => simp
  | some w =>
    by_cases pos : 0 < w.t0
    · simp only [gt_iff_lt, pos, if_true, Option.some.injEq, exists_eq_left']
      constructor
      · rintro rfl
        exact ⟨w.t0, ⟨pos, rfl⟩, rfl⟩
      · rintro ⟨t, ⟨_, rfl⟩, rfl⟩
        rfl
    · simp only [gt_iff_lt, pos, if_false, reduceCtorEq, false_iff, Option.some.injEq,
        exists_eq_left']
      rintro ⟨t, ⟨positive, rfl⟩, _⟩
      exact pos positive

/-- Where a jog enters the zone that it is to end in or to cross, the previous hook leaves the
point of entry as it is. -/
def HookKeepsEntry {k : Nat} {ω : Type} (z : Zone) (prev : Option (ApplyHook k ω))
    (target position : Axes k) (envelope : ω) : Prop :=
  position.point ∉ z.interior ezTolerance →
    target.point ∈ z.interior ezTolerance ∨ z.Crossed position.point target.point →
    ∀ t, z.EnteredAt position.point target.point t →
      callApplyHook prev (position.cutXY target t) position envelope = position.cutXY target t

theorem zone0Jog_agree {k : Nat} {ω : Type} {z : Zone} (flat : zoneZUndefined z = true)
    (prev : Option (ApplyHook k ω)) (target position : Axes k) (envelope : ω) :
    zone0Jog z target position (callApplyHook prev · position envelope)
        (callApplyHook prev · position envelope) =
      zone0Jog z target position (callApplyHook prev · position envelope) id ↔
      HookKeepsEntry z prev target position envelope := by
  rw [HookKeepsEntry, ← pointDeepInZone_iff, ← pointDeepInZone_iff, ← segmentIntersectsZone_iff]
  by_cases inside : pointDeepInZone z position.point = true
  · simp [zone0Jog, inside]
  · by_cases meets : pointDeepInZone z target.point = true ∨
        segmentIntersectsZone z position.point target.point = true
    · simp only [zone0Jog, inside, meets, Bool.or_eq_true, if_true, if_false, not_false_eq_true,
        true_implies, Bool.false_eq_true]
      cases clip : clipToZoneBoundary z position target with
      | none =>
        refine iff_of_true rfl fun t entered => ?_
        have some_clip := (clipToZoneBoundary_some flat).mpr ⟨t, entered, rfl⟩
        rw [clip] at some_clip
        cases some_clip
      | some clipped =>
        obtain ⟨t, entered, rfl⟩ := (clipToZoneBoundary_some flat).mp clip
        constructor
        · intro same u entered'
          have same_clip := (clipToZoneBoundary_some flat).mpr ⟨u, entered', rfl⟩
          rw [clip] at same_clip
          rw [← Option.some.inj same_clip]
          exact same
        · exact fun keeps => keeps t entered
    · simp [zone0Jog, inside, meets]

/-- With the keepout active and a table of slot 0 only, both plugins give the same verdict, and
leave the same target exactly when the previous hook leaves a clipped one as it is. -/
theorem keepouts_agree_iff {k : Nat} {σ ω : Type} (s : Atci ℚ) (active : s.isKeepoutActive = true)
    (cfg : EzConfig) (only : cfg.count ≤ 1) (on : cfg.globalEnabled = true)
    (prevCheck : Option (CheckHook k σ ω)) (planPosition : Option (Axes k)) (target : Axes k)
    (axes : σ) (isCartesian : Bool) (prevApply : Option (ApplyHook k ω))
    (jogTarget position : Axes k) (envelope : ω) :
    ((ezCheckTravel (s.zone0Table cfg) false prevCheck planPosition target axes isCartesian
          envelope).map (·.1) =
        some (s.keepoutSet.travelLimitsCheck prevCheck planPosition target axes isCartesian
          envelope).1 ∧
      (ezApplyTravel (s.zone0Table cfg) prevApply jogTarget position envelope).map (·.1) =
        some (s.keepoutSet.keepoutApplyTravelLimits prevApply jogTarget position envelope).1) ↔
      HookKeepsEntry s.zone0 prevApply jogTarget position envelope := by
  have enforced : s.keepoutSet.isKeepoutActive = true := active
  have rectangle : s.keepoutSet.rectangle = s.zone0 := rfl
  rw [ezCheckTravel_zone0 only on, travelLimitsCheck_rectangle enforced,
    ezApplyTravel_zone0 only on, keepoutApplyTravelLimits_rectangle enforced, rectangle,
    and_iff_right rfl, Option.some.injEq]
  exact zone0Jog_agree (zone0_flat s) prevApply jogTarget position envelope

def enabledKeepout : Atci ℚ :=
  ⟨⟨10, 10, 50, 50, ⟨1⟩⟩, ⟨0, 0, 0, 0, true, .startup, false⟩, false, ⟨10, 10, 50, 50, ⟨1⟩⟩⟩

def emptyTable : EzConfig := ⟨0, true, Vector.replicate ezMaxZones noZone⟩

theorem keepouts_agree_iff_no_hook :
    (ezApplyTravel (enabledKeepout.zone0Table emptyTable) none ⟨30, 20, 0, #v[]⟩ machineZero ()).map
        (·.1) =
      some (enabledKeepout.keepoutSet.keepoutApplyTravelLimits none ⟨30, 20, 0, #v[]⟩ machineZero
        ()).1 :=
  ((keepouts_agree_iff enabledKeepout rfl emptyTable (by decide) rfl none none machineZero () true
    none ⟨30, 20, 0, #v[]⟩ machineZero ()).mpr fun _ _ _ _ => rfl).2

/-- A previous hook that limits X to 5, and a jog into the rectangle. -/
theorem keepouts_disagree :
    (ezApplyTravel (enabledKeepout.zone0Table emptyTable)
        (some fun (target : Axes 0) _ _ => { target with x := min target.x 5 })
        ⟨30, 20, 0, #v[]⟩ ⟨0, 20, 0, #v[]⟩ ()).map (·.1) ≠
      some (enabledKeepout.keepoutSet.keepoutApplyTravelLimits
        (some fun (target : Axes 0) _ _ => { target with x := min target.x 5 })
        ⟨30, 20, 0, #v[]⟩ ⟨0, 20, 0, #v[]⟩ ()).1 := by
  decide +kernel

end GrblhalSim
