import GrblhalSim.CallRun
import GrblhalSim.ZoneCommand

namespace GrblhalSim

open CallRun SlotTable

/-- The table with records of any kind in its slots: what their bytes mean does not matter. -/
structure EzTable (Z : Type) where
  globalEnabled : Bool
  slots : Slots Z ezMaxZones

/-- A call that reaches into the table, with what it does with one record; `T` is the state that
`ez_apply_travel` carries through its loop. -/
inductive TableCall (Z T : Type)
  | checkTravel (body : Unit → Z → Except Message Unit)
  | applyTravel (body : T → Z → Except T T) (target : T)
  | realtimeReport (body : Option (Unit → Z → Except Unit Unit))
  | exclusion (on : Bool)
  | deleteZone (slot : Nat)
  | setZone (slot : Nat) (zone : Z)
  | listZones (zone0 : Z) (active : Nat → Nat → Z → Nat)
      (lines : List String → Nat → Z → List String)
  | sync (zone0 : Z)
  | other

section Table

variable {Z T : Type}

/-- `ez_load` of an image that `memcpy_from_nvs` reports as OK; `none` when the loop leaves the
table. -/
def EzTable.load (normalize : Z → Z) (image : EzTable Z) : Option (EzTable Z) :=
  (mapSlots normalize (List.range image.slots.count) image.slots.slots).map fun zones =>
    { image with slots := ⟨image.slots.count, zones⟩ }

def EzTable.sync (t : EzTable Z) (zone0 : Z) : Option (EzTable Z) :=
  (writeSlot t.slots.slots 0 zone0).map fun zones =>
    { t with slots := ⟨if t.slots.count < 1 then 1 else t.slots.count, zones⟩ }

def TableCall.apply (blank : Z) (call : TableCall Z T) (t : EzTable Z) : Option (EzTable Z) :=
  match call with
  | .checkTravel body =>
    if t.globalEnabled then
      (scanSlots t.slots.slots body (List.range t.slots.count) ()).map fun _ => t
    else some t
  | .applyTravel body target =>
    if t.globalEnabled then
      (scanSlots t.slots.slots body (List.range t.slots.count) target).map fun _ => t
    else some t
  | .realtimeReport body =>
    match t.globalEnabled, body with
    | true, some body =>
      (scanSlots t.slots.slots body (List.range t.slots.count) ()).map fun _ => t
    | _, _ => some t
  | .exclusion on => some { t with globalEnabled := on }
  | .deleteZone slot =>
    if slot = 0 then some t
    else if t.slots.count ≤ slot then some t
    else (t.slots.delete blank slot).map fun slots => { t with slots := slots }
  | .setZone slot zone =>
    if slot = 0 then some t
    else if ezMaxZones ≤ slot then some t
    else (t.slots.put slot zone).map fun slots => { t with slots := slots }
  | .listZones zone0 active lines => do
    let t ← t.sync zone0
    let _ ← foldSlots t.slots.slots active (List.range t.slots.count) 0
    let _ ← foldSlots t.slots.slots lines (List.range t.slots.count) []
    some t
  | .sync zone0 => t.sync zone0
  | .other => some t

def tableStep (blank : Z) (t : EzTable Z) (call : TableCall Z T) : Except Unit (EzTable Z) :=
  orFault (call.apply blank t)

theorem EzTable.load_some (normalize : Z → Z) {image : EzTable Z}
    (h : image.slots.count ≤ ezMaxZones) :
    ∃ t, image.load normalize = some t ∧ t.slots.count = image.slots.count := by
  obtain ⟨zones, hz, _⟩ :=
    mapSlots_some normalize (range_inside h) List.nodup_range image.slots.slots
  refine ⟨{ image with slots := ⟨image.slots.count, zones⟩ }, ?_, rfl⟩
  rw [EzTable.load, hz, Option.map_some]

theorem EzTable.load_none (normalize : Z → Z) {image : EzTable Z}
    (h : ezMaxZones < image.slots.count) : image.load normalize = none := by
  have behind : ezMaxZones ∈ List.range image.slots.count := List.mem_range.mpr h
  rw [EzTable.load, mapSlots_none normalize behind le_rfl, Option.map_none]

theorem EzTable.sync_some {t : EzTable Z} (h : t.slots.count ≤ ezMaxZones) (zone0 : Z) :
    ∃ t', t.sync zone0 = some t' ∧ t'.slots.count ≤ ezMaxZones := by
  have first : 0 < ezMaxZones := by decide
  obtain ⟨zones, hz, _⟩ := writeSlot_some (v := t.slots.slots) first zone0
  refine ⟨{ t with slots := ⟨if t.slots.count < 1 then 1 else t.slots.count, zones⟩ }, ?_, ?_⟩
  · rw [EzTable.sync, hz, Option.map_some]
  show (if t.slots.count < 1 then 1 else t.slots.count) ≤ ezMaxZones
  split
  next => exact first
  next => exact h

theorem EzTable.delete_some (blank : Z) {t : EzTable Z} (h : t.slots.count ≤ ezMaxZones)
    {slot : Nat} (used : slot < t.slots.count) :
    ∃ t', ((t.slots.delete blank slot).map fun slots => { t with slots := slots }) = some t' ∧
      t'.slots.count ≤ ezMaxZones := by
  obtain ⟨slots, hs, _⟩ := Slots.delete_some blank used h
  refine ⟨{ t with slots := slots }, by rw [hs, Option.map_some], ?_⟩
  rw [Slots.delete_count hs]
  exact (Nat.sub_le _ _).trans h

theorem EzTable.put_some {t : EzTable Z} (h : t.slots.count ≤ ezMaxZones) {slot : Nat}
    (inside : slot < ezMaxZones) (zone : Z) :
    ∃ t', ((t.slots.put slot zone).map fun slots => { t with slots := slots }) = some t' ∧
      t'.slots.count ≤ ezMaxZones := by
  obtain ⟨slots, hs, _⟩ := t.slots.put_some inside zone
  refine ⟨{ t with slots := slots }, by rw [hs, Option.map_some], ?_⟩
  rw [Slots.put_count hs]
  exact max_le h inside

theorem TableCall.apply_some (blank : Z) {t : EzTable Z} (h : t.slots.count ≤ ezMaxZones)
    (call : TableCall Z T) :
    ∃ t', call.apply blank t = some t' ∧ t'.slots.count ≤ ezMaxZones := by
  have unchanged : ∀ {β σ : Type} (body : σ → Z → Except β σ) (s : σ),
      (scanSlots t.slots.slots body (List.range t.slots.count) s).map (fun _ => t) = some t := by
    intro β σ body s
    obtain ⟨r, hr⟩ := scanSlots_some t.slots.slots body (range_inside h) s
    rw [hr, Option.map_some]
  unfold TableCall.apply
  cases call with
  | checkTravel body =>
    refine ⟨t, ?_, h⟩
    cases t.globalEnabled with
    | true => exact unchanged body ()
    | false => rfl
  | applyTravel body target =>
    refine ⟨t, ?_, h⟩
    cases t.globalEnabled with
    | true => exact unchanged body target
    | false => rfl
  | realtimeReport body =>
    refine ⟨t, ?_, h⟩
    cases body with
    | none => cases t.globalEnabled <;> rfl
    | some body =>
      cases t.globalEnabled with
      | true => exact unchanged body ()
      | false => rfl
  | exclusion on => exact ⟨_, rfl, h⟩
  | deleteZone slot =>
    dsimp only
    split
    next => exact ⟨t, rfl, h⟩
    next =>
      split
      next => exact ⟨t, rfl, h⟩
      next used => exact EzTable.delete_some blank h (Nat.lt_of_not_le used)
  | setZone slot zone =>
    dsimp only
    split
    next => exact ⟨t, rfl, h⟩
    next =>
      split
      next => exact ⟨t, rfl, h⟩
      next inside => exact EzTable.put_some h (Nat.lt_of_not_le inside) zone
  | listZones zone0 active lines =>
    obtain ⟨t', ht, range⟩ := EzTable.sync_some h zone0
    obtain ⟨n, hn⟩ := foldSlots_some t'.slots.slots active (range_inside range) 0
    obtain ⟨ls, hl⟩ := foldSlots_some t'.slots.slots lines (range_inside range) []
    exact ⟨t', by simp only [ht, hn, hl, bind, Option.bind], range⟩
  | sync zone0 => exact EzTable.sync_some h zone0
  | other => exact ⟨t, rfl, h⟩

/-- Whatever the slots hold and whatever is called after `ez_load`, every access is inside the
table exactly when the stored count is. -/
theorem table_inside_iff (blank : Z) (normalize : Z → Z) (image : EzTable Z)
    (calls : List (TableCall Z T)) :
    (∃ t, image.load normalize = some t ∧ ∃ t', run (tableStep blank) t calls = .ok t') ↔
      image.slots.count ≤ ezMaxZones := by
  constructor
  · rintro ⟨t, load, _⟩
    by_contra behind
    rw [EzTable.load_none normalize (Nat.lt_of_not_le behind)] at load
    cases load
  · intro h
    obtain ⟨t, load, count⟩ := EzTable.load_some normalize h
    have returns : ∀ (t : EzTable Z) (call : TableCall Z T), t.slots.count ≤ ezMaxZones → True →
        ∃ t', tableStep blank t call = .ok t' ∧ t'.slots.count ≤ ezMaxZones := by
      intro t call range _
      obtain ⟨t', applied, range'⟩ := call.apply_some blank range
      exact ⟨t', by rw [tableStep, applied]; rfl, range'⟩
    obtain ⟨t', hrun, _⟩ :=
      run_ok returns (count.trans_le h) (eachCall_all (fun _ _ => trivial) t calls)
    exact ⟨t, load, t', hrun⟩

end Table

section Zones

def EzConfig.table (cfg : EzConfig) : EzTable Zone := ⟨cfg.globalEnabled, cfg.slots⟩

@[simp] theorem table_zones (cfg : EzConfig) : cfg.table.slots.slots = cfg.zones := rfl

@[simp] theorem table_count (cfg : EzConfig) : cfg.table.slots.count = cfg.count := rfl

theorem ezLoad_table (s : EzState) :
    (s.ezLoad true).map (·.config.table) = s.image.table.load zoneNormalize := by
  simp only [EzState.ezLoad, if_true, EzConfig.normalizeZones, Option.map_map]
  rfl

/-- The loop body of `ez_check_travel` for one move. -/
def checkBody (op : EzOp) (p0 p1 : Point) (_ : Unit) (z : Zone) : Except Message Unit :=
  match ezCheckZone z op p0 p1 with
  | some warning => .error warning
  | none => .ok ()

theorem ezCheckZones_scan (cfg : EzConfig) (op : EzOp) (p0 p1 : Point) (is : List Nat) :
    (ezCheckZones cfg op p0 p1 is).map (fun _ => cfg.table) =
      (scanSlots cfg.zones (checkBody op p0 p1) is ()).map fun _ => cfg.table := by
  induction is with
  | nil => rfl
  | cons i is ih =>
    rw [ezCheckZones, scanSlots]
    cases cfg.zones[i]? with
    | none => rfl
    | some z =>
      simp only [bind, Option.bind, checkBody]
      cases ezCheckZone z op p0 p1 with
      | some warning => rfl
      | none => exact ih

theorem ezCheckTravel_table {k : Nat} {σ ω : Type} (cfg : EzConfig) (tcMacroRunning : Bool)
    (prev : Option (CheckHook k σ ω)) (planPosition : Option (Axes k)) (target : Axes k)
    (axes : σ) (isCartesian : Bool) (envelope : ω) :
    (ezCheckTravel cfg tcMacroRunning prev planPosition target axes isCartesian envelope).map
        (fun _ => cfg.table) =
      (TableCall.checkTravel (T := Unit) (checkBody (currentOp tcMacroRunning)
        (planStart planPosition) target.point)).apply noZone cfg.table := by
  have scan := ezCheckZones_scan cfg (currentOp tcMacroRunning) (planStart planPosition)
    target.point (List.range cfg.count)
  cases on : cfg.globalEnabled with
  | false => simp [ezCheckTravel, TableCall.apply, EzConfig.table, on]
  | true =>
    refine Eq.trans ?_ (scan.trans (if_pos on).symm)
    simp only [ezCheckTravel, on, if_true, bind, Option.bind]
    cases ezCheckZones cfg (currentOp tcMacroRunning) (planStart planPosition) target.point
      (List.range cfg.count) with
    | none => rfl
    | some result => cases result <;> rfl

/-- The loop body of `ez_apply_travel`, on the target and what was reported. -/
def jogBody {k : Nat} (position : Axes k) (s : Axes k × List Message) (z : Zone) :
    Except (Axes k × List Message) (Axes k × List Message) :=
  match ezJogZone z position s.1 with
  | .keep => .ok s
  | .clipped clipped warning => .ok (clipped, s.2 ++ [warning])
  | .blocked warning => .error (position, s.2 ++ [warning])

theorem ezJogZones_scan {k : Nat} (cfg : EzConfig) (position : Axes k) (is : List Nat)
    (target : Axes k) (warnings : List Message) :
    (ezJogZones cfg position is (.running target warnings)).map (fun _ => cfg.table) =
      (scanSlots cfg.zones (jogBody position) is (target, warnings)).map fun _ => cfg.table := by
  induction is generalizing target warnings with
  | nil => rfl
  | cons i is ih =>
    rw [ezJogZones, scanSlots]
    cases cfg.zones[i]? with
    | none => rfl
    | some z =>
      simp only [bind, Option.bind, jogBody, JogState.step]
      cases ezJogZone z position target with
      | keep => exact ih target warnings
      | clipped clipped warning => exact ih clipped (warnings ++ [warning])
      | blocked warning => cases is <;> rfl

theorem ezApplyTravel_table {k : Nat} {ω : Type} (cfg : EzConfig) (prev : Option (ApplyHook k ω))
    (target position : Axes k) (envelope : ω) :
    (ezApplyTravel cfg prev target position envelope).map (fun _ => cfg.table) =
      (TableCall.applyTravel (jogBody position) (target, [])).apply noZone cfg.table := by
  have scan := ezJogZones_scan cfg position (List.range cfg.count) target []
  cases on : cfg.globalEnabled with
  | false => simp [ezApplyTravel, TableCall.apply, EzConfig.table, on]
  | true =>
    refine Eq.trans ?_ (scan.trans (if_pos on).symm)
    simp only [ezApplyTravel, on, if_true, bind, Option.bind]
    cases ezJogZones cfg position (List.range cfg.count) (.running target []) with
    | none => rfl
    | some result => cases result <;> rfl

/-- The loop body of `ez_realtime_report`. -/
def reportBody {k : Nat} (pos : Axes k) (_ : Unit) (z : Zone) : Except Unit Unit :=
  if z.flags.enabled && pointInZone z pos.point then .error () else .ok ()

theorem ezRealtimeReport_table {k : Nat} (cfg : EzConfig) (planPosition : Option (Axes k)) :
    (ezRealtimeReport cfg planPosition).map (fun _ => cfg.table) =
      (TableCall.realtimeReport (T := Unit) (planPosition.map reportBody)).apply noZone
        cfg.table := by
  cases on : cfg.globalEnabled with
  | false => cases planPosition <;> simp [ezRealtimeReport, TableCall.apply, EzConfig.table, on]
  | true =>
    cases planPosition with
    | none => simp [ezRealtimeReport, TableCall.apply, EzConfig.table, on]
    | some pos =>
      simp only [ezRealtimeReport, TableCall.apply, EzConfig.table, EzConfig.slots, on, if_true,
        Option.map_some, bind, Option.bind]
      have body : (fun () z => if z.flags.enabled && pointInZone z pos.point then .error ()
          else .ok ()) = reportBody pos := rfl
      rw [body]
      cases scanSlots cfg.zones (reportBody pos) (List.range cfg.count) () <;> rfl

theorem deleteZone_table (s : EzState) (rest : List Char) :
    (s.deleteZone rest).map (·.1.config.table) =
      (TableCall.deleteZone (T := Unit) (atoi rest % 256).toNat).apply noZone s.config.table := by
  unfold EzState.deleteZone
  generalize (atoi rest % 256).toNat = slot
  by_cases zero : slot = 0
  · simp [TableCall.apply, zero]
  · by_cases unused : s.config.count ≤ slot
    · simp [TableCall.apply, zero, unused]
    · simp only [TableCall.apply, table_count, zero, unused, if_false, bind, Option.bind]
      show _ = (s.config.slots.delete noZone slot).map _
      cases s.config.slots.delete noZone slot <;> rfl

theorem setZone_table (scanFloat : FloatScan) (s : EzState) (rest : List Char) :
    ∃ call : TableCall Zone Unit,
      (s.setZone scanFloat rest).map (·.1.config.table) = call.apply noZone s.config.table := by
  unfold EzState.setZone
  cases sscanfZone scanFloat rest with
  | none => exact ⟨.other, rfl⟩
  | some args =>
    refine ⟨.setZone args.slot args.zone, ?_⟩
    by_cases zero : args.slot = 0
    · simp [TableCall.apply, zero]
    · by_cases outside : ezMaxZones ≤ args.slot
      · simp [TableCall.apply, zero, outside]
      · simp only [TableCall.apply, zero, outside, if_false, bind, Option.bind]
        show _ = (s.config.slots.put args.slot args.zone).map _
        cases s.config.slots.put args.slot args.zone <;> rfl

theorem sync_table (settings : AtciSettings) (cfg : EzConfig) :
    cfg.table.sync (zone0FromAtci settings) = some (syncZone0FromAtci settings cfg).table := by
  have first : 0 < ezMaxZones := by decide
  rw [EzTable.sync, writeSlot, dif_pos first, Option.map_some]
  rfl

theorem listZones_table (settings : AtciSettings) (s : EzState) :
    (s.listZones settings).map (·.1.config.table) =
      (TableCall.listZones (T := Unit) (zone0FromAtci settings)
        (fun active _ z => if z.flags.enabled then active + 1 else active)
        (fun lines i z => if z.flags.enabled then lines ++ [zoneLine i z] else lines)).apply noZone
          s.config.table := by
  simp only [EzState.listZones, TableCall.apply, sync_table, bind, Option.bind, table_zones,
    table_count]
  cases foldSlots (syncZone0FromAtci settings s.config).zones
      (fun active _ z => if z.flags.enabled then active + 1 else active)
      (List.range (syncZone0FromAtci settings s.config).count) 0 with
  | none => rfl
  | some active =>
    cases foldSlots (syncZone0FromAtci settings s.config).zones
        (fun lines i z => if z.flags.enabled then lines ++ [zoneLine i z] else lines)
        (List.range (syncZone0FromAtci settings s.config).count) [] <;> rfl

/-- Each command is a call on the table. -/
theorem ezSysCommand_table (scanFloat : FloatScan) (prev : Option SysCommandHook)
    (settings : AtciSettings) (s : EzState) (sysState : Nat) (line : List Char) :
    ∃ call : TableCall Zone Unit, (ezSysCommand scanFloat prev settings s sysState line).map
      (·.1.config.table) = call.apply noZone s.config.table := by
  unfold ezSysCommand
  split
  next rest _ => exact ⟨.exclusion (rest.head? ≠ some '0'), rfl⟩
  next =>
    split
    next rest _ => exact ⟨_, deleteZone_table s rest⟩
    next =>
      split
      next rest _ => exact setZone_table scanFloat s rest
      next =>
        split
        next => exact ⟨_, listZones_table settings s⟩
        next => cases prev <;> exact ⟨.other, rfl⟩

end Zones

/-- An image whose count byte is 0xFF. -/
theorem erased_count_outside :
    ¬∃ t, EzTable.load zoneNormalize ⟨true, 255, Vector.replicate ezMaxZones noZone⟩ = some t ∧
      ∃ t', run (tableStep (T := Unit) noZone) t [] = .ok t' := by
  rintro ⟨t, load, _⟩
  have outside : ezMaxZones < 255 := by decide
  have behind : ezMaxZones ∈ List.range 255 := List.mem_range.mpr outside
  rw [EzTable.load, mapSlots_none zoneNormalize behind le_rfl] at load
  cases load

end GrblhalSim
