import GrblhalSim.CallRun
import GrblhalSim.ZoneCommand

namespace GrblhalSim

open CallRun SlotTable

/-- All that a command can do to the table. -/
inductive CommandEffect (settings : AtciSettings) (s : EzState) : EzState → Prop
  | nothing : CommandEffect settings s s
  | enabled (on : Bool) :
      CommandEffect settings s { s with config := { s.config with globalEnabled := on } }.ezSave
  | deleted {slot : Nat} {slots : Slots Zone ezMaxZones} (user : 0 < slot)
      (used : slot < s.config.count) (delete : s.config.slots.delete noZone slot = some slots) :
      CommandEffect settings s { s with config := s.config.withSlots slots }.ezSave
  | set {slot : Nat} {z : Zone} {slots : Slots Zone ezMaxZones} (user : 0 < slot)
      (inside : slot < ezMaxZones) (ordered : z.Ordered)
      (put : s.config.slots.put slot z = some slots) :
      CommandEffect settings s { s with config := s.config.withSlots slots }.ezSave
  | synced : CommandEffect settings s { s with config := syncZone0FromAtci settings s.config }

section Command

variable {s : EzState} (hc : s.config.count ≤ ezMaxZones)
include hc

theorem deleteZone_effect (settings : AtciSettings) (rest : List Char) :
    ∃ s' reply, s.deleteZone rest = some (s', reply) ∧ CommandEffect settings s s' := by
  unfold EzState.deleteZone
  generalize (atoi rest % 256).toNat = slot
  by_cases zero : slot = 0
  · exact ⟨s, .reserved, by simp [zero], .nothing⟩
  · by_cases unused : s.config.count ≤ slot
    · exact ⟨s, .invalid, by simp [zero, unused], .nothing⟩
    · obtain ⟨slots, delete, _, _⟩ :=
        Slots.delete_some noZone (s := s.config.slots) (Nat.lt_of_not_le unused) hc
      simp only [zero, unused, if_false, delete, bind, Option.bind]
      exact ⟨_, _, rfl, .deleted (Nat.pos_of_ne_zero zero) (Nat.lt_of_not_le unused) delete⟩

omit hc in
theorem setZone_effect (settings : AtciSettings) (scanFloat : FloatScan) (rest : List Char) :
    ∃ s' reply, s.setZone scanFloat rest = some (s', reply) ∧ CommandEffect settings s s' := by
  unfold EzState.setZone
  cases sscanfZone scanFloat rest with
  | none => exact ⟨s, .invalid, rfl, .nothing⟩
  | some args =>
    by_cases zero : args.slot = 0
    · exact ⟨s, .reserved, by simp [zero], .nothing⟩
    · by_cases outside : ezMaxZones ≤ args.slot
      · exact ⟨s, .invalid, by simp [zero, outside], .nothing⟩
      · obtain ⟨slots, put, _, _⟩ := s.config.slots.put_some (Nat.lt_of_not_le outside) args.zone
        simp only [zero, outside, if_false, put, bind, Option.bind]
        exact ⟨_, _, rfl, .set (Nat.pos_of_ne_zero zero) (Nat.lt_of_not_le outside)
          (zoneNormalize_ordered _) put⟩

theorem listZones_effect (settings : AtciSettings) :
    ∃ s' reply, s.listZones settings = some (s', reply) ∧ CommandEffect settings s s' := by
  have synced : (syncZone0FromAtci settings s.config).count ≤ ezMaxZones := by
    rw [syncZone0_count]
    exact max_le hc (by decide)
  have inside := range_inside synced
  obtain ⟨active, ha⟩ := foldSlots_some (syncZone0FromAtci settings s.config).zones
    (fun (active : Nat) _ (z : Zone) => if z.flags.enabled then active + 1 else active) inside 0
  obtain ⟨lines, hl⟩ := foldSlots_some (syncZone0FromAtci settings s.config).zones
    (fun (lines : List String) i (z : Zone) =>
      if z.flags.enabled then lines ++ [zoneLine i z] else lines) inside []
  simp only [EzState.listZones, ha, hl, bind, Option.bind]
  exact ⟨_, _, rfl, .synced⟩

theorem ezSysCommand_effect (scanFloat : FloatScan) (prev : Option SysCommandHook)
    (settings : AtciSettings) (sysState : Nat) (line : List Char) :
    ∃ s' reply, ezSysCommand scanFloat prev settings s sysState line = some (s', reply) ∧
      CommandEffect settings s s' := by
  unfold ezSysCommand
  split
  next rest _ => exact ⟨_, _, rfl, .enabled _⟩
  next =>
    split
    next rest _ => exact deleteZone_effect hc settings rest
    next =>
      split
      next rest _ => exact setZone_effect settings scanFloat rest
      next =>
        split
        next => exact listZones_effect hc settings
        next => cases prev <;> exact ⟨_, _, rfl, .nothing⟩

end Command

/-- The table is in range, its unused slots are zero, and every zone has its bounds in order. -/
structure TableInv (cfg : EzConfig) : Prop where
  tidy : cfg.slots.Tidy noZone
  ordered : cfg.slots.All Zone.Ordered

/-- The live table and the stored one are well formed and hold the same user zones. -/
structure StoreInv (s : EzState) : Prop where
  config : TableInv s.config
  image : TableInv s.image
  enabled : s.image.globalEnabled = s.config.globalEnabled
  user : ∀ i, 1 ≤ i → s.image.zones[i]? = s.config.zones[i]?

theorem TableInv.sync {cfg : EzConfig} (h : TableInv cfg) (settings : AtciSettings) :
    TableInv (syncZone0FromAtci settings cfg) := by
  have size : ezMaxZones = 16 := rfl
  have := h.tidy.count_le
  refine ⟨⟨?_, fun j hj hn => ?_⟩, fun j z hz => ?_⟩
  · show (syncZone0FromAtci settings cfg).count ≤ ezMaxZones
    rw [syncZone0_count]
    exact max_le this (by decide)
  · have used : (syncZone0FromAtci settings cfg).count ≤ j := hj
    rw [syncZone0_count] at used
    show (syncZone0FromAtci settings cfg).zones[j]? = some noZone
    rw [syncZone0_zones, if_neg (by omega)]
    exact h.tidy.blank j (le_of_max_le_left used) hn
  · have at_j : (syncZone0FromAtci settings cfg).zones[j]? = some z := hz
    rw [syncZone0_zones] at at_j
    split at at_j
    next => cases at_j; exact zone0FromAtci_ordered settings
    next => exact h.ordered j z at_j

theorem StoreInv.saved {s : EzState} {cfg : EzConfig} (h : TableInv cfg) :
    StoreInv { s with config := cfg }.ezSave :=
  ⟨h, h, rfl, fun _ _ => rfl⟩

theorem StoreInv.sync {s : EzState} (h : StoreInv s) (settings : AtciSettings) :
    StoreInv { s with config := syncZone0FromAtci settings s.config } := by
  refine ⟨h.config.sync settings, h.image, h.enabled, fun i hi => ?_⟩
  show s.image.zones[i]? = (syncZone0FromAtci settings s.config).zones[i]?
  rw [syncZone0_zones, if_neg (by omega), h.user i hi]

theorem StoreInv.command {s s' : EzState} {settings : AtciSettings} (h : StoreInv s)
    (effect : CommandEffect settings s s') : StoreInv s' := by
  cases effect with
  | nothing => exact h
  | enabled on => exact StoreInv.saved ⟨h.config.tidy, h.config.ordered⟩
  | deleted user used delete =>
    exact StoreInv.saved ⟨h.config.tidy.delete used delete,
      h.config.ordered.delete noZone_ordered used h.config.tidy.count_le delete⟩
  | set user inside ordered put =>
    exact StoreInv.saved ⟨h.config.tidy.put inside put, h.config.ordered.put ordered inside put⟩
  | synced => exact h.sync settings

theorem StoreInv.restore (s : EzState) : StoreInv s.ezRestore := by
  have blank : ∀ j, j < ezMaxZones → (Vector.replicate ezMaxZones noZone)[j]? = some noZone :=
    fun j hj => by simp [hj]
  refine StoreInv.saved ⟨⟨Nat.zero_le _, fun j _ hj => blank j hj⟩, fun j z hz => ?_⟩
  have at_j : (Vector.replicate ezMaxZones noZone)[j]? = some z := hz
  rw [blank j (Vector.getElem?_eq_some_iff.mp at_j).1] at at_j
  cases at_j
  exact noZone_ordered

/-- The loop of `ez_load` changes nothing in a table whose zones are in order. -/
theorem TableInv.normalizeZones {cfg : EzConfig} (h : TableInv cfg) :
    cfg.normalizeZones = some cfg := by
  have inRange : cfg.count ≤ ezMaxZones := h.tidy.count_le
  obtain ⟨zones, hz, get⟩ :=
    mapSlots_some zoneNormalize (range_inside inRange) List.nodup_range cfg.zones
  have same : zones = cfg.zones := by
    apply slots_ext
    intro j
    rw [get]
    split
    next =>
      cases at_j : cfg.zones[j]? with
      | none => rfl
      | some z => rw [Option.map_some, zoneNormalize_of_ordered (h.ordered j z at_j)]
    next => rfl
  rw [EzConfig.normalizeZones, hz, Option.map_some, same]

theorem StoreInv.load {s : EzState} (h : StoreInv s) :
    s.ezLoad true = some { s with config := s.image } := by
  have kept : EzConfig.normalizeZones { s with config := s.image }.config = some s.image :=
    h.image.normalizeZones
  simp only [EzState.ezLoad, if_true, kept, Option.map_some]

inductive EzEvent
  | command (settings : AtciSettings) (sysState : Nat) (line : List Char)
  | sync (settings : AtciSettings)
  | save
  | load

/-- One event, while `memcpy_from_nvs` returns what was last stored. -/
def ezStep (scanFloat : FloatScan) (prev : Option SysCommandHook) (s : EzState) (e : EzEvent) :
    Except Unit EzState :=
  orFault <|
    match e with
    | .command settings sysState line =>
      (ezSysCommand scanFloat prev settings s sysState line).map (·.1)
    | .sync settings => some { s with config := syncZone0FromAtci settings s.config }
    | .save => some s.ezSave
    | .load => s.ezLoad true

theorem StoreInv.step {scanFloat : FloatScan} {prev : Option SysCommandHook} {s : EzState}
    (h : StoreInv s) (e : EzEvent) : ∃ s', ezStep scanFloat prev s e = .ok s' ∧ StoreInv s' := by
  cases e with
  | command settings sysState line =>
    obtain ⟨s', reply, call, effect⟩ :=
      ezSysCommand_effect h.config.tidy.count_le scanFloat prev settings sysState line
    exact ⟨s', by simp [ezStep, call, orFault], h.command effect⟩
  | sync settings => exact ⟨_, rfl, h.sync settings⟩
  | save => exact ⟨_, rfl, StoreInv.saved h.config⟩
  | load =>
    refine ⟨{ s with config := s.image }, by simp [ezStep, h.load, orFault], ?_⟩
    exact ⟨h.image, h.image, rfl, fun _ _ => rfl⟩

theorem StoreInv.next {scanFloat : FloatScan} {prev : Option SysCommandHook} {s s' : EzState}
    {e : EzEvent} (h : StoreInv s) (hs : ezStep scanFloat prev s e = .ok s') : StoreInv s' := by
  obtain ⟨t, ht, inv⟩ := h.step e
  cases ht.symm.trans hs
  exact inv

/-- The zone table and its stored image, as every operation is to leave them. -/
structure TableSound (s : EzState) : Prop where
  inRange : s.config.count ≤ ezMaxZones
  unusedZero : ∀ i, s.config.count ≤ i → i < ezMaxZones → s.config.zones[i]? = some noZone
  ordered : ∀ (i : Nat) z, s.config.zones[i]? = some z → z.Ordered
  enabledStored : s.image.globalEnabled = s.config.globalEnabled
  zonesStored : ∀ i, 1 ≤ i → i < ezMaxZones → s.image.zones[i]? = s.config.zones[i]?
  reload : ∃ s', s.ezLoad true = some s' ∧ s'.config.globalEnabled = s.config.globalEnabled ∧
    ∀ i, 1 ≤ i → i < ezMaxZones → s'.config.zones[i]? = s.config.zones[i]?

theorem StoreInv.sound {s : EzState} (h : StoreInv s) : TableSound s where
  inRange := h.config.tidy.count_le
  unusedZero := h.config.tidy.blank
  ordered := h.config.ordered
  enabledStored := h.enabled
  zonesStored i hi _ := h.user i hi
  reload := ⟨_, h.load, h.enabled, fun i hi _ => h.user i hi⟩

/-- Whatever happens to the table after `ez_restore`, every call returns and every state is
sound. -/
theorem zone_table_sound (scanFloat : FloatScan) (prev : Option SysCommandHook) (s : EzState)
    (events : List EzEvent) :
    (∃ s', run (ezStep scanFloat prev) s.ezRestore events = .ok s') ∧
      EachState (ezStep scanFloat prev) TableSound s.ezRestore events := by
  have every : EachCall (ezStep scanFloat prev) (fun _ _ => True) s.ezRestore events :=
    eachCall_all (fun _ _ => trivial) _ _
  constructor
  · obtain ⟨s', hrun, _⟩ := run_ok (fun s e h _ => h.step e) (StoreInv.restore s) every
    exact ⟨s', hrun⟩
  · have kept := eachState_of_inv (fun _ _ _ h _ hs => StoreInv.next h hs) (StoreInv.restore s) every
    exact kept.mono fun _ h => h.sound

end GrblhalSim
