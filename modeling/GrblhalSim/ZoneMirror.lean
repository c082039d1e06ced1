import GrblhalSim.AtciModel
import GrblhalSim.ZoneInvariant

namespace GrblhalSim

open CallRun SlotTable

structure Keepouts where
  ez : EzState
  atci : Atci ℚ

def Keepouts.syncZone0 (s : Keepouts) : Keepouts :=
  { s with ez := { s.ez with config := syncZone0FromAtci s.atci.config.settings s.ez.config } }

/-- What can change the settings or the table; `sync` is the task that `ez_load` adds. -/
inductive MirrorEvent
  | setting (xMin yMin xMax yMax : ℚ)
  | command (sysState : Nat) (line : List Char)
  | sync
  | save
  | load (ok : Bool)
  | restore

def mirrorStep (scanFloat : FloatScan) (prev : Option SysCommandHook) (s : Keepouts)
    (e : MirrorEvent) : Except Unit Keepouts :=
  orFault <|
    match e with
    | .setting xMin yMin xMax yMax =>
      let config := ⟨xMin, yMin, xMax, yMax, s.atci.config.flags⟩
      some { s with atci := { s.atci with config := config }.atciSave }
    | .command sysState line =>
      (ezSysCommand scanFloat prev s.atci.config.settings s.ez sysState line).map fun r =>
        { s with ez := r.1 }
    | .sync => some s.syncZone0
    | .save => some { s with ez := s.ez.ezSave }
    | .load ok => (s.ez.ezLoad ok).map fun ez => { s with ez := ez }
    | .restore => some { s with ez := s.ez.ezRestore }

/-- The zone is closed to G-code and jogs and open to tool changes, whatever the depth. -/
structure Zone.Reserved (z : Zone) : Prop where
  enabled : z.flags.enabled = true
  gcode : z.flags.allowGcode = false
  jog : z.flags.allowJog = false
  toolchange : z.flags.allowToolchange = true
  zMin : z.zMin = 0
  zMax : z.zMax = 0

/-- The zone has the rectangle of the settings, with its limits in order. -/
structure Zone.Mirrors (z : Zone) (c : AtciConfig ℚ) : Prop where
  reserved : z.Reserved
  xMin : z.xMin = min c.xMin c.xMax
  xMax : z.xMax = max c.xMin c.xMax
  yMin : z.yMin = min c.yMin c.yMax
  yMax : z.yMax = max c.yMin c.yMax

structure Mirrored (s : Keepouts) : Prop where
  used : 1 ≤ s.ez.config.count
  zone0 : ∃ z, s.ez.config.zones[0]? = some z ∧ z.Mirrors s.atci.config

/-- Limits in either order that bound the same interval. -/
def SameInterval (a b c d : ℚ) : Prop := min a b = min c d ∧ max a b = max c d

/-- The stored slot 0 is in use and has the rectangle of the settings. -/
def EzConfig.StoresRectangle (image : EzConfig) (c : AtciConfig ℚ) : Prop :=
  1 ≤ image.count ∧ ∃ z, image.zones[0]? = some z ∧ z.Reserved ∧
    SameInterval z.xMin z.xMax c.xMin c.xMax ∧ SameInterval z.yMin z.yMax c.yMin c.yMax

/-- New settings describe the same rectangle, a load finds it stored, and there is no restore. -/
def KeepsMirror (s : Keepouts) : MirrorEvent → Prop
  | .setting xMin yMin xMax yMax =>
    SameInterval xMin xMax s.atci.config.xMin s.atci.config.xMax ∧
      SameInterval yMin yMax s.atci.config.yMin s.atci.config.yMax
  | .load ok => ok = true ∧ s.ez.image.StoresRectangle s.atci.config
  | .restore => False
  | _ => True

structure InRange (s : EzState) : Prop where
  config : s.config.count ≤ ezMaxZones
  image : s.image.count ≤ ezMaxZones

theorem zone0_reserved (settings : AtciSettings) : (zone0FromAtci settings).Reserved := by
  have flags : (zone0FromAtci settings).flags = ⟨0x0C⟩ := rfl
  refine ⟨?_, ?_, ?_, ?_, rfl, rfl⟩ <;> rw [flags] <;> decide

theorem zone0_mirrors (c : AtciConfig ℚ) : (zone0FromAtci c.settings).Mirrors c :=
  ⟨zone0_reserved c.settings, rfl, rfl, rfl, rfl⟩

theorem syncZone0_mirrored (s : Keepouts) : Mirrored s.syncZone0 := by
  refine ⟨?_, zone0FromAtci s.atci.config.settings, ?_, zone0_mirrors s.atci.config⟩
  · show 1 ≤ (syncZone0FromAtci s.atci.config.settings s.ez.config).count
    rw [syncZone0_count]
    exact le_max_right _ _
  · show (syncZone0FromAtci s.atci.config.settings s.ez.config).zones[0]? = _
    rw [syncZone0_zones, if_pos rfl]

theorem InRange.sync {s : EzState} (h : InRange s) (settings : AtciSettings) :
    InRange { s with config := syncZone0FromAtci settings s.config } := by
  refine ⟨?_, h.image⟩
  show (syncZone0FromAtci settings s.config).count ≤ ezMaxZones
  rw [syncZone0_count]
  exact max_le h.config (by decide)

theorem InRange.saved {s : EzState} {cfg : EzConfig} (h : cfg.count ≤ ezMaxZones) :
    InRange { s with config := cfg }.ezSave :=
  ⟨h, h⟩

theorem InRange.command {s s' : EzState} {settings : AtciSettings} (h : InRange s)
    (effect : CommandEffect settings s s') : InRange s' := by
  cases effect with
  | nothing => exact h
  | enabled on => exact InRange.saved h.config
  | @deleted slot slots user used delete =>
    refine InRange.saved ?_
    show slots.count ≤ ezMaxZones
    rw [Slots.delete_count delete]
    exact (Nat.sub_le _ _).trans h.config
  | @set slot written slots user inside ordered put =>
    refine InRange.saved ?_
    show slots.count ≤ ezMaxZones
    rw [Slots.put_count put]
    exact max_le h.config inside
  | synced => exact h.sync settings

/-- No command touches slot 0 but by a sync with the current settings. -/
theorem Mirrored.command {s : Keepouts} (h : Mirrored s) (range : InRange s.ez) {ez : EzState}
    (effect : CommandEffect s.atci.config.settings s.ez ez) : Mirrored { s with ez := ez } := by
  obtain ⟨used, z, hz, mirrors⟩ := h
  cases effect with
  | nothing => exact ⟨used, z, hz, mirrors⟩
  | enabled on => exact ⟨used, z, hz, mirrors⟩
  | @deleted slot slots user inUse delete =>
    obtain ⟨t, ht, count, get⟩ :=
      Slots.delete_some (s := s.ez.config.slots) noZone inUse range.config
    cases delete.symm.trans ht
    have many : slot < s.ez.config.slots.count := inUse
    refine ⟨?_, z, ?_, mirrors⟩
    · show 1 ≤ slots.count
      omega
    · show slots.slots[0]? = some z
      rw [get, if_neg (by omega), if_neg (by omega)]
      exact hz
  | @set slot written slots user inside ordered put =>
    obtain ⟨t, ht, count, get⟩ := s.ez.config.slots.put_some inside written
    cases put.symm.trans ht
    refine ⟨?_, z, ?_, mirrors⟩
    · show 1 ≤ slots.count
      rw [count]
      exact used.trans (le_max_left _ _)
    · show slots.slots[0]? = some z
      rw [get, if_neg (by omega)]
      exact hz
  | synced => exact syncZone0_mirrored s

theorem zoneNormalize_mirrors (z : Zone) (c : AtciConfig ℚ) :
    (zoneNormalize z).Mirrors c ↔ z.Reserved ∧ SameInterval z.xMin z.xMax c.xMin c.xMax ∧
      SameInterval z.yMin z.yMax c.yMin c.yMax := by
  rw [zoneNormalize_eq]
  constructor
  · rintro ⟨⟨enabled, gcode, jog, toolchange, zMin, zMax⟩, xMin, xMax, yMin, yMax⟩
    have low : min z.zMin z.zMax = 0 := zMin
    have high : max z.zMin z.zMax = 0 := zMax
    obtain ⟨zMin, zMax⟩ : z.zMin = 0 ∧ z.zMax = 0 := by
      constructor <;> apply le_antisymm
      · exact high ▸ le_max_left _ _
      · exact low ▸ min_le_left _ _
      · exact high ▸ le_max_right _ _
      · exact low ▸ min_le_right _ _
    exact ⟨⟨enabled, gcode, jog, toolchange, zMin, zMax⟩, ⟨xMin, xMax⟩, ⟨yMin, yMax⟩⟩
  · rintro ⟨⟨enabled, gcode, jog, toolchange, zMin, zMax⟩, ⟨xMin, xMax⟩, ⟨yMin, yMax⟩⟩
    have low : min z.zMin z.zMax = 0 := by rw [zMin, zMax, min_self]
    have high : max z.zMin z.zMax = 0 := by rw [zMin, zMax, max_self]
    exact ⟨⟨enabled, gcode, jog, toolchange, low, high⟩, xMin, xMax, yMin, yMax⟩

theorem ezLoad_stored {s : EzState} (h : s.image.count ≤ ezMaxZones) :
    ∃ s', s.ezLoad true = some s' ∧ s'.image = s.image ∧ s'.config.count = s.image.count ∧
      (1 ≤ s.image.count → s'.config.zones[0]? = s.image.zones[0]?.map zoneNormalize) := by
  obtain ⟨zones, hz, get⟩ :=
    mapSlots_some zoneNormalize (range_inside h) List.nodup_range s.image.zones
  refine ⟨{ s with config := { s.image with zones := zones } }, ?_, rfl, rfl, fun used => ?_⟩
  · simp [EzState.ezLoad, EzConfig.normalizeZones, hz]
  · show zones[0]? = s.image.zones[0]?.map zoneNormalize
    rw [get, if_pos (List.mem_range.mpr used)]

theorem ezLoad_failed (s : EzState) : s.ezLoad false = some s.ezRestore := rfl

theorem InRange.restore (s : EzState) : InRange s.ezRestore := ⟨Nat.zero_le _, Nat.zero_le _⟩

theorem restore_not_mirrored (s : Keepouts) : ¬Mirrored { s with ez := s.ez.ezRestore } :=
  fun h => Nat.not_succ_le_zero 0 h.used

theorem mirrorStep_mirrored {scanFloat : FloatScan} {prev : Option SysCommandHook} {s : Keepouts}
    (range : InRange s.ez) (h : Mirrored s) (e : MirrorEvent) :
    ∃ s', mirrorStep scanFloat prev s e = .ok s' ∧ InRange s'.ez ∧
      (Mirrored s' ↔ KeepsMirror s e) := by
  cases e with
  | setting xMin yMin xMax yMax =>
    refine ⟨_, rfl, range, ?_⟩
    obtain ⟨used, z, hz, reserved, zx, zx', zy, zy'⟩ := h
    constructor
    · rintro ⟨_, w, hw, _, wx, wx', wy, wy'⟩
      cases hz.symm.trans hw
      exact ⟨⟨wx.symm.trans zx, wx'.symm.trans zx'⟩, ⟨wy.symm.trans zy, wy'.symm.trans zy'⟩⟩
    · rintro ⟨⟨sx, sx'⟩, ⟨sy, sy'⟩⟩
      exact ⟨used, z, hz, reserved, zx.trans sx.symm, zx'.trans sx'.symm, zy.trans sy.symm,
        zy'.trans sy'.symm⟩
  | command sysState line =>
    obtain ⟨ez, reply, call, effect⟩ :=
      ezSysCommand_effect range.config scanFloat prev s.atci.config.settings sysState line
    refine ⟨{ s with ez := ez }, by simp [mirrorStep, call, orFault], range.command effect, ?_⟩
    exact iff_of_true (h.command range effect) trivial
  | sync => exact ⟨_, rfl, range.sync _, iff_of_true (syncZone0_mirrored s) trivial⟩
  | save => exact ⟨_, rfl, InRange.saved range.config, iff_of_true ⟨h.used, h.zone0⟩ trivial⟩
  | load ok =>
    cases ok with
    | false =>
      refine ⟨{ s with ez := s.ez.ezRestore }, by simp [mirrorStep, ezLoad_failed, orFault],
        InRange.restore _, iff_of_false (restore_not_mirrored s) ?_⟩
      exact fun keeps => Bool.false_ne_true keeps.1
    | true =>
      obtain ⟨ez, hload, image, count, zone0⟩ := ezLoad_stored range.image
      refine ⟨{ s with ez := ez }, by simp [mirrorStep, hload, orFault],
        ⟨count ▸ range.image, image ▸ range.image⟩, ?_⟩
      constructor
      · rintro ⟨used, w, hw, mirrors⟩
        have stored : 1 ≤ s.ez.image.count := count ▸ used
        obtain ⟨z, hz, rfl⟩ := Option.map_eq_some_iff.mp ((zone0 stored).symm.trans hw)
        exact ⟨rfl, stored, z, hz, (zoneNormalize_mirrors z _).mp mirrors⟩
      · rintro ⟨_, stored, z, hz, same⟩
        refine ⟨count ▸ stored, zoneNormalize z, ?_, (zoneNormalize_mirrors z _).mpr same⟩
        exact (zone0 stored).trans (by rw [hz, Option.map_some])
  | restore =>
    exact ⟨_, rfl, InRange.restore _, iff_of_false (restore_not_mirrored s) id⟩

/-- After the first sync, slot 0 mirrors the settings in every state exactly when no event changes
the rectangle, restores the table or loads another one. -/
theorem zone0_mirrors_iff (scanFloat : FloatScan) (prev : Option SysCommandHook) (s : Keepouts)
    (range : InRange s.ez) (events : List MirrorEvent) :
    EachState (mirrorStep scanFloat prev) Mirrored s.syncZone0 events ↔
      EachCall (mirrorStep scanFloat prev) KeepsMirror s.syncZone0 events :=
  eachState_iff
    (fun s e (range : InRange s.ez) mirrored _ => mirrorStep_mirrored range mirrored e)
    (range.sync _)
    (syncZone0_mirrored s) (eachCall_all (fun _ _ => trivial) _ _)

def factoryKeepouts : Keepouts :=
  let blank : EzConfig := ⟨0, true, Vector.replicate ezMaxZones noZone⟩
  let config : AtciConfig ℚ := ⟨10, 10, 50, 50, ⟨0⟩⟩
  ⟨⟨blank, blank⟩, ⟨config, ⟨10, 10, 50, 50, true, .startup, false⟩, false, config⟩⟩

theorem factory_inRange : InRange factoryKeepouts.ez := ⟨Nat.zero_le _, Nat.zero_le _⟩

/-- A `%f` of a number without a decimal point. -/
def scanWhole : FloatScan := fun s => (scanInteger s).map fun r => (r.1, r.2)

/-- Zone 1 is set, which stores the table, the table is loaded again, and the X limits change
places. -/
def storedRun : List MirrorEvent :=
  [.command 0 "ZONE=1,0,0,0,5,5,0".toList, .load true, .sync, .setting 50 10 10 50]

theorem storedRun_keeps :
    EachCall (mirrorStep scanWhole none) KeepsMirror factoryKeepouts.syncZone0 storedRun := by
  refine ⟨trivial, fun placed placing => ?_⟩
  obtain ⟨count, zone0, config⟩ : placed.ez.image.count = 2 ∧
      placed.ez.image.zones[0]? = some (zone0FromAtci factoryKeepouts.atci.config.settings) ∧
      placed.atci.config = factoryKeepouts.atci.config := by
    cases placing
    exact ⟨rfl, rfl, rfl⟩
  have stored : placed.ez.image.StoresRectangle placed.atci.config := by
    refine ⟨by omega, _, zone0, zone0_reserved _, ?_⟩
    rw [config]
    exact ⟨⟨by decide, by decide⟩, by decide, by decide⟩
  refine ⟨⟨rfl, stored⟩, fun loaded loading => ⟨trivial, fun synced syncing => ?_⟩⟩
  have same : synced.atci.config = factoryKeepouts.atci.config := by
    cases found : placed.ez.ezLoad true with
    | none => simp [mirrorStep, found, orFault] at loading
    | some ez =>
      simp only [mirrorStep, found, Option.map_some, orFault] at loading
      cases loading
      cases syncing
      exact config
  refine ⟨?_, fun _ _ => trivial⟩
  show SameInterval 50 10 synced.atci.config.xMin _ ∧ SameInterval 10 50 synced.atci.config.yMin _
  rw [same]
  exact ⟨⟨by decide, by decide⟩, by decide, by decide⟩

theorem zone0_mirrors_iff_stored :
    EachState (mirrorStep scanWhole none) Mirrored factoryKeepouts.syncZone0 storedRun :=
  (zone0_mirrors_iff scanWhole none factoryKeepouts factory_inRange _).mpr storedRun_keeps

/-- A change of the settings after the first sync leaves the old rectangle in slot 0. -/
theorem setting_not_mirrored : ¬EachState (mirrorStep (fun _ => none) none) Mirrored
    factoryKeepouts.syncZone0 [.setting 0 0 5 5] := by
  intro h
  obtain ⟨_, z, hz, mirrors⟩ := h.2 _ rfl
  have stale : some (zone0FromAtci factoryKeepouts.atci.config.settings) = some z := hz
  have xMin := mirrors.xMin
  rw [← Option.some.inj stale] at xMin
  revert xMin
  decide

end GrblhalSim
