import GrblhalSim.SlotTable
import GrblhalSim.ZoneCheck

namespace GrblhalSim

open SlotTable

def EzConfig.slots (cfg : EzConfig) : Slots Zone ezMaxZones := ⟨cfg.count, cfg.zones⟩

def EzConfig.withSlots (cfg : EzConfig) (s : Slots Zone ezMaxZones) : EzConfig :=
  ⟨s.count, cfg.globalEnabled, s.slots⟩

/-- What `setting_get_details` and `setting_get_float_value` give for $684-$687; `none` for a
setting that does not exist. -/
structure AtciSettings where
  xMin : Option ℚ
  yMin : Option ℚ
  xMax : Option ℚ
  yMax : Option ℚ

/-- The rectangle that `sync_zone0_from_atci` puts in slot 0. -/
def zone0FromAtci (settings : AtciSettings) : Zone :=
  let x0 := settings.xMin.getD 0
  let y0 := settings.yMin.getD 0
  let x1 := settings.xMax.getD 0
  let y1 := settings.yMax.getD 0
  ⟨min x0 x1, min y0 y1, 0, max x0 x1, max y0 y1, 0, ⟨0x0C⟩⟩

def syncZone0FromAtci (settings : AtciSettings) (cfg : EzConfig) : EzConfig :=
  { cfg with
    count := if cfg.count < 1 then 1 else cfg.count
    zones := cfg.zones.set 0 (zone0FromAtci settings) (by decide) }

def zoneNormalize (z : Zone) : Zone :=
  let z := if z.xMin > z.xMax then { z with xMin := z.xMax, xMax := z.xMin } else z
  let z := if z.yMin > z.yMax then { z with yMin := z.yMax, yMax := z.yMin } else z
  if z.zMin > z.zMax then { z with zMin := z.zMax, zMax := z.zMin } else z

/-- The static `config` and the bytes that were last written to its place in the NVS. -/
structure EzState where
  config : EzConfig
  image : EzConfig

def EzState.ezSave (s : EzState) : EzState := { s with image := s.config }

def EzState.ezRestore (s : EzState) : EzState :=
  { s with config := ⟨0, true, Vector.replicate ezMaxZones noZone⟩ }.ezSave

/-- The loop of `ez_load`. -/
def EzConfig.normalizeZones (cfg : EzConfig) : Option EzConfig :=
  (mapSlots zoneNormalize (List.range cfg.count) cfg.zones).map fun zones =>
    { cfg with zones := zones }

/-- `ez_load`, where `ok` tells whether `memcpy_from_nvs` reports `NVS_TransferResult_OK`; `none`
when the loop leaves the table. The task that it adds is a later `sync_zone0_from_atci`. -/
def EzState.ezLoad (s : EzState) (ok : Bool) : Option EzState :=
  let s := if ok then { s with config := s.image } else s.ezRestore
  s.config.normalizeZones.map fun cfg => { s with config := cfg }

structure Zone.Ordered (z : Zone) : Prop where
  x : z.xMin ≤ z.xMax
  y : z.yMin ≤ z.yMax
  z : z.zMin ≤ z.zMax

theorem zoneNormalize_eq (z : Zone) : zoneNormalize z =
    ⟨min z.xMin z.xMax, min z.yMin z.yMax, min z.zMin z.zMax, max z.xMin z.xMax,
      max z.yMin z.yMax, max z.zMin z.zMax, z.flags⟩ := by
  rcases le_or_gt z.xMin z.xMax with hx | hx <;> rcases le_or_gt z.yMin z.yMax with hy | hy <;>
    rcases le_or_gt z.zMin z.zMax with hz | hz <;>
    simp [zoneNormalize, hx, hy, hz, hx.le, hy.le, hz.le, not_lt.mpr]

theorem zoneNormalize_ordered (z : Zone) : (zoneNormalize z).Ordered := by
  rw [zoneNormalize_eq]
  exact ⟨min_le_max, min_le_max, min_le_max⟩

theorem zoneNormalize_of_ordered {z : Zone} (h : z.Ordered) : zoneNormalize z = z := by
  simp [zoneNormalize_eq, h.x, h.y, h.z]

theorem noZone_ordered : noZone.Ordered := ⟨le_rfl, le_rfl, le_rfl⟩

theorem zone0FromAtci_ordered (settings : AtciSettings) : (zone0FromAtci settings).Ordered :=
  ⟨min_le_max, min_le_max, le_rfl⟩

theorem syncZone0_zones (settings : AtciSettings) (cfg : EzConfig) (j : Nat) :
    (syncZone0FromAtci settings cfg).zones[j]? =
      if j = 0 then some (zone0FromAtci settings) else cfg.zones[j]? := by
  rw [syncZone0FromAtci, Vector.getElem?_set]
  by_cases first : 0 = j
  · rw [if_pos first, if_pos first.symm]
  · rw [if_neg first, if_neg (Ne.symm first)]

theorem syncZone0_count (settings : AtciSettings) (cfg : EzConfig) :
    (syncZone0FromAtci settings cfg).count = max cfg.count 1 := by
  show (if cfg.count < 1 then 1 else cfg.count) = max cfg.count 1
  split <;> omega

end GrblhalSim
