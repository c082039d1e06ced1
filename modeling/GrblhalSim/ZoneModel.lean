import GrblhalSim.SlabClip
import Mathlib.Data.Rat.Lemmas
import Mathlib.Algebra.Order.Field.Rat
import Mathlib.Data.Set.Basic

namespace GrblhalSim

open SlabClip

def ezMaxZones : Nat := 16

def ezTolerance : ℚ := 1 / 2

/-- Per-zone permission flags; a set permission bit allows the operation inside the zone. -/
structure ZoneFlags where
  value : UInt8
  deriving DecidableEq

def ZoneFlags.allowGcode (f : ZoneFlags) : Bool := f.value &&& 0x01 != 0

def ZoneFlags.allowJog (f : ZoneFlags) : Bool := f.value &&& 0x02 != 0

def ZoneFlags.allowToolchange (f : ZoneFlags) : Bool := f.value &&& 0x04 != 0

def ZoneFlags.enabled (f : ZoneFlags) : Bool := f.value &&& 0x08 != 0

structure Zone where
  xMin : ℚ
  yMin : ℚ
  zMin : ℚ
  xMax : ℚ
  yMax : ℚ
  zMax : ℚ
  flags : ZoneFlags
  deriving DecidableEq

structure EzConfig where
  count : Nat
  globalEnabled : Bool
  zones : Vector Zone ezMaxZones

inductive EzOp
  | gcode
  | jog
  | toolchange
  deriving DecidableEq

structure Point where
  x : ℚ
  y : ℚ
  z : ℚ
  deriving DecidableEq

/-- A planner vector of `k + 3` axes; `rest` holds the axes after Z. -/
structure Axes (k : Nat) where
  x : ℚ
  y : ℚ
  z : ℚ
  rest : Vector ℚ k
  deriving DecidableEq

def Axes.point {k : Nat} (a : Axes k) : Point := ⟨a.x, a.y, a.z⟩

def zoneZUndefined (z : Zone) : Bool := z.zMin = 0 ∧ z.zMax = 0

def pointDeepInZone (z : Zone) (p : Point) : Bool :=
  let xy : Bool := p.x > z.xMin + ezTolerance ∧ p.x < z.xMax - ezTolerance ∧
    p.y > z.yMin + ezTolerance ∧ p.y < z.yMax - ezTolerance
  if !xy then false
  else if zoneZUndefined z then true
  else p.z > z.zMin + ezTolerance ∧ p.z < z.zMax - ezTolerance

/-- The per-axis data of the two clipping loops: start, step `d[i]`, `lo[i]` and `hi[i]`. -/
def axisSlabs (p0 p1 lo hi : Point) : List (Slab ℚ) :=
  [⟨p0.x, p1.x - p0.x, lo.x, hi.x⟩, ⟨p0.y, p1.y - p0.y, lo.y, hi.y⟩,
    ⟨p0.z, p1.z - p0.z, lo.z, hi.z⟩]

def zoneDims (z : Zone) : Nat := if zoneZUndefined z then 2 else 3

def segmentIntersectsZone (z : Zone) (p0 p1 : Point) : Bool :=
  let lo : Point := ⟨z.xMin + ezTolerance, z.yMin + ezTolerance, z.zMin + ezTolerance⟩
  let hi : Point := ⟨z.xMax - ezTolerance, z.yMax - ezTolerance, z.zMax - ezTolerance⟩
  match clipAll ((axisSlabs p0 p1 lo hi).take (zoneDims z)) ⟨0, 1⟩ with
  | none => false
  | some w => w.t0 < w.t1

/-- `none` is the source's `false`; a point is what it leaves in `clipped`. -/
def clipToZoneBoundary {k : Nat} (z : Zone) (start «end» : Axes k) : Option (Axes k) :=
  let lo : Point := ⟨z.xMin, z.yMin, z.zMin⟩
  let hi : Point := ⟨z.xMax, z.yMax, z.zMax⟩
  match clipAll ((axisSlabs start.point «end».point lo hi).take (zoneDims z)) ⟨0, 1⟩ with
  | none => none
  | some w =>
    if w.t0 > 0 then
      let clipped := { «end» with
        x := start.x + w.t0 * («end».x - start.x)
        y := start.y + w.t0 * («end».y - start.y) }
      if !zoneZUndefined z then some { clipped with z := start.z + w.t0 * («end».z - start.z) }
      else some clipped
    else none

def opAllowedInZone (z : Zone) : EzOp → Bool
  | .gcode => z.flags.allowGcode
  | .jog => z.flags.allowJog
  | .toolchange => z.flags.allowToolchange

def currentOp (tcMacroRunning : Bool) : EzOp := if tcMacroRunning then .toolchange else .gcode

end GrblhalSim
