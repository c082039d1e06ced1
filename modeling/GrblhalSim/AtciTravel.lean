import GrblhalSim.AtciModel

namespace GrblhalSim

open SlabClip

def keepoutTolerance : ℚ := 1 / 2

def msgInsideZone : Message :=
  ⟨"ATCI: You are currently inside the keepout zone. Disable keepout before Jogging to safety",
    .warning⟩

def msgBlockedAtWall : Message := ⟨"ATCI: Jog move blocked at keepout boundary.", .warning⟩

def msgCrossing : Message := ⟨"ATCI: Move crosses keepout zone", .warning⟩

def msgTargetInZone : Message := ⟨"ATCI: Target inside region", .warning⟩

section Model

variable {k : Nat} {σ ω : Type}

/-- The test that the travel hooks make of the position and of the target. -/
def Atci.deepInside (s : Atci ℚ) (x y : ℚ) : Bool :=
  x > s.atci.xMin + keepoutTolerance ∧ x < s.atci.xMax - keepoutTolerance ∧
    y > s.atci.yMin + keepoutTolerance ∧ y < s.atci.yMax - keepoutTolerance

def Atci.lineIntersectsKeepout (s : Atci ℚ) (x0 y0 x1 y1 : ℚ) : Bool :=
  let dx := x1 - x0
  let dy := y1 - y0
  match clipSides
      [(-dx, x0 - s.atci.xMin - keepoutTolerance), (dx, s.atci.xMax - x0 - keepoutTolerance),
        (-dy, y0 - s.atci.yMin - keepoutTolerance), (dy, s.atci.yMax - y0 - keepoutTolerance)]
      ⟨0, 1⟩ with
  | none => false
  | some w => w.t0 < w.t1

/-- The verdict of `travel_limits_check` and what it reports. -/
def Atci.travelLimitsCheck (s : Atci ℚ) (prev : Option (CheckHook k σ ω))
    (planPosition : Option (Axes k)) (target : Axes k) (axes : σ) (isCartesian : Bool)
    (envelope : ω) : Bool × List Message :=
  if !s.isKeepoutActive then (callCheckHook prev target axes isCartesian envelope, [])
  else
    let start := planStart planPosition
    let strictlyDeepInside := s.deepInside start.x start.y
    let technicallyInside := s.deepInside start.x start.y
    let targetDeepInside := s.deepInside target.x target.y
    if targetDeepInside then
      if strictlyDeepInside || technicallyInside then (false, [msgInsideZone])
      else (false, [msgTargetInZone])
    else if s.lineIntersectsKeepout start.x start.y target.x target.y then
      if strictlyDeepInside then (false, [msgInsideZone])
      else if technicallyInside then (false, [msgInsideZone])
      else (false, [msgCrossing])
    else (callCheckHook prev target axes isCartesian envelope, [])

/-- The jog cut at parameter `t` in X and Y, with the other axes as commanded. -/
def Axes.cutXY (start «end» : Axes k) (t : ℚ) : Axes k :=
  { «end» with x := start.x + t * («end».x - start.x), y := start.y + t * («end».y - start.y) }

/-- `none` is the source's `false`; a point is what it leaves in `clipped_point`. -/
def Atci.calculateClippedPoint (s : Atci ℚ) (start «end» : Axes k) : Option (Axes k) :=
  let dx := «end».x - start.x
  let dy := «end».y - start.y
  match clipSides
      [(-dx, start.x - s.atci.xMin), (dx, s.atci.xMax - start.x),
        (-dy, start.y - s.atci.yMin), (dy, s.atci.yMax - start.y)] ⟨0, 1⟩ with
  | none => none
  | some w => if w.t0 > 0 then some (start.cutXY «end» w.t0) else none

/-- The target `keepout_apply_travel_limits` leaves and what it reports. -/
def Atci.keepoutApplyTravelLimits (s : Atci ℚ) (prev : Option (ApplyHook k ω))
    (target currentPosition : Axes k) (envelope : ω) : Axes k × List Message :=
  if !s.isKeepoutActive then (callApplyHook prev target currentPosition envelope, [])
  else
    let x0 := currentPosition.x
    let y0 := currentPosition.y
    let strictlyDeepInside := s.deepInside x0 y0
    let technicallyInside := s.deepInside x0 y0
    if strictlyDeepInside then (currentPosition, [msgInsideZone])
    else
      let intersects := s.lineIntersectsKeepout x0 y0 target.x target.y
      let targetDeepInside := s.deepInside target.x target.y
      if targetDeepInside || intersects then
        let message := if technicallyInside then msgInsideZone else msgBlockedAtWall
        match s.calculateClippedPoint currentPosition target with
        | some clippedTarget => (clippedTarget, [message])
        | none => (currentPosition, [message])
      else (callApplyHook prev target currentPosition envelope, [])

end Model

end GrblhalSim
