import GrblhalSim.ZoneModel

namespace GrblhalSim

inductive MessageType
  | info
  | warning
  deriving DecidableEq

structure Message where
  text : String
  type : MessageType
  deriving DecidableEq

/-- The status codes of the grblHAL core that the plugins return. -/
inductive StatusCode
  | ok
  | unhandled
  | invalidStatement
  | gcodeValueOutOfRange
  deriving DecidableEq

/-- The loop body of `ez_check_travel`: the warning with which a zone refuses the move. -/
def ezCheckZone (z : Zone) (op : EzOp) (p0 p1 : Point) : Option Message :=
  if !z.flags.enabled then none
  else if opAllowedInZone z op then none
  else if pointDeepInZone z p1 then
    if pointDeepInZone z p0 then
      some ⟨"EZ: Inside exclusion zone — disable zone to move out", .warning⟩
    else some ⟨"EZ: Target inside exclusion zone", .warning⟩
  else if segmentIntersectsZone z p0 p1 then
    if pointDeepInZone z p0 then
      some ⟨"EZ: Inside exclusion zone — disable zone to move out", .warning⟩
    else some ⟨"EZ: Move crosses exclusion zone", .warning⟩
  else none

/-- The zone loop of `ez_check_travel` over the given slots; `none` when it reads a slot that
the table does not have. -/
def ezCheckZones (cfg : EzConfig) (op : EzOp) (p0 p1 : Point) : List Nat → Option (Option Message)
  | [] => some none
  | i :: is => do
    let z ← cfg.zones[i]?
    match ezCheckZone z op p0 p1 with
    | some warning => some (some warning)
    | none => ezCheckZones cfg op p0 p1 is

section Check

variable {k : Nat} {σ ω : Type}

/-- `prev_check_travel_limits`, for its own types of axis signals and work envelope. -/
abbrev CheckHook (k : Nat) (σ ω : Type) := Axes k → σ → Bool → ω → Bool

def callCheckHook (prev : Option (CheckHook k σ ω)) (target : Axes k) (axes : σ)
    (isCartesian : Bool) (envelope : ω) : Bool :=
  match prev with
  | some hook => hook target axes isCartesian envelope
  | none => true

/-- Where `ez_check_travel` takes a move to start, from the result of `plan_get_position`. -/
def planStart (planPosition : Option (Axes k)) : Point :=
  match planPosition with
  | some pos => pos.point
  | none => ⟨0, 0, 0⟩

/-- The verdict of `ez_check_travel` and what it reports. -/
def ezCheckTravel (cfg : EzConfig) (tcMacroRunning : Bool) (prev : Option (CheckHook k σ ω))
    (planPosition : Option (Axes k)) (target : Axes k) (axes : σ) (isCartesian : Bool)
    (envelope : ω) : Option (Bool × List Message) :=
  if cfg.globalEnabled then do
    match ← ezCheckZones cfg (currentOp tcMacroRunning) (planStart planPosition) target.point
        (List.range cfg.count) with
    | some warning => some (false, [warning])
    | none => some (callCheckHook prev target axes isCartesian envelope, [])
  else some (callCheckHook prev target axes isCartesian envelope, [])

end Check

inductive JogStep (k : Nat)
  | keep
  | clipped (target : Axes k) (warning : Message)
  | blocked (warning : Message)

def ezJogZone {k : Nat} (z : Zone) (position target : Axes k) : JogStep k :=
  if !z.flags.enabled then .keep
  else if opAllowedInZone z .jog then .keep
  else if pointDeepInZone z position.point then
    .blocked ⟨"EZ: Inside exclusion zone — disable zone to jog out", .warning⟩
  else
    let targetInside := pointDeepInZone z target.point
    let intersects := segmentIntersectsZone z position.point target.point
    if targetInside || intersects then
      match clipToZoneBoundary z position target with
      | some clipped => .clipped clipped ⟨"EZ: Jog clipped at exclusion boundary", .warning⟩
      | none => .blocked ⟨"EZ: Jog blocked at exclusion boundary", .warning⟩
    else .keep

/-- The state of the zone loop of `ez_apply_travel`; after `returned` nothing else is done. -/
inductive JogState (k : Nat)
  | running (target : Axes k) (warnings : List Message)
  | returned (target : Axes k) (warnings : List Message)

def JogState.target {k : Nat} : JogState k → Axes k
  | .running target _ => target
  | .returned target _ => target

def JogState.step {k : Nat} (position : Axes k) (z : Zone) : JogState k → JogState k
  | .returned target warnings => .returned target warnings
  | .running target warnings =>
    match ezJogZone z position target with
    | .keep => .running target warnings
    | .clipped clipped warning => .running clipped (warnings ++ [warning])
    | .blocked warning => .returned position (warnings ++ [warning])

def ezJogZones {k : Nat} (cfg : EzConfig) (position : Axes k) :
    List Nat → JogState k → Option (JogState k)
  | _, .returned target warnings => some (.returned target warnings)
  | [], .running target warnings => some (.running target warnings)
  | i :: is, .running target warnings => do
    let z ← cfg.zones[i]?
    ezJogZones cfg position is ((JogState.running target warnings).step position z)

section Apply

variable {k : Nat} {ω : Type}

/-- `prev_apply_travel_limits`: the target it leaves. -/
abbrev ApplyHook (k : Nat) (ω : Type) := Axes k → Axes k → ω → Axes k

def callApplyHook (prev : Option (ApplyHook k ω)) (target position : Axes k) (envelope : ω) :
    Axes k :=
  match prev with
  | some hook => hook target position envelope
  | none => target

/-- The target `ez_apply_travel` leaves and what it reports. -/
def ezApplyTravel (cfg : EzConfig) (prev : Option (ApplyHook k ω)) (target position : Axes k)
    (envelope : ω) : Option (Axes k × List Message) :=
  if cfg.globalEnabled then do
    match ← ezJogZones cfg position (List.range cfg.count) (.running target []) with
    | .returned target warnings => some (target, warnings)
    | .running target warnings => some (callApplyHook prev target position envelope, warnings)
  else some (callApplyHook prev target position envelope, [])

end Apply

end GrblhalSim
