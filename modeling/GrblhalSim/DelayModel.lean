import GrblhalSim.CallRun

namespace GrblhalSim

open CallRun

/-- The code that a running callback returns to. -/
inductive CalledFrom
  | sysTick
  | delayMs
  deriving DecidableEq

/-- A call of `driver_delay_ms`, with the number of SysTick interrupts before it. -/
structure DelayRequest where
  number : Nat
  madeAt : Nat
  ms : UInt32

def DelayRequest.due (r : DelayRequest) : Nat := r.madeAt + r.ms.toNat

/-- `delay` and `ticks`, the callbacks that are running, innermost first, and what happened so
far: the requests, the SysTick interrupts, and for each invocation the number of its request and
the interrupt. The callback of a request is known by the request's number. -/
structure DelayState where
  ms : UInt32
  callback : Option Nat
  ticks : UInt32
  systickEnable : Bool
  running : List CalledFrom
  requests : List DelayRequest
  now : Nat
  invoked : List (Nat × Nat)

inductive DelayEvent
  | sysTick
  | delayMs (ms : UInt32)
  | callbackReturns

def DelayState.start : DelayState := ⟨1, none, 0, true, [], [], 0, []⟩

/-- `SysTick_Handler` up to the call of the callback, if there is one. -/
def DelayState.sysTickHandler (x : DelayState) : DelayState :=
  let x := { x with ticks := x.ticks + 1, now := x.now + 1 }
  if x.ms ≠ 0 then
    let x := { x with ms := x.ms - 1 }
    if x.ms = 0 then
      match x.callback with
      | some n => { x with invoked := x.invoked ++ [(n, x.now)], running := .sysTick :: x.running }
      | none => x
    else x
  else x

/-- `driver_delay_ms` with a callback. -/
def DelayState.driverDelayMs (x : DelayState) (ms : UInt32) : DelayState :=
  let n := x.requests.length
  let x := { x with ms := ms, requests := x.requests ++ [DelayRequest.mk n x.now ms] }
  if ms > 0 then { x with systickEnable := true, callback := some n }
  else { x with invoked := x.invoked ++ [(n, x.now)], running := .delayMs :: x.running }

/-- What follows the call of the callback where it was called. -/
def DelayState.callbackReturns (x : DelayState) : DelayState :=
  match x.running with
  | .sysTick :: running => { x with running := running, callback := none }
  | .delayMs :: running => { x with running := running }
  | [] => x

def DelayState.after (x : DelayState) : DelayEvent → DelayState
  | .sysTick => x.sysTickHandler
  | .delayMs ms => x.driverDelayMs ms
  | .callbackReturns => x.callbackReturns

def delayStep (x : DelayState) (e : DelayEvent) : Except Empty DelayState := .ok (x.after e)

theorem eachCall_delay {P : DelayState → DelayEvent → Prop} {x : DelayState} {e : DelayEvent}
    {es : List DelayEvent} :
    EachCall delayStep P x (e :: es) ↔ P x e ∧ EachCall delayStep P (x.after e) es := by
  simp [EachCall, delayStep]

theorem eachState_delay {Q : DelayState → Prop} {x : DelayState} {e : DelayEvent}
    {es : List DelayEvent} :
    EachState delayStep Q x (e :: es) ↔ Q x ∧ EachState delayStep Q (x.after e) es := by
  simp [EachState, delayStep]

/-- The handler does not interrupt itself, and a request is made when no delay is running. -/
def Allowed (x : DelayState) : DelayEvent → Prop
  | .sysTick => .sysTick ∉ x.running
  | .delayMs _ => ∀ r ∈ x.requests, r.due ≤ x.now
  | .callbackReturns => x.running ≠ []

instance (x : DelayState) : (e : DelayEvent) → Decidable (Allowed x e)
  | .sysTick => inferInstanceAs (Decidable (CalledFrom.sysTick ∉ x.running))
  | .delayMs _ => inferInstanceAs (Decidable (∀ r ∈ x.requests, r.due ≤ x.now))
  | .callbackReturns => inferInstanceAs (Decidable (x.running ≠ []))

def DelayRequest.invocation (r : DelayRequest) : Nat × Nat := (r.number, r.due)

/-- Each callback whose time has come was invoked once, at that time, and no other was. -/
def OnTime (x : DelayState) : Prop :=
  x.invoked = (x.requests.filter fun r => r.due ≤ x.now).map DelayRequest.invocation

instance (x : DelayState) : Decidable (OnTime x) := inferInstanceAs (Decidable (_ = _))

/-- A delay is not requested from a callback that `SysTick_Handler` is running. -/
def NotChained (x : DelayState) : DelayEvent → Prop
  | .delayMs ms => ms > 0 → .sysTick ∉ x.running
  | _ => True

end GrblhalSim
