import GrblhalSim.SerialTransmit
import GrblhalSim.WsServer

namespace GrblhalSim

open CallRun RingQueue

inductive SimExit
  | no
  | req
  | ok
  deriving DecidableEq

/-- The WebSocket server and `sim.exit`, with the number of times that it was set to `exit_REQ`. -/
structure SimWorld where
  ws : Ws
  exit : SimExit
  requests : Nat

def SimWorld.requestExit (w : SimWorld) : SimWorld :=
  { w with exit := .req, requests := w.requests + 1 }

/-- `sim` as `main` sets it up, with what `accept` and `recv` return to the next `ws_getchar`. -/
def wsSim (accepted : Option (Nat × Bool)) (received : RecvResult) : SimVars SimWorld NoReturn where
  getchar w := do
    let ((c, ws), _) ← w.ws.wsGetchar accepted received
    .ok (c, { w with ws := ws })
  putchar c w := { w with ws := (w.ws.wsPutchar c).1 }
  requestExit := SimWorld.requestExit

inductive GpioPort
  | limits0
  | control
  | probe

inductive AlarmCode
  | hardLimit
  | softLimit
  | abortCycle
  | probeFailInitial
  | probeFailContact
  | homingFailReset
  | homingFailDoor
  | failPulloff
  | homingFailApproach
  | eStop
  | motorFault

/-- What a byte on stdin stands for, with the pins as `(port, pin)`. -/
inductive StdinCommand
  | toggleIn (pins : List (GpioPort × Nat))
  | injectAlarm (alarm : AlarmCode) (label : String)
  | toggleTxMuted
  | kickClient
  | statusReport
  | reportControllerState
  | forceControllerIdle
  | requestExit

def stdinCommand (c : UInt8) : Option StdinCommand :=
  match Char.ofNat c.toNat with
  | 'e' | 'E' => some (.toggleIn [(.control, 6)])
  | 'r' | 'R' => some (.toggleIn [(.control, 0)])
  | 'h' | 'H' => some (.toggleIn [(.control, 1)])
  | 's' | 'S' => some (.toggleIn [(.control, 2)])
  | 'd' | 'D' => some (.toggleIn [(.control, 3)])
  | 'p' | 'P' => some (.toggleIn [(.probe, 0)])
  | 'o' | 'O' => some (.toggleIn [(.probe, 1), (.control, 7)])
  | 'x' => some (.toggleIn [(.limits0, 0)])
  | 'y' => some (.toggleIn [(.limits0, 1)])
  | 'z' => some (.toggleIn [(.limits0, 2)])
  | '1' => some (.injectAlarm .hardLimit "hard limit")
  | '2' => some (.injectAlarm .softLimit "soft limit")
  | '3' => some (.injectAlarm .abortCycle "abort during cycle")
  | '4' => some (.injectAlarm .probeFailInitial "probe fail initial")
  | '5' => some (.injectAlarm .probeFailContact "probe fail contact")
  | '6' => some (.injectAlarm .homingFailReset "homing fail reset")
  | '7' => some (.injectAlarm .homingFailDoor "homing fail door")
  | '8' => some (.injectAlarm .failPulloff "homing pull-off fail")
  | '9' => some (.injectAlarm .homingFailApproach "homing approach fail")
  | '0' => some (.injectAlarm .eStop "E-stop asserted")
  | 'm' | 'M' => some (.injectAlarm .motorFault "motor fault")
  | 'n' | 'N' => some .toggleTxMuted
  | 'k' | 'K' => some .kickClient
  | '?' => some .statusReport
  | '\x12' => some .reportControllerState
  | 'i' | 'I' => some .forceControllerIdle
  | '\x06' => some .requestExit
  | _ => none

/-- What `grbl_per_byte` does with the byte to the server and to `sim.exit`. -/
def SimWorld.grblPerByte (w : SimWorld) (c : UInt8) : SimWorld :=
  match stdinCommand c with
  | some .toggleTxMuted => { w with ws := w.ws.wsToggleTxMuted.2 }
  | some .kickClient => { w with ws := w.ws.wsKickClient.2 }
  | some .requestExit => w.requestExit
  | _ => w

/-- The first lines of `print_steps`; `belowHoming` is `state_get() < STATE_HOMING`. -/
def SimWorld.printSteps (w : SimWorld) (belowHoming : Bool) : SimWorld :=
  if w.exit = .req ∧ belowHoming = true then { w with exit := .ok } else w

def Serial.core {tx rx : Nat} (s : Serial tx rx) : CoreCall → Serial tx rx
  | .putC c blocking => (s.serialPutC c blocking).2
  | .getC => s.serialGetC.2
  | .rxFlush => s.serialRxFlush
  | .rxCancel => s.serialRxCancel

/-- What comes from outside in a pass of the main loop: the calls that the grblHAL thread has made
since the last one, whether a byte is due, the client, the controller and stdin. -/
structure LoopInput where
  calls : List CoreCall
  readSerial : Bool
  accepted : Option (Nat × Bool)
  received : RecvResult
  realtime : UInt8 → Bool
  belowHoming : Bool
  stdin : UInt8

structure Simulator (tx rx : Nat) where
  serial : Serial tx rx
  world : SimWorld

variable {tx rx : Nat}

def Simulator.start : Simulator tx rx := ⟨Serial.serialInit, Ws.init, .no, 0⟩

def Simulator.loopPass (x : Simulator tx rx) (i : LoopInput) :
    Except NoReturn (Simulator tx rx) := do
  let serial := i.calls.foldl Serial.core x.serial
  if i.readSerial then
    let (serial, world) ←
      serial.simulateSerial (wsSim i.accepted i.received) i.realtime x.world
    .ok ⟨serial, (world.printSteps i.belowHoming).grblPerByte i.stdin⟩
  else .ok ⟨serial, x.world.printSteps i.belowHoming⟩

/-- A pass of the main loop, if it is not over. -/
def mainLoop (x : Simulator tx rx) (i : LoopInput) : Except (Option NoReturn) (Simulator tx rx) :=
  if x.world.exit = .ok then .error none
  else
    match x.loopPass i with
    | .ok x' => .ok x'
    | .error e => .error (some e)

end GrblhalSim
