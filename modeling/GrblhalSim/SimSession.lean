import GrblhalSim.SerialReceive
import GrblhalSim.SimControl
import GrblhalSim.WsDelivery
import GrblhalSim.WsPong
import Mathlib.Data.List.Forall2

namespace GrblhalSim

open CallRun RingQueue Rfc6455

variable {tx rx : Nat}

/-- The world of the main loop with its client: what has gone through the UART, what the client has
sent but the server has not read, the bytes that `ws_getchar` has returned, each with the verdict of
`enqueue_realtime_command`, and what each call of `send` was given. -/
structure ClientWorld where
  world : SimWorld
  line : Line
  unread : List UInt8
  taken : List (UInt8 × Bool)
  sends : List (List UInt8)

/-- The bytes that no realtime command was made of. -/
def keptBytes (taken : List (UInt8 × Bool)) : List UInt8 :=
  (taken.filter fun t => !t.2).map Prod.fst

/-- What the client gets when the calls of `send` accept these numbers of bytes. -/
def ClientWorld.gets (w : ClientWorld) (ks : List Nat) : List UInt8 :=
  (List.zipWith (fun bytes k => bytes.take k) w.sends ks).flatten

/-- Each call of `send` accepts all that it is given. -/
def ClientWorld.Accepted (w : ClientWorld) (ks : List Nat) : Prop :=
  List.Forall₂ (fun bytes k => bytes.length ≤ k) w.sends ks

def ClientWorld.putchar (c : UInt8) (w : ClientWorld) : ClientWorld :=
  let result := w.world.ws.wsPutchar c
  { w with
    world := { w.world with ws := result.1 }
    line := { w.line with sent := w.line.sent ++ [c] }
    sends := w.sends ++ result.2.map Send.given }

/-- The client world after `ws_getchar` has returned `c`. -/
def ClientWorld.got (w : ClientWorld) (i : LoopInput) (c : UInt8) (ws : Ws) (out : List WsOut) :
    ClientWorld where
  world := { w.world with ws := ws }
  line := if c ≠ 0 ∧ i.realtime c = false then { w.line with kept := w.line.kept ++ [c] } else w.line
  unread := w.unread.drop i.received.bytes.length
  taken := if c = 0 then w.taken else w.taken ++ [(c, i.realtime c)]
  sends := w.sends ++ sentChunks out

/-- `sim` with the client. -/
def clientSim (i : LoopInput) : SimVars ClientWorld NoReturn where
  getchar w := do
    let ((c, ws), out) ← w.world.ws.wsGetchar i.accepted i.received
    .ok (c, w.got i c ws out)
  putchar := ClientWorld.putchar
  requestExit w := { w with world := w.world.requestExit }

/-- The simulator and its client, with the bytes for which `serialPutC` returned true and those that
`serialGetC` has returned. -/
structure SimSession (tx rx : Nat) where
  serial : Serial tx rx
  client : ClientWorld
  accepted : List UInt8
  returned : List UInt8

def SimSession.port (x : SimSession tx rx) : Traffic tx rx :=
  ⟨x.serial, x.client.line, x.accepted, x.returned⟩

def SimSession.withPort (x : SimSession tx rx) (port : Traffic tx rx) : SimSession tx rx :=
  ⟨port.serial, { x.client with line := port.line }, port.accepted, port.returned⟩

def SimSession.core (x : SimSession tx rx) (call : CoreCall) : SimSession tx rx :=
  x.withPort (x.port.core call)

/-- A pass of the main loop. -/
def sessionPass (x : SimSession tx rx) (i : LoopInput) : Except NoReturn (SimSession tx rx) := do
  let x := i.calls.foldl SimSession.core x
  if i.readSerial then
    let (serial, client) ← x.serial.simulateSerial (clientSim i) i.realtime x.client
    let world := (client.world.printSteps i.belowHoming).grblPerByte i.stdin
    .ok { x with serial := serial, client := { client with world := world } }
  else
    .ok { x with client := { x.client with world := x.client.world.printSteps i.belowHoming } }

/-- The session without what is only observed. -/
def SimSession.erase (x : SimSession tx rx) : Simulator tx rx := ⟨x.serial, x.client.world⟩

theorem core_erase (x : SimSession tx rx) (call : CoreCall) :
    (x.core call).erase = { x.erase with serial := x.serial.core call } := by
  cases call with
  | putC c blocking => rfl
  | getC => rfl
  | rxFlush => rfl
  | rxCancel => rfl

theorem cores_erase (x : SimSession tx rx) (calls : List CoreCall) :
    (calls.foldl SimSession.core x).erase =
      { x.erase with serial := calls.foldl Serial.core x.serial } := by
  induction calls generalizing x with
  | nil => rfl
  | cons call calls ih =>
    have first := core_erase x call
    have serial : (x.core call).serial = x.serial.core call := congrArg Simulator.serial first
    rw [List.foldl_cons, ih, first, serial]
    rfl

/-- `f` takes what `sim` does to its state to what `other` does, `getchar` left out. -/
structure SimVars.Maps {ω ω' ε ε' : Type} (sim : SimVars ω ε) (other : SimVars ω' ε')
    (f : ω → ω') : Prop where
  putchar : ∀ c w, other.putchar c (f w) = f (sim.putchar c w)
  requestExit : ∀ w, other.requestExit (f w) = f (sim.requestExit w)

section Maps

variable {ω ω' ε ε' : Type} {sim : SimVars ω ε} {other : SimVars ω' ε'} {f : ω → ω'}

theorem uartInterruptHandler_maps (maps : sim.Maps other f) (realtime : UInt8 → Bool)
    (s : Serial tx rx) (w : ω) :
    s.uartInterruptHandler other realtime (f w) =
      ((s.uartInterruptHandler sim realtime w).1, f (s.uartInterruptHandler sim realtime w).2) := by
  unfold Serial.uartInterruptHandler Serial.uartRxInterrupt
  split
  next =>
    simp only
    split
    next => rfl
    next =>
      have exit : (if s.uartTxInterrupt.uart.rxData = 0x06 then other.requestExit (f w) else f w) =
          f (if s.uartTxInterrupt.uart.rxData = 0x06 then sim.requestExit w else w) := by
        split
        next => exact maps.requestExit w
        next => rfl
      rw [exit]
      split
      next => rfl
      next => rfl
  next => rfl

theorem simulateTx_maps (maps : sim.Maps other f) (realtime : UInt8 → Bool) (s : Serial tx rx)
    (w : ω) :
    s.simulateTx other realtime (f w) =
      ((s.simulateTx sim realtime w).1, f (s.simulateTx sim realtime w).2) := by
  have put : (if s.uart.txFlag then other.putchar s.uart.txData (f w) else f w) =
      f (if s.uart.txFlag then sim.putchar s.uart.txData w else w) := by
    split
    next => exact maps.putchar _ w
    next => rfl
  simp only [Serial.simulateTx, put]
  split
  next => exact uartInterruptHandler_maps maps realtime _ _
  next => rfl

theorem receiveByte_maps (maps : sim.Maps other f) (realtime : UInt8 → Bool) (charIn : UInt8)
    (s : Serial tx rx) (w : ω) :
    s.receiveByte other realtime charIn (f w) =
      ((s.receiveByte sim realtime charIn w).1, f (s.receiveByte sim realtime charIn w).2) := by
  unfold Serial.receiveByte
  split
  next => exact uartInterruptHandler_maps maps realtime _ _
  next => rfl

/-- The two calls do the same if `getchar` does where it is called. -/
theorem simulateSerial_maps {other : SimVars ω' ε} (maps : sim.Maps other f) (realtime : UInt8 → Bool)
    (s : Serial tx rx) (w : ω)
    (getchar : other.getchar (f (s.simulateTx sim realtime w).2) =
      (sim.getchar (s.simulateTx sim realtime w).2).map fun got => (got.1, f got.2)) :
    s.simulateSerial other realtime (f w) =
      (s.simulateSerial sim realtime w).map fun done => (done.1, f done.2) := by
  unfold Serial.simulateSerial
  split
  next => rfl
  next =>
    simp only [simulateTx_maps maps]
    split
    next =>
      rw [getchar]
      cases got : sim.getchar (s.simulateTx sim realtime w).2 with
      | error e => rfl
      | ok result => exact congrArg Except.ok (receiveByte_maps maps realtime result.1 _ result.2)
    next => rfl

theorem receiveByte_world (realtime : UInt8 → Bool) (charIn : UInt8) (s : Serial tx rx) (w : ω) :
    (s.receiveByte sim realtime charIn w).2 = w ∨
      (s.receiveByte sim realtime charIn w).2 = sim.requestExit w := by
  have handler (s : Serial tx rx) : (s.uartInterruptHandler sim realtime w).2 = w ∨
      (s.uartInterruptHandler sim realtime w).2 = sim.requestExit w := by
    unfold Serial.uartInterruptHandler Serial.uartRxInterrupt
    split
    next =>
      simp only
      split
      next => exact .inl rfl
      next =>
        by_cases exit : s.uartTxInterrupt.uart.rxData = 0x06
        · right
          rw [if_pos exit]
          split
          next => rfl
          next => rfl
        · left
          rw [if_neg exit]
          split
          next => rfl
          next => rfl
    next => exact .inl rfl
  unfold Serial.receiveByte
  split
  next => exact handler _
  next => exact .inl rfl

theorem simulateSerial_maps_ok (maps : sim.Maps other f) (realtime : UInt8 → Bool)
    {s : Serial tx rx} (booted : s.booted = true) {w next : ω} {b : UInt8}
    (mine : sim.getchar (s.simulateTx sim realtime w).2 = .ok (b, next))
    (others : other.getchar (f (s.simulateTx sim realtime w).2) = .ok (b, f next)) :
    ∃ serial last, s.simulateSerial sim realtime w = .ok (serial, last) ∧
      s.simulateSerial other realtime (f w) = .ok (serial, f last) ∧
      (last = (s.simulateTx sim realtime w).2 ∨ last = next ∨ last = sim.requestExit next) := by
  unfold Serial.simulateSerial
  simp only [booted, simulateTx_maps maps, Bool.not_true, Bool.false_eq_true, if_false]
  split
  next =>
    rw [mine, others]
    refine ⟨_, _, rfl, congrArg Except.ok (receiveByte_maps maps realtime b _ next), .inr ?_⟩
    exact receiveByte_world realtime b _ next
  next => exact ⟨_, _, rfl, rfl, .inl rfl⟩

end Maps

theorem clientSim_maps (i : LoopInput) :
    (clientSim i).Maps (wsSim i.accepted i.received) ClientWorld.world where
  putchar _ _ := rfl
  requestExit _ := rfl

theorem clientSim_getchar (i : LoopInput) (w : ClientWorld) :
    (wsSim i.accepted i.received).getchar w.world =
      ((clientSim i).getchar w).map fun got => (got.1, got.2.world) := by
  cases got : w.world.ws.wsGetchar i.accepted i.received with
  | error e => simp only [clientSim, wsSim, got, bind, Except.bind, Except.map]
  | ok result => simp only [clientSim, wsSim, got, bind, Except.bind, Except.map, ClientWorld.got]

/-- The session runs as the simulator does. -/
theorem sessionPass_erase (x : SimSession tx rx) (i : LoopInput) :
    (sessionPass x i).map SimSession.erase = x.erase.loopPass i := by
  have cores := cores_erase x i.calls
  have serial : (i.calls.foldl SimSession.core x).serial = i.calls.foldl Serial.core x.serial :=
    congrArg Simulator.serial cores
  have world : (i.calls.foldl SimSession.core x).client.world = x.client.world :=
    congrArg Simulator.world cores
  unfold sessionPass Simulator.loopPass
  simp only
  split
  next =>
    have maps := simulateSerial_maps (clientSim_maps i) i.realtime
      (i.calls.foldl SimSession.core x).serial (i.calls.foldl SimSession.core x).client
      (clientSim_getchar i _)
    rw [world, serial] at maps
    rw [serial]
    show _ = (i.calls.foldl Serial.core x.serial).simulateSerial
        (wsSim i.accepted i.received) i.realtime x.client.world >>= fun left =>
      Except.ok (⟨left.1, (left.2.printSteps i.belowHoming).grblPerByte i.stdin⟩ :
        Simulator tx rx)
    rw [maps]
    cases (i.calls.foldl Serial.core x.serial).simulateSerial (clientSim i) i.realtime
        (i.calls.foldl SimSession.core x).client with
    | error e => rfl
    | ok result => rfl
  next =>
    refine congrArg Except.ok ?_
    rw [SimSession.erase, serial, world]
    rfl

theorem sessionRun_erase {x x' : SimSession tx rx} {inputs : List LoopInput}
    (ran : run sessionPass x inputs = .ok x') :
    run Simulator.loopPass x.erase inputs = .ok x'.erase := by
  induction inputs generalizing x with
  | nil =>
    cases ran
    rfl
  | cons i inputs ih =>
    have pass := sessionPass_erase x i
    cases passed : sessionPass x i with
    | error e =>
      rw [run, List.foldlM_cons, passed] at ran
      cases ran
    | ok next =>
      rw [passed] at pass
      rw [run_cons passed] at ran
      rw [run_cons pass.symm]
      exact ih ran

end GrblhalSim
