import GrblhalSim.SimModel
import GrblhalSim.WsSafety

namespace GrblhalSim

open CallRun RingQueue StreamParser

variable {tx rx : Nat}

/-- For each pass that the main loop comes to, whether it sets `sim.exit` to `exit_REQ`. From a pass
on that does not return there is nothing to see. -/
def requests (x : Simulator tx rx) : List LoopInput → List (Option Bool)
  | [] => []
  | i :: is =>
    match mainLoop x i with
    | .ok x' => some (decide (x.world.requests < x'.world.requests)) :: requests x' is
    | .error none => []
    | .error (some _) => (i :: is).map fun _ => none

/-- The server as `ws_getchar` finds it in this pass, if `simulate_serial` calls it. -/
def Simulator.asked (x : Simulator tx rx) (i : LoopInput) : Option Ws :=
  let (serial, world) :=
    (i.calls.foldl Serial.core x.serial).simulateTx (wsSim i.accepted i.received) i.realtime x.world
  if i.readSerial && serial.takesByte then some world.ws else none

/-- The byte that `simulate_serial` takes from `ws_getchar` in this pass. -/
def Simulator.taken (x : Simulator tx rx) (i : LoopInput) : Option UInt8 :=
  (x.asked i).bind fun ws =>
    match ws.wsGetchar i.accepted i.received with
    | .ok ((c, _), _) => some c
    | .error _ => none

/-- What `raw_buf` holds when `process_incoming` has received something. -/
def Ws.rawInput (s : Ws) (accepted : Option (Nat × Bool)) (received : RecvResult) :
    Option (List UInt8) :=
  let s := s.wsAccept accepted
  match received with
  | .data bytes =>
    if s.clientFd.isSome && s.wsHandshakeDone && s.rawBuf.length < rawBufSize then
      some (s.rawBuf ++ bytes)
    else none
  | _ => none

def Simulator.rawInput (x : Simulator tx rx) (i : LoopInput) : Option (List UInt8) :=
  (x.asked i).bind fun ws => ws.rawInput i.accepted i.received

/-- `recv` stores no more than the room that it is given. -/
def RecvFits (x : Simulator tx rx) (i : LoopInput) : Prop :=
  ∀ raw, x.rawInput i = some raw → raw.length ≤ rawBufSize

/-- The frames at the front of the buffer declare sizes that are positive as `int`, and those that
are looked into are there. -/
inductive Parsable : List UInt8 → Prop
  | short {raw} (few : raw.length < 2) : Parsable raw
  | header {raw} (more : readHeader raw = .error .needMore) : Parsable raw
  | waiting {raw h} (header : readHeader raw = .ok h) (more : raw.length < h.needed) : Parsable raw
  | close {raw h} (header : readHeader raw = .ok h) (opcode : h.opcode = 0x08)
      (payload : h.Touches → h.total ≤ raw.length) : Parsable raw
  | frame {raw h} (header : readHeader raw = .ok h) (opcode : h.opcode ≠ 0x08)
      (payload : h.Touches → h.total ≤ raw.length) (positive : 0 < h.needed)
      (enough : h.needed ≤ raw.length) (rest : Parsable (raw.drop h.needed.toNat)) : Parsable raw

/-- The client's frames are parsable, and it hands over no 0x06, unless there is one on stdin too. -/
def Confined (x : Simulator tx rx) (i : LoopInput) : Prop :=
  x.world.exit ≠ .ok →
    (∀ raw, x.rawInput i = some raw → Parsable raw) ∧ (x.taken i = some 0x06 → i.stdin = 0x06)

def Simulator.Ready (x : Simulator tx rx) : Prop := x.serial.Idle ∧ x.serial.TxEnabled

theorem core_ready {s : Serial tx rx} (idle : s.Idle) (enabled : s.TxEnabled)
    (calls : List CoreCall) :
    (calls.foldl Serial.core s).Idle ∧ (calls.foldl Serial.core s).TxEnabled := by
  induction calls generalizing s with
  | nil => exact ⟨idle, enabled⟩
  | cons call calls ih =>
    let x : Traffic tx rx := ⟨s, ⟨[], []⟩, [], []⟩
    have same : (x.core call).serial = s.core call := by cases call <;> rfl
    obtain ⟨_, transmit⟩ := core_transmit (x := x) enabled call
    have idle' := Serial.Idle.core (x := x) idle call
    rw [List.foldl_cons]
    exact ih (same ▸ idle') (same ▸ transmit.enabled)

theorem ofNat_ack : ∀ n : Fin 256, Char.ofNat n.val = '\x06' → n.val = 6 := by
  decide +kernel

theorem stdinCommand_exit (c : UInt8) : stdinCommand c = some .requestExit ↔ c = 0x06 := by
  constructor
  · intro h
    unfold stdinCommand at h
    split at h <;> simp at h
    next same => exact UInt8.toNat_inj.mp (ofNat_ack ⟨c.toNat, c.toNat_lt⟩ same)
  · rintro rfl
    rfl

theorem grblPerByte_requests (w : SimWorld) (c : UInt8) :
    (w.grblPerByte c).requests = w.requests + (decide (c = 0x06)).toNat ∧
      (w.grblPerByte c).exit = if c = 0x06 then .req else w.exit := by
  by_cases exit : c = 0x06
  · have command := (stdinCommand_exit c).mpr exit
    simp only [SimWorld.grblPerByte, command]
    simp [exit, SimWorld.requestExit]
  · have command := mt (stdinCommand_exit c).mp exit
    unfold SimWorld.grblPerByte
    split
    next => simp [exit]
    next => simp [exit]
    next h => exact absurd h command
    next => simp [exit]

theorem putchar_world (accepted : Option (Nat × Bool)) (received : RecvResult) (w : SimWorld)
    (bytes : List UInt8) :
    (bytes.foldl (fun w c => (wsSim accepted received).putchar c w) w).exit = w.exit ∧
      (bytes.foldl (fun w c => (wsSim accepted received).putchar c w) w).requests = w.requests := by
  induction bytes generalizing w with
  | nil => exact ⟨rfl, rfl⟩
  | cons c bytes ih => exact ih _

/-- `sim.exit` after a pass in which the UART requests an exit or not, and stdin likewise. -/
def nextExit (took stdin belowHoming : Bool) (exit : SimExit) : SimExit :=
  if stdin then .req
  else
    let exit := if took then .req else exit
    if exit = .req ∧ belowHoming = true then .ok else exit

def LoopInput.exitOnStdin (i : LoopInput) : Bool := i.readSerial && decide (i.stdin = 0x06)

theorem printSteps_world (w : SimWorld) (belowHoming : Bool) :
    (w.printSteps belowHoming).requests = w.requests ∧ (w.printSteps belowHoming).exit =
      if w.exit = .req ∧ belowHoming = true then .ok else w.exit := by
  unfold SimWorld.printSteps
  split <;> exact ⟨rfl, rfl⟩

/-- What a pass of the main loop that returns does. -/
structure PassStep (x x' : Simulator tx rx) (i : LoopInput) : Prop where
  ready : x'.Ready
  received : ∀ ws, x.asked i = some ws → ∃ r, ws.wsGetchar i.accepted i.received = .ok r
  requests : x'.world.requests =
    x.world.requests + (decide (x.taken i = some 0x06)).toNat + i.exitOnStdin.toNat
  exit : x'.world.exit =
    nextExit (decide (x.taken i = some 0x06)) i.exitOnStdin i.belowHoming x.world.exit

/-- A tick of the serial port after the transmitter's part of it. -/
theorem simulateSerial_wsSim {s s' : Serial tx rx} {accepted : Option (Nat × Bool)}
    {received : RecvResult} {realtime : UInt8 → Bool} {w w' : SimWorld} (idle : s.Idle)
    (sent : s.simulateTx (wsSim accepted received) realtime w = (s', w')) :
    s.simulateSerial (wsSim accepted received) realtime w =
      if s'.takesByte then
        (w'.ws.wsGetchar accepted received).bind fun got =>
          .ok (s'.receiveByte (wsSim accepted received) realtime got.1.1 { w' with ws := got.1.2 })
      else .ok (s', w') := by
  simp only [Serial.simulateSerial, idle.booted, sent]
  cases s'.takesByte with
  | false => rfl
  | true => cases h : w'.ws.wsGetchar accepted received <;> simp [wsSim, h, bind, Except.bind]

/-- The pass goes on to the end once the serial port has had its tick. -/
theorem loopPass_ticked {x : Simulator tx rx} {i : LoopInput} (due : i.readSerial = true)
    {t : Serial tx rx} {v : SimWorld}
    (ticked : (i.calls.foldl Serial.core x.serial).simulateSerial
      (wsSim i.accepted i.received) i.realtime x.world = .ok (t, v))
    (idle : t.Idle) (enabled : t.TxEnabled)
    (received : ∀ ws, x.asked i = some ws → ∃ r, ws.wsGetchar i.accepted i.received = .ok r)
    (requests : v.requests = x.world.requests + (decide (x.taken i = some 0x06)).toNat)
    (exit : v.exit = if x.taken i = some 0x06 then .req else x.world.exit) :
    ∃ x', x.loopPass i = .ok x' ∧ PassStep x x' i := by
  obtain ⟨printed, exits⟩ := printSteps_world v i.belowHoming
  obtain ⟨read, commanded⟩ := grblPerByte_requests (v.printSteps i.belowHoming) i.stdin
  refine ⟨⟨t, (v.printSteps i.belowHoming).grblPerByte i.stdin⟩,
    by simp [Simulator.loopPass, due, ticked, bind, Except.bind], ⟨idle, enabled⟩, received, ?_, ?_⟩
  · simp [read, printed, requests, LoopInput.exitOnStdin, due]
  · simp [commanded, exits, exit, LoopInput.exitOnStdin, due, nextExit]

/-- What a byte makes of the requests. -/
theorem took_world (w : SimWorld) (c : UInt8) :
    (if c = 0x06 then w.requestExit else w).requests = w.requests + (decide (c = 0x06)).toNat ∧
      (if c = 0x06 then w.requestExit else w).exit = if c = 0x06 then .req else w.exit := by
  by_cases ack : c = 0x06
  · simp [ack, SimWorld.requestExit]
  · simp [ack]

theorem loopPass_cases {x : Simulator tx rx} (ready : x.Ready) (i : LoopInput) :
    (∃ e ws, x.loopPass i = .error e ∧ x.asked i = some ws ∧
      ws.wsGetchar i.accepted i.received = .error e) ∨
      ∃ x', x.loopPass i = .ok x' ∧ PassStep x x' i := by
  obtain ⟨idle, enabled⟩ := core_ready ready.1 ready.2 i.calls
  obtain ⟨s', hs, step⟩ :=
    simulateTx_step idle enabled (wsSim i.accepted i.received) i.realtime x.world
  obtain ⟨exit, requests⟩ := putchar_world i.accepted i.received x.world
    (i.calls.foldl Serial.core x.serial).held
  generalize hw : List.foldl (fun w c => (wsSim i.accepted i.received).putchar c w) x.world
    (i.calls.foldl Serial.core x.serial).held = w at hs exit requests
  have asked : x.asked i = if i.readSerial && s'.takesByte then some w.ws else none := by
    simp only [Simulator.asked, hs]
  cases due : i.readSerial with
  | false =>
    have unasked : x.asked i = none := by simp [asked, due]
    obtain ⟨printed, exits⟩ := printSteps_world x.world i.belowHoming
    refine Or.inr ⟨⟨i.calls.foldl Serial.core x.serial, x.world.printSteps i.belowHoming⟩,
      by simp [Simulator.loopPass, due], ⟨idle, enabled⟩, by simp [unasked], ?_, ?_⟩
    · simp [printed, Simulator.taken, unasked, due, LoopInput.exitOnStdin]
    · simp [exits, Simulator.taken, unasked, due, LoopInput.exitOnStdin, nextExit]
  | true =>
    have tick := simulateSerial_wsSim idle hs
    cases takes : s'.takesByte with
    | false =>
      rw [takes] at tick
      have unasked : x.asked i = none := by simp [asked, takes]
      exact Or.inr (loopPass_ticked due tick step.idle step.enabled (by simp [unasked])
        (by simp [Simulator.taken, unasked, requests]) (by simp [Simulator.taken, unasked, exit]))
    | true =>
      rw [takes] at tick
      rw [due, takes] at asked
      cases got : w.ws.wsGetchar i.accepted i.received with
      | error e =>
        exact Or.inl ⟨e, w.ws, by simp [Simulator.loopPass, due, tick, got, bind, Except.bind],
          asked, got⟩
      | ok result =>
        obtain ⟨⟨c, ws⟩, out⟩ := result
        obtain ⟨t, received, idle', enabled'⟩ := receiveByte_idle step.idle step.enabled
          (takesByte_room takes) c (wsSim i.accepted i.received) i.realtime { w with ws := ws }
        have byte : x.taken i = some c := by simp [Simulator.taken, asked, got]
        have returns : ∀ ws, x.asked i = some ws →
            ∃ r, ws.wsGetchar i.accepted i.received = .ok r := by
          intro ws same
          rw [asked] at same
          cases same
          exact ⟨_, got⟩
        obtain ⟨requests', exit'⟩ := took_world { w with ws := ws } c
        rw [if_pos rfl, got, Except.bind, received] at tick
        refine Or.inr (loopPass_ticked due tick idle' enabled' returns ?_ ?_)
        · refine requests'.trans ?_
          simp [requests, byte]
        · refine exit'.trans ?_
          simp [exit, byte]

theorem taken_exitOnStdin {x : Simulator tx rx} {i : LoopInput} {c : UInt8}
    (took : x.taken i = some c) (ack : i.stdin = 0x06) : i.exitOnStdin = true := by
  have due : i.readSerial = true := by
    by_contra idle
    simp [Simulator.taken, Simulator.asked, Bool.eq_false_iff.mpr idle] at took
  simp [LoopInput.exitOnStdin, due, ack]

/-- In a pass in which the client is confined, the request comes from stdin or not at all. -/
theorem PassStep.confined {x x' : Simulator tx rx} {i : LoopInput} (step : PassStep x x' i)
    (running : x.world.exit ≠ .ok) (confined : Confined x i) :
    decide (x.world.requests < x'.world.requests) = i.exitOnStdin := by
  have requests := step.requests
  by_cases took : x.taken i = some 0x06
  · have stdin := taken_exitOnStdin took ((confined running).2 took)
    rw [requests, stdin, Bool.toNat_true, decide_eq_true_eq]
    omega
  · cases h : i.exitOnStdin <;> simp [requests, took, h]

/-- No client, and nothing left of one. -/
structure Silent (s : Ws) : Prop where
  clientFd : s.clientFd = none
  empty : s.rx.toList = []

theorem Silent.putchar {s : Ws} (h : Silent s) (c : UInt8) : (s.wsPutchar c).1 = s := by
  simp [Ws.wsPutchar, h.clientFd]

theorem Silent.getchar {s : Ws} (h : Silent s) :
    s.wsGetchar none .wouldBlock = .ok ((0, s), []) := by
  have nothing : s.rx.pop = none := by
    unfold Ring.pop
    rw [if_neg (not_not.mpr (s.rx.toList_eq_nil.mp h.empty))]
  simp [Ws.wsGetchar, Ws.wsAccept, h.clientFd, Ws.wsReceive, Ws.rxPop, nothing, bind, Except.bind]

theorem Silent.grblPerByte {w : SimWorld} (h : Silent w.ws) (c : UInt8) :
    Silent (w.grblPerByte c).ws := by
  unfold SimWorld.grblPerByte
  split
  next =>
    refine ⟨?_, ?_⟩ <;> unfold Ws.wsToggleTxMuted <;> dsimp only <;> split
    exacts [h.clientFd, h.clientFd, h.empty, h.empty]
  next => simpa [Ws.wsKickClient, h.clientFd] using h
  next => exact h
  next => exact h

def LoopInput.silenced (i : LoopInput) : LoopInput :=
  { i with accepted := none, received := .wouldBlock }

theorem Silent.putchars {w : SimWorld} (h : Silent w.ws) (accepted : Option (Nat × Bool))
    (received : RecvResult) (bytes : List UInt8) :
    bytes.foldl (fun w c => (wsSim accepted received).putchar c w) w = w := by
  induction bytes with
  | nil => rfl
  | cons c bytes ih => simpa [wsSim, h.putchar c] using ih

/-- Without a client the main loop goes on, and no byte but 0 is taken. -/
theorem Silent.pass {y : Simulator tx rx} (ready : y.Ready) (h : Silent y.world.ws) (i : LoopInput) :
    Confined y i.silenced ∧ RecvFits y i.silenced ∧ y.taken i.silenced ≠ some 0x06 ∧
      ∃ y', y.loopPass i.silenced = .ok y' ∧ PassStep y y' i.silenced ∧ Silent y'.world.ws := by
  obtain ⟨idle, enabled⟩ := core_ready ready.1 ready.2 i.calls
  obtain ⟨s', hs, step⟩ := simulateTx_step idle enabled (wsSim none .wouldBlock) i.realtime y.world
  rw [h.putchars] at hs
  have printed : Silent (y.world.printSteps i.belowHoming).ws := by
    unfold SimWorld.printSteps
    split <;> exact h
  have simulated : (i.calls.foldl Serial.core y.serial).simulateSerial (wsSim none .wouldBlock)
      i.realtime y.world = .ok (s', y.world) := by
    simp only [Serial.simulateSerial, idle.booted, hs]
    cases s'.takesByte <;> simp [wsSim, h.getchar, bind, Except.bind, Serial.receiveByte]
  have taken : y.taken i.silenced ≠ some 0x06 := by
    simp only [Simulator.taken, Simulator.asked, LoopInput.silenced, hs]
    split <;> simp [h.getchar]
  have unread : y.rawInput i.silenced = none := by
    unfold Simulator.rawInput Ws.rawInput
    simp [LoopInput.silenced]
  have passed : ∃ y', y.loopPass i.silenced = .ok y' ∧ Silent y'.world.ws := by
    cases due : i.readSerial with
    | false => exact ⟨_, by simp [Simulator.loopPass, LoopInput.silenced, due]; rfl, printed⟩
    | true =>
      exact ⟨_, by
        simp [Simulator.loopPass, LoopInput.silenced, due, simulated, bind, Except.bind]
        rfl, printed.grblPerByte i.stdin⟩
  obtain ⟨y', passed, silent⟩ := passed
  have confined : Confined y i.silenced :=
    fun _ => ⟨by simp [unread], fun took => absurd took taken⟩
  refine ⟨confined, by simp [RecvFits, unread], taken, ?_⟩
  rcases loopPass_cases ready i.silenced with ⟨e, _, failed, _⟩ | ⟨next, ok, pass⟩
  · rw [failed] at passed
    cases passed
  · cases Except.ok.inj (ok.symm.trans passed)
    exact ⟨y', ok, pass, silent⟩

end GrblhalSim
