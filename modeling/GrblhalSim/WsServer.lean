import GrblhalSim.WsModel

namespace GrblhalSim

open RingQueue StreamParser

/-- How a call ends without returning: it runs for ever, or it accesses memory out of bounds. -/
inductive NoReturn
  | hangs
  | undefined
  deriving DecidableEq

inductive RecvResult
  | data (bytes : List UInt8)
  | eof
  | wouldBlock
  | error
  deriving DecidableEq

structure Send where
  fd : Nat
  buf : List UInt8
  len : Int
  deriving DecidableEq

/-- The bytes that a call of `send` is given. -/
def Send.given (s : Send) : List UInt8 := s.buf.take s.len.toNat

def WsOut.pushed : WsOut → Option UInt8
  | .rxPush c => some c
  | .send _ => none

def pushedBytes (out : List WsOut) : List UInt8 := out.filterMap WsOut.pushed

def Ws.rxPushAll (s : Ws) (out : List WsOut) : Ws :=
  { s with rx := (pushedBytes out).foldl Ring.push s.rx }

/-- The lines with which `process_raw_buffer` and `process_incoming` end a session. -/
def Ws.sockClose (s : Ws) : Ws :=
  { s with clientFd := none, wsHandshakeDone := false, rawBuf := [] }

def Ws.processIncoming (s : Ws) (received : RecvResult) : Except NoReturn (Ws × List WsOut) :=
  if rawBufSize ≤ s.rawBuf.length then .ok (s, [])
  else
    match received with
    | .data bytes =>
      match processRawBuffer (s.rawBuf ++ bytes) with
      | none => .error .hangs
      | some (_, .faulted) => .error .undefined
      | some (out, .halted) => .ok ((s.rxPushAll out).sockClose, out)
      | some (out, .waiting rest) => .ok ({ s.rxPushAll out with rawBuf := rest }, out)
    | .eof => .ok (s.sockClose, [])
    | .wouldBlock => .ok (s, [])
    | .error => .ok (s.sockClose, [])

def wsFrameHeader (len : Nat) : List UInt8 :=
  if len < 126 then [0x81, UInt8.ofNat len]
  else if len < 65536 then [0x81, 126, UInt8.ofNat (len >>> 8 &&& 0xFF), UInt8.ofNat (len &&& 0xFF)]
  else 0x81 :: 127 :: (List.range 8).map fun i => UInt8.ofNat (len >>> (56 - 8 * i))

def Ws.wsSendFrame (s : Ws) (data : List UInt8) : List Send :=
  match s.clientFd with
  | none => []
  | some fd =>
    if !s.wsHandshakeDone then []
    else
      let header := wsFrameHeader data.length
      [⟨fd, header, int32 header.length⟩, ⟨fd, data, int32 data.length⟩]

/-- The first half of `ws_getchar`, from the socket that `accept` returns, if any, with the
verdict of `do_handshake` on it. -/
def Ws.wsAccept (s : Ws) (accepted : Option (Nat × Bool)) : Ws :=
  match s.clientFd, accepted with
  | none, some (fd, true) =>
    { s with clientFd := some fd, wsHandshakeDone := true, rawBuf := [] }
  | _, _ => s

def Ws.Connected (s : Ws) : Prop := s.clientFd.isSome ∧ s.wsHandshakeDone

def Ws.wsReceive (s : Ws) (received : RecvResult) : Except NoReturn (Ws × List WsOut) :=
  if s.clientFd.isSome && s.wsHandshakeDone then s.processIncoming received else .ok (s, [])

def Ws.rxPop (s : Ws) : UInt8 × Ws :=
  match s.rx.pop with
  | some (c, rx) => (c, { s with rx := rx })
  | none => (0, s)

theorem Ws.rxPop_rawBuf (s : Ws) : s.rxPop.2.rawBuf = s.rawBuf := by
  unfold Ws.rxPop
  split <;> rfl

theorem Ws.rxPop_txBuf (s : Ws) : s.rxPop.2.txBuf = s.txBuf := by
  unfold Ws.rxPop
  split <;> rfl

theorem Ws.rxPop_clientFd (s : Ws) : s.rxPop.2.clientFd = s.clientFd := by
  unfold Ws.rxPop
  split <;> rfl

theorem Ws.rxPop_connected (s : Ws) : s.rxPop.2.Connected ↔ s.Connected := by
  unfold Ws.rxPop
  split <;> rfl

def Ws.wsGetchar (s : Ws) (accepted : Option (Nat × Bool)) (received : RecvResult) :
    Except NoReturn ((UInt8 × Ws) × List WsOut) := do
  let (s, out) ← (s.wsAccept accepted).wsReceive received
  .ok (s.rxPop, out)

def Ws.wsPutchar (s : Ws) (data : UInt8) : Ws × List Send :=
  if s.clientFd.isNone || !s.wsHandshakeDone then (s, [])
  else if s.wsTxMuted then ({ s with txBuf := [] }, [])
  else
    let txBuf := s.txBuf ++ [data]
    if data = 10 ∨ data = 13 ∨ wsTxBufSize - 1 ≤ txBuf.length then
      ({ s with txBuf := [] }, s.wsSendFrame txBuf)
    else ({ s with txBuf := txBuf }, [])

def Ws.wsToggleTxMuted (s : Ws) : Bool × Ws :=
  let muted := !s.wsTxMuted
  (muted, if muted then { s with wsTxMuted := muted, txBuf := [] } else { s with wsTxMuted := muted })

def Ws.wsKickClient (s : Ws) : Bool × Ws :=
  if s.clientFd.isNone then (false, s) else (true, { s.sockClose with txBuf := [] })

end GrblhalSim
