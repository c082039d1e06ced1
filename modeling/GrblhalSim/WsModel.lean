import GrblhalSim.RingQueue
import GrblhalSim.StreamParser

namespace GrblhalSim

open RingQueue StreamParser

def wsRxBufSize : Nat := 4096
def wsTxBufSize : Nat := 512
def rawBufSize : Nat := 4096

instance : NeZero wsRxBufSize := ⟨by decide⟩

/-- The static variables of `websocket.c`. Of `tx_buf` and `raw_buf` the bytes in use are kept,
so `tx_len` and `raw_len` are lengths. -/
structure Ws where
  clientFd : Option Nat
  wsHandshakeDone : Bool
  wsTxMuted : Bool
  rx : Ring UInt8 wsRxBufSize
  txBuf : List UInt8
  rawBuf : List UInt8

def Ws.init : Ws := ⟨none, false, false, Ring.empty 0, [], []⟩

def freshClient : Ws := { Ws.init with clientFd := some 4, wsHandshakeDone := true }

def int32 (n : Int) : Int := n.bmod (2 ^ 32)

/-- Why the frame parser leaves off: the frame is not there yet, or an access is out of bounds. -/
inductive Stop
  | needMore
  | fault
  deriving DecidableEq

/-- A read of `raw_buf`, allowed below `raw_len` only. -/
def rawRead (raw : List UInt8) (i : Nat) : Except Stop UInt8 :=
  match raw[i]? with
  | some b => .ok b
  | none => .error .fault

structure FrameHeader where
  opcode : UInt8
  masked : Bool
  payloadLen : UInt64
  headerLen : Nat
  deriving DecidableEq

/-- `n` bytes of the length from index `i` on, after those in `acc`. -/
def readLength (raw : List UInt8) : Nat → Nat → UInt64 → Except Stop UInt64
  | 0, _, acc => .ok acc
  | n + 1, i, acc => do
    let b ← rawRead raw i
    readLength raw n (i + 1) (acc <<< 8 ||| b.toUInt64)

def readHeader (raw : List UInt8) : Except Stop FrameHeader := do
  let p0 ← rawRead raw 0
  let p1 ← rawRead raw 1
  let opcode := p0 &&& 0x0F
  let masked := p1 &&& 0x80 != 0
  let payloadLen := (p1 &&& 0x7F).toUInt64
  if payloadLen = 126 then
    if raw.length < 4 then .error .needMore
    else .ok ⟨opcode, masked, ← readLength raw 2 2 0, 4⟩
  else if payloadLen = 127 then
    if raw.length < 10 then .error .needMore
    else .ok ⟨opcode, masked, ← readLength raw 8 2 0, 10⟩
  else .ok ⟨opcode, masked, payloadLen, 2⟩

def FrameHeader.maskLen (h : FrameHeader) : Nat := if h.masked then 4 else 0

/-- The `needed` of the frame, computed in `int`. -/
def FrameHeader.needed (h : FrameHeader) : Int :=
  int32 ((h.headerLen + h.maskLen : Nat) + int32 h.payloadLen.toNat)

def FrameHeader.payloadStart (h : FrameHeader) : Nat := h.headerLen + h.maskLen

/-- `payload[i] ^= mask_key[i % 4]`, `n` times from `i` on. -/
def unmaskLoop (headerLen : Nat) : Nat → Nat → List UInt8 → Except Stop (List UInt8)
  | 0, _, raw => .ok raw
  | n + 1, i, raw => do
    let b ← rawRead raw (headerLen + 4 + i)
    let m ← rawRead raw (headerLen + i % 4)
    unmaskLoop headerLen n (i + 1) (raw.set (headerLen + 4 + i) (b ^^^ m))

def unmask (h : FrameHeader) (raw : List UInt8) : Except Stop (List UInt8) :=
  if h.masked then unmaskLoop h.headerLen h.payloadLen.toNat 0 raw else .ok raw

/-- The bytes that `rx_push(payload[i])` is called with, `n` times from index `i` of the buffer. -/
def pushLoop (raw : List UInt8) : Nat → Nat → Except Stop (List UInt8)
  | 0, _ => .ok []
  | n + 1, i => do
    let b ← rawRead raw i
    let bs ← pushLoop raw n (i + 1)
    .ok (b :: bs)

/-- What handling a frame does outside of `raw_buf`: calls of `rx_push` and of `send`. -/
inductive WsOut
  | rxPush (c : UInt8)
  | send (bytes : List UInt8)
  deriving DecidableEq

def pongHeader : List UInt8 := [0x8A, 0x00]

/-- The switch on the opcode; `none` when it closes the connection. -/
def handleFrame (h : FrameHeader) (raw : List UInt8) : Except Stop (Option (List WsOut)) :=
  if h.opcode = 0x01 ∨ h.opcode = 0x02 then do
    let payload ← pushLoop raw h.payloadLen.toNat h.payloadStart
    .ok (some (payload.map .rxPush))
  else if h.opcode = 0x08 then .ok none
  else if h.opcode = 0x09 then .ok (some [.send pongHeader])
  else .ok (some [])

/-- One pass of the loop of `process_raw_buffer`. With a negative `needed` it ends with a
`memmove` from before the start of `raw_buf`. -/
def framePass (raw : List UInt8) : Pass UInt8 WsOut :=
  if raw.length < 2 then .wait
  else
    match readHeader raw with
    | .error .needMore => .wait
    | .error .fault => .fault
    | .ok h =>
      if raw.length < h.needed then .wait
      else
        match unmask h raw with
        | .error _ => .fault
        | .ok raw =>
          match handleFrame h raw with
          | .error _ => .fault
          | .ok none => .halt
          | .ok (some out) =>
            if h.needed < 0 then .fault else .take out (raw.drop h.needed.toNat)

section Waits

variable {raw : List UInt8}

theorem framePass_short (short : raw.length < 2) : framePass raw = .wait := if_pos short

theorem framePass_needMore (more : readHeader raw = .error .needMore) : framePass raw = .wait := by
  simp only [framePass, more, ite_self]

theorem framePass_waiting {h : FrameHeader} (header : readHeader raw = .ok h)
    (more : raw.length < h.needed) : framePass raw = .wait := by
  simp only [framePass, header, if_pos more, ite_self]

end Waits

/-- `process_raw_buffer`: what it does and what it leaves in `raw_buf`; `none` when the loop
never ends. -/
def processRawBuffer (raw : List UInt8) : Option (List WsOut × Ending UInt8) :=
  loop framePass (raw.length + 1) raw

end GrblhalSim
