import GrblhalSim.RingQueue
import Mathlib.Algebra.GroupWithZero.Nat

namespace GrblhalSim

open RingQueue

/-- `mcu_uart_t`, without the clock divider. -/
structure Uart where
  rxIrq : Bool
  txIrq : Bool
  txFlag : Bool
  rxIrqEnable : Bool
  txIrqEnable : Bool
  rxData : UInt8
  txData : UInt8

instance bufferSize (k : Nat) : NeZero (2 ^ k) := ⟨(Nat.two_pow_pos k).ne'⟩

/-- The static variables of `serial.c` and the UART of `mcu.c`. The buffer sizes are powers of
two, `2 ^ tx` and `2 ^ rx`. -/
structure Serial (tx rx : Nat) where
  booted : Bool
  uart : Uart
  txbuffer : Ring UInt8 (2 ^ tx)
  rxbuffer : Ring UInt8 (2 ^ rx)
  overflow : Bool

/-- What the UART uses of `sim`, as operations on the state `ω` behind it. -/
structure SimVars (ω ε : Type) where
  getchar : ω → Except ε (UInt8 × ω)
  putchar : UInt8 → ω → ω
  requestExit : ω → ω

def asciiCan : UInt8 := 0x18

/-- `(i + 1) & (SIZE - 1)`. -/
def nextIndex {k : Nat} (i : Fin (2 ^ k)) : Fin (2 ^ k) :=
  ⟨(i.val + 1) &&& (2 ^ k - 1), Nat.and_lt_two_pow _ (Nat.sub_lt (Nat.two_pow_pos k) Nat.one_pos)⟩

theorem nextIndex_eq {k : Nat} (i : Fin (2 ^ k)) : nextIndex i = i + 1 := by
  apply Fin.ext
  rw [val_add_one]
  exact Nat.and_two_pow_sub_one_eq_mod (i.val + 1) k

variable {tx rx : Nat} {ω ε : Type}

/-- After `mcu_reset` and `serialInit`. -/
def Serial.serialInit : Serial tx rx :=
  ⟨true, ⟨false, false, false, true, false, 0, 0⟩, Ring.empty 0, Ring.empty 0, false⟩

def Serial.serialGetC (s : Serial tx rx) : Option UInt8 × Serial tx rx :=
  let bptr := s.rxbuffer.tail
  if bptr = s.rxbuffer.head then (none, s)
  else (some (s.rxbuffer.buf bptr), { s with rxbuffer := { s.rxbuffer with tail := nextIndex bptr } })

def Serial.serialRxCount (s : Serial tx rx) : UInt16 := UInt16.ofNat s.rxbuffer.count

def Serial.serialRxFree (s : Serial tx rx) : UInt16 := UInt16.ofNat (2 ^ rx - 1) - s.serialRxCount

def Serial.serialRxFlush (s : Serial tx rx) : Serial tx rx :=
  { s with rxbuffer := { s.rxbuffer with tail := s.rxbuffer.head }, overflow := false }

def Serial.serialRxCancel (s : Serial tx rx) : Serial tx rx :=
  let s := s.serialRxFlush
  { s with rxbuffer := {
      s.rxbuffer with
      buf := Function.update s.rxbuffer.buf s.rxbuffer.head asciiCan
      head := nextIndex s.rxbuffer.tail } }

/-- A pass of the loop of `serialPutC`, with what `stream_blocking_callback` returns when the
buffer is full; `none` when the loop goes on. -/
def Serial.serialPutC (s : Serial tx rx) (c : UInt8) (blocking : Bool) :
    Option Bool × Serial tx rx :=
  let nextHead := nextIndex s.txbuffer.head
  if s.txbuffer.tail = nextHead then (if blocking then none else some false, s)
  else
    (some true, { s with
      txbuffer := {
        s.txbuffer with
        buf := Function.update s.txbuffer.buf s.txbuffer.head c
        head := nextHead }
      uart := { s.uart with txIrqEnable := true } })

def Serial.uartTxInterrupt (s : Serial tx rx) : Serial tx rx :=
  let bptr := s.txbuffer.tail
  if s.uart.txIrq && decide (s.txbuffer.head ≠ bptr) then
    { s with
      uart := {
        s.uart with
        txData := s.txbuffer.buf bptr
        txIrq := false
        txFlag := true
        txIrqEnable := s.uart.txIrqEnable && decide (nextIndex bptr ≠ s.txbuffer.head) }
      txbuffer := { s.txbuffer with tail := nextIndex bptr } }
  else s

/-- The receiving half of the handler, with the verdict of `enqueue_realtime_command`. -/
def Serial.uartRxInterrupt (sim : SimVars ω ε) (realtime : UInt8 → Bool) (s : Serial tx rx) (w : ω) :
    Serial tx rx × ω :=
  if s.uart.rxIrq then
    let bptr := nextIndex s.rxbuffer.head
    let data := s.uart.rxData
    let served := { s with uart := { s.uart with rxIrq := false } }
    if bptr = s.rxbuffer.tail then ({ served with overflow := true }, w)
    else
      let w := if data = 0x06 then sim.requestExit w else w
      if realtime data then (served, w)
      else
        ({ served with rxbuffer := {
            s.rxbuffer with
            buf := Function.update s.rxbuffer.buf s.rxbuffer.head data
            head := bptr } }, w)
  else (s, w)

def Serial.uartInterruptHandler (sim : SimVars ω ε) (realtime : UInt8 → Bool) (s : Serial tx rx)
    (w : ω) : Serial tx rx × ω :=
  s.uartTxInterrupt.uartRxInterrupt sim realtime w

/-- The lines of `simulate_serial` that transmit. -/
def Serial.simulateTx (sim : SimVars ω ε) (realtime : UInt8 → Bool) (s : Serial tx rx) (w : ω) :
    Serial tx rx × ω :=
  let w := if s.uart.txFlag then sim.putchar s.uart.txData w else w
  let s := { s with uart := { s.uart with txFlag := false, txIrq := s.uart.txIrqEnable } }
  if s.uart.txIrq then s.uartInterruptHandler sim realtime w else (s, w)

/-- The test before a byte is taken from `sim.getchar`. -/
def Serial.takesByte (s : Serial tx rx) : Bool :=
  s.uart.rxIrqEnable && !s.uart.rxIrq && decide (100 < s.serialRxFree)

/-- What `simulate_serial` does with a byte that it has taken. -/
def Serial.receiveByte (sim : SimVars ω ε) (realtime : UInt8 → Bool) (charIn : UInt8)
    (s : Serial tx rx) (w : ω) : Serial tx rx × ω :=
  if charIn ≠ 0 then
    let s := { s with uart := { s.uart with rxData := charIn, rxIrq := true } }
    s.uartInterruptHandler sim realtime w
  else (s, w)

def Serial.simulateSerial (sim : SimVars ω ε) (realtime : UInt8 → Bool) (s : Serial tx rx) (w : ω) :
    Except ε (Serial tx rx × ω) :=
  if !s.booted then .ok (s, w)
  else
    let (s, w) := s.simulateTx sim realtime w
    if s.takesByte then do
      let (charIn, w) ← sim.getchar w
      .ok (s.receiveByte sim realtime charIn w)
    else .ok (s, w)

end GrblhalSim
