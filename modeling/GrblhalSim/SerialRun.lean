import GrblhalSim.CallRun
import GrblhalSim.SerialModel

namespace GrblhalSim

open CallRun RingQueue

variable {tx rx : Nat} {ω ε : Type}

/-- The byte that is on its way out of the UART. -/
def Serial.held (s : Serial tx rx) : List UInt8 := if s.uart.txFlag then [s.uart.txData] else []

structure Serial.Idle (s : Serial tx rx) : Prop where
  booted : s.booted = true
  txIrq : s.uart.txIrq = false
  rxIrq : s.uart.rxIrq = false

/-- The transmit interrupt is enabled exactly when there is a byte to transmit. -/
def Serial.TxEnabled (s : Serial tx rx) : Prop :=
  s.uart.txIrqEnable = true ↔ s.txbuffer.toList ≠ []

theorem serialInit_idle : (Serial.serialInit : Serial tx rx).Idle := ⟨rfl, rfl, rfl⟩

theorem serialInit_txEnabled : (Serial.serialInit : Serial tx rx).TxEnabled := by
  simp [Serial.TxEnabled, Serial.serialInit, Ring.toList_empty]

theorem serialGetC_eq (s : Serial tx rx) :
    s.serialGetC =
      match s.rxbuffer.pop with
      | some (c, ring) => (some c, { s with rxbuffer := ring })
      | none => (none, s) := by
  by_cases empty : s.rxbuffer.head = s.rxbuffer.tail
  · simp [Serial.serialGetC, Ring.pop, empty]
  · simp [Serial.serialGetC, Ring.pop, empty, Ne.symm empty, nextIndex_eq]

/-- `serialPutC` takes the byte or leaves everything as it is. -/
theorem serialPutC_cases (s : Serial tx rx) (c : UInt8) (blocking : Bool) :
    (∃ result, result ≠ some true ∧ s.serialPutC c blocking = (result, s)) ∨
      (s.txbuffer.count + 1 < 2 ^ tx ∧ s.serialPutC c blocking = (some true,
        { s with txbuffer := s.txbuffer.push c, uart := { s.uart with txIrqEnable := true } })) := by
  by_cases full : s.txbuffer.head + 1 = s.txbuffer.tail
  · left
    refine ⟨if blocking then none else some false, ?_, ?_⟩
    · cases blocking <;> simp
    · simp [Serial.serialPutC, nextIndex_eq, full]
  · right
    have room : s.txbuffer.count + 1 < 2 ^ tx := by
      have bound := s.txbuffer.count_lt
      have notLast := (not_congr s.txbuffer.full_iff).mp full
      omega
    refine ⟨room, ?_⟩
    simp [Serial.serialPutC, nextIndex_eq, Ring.push_room room, Ne.symm full]

/-- `s'` is `s` after the transmitting lines of `simulate_serial`. -/
structure Serial.TxStep (s s' : Serial tx rx) : Prop where
  idle : s'.Idle
  enabled : s'.TxEnabled
  moved : s.txbuffer.toList = s'.held ++ s'.txbuffer.toList
  filled : s.txbuffer.toList ≠ [] → s'.held ≠ []
  rxbuffer : s'.rxbuffer = s.rxbuffer
  overflow : s'.overflow = s.overflow
  rxIrqEnable : s'.uart.rxIrqEnable = s.uart.rxIrqEnable

theorem uartTxInterrupt_idle {s : Serial tx rx} (idle : s.uart.txIrq = false) :
    s.uartTxInterrupt = s := by
  simp [Serial.uartTxInterrupt, idle]

theorem simulateTx_step {s : Serial tx rx} (idle : s.Idle) (enabled : s.TxEnabled)
    (sim : SimVars ω ε) (realtime : UInt8 → Bool) (w : ω) :
    ∃ s', s.simulateTx sim realtime w = (s', s.held.foldl (fun w c => sim.putchar c w) w) ∧
      s.TxStep s' := by
  have out : (if s.uart.txFlag then sim.putchar s.uart.txData w else w) =
      s.held.foldl (fun w c => sim.putchar c w) w := by
    unfold Serial.held
    split <;> rfl
  cases on : s.uart.txIrqEnable with
  | false =>
    have empty : s.txbuffer.toList = [] := by simpa [Serial.TxEnabled, on] using enabled
    refine ⟨{ s with uart := { s.uart with txFlag := false, txIrq := false } }, ?_, ?_⟩
    · simp [Serial.simulateTx, on, out]
    · exact ⟨⟨idle.booted, rfl, idle.rxIrq⟩, enabled, by simp [empty, Serial.held],
        fun some => absurd empty some, rfl, rfl, rfl⟩
  | true =>
    have some : s.txbuffer.toList ≠ [] := enabled.mp on
    have apart : s.txbuffer.head ≠ s.txbuffer.tail := fun same =>
      some (s.txbuffer.toList_eq_nil.mpr same)
    have popped : s.txbuffer.toList =
        s.txbuffer.buf s.txbuffer.tail ::
          ({ s.txbuffer with tail := s.txbuffer.tail + 1 } : Ring UInt8 (2 ^ tx)).toList :=
      Ring.pop_some (by simp [Ring.pop, apart])
    refine ⟨{ s with
      uart := {
        s.uart with
        txData := s.txbuffer.buf s.txbuffer.tail
        txIrq := false
        txFlag := true
        txIrqEnable := decide (s.txbuffer.tail + 1 ≠ s.txbuffer.head) }
      txbuffer := { s.txbuffer with tail := s.txbuffer.tail + 1 } }, ?_, ?_⟩
    · simp [Serial.simulateTx, Serial.uartInterruptHandler, Serial.uartTxInterrupt,
        Serial.uartRxInterrupt, idle.rxIrq, on, out, apart, nextIndex_eq]
    · refine ⟨⟨idle.booted, rfl, idle.rxIrq⟩, ?_, popped, fun _ => by simp [Serial.held], rfl, rfl,
        rfl⟩
      simp only [Serial.TxEnabled, decide_eq_true_eq, ne_eq, Ring.toList_eq_nil]
      exact not_congr eq_comm

/-- There is room for a byte that `simulate_serial` takes. -/
theorem takesByte_room {s : Serial tx rx} (takes : s.takesByte = true) :
    s.rxbuffer.count + 1 < 2 ^ rx := by
  have bound := s.rxbuffer.count_lt
  by_contra full
  have last : s.rxbuffer.count = 2 ^ rx - 1 := by omega
  simp [Serial.takesByte, Serial.serialRxFree, Serial.serialRxCount, last] at takes

/-- A byte that is taken with room for it goes to the realtime handler or into the ring. -/
theorem receiveByte_eq {s : Serial tx rx} (idle : s.Idle) (room : s.rxbuffer.count + 1 < 2 ^ rx)
    {charIn : UInt8} (nonzero : charIn ≠ 0) (sim : SimVars ω ε) (realtime : UInt8 → Bool) (w : ω) :
    s.receiveByte sim realtime charIn w =
      ({ s with
          uart := { s.uart with rxData := charIn }
          rxbuffer := if realtime charIn then s.rxbuffer else s.rxbuffer.push charIn },
        if charIn = 0x06 then sim.requestExit w else w) := by
  have notFull : s.rxbuffer.head + 1 ≠ s.rxbuffer.tail := fun full => by
    have := s.rxbuffer.full_iff.mp full
    omega
  cases h : realtime charIn <;>
    simp [Serial.receiveByte, nonzero, Serial.uartInterruptHandler, uartTxInterrupt_idle, idle.txIrq,
      Serial.uartRxInterrupt, nextIndex_eq, notFull, h, idle.rxIrq, Ring.push_room room]

theorem receiveByte_idle {s : Serial tx rx} (idle : s.Idle) (enabled : s.TxEnabled)
    (room : s.rxbuffer.count + 1 < 2 ^ rx) (charIn : UInt8) (sim : SimVars ω ε)
    (realtime : UInt8 → Bool) (w : ω) :
    ∃ s', s.receiveByte sim realtime charIn w =
        (s', if charIn = 0x06 then sim.requestExit w else w) ∧ s'.Idle ∧ s'.TxEnabled := by
  by_cases zero : charIn = 0
  · subst zero
    exact ⟨s, by simp [Serial.receiveByte], idle, enabled⟩
  · exact ⟨_, receiveByte_eq idle room zero sim realtime w,
      ⟨idle.booted, idle.txIrq, idle.rxIrq⟩, enabled⟩

/-- What grblHAL calls of the stream, and what `stream_blocking_callback` returns to it. -/
inductive CoreCall
  | putC (c : UInt8) (blocking : Bool)
  | getC
  | rxFlush
  | rxCancel

inductive SerialEvent
  | core (call : CoreCall)
  | simulate (charIn : UInt8) (realtime : UInt8 → Bool)

/-- The bytes passed to `sim.putchar`, and those from `sim.getchar` that no realtime command was
made of. -/
structure Line where
  sent : List UInt8
  kept : List UInt8

/-- `sim` with `charIn` as the next byte to be taken. -/
def lineSim (charIn : UInt8) (realtime : UInt8 → Bool) : SimVars Line Empty where
  getchar l := .ok (charIn,
    if charIn ≠ 0 ∧ realtime charIn = false then { l with kept := l.kept ++ [charIn] } else l)
  putchar c l := { l with sent := l.sent ++ [c] }
  requestExit l := l

@[simp] theorem lineSim_requestExit (charIn : UInt8) (realtime : UInt8 → Bool) (l : Line) :
    (lineSim charIn realtime).requestExit l = l := rfl

/-- The port with the bytes for which `serialPutC` returned true, and those that `serialGetC` has
returned. The receiving side counts from the last flush or cancel on. -/
structure Traffic (tx rx : Nat) where
  serial : Serial tx rx
  line : Line
  accepted : List UInt8
  returned : List UInt8

def Traffic.start : Traffic tx rx := ⟨Serial.serialInit, ⟨[], []⟩, [], []⟩

def Traffic.core (x : Traffic tx rx) : CoreCall → Traffic tx rx
  | .putC c blocking =>
    let (result, serial) := x.serial.serialPutC c blocking
    { x with
      serial := serial
      accepted := if result = some true then x.accepted ++ [c] else x.accepted }
  | .getC =>
    let (result, serial) := x.serial.serialGetC
    { x with serial := serial, returned := x.returned ++ result.toList }
  | .rxFlush =>
    { x with serial := x.serial.serialRxFlush, line := { x.line with kept := [] }, returned := [] }
  | .rxCancel =>
    { x with
      serial := x.serial.serialRxCancel
      line := { x.line with kept := [asciiCan] }
      returned := [] }

def trafficStep (x : Traffic tx rx) : SerialEvent → Except Empty (Traffic tx rx)
  | .core call => .ok (x.core call)
  | .simulate charIn realtime => do
    let (serial, line) ← x.serial.simulateSerial (lineSim charIn realtime) realtime x.line
    .ok { x with serial := serial, line := line }

theorem Serial.Idle.core {x : Traffic tx rx} (idle : x.serial.Idle) (call : CoreCall) :
    (x.core call).serial.Idle := by
  cases call with
  | putC c blocking =>
    rcases serialPutC_cases x.serial c blocking with ⟨result, _, same⟩ | ⟨_, taken⟩
    · simpa [Traffic.core, same] using idle
    · simp only [Traffic.core, taken]
      exact ⟨idle.booted, idle.txIrq, idle.rxIrq⟩
  | getC =>
    simp only [Traffic.core, serialGetC_eq]
    split
    · exact ⟨idle.booted, idle.txIrq, idle.rxIrq⟩
    · exact idle
  | rxFlush => exact ⟨idle.booted, idle.txIrq, idle.rxIrq⟩
  | rxCancel => exact ⟨idle.booted, idle.txIrq, idle.rxIrq⟩

/-- `simulate_serial` transmits, and then takes a byte or leaves the receiving side alone. -/
theorem simulate_cases {x : Traffic tx rx} (idle : x.serial.Idle) (enabled : x.serial.TxEnabled)
    (charIn : UInt8) (realtime : UInt8 → Bool) :
    ∃ s', x.serial.TxStep s' ∧
      (trafficStep x (.simulate charIn realtime) = .ok
          { x with serial := s', line := { x.line with sent := x.line.sent ++ x.serial.held } } ∨
        charIn ≠ 0 ∧ s'.rxbuffer.count + 1 < 2 ^ rx ∧
          trafficStep x (.simulate charIn realtime) = .ok { x with
            serial := { s' with
              uart := { s'.uart with rxData := charIn }
              rxbuffer := if realtime charIn then s'.rxbuffer else s'.rxbuffer.push charIn }
            line := ⟨x.line.sent ++ x.serial.held,
              if realtime charIn then x.line.kept else x.line.kept ++ [charIn]⟩ }) := by
  obtain ⟨s', hs, step⟩ := simulateTx_step idle enabled (lineSim charIn realtime) realtime x.line
  have sent : x.serial.held.foldl (fun w c => (lineSim charIn realtime).putchar c w) x.line =
      { x.line with sent := x.line.sent ++ x.serial.held } := by
    unfold Serial.held
    split <;> simp [lineSim]
  rw [sent] at hs
  have tick : x.serial.simulateSerial (lineSim charIn realtime) realtime x.line =
      if s'.takesByte then
        .ok (s'.receiveByte (lineSim charIn realtime) realtime charIn
          (if charIn ≠ 0 ∧ realtime charIn = false then
            ⟨x.line.sent ++ x.serial.held, x.line.kept ++ [charIn]⟩
          else ⟨x.line.sent ++ x.serial.held, x.line.kept⟩))
      else .ok (s', ⟨x.line.sent ++ x.serial.held, x.line.kept⟩) := by
    simp only [Serial.simulateSerial, idle.booted, hs]
    rfl
  refine ⟨s', step, ?_⟩
  cases takes : s'.takesByte with
  | false =>
    left
    simp [trafficStep, tick, takes, bind, Except.bind]
  | true =>
    have room := takesByte_room takes
    by_cases zero : charIn = 0
    · left
      subst zero
      simp [trafficStep, tick, takes, bind, Except.bind, Serial.receiveByte]
    · right
      refine ⟨zero, room, ?_⟩
      cases h : realtime charIn <;>
        simp [trafficStep, tick, takes, bind, Except.bind, receiveByte_eq step.idle room zero, zero,
          h]

end GrblhalSim
