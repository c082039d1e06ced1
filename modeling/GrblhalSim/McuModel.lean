import GrblhalSim.Countdown
import Mathlib.Data.List.FinRange

namespace GrblhalSim

open Countdown

def mcuNTimers : Nat := 3

def mcuNGpio : Nat := 12

inductive IrqNum
  | systick
  | uart
  | timer (i : Fin mcuNTimers)
  | gpio (i : Fin mcuNGpio)
  deriving DecidableEq

structure McuTimer where
  enable : Bool
  irqEnable : Bool
  value : UInt32
  load : UInt32
  prescale : UInt32
  prescaler : UInt32
  deriving DecidableEq

structure GpioPortT where
  state : UInt16
  irqMask : UInt16
  irqState : UInt16
  rising : UInt16
  falling : UInt16
  deriving DecidableEq

structure Mcu where
  irqEnable : Bool
  booted : Bool
  timers : Vector McuTimer mcuNTimers
  systickTimer : McuTimer
  gpio : Vector GpioPortT mcuNGpio

def Mcu.timer (m : Mcu) (i : Fin mcuNTimers) : McuTimer := m.timers[i]

/-- An interrupt that was taken: the call of `mcu_master_clock` that raised it, and the MCU as its
handler left it. -/
structure Interrupt where
  irq : IrqNum
  clock : Nat
  left : Mcu

/-- The MCU and the rest of the program, with the number of calls of `mcu_master_clock` so far and
the interrupts that they raised. -/
structure Machine (σ : Type) where
  mcu : Mcu
  rest : σ
  clock : Nat
  taken : List Interrupt

abbrev Handler (σ : Type) := Mcu × σ → Mcu × σ

/-- The handlers that are registered. -/
abbrev IsrTable (σ : Type) := IrqNum → Handler σ

def McuTimer.off : McuTimer := ⟨false, false, 0, 0, 0, 0⟩

def GpioPortT.off : GpioPortT := ⟨0, 0, 0, 0, 0⟩

def mcuReset : Mcu :=
  ⟨true, true, Vector.replicate mcuNTimers .off, .off, Vector.replicate mcuNGpio .off⟩

/-- The prescaler; the flag is false where the source continues with the next timer. -/
def McuTimer.prescaled (t : McuTimer) : McuTimer × Bool :=
  if t.prescaler ≠ 0 then
    if t.prescale = 0 then ({ t with prescale := t.prescaler }, true)
    else
      let t := { t with prescale := t.prescale - 1 }
      if t.prescale ≠ 0 then (t, false)
      else ({ t with prescale := t.prescaler }, true)
  else (t, true)

/-- The counter; the flag tells whether it was decremented to zero. -/
def McuTimer.countDown (t : McuTimer) : McuTimer × Bool :=
  if t.value = 0 then ({ t with value := t.load }, false)
  else
    let t := { t with value := t.value - 1 }
    (t, t.value = 0)

def McuTimer.reload (t : McuTimer) : McuTimer := { t with value := t.load }

/-- One clock of an enabled timer, up to the interrupt. -/
def McuTimer.clock (t : McuTimer) : McuTimer × Bool :=
  if t.prescaled.2 then t.prescaled.1.countDown else (t.prescaled.1, false)

section Machine

variable {σ : Type}

def Machine.start (mcu : Mcu) (rest : σ) : Machine σ := ⟨mcu, rest, 0, []⟩

def Machine.interrupt (isr : IsrTable σ) (s : Machine σ) (irq : IrqNum) : Machine σ :=
  let x := isr irq (s.mcu, s.rest)
  { s with mcu := x.1, rest := x.2, taken := s.taken ++ [⟨irq, s.clock, x.1⟩] }

def Machine.setTimer (s : Machine σ) (i : Fin mcuNTimers) (t : McuTimer) : Machine σ :=
  { s with mcu := { s.mcu with timers := s.mcu.timers.set i t } }

def Machine.setSystick (s : Machine σ) (t : McuTimer) : Machine σ :=
  { s with mcu := { s.mcu with systickTimer := t } }

def Machine.clockTimer (isr : IsrTable σ) (s : Machine σ) (i : Fin mcuNTimers) : Machine σ :=
  let t := s.mcu.timer i
  if t.enable then
    let s := s.setTimer i t.clock.1
    if t.clock.2 then
      let s := if t.irqEnable && s.mcu.irqEnable then s.interrupt isr (.timer i) else s
      s.setTimer i (s.mcu.timer i).reload
    else s
  else s

def Machine.clockGpio (isr : IsrTable σ) (s : Machine σ) (i : Fin mcuNGpio) : Machine σ :=
  let port := s.mcu.gpio[i]
  if port.irqState &&& port.irqMask ≠ 0 then s.interrupt isr (.gpio i) else s

def Machine.clockSystick (isr : IsrTable σ) (s : Machine σ) : Machine σ :=
  let t := s.mcu.systickTimer
  if t.enable then
    let s := s.setSystick t.countDown.1
    if t.countDown.2 then
      let s := if t.irqEnable && s.mcu.irqEnable then s.interrupt isr .systick else s
      s.setSystick s.mcu.systickTimer.reload
    else s
  else s

def mcuMasterClock (isr : IsrTable σ) (s : Machine σ) : Machine σ :=
  let s := { s with clock := s.clock + 1 }
  if !s.mcu.booted then s
  else
    let s := (List.finRange mcuNTimers).foldl (Machine.clockTimer isr) s
    let s := (List.finRange mcuNGpio).foldl (Machine.clockGpio isr) s
    s.clockSystick isr

/-- What happens one after the other: a call of `mcu_master_clock`, or some other code that runs
between two of them. -/
inductive McuEvent (σ : Type)
  | masterClock
  | program (code : Handler σ)

def Machine.after (isr : IsrTable σ) (s : Machine σ) : McuEvent σ → Machine σ
  | .masterClock => mcuMasterClock isr s
  | .program code =>
    let x := code (s.mcu, s.rest)
    { s with mcu := x.1, rest := x.2 }

def Machine.run (isr : IsrTable σ) (s : Machine σ) (events : List (McuEvent σ)) : Machine σ :=
  events.foldl (Machine.after isr) s

/-- The calls of `mcu_master_clock` in a run. -/
def masterClocks : List (McuEvent σ) → Nat
  | [] => 0
  | .masterClock :: events => masterClocks events + 1
  | .program _ :: events => masterClocks events

def Machine.interrupts (s : Machine σ) (irq : IrqNum) : List Interrupt :=
  s.taken.filter (·.irq = irq)

section Frame

variable {β : Type} {isr : IsrTable σ} (view : Machine σ → β)

theorem clockTimer_frame {j : Fin mcuNTimers} (set : ∀ s t, view (s.setTimer j t) = view s)
    (raised : ∀ s, view (s.interrupt isr (.timer j)) = view s) (s : Machine σ) :
    view (s.clockTimer isr j) = view s := by
  simp only [Machine.clockTimer]
  split
  next =>
    split
    next =>
      rw [set]
      split
      next => rw [raised, set]
      next => rw [set]
    next => rw [set]
  next => rfl

theorem clockGpio_frame {j : Fin mcuNGpio}
    (raised : ∀ s, view (s.interrupt isr (.gpio j)) = view s) (s : Machine σ) :
    view (s.clockGpio isr j) = view s := by
  simp only [Machine.clockGpio]
  split
  next => exact raised s
  next => rfl

theorem clockSystick_frame (set : ∀ s t, view (s.setSystick t) = view s)
    (raised : ∀ s, view (s.interrupt isr .systick) = view s) (s : Machine σ) :
    view (s.clockSystick isr) = view s := by
  simp only [Machine.clockSystick]
  split
  next =>
    split
    next =>
      rw [set]
      split
      next => rw [raised, set]
      next => rw [set]
    next => rw [set]
  next => rfl

end Frame

theorem masterClock_clock (isr : IsrTable σ) (s : Machine σ) :
    (mcuMasterClock isr s).clock = s.clock + 1 := by
  simp only [mcuMasterClock]
  split
  next => rfl
  next =>
    rw [clockSystick_frame Machine.clock (fun _ _ => rfl) fun _ => rfl,
      foldl_same Machine.clock fun _ _ => clockGpio_frame Machine.clock fun _ => rfl,
      foldl_same Machine.clock fun _ _ =>
        clockTimer_frame Machine.clock (fun _ _ => rfl) fun _ => rfl]

/-- What the calls of `mcu_master_clock` keep, and the code between them, a run keeps. -/
theorem run_keeps {isr : IsrTable σ} (Inv : Machine σ → Prop) {events : List (McuEvent σ)}
    (clocked : ∀ s, Inv s → Inv (mcuMasterClock isr s))
    (program : ∀ code, .program code ∈ events → ∀ s, Inv s → Inv (s.after isr (.program code)))
    (s : Machine σ) (h : Inv s) : Inv (s.run isr events) := by
  induction events generalizing s with
  | nil => exact h
  | cons event events ih =>
    have later := fun code listed => program code (List.mem_cons_of_mem event listed)
    cases event with
    | masterClock => exact ih later _ (clocked s h)
    | program code => exact ih later _ (program code (by simp) s h)

theorem run_clock (isr : IsrTable σ) (s : Machine σ) (events : List (McuEvent σ)) :
    (s.run isr events).clock = s.clock + masterClocks events := by
  induction events generalizing s with
  | nil => rfl
  | cons event events ih =>
    have later : (s.run isr (event :: events)) = (s.after isr event).run isr events := rfl
    rw [later, ih]
    cases event with
    | masterClock =>
      rw [Machine.after, masterClock_clock, masterClocks]
      omega
    | program code => rfl

end Machine

/-- The value and the load of a timer. -/
def McuTimer.counter (t : McuTimer) : Counter := ⟨t.value.toNat, t.load.toNat⟩

theorem uint32_pred_toNat {n : UInt32} (h : n ≠ 0) : (n - 1).toNat = n.toNat - 1 := by
  have pos : 1 ≤ n.toNat := by
    rw [Nat.one_le_iff_ne_zero]
    exact fun zero => h (UInt32.toNat_inj.mp zero)
  exact UInt32.toNat_sub_of_le n 1 (UInt32.le_iff_toNat_le.mpr pos)

theorem uint32_toNat_zero {n : UInt32} : n.toNat = 0 ↔ n = 0 :=
  ⟨fun zero => UInt32.toNat_inj.mp zero, fun zero => by rw [zero]; rfl⟩

theorem uint32_toNat_pos {n : UInt32} (h : n ≠ 0) : 0 < n.toNat :=
  Nat.pos_of_ne_zero fun zero => h (uint32_toNat_zero.mp zero)

/-- What the code does to value and load is a tick of the counter, once it is reloaded. -/
theorem countDown_tick (t : McuTimer) :
    (t.countDown.2 = true ↔ t.counter.tick.2 = .expired) ∧
      t.counter.tick.1 =
        (if t.countDown.2 then t.countDown.1.reload else t.countDown.1).counter := by
  rw [Counter.tick_expired]
  by_cases zero : t.value = 0
  · have nat : t.value.toNat = 0 := uint32_toNat_zero.mpr zero
    simp [McuTimer.countDown, McuTimer.counter, Counter.tick, zero]
  · have nat : t.value.toNat ≠ 0 := (uint32_toNat_pos zero).ne'
    have pred := uint32_pred_toNat zero
    by_cases one : t.value.toNat = 1
    · have last : t.value - 1 = 0 := uint32_toNat_zero.mp (by omega)
      simp [McuTimer.countDown, McuTimer.counter, Counter.tick, McuTimer.reload, zero, one, last]
    · have more : t.value - 1 ≠ 0 := fun h => by
        rw [h] at pred
        have : (0 : UInt32).toNat = 0 := rfl
        omega
      simp [McuTimer.countDown, McuTimer.counter, Counter.tick, zero, nat, one, more, pred]

theorem countDown_frame (t : McuTimer) :
    t.countDown.1 = { t with value := t.countDown.1.value } := by
  unfold McuTimer.countDown
  split <;> rfl

theorem counted_frame (t : McuTimer) (expired : Bool) :
    (if expired then t.countDown.1.reload else t.countDown.1) =
      { t with value := if expired then t.load else t.countDown.1.value } := by
  rw [countDown_frame]
  cases expired <;> rfl

end GrblhalSim
