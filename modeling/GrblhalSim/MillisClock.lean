import GrblhalSim.McuModel

namespace GrblhalSim

open Countdown

def fCpu : Nat := 16000000

/-- `ticks` and `delay` of the driver; a callback is known by a `κ`. -/
structure DriverState (κ ρ : Type) where
  ticks : UInt32
  delayMs : UInt32
  delayCallback : Option κ
  rest : ρ

section Driver

variable {κ ρ : Type}

def DriverState.start (rest : ρ) : DriverState κ ρ := ⟨0, 1, none, rest⟩

def sysTickHandler (call : κ → Handler (DriverState κ ρ)) : Handler (DriverState κ ρ) := fun x =>
  let d := { x.2 with ticks := x.2.ticks + 1 }
  if d.delayMs ≠ 0 then
    let d := { d with delayMs := d.delayMs - 1 }
    if d.delayMs = 0 then
      match d.delayCallback with
      | some callback =>
        let x := call callback (x.1, d)
        (x.1, { x.2 with delayCallback := none })
      | none => (x.1, d)
    else (x.1, d)
  else (x.1, d)

/-- What `driver_init` makes of the MCU. -/
def driverInit : Mcu :=
  { mcuReset with
    systickTimer :=
      { McuTimer.off with
        load := UInt32.ofNat (fCpu / 1000 - 1), irqEnable := true, enable := true } }

def millis (s : Machine (DriverState κ ρ)) : UInt32 := s.rest.ticks

/-- Code that leaves the clock as it is: the systick timer, the interrupts and `ticks`. -/
structure LeavesSystick (code : Handler (DriverState κ ρ)) : Prop where
  timer : ∀ x, (code x).1.systickTimer = x.1.systickTimer
  irqEnable : ∀ x, (code x).1.irqEnable = x.1.irqEnable
  booted : ∀ x, (code x).1.booted = x.1.booted
  ticks : ∀ x, (code x).2.ticks = x.2.ticks

structure SystickView where
  timer : McuTimer
  irqEnable : Bool
  booted : Bool
  ticks : UInt32

def systickView (s : Machine (DriverState κ ρ)) : SystickView :=
  ⟨s.mcu.systickTimer, s.mcu.irqEnable, s.mcu.booted, s.rest.ticks⟩

theorem interrupt_leaves {isr : IsrTable (DriverState κ ρ)} {q : IrqNum}
    (h : LeavesSystick (isr q)) (s : Machine (DriverState κ ρ)) :
    systickView (s.interrupt isr q) = systickView s := by
  simp only [systickView, Machine.interrupt, h.timer, h.irqEnable, h.booted, h.ticks]

theorem sysTickHandler_view {call : κ → Handler (DriverState κ ρ)}
    (calls : ∀ callback, LeavesSystick (call callback)) (x : Mcu × DriverState κ ρ) :
    (sysTickHandler call x).1.systickTimer = x.1.systickTimer ∧
      (sysTickHandler call x).1.irqEnable = x.1.irqEnable ∧
      (sysTickHandler call x).1.booted = x.1.booted ∧
      (sysTickHandler call x).2.ticks = x.2.ticks + 1 := by
  simp only [sysTickHandler]
  split
  next =>
    split
    next =>
      split
      next callback _ =>
        have leaves := calls callback
        simp only [leaves.timer, leaves.irqEnable, leaves.booted, leaves.ticks, and_self]
      next => exact ⟨rfl, rfl, rfl, rfl⟩
    next => exact ⟨rfl, rfl, rfl, rfl⟩
  next => exact ⟨rfl, rfl, rfl, rfl⟩

theorem clockSystick_view {isr : IsrTable (DriverState κ ρ)}
    {call : κ → Handler (DriverState κ ρ)} (calls : ∀ callback, LeavesSystick (call callback))
    (registered : isr .systick = sysTickHandler call) (s : Machine (DriverState κ ρ))
    (enable : s.mcu.systickTimer.enable = true) (irq : s.mcu.systickTimer.irqEnable = true)
    (on : s.mcu.irqEnable = true) :
    systickView (s.clockSystick isr) =
      { systickView s with
        timer := if s.mcu.systickTimer.countDown.2 then s.mcu.systickTimer.countDown.1.reload
          else s.mcu.systickTimer.countDown.1
        ticks := if s.mcu.systickTimer.countDown.2 then s.rest.ticks + 1 else s.rest.ticks } := by
  cases expired : s.mcu.systickTimer.countDown.2 with
  | false =>
    simp only [Machine.clockSystick, enable, expired, if_true, Bool.false_eq_true, if_false]
    rfl
  | true =>
    have set : (s.setSystick s.mcu.systickTimer.countDown.1).mcu.irqEnable = true := on
    have handled := sysTickHandler_view calls
      ((s.setSystick s.mcu.systickTimer.countDown.1).mcu, s.rest)
    simp only [Machine.clockSystick, enable, expired, irq, set, Bool.and_self, if_true]
    simp only [systickView, Machine.setSystick, Machine.interrupt, registered]
    simp only [Machine.setSystick] at handled
    rw [handled.1, handled.2.1, handled.2.2.1, handled.2.2.2]

/-- The systick timer as `driver_init` has programmed it, after `n` calls of `mcu_master_clock`. -/
structure Ticking (n : Nat) (v : SystickView) : Prop where
  enable : v.timer.enable = true
  irq : v.timer.irqEnable = true
  irqEnable : v.irqEnable = true
  booted : v.booted = true
  load : v.timer.load = 15999
  counted : ∃ k, Counted v.timer.counter n k ∧ v.ticks = UInt32.ofNat k

theorem ticking_init (rest : ρ) :
    Ticking 0 (systickView (Machine.start driverInit (DriverState.start (κ := κ) rest))) :=
  ⟨rfl, rfl, rfl, rfl, rfl, 0, Counted.start 15999, rfl⟩

section Run

variable {isr : IsrTable (DriverState κ ρ)} {call : κ → Handler (DriverState κ ρ)}
  (calls : ∀ callback, LeavesSystick (call callback))
  (registered : isr .systick = sysTickHandler call)
include calls registered

theorem Ticking.clockSystick {s : Machine (DriverState κ ρ)} {n : Nat}
    (h : Ticking n (systickView s)) : Ticking (n + 1) (systickView (s.clockSystick isr)) := by
  have enable : s.mcu.systickTimer.enable = true := h.enable
  have irq : s.mcu.systickTimer.irqEnable = true := h.irq
  have load : s.mcu.systickTimer.load = 15999 := h.load
  obtain ⟨k, counted, ticks⟩ := h.counted
  have counted : Counted s.mcu.systickTimer.counter n k := counted
  have ticks : s.rest.ticks = UInt32.ofNat k := ticks
  have some_load : 0 < s.mcu.systickTimer.counter.load := by
    show 0 < s.mcu.systickTimer.load.toNat
    rw [load]
    decide
  have next := counted.tick some_load
  obtain ⟨expires, ticked⟩ := countDown_tick s.mcu.systickTimer
  rw [clockSystick_view calls registered s enable irq h.irqEnable]
  refine ⟨?_, ?_, h.irqEnable, h.booted, ?_, _, ticked ▸ next, ?_⟩
  · rw [counted_frame]
    exact enable
  · rw [counted_frame]
    exact irq
  · rw [counted_frame]
    exact load
  · show (if s.mcu.systickTimer.countDown.2 = true then s.rest.ticks + 1 else s.rest.ticks) = _
    by_cases at_end : s.mcu.systickTimer.counter.tick.2 = .expired
    · rw [if_pos at_end, if_pos (expires.mpr at_end), ticks, UInt32.ofNat_add]
      rfl
    · rw [if_neg at_end, if_neg (fun h => at_end (expires.mp h)), ticks]

variable (others : ∀ q, q ≠ .systick → LeavesSystick (isr q))
include others

theorem Ticking.masterClock {s : Machine (DriverState κ ρ)} {n : Nat}
    (h : Ticking n (systickView s)) : Ticking (n + 1) (systickView (mcuMasterClock isr s)) := by
  have booted : s.mcu.booted = true := h.booted
  simp only [mcuMasterClock, booted, Bool.not_true, Bool.false_eq_true, if_false]
  apply Ticking.clockSystick calls registered
  rw [foldl_same systickView fun _ _ =>
      clockGpio_frame systickView (interrupt_leaves (others _ (by simp))),
    foldl_same systickView fun _ _ =>
      clockTimer_frame systickView (fun _ _ => rfl) (interrupt_leaves (others _ (by simp)))]
  exact h

theorem Ticking.run {events : List (McuEvent (DriverState κ ρ))}
    (program : ∀ code, .program code ∈ events → LeavesSystick code)
    {s : Machine (DriverState κ ρ)} (h : Ticking s.clock (systickView s)) :
    Ticking (s.run isr events).clock (systickView (s.run isr events)) := by
  refine run_keeps (fun s => Ticking s.clock (systickView s)) (fun s h => ?_)
    (fun code listed s h => ?_) s h
  · rw [masterClock_clock]
    exact Ticking.masterClock calls registered others h
  · have leaves := program code listed
    have same : systickView (s.after isr (.program code)) = systickView s := by
      simp only [systickView, Machine.after, leaves.timer, leaves.irqEnable, leaves.booted,
        leaves.ticks]
    rw [same]
    exact h

/-- After `n` calls of `mcu_master_clock`, `millis()` counts them by 15999, modulo 2^32. -/
theorem millis_run {events : List (McuEvent (DriverState κ ρ))}
    (program : ∀ code, .program code ∈ events → LeavesSystick code) (rest : ρ) :
    (millis ((Machine.start driverInit (.start rest)).run isr events)).toNat =
      (masterClocks events - 1) / 15999 % 2 ^ 32 := by
  have ticking := Ticking.run calls registered others program
    (s := Machine.start driverInit (.start rest)) (ticking_init rest)
  obtain ⟨k, counted, ticks⟩ := ticking.counted
  have clock : ((Machine.start driverInit (.start rest)).run isr events).clock =
      masterClocks events := (run_clock isr _ events).trans (Nat.zero_add _)
  have load : (systickView ((Machine.start driverInit (.start rest)).run isr
      events)).timer.counter.load = 15999 := congrArg UInt32.toNat ticking.load
  have count := counted.expired (by rw [load]; decide)
  rw [clock, load] at count
  show UInt32.toNat (systickView _).ticks = _
  rw [ticks, count]
  exact UInt32.toNat_ofNat' ..

end Run

/-- The millisecond clock is exact as long as the milliseconds that have passed, and the clocks
since the last of them, are fewer than 16000 together. -/
theorem millis_exact_iff (isr : IsrTable (DriverState κ ρ)) (call : κ → Handler (DriverState κ ρ))
    (calls : ∀ callback, LeavesSystick (call callback))
    (registered : isr .systick = sysTickHandler call)
    (others : ∀ q, q ≠ .systick → LeavesSystick (isr q)) (events : List (McuEvent (DriverState κ ρ)))
    (program : ∀ code, .program code ∈ events → LeavesSystick code) (rest : ρ) (n : Nat)
    (count : masterClocks events = n) :
    (millis ((Machine.start driverInit (.start rest)).run isr events)).toNat = n * 1000 / fCpu ↔
      n / 16000 + n % 16000 < 16000 := by
  have elapsed : n * 1000 / fCpu = n / 16000 := Nat.mul_div_mul_right n 16000 (by decide)
  rw [millis_run calls registered others program, count, elapsed]
  constructor
  · intro exact
    by_contra! late
    -- More than 2^32 ticks too many would need more clocks than ticks can tell.
    have extra : (n - 1) / 15999 = n / 16000 + (n / 16000 + n % 16000 - 1) / 15999 := by omega
    omega
  · intro early
    have equal : (n - 1) / 15999 = n / 16000 := by omega
    omega

def noCallbacks : Empty → Handler (DriverState Empty Unit) := fun callback => nomatch callback

def systickTable : IsrTable (DriverState Empty Unit)
  | .systick => sysTickHandler noCallbacks
  | _ => fun x => x

theorem systickTable_others (q : IrqNum) (other : q ≠ .systick) :
    LeavesSystick (systickTable q) := by
  cases q with
  | systick => exact absurd rfl other
  | _ => exact ⟨fun _ => rfl, fun _ => rfl, fun _ => rfl, fun _ => rfl⟩

theorem masterClocks_replicate {σ : Type} (n : Nat) :
    masterClocks (List.replicate n (McuEvent.masterClock (σ := σ))) = n := by
  induction n with
  | zero => rfl
  | succ n ih => rw [List.replicate_succ, masterClocks, ih]

theorem program_replicate {n : Nat} (code : Handler (DriverState Empty Unit))
    (listed : McuEvent.program code ∈ List.replicate n .masterClock) : LeavesSystick code := by
  have := List.eq_of_mem_replicate listed
  cases this

theorem millis_exact_16000 :
    (millis ((Machine.start driverInit (.start ())).run systickTable
      (List.replicate 16000 .masterClock))).toNat = 16000 * 1000 / fCpu ↔
      16000 / 16000 + 16000 % 16000 < 16000 :=
  millis_exact_iff systickTable noCallbacks (fun callback => nomatch callback) rfl
    systickTable_others _ program_replicate () 16000 (masterClocks_replicate 16000)

/-- The second tick comes a clock early. -/
theorem millis_early :
    (millis ((Machine.start driverInit (.start ())).run systickTable
      (List.replicate 31999 .masterClock))).toNat = 2 ∧ 31999 * 1000 / fCpu = 1 := by
  have calls : ∀ callback, LeavesSystick (noCallbacks callback) := fun callback => nomatch callback
  have ticks := millis_run calls rfl systickTable_others (program_replicate (n := 31999)) ()
  rw [masterClocks_replicate] at ticks
  exact ⟨ticks, by decide⟩

end Driver

end GrblhalSim
