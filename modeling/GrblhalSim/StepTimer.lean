import GrblhalSim.McuModel

namespace GrblhalSim

open Countdown

def stepperTimer : Fin mcuNTimers := ⟨0, by decide⟩

def Mcu.stepperCyclesPerTick (m : Mcu) (cyclesPerTick : UInt32) : Mcu :=
  { m with
    timers := m.timers.set stepperTimer
      { m.timer stepperTimer with load := cyclesPerTick, value := 0, enable := true } }

def Mcu.stepperWakeUp (m : Mcu) : Mcu :=
  { m with
    timers := m.timers.set stepperTimer
      { m.timer stepperTimer with load := 5000, value := 0, enable := true } }

/-- What a timer does depends on, and its interrupts so far. -/
structure TimerView where
  timer : McuTimer
  irqEnable : Bool
  booted : Bool
  clock : Nat
  interrupts : List Interrupt

/-- Code that changes neither timer `i` nor whether interrupts are taken. -/
structure LeavesTimer {σ : Type} (i : Fin mcuNTimers) (code : Handler σ) : Prop where
  timer : ∀ x, (code x).1.timer i = x.1.timer i
  irqEnable : ∀ x, (code x).1.irqEnable = x.1.irqEnable
  booted : ∀ x, (code x).1.booted = x.1.booted

section View

variable {σ : Type} {isr : IsrTable σ} {i : Fin mcuNTimers}

def Machine.timerView (s : Machine σ) (i : Fin mcuNTimers) : TimerView :=
  ⟨s.mcu.timer i, s.mcu.irqEnable, s.mcu.booted, s.clock, s.interrupts (.timer i)⟩

theorem interrupts_append (s : Machine σ) (irq irq' : IrqNum) (m : Mcu) (rest : σ) :
    Machine.interrupts ⟨m, rest, s.clock, s.taken ++ [⟨irq', s.clock, m⟩]⟩ irq =
      s.interrupts irq ++ if irq' = irq then [⟨irq', s.clock, m⟩] else [] := by
  rw [Machine.interrupts, List.filter_append, Machine.interrupts]
  by_cases same : irq' = irq <;> simp [same]

theorem interrupt_other {q : IrqNum} (other : q ≠ .timer i) (h : LeavesTimer i (isr q))
    (s : Machine σ) : (s.interrupt isr q).timerView i = s.timerView i := by
  have log := interrupts_append s (.timer i) q (isr q (s.mcu, s.rest)).1 (isr q (s.mcu, s.rest)).2
  rw [if_neg other, List.append_nil] at log
  simp only [Machine.timerView, Machine.interrupt, h.timer, h.irqEnable, h.booted]
  rw [log]

theorem setTimer_other {j : Fin mcuNTimers} (other : j ≠ i) (s : Machine σ) (t : McuTimer) :
    (s.setTimer j t).timerView i = s.timerView i := by
  have apart : (j : Nat) ≠ (i : Nat) := fun same => other (Fin.ext same)
  have kept : (s.setTimer j t).mcu.timer i = s.mcu.timer i :=
    Vector.getElem_set_ne j.isLt i.isLt apart
  simp only [Machine.timerView, kept]
  rfl

theorem setTimer_same (s : Machine σ) (t : McuTimer) : (s.setTimer i t).mcu.timer i = t :=
  Vector.getElem_set_self i.isLt

variable (others : ∀ q, q ≠ .timer i → LeavesTimer i (isr q))
include others

theorem clockTimer_other (j : Fin mcuNTimers) (other : j ≠ i) (s : Machine σ) :
    (s.clockTimer isr j).timerView i = s.timerView i := by
  have irq : IrqNum.timer j ≠ .timer i := fun same => other (IrqNum.timer.inj same)
  exact clockTimer_frame (Machine.timerView · i) (setTimer_other other)
    (interrupt_other irq (others _ irq)) s

theorem clockGpio_other (j : Fin mcuNGpio) (s : Machine σ) :
    (s.clockGpio isr j).timerView i = s.timerView i :=
  clockGpio_frame (Machine.timerView · i) (interrupt_other (by simp) (others _ (by simp))) s

theorem clockSystick_other (s : Machine σ) :
    (s.clockSystick isr).timerView i = s.timerView i :=
  clockSystick_frame (Machine.timerView · i) (fun _ _ => rfl)
    (interrupt_other (by simp) (others _ (by simp))) s

omit others in
/-- One clock of timer `i` while it and its interrupt are enabled. -/
def TimerClocked (isr : IsrTable σ) (i : Fin mcuNTimers) (v v' : TimerView) : Prop :=
  v.timer.enable = true → v.timer.irqEnable = true → v.irqEnable = true →
    if v.timer.clock.2 then
      ∃ x : Mcu × σ, x.1.timer i = v.timer.clock.1 ∧ x.1.irqEnable = v.irqEnable ∧
        x.1.booted = v.booted ∧
        v' = ⟨((isr (.timer i) x).1.timer i).reload, (isr (.timer i) x).1.irqEnable,
          (isr (.timer i) x).1.booted, v.clock,
          v.interrupts ++ [⟨.timer i, v.clock, (isr (.timer i) x).1⟩]⟩
    else v' = { v with timer := v.timer.clock.1 }

omit others in
theorem clockTimer_own (s : Machine σ) :
    TimerClocked isr i (s.timerView i) ((s.clockTimer isr i).timerView i) := by
  intro enable irq on
  have enable : (s.mcu.timer i).enable = true := enable
  have irq : (s.mcu.timer i).irqEnable = true := irq
  have on : s.mcu.irqEnable = true := on
  have timer : (s.timerView i).timer = s.mcu.timer i := rfl
  rw [timer]
  cases expired : (s.mcu.timer i).clock.2 with
  | false =>
    simp only [Machine.clockTimer, enable, expired, if_true, Bool.false_eq_true, if_false]
    simp only [Machine.timerView, setTimer_same]
    rfl
  | true =>
    have set : (s.setTimer i (s.mcu.timer i).clock.1).mcu.irqEnable = true := on
    simp only [Machine.clockTimer, enable, expired, irq, set, Bool.and_self, if_true]
    refine ⟨((s.setTimer i (s.mcu.timer i).clock.1).mcu, s.rest), setTimer_same s _, rfl, rfl, ?_⟩
    have log := interrupts_append s (.timer i) (.timer i)
      (isr (.timer i) ((s.setTimer i (s.mcu.timer i).clock.1).mcu, s.rest)).1
      (isr (.timer i) ((s.setTimer i (s.mcu.timer i).clock.1).mcu, s.rest)).2
    rw [if_pos rfl] at log
    simp only [Machine.timerView, setTimer_same, TimerView.mk.injEq]
    exact ⟨rfl, rfl, rfl, rfl, log⟩

/-- A call of `mcu_master_clock` is one clock of timer `i`. -/
theorem masterClock_view (s : Machine σ) (booted : s.mcu.booted = true) :
    TimerClocked isr i { s.timerView i with clock := s.clock + 1 }
      ((mcuMasterClock isr s).timerView i) := by
  have once := List.nodup_finRange mcuNTimers
  have timers := foldl_one (R := TimerClocked isr i) once (List.mem_finRange i)
    (clockTimer_other others) clockTimer_own { s with clock := s.clock + 1 }
  simp only [mcuMasterClock, booted, Bool.not_true, Bool.false_eq_true, if_false]
  rw [clockSystick_other others,
    foldl_same (Machine.timerView · i) fun j _ => clockGpio_other others j]
  exact timers

/-- What a clock of the timer keeps, and other code as well, is kept by every run. -/
theorem run_view {Inv : TimerView → Prop} {events : List (McuEvent σ)}
    (program : ∀ code, .program code ∈ events → LeavesTimer i code)
    (booted : ∀ v, Inv v → v.booted = true)
    (clocked : ∀ v v', Inv v → TimerClocked isr i { v with clock := v.clock + 1 } v' → Inv v')
    (s : Machine σ) (h : Inv (s.timerView i)) : Inv ((s.run isr events).timerView i) := by
  refine run_keeps (fun s => Inv (s.timerView i)) (fun s h => ?_) (fun code listed s h => ?_) s h
  · exact clocked _ _ h (masterClock_view others s (booted _ h))
  · have leaves := program code listed
    have same : (s.after isr (.program code)).timerView i = s.timerView i := by
      simp only [Machine.timerView, Machine.after, leaves.timer, leaves.irqEnable, leaves.booted]
      rfl
    exact same ▸ h

end View

/-- What a clock of the timer does to it when its handler leaves it alone. -/
def McuTimer.clocked (t : McuTimer) : McuTimer := if t.clock.2 then t.clock.1.reload else t.clock.1

theorem prescaled_frame (t : McuTimer) :
    t.prescaled.1 = { t with prescale := t.prescaled.1.prescale } := by
  unfold McuTimer.prescaled
  split
  next =>
    split
    next => rfl
    next =>
      dsimp only
      split <;> rfl
  next => rfl

theorem clock_frame (t : McuTimer) : t.clock.1 =
    { t with value := t.clock.1.value, prescale := t.clock.1.prescale } := by
  unfold McuTimer.clock
  rw [prescaled_frame]
  split
  next =>
    rw [countDown_frame]
  next => rfl

theorem clocked_frame (t : McuTimer) : t.clocked =
    { t with value := t.clocked.value, prescale := t.clocked.prescale } := by
  unfold McuTimer.clocked
  rw [clock_frame]
  split <;> rfl

/-- The counters of a timer. A prescaler of 0 counts as 1. -/
structure Shows (t : McuTimer) (p : Prescaled) : Prop where
  main : p.main = t.counter
  scale : if t.prescaler = 0 then p.scale.load = 1 ∧ p.scale.value ≤ 1
    else p.scale = ⟨t.prescale.toNat, t.prescaler.toNat⟩

theorem prescaled_unset {t : McuTimer} (h : t.prescaler = 0) : t.prescaled = (t, true) := by
  simp [McuTimer.prescaled, h]

/-- A prescaler that is set is a counter, which lets the timer count unless it just counts down. -/
theorem prescaled_set {t : McuTimer} (h : t.prescaler ≠ 0) :
    (t.prescaled.2 = true ↔
        (Counter.mk t.prescale.toNat t.prescaler.toNat).tick.2 ≠ .counting) ∧
      (Counter.mk t.prescale.toNat t.prescaler.toNat).tick.1 =
        ⟨t.prescaled.1.prescale.toNat, t.prescaler.toNat⟩ := by
  by_cases zero : t.prescale = 0
  · simp [McuTimer.prescaled, Counter.tick, h, zero]
  · have pred := uint32_pred_toNat zero
    have nat : t.prescale.toNat ≠ 0 := (uint32_toNat_pos zero).ne'
    by_cases one : t.prescale.toNat = 1
    · have last : t.prescale - 1 = 0 := uint32_toNat_zero.mp (by omega)
      simp [McuTimer.prescaled, Counter.tick, h, zero, one, last]
    · have more : t.prescale - 1 ≠ 0 := fun done => by
        have := uint32_toNat_zero.mpr done
        omega
      simp [McuTimer.prescaled, Counter.tick, h, zero, nat, one, more, pred]

theorem prescaled_tick {t : McuTimer} {p : Prescaled} (h : Shows t p) :
    (t.prescaled.2 = true ↔ p.scale.tick.2 ≠ .counting) ∧
      Shows t.prescaled.1 ⟨p.scale.tick.1, p.main⟩ := by
  have scale := h.scale
  by_cases none_set : t.prescaler = 0
  · rw [if_pos none_set] at scale
    rw [prescaled_unset none_set]
    have ticks : p.scale.tick.2 ≠ .counting ∧ p.scale.tick.1 = ⟨1, 1⟩ := by
      unfold Counter.tick
      by_cases zero : p.scale.value = 0
      · simp [zero, scale.1]
      · have one : p.scale.value = 1 := by omega
        simp [one, scale.1]
    refine ⟨iff_of_true rfl ticks.1, h.main, ?_⟩
    rw [if_pos none_set, ticks.2]
    exact ⟨rfl, le_rfl⟩
  · rw [if_neg none_set] at scale
    obtain ⟨counts, ticked⟩ := prescaled_set none_set
    have kept : t.prescaled.1.prescaler = t.prescaler ∧ t.prescaled.1.counter = t.counter := by
      rw [prescaled_frame]
      exact ⟨rfl, rfl⟩
    rw [scale]
    refine ⟨counts, ?_, ?_⟩
    · rw [kept.2]
      exact h.main
    · rw [kept.1, if_neg none_set]
      exact ticked

/-- A clock of the timer is a tick of its counters. -/
theorem clock_tick {t : McuTimer} {p : Prescaled} (h : Shows t p) :
    p.tick.2 = t.clock.2 ∧ Shows t.clocked p.tick.1 := by
  obtain ⟨counts, shows⟩ := prescaled_tick h
  have main : p.main = t.prescaled.1.counter := shows.main
  unfold Prescaled.tick McuTimer.clocked McuTimer.clock
  by_cases counting : p.scale.tick.2 = .counting
  · have waits : t.prescaled.2 = false := by
      rw [← Bool.not_eq_true, counts, Classical.not_not]
      exact counting
    simp only [counting, waits, if_true, Bool.false_eq_true, if_false]
    exact ⟨trivial, shows⟩
  · obtain ⟨expired, ticked⟩ := countDown_tick t.prescaled.1
    simp only [counting, counts.mpr counting, if_true, if_false]
    refine ⟨?_, ?_, ?_⟩
    · rw [main, Bool.eq_iff_iff, decide_eq_true_iff]
      exact expired.symm
    · rw [main]
      exact ticked
    · rw [counted_frame]
      exact shows.scale

/-- The timer and its interrupt are on. -/
structure TimerView.On (v : TimerView) : Prop where
  enable : v.timer.enable = true
  irq : v.timer.irqEnable = true
  irqEnable : v.irqEnable = true
  booted : v.booted = true

section Period

variable {σ : Type} {isr : IsrTable σ} {i : Fin mcuNTimers}

/-- A timer that its handler leaves alone, since its value and its prescale were 0. -/
structure Periodic (load prescaler : UInt32) (v : TimerView) : Prop where
  on : v.On
  load : v.timer.load = load
  prescaler : v.timer.prescaler = prescaler
  counted : ∃ p, Shows v.timer p ∧ PrescaledCounted p v.clock v.interrupts.length

theorem shows_loads {t : McuTimer} {p : Prescaled} (h : Shows t p) :
    p.main.load = t.load.toNat ∧ p.scale.load = max 1 t.prescaler.toNat := by
  refine ⟨by rw [h.main]; rfl, ?_⟩
  have scale := h.scale
  by_cases none_set : t.prescaler = 0
  · rw [if_pos none_set] at scale
    rw [scale.1, none_set]
    rfl
  · rw [if_neg none_set] at scale
    have nat := uint32_toNat_pos none_set
    rw [scale]
    show t.prescaler.toNat = max 1 t.prescaler.toNat
    omega

/-- One clock of a timer that is on, when its handler leaves it alone. -/
theorem TimerClocked.alone {v v' : TimerView} (step : TimerClocked isr i v v')
    (own : LeavesTimer i (isr (.timer i))) (on : v.On) :
    v'.timer = v.timer.clocked ∧ v'.irqEnable = true ∧ v'.booted = true ∧ v'.clock = v.clock ∧
      v'.interrupts.length =
        if v.timer.clock.2 then v.interrupts.length + 1 else v.interrupts.length := by
  have step := step on.enable on.irq on.irqEnable
  unfold McuTimer.clocked
  cases expired : v.timer.clock.2 with
  | false =>
    rw [if_neg (by simp [expired])] at step
    rw [step]
    exact ⟨by simp, on.irqEnable, on.booted, rfl, by simp⟩
  | true =>
    rw [if_pos expired] at step
    obtain ⟨x, timer, irqEnable, booted, rfl⟩ := step
    refine ⟨?_, ?_, ?_, rfl, by simp⟩
    · rw [if_pos rfl, own.timer, timer]
    · exact (own.irqEnable x).trans (irqEnable.trans on.irqEnable)
    · exact (own.booted x).trans (booted.trans on.booted)

theorem shows_start {t : McuTimer} (value : t.value = 0) (prescale : t.prescale = 0) :
    Shows t ⟨⟨0, max 1 t.prescaler.toNat⟩, ⟨0, t.load.toNat⟩⟩ := by
  refine ⟨?_, ?_⟩
  · show (⟨0, t.load.toNat⟩ : Counter) = ⟨t.value.toNat, t.load.toNat⟩
    rw [value]
    rfl
  · by_cases none_set : t.prescaler = 0
    · rw [if_pos none_set, none_set]
      exact ⟨rfl, Nat.zero_le 1⟩
    · have nat := uint32_toNat_pos none_set
      have at_least : max 1 t.prescaler.toNat = t.prescaler.toNat := by omega
      rw [if_neg none_set, at_least, prescale]
      rfl

theorem Periodic.clocked {load prescaler : UInt32} (some_load : load ≠ 0)
    (own : LeavesTimer i (isr (.timer i))) {v v' : TimerView} (h : Periodic load prescaler v)
    (step : TimerClocked isr i { v with clock := v.clock + 1 } v') :
    Periodic load prescaler v' := by
  obtain ⟨p, shows, counted⟩ := h.counted
  obtain ⟨expires, next⟩ := clock_tick shows
  have loads := shows_loads shows
  have main : 0 < p.main.load := by
    rw [loads.1, h.load]
    exact uint32_toNat_pos some_load
  have ticked := counted.tick (by rw [loads.2]; omega) main
  have frame := clocked_frame v.timer
  obtain ⟨timer, irqEnable, booted, clock, interrupts⟩ :=
    step.alone own ⟨h.on.enable, h.on.irq, h.on.irqEnable, h.on.booted⟩
  refine ⟨⟨?_, ?_, irqEnable, booted⟩, ?_, ?_, p.tick.1, by rwa [timer], ?_⟩
  · rw [timer, frame]
    exact h.on.enable
  · rw [timer, frame]
    exact h.on.irq
  · rw [timer, frame]
    exact h.load
  · rw [timer, frame]
    exact h.prescaler
  · rw [clock, interrupts, ← expires]
    exact ticked

/-- The load that the handler has left in the step timer. -/
def Interrupt.programmed (a : Interrupt) : Nat := (a.left.timer stepperTimer).load.toNat

/-- A handler that leaves the step timer alone or programs it, through
`stepperCyclesPerTick`. -/
structure ProgramsStepper (code : Handler σ) : Prop where
  timer : ∀ x, (code x).1.timer stepperTimer = x.1.timer stepperTimer ∨
    ∃ cyclesPerTick, cyclesPerTick ≠ 0 ∧
      (code x).1.timer stepperTimer =
        (x.1.stepperCyclesPerTick cyclesPerTick).timer stepperTimer
  irqEnable : ∀ x, (code x).1.irqEnable = x.1.irqEnable
  booted : ∀ x, (code x).1.booted = x.1.booted

/-- The step timer, the first interrupt of which is due at `due`. -/
structure Scheduled (due : Nat) (v : TimerView) : Prop where
  on : v.On
  load : v.timer.load ≠ 0
  prescaler : v.timer.prescaler = 0
  schedule : OnSchedule Interrupt.clock Interrupt.programmed due v.clock v.interrupts
  next : v.clock + v.timer.counter.left = due + (v.interrupts.map Interrupt.programmed).sum

theorem clock_unscaled {t : McuTimer} (h : t.prescaler = 0) : t.clock = t.countDown := by
  simp [McuTimer.clock, McuTimer.prescaled, h]

theorem stepperCyclesPerTick_timer (m : Mcu) (cyclesPerTick : UInt32) :
    (m.stepperCyclesPerTick cyclesPerTick).timer stepperTimer =
      { m.timer stepperTimer with load := cyclesPerTick, value := 0, enable := true } := by
  simp [Mcu.stepperCyclesPerTick, Mcu.timer]

/-- After an interrupt the step timer is on, with the load that its handler has left in it. -/
theorem ProgramsStepper.reloads {code : Handler σ} (h : ProgramsStepper code) {x : Mcu × σ}
    (enable : (x.1.timer stepperTimer).enable = true) (load : (x.1.timer stepperTimer).load ≠ 0) :
    ((code x).1.timer stepperTimer).reload =
        { x.1.timer stepperTimer with
          value := ((code x).1.timer stepperTimer).load
          load := ((code x).1.timer stepperTimer).load } ∧
      ((code x).1.timer stepperTimer).load ≠ 0 := by
  rcases h.timer x with same | ⟨cyclesPerTick, some_cycles, programmed⟩
  · rw [same]
    exact ⟨rfl, load⟩
  · rw [programmed, stepperCyclesPerTick_timer]
    refine ⟨?_, some_cycles⟩
    simp only [McuTimer.reload, McuTimer.mk.injEq, and_true]
    exact enable.symm

/-- A clock at which the step timer does not expire. -/
theorem Scheduled.waits {due : Nat} {v : TimerView} (h : Scheduled due v)
    (expired : v.timer.countDown.2 = false) :
    Scheduled due { v with timer := v.timer.countDown.1, clock := v.clock + 1 } := by
  have next := h.next
  have some_load : 0 < v.timer.counter.load := uint32_toNat_pos h.load
  have frame := countDown_frame v.timer
  obtain ⟨expires, ticked⟩ := countDown_tick v.timer
  rw [expired, if_neg (by simp)] at ticked
  have running : v.timer.counter.tick.2 ≠ .expired := fun at_end => by
    rw [expires.mpr at_end] at expired
    cases expired
  have fewer := Counter.tick_left some_load running
  rw [ticked] at fewer
  have more := Counter.left_pos v.timer.countDown.1.counter
  have early : v.clock + 1 < due + (v.interrupts.map Interrupt.programmed).sum := by omega
  refine ⟨⟨?_, ?_, h.on.irqEnable, h.on.booted⟩, ?_, ?_, ?_, ?_⟩
  · show v.timer.countDown.1.enable = true
    rw [frame]
    exact h.on.enable
  · show v.timer.countDown.1.irqEnable = true
    rw [frame]
    exact h.on.irq
  · show v.timer.countDown.1.load ≠ 0
    rw [frame]
    exact h.load
  · show v.timer.countDown.1.prescaler = 0
    rw [frame]
    exact h.prescaler
  · exact h.schedule.wait (Nat.le_succ _) early
  · show v.clock + 1 + v.timer.countDown.1.counter.left =
      due + (v.interrupts.map Interrupt.programmed).sum
    omega

/-- A clock at which it expires: the interrupt is the one that was due, and `m` is the MCU as its
handler leaves it. -/
theorem Scheduled.fires {due : Nat} {v : TimerView} (h : Scheduled due v)
    (expired : v.timer.countDown.2 = true) {m : Mcu} {value load : UInt32}
    (reloaded : (m.timer stepperTimer).reload = { v.timer with value := value, load := load })
    (some_load : (m.timer stepperTimer).load ≠ 0) (irqEnable : m.irqEnable = true)
    (booted : m.booted = true) :
    Scheduled due ⟨(m.timer stepperTimer).reload, m.irqEnable, m.booted, v.clock + 1,
      v.interrupts ++ [⟨.timer stepperTimer, v.clock + 1, m⟩]⟩ := by
  have next := h.next
  have at_end : v.timer.counter.value = 1 := by
    rw [← Counter.tick_expired]
    exact (countDown_tick v.timer).1.mp expired
  have left : v.timer.counter.left = 1 := by simp [Counter.left, at_end]
  have gap : 0 < (m.timer stepperTimer).load.toNat := uint32_toNat_pos some_load
  refine ⟨⟨?_, ?_, irqEnable, booted⟩, some_load, ?_, ?_, ?_⟩
  · simp only [reloaded]
    exact h.on.enable
  · simp only [reloaded]
    exact h.on.irq
  · simp only [reloaded]
    exact h.prescaler
  · refine h.schedule.alarm (Nat.le_succ _) ?_ le_rfl ?_
    · show v.clock + 1 = _
      omega
    · show v.clock + 1 < _ + _ + (m.timer stepperTimer).load.toNat
      omega
  · have due_next : (m.timer stepperTimer).reload.counter.left =
        (m.timer stepperTimer).load.toNat := if_neg gap.ne'
    rw [due_next, List.map_append, List.sum_append]
    show v.clock + 1 + (m.timer stepperTimer).load.toNat =
      due + (_ + (m.timer stepperTimer).load.toNat)
    omega

theorem Scheduled.clocked {due : Nat} (own : ProgramsStepper (isr (.timer stepperTimer)))
    {v v' : TimerView} (h : Scheduled due v)
    (step : TimerClocked isr stepperTimer { v with clock := v.clock + 1 } v') :
    Scheduled due v' := by
  have step := step h.on.enable h.on.irq h.on.irqEnable
  rw [clock_unscaled h.prescaler] at step
  cases expired : v.timer.countDown.2 with
  | false =>
    rw [if_neg (by simp [expired])] at step
    rw [step]
    exact h.waits expired
  | true =>
    rw [if_pos expired] at step
    obtain ⟨x, timer, irqEnable, booted, rfl⟩ := step
    rw [countDown_frame] at timer
    obtain ⟨reloaded, load⟩ :=
      own.reloads (x := x) (by rw [timer]; exact h.on.enable) (by rw [timer]; exact h.load)
    rw [timer] at reloaded
    exact h.fires expired reloaded load ((own.irqEnable x).trans (irqEnable.trans h.on.irqEnable))
      ((own.booted x).trans (booted.trans h.on.booted))

/-- The other handlers, and the code that runs between the clocks, leave timer `i` alone. -/
structure Undisturbed (isr : IsrTable σ) (events : List (McuEvent σ)) (i : Fin mcuNTimers) :
    Prop where
  handlers : ∀ q, q ≠ .timer i → LeavesTimer i (isr q)
  program : ∀ code, .program code ∈ events → LeavesTimer i code

/-- Timer `i` may count and raise interrupts. -/
structure TimerReady (mcu : Mcu) (i : Fin mcuNTimers) : Prop where
  booted : mcu.booted = true
  irqEnable : mcu.irqEnable = true
  timerIrq : (mcu.timer i).irqEnable = true

theorem periodic_run {events : List (McuEvent σ)} (undisturbed : Undisturbed isr events i)
    (own : LeavesTimer i (isr (.timer i))) {mcu : Mcu} (rest : σ) (ready : TimerReady mcu i)
    (enable : (mcu.timer i).enable = true) (value : (mcu.timer i).value = 0)
    (prescale : (mcu.timer i).prescale = 0) (load : (mcu.timer i).load ≠ 0) :
    Periodic (mcu.timer i).load (mcu.timer i).prescaler
      (((Machine.start mcu rest).run isr events).timerView i) := by
  refine run_view undisturbed.handlers undisturbed.program (fun v h => h.on.booted)
    (fun v v' h step => h.clocked load own step) _ ?_
  refine ⟨⟨enable, ready.timerIrq, ready.irqEnable, ready.booted⟩, rfl, rfl, ?_⟩
  exact ⟨_, shows_start value prescale, PrescaledCounted.start _ _⟩

theorem scheduled_run {events : List (McuEvent σ)} (undisturbed : Undisturbed isr events stepperTimer)
    (own : ProgramsStepper (isr (.timer stepperTimer))) {mcu : Mcu} (rest : σ)
    (ready : TimerReady mcu stepperTimer) (enable : (mcu.timer stepperTimer).enable = true)
    (prescaler : (mcu.timer stepperTimer).prescaler = 0)
    (load : (mcu.timer stepperTimer).load ≠ 0) :
    Scheduled (mcu.timer stepperTimer).counter.left
      (((Machine.start mcu rest).run isr events).timerView stepperTimer) := by
  refine run_view undisturbed.handlers undisturbed.program (fun v h => h.on.booted)
    (fun v v' h step => h.clocked own step) _ ?_
  refine ⟨⟨enable, ready.timerIrq, ready.irqEnable, ready.booted⟩, load, prescaler,
    Counter.left_pos _, ?_⟩
  show 0 + (mcu.timer stepperTimer).counter.left = (mcu.timer stepperTimer).counter.left + 0
  omega

/-- The first of the interrupts comes at clock `due`. -/
structure FirstAt (due : Nat) (s : Machine σ) (irq : IrqNum) : Prop where
  before : s.clock < due → s.interrupts irq = []
  reached : due ≤ s.clock → ∃ a later, s.interrupts irq = a :: later ∧ a.clock = due

theorem Scheduled.firstAt {due : Nat} {s : Machine σ} (h : Scheduled due (s.timerView stepperTimer)) :
    FirstAt due s (.timer stepperTimer) := by
  have schedule : OnSchedule Interrupt.clock Interrupt.programmed due s.clock
      (s.interrupts (.timer stepperTimer)) := h.schedule
  cases interrupts : s.interrupts (.timer stepperTimer) with
  | nil =>
    rw [interrupts] at schedule
    have early : s.clock < due := schedule
    exact ⟨fun _ => interrupts, fun reached => absurd early (Nat.not_lt.mpr reached)⟩
  | cons a later =>
    rw [interrupts] at schedule
    exact ⟨fun early => absurd early (Nat.not_lt.mpr schedule.2.1),
      fun _ => ⟨a, later, interrupts, schedule.1⟩⟩

/-- The interrupts of the step timer come as far apart as their handlers have programmed. -/
structure StepsExact (s : Machine σ) : Prop where
  next : ∀ before a b after, s.interrupts (.timer stepperTimer) = before ++ a :: b :: after →
    b.clock = a.clock + a.programmed
  pending : ∀ before a, s.interrupts (.timer stepperTimer) = before ++ [a] →
    s.clock < a.clock + a.programmed
  total : ∀ a between b, s.interrupts (.timer stepperTimer) = a :: (between ++ [b]) →
    b.clock = a.clock + ((a :: between).map Interrupt.programmed).sum

theorem Scheduled.exact {due : Nat} {s : Machine σ} (h : Scheduled due (s.timerView stepperTimer)) :
    StepsExact s := by
  have schedule : OnSchedule Interrupt.clock Interrupt.programmed due s.clock
      (s.interrupts (.timer stepperTimer)) := h.schedule
  refine ⟨fun before a b after same => ?_, fun before a same => ?_, fun a between b same => ?_⟩
  · rw [same] at schedule
    exact schedule.consecutive
  · rw [same] at schedule
    exact schedule.early
  · rw [same] at schedule
    exact schedule.total

/-- A timer that is left alone raises its interrupts at the exact period of its prescaler and
load; the step timer raises them as its load is programmed, from the handler or between ticks. -/
theorem timer_periods (isr : IsrTable σ) (events : List (McuEvent σ)) (mcu : Mcu) (rest : σ) :
    (∀ i, Undisturbed isr events i → LeavesTimer i (isr (.timer i)) → TimerReady mcu i →
      (mcu.timer i).enable = true → (mcu.timer i).value = 0 → (mcu.timer i).prescale = 0 →
      (mcu.timer i).load ≠ 0 → 1 ≤ masterClocks events →
      (((Machine.start mcu rest).run isr events).interrupts (.timer i)).length =
        ((masterClocks events + max 1 (mcu.timer i).prescaler.toNat - 1) /
          max 1 (mcu.timer i).prescaler.toNat - 1) / (mcu.timer i).load.toNat) ∧
    (Undisturbed isr events stepperTimer → ProgramsStepper (isr (.timer stepperTimer)) →
      TimerReady mcu stepperTimer → (mcu.timer stepperTimer).prescaler = 0 →
      ((mcu.timer stepperTimer).enable = true → (mcu.timer stepperTimer).load ≠ 0 →
        StepsExact ((Machine.start mcu rest).run isr events)) ∧
      (∀ cyclesPerTick, cyclesPerTick ≠ 0 → FirstAt (cyclesPerTick.toNat + 1)
        ((Machine.start (mcu.stepperCyclesPerTick cyclesPerTick) rest).run isr events)
        (.timer stepperTimer)) ∧
      FirstAt 5001 ((Machine.start mcu.stepperWakeUp rest).run isr events)
        (.timer stepperTimer)) := by
  constructor
  · intro i undisturbed own ready enable value prescale load _
    have clock := run_clock isr (Machine.start mcu rest) events
    have periodic := periodic_run undisturbed own rest ready enable value prescale load
    obtain ⟨p, shows, counted⟩ := periodic.counted
    have loads := shows_loads shows
    rw [periodic.load, periodic.prescaler] at loads
    have some_load := uint32_toNat_pos load
    have count := counted.expired (by rw [loads.2]; omega) (by rw [loads.1]; omega)
    rw [loads.1, loads.2] at count
    rw [← Nat.zero_add (masterClocks events)]
    exact clock ▸ count
  · intro undisturbed own ready prescaler
    -- Both ways of programming the timer leave its value at 0, to be loaded at the next clock.
    have programmed : ∀ cyclesPerTick, cyclesPerTick ≠ 0 → FirstAt (cyclesPerTick.toNat + 1)
        ((Machine.start (mcu.stepperCyclesPerTick cyclesPerTick) rest).run isr events)
        (.timer stepperTimer) := by
      intro cyclesPerTick some_cycles
      have timer := stepperCyclesPerTick_timer mcu cyclesPerTick
      have left : ((mcu.stepperCyclesPerTick cyclesPerTick).timer stepperTimer).counter.left =
          cyclesPerTick.toNat + 1 := by
        rw [timer]
        rfl
      rw [← left]
      have ready' : TimerReady (mcu.stepperCyclesPerTick cyclesPerTick) stepperTimer :=
        ⟨ready.booted, ready.irqEnable, by rw [timer]; exact ready.timerIrq⟩
      refine (scheduled_run undisturbed own rest ready' ?_ ?_ ?_).firstAt
      · rw [timer]
      · rw [timer]
        exact prescaler
      · rw [timer]
        exact some_cycles
    exact ⟨fun enable load => (scheduled_run undisturbed own rest ready enable prescaler load).exact,
      programmed, programmed 5000 (by decide)⟩

end Period

def steppingMcu : Mcu :=
  { mcuReset with
    timers := #v[⟨true, true, 0, 4, 0, 0⟩, ⟨true, true, 0, 2, 0, 3⟩, .off] }

/-- The handler of the step timer programs 3 and 5 clocks by turns. -/
def turnsIsr : IsrTable Bool := fun q =>
  if q = .timer stepperTimer then
    fun x => (x.1.stepperCyclesPerTick (if x.2 then 3 else 5), !x.2)
  else id

theorem turnsIsr_leaves {i : Fin mcuNTimers} {q : IrqNum}
    (apart : i ≠ stepperTimer ∨ q ≠ .timer stepperTimer) : LeavesTimer i (turnsIsr q) := by
  unfold turnsIsr
  split
  next stepper =>
    have other : i ≠ stepperTimer := apart.resolve_right fun h => h stepper
    have away : (stepperTimer : Nat) ≠ (i : Nat) := fun same => other (Fin.ext same.symm)
    exact ⟨fun x => Vector.getElem_set_ne stepperTimer.isLt i.isLt away, fun _ => rfl, fun _ => rfl⟩
  next => exact ⟨fun _ => rfl, fun _ => rfl, fun _ => rfl⟩

theorem turnsIsr_programs : ProgramsStepper (turnsIsr (.timer stepperTimer)) where
  timer x := by
    refine Or.inr ⟨if x.2 then 3 else 5, ?_, rfl⟩
    split
    next => decide
    next => decide
  irqEnable _ := rfl
  booted _ := rfl

/-- 20 clocks, at which timer 1 raises three interrupts and the step timer four. -/
theorem timer_periods_turns :
    (((Machine.start steppingMcu true).run turnsIsr (List.replicate 20 .masterClock)).interrupts
        (.timer ⟨1, by decide⟩)).length = 3 ∧
      (((Machine.start steppingMcu true).run turnsIsr (List.replicate 20 .masterClock)).interrupts
        (.timer stepperTimer)).map Interrupt.clock = [5, 8, 13, 16] ∧
      StepsExact ((Machine.start steppingMcu true).run turnsIsr (List.replicate 20 .masterClock)) ∧
      FirstAt 8 ((Machine.start (steppingMcu.stepperCyclesPerTick 7) true).run turnsIsr
        (List.replicate 20 .masterClock)) (.timer stepperTimer) := by
  have clocks (code : Handler Bool) : .program code ∉ List.replicate 20 McuEvent.masterClock :=
    by simp
  obtain ⟨constant, programmed⟩ :=
    timer_periods turnsIsr (List.replicate 20 .masterClock) steppingMcu true
  have other : (⟨1, by decide⟩ : Fin mcuNTimers) ≠ stepperTimer := by decide
  obtain ⟨steps, first, -⟩ := programmed
    ⟨fun q apart => turnsIsr_leaves (Or.inr apart), fun code listed => absurd listed (clocks code)⟩
    turnsIsr_programs ⟨rfl, rfl, rfl⟩ rfl
  have at_eight := first 7 (by decide)
  have counted := constant ⟨1, by decide⟩
    ⟨fun q _ => turnsIsr_leaves (Or.inl other), fun code listed => absurd listed (clocks code)⟩
    (turnsIsr_leaves (Or.inl other)) ⟨rfl, rfl, rfl⟩ rfl rfl rfl (by decide) (by decide)
  exact ⟨counted, by decide +kernel, steps rfl (by decide), at_eight⟩

end GrblhalSim
