import GrblhalSim.AtcDrawbar

namespace GrblhalSim

/-- The samples, newest first, down to the one that the statics start with: there is none before it
that is off. -/
def sampleHistory (samples : List Bool) : List Bool := samples ++ [false, true]

/-- The latch after these samples, newest first: it goes on when the last four are off, and off when
the last two are on. -/
def latched : List Bool → Bool
  | [] => false
  | s :: before =>
    if latched before then decide ((sampleHistory (s :: before)).take 2 ≠ [true, true])
    else decide ((sampleHistory (s :: before)).take 4 = [false, false, false, false])

def latchCall (before after : Bool) : Option DrawbarCall :=
  if before = after then none else if after then some .opens else some .closes

/-- The calls that the latch makes for the samples that come after those in `before`. -/
def latchCalls (before : List Bool) : List Bool → List (Option DrawbarCall)
  | [] => []
  | s :: samples =>
    latchCall (latched before) (latched (s :: before)) :: latchCalls (s :: before) samples

/-- How many of the last samples are off. -/
def offRun (history : List Bool) : Nat := (history.takeWhile (!·)).length

/-- The statics of `atc_poll` after these samples. -/
structure Drawbar.Follows (d : Drawbar) (samples : List Bool) : Prop where
  val : some d.val = (sampleHistory samples).head?
  latch : d.latch = latched samples
  counting : d.latch = false →
    d.zeroCount = offRun (sampleHistory samples) - 1 ∧ offRun (sampleHistory samples) ≤ 3
  resting : d.latch = true → d.zeroCount = 0
  ones : d.oneCount = 0

theorem start_follows : Drawbar.start.Follows [] :=
  ⟨rfl, rfl, fun _ => ⟨rfl, by decide⟩, fun _ => rfl, rfl⟩

/-- In a history that is off `n` times, the last four samples are off when `n` is four or more. -/
theorem offRun_four (history : List Bool) :
    4 ≤ offRun history ↔ history.take 4 = [false, false, false, false] := by
  match history with
  | [] => decide
  | [a] => cases a <;> decide
  | [a, b] => cases a <;> cases b <;> decide
  | [a, b, c] => cases a <;> cases b <;> cases c <;> decide
  | a :: b :: c :: d :: rest =>
    cases a <;> cases b <;> cases c <;> cases d <;> simp [offRun]

theorem offRun_cons (s : Bool) (history : List Bool) :
    offRun (s :: history) = if s then 0 else offRun history + 1 := by
  cases s with
  | true => rfl
  | false => rfl

theorem offRun_head {history : List Bool} {v : Bool} (h : some v = history.head?) :
    (v = true → offRun history = 0) ∧ (v = false → 1 ≤ offRun history) := by
  cases history with
  | nil => cases h
  | cons s history =>
    cases h
    rw [offRun_cons]
    constructor
    · rintro rfl
      rfl
    · rintro rfl
      exact Nat.succ_pos _

theorem latched_off {samples : List Bool} (off : latched samples = false) (s : Bool) :
    latched (s :: samples) = decide (4 ≤ offRun (s :: sampleHistory samples)) := by
  rw [latched, off, if_neg Bool.false_ne_true]
  exact decide_eq_decide.mpr (offRun_four _).symm

theorem latched_on {samples : List Bool} (on : latched samples = true) {v : Bool}
    (newest : some v = (sampleHistory samples).head?) (s : Bool) :
    latched (s :: samples) = !(s && v) := by
  have two : (sampleHistory (s :: samples)).take 2 = [s, v] := by
    rw [sampleHistory, List.cons_append]
    cases h : samples ++ [false, true] with
    | nil => simp at h
    | cons first rest =>
      rw [sampleHistory, h] at newest
      cases newest
      rfl
  rw [latched, on, if_pos rfl, two]
  cases s <;> cases v <;> rfl

theorem Drawbar.Follows.debounce_off {d : Drawbar} {samples : List Bool} (h : d.Follows samples)
    (off : latched samples = false) (s : Bool) :
    (d.debounce s).1.Follows (s :: samples) ∧
      (d.debounce s).2 = latchCall false (latched (s :: samples)) ∧
      d.zeroCount + 1 < zeroThreshold := by
  obtain ⟨val, latch, counting, -, ones⟩ := h
  have on := latch.trans off
  obtain ⟨count, small⟩ := counting on
  obtain ⟨zero, some⟩ := offRun_head val
  have ten : zeroThreshold = 10 := rfl
  have three : debounceThreshold = 3 := rfl
  have far : ¬ zeroThreshold ≤ d.zeroCount + 1 := by omega
  have history : sampleHistory (s :: samples) = s :: sampleHistory samples := rfl
  have next := latched_off off s
  have run := offRun_cons s (sampleHistory samples)
  cases s with
  | true =>
    rw [if_pos rfl] at run
    have same : latched (true :: samples) = false := by
      rw [next, run]
      rfl
    have shape : d.debounce true = ({ d with val := true, zeroCount := 0, oneCount := 0 }, none) := by
      simp [Drawbar.debounce, on, ten]
    rw [shape, same]
    refine ⟨⟨rfl, on.trans same.symm, fun _ => ?_, fun _ => rfl, rfl⟩, rfl, by omega⟩
    rw [history, run]
    exact ⟨rfl, Nat.zero_le 3⟩
  | false =>
    rw [if_neg Bool.false_ne_true] at run
    cases before : d.val with
    | true =>
      have first := zero before
      have same : latched (false :: samples) = false := by
        rw [next, run, first]
        rfl
      have shape : d.debounce false =
          ({ d with val := false, zeroCount := 0, oneCount := 0 }, none) := by
        simp [Drawbar.debounce, before, far]
      rw [shape, same]
      refine ⟨⟨rfl, on.trans same.symm, fun _ => ?_, fun _ => rfl, rfl⟩, rfl, by omega⟩
      rw [history, run, first]
      exact ⟨rfl, by decide⟩
    | false =>
      have positive := some before
      by_cases enough : debounceThreshold ≤ d.zeroCount + 1
      · have pressed : latched (false :: samples) = true := by
          rw [next, run]
          exact decide_eq_true (by omega)
        have shape : d.debounce false =
            ({ d with val := false, latch := true, zeroCount := 0, oneCount := 0 },
              Option.some .opens) := by
          simp [Drawbar.debounce, before, on, enough]
        rw [shape, pressed]
        refine ⟨⟨rfl, pressed.symm, fun off => ?_, fun _ => rfl, rfl⟩, rfl, by omega⟩
        cases off
      · have same : latched (false :: samples) = false := by
          rw [next, run]
          exact decide_eq_false (by omega)
        have shape : d.debounce false =
            ({ d with val := false, zeroCount := d.zeroCount + 1, oneCount := 0 }, none) := by
          simp [Drawbar.debounce, before, on, enough]
        rw [shape, same]
        refine ⟨⟨rfl, on.trans same.symm, fun _ => ?_, fun latched => ?_, rfl⟩, rfl, by omega⟩
        · have total : d.zeroCount + 1 = offRun (sampleHistory samples) + 1 - 1 := by omega
          rw [history, run]
          exact ⟨total, by omega⟩
        · rw [show _ = d.latch from rfl, on] at latched
          cases latched

theorem Drawbar.Follows.debounce_on {d : Drawbar} {samples : List Bool} (h : d.Follows samples)
    (pressed : latched samples = true) (s : Bool) :
    (d.debounce s).1.Follows (s :: samples) ∧
      (d.debounce s).2 = latchCall true (latched (s :: samples)) ∧
      d.zeroCount + 1 < zeroThreshold := by
  obtain ⟨val, latch, -, resting, ones⟩ := h
  have on := latch.trans pressed
  have zero := resting on
  have ten : zeroThreshold = 10 := rfl
  have next := latched_on pressed val s
  by_cases released : s = true ∧ d.val = true
  · obtain ⟨rfl, before⟩ := released
    have off : latched (true :: samples) = false := by
      rw [next, before]
      rfl
    have shape : d.debounce true =
        ({ d with val := true, latch := false, zeroCount := 0, oneCount := 0 }, some .closes) := by
      simp [Drawbar.debounce, before, on]
    rw [shape, off]
    refine ⟨⟨rfl, off.symm, fun _ => ⟨rfl, Nat.zero_le 3⟩, fun _ => rfl, rfl⟩, rfl, by omega⟩
  · have same : latched (s :: samples) = true := by
      rw [next]
      cases s with
      | true =>
        cases before : d.val with
        | true => exact absurd ⟨rfl, before⟩ released
        | false => rfl
      | false => rfl
    have shape : d.debounce s = ({ d with val := s, zeroCount := 0, oneCount := 0 }, none) := by
      cases s with
      | true =>
        have before : d.val = false := by simpa using released
        simp [Drawbar.debounce, before, ten]
      | false => simp [Drawbar.debounce, on, zero, ten]
    rw [shape, same]
    refine ⟨⟨rfl, on.trans same.symm, fun off => ?_, fun _ => rfl, rfl⟩, rfl, by omega⟩
    rw [show _ = d.latch from rfl, on] at off
    cases off

/-- A poll calls what the latch calls, and its second threshold is never reached. -/
theorem Drawbar.Follows.debounce {d : Drawbar} {samples : List Bool} (h : d.Follows samples)
    (s : Bool) :
    (d.debounce s).1.Follows (s :: samples) ∧
      (d.debounce s).2 = latchCall (latched samples) (latched (s :: samples)) ∧
      d.zeroCount + 1 < zeroThreshold := by
  cases pressed : latched samples with
  | false => exact h.debounce_off pressed s
  | true => exact h.debounce_on pressed s

/-- The statics follow the samples; a button that is not enabled reads as off. -/
structure Drawbar.Inv (flags : AtcFlags) (d : Drawbar) (samples : List Bool) : Prop where
  follows : d.Follows samples
  unread : flags.userInputActive = false → d.status.userinputStatus = false

/-- `d'` is `d` but for the calls made and the bits of `atc_status`, of which that of the button is
read again or left alone. -/
structure Drawbar.Driven (flags : AtcFlags) (d d' : Drawbar) : Prop where
  statics : d'.val = d.val ∧ d'.latch = d.latch ∧ d'.zeroCount = d.zeroCount ∧
    d'.oneCount = d.oneCount
  button : flags.userInputActive = false → d'.status.userinputStatus = d.status.userinputStatus

theorem drive_driven (flags : AtcFlags) (d : Drawbar) (now : AtcSituation) (on : Bool) :
    d.Driven flags (d.drive flags now on) :=
  ⟨⟨rfl, rfl, rfl, rfl⟩, fun off => if_neg (by rw [off]; decide)⟩

theorem spindleOff_driven (flags : AtcFlags) (d : Drawbar) (now : AtcSituation) :
    d.Driven flags (d.spindleOff flags now) :=
  ⟨⟨rfl, rfl, rfl, rfl⟩, fun off => if_neg (by rw [off]; decide)⟩

theorem drawbarOpen_driven (flags : AtcFlags) (d : Drawbar) (now : AtcSituation) :
    d.Driven flags (d.drawbarOpen flags now) := by
  unfold Drawbar.drawbarOpen
  dsimp only
  split
  next => exact ⟨⟨rfl, rfl, rfl, rfl⟩, fun _ => rfl⟩
  next =>
    have off := spindleOff_driven flags (d.put now [.message "ATC plugin: Drawbar Open"]) now
    split
    next => exact ⟨off.statics, off.button⟩
    next =>
      have driven := drive_driven flags
        ((d.put now [.message "ATC plugin: Drawbar Open"]).spindleOff flags now) now true
      exact ⟨driven.statics, fun unread => (driven.button unread).trans (off.button unread)⟩

theorem drawbarClose_driven (flags : AtcFlags) (d : Drawbar) (now : AtcSituation) :
    d.Driven flags (d.drawbarClose flags now) := by
  unfold Drawbar.drawbarClose
  split
  next => exact ⟨⟨rfl, rfl, rfl, rfl⟩, fun _ => rfl⟩
  next =>
    split
    next => exact ⟨⟨rfl, rfl, rfl, rfl⟩, fun _ => rfl⟩
    next =>
      have driven := drive_driven flags (d.put now [.message "ATC plugin: Drawbar Close"]) now false
      exact ⟨driven.statics, driven.button⟩

theorem Drawbar.Inv.driven {flags : AtcFlags} {d d' : Drawbar} {samples : List Bool}
    (inv : d.Inv flags samples) (driven : d.Driven flags d') : d'.Inv flags samples := by
  obtain ⟨val, latch, zero, one⟩ := driven.statics
  obtain ⟨⟨newest, on, counting, resting, ones⟩, unread⟩ := inv
  refine ⟨⟨?_, latch.trans on, ?_, ?_, one.trans ones⟩,
    fun off => (driven.button off).trans (unread off)⟩
  · rw [val, newest]
  · rw [latch, zero]
    exact counting
  · rw [latch, zero]
    exact resting

/-- What a poll reads of the button. -/
def AtcFlags.sample (flags : AtcFlags) (now : AtcSituation) : Bool :=
  flags.userInputActive && now.polled.userInput

theorem debounce_frame (d : Drawbar) (val : Bool) :
    (d.debounce val).1.status = d.status ∧ (d.debounce val).1.outputs = d.outputs := by
  unfold Drawbar.debounce
  dsimp only
  generalize (if val = true then 0 else d.zeroCount + 1) = zeros
  generalize (if val = true then d.oneCount + 1 else 0) = ones
  split
  next =>
    split
    next => exact ⟨rfl, rfl⟩
    next => exact ⟨rfl, rfl⟩
  next =>
    split
    next =>
      split
      next => exact ⟨rfl, rfl⟩
      next => exact ⟨rfl, rfl⟩
    next => exact ⟨rfl, rfl⟩

theorem Drawbar.Inv.poll {flags : AtcFlags} {d : Drawbar} {samples : List Bool}
    (inv : d.Inv flags samples) (now : AtcSituation) :
    (d.atcPoll flags now).1.Inv flags (flags.sample now :: samples) ∧
      (d.atcPoll flags now).2 =
        latchCall (latched samples) (latched (flags.sample now :: samples)) := by
  have read : (flags.readAtcPorts now.polled d.status).userinputStatus = flags.sample now := by
    unfold AtcFlags.readAtcPorts AtcFlags.sample
    cases active : flags.userInputActive with
    | true => rfl
    | false => exact inv.unread active
  have status :
      ({ d with status := flags.readAtcPorts now.polled d.status } : Drawbar).Follows samples :=
    ⟨inv.follows.val, inv.follows.latch, inv.follows.counting, inv.follows.resting,
      inv.follows.ones⟩
  obtain ⟨follows, call, -⟩ := status.debounce (flags.sample now)
  unfold Drawbar.atcPoll
  dsimp only
  rw [read]
  refine ⟨?_, call⟩
  have after : (({ d with status := flags.readAtcPorts now.polled d.status } : Drawbar).debounce
      (flags.sample now)).1.Inv flags (flags.sample now :: samples) := by
    refine ⟨follows, fun off => ?_⟩
    rw [(debounce_frame _ _).1, read, AtcFlags.sample, off]
    rfl
  unfold Drawbar.serve
  split
  next => exact after
  next => exact after.driven (drawbarOpen_driven _ _ _)
  next => exact after.driven (drawbarClose_driven _ _ _)

/-- The samples of the polls among the events, in order. -/
def pollSamples (flags : AtcFlags) : List (DrawbarEvent × AtcSituation) → List Bool
  | [] => []
  | (.poll, now) :: events => flags.sample now :: pollSamples flags events
  | (_, _) :: events => pollSamples flags events

theorem Drawbar.Inv.pollCalls {flags : AtcFlags} {d : Drawbar} {samples : List Bool}
    (inv : d.Inv flags samples) (events : List (DrawbarEvent × AtcSituation)) :
    d.pollCalls flags events = latchCalls samples (pollSamples flags events) := by
  induction events generalizing d samples with
  | nil => rfl
  | cons ev events ih =>
    obtain ⟨kind, now⟩ := ev
    cases kind with
    | poll =>
      obtain ⟨next, call⟩ := inv.poll now
      rw [Drawbar.pollCalls, pollSamples, latchCalls, ← call]
      exact congrArg (_ :: ·) (ih next)
    | drbo => exact ih (inv.driven (drawbarOpen_driven flags d now))
    | drbc => exact ih (inv.driven (drawbarClose_driven flags d now))

/-- In every run `atc_poll` opens and closes the drawbar as a latch that goes on after four samples
off, the one it starts with included, and off after two samples on. -/
theorem atc_poll_hysteresis (flags : AtcFlags) (events : List (DrawbarEvent × AtcSituation)) :
    Drawbar.start.pollCalls flags events = latchCalls [] (pollSamples flags events) :=
  Drawbar.Inv.pollCalls ⟨start_follows, fun _ => rfl⟩ events

/-- Without a button the third poll opens the drawbar. -/
example : latchCalls [] [false, false, false, false] = [none, none, some .opens, none] := by
  decide

/-- What is driven in this call, `none` if the call is none of the port. -/
def AtcOutput.drawbarLevel : AtcOutput → Option Bool
  | .drawbarControl on => some on
  | _ => none

def AtcOutput.taperLevel : AtcOutput → Option Bool
  | .taperClear on => some on
  | _ => none

/-- The level of a port after these calls. -/
def levelAfter (level : AtcOutput → Option Bool) (outputs : List (AtcSituation × AtcOutput)) :
    Option Bool :=
  (outputs.filterMap fun o => level o.2).getLast?

def AtcSituation.Still (now : AtcSituation) : Prop :=
  now.spindleOn = false ∧ now.turning = false ∧ now.state ≠ .other

/-- The drawbar and the air of the taper have been driven only with the spindle off and at rest, in a
state of the machine that allows it, and both are as `atc_status` says. -/
structure Drawbar.Safe (flags : AtcFlags) (d : Drawbar) : Prop where
  still : ∀ now o, (now, o) ∈ d.outputs → o.drawbarLevel ≠ none ∨ o.taperLevel ≠ none → now.Still
  same : d.status.taperclearControl = d.status.drawbarControl
  drawbar : flags.drawbarControlActive = true →
    (levelAfter AtcOutput.drawbarLevel d.outputs).getD false = d.status.drawbarControl
  taper : flags.taperClearActive = true →
    (levelAfter AtcOutput.taperLevel d.outputs).getD false = d.status.drawbarControl

theorem levelAfter_put (level : AtcOutput → Option Bool) (d : Drawbar) (now : AtcSituation)
    (outputs : List AtcOutput) : levelAfter level (d.put now outputs).outputs =
      ((outputs.filterMap level).getLast?).or (levelAfter level d.outputs) := by
  unfold levelAfter Drawbar.put
  rw [List.filterMap_append, List.getLast?_append, List.filterMap_map]
  rfl

theorem Drawbar.Safe.quiet {flags : AtcFlags} {d : Drawbar} (safe : d.Safe flags)
    (now : AtcSituation) {o : AtcOutput} (drawbar : o.drawbarLevel = none)
    (taper : o.taperLevel = none) : (d.put now [o]).Safe flags := by
  have drawbarLevel := levelAfter_put AtcOutput.drawbarLevel d now [o]
  have taperLevel := levelAfter_put AtcOutput.taperLevel d now [o]
  rw [List.filterMap_cons_none drawbar] at drawbarLevel
  rw [List.filterMap_cons_none taper] at taperLevel
  refine ⟨fun then' o' made driven => ?_, safe.same, ?_, ?_⟩
  · rcases List.mem_append.mp made with old | new
    · exact safe.still then' o' old driven
    · rw [List.map_singleton, List.mem_singleton] at new
      cases new
      rcases driven with driven | driven
      · exact absurd drawbar driven
      · exact absurd taper driven
  · rw [drawbarLevel]
    exact safe.drawbar
  · rw [taperLevel]
    exact safe.taper

theorem Drawbar.Safe.drive {flags : AtcFlags} {d : Drawbar} (safe : d.Safe flags)
    {now : AtcSituation} (still : now.Still) (on : Bool) : (d.drive flags now on).Safe flags := by
  refine ⟨fun then' o made driven => ?_, rfl, fun active => ?_, fun active => ?_⟩
  · rcases List.mem_append.mp made with old | new
    · exact safe.still then' o old driven
    · obtain ⟨_, _, same⟩ := List.mem_map.mp new
      cases same
      exact still
  · have level := levelAfter_put AtcOutput.drawbarLevel d now
      ((if flags.drawbarControlActive then [.drawbarControl on] else []) ++
        if flags.taperClearActive then [.taperClear on] else [])
    refine (congrArg (·.getD false) level).trans ?_
    rw [active]
    cases flags.taperClearActive with
    | true => rfl
    | false => rfl
  · have level := levelAfter_put AtcOutput.taperLevel d now
      ((if flags.drawbarControlActive then [.drawbarControl on] else []) ++
        if flags.taperClearActive then [.taperClear on] else [])
    refine (congrArg (·.getD false) level).trans ?_
    rw [active]
    cases flags.drawbarControlActive with
    | true => rfl
    | false => rfl

theorem still_of {now : AtcSituation} (stopped : ¬ (now.spindleOn || now.turning) = true)
    (allowed : ¬ now.state = .other) : now.Still := by
  obtain ⟨off, rest⟩ := not_or.mp (mt Bool.or_eq_true_iff.mpr stopped)
  exact ⟨Bool.eq_false_iff.mpr off, Bool.eq_false_iff.mpr rest, allowed⟩

theorem Drawbar.Safe.spindleOff {flags : AtcFlags} {d : Drawbar} (safe : d.Safe flags)
    (now : AtcSituation) : (d.spindleOff flags now).Safe flags :=
  have off := safe.quiet now (o := .spindleOff) rfl rfl
  ⟨off.still, off.same, off.drawbar, off.taper⟩

theorem Drawbar.Safe.drawbarOpen {flags : AtcFlags} {d : Drawbar} (safe : d.Safe flags)
    (now : AtcSituation) : (d.drawbarOpen flags now).Safe flags := by
  have asked := safe.quiet now (o := .message "ATC plugin: Drawbar Open") rfl rfl
  unfold Drawbar.drawbarOpen
  dsimp only
  split
  next => exact asked.quiet now rfl rfl
  next stopped =>
    have off := asked.spindleOff now
    split
    next => exact off.quiet now rfl rfl
    next allowed => exact off.drive (still_of stopped allowed) true

theorem Drawbar.Safe.drawbarClose {flags : AtcFlags} {d : Drawbar} (safe : d.Safe flags)
    (now : AtcSituation) : (d.drawbarClose flags now).Safe flags := by
  unfold Drawbar.drawbarClose
  split
  next => exact safe
  next stopped =>
    split
    next => exact safe
    next allowed => exact (safe.quiet now rfl rfl).drive (still_of stopped allowed) false

theorem Drawbar.Safe.atcPoll {flags : AtcFlags} {d : Drawbar} (safe : d.Safe flags)
    (now : AtcSituation) : (d.atcPoll flags now).1.Safe flags := by
  obtain ⟨status, outputs⟩ := debounce_frame
    ({ d with status := flags.readAtcPorts now.polled d.status } : Drawbar)
    (flags.readAtcPorts now.polled d.status).userinputStatus
  have debounced : (({ d with status := flags.readAtcPorts now.polled d.status } : Drawbar).debounce
      (flags.readAtcPorts now.polled d.status).userinputStatus).1.Safe flags := by
    refine ⟨?_, ?_, ?_, ?_⟩
    · rw [outputs]
      exact safe.still
    · rw [status]
      exact safe.same
    · rw [outputs, status]
      exact safe.drawbar
    · rw [outputs, status]
      exact safe.taper
  unfold Drawbar.atcPoll Drawbar.serve
  dsimp only
  split
  next => exact debounced
  next => exact debounced.drawbarOpen now
  next => exact debounced.drawbarClose now

/-- The button and the commands in any order never move the drawbar of a spindle that turns, nor in a
state of the machine that does not allow it, and the outputs are as `atc_status` says. -/
theorem drawbar_safe (flags : AtcFlags) (events : List (DrawbarEvent × AtcSituation)) :
    (events.foldl (Drawbar.step flags) Drawbar.start).Safe flags := by
  have start : Drawbar.start.Safe flags :=
    ⟨fun _ _ made => absurd made List.not_mem_nil, rfl, fun _ => rfl, fun _ => rfl⟩
  generalize Drawbar.start = d at start
  induction events generalizing d with
  | nil => exact start
  | cons ev events ih =>
    refine ih _ ?_
    obtain ⟨kind, now⟩ := ev
    cases kind with
    | poll => exact start.atcPoll now
    | drbo => exact start.drawbarOpen now
    | drbc => exact start.drawbarClose now

end GrblhalSim
