import GrblhalSim.MacroRun

namespace GrblhalSim

open CallRun

variable {φ η : Type}

/-- How a run through the lines of a macro ends: with its file, or with `M99`. -/
inductive MacroEnd
  | eof
  | macroReturn
  deriving DecidableEq

/-- A line that starts a macro: a file, a part of the file that is streaming, or `tc.macro`. -/
inductive MacroLine (φ : Type)
  | file (macroId : Nat) (dollar : Bool) (opened : φ)
  | sub (macroId : Nat) (call : SubCall φ)
  | toolChange (currentTool nextTool : Int32) (opened : φ)

mutual

/-- The macros that the lines of a macro start, in order. -/
inductive MacroBody (φ : Type)
  | done
  | call (line : MacroLine φ) (times : MacroTimes φ) (rest : MacroBody φ)

/-- The runs through the lines of one macro. -/
inductive MacroTimes (φ : Type)
  | last (body : MacroBody φ) (how : MacroEnd)
  | again (body : MacroBody φ) (how : MacroEnd) (times : MacroTimes φ)

end

def MacroTimes.count : MacroTimes φ → Nat
  | .last _ _ => 1
  | .again _ _ times => times.count + 1

def MacroEnd.event (file : φ) : MacroEnd → MacroEvent φ η
  | .eof => .eof file true
  | .macroReturn => .macroReturn

/-- `grbl.report.status_message` when the file of the macro ends. -/
def MacroEnd.report : MacroEnd → List (MacroOutput φ η)
  | .eof => [.statusMessage .ok]
  | .macroReturn => []

def MacroLine.entry (repeats : UInt32) : MacroLine φ → MacroEntry φ
  | .file macroId dollar opened => ⟨macroId, repeats, opened, 0, 0, !dollar⟩
  | .sub macroId call => ⟨macroId, repeats, call.file, call.pos, call.tell, false⟩
  | .toolChange _ _ opened => ⟨99, repeats, opened, 0, 0, false⟩

def MacroLine.event (repeats : UInt32) : MacroLine φ → MacroEvent φ η
  | .file macroId dollar opened => .execute macroId dollar repeats none ⟨false, true, some opened⟩
  | .sub macroId call => .execute macroId true repeats (some call) ⟨false, true, none⟩
  | .toolChange currentTool nextTool opened =>
    .toolChange false currentTool nextTool ⟨false, true, some opened⟩

/-- The calls that start the macro. -/
def MacroLine.opening (tcPath : List UInt8) : MacroLine φ → List (MacroOutput φ η)
  | .file macroId _ opened => [.redirectRead (macroFilename macroId) opened, .returns .handled]
  | .sub _ call => [.seek call.file call.pos, .returns .handled]
  | .toolChange _ _ opened => [.redirectRead (tcPath ++ ascii "tc.macro") opened, .returns .unhandled]

/-- The line starts its macro, for so many runs. -/
def MacroLine.Starts (count : Nat) : MacroLine φ → Prop
  | .file macroId _ _ => 100 ≤ macroId
  | .sub macroId _ => 100 ≤ macroId
  | .toolChange currentTool nextTool _ =>
    count = 1 ∧ nextTool ≠ -1 ∧ currentTool ≠ nextTool ∧ nextTool ≠ 0

mutual

/-- How many macros are on the stack at a time. -/
def MacroBody.depth : MacroBody φ → Nat
  | .done => 0
  | .call _ times rest => max (times.depth + 1) rest.depth

def MacroTimes.depth : MacroTimes φ → Nat
  | .last body _ => body.depth
  | .again body _ times => max body.depth times.depth

end

mutual

def MacroBody.Starts : MacroBody φ → Prop
  | .done => True
  | .call line times rest =>
    line.Starts times.count ∧ times.count ≤ 2 ^ 32 ∧ times.Starts ∧ rest.Starts

def MacroTimes.Starts : MacroTimes φ → Prop
  | .last body _ => body.Starts
  | .again body _ times => body.Starts ∧ times.Starts

end

mutual

/-- What happens to the plugin while the lines are read. -/
def MacroBody.events : MacroBody φ → List (MacroEvent φ η)
  | .done => []
  | .call line times rest =>
    line.event (.ofNat times.count) :: (times.events (line.entry 0).file ++ rest.events)

def MacroTimes.events (file : φ) : MacroTimes φ → List (MacroEvent φ η)
  | .last body how => body.events ++ [how.event file]
  | .again body how times => body.events ++ how.event file :: times.events file

end

mutual

/-- The calls that the plugin makes for these lines: each macro starts, its lines are read so many
times, back from its first line, and it ends before the line after its call is read. -/
def MacroBody.calls (tcPath : List UInt8) : MacroBody φ → List (MacroOutput φ η)
  | .done => []
  | .call line times rest =>
    line.opening tcPath ++ times.calls tcPath (line.entry 0) ++ rest.calls tcPath

def MacroTimes.calls (tcPath : List UInt8) (e : MacroEntry φ) :
    MacroTimes φ → List (MacroOutput φ η)
  | .last body how => body.calls tcPath ++ e.closing ++ how.report
  | .again body _ times =>
    body.calls tcPath ++ .seek e.file e.pos :: times.calls tcPath e

end

/-- In a macro `grbl.on_macro_return` is `macro_exit`; outside no handler is saved. -/
structure Macros.Hooked (m : Macros φ η) : Prop where
  inside : m.stack ≠ [] → m.onMacroReturn = some .macroExit
  outside : m.stack = [] → m.saved = none

def Macros.withStack (m : Macros φ η) (stack : List (MacroEntry φ)) : Macros φ η :=
  { m with stack := stack }

theorem put_withStack (m : Macros φ η) (outputs : List (MacroOutput φ η))
    (stack : List (MacroEntry φ)) : (m.put outputs).withStack stack = (m.withStack stack).put outputs :=
  rfl

theorem unhook_put (m : Macros φ η) (outputs : List (MacroOutput φ η)) :
    m.unhook.put outputs = (m.put outputs).unhook := by
  unfold Macros.unhook
  split
  next empty => exact (if_pos empty).symm
  next inside => exact (if_neg inside).symm

theorem run_append {σ ι ε : Type} {step : σ → ι → Except ε σ} {s s' : σ} {first : List ι}
    (ran : run step s first = .ok s') (second : List ι) :
    run step s (first ++ second) = run step s' second := by
  unfold run at ran ⊢
  rw [List.foldlM_append, ran]
  rfl

theorem repeats_more {n : Nat} (positive : 0 < n) (small : n + 1 ≤ 2 ^ 32) :
    UInt32.ofNat (n + 1) - 1 = UInt32.ofNat n ∧ UInt32.ofNat n ≠ 0 := by
  constructor
  · apply UInt32.toNat_inj.mp
    rw [UInt32.toNat_sub, UInt32.toNat_ofNat', UInt32.toNat_ofNat']
    have : (1 : UInt32).toNat = 1 := rfl
    omega
  · intro zero
    have := congrArg UInt32.toNat zero
    rw [UInt32.toNat_ofNat', Nat.mod_eq_of_lt (by omega)] at this
    have : (0 : UInt32).toNat = 0 := rfl
    omega

theorem step_end_again [DecidableEq φ] {m : Macros φ η} {e : MacroEntry φ}
    {rest : List (MacroEntry φ)} (stack : m.stack = e :: rest)
    (hooked : m.onMacroReturn = some .macroExit) (more : e.repeats - 1 ≠ 0) (how : MacroEnd) :
    m.step (how.event e.file) =
      .ok ((m.withStack ({ e with repeats := e.repeats - 1 } :: rest)).put
        [.seek e.file e.pos]) := by
  have ended : m.endMacro false =
      (false, (m.withStack ({ e with repeats := e.repeats - 1 } :: rest)).put
        [.seek e.file e.pos]) := endMacro_again stack more
  cases how with
  | eof => simp only [MacroEnd.event, Macros.step, Macros.onG65MacroEOF, stack, if_true, ended,
      Bool.false_eq_true, if_false]
  | macroReturn =>
    have inside : m.stack.isEmpty = false := by rw [stack]; rfl
    simp only [MacroEnd.event, Macros.step, Macros.callMacroReturn, hooked, Macros.macroExit,
      inside, Bool.false_eq_true, if_false, ended]

theorem step_end_last [DecidableEq φ] {m : Macros φ η} {e : MacroEntry φ}
    {rest : List (MacroEntry φ)} (stack : m.stack = e :: rest)
    (hooked : m.onMacroReturn = some .macroExit) (last : e.repeats - 1 = 0) (how : MacroEnd) :
    m.step (how.event e.file) =
      .ok ((m.withStack rest).put (e.closing ++ how.report)).unhook := by
  have ended : m.endMacro false = (true, ((m.withStack rest).put e.closing).unhook) :=
    endMacro_ended stack (.inr last)
  cases how with
  | eof =>
    simp only [MacroEnd.event, Macros.step, Macros.onG65MacroEOF, stack, if_true, ended,
      MacroEnd.report]
    rw [unhook_put, put_put]
  | macroReturn =>
    have inside : m.stack.isEmpty = false := by rw [stack]; rfl
    simp only [MacroEnd.event, Macros.step, Macros.callMacroReturn, hooked, Macros.macroExit,
      inside, Bool.false_eq_true, if_false, ended, MacroEnd.report, List.append_nil]

theorem put_enter (m : Macros φ η) (outputs : List (MacroOutput φ η)) (e : MacroEntry φ) :
    (m.put outputs).enter e = (m.enter e).put outputs := by
  unfold Macros.enter
  rw [put_stack]
  split
  next => rfl
  next => rfl

theorem macroStart_opens {m : Macros φ η} (room : m.stack.length < macroStackDepth)
    (filename : List UInt8) (macroId : Nat) (repeats : UInt32) (pstack : Bool) (opened : φ) :
    m.macroStart filename macroId repeats pstack ⟨false, true, some opened⟩ =
      .ok (.handled, (m.enter ⟨macroId, repeats, opened, 0, 0, pstack⟩).put
        [.redirectRead filename opened]) := by
  have push : (m.put [.redirectRead filename opened]).stack.length < macroStackDepth := room
  simp only [Macros.macroStart, Macros.stackPush, if_neg (Nat.not_le.mpr room),
    Bool.false_eq_true, if_false, if_pos push]
  exact congrArg (fun m => Except.ok (MacroStatus.handled, m)) (put_enter _ _ _)

theorem step_line [DecidableEq φ] {m : Macros φ η} (room : m.stack.length < macroStackDepth)
    {count : Nat} {line : MacroLine φ} (starts : line.Starts count) (repeats : UInt32)
    (one : count = 1 → repeats = 1) :
    m.step (line.event repeats) =
      .ok ((m.enter (line.entry repeats)).put (line.opening m.tcPath)) := by
  cases line with
  | file macroId dollar opened =>
    have known : ¬ macroId < 100 := Nat.not_lt.mpr starts
    have noSub : (if dollar then none else none : Option (SubCall φ)) = none := by
      split
      next => rfl
      next => rfl
    rw [MacroLine.event, Macros.step, Macros.macroExecute, if_neg known, noSub,
      macroStart_opens room]
    exact congrArg Except.ok (put_put _ _ _)
  | sub macroId call =>
    have known : ¬ macroId < 100 := Nat.not_lt.mpr starts
    rw [MacroLine.event, Macros.step, Macros.macroExecute, if_neg known]
    simp only [if_true, if_neg (Nat.not_le.mpr room), Macros.stackPush, if_pos room]
    exact congrArg Except.ok (put_put _ _ _)
  | toolChange currentTool nextTool opened =>
    obtain ⟨count, selected, other, tool⟩ := starts
    have change : ¬ (currentTool = nextTool ∨ false = false ∧ nextTool = 0) := by
      rintro (same | ⟨_, zero⟩)
      · exact other same
      · exact tool zero
    rw [MacroLine.event, Macros.step, Macros.macroToolChange, if_neg selected, if_neg change,
      macroStart_opens room, one count]
    exact congrArg Except.ok (put_put _ _ _)

/-- The stack of the macro that has been entered. -/
theorem enter_stack (m : Macros φ η) (e : MacroEntry φ) : (m.enter e).stack = e :: m.stack := by
  unfold Macros.enter
  split
  next empty => rw [List.isEmpty_iff.mp empty]
  next => rfl

theorem enter_hooked {m : Macros φ η} (hooked : m.Hooked) (e : MacroEntry φ) :
    (m.enter e).onMacroReturn = some .macroExit := by
  unfold Macros.enter
  split
  next => rfl
  next inside => exact hooked.inside (by simpa using inside)

/-- A macro that is entered and taken off again leaves nothing behind. -/
theorem enter_unhook {m : Macros φ η} (hooked : m.Hooked) (e : MacroEntry φ)
    (outputs : List (MacroOutput φ η)) :
    (((m.enter e).withStack m.stack).put outputs).unhook = m.put outputs := by
  unfold Macros.enter Macros.unhook Macros.withStack
  by_cases empty : m.stack = []
  · have saved := hooked.outside empty
    simp only [put_stack, List.isEmpty_iff.mpr empty, if_true]
    rw [Macros.put, Macros.put, ← saved]
  · have inside : m.stack.isEmpty = false := by simpa using empty
    simp only [put_stack, inside, Bool.false_eq_true, if_false]

theorem enter_tcPath (m : Macros φ η) (e : MacroEntry φ) : (m.enter e).tcPath = m.tcPath := by
  unfold Macros.enter
  split
  next => rfl
  next => rfl

theorem put_tcPath (m : Macros φ η) (outputs : List (MacroOutput φ η)) :
    (m.put outputs).tcPath = m.tcPath :=
  rfl

theorem entry_repeats (line : MacroLine φ) (repeats : UInt32) :
    line.entry repeats = { line.entry 0 with repeats := repeats } := by
  cases line with
  | file => rfl
  | sub => rfl
  | toolChange => rfl

theorem MacroTimes.count_pos (times : MacroTimes φ) : 0 < times.count := by
  cases times with
  | last => exact Nat.one_pos
  | again => exact Nat.succ_pos _

-- By recursion on the lines: a macro is run with the stack as its call has left it.
mutual

theorem MacroBody.run_calls [DecidableEq φ] (body : MacroBody φ) {m : Macros φ η}
    (hooked : m.Hooked) (starts : body.Starts)
    (room : m.stack.length + body.depth ≤ macroStackDepth) :
    run Macros.step m body.events = .ok (m.put (body.calls m.tcPath)) := by
  cases body with
  | done =>
    rw [MacroBody.calls, put_nil]
    rfl
  | call line times rest =>
    obtain ⟨starts, small, timesStart, restStarts⟩ := starts
    rw [MacroBody.depth] at room
    have started := step_line (m := m) (by omega) starts (.ofNat times.count)
      fun one => by rw [one]; rfl
    have entered : ((m.enter (line.entry (.ofNat times.count))).put
        (line.opening m.tcPath)).stack =
          { line.entry 0 with repeats := .ofNat times.count } :: m.stack := by
      rw [put_stack, enter_stack, ← entry_repeats]
    have ran := MacroTimes.run_calls times entered (enter_hooked hooked _) timesStart small
      (by omega)
    have left := enter_unhook hooked (line.entry (.ofNat times.count))
      (line.opening m.tcPath ++ times.calls m.tcPath (line.entry 0))
    have tcPath := enter_tcPath m (line.entry (.ofNat times.count))
    rw [put_tcPath, tcPath] at ran
    have after := MacroBody.run_calls rest
      (m := m.put (line.opening m.tcPath ++ times.calls m.tcPath (line.entry 0)))
      ⟨hooked.inside, hooked.outside⟩ restStarts (by rw [put_stack]; omega)
    rw [MacroBody.events, run_cons started, run_append (ran.trans ?_), after]
    · rw [put_put, put_tcPath, MacroBody.calls]
    · rw [← left, put_withStack, put_put]

theorem MacroTimes.run_calls [DecidableEq φ] (times : MacroTimes φ) {m : Macros φ η}
    {e : MacroEntry φ} {rest : List (MacroEntry φ)}
    (stack : m.stack = { e with repeats := .ofNat times.count } :: rest)
    (hooked : m.onMacroReturn = some .macroExit) (starts : times.Starts)
    (small : times.count ≤ 2 ^ 32) (room : rest.length + 1 + times.depth ≤ macroStackDepth) :
    run Macros.step m (times.events e.file) =
      .ok ((m.withStack rest).put (times.calls m.tcPath e)).unhook := by
  have inside : m.Hooked := ⟨fun _ => hooked, fun empty => by rw [stack] at empty; cases empty⟩
  have length : m.stack.length = rest.length + 1 := by rw [stack, List.length_cons]
  cases times with
  | last body how =>
    have ran := MacroBody.run_calls body inside starts (by rw [length]; exact room)
    have one : UInt32.ofNat (MacroTimes.last body how).count - 1 = 0 := by
      rw [MacroTimes.count]
      decide
    have ended := step_end_last (m := m.put (body.calls m.tcPath)) stack hooked one how
    rw [MacroTimes.events, run_append ran]
    refine (run_cons ended []).trans ?_
    rw [MacroTimes.calls, List.append_assoc, put_withStack, put_put]
    rfl
  | again body how times =>
    rw [MacroTimes.depth] at room
    rw [MacroTimes.count] at small
    obtain ⟨bodyStarts, timesStart⟩ := starts
    obtain ⟨left, more⟩ := repeats_more times.count_pos small
    have ran := MacroBody.run_calls body inside bodyStarts (by omega)
    have ended := step_end_again (m := m.put (body.calls m.tcPath)) stack hooked
      (fun h => more (left.symm.trans h)) how
    have again := MacroTimes.run_calls times (m := ((m.put (body.calls m.tcPath)).withStack
        ({ e with repeats := .ofNat times.count } :: rest)).put [.seek e.file e.pos])
      rfl hooked timesStart (by omega) (by omega)
    have counted : { e with repeats := UInt32.ofNat (times.count + 1) - 1 } =
        { e with repeats := UInt32.ofNat times.count } := by rw [left]
    rw [MacroTimes.events, run_append ran]
    refine (run_cons ended _).trans ?_
    rw [MacroTimes.count, counted]
    refine again.trans ?_
    rw [MacroTimes.calls, List.append_cons, ← put_put, ← put_put]
    rfl

end

/-- Macros that call macros are run as they nest, each as often as its call says, and leave the stack
and `grbl.on_macro_return` as they were. -/
theorem macro_lines_run [DecidableEq φ] {m : Macros φ η} (outside : m.stack = [])
    (saved : m.saved = none) (body : MacroBody φ) (starts : body.Starts)
    (room : body.depth ≤ macroStackDepth) :
    run Macros.step m body.events = .ok (m.put (body.calls m.tcPath)) := by
  refine body.run_calls ⟨fun inside => absurd outside inside, fun _ => saved⟩ starts ?_
  rw [outside]
  exact Nat.le_trans (Nat.le_of_eq (Nat.zero_add _)) room

/-- `P100` twice, the first time with a call of `P101` in it. -/
def nestedLines : MacroBody Nat :=
  .call (.file 100 false 7)
    (.again (.call (.sub 101 ⟨7, 40, 15⟩) (.last .done .macroReturn) .done) .eof
      (.last .done .eof)) .done

theorem macro_lines_run_nested :
    run Macros.step hookedMacros nestedLines.events =
      .ok (hookedMacros.put (nestedLines.calls hookedMacros.tcPath)) :=
  macro_lines_run rfl rfl nestedLines
    (by simp [nestedLines, MacroBody.Starts, MacroTimes.Starts, MacroLine.Starts,
      MacroTimes.count])
    (by decide)

end GrblhalSim
