import GrblhalSim.MacroStack

namespace GrblhalSim

open CallRun

variable {φ η : Type}

/-- The macro plugin as `fs_macros_init` leaves it, whoever has set `grbl.on_macro_return`. -/
structure Macros.AtStart (m : Macros φ η) : Prop where
  stack : m.stack = []
  saved : m.saved = none
  outputs : m.outputs = []

/-- The files that are open after a call, innermost first. None if the file that it closes is not the
innermost one. -/
def openAfter [DecidableEq φ] (files : List φ) : MacroOutput φ η → Option (List φ)
  | .redirectRead _ file => some (file :: files)
  | .redirectClose file => if files.head? = some file then some files.tail else none
  | _ => some files

/-- The files that the macros on the stack have opened; the others are parts of such a file. -/
def ownFiles (stack : List (MacroEntry φ)) : List φ :=
  (stack.filter fun e => e.posReturn == 0).map MacroEntry.file

structure MacroInv [DecidableEq φ] (m : Macros φ η) : Prop where
  room : m.stack.length ≤ macroStackDepth
  saved : m.stack = [] → m.saved = none
  files : m.outputs.foldlM openAfter [] = some (ownFiles m.stack)

/-- The call of a macro has been read before the macro is looked for. -/
def MacroEvent.CallRead : MacroEvent φ η → Prop
  | .execute _ _ _ (some call) _ => call.tell ≠ 0
  | _ => True

/-- A call that opens and closes no file. -/
def MacroOutput.Harmless [DecidableEq φ] (o : MacroOutput φ η) : Prop :=
  ∀ files, openAfter files o = some files

/-- What an event can do to the macros; `read` says that the call of a macro has been read. -/
inductive Macros.Change [DecidableEq φ] (read : Prop) (m : Macros φ η) : Macros φ η → Prop
  | calls (outputs : List (MacroOutput φ η)) (harmless : ∀ o ∈ outputs, o.Harmless) :
      Change read m (m.put outputs)
  | assigns (h : Option (ReturnHandler η)) : Change read m { m with onMacroReturn := h }
  | opens (filename : List UInt8) (e : MacroEntry φ) (after : List (MacroOutput φ η))
      (room : m.stack.length < macroStackDepth) (own : e.posReturn = 0)
      (harmless : ∀ o ∈ after, o.Harmless) :
      Change read m (((m.put [.redirectRead filename e.file]).enter e).put after)
  | shares (e : MacroEntry φ) (after : List (MacroOutput φ η))
      (room : m.stack.length < macroStackDepth) (shared : read → e.posReturn ≠ 0)
      (harmless : ∀ o ∈ after, o.Harmless) : Change read m ((m.enter e).put after)
  | ends (failed : Bool) (before after : List (MacroOutput φ η)) (inside : m.stack ≠ [])
      (early : ∀ o ∈ before, o.Harmless) (late : ∀ o ∈ after, o.Harmless) :
      Change read m (((m.put before).endMacro failed).2.put after)
  | endsAll (after : List (MacroOutput φ η)) (harmless : ∀ o ∈ after, o.Harmless) :
      Change read m (m.endAll.put after)

theorem put_nil (m : Macros φ η) : m.put [] = m := by
  simp only [Macros.put, List.append_nil]

theorem Macros.Change.same [DecidableEq φ] {read : Prop} (m : Macros φ η) : m.Change read m := by
  have calls : Macros.Change read m (m.put []) := .calls [] (by simp)
  rwa [put_nil] at calls

theorem put_put (m : Macros φ η) (first second : List (MacroOutput φ η)) :
    (m.put first).put second = m.put (first ++ second) := by
  simp only [Macros.put, List.append_assoc]

theorem stackPush_room {m m' : Macros φ η} {e : MacroEntry φ} (h : m.stackPush e = .ok m') :
    m.stack.length < macroStackDepth ∧ m' = m.enter e := by
  unfold Macros.stackPush at h
  split at h
  next room => exact ⟨room, (Except.ok.inj h).symm⟩
  next => cases h

theorem returns_harmless [DecidableEq φ] (status : MacroStatus) :
    ∀ o ∈ [MacroOutput.returns (φ := φ) (η := η) status], o.Harmless := by
  intro o ho files
  rw [List.mem_singleton.mp ho]
  rfl

theorem macroStart_change [DecidableEq φ] {read : Prop} {m m' : Macros φ η} {filename : List UInt8}
    {macroId : Nat} {repeats : UInt32} {pstack : Bool} {a : FileAnswers φ} {status : MacroStatus}
    (h : m.macroStart filename macroId repeats pstack a = .ok (status, m'))
    (after : List (MacroOutput φ η)) (harmless : ∀ o ∈ after, o.Harmless) :
    m.Change read (m'.put after) := by
  unfold Macros.macroStart at h
  split at h
  next =>
    cases h
    exact .calls after harmless
  next =>
    split at h
    next =>
      cases h
      exact .calls after harmless
    next =>
      split at h
      next =>
        cases h
        exact .calls after harmless
      next file _ =>
        cases pushed : (m.put [.redirectRead filename file]).stackPush
            ⟨macroId, repeats, file, 0, 0, pstack⟩ with
        | error e =>
          rw [pushed] at h
          cases h
        | ok next =>
          rw [pushed] at h
          cases h
          obtain ⟨room, rfl⟩ := stackPush_room pushed
          exact .opens filename ⟨macroId, repeats, file, 0, 0, pstack⟩ after room rfl harmless

theorem Macros.Change.returns [DecidableEq φ] {read : Prop} {m m' : Macros φ η} {status : MacroStatus}
    (h : ∀ after : List (MacroOutput φ η), (∀ o ∈ after, o.Harmless) → m.Change read (m'.put after)) :
    m.Change read (returning (status, m')) :=
  h [.returns status] (returns_harmless status)

theorem macroExecute_change [DecidableEq φ] {read : Prop} {m m' : Macros φ η} {macroId : Nat} {dollar : Bool}
    {repeats : UInt32} {sub : Option (SubCall φ)} {a : FileAnswers φ} {status : MacroStatus}
    (isRead : read → ∀ call, sub = some call → call.tell ≠ 0)
    (h : m.macroExecute macroId dollar repeats sub a = .ok (status, m'))
    (after : List (MacroOutput φ η)) (harmless : ∀ o ∈ after, o.Harmless) :
    m.Change read (m'.put after) := by
  unfold Macros.macroExecute at h
  split at h
  next =>
    cases h
    exact .calls after harmless
  next =>
    split at h
    next call found =>
      have shared : read → call.tell ≠ 0 := by
        intro hr
        refine isRead hr call ?_
        split at found
        next => exact found
        next => cases found
      split at h
      next =>
        cases h
        exact .calls after harmless
      next =>
        cases pushed : m.stackPush ⟨macroId, repeats, call.file, call.pos, call.tell, false⟩ with
        | error e =>
          rw [pushed] at h
          cases h
        | ok next =>
          rw [pushed] at h
          cases h
          obtain ⟨room, rfl⟩ := stackPush_room pushed
          rw [put_put]
          refine .shares ⟨macroId, repeats, call.file, call.pos, call.tell, false⟩
            ([.seek call.file call.pos] ++ after) room shared fun o ho => ?_
          rcases List.mem_append.mp ho with ho | ho
          · rw [List.mem_singleton.mp ho]
            exact fun _ => rfl
          · exact harmless o ho
    next => exact macroStart_change h after harmless

theorem onG65MacroEOF_change [DecidableEq φ] (read : Prop) (m : Macros φ η) (file : φ) (ok : Bool) :
    m.Change read (m.onG65MacroEOF file ok) := by
  have nothing : ∀ o ∈ ([] : List (MacroOutput φ η)), o.Harmless := by simp
  unfold Macros.onG65MacroEOF
  split
  next => exact .same m
  next e rest some =>
    have inside : m.stack ≠ [] := by
      rw [some]
      exact List.cons_ne_nil e rest
    have ends (after : List (MacroOutput φ η)) (harmless : ∀ o ∈ after, o.Harmless) :
        m.Change read ((m.endMacro false).2.put after) := by
      have ended : m.Change read (((m.put []).endMacro false).2.put after) :=
        .ends false [] after inside nothing harmless
      rwa [put_nil] at ended
    split
    next =>
      split
      next =>
        rcases result : m.endMacro false with ⟨ended, next⟩
        rw [result] at ends
        cases ended with
        | true =>
          refine ends [.statusMessage .ok] fun o ho => ?_
          rw [List.mem_singleton.mp ho]
          exact fun _ => rfl
        | false =>
          have := ends [] nothing
          rwa [put_nil] at this
      next =>
        rw [← put_nil m.endAll]
        exact .endsAll [] nothing
    next => exact .same m

theorem onG65MacroError_change [DecidableEq φ] (read : Prop) (m : Macros φ η) (code : UInt8) :
    m.Change read (m.onG65MacroError code) := by
  unfold Macros.onG65MacroError
  split
  next => exact .same m
  next e rest some =>
    refine .ends true _ _ ?_ (fun o ho => ?_) (fun o ho => ?_)
    · rw [some]
      exact List.cons_ne_nil e rest
    · rw [List.mem_singleton.mp ho]
      exact fun _ => rfl
    · rw [List.mem_singleton.mp ho]
      exact fun _ => rfl

theorem macroReturn_harmless [DecidableEq φ] (h : η) :
    ∀ o ∈ [MacroOutput.macroReturn (φ := φ) h], o.Harmless := by
  intro o ho files
  rw [List.mem_singleton.mp ho]
  rfl

theorem callMacroReturn_change [DecidableEq φ] {read : Prop} {m m' : Macros φ η}
    (h : m.callMacroReturn = .ok m') : m.Change read m' := by
  unfold Macros.callMacroReturn at h
  split at h
  next =>
    cases h
    exact .same m
  next =>
    unfold Macros.macroExit at h
    split at h
    next =>
      split at h
      next =>
        cases h
        exact .same m
      next => cases h
      next handler _ =>
        cases h
        exact .calls _ (macroReturn_harmless handler)
    next inside =>
      cases h
      have ended : m.Change read (((m.put []).endMacro false).2.put []) :=
        .ends false [] [] (by simpa using inside) (by simp) (by simp)
      rwa [put_nil, put_nil] at ended
  next handler _ =>
    cases h
    exact .calls _ (macroReturn_harmless handler)

/-- `macro_start` as a part of another function, which returns another status or none. -/
theorem macroStart_bind [DecidableEq φ] {read : Prop} {β : Type} {m : Macros φ η} {filename : List UInt8}
    {macroId : Nat} {repeats : UInt32} {pstack : Bool} {a : FileAnswers φ}
    {k : MacroStatus × Macros φ η → Except Unit β} {b : β}
    (h : (m.macroStart filename macroId repeats pstack a).bind k = .ok b) :
    ∃ status m', k (status, m') = .ok b ∧ ∀ after : List (MacroOutput φ η),
      (∀ o ∈ after, o.Harmless) → m.Change read (m'.put after) := by
  cases started : m.macroStart filename macroId repeats pstack a with
  | error e =>
    rw [started] at h
    cases h
  | ok r =>
    obtain ⟨status, m'⟩ := r
    rw [started] at h
    exact ⟨status, m', h, macroStart_change started⟩

theorem Macros.step_change [DecidableEq φ] {m m' : Macros φ η} {ev : MacroEvent φ η}
    (h : m.step ev = .ok m') : m.Change ev.CallRead m' := by
  have put_none {next : Macros φ η} (h : ∀ after : List (MacroOutput φ η),
      (∀ o ∈ after, o.Harmless) → m.Change ev.CallRead (next.put after)) :
      m.Change ev.CallRead next := by
    have := h [] (by simp)
    rwa [put_nil] at this
  cases ev with
  | execute macroId dollar repeats sub a =>
    change (m.macroExecute macroId dollar repeats sub a).map returning = .ok m' at h
    cases executed : m.macroExecute macroId dollar repeats sub a with
    | error e =>
      rw [executed] at h
      cases h
    | ok r =>
      obtain ⟨status, next⟩ := r
      rw [executed] at h
      cases h
      refine .returns (macroExecute_change (fun isRead call found => ?_) executed)
      subst found
      exact isRead
  | toolChange executeM6T0 currentTool nextTool a =>
    change (m.macroToolChange executeM6T0 currentTool nextTool a).map returning = .ok m' at h
    have same (status : MacroStatus) : m.Change True (returning (status, m)) :=
      .returns fun after harmless => .calls after harmless
    unfold Macros.macroToolChange at h
    split at h
    next =>
      cases h
      exact same _
    next =>
      split at h
      next =>
        cases h
        exact same _
      next =>
        cases started : m.macroStart (m.tcPath ++ ascii "tc.macro") 99 1 false a with
        | error e =>
          rw [started] at h
          cases h
        | ok r =>
          obtain ⟨status, next⟩ := r
          rw [started] at h
          cases h
          exact .returns (macroStart_change started)
  | toolSelect toolId a =>
    change m.macroToolSelect toolId a = .ok m' at h
    unfold Macros.macroToolSelect at h
    split at h
    next =>
      obtain ⟨_, next, h, changed⟩ := macroStart_bind h
      cases h
      exact put_none changed
    next =>
      cases h
      exact put_none fun after harmless => .calls after harmless
  | palletShuttle a =>
    obtain ⟨_, next, h, changed⟩ := macroStart_bind h
    cases h
    exact put_none changed
  | eof file ok =>
    cases h
    exact onG65MacroEOF_change _ m file ok
  | error code =>
    cases h
    exact onG65MacroError_change _ m code
  | macroReturn => exact callMacroReturn_change h
  | assign handler =>
    cases h
    exact .assigns handler
  | reset =>
    cases h
    refine .endsAll [.driverReset] fun o ho => ?_
    rw [List.mem_singleton.mp ho]
    exact fun _ => rfl

theorem foldlM_harmless [DecidableEq φ] {outputs : List (MacroOutput φ η)}
    (harmless : ∀ o ∈ outputs, o.Harmless) (files : List φ) :
    outputs.foldlM openAfter files = some files := by
  induction outputs with
  | nil => rfl
  | cons o outputs ih =>
    rw [List.foldlM_cons, harmless o List.mem_cons_self]
    exact ih fun o ho => harmless o (List.mem_cons_of_mem _ ho)

theorem endMacro_again {m : Macros φ η} {e : MacroEntry φ} {rest : List (MacroEntry φ)}
    (inside : m.stack = e :: rest) (more : e.repeats - 1 ≠ 0) :
    m.endMacro false =
      (false, { m with stack := { e with repeats := e.repeats - 1 } :: rest }.put
        [.seek e.file e.pos]) := by
  simp only [Macros.endMacro, inside, Bool.false_eq_true, if_false, if_pos more]

theorem endMacro_ended {m : Macros φ η} {e : MacroEntry φ} {rest : List (MacroEntry φ)}
    (inside : m.stack = e :: rest) {failed : Bool} (last : failed = true ∨ e.repeats - 1 = 0) :
    m.endMacro failed = (true, ({ m with stack := rest }.put e.closing).unhook) := by
  have left : ¬ (if failed then 0 else e.repeats - 1) ≠ 0 := by
    split
    next => exact fun h => h rfl
    next going => exact fun h => h (last.resolve_left going)
  simp only [Macros.endMacro, inside]
  rw [if_neg left]

/-- A macro starts again or is taken off the stack. -/
theorem endMacro_inside {m : Macros φ η} {e : MacroEntry φ} {rest : List (MacroEntry φ)}
    (inside : m.stack = e :: rest) (failed : Bool) :
    (∃ left, (m.endMacro failed).2 =
        { m with stack := { e with repeats := left } :: rest }.put [.seek e.file e.pos]) ∨
      (m.endMacro failed).2 = ({ m with stack := rest }.put e.closing).unhook := by
  by_cases last : failed = true ∨ e.repeats - 1 = 0
  · right
    rw [endMacro_ended inside last]
  · left
    obtain ⟨going, more⟩ := not_or.mp last
    rw [Bool.eq_false_iff.mpr going]
    exact ⟨e.repeats - 1, by rw [endMacro_again inside more]⟩

/-- What holds before `while(stack_idx >= 0) end_macro(true);` and is kept by each round. -/
theorem endAll_keeps {P : Macros φ η → Prop} {m : Macros φ η} (hp : P m)
    (kept : ∀ m : Macros φ η, m.stack ≠ [] → P m → P (m.endMacro true).2) :
    P m.endAll ∧ m.endAll.stack = [] := by
  induction hn : m.stack.length generalizing m with
  | zero =>
    have empty := List.length_eq_zero_iff.mp hn
    unfold Macros.endAll
    split
    next => exact ⟨hp, empty⟩
    next some =>
      rw [empty] at some
      cases some
  | succ n ih =>
    unfold Macros.endAll
    split
    next empty =>
      rw [empty] at hn
      cases hn
    next e rest some =>
      refine ih (kept m ?_ hp) ?_
      · rw [some]
        exact List.cons_ne_nil e rest
      · rw [endMacro_true_stack, List.length_tail]
        omega

theorem MacroInv.put [DecidableEq φ] {m : Macros φ η} (inv : MacroInv m)
    {outputs : List (MacroOutput φ η)} (harmless : ∀ o ∈ outputs, o.Harmless) :
    MacroInv (m.put outputs) where
  room := inv.room
  saved := inv.saved
  files := by
    rw [put_outputs, List.foldlM_append, inv.files]
    exact foldlM_harmless harmless _

theorem ownFiles_cons (e : MacroEntry φ) (rest : List (MacroEntry φ)) :
    ownFiles (e :: rest) = if e.posReturn = 0 then e.file :: ownFiles rest else ownFiles rest := by
  by_cases own : e.posReturn = 0
  · simp [ownFiles, own]
  · simp [ownFiles, own]

theorem closing_files [DecidableEq φ] (e : MacroEntry φ) (rest : List (MacroEntry φ)) :
    (e.closing (η := η)).foldlM openAfter (ownFiles (e :: rest)) = some (ownFiles rest) := by
  have calls : ∀ o ∈ (MacroOutput.unwindStack e.file ::
      if e.parameterStack then [.callPop] else [] : List (MacroOutput φ η)), o.Harmless := by
    intro o ho files
    rcases List.mem_cons.mp ho with rfl | ho
    · rfl
    · split at ho
      next =>
        rw [List.mem_singleton.mp ho]
        rfl
      next => cases ho
  have closed : openAfter (ownFiles (e :: rest))
      (if e.posReturn ≠ 0 then .seek e.file e.posReturn
        else .redirectClose e.file : MacroOutput φ η) = some (ownFiles rest) := by
    rw [ownFiles_cons]
    by_cases own : e.posReturn = 0
    · rw [if_neg (not_not_intro own), if_pos own]
      exact if_pos rfl
    · rw [if_pos own, if_neg own]
      rfl
  unfold MacroEntry.closing
  rw [List.foldlM_cons, closed]
  exact foldlM_harmless calls _

theorem unhook_outputs (m : Macros φ η) : m.unhook.outputs = m.outputs := by
  unfold Macros.unhook
  split
  next => rfl
  next => rfl

theorem unhook_saved {m : Macros φ η} (empty : m.stack = []) : m.unhook.saved = none := by
  have : m.stack.isEmpty = true := List.isEmpty_iff.mpr empty
  rw [Macros.unhook, if_pos this]

theorem MacroInv.endMacro [DecidableEq φ] {m : Macros φ η} (inv : MacroInv m)
    (inside : m.stack ≠ []) (failed : Bool) : MacroInv (m.endMacro failed).2 := by
  obtain ⟨e, rest, some⟩ := List.exists_cons_of_ne_nil inside
  have room := inv.room
  have files := inv.files
  rw [some] at room files
  rw [List.length_cons] at room
  rcases endMacro_inside some failed with ⟨left, h⟩ | h
  · rw [h]
    refine MacroInv.put ⟨?_, fun empty => absurd empty (List.cons_ne_nil _ _), ?_⟩ fun o ho => ?_
    · exact room
    · have same := ownFiles_cons { e with repeats := left } rest
      rw [files, ownFiles_cons]
      exact congrArg Option.some same.symm
    · rw [List.mem_singleton.mp ho]
      exact fun _ => rfl
  · rw [h]
    refine ⟨?_, fun empty => unhook_saved ((unhook_stack _).symm.trans empty), ?_⟩
    · have : rest.length ≤ macroStackDepth := by omega
      rwa [unhook_stack, put_stack]
    · rw [unhook_outputs, unhook_stack, put_outputs, List.foldlM_append, files]
      exact closing_files e rest

theorem MacroInv.enter [DecidableEq φ] {m : Macros φ η} {e : MacroEntry φ}
    (room : m.stack.length < macroStackDepth)
    (files : m.outputs.foldlM openAfter [] = some (ownFiles (e :: m.stack))) :
    MacroInv (m.enter e) := by
  unfold Macros.enter
  split
  next empty =>
    rw [List.isEmpty_iff.mp empty] at files
    exact ⟨Nat.succ_le_succ (Nat.zero_le _), fun h => absurd h (List.cons_ne_nil _ _), files⟩
  next => exact ⟨room, fun h => absurd h (List.cons_ne_nil _ _), files⟩

theorem MacroInv.change [DecidableEq φ] {read : Prop} {m m' : Macros φ η} (inv : MacroInv m)
    (isRead : read) (h : m.Change read m') : MacroInv m' := by
  cases h with
  | calls outputs harmless => exact inv.put harmless
  | assigns handler => exact ⟨inv.room, inv.saved, inv.files⟩
  | opens filename e after room own harmless =>
    have entered := MacroInv.enter (m := m.put [.redirectRead filename e.file]) (e := e) room
    refine (entered ?_).put harmless
    rw [put_outputs, List.foldlM_append, inv.files, put_stack, ownFiles_cons, if_pos own]
    rfl
  | shares e after room shared harmless =>
    refine MacroInv.put (MacroInv.enter room ?_) harmless
    rw [inv.files, ownFiles_cons, if_neg (shared isRead)]
  | ends failed before after inside early late =>
    exact ((inv.put early).endMacro inside failed).put late
  | endsAll after harmless =>
    exact (endAll_keeps inv fun m inside inv => inv.endMacro inside true).1.put harmless

theorem macroStart_returns {m : Macros φ η} (filename : List UInt8) (macroId : Nat)
    (repeats : UInt32) (pstack : Bool) (a : FileAnswers φ) :
    ∃ r, m.macroStart filename macroId repeats pstack a = .ok r := by
  unfold Macros.macroStart
  split
  next => exact ⟨_, rfl⟩
  next room =>
    split
    next => exact ⟨_, rfl⟩
    next =>
      split
      next => exact ⟨_, rfl⟩
      next file _ =>
        have : (m.put [.redirectRead filename file]).stack.length < macroStackDepth :=
          Nat.lt_of_not_le room
        rw [Macros.stackPush, if_pos this]
        exact ⟨_, rfl⟩

theorem macroExecute_returns {m : Macros φ η} (macroId : Nat) (dollar : Bool) (repeats : UInt32)
    (sub : Option (SubCall φ)) (a : FileAnswers φ) :
    ∃ r, m.macroExecute macroId dollar repeats sub a = .ok r := by
  unfold Macros.macroExecute
  split
  next => exact ⟨_, rfl⟩
  next =>
    split
    next call _ =>
      split
      next => exact ⟨_, rfl⟩
      next room =>
        rw [Macros.stackPush, if_pos (Nat.lt_of_not_le room)]
        exact ⟨_, rfl⟩
    next => exact macroStart_returns _ _ _ _ _

/-- No call writes outside of the stack, and none calls itself for ever. -/
theorem Macros.step_returns [DecidableEq φ] {m : Macros φ η}
    (saved : m.stack = [] → m.saved = none) (ev : MacroEvent φ η) :
    ∃ m', m.step ev = .ok m' := by
  cases ev with
  | execute macroId dollar repeats sub a =>
    obtain ⟨r, h⟩ := macroExecute_returns (m := m) macroId dollar repeats sub a
    exact ⟨returning r, by rw [Macros.step, h]; rfl⟩
  | toolChange executeM6T0 currentTool nextTool a =>
    rw [Macros.step, Macros.macroToolChange]
    split
    next => exact ⟨_, rfl⟩
    next =>
      split
      next => exact ⟨_, rfl⟩
      next =>
        obtain ⟨r, h⟩ := macroStart_returns (m := m) (m.tcPath ++ ascii "tc.macro") 99 1 false a
        rw [h]
        exact ⟨_, rfl⟩
  | toolSelect toolId a =>
    rw [Macros.step, Macros.macroToolSelect]
    split
    next =>
      obtain ⟨r, h⟩ := macroStart_returns (m := m) (m.tcPath ++ ascii "ts.macro") 98 1 false a
      rw [h]
      exact ⟨_, rfl⟩
    next => exact ⟨_, rfl⟩
  | palletShuttle a =>
    obtain ⟨r, h⟩ := macroStart_returns (m := m) (m.tcPath ++ ascii "ps.macro") 97 1 false a
    rw [Macros.step, Macros.macroPalletShuttle, h]
    exact ⟨_, rfl⟩
  | eof file ok => exact ⟨_, rfl⟩
  | error code => exact ⟨_, rfl⟩
  | macroReturn =>
    rw [Macros.step, Macros.callMacroReturn]
    split
    next => exact ⟨_, rfl⟩
    next =>
      rw [Macros.macroExit]
      split
      next empty =>
        rw [saved (List.isEmpty_iff.mp empty)]
        exact ⟨_, rfl⟩
      next => exact ⟨_, rfl⟩
    next => exact ⟨_, rfl⟩
  | assign handler => exact ⟨_, rfl⟩
  | reset => exact ⟨_, rfl⟩

theorem Macros.run_inv [DecidableEq φ] {m : Macros φ η} {events : List (MacroEvent φ η)}
    (inv : MacroInv m) (read : ∀ ev ∈ events, ev.CallRead) :
    ∃ m', run Macros.step m events = .ok m' ∧ EachState Macros.step MacroInv m events := by
  induction events generalizing m with
  | nil => exact ⟨m, rfl, inv⟩
  | cons ev events ih =>
    obtain ⟨next, h⟩ := m.step_returns inv.saved ev
    have kept := inv.change (read ev List.mem_cons_self) (Macros.step_change h)
    obtain ⟨m', ran, states⟩ := ih kept fun ev he => read ev (List.mem_cons_of_mem _ he)
    refine ⟨m', (run_cons h events).trans ran, inv, fun s' hs => ?_⟩
    cases h.symm.trans hs
    exact states

theorem Macros.AtStart.inv [DecidableEq φ] {m : Macros φ η} (start : m.AtStart) : MacroInv m where
  room := by
    rw [start.stack]
    exact Nat.zero_le _
  saved _ := start.saved
  files := by
    rw [start.stack, start.outputs]
    rfl

/-- In every run the macros keep to their stack, and the files that they open are closed once each,
innermost first, the last of them by a reset. -/
theorem macro_run_balanced [DecidableEq φ] {m : Macros φ η} (start : m.AtStart)
    (events : List (MacroEvent φ η)) (read : ∀ ev ∈ events, ev.CallRead) :
    ∃ m', run Macros.step m events = .ok m' ∧ EachState Macros.step MacroInv m events ∧
      m'.pluginReset.stack = [] ∧ m'.pluginReset.outputs.foldlM openAfter [] = some [] := by
  obtain ⟨m', ran, states⟩ := Macros.run_inv start.inv read
  obtain ⟨inv, empty⟩ := endAll_keeps (states.last ran) fun m inside inv => inv.endMacro inside true
  have files := inv.files
  rw [empty] at files
  refine ⟨m', ran, states, empty, ?_⟩
  rw [Macros.pluginReset, put_outputs, List.foldlM_append, files]
  rfl

/-- `grbl.on_macro_return` as another plugin has set it; files are numbers. -/
def hookedMacros : Macros Nat Unit where
  stack := []
  onMacroReturn := some (.plugin ())
  saved := none
  tcPath := []
  attached := false
  outputs := []

theorem macro_run_balanced_nested :
    ∃ m', run Macros.step hookedMacros
        [.execute 100 false 2 none ⟨false, true, some 7⟩,
          .execute 101 true 1 (some ⟨7, 40, 15⟩) ⟨false, true, none⟩, .error 20, .eof 7 true] =
          .ok m' ∧
      EachState Macros.step MacroInv hookedMacros
        [.execute 100 false 2 none ⟨false, true, some 7⟩,
          .execute 101 true 1 (some ⟨7, 40, 15⟩) ⟨false, true, none⟩, .error 20, .eof 7 true] ∧
      m'.pluginReset.stack = [] ∧ m'.pluginReset.outputs.foldlM openAfter [] = some [] :=
  macro_run_balanced ⟨rfl, rfl, rfl⟩ _ (by simp [MacroEvent.CallRead])

/-- `h` comes back with the end of the outermost macro. -/
def Macros.Restores (h : Option (ReturnHandler η)) (m : Macros φ η) : Prop :=
  (m.stack ≠ [] → m.saved = h) ∧ (m.stack = [] → m.onMacroReturn = h ∧ m.saved = none)

theorem Macros.Restores.endMacro {h : Option (ReturnHandler η)} {m : Macros φ η}
    (restores : m.Restores h) (inside : m.stack ≠ []) (failed : Bool) :
    (m.endMacro failed).2.Restores h := by
  obtain ⟨e, rest, some⟩ := List.exists_cons_of_ne_nil inside
  have saved := restores.1 inside
  rcases endMacro_inside some failed with ⟨left, h⟩ | h
  · rw [h]
    exact ⟨fun _ => saved, fun empty => absurd empty (List.cons_ne_nil _ _)⟩
  · rw [h]
    unfold Macros.unhook
    split
    next empty =>
      have none : rest = [] := List.isEmpty_iff.mp empty
      exact ⟨fun inside => absurd none inside, fun _ => ⟨saved, rfl⟩⟩
    next inside =>
      exact ⟨fun _ => saved, fun empty => absurd (List.isEmpty_iff.mpr empty) inside⟩

theorem Macros.Restores.change [DecidableEq φ] {read : Prop} {h : Option (ReturnHandler η)}
    {m m' : Macros φ η} (restores : m.Restores h) (inside : m.stack ≠ [])
    (changed : m.Change read m') : m'.Restores h := by
  have enters (m : Macros φ η) (e : MacroEntry φ) (restores : m.Restores h)
      (inside : m.stack ≠ []) : (m.enter e).Restores h := by
    rw [Macros.enter, if_neg (by simpa using inside)]
    exact ⟨fun _ => restores.1 inside, fun empty => absurd empty (List.cons_ne_nil _ _)⟩
  cases changed with
  | calls outputs harmless => exact restores
  | assigns handler => exact ⟨restores.1, fun empty => absurd empty inside⟩
  | opens filename e after room own harmless =>
    exact enters (m.put [.redirectRead filename e.file]) e restores inside
  | shares e after room shared harmless => exact enters m e restores inside
  | ends failed before after inside early late =>
    exact Macros.Restores.endMacro (m := m.put before) restores inside failed
  | endsAll after harmless =>
    exact (endAll_keeps restores fun m inside restores => restores.endMacro inside true).1

/-- The outermost macro remembers the handler. -/
theorem Macros.Change.starts [DecidableEq φ] {read : Prop} {m m' : Macros φ η}
    (outside : m.stack = []) (inside : m'.stack ≠ []) (changed : m.Change read m') :
    m'.Restores m.onMacroReturn := by
  have enters (m : Macros φ η) (e : MacroEntry φ) (outside : m.stack = []) :
      (m.enter e).Restores m.onMacroReturn := by
    rw [Macros.enter, if_pos (List.isEmpty_iff.mpr outside)]
    exact ⟨fun _ => rfl, fun empty => absurd empty (List.cons_ne_nil _ _)⟩
  cases changed with
  | calls outputs harmless => exact absurd outside inside
  | assigns handler => exact absurd outside inside
  | opens filename e after room own harmless =>
    exact enters (m.put [.redirectRead filename e.file]) e outside
  | shares e after room shared harmless => exact enters m e outside
  | ends failed before after inside' early late => exact absurd outside inside'
  | endsAll after harmless =>
    exact absurd (endAll_keeps (P := fun _ => True) trivial fun _ _ _ => trivial).2 inside

theorem Macros.Restores.run [DecidableEq φ] {h : Option (ReturnHandler η)} {m last : Macros φ η}
    {events : List (MacroEvent φ η)} (restores : m.Restores h)
    (inside : EachState Macros.step (fun m => m.stack ≠ []) m events)
    (ran : CallRun.run Macros.step m events = .ok last) : last.Restores h := by
  induction events generalizing m with
  | nil =>
    cases ran
    exact restores
  | cons ev events ih =>
    cases step : m.step ev with
    | error e =>
      rw [CallRun.run, List.foldlM_cons, step] at ran
      cases ran
    | ok next =>
      rw [run_cons step] at ran
      exact ih (restores.change inside.1 (Macros.step_change step)) (inside.2 next step) ran

/-- Whatever happens in a macro, and however it ends, `grbl.on_macro_return` is then as it was before
the macro. -/
theorem macro_handler_restored [DecidableEq φ] {m started last ended : Macros φ η}
    {first final : MacroEvent φ η} {events : List (MacroEvent φ η)} (outside : m.stack = [])
    (start : m.step first = .ok started) (ran : run Macros.step started events = .ok last)
    (inside : EachState Macros.step (fun m => m.stack ≠ []) started events)
    (ending : last.step final = .ok ended) (empty : ended.stack = []) :
    ended.onMacroReturn = m.onMacroReturn ∧ ended.saved = none := by
  have remembered := (Macros.step_change start).starts outside inside.first
  have kept := remembered.run inside ran
  exact (kept.change (inside.last ran) (Macros.step_change ending)).2 empty

theorem macro_handler_restored_error :
    ∃ ended : Macros Nat Unit, ended.stack = [] ∧
      ended.onMacroReturn = hookedMacros.onMacroReturn ∧ ended.saved = none := by
  have restored := @macro_handler_restored _ _ _ hookedMacros _ _ _
    (.execute 100 false 1 none ⟨false, true, some 7⟩) (.error 20) [.assign none] rfl rfl rfl
    ⟨List.cons_ne_nil _ _, fun s' hs => by cases hs; exact List.cons_ne_nil _ _⟩ rfl rfl
  exact ⟨_, rfl, restored⟩

end GrblhalSim
