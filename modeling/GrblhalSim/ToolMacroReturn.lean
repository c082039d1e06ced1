import GrblhalSim.CallRun
import GrblhalSim.ToolMacroTable

namespace GrblhalSim

open CallRun

variable {core : GrblCore}

def MacroCall.run (core : GrblCore) (s : MacroState) : MacroCall → Option MacroState
  | .setTool data _ => (GrblhalSim.setTool core .succeed data s).map Prod.snd
  | .toolChanged toolId _ => onToolChanged core .succeed toolId s

def macroStep (core : GrblCore) (s : MacroState) (call : MacroCall) : Except Unit MacroState :=
  orFault (call.run core s)

/-- No call of the same kind waits. -/
def NothingWaits (s : MacroState) : MacroCall → Prop
  | .setTool _ _ => s.hooks.pendingSetTool = none
  | .toolChanged _ _ => s.hooks.pendingRegisterTool = 0

/-- `data` is of the last `setTool` for its tool. -/
def LastSet (calls : List MacroCall) (data : ToolData) : Prop :=
  ∃ before after positive, calls = before ++ .setTool data positive :: after ∧
    ∀ later positive', .setTool later positive' ∈ after → later.toolId ≠ data.toolId

/-- Every call has taken effect, and the handler from before the macro has been called once, if it is
set, and is in place again. -/
structure NothingLost (core : GrblCore) (calls : List MacroCall) (start s : MacroState) : Prop where
  stored : ∀ data, LastSet calls data → ToolStored core data s.fs
  registered : ∀ toolId positive, .toolChanged toolId positive ∈ calls →
    (findTool core toolId s.fs).isSome
  returned : s.returned =
    if start.hooks.onMacroReturn = none then start.returned else start.returned + 1
  restored : s.hooks.onMacroReturn = start.hooks.onMacroReturn

def MacroKeepsAll (core : GrblCore) (start : MacroState) (calls : List MacroCall) : Prop :=
  ∃ last s, run (macroStep core) start calls = .ok last ∧
    macroReturn core .succeed handlerDepth last = some s ∧ NothingLost core calls start s

/-- The handlers from the current one on serve these calls, one after the other, and lead to `h`. -/
inductive Unwinds (h : Option MacroHandler) : MacroHooks → List MacroCall → Prop
  | done {k : MacroHooks} (handler : k.onMacroReturn = h) (setTool : k.pendingSetTool = none)
      (registerTool : k.pendingRegisterTool = 0) (setReturn : k.onSetReturn = none)
      (changedReturn : k.onChangedReturn = none) : Unwinds h k []
  | setTool {k : MacroHooks} {data : ToolData} {positive : 0 < data.toolId}
      {calls : List MacroCall} (handler : k.onMacroReturn = some .deferredSetTool)
      (waits : k.pendingSetTool = some data) (rest : Unwinds h k.endSetTool calls) :
      Unwinds h k (.setTool data positive :: calls)
  | toolChanged {k : MacroHooks} {positive : 0 < k.pendingRegisterTool} {calls : List MacroCall}
      (handler : k.onMacroReturn = some .deferredRegisterTool)
      (rest : Unwinds h k.endRegisterTool calls) :
      Unwinds h k (.toolChanged k.pendingRegisterTool positive :: calls)

theorem endRegisterTool_pending {k : MacroHooks} (positive : 0 < k.pendingRegisterTool) :
    k.endRegisterTool.pendingRegisterTool = 0 :=
  if_pos positive

theorem Unwinds.setReturn_none {h : Option MacroHandler} {k : MacroHooks} {calls : List MacroCall}
    (links : Unwinds h k calls) (none : k.pendingSetTool = none) : k.onSetReturn = .none := by
  induction links with
  | done _ _ _ setReturn _ => exact setReturn
  | setTool _ waits _ _ =>
    rw [waits] at none
    cases none
  | toolChanged _ _ ih => exact ih none

theorem Unwinds.changedReturn_none {h : Option MacroHandler} {k : MacroHooks}
    {calls : List MacroCall} (links : Unwinds h k calls) (none : k.pendingRegisterTool = 0) :
    k.onChangedReturn = .none := by
  induction links with
  | done _ _ _ _ changedReturn => exact changedReturn
  | setTool _ _ _ ih => exact ih none
  | @toolChanged k positive =>
    rw [none] at positive
    exact absurd positive (by decide)

theorem Unwinds.rank {h : Option MacroHandler} {k : MacroHooks} {calls : List MacroCall}
    (links : Unwinds h k calls) : calls.length < k.rank := by
  induction links with
  | done =>
    rw [MacroHooks.rank]
    split
    next => exact Nat.one_pos
    next => exact Nat.lt_of_lt_of_le Nat.two_pos (by omega)
  | setTool handler _ _ ih =>
    have := MacroHooks.rank_endSetTool (handler ▸ Option.some_ne_none _)
    rw [List.length_cons]
    omega
  | toolChanged handler _ ih =>
    have := MacroHooks.rank_endRegisterTool (handler ▸ Option.some_ne_none _)
    rw [List.length_cons]
    omega

def MacroCall.defer (s : MacroState) : MacroCall → MacroState
  | .setTool data _ => { s with hooks := s.hooks.deferSetTool data }
  | .toolChanged toolId _ =>
    { s with
      hooks := s.hooks.deferRegisterTool toolId
      currentTool := toolId
      toolChanged := s.toolChanged.map (· ++ [toolId]) }

theorem macroStep_streaming {s : MacroState} (streaming : s.streaming = true)
    (table : s.fs.isSome) (call : MacroCall) : macroStep core s call = .ok (call.defer s) := by
  cases call with
  | setTool data positive =>
    rw [macroStep, MacroCall.run, setTool, if_neg (Int32.not_le.mpr positive), if_pos streaming]
    rfl
  | toolChanged toolId positive =>
    have accepted : (s.fs.isSome && decide (0 < toolId)) = true := by
      rw [table, decide_eq_true positive]
      rfl
    rw [macroStep, MacroCall.run, onToolChanged, if_pos accepted, if_pos streaming]
    rfl

theorem Unwinds.defer {h : Option MacroHandler} {s : MacroState} {calls : List MacroCall}
    (links : Unwinds h s.hooks calls) {call : MacroCall} (free : NothingWaits s call) :
    Unwinds h (call.defer s).hooks (call :: calls) := by
  cases call with
  | setTool data positive =>
    have back : (s.hooks.deferSetTool data).endSetTool = s.hooks := by
      have saved := links.setReturn_none free
      have none : s.hooks.pendingSetTool = none := free
      rw [MacroHooks.deferSetTool, MacroHooks.endSetTool]
      cases hooks : s.hooks
      simp only [hooks] at saved none
      rw [saved, none]
    exact .setTool rfl rfl (back ▸ links)
  | toolChanged toolId positive =>
    have back : (s.hooks.deferRegisterTool toolId).endRegisterTool = s.hooks := by
      have saved := links.changedReturn_none free
      have none : s.hooks.pendingRegisterTool = 0 := free
      rw [MacroHooks.deferRegisterTool, MacroHooks.endRegisterTool, if_pos positive]
      cases hooks : s.hooks
      simp only [hooks] at saved none
      rw [saved, none]
    exact .toolChanged (k := s.hooks.deferRegisterTool toolId) rfl (back ▸ links)

theorem defer_fs (s : MacroState) (call : MacroCall) :
    (call.defer s).fs = s.fs ∧ (call.defer s).streaming = s.streaming ∧
      (call.defer s).returned = s.returned := by
  cases call with
  | setTool data positive => exact ⟨rfl, rfl, rfl⟩
  | toolChanged toolId positive => exact ⟨rfl, rfl, rfl⟩

/-- A macro in which nothing of a call's kind ever waits leaves the calls linked, last call first. -/
theorem run_unwinds {h : Option MacroHandler} {calls waiting : List MacroCall} {s : MacroState}
    (streaming : s.streaming = true) (table : s.fs.isSome) (links : Unwinds h s.hooks waiting)
    (free : EachCall (macroStep core) NothingWaits s calls) :
    ∃ last, run (macroStep core) s calls = .ok last ∧
      Unwinds h last.hooks (calls.reverse ++ waiting) ∧ last.fs = s.fs ∧
        last.returned = s.returned := by
  induction calls generalizing s waiting with
  | nil => exact ⟨s, rfl, links, rfl, rfl⟩
  | cons call calls ih =>
    have step : macroStep core s call = _ := macroStep_streaming streaming table call
    obtain ⟨fs, streaming', returned⟩ := defer_fs s call
    obtain ⟨last, ran, links', fs', returned'⟩ := ih (streaming'.trans streaming) (fs ▸ table)
      (links.defer free.1) (free.2 _ step)
    refine ⟨last, (run_cons step calls).trans ran, ?_, fs'.trans fs, returned'.trans returned⟩
    rw [List.reverse_cons, List.append_assoc]
    exact links'

structure Served (core : GrblCore) (h : Option MacroHandler) (waiting : List MacroCall)
    (s s' : MacroState) : Prop where
  effect : ∀ call ∈ waiting, call.TakenEffect core s'.fs
  handler : s'.hooks.onMacroReturn = h
  returned : s'.returned = if h = none then s.returned else s.returned + 1
  tools : ∀ toolId, (findTool core toolId s.fs).isSome → (findTool core toolId s'.fs).isSome
  data : s.hooks.pendingSetTool = none →
    ∀ data, ToolStored core data s.fs → ToolStored core data s'.fs

theorem Served.setTool {h : Option MacroHandler} {calls : List MacroCall} {s next s' : MacroState}
    (rest : Served core h calls next s') {data : ToolData} {positive : 0 < data.toolId}
    (waits : s.hooks.pendingSetTool = some data) (free : next.hooks.pendingSetTool = none)
    (returned : next.returned = s.returned) (mine : ToolStored core data next.fs)
    (tools : ∀ toolId, (findTool core toolId s.fs).isSome →
      (findTool core toolId next.fs).isSome) :
    Served core h (.setTool data positive :: calls) s s' where
  effect call hc := by
    rcases List.mem_cons.mp hc with rfl | hc
    · exact rest.data free data mine
    · exact rest.effect call hc
  handler := rest.handler
  returned := by
    rw [rest.returned, returned]
  tools toolId some := rest.tools toolId (tools toolId some)
  data none := by
    rw [waits] at none
    cases none

theorem Served.toolChanged {h : Option MacroHandler} {calls : List MacroCall}
    {s next s' : MacroState} (rest : Served core h calls next s') {toolId : Int32}
    {positive : 0 < toolId} (kept : next.hooks.pendingSetTool = s.hooks.pendingSetTool)
    (returned : next.returned = s.returned) (mine : (findTool core toolId next.fs).isSome)
    (data : ∀ data, ToolStored core data s.fs → ToolStored core data next.fs)
    (tools : ∀ toolId, (findTool core toolId s.fs).isSome →
      (findTool core toolId next.fs).isSome) :
    Served core h (.toolChanged toolId positive :: calls) s s' where
  effect call hc := by
    rcases List.mem_cons.mp hc with rfl | hc
    · exact rest.tools toolId mine
    · exact rest.effect call hc
  handler := rest.handler
  returned := by
    rw [rest.returned, returned]
  tools toolId some := rest.tools toolId (tools toolId some)
  data none stored held := rest.data (kept.trans none) stored (data stored held)

/-- The end of the macro serves the calls that are linked, and comes to the handler of before. -/
theorem macroReturn_unwinds {h : Option MacroHandler} (outside : h = none ∨ h = some .other)
    {all waiting : List MacroCall} {k : MacroHooks} (links : Unwinds h k waiting)
    (called : ∀ call ∈ waiting, call ∈ all) {n : Nat} (enough : waiting.length < n)
    {s : MacroState} (hooks : s.hooks = k) (ready : TableReady core all s.fs) :
    ∃ s', macroReturn core .succeed n s = some s' ∧ Served core h waiting s s' := by
  induction links generalizing n s with
  | done handler =>
    obtain ⟨n, rfl⟩ := Nat.exists_eq_succ_of_ne_zero (Nat.ne_zero_of_lt enough)
    rw [← hooks] at handler
    rw [macroReturn, handler]
    rcases outside with rfl | rfl
    · exact ⟨s, rfl, by simp, handler, rfl, fun _ some => some, fun _ _ stored => stored⟩
    · exact ⟨_, rfl, by simp, handler, rfl, fun _ some => some, fun _ _ stored => stored⟩
  | @setTool k data positive calls handler waits rest ih =>
    obtain ⟨n, rfl⟩ := Nat.exists_eq_succ_of_ne_zero (Nat.ne_zero_of_lt enough)
    subst hooks
    obtain ⟨done, fs', stored, ready', mine, tools⟩ :=
      storePending_ready (called _ List.mem_cons_self) ready
    have step : deferredSetTool core .succeed s =
        some { s with hooks := s.hooks.endSetTool, fs := fs' } := by
      rw [deferredSetTool_pending waits, stored]
      rfl
    obtain ⟨s', ran, served⟩ := ih (fun call hc => called call (List.mem_cons_of_mem _ hc))
      (Nat.lt_of_succ_lt_succ enough)
      (s := { s with hooks := s.hooks.endSetTool, fs := fs' }) rfl ready'
    refine ⟨s', ?_, served.setTool waits rfl rfl mine tools⟩
    rw [macroReturn, handler]
    exact (congrArg (Option.bind · _) step).trans ran
  | @toolChanged k positive calls handler rest ih =>
    obtain ⟨n, rfl⟩ := Nat.exists_eq_succ_of_ne_zero (Nat.ne_zero_of_lt enough)
    subst hooks
    obtain ⟨r, registered, ready', mine, data, tools⟩ :=
      register_ready (called _ List.mem_cons_self) ready
    have step : deferredRegisterTool core .succeed s =
        some { s with hooks := s.hooks.endRegisterTool, fs := r.fs } := by
      rw [deferredRegisterTool_pending positive, registered]
      rfl
    obtain ⟨s', ran, served⟩ := ih (fun call hc => called call (List.mem_cons_of_mem _ hc))
      (Nat.lt_of_succ_lt_succ enough)
      (s := { s with hooks := s.hooks.endRegisterTool, fs := r.fs }) rfl ready'
    refine ⟨s', ?_, served.toolChanged rfl rfl mine data tools⟩
    rw [macroReturn, handler]
    exact (congrArg (Option.bind · _) step).trans ran

/-- The saved pointers lead from the current handler through `stays` only, and never to the handler
of before. -/
def HandlerLost (k : MacroHooks) : Prop :=
  ∃ stays : Option MacroHandler → Prop, stays k.onMacroReturn ∧ stays none ∧
    ¬ stays (some .other) ∧ (stays (some .deferredSetTool) → stays k.onSetReturn) ∧
      (stays (some .deferredRegisterTool) → stays k.onChangedReturn)

theorem HandlerLost.defer {s : MacroState} (lost : HandlerLost s.hooks) (call : MacroCall) :
    HandlerLost (call.defer s).hooks := by
  obtain ⟨stays, current, last, outside, set, changed⟩ := lost
  cases call with
  | setTool data positive =>
    refine ⟨fun h => h = some .deferredSetTool ∨ stays h, Or.inl rfl, Or.inr last, ?_,
      fun _ => Or.inr current, ?_⟩
    · exact not_or.mpr ⟨by decide, outside⟩
    · exact fun h => Or.inr (changed (h.resolve_left (by decide)))
  | toolChanged toolId positive =>
    refine ⟨fun h => h = some .deferredRegisterTool ∨ stays h, Or.inl rfl, Or.inr last, ?_, ?_,
      fun _ => Or.inr current⟩
    · exact not_or.mpr ⟨by decide, outside⟩
    · exact fun h => Or.inr (set (h.resolve_left (by decide)))

theorem Unwinds.set_waits {h : Option MacroHandler} {k : MacroHooks} {waiting : List MacroCall}
    (links : Unwinds h k waiting) (waits : k.pendingSetTool ≠ none) :
    k.onMacroReturn = some .deferredSetTool ∨
      k.onMacroReturn = some .deferredRegisterTool ∧
        k.onChangedReturn = some .deferredSetTool := by
  cases links with
  | done _ none => exact absurd none waits
  | setTool handler => exact Or.inl handler
  | @toolChanged _ positive calls handler rest =>
    refine Or.inr ⟨handler, ?_⟩
    have alone := endRegisterTool_pending positive
    cases rest with
    | done _ none => exact absurd none waits
    | setTool next => exact next
    | @toolChanged _ positive' =>
      rw [alone] at positive'
      exact absurd positive' (by decide)

theorem Unwinds.register_waits {h : Option MacroHandler} {k : MacroHooks}
    {waiting : List MacroCall} (links : Unwinds h k waiting) (waits : k.pendingRegisterTool ≠ 0) :
    k.onMacroReturn = some .deferredRegisterTool ∨
      k.onMacroReturn = some .deferredSetTool ∧
        k.onSetReturn = some .deferredRegisterTool := by
  cases links with
  | done _ _ none => exact absurd none waits
  | setTool handler _ rest =>
    refine Or.inr ⟨handler, ?_⟩
    cases rest with
    | done _ _ none => exact absurd none waits
    | setTool _ none => cases none
    | toolChanged next => exact next
  | toolChanged handler => exact Or.inl handler

theorem Unwinds.handlerLost {h : Option MacroHandler} {s : MacroState} {waiting : List MacroCall}
    (links : Unwinds h s.hooks waiting) {call : MacroCall} (waits : ¬ NothingWaits s call) :
    HandlerLost (call.defer s).hooks := by
  have set : some MacroHandler.deferredSetTool ≠ some .other := by decide
  have changed : some MacroHandler.deferredRegisterTool ≠ some .other := by decide
  cases call with
  | setTool data positive =>
    rcases links.set_waits waits with first | ⟨first, second⟩
    · refine ⟨fun h => h = some .deferredSetTool ∨ h = none, Or.inl rfl, Or.inr rfl, by decide,
        fun _ => Or.inl first, fun h => ?_⟩
      exact absurd h (by decide)
    · exact ⟨fun h => h ≠ some .other, set, by decide, by decide,
        fun _ => first.trans_ne changed, fun _ => second.trans_ne set⟩
  | toolChanged toolId positive =>
    rcases links.register_waits waits with first | ⟨first, second⟩
    · refine ⟨fun h => h = some .deferredRegisterTool ∨ h = none, Or.inl rfl, Or.inr rfl, by decide,
        fun h => ?_, fun _ => Or.inl first⟩
      exact absurd h (by decide)
    · exact ⟨fun h => h ≠ some .other, changed, by decide, by decide,
        fun _ => second.trans_ne changed, fun _ => first.trans_ne set⟩

theorem run_handlerLost {calls : List MacroCall} {s last : MacroState}
    (streaming : s.streaming = true) (table : s.fs.isSome) (lost : HandlerLost s.hooks)
    (ran : run (macroStep core) s calls = .ok last) :
    HandlerLost last.hooks ∧ last.returned = s.returned := by
  induction calls generalizing s with
  | nil =>
    cases ran
    exact ⟨lost, rfl⟩
  | cons call calls ih =>
    have step : macroStep core s call = _ := macroStep_streaming streaming table call
    obtain ⟨fs, streaming', returned⟩ := defer_fs s call
    rw [run_cons step] at ran
    obtain ⟨lost', returned'⟩ :=
      ih (streaming'.trans streaming) (fs ▸ table) (lost.defer call) ran
    exact ⟨lost', returned'.trans returned⟩

theorem macroReturn_handlerLost {o : Outcomes} {n : Nat} {s s' : MacroState}
    (lost : HandlerLost s.hooks) (ran : macroReturn core o n s = some s') :
    s'.returned = s.returned := by
  induction n generalizing s with
  | zero => cases ran
  | succ n ih =>
    obtain ⟨stays, current, last, outside, set, changed⟩ := lost
    rw [macroReturn] at ran
    split at ran
    next =>
      cases Option.some.inj ran
      rfl
    next other => exact absurd (other ▸ current) outside
    next handler =>
      obtain ⟨next, step, ran⟩ := Option.bind_eq_some_iff.mp ran
      obtain ⟨hooks, returned⟩ := deferredSetTool_hooks step
      refine (ih ?_ ran).trans returned
      rw [hooks]
      exact ⟨stays, set (handler ▸ current), last, outside, fun _ => last, changed⟩
    next handler =>
      obtain ⟨next, step, ran⟩ := Option.bind_eq_some_iff.mp ran
      obtain ⟨hooks, returned⟩ := deferredRegisterTool_hooks step
      refine (ih ?_ ran).trans returned
      rw [hooks]
      exact ⟨stays, changed (handler ▸ current), last, outside, set, fun _ => last⟩

/-- Where the handler of before is called, no call was made with one of its kind waiting. -/
theorem eachCall_of_returned {h : Option MacroHandler} {calls waiting : List MacroCall}
    {s last s' : MacroState} (streaming : s.streaming = true) (table : s.fs.isSome)
    (links : Unwinds h s.hooks waiting) (ran : run (macroStep core) s calls = .ok last) {n : Nat}
    (ended : macroReturn core .succeed n last = some s') (returned : s'.returned ≠ s.returned) :
    EachCall (macroStep core) NothingWaits s calls := by
  induction calls generalizing s waiting with
  | nil => trivial
  | cons call calls ih =>
    have step : macroStep core s call = _ := macroStep_streaming streaming table call
    obtain ⟨fs, streaming', kept⟩ := defer_fs s call
    rw [run_cons step] at ran
    have free : NothingWaits s call := by
      by_contra waits
      obtain ⟨lost, same⟩ := run_handlerLost (streaming'.trans streaming) (fs ▸ table)
        (links.handlerLost waits) ran
      exact returned ((macroReturn_handlerLost lost ended).trans (same.trans kept))
    refine ⟨free, fun next stepped => ?_⟩
    cases Except.ok.inj (step.symm.trans stepped)
    exact ih (streaming'.trans streaming) (fs ▸ table) (links.defer free) ran (kept ▸ returned)

/-- A macro loses nothing if each of its calls finds nothing of its kind waiting, and, where a handler
is set before it, only then. -/
theorem macro_keeps_all_iff {start : MacroState} {file : List UInt8} {tmp : Option (List UInt8)}
    {calls : List MacroCall} (streaming : start.streaming = true) (idle : start.hooks.Idle)
    (table : start.fs = some ⟨some file, tmp⟩) (textOk : TextOk (entries core file) calls) :
    (EachCall (macroStep core) NothingWaits start calls → MacroKeepsAll core start calls) ∧
      (start.hooks.onMacroReturn ≠ none → MacroKeepsAll core start calls →
        EachCall (macroStep core) NothingWaits start calls) := by
  have mounted : start.fs.isSome := Option.isSome_of_eq_some table
  have links : Unwinds start.hooks.onMacroReturn start.hooks [] :=
    .done rfl idle.setTool idle.registerTool idle.setReturn idle.changedReturn
  constructor
  · intro free
    obtain ⟨last, ran, links', fs, returned⟩ := run_unwinds streaming mounted links free
    rw [List.append_nil] at links'
    have ready : TableReady core calls last.fs := ⟨file, tmp, fs.trans table, textOk⟩
    obtain ⟨s, ended, served⟩ := macroReturn_unwinds idle.handler links'
      (fun call hc => List.mem_reverse.mp hc) (links'.rank.trans_le last.hooks.rank_le) rfl ready
    refine ⟨last, s, ran, ended, ?_, fun toolId positive hc => ?_, ?_, served.handler⟩
    · rintro data ⟨before, after, positive, rfl, _⟩
      exact served.effect (.setTool data positive) (List.mem_reverse.mpr (by simp))
    · exact served.effect (.toolChanged toolId positive) (List.mem_reverse.mpr hc)
    · rw [served.returned, returned]
  · rintro handler ⟨last, s, ran, ended, kept⟩
    refine eachCall_of_returned streaming mounted links ran ended ?_
    rw [kept.returned, if_neg handler]
    exact Nat.succ_ne_self _

def measureAndChange : List MacroCall :=
  [.setTool ⟨7, fun _ => 1, 2⟩ (by decide), .toolChanged 3 (by decide)]

def startOfMacro : MacroState :=
  { toolMacroState "P2 T7\n" (some .other) with streaming := true }

theorem macro_keeps_all_iff_measure :
    EachCall (macroStep decimalCore) NothingWaits startOfMacro measureAndChange ∧
      MacroKeepsAll decimalCore startOfMacro measureAndChange := by
  have free : EachCall (macroStep decimalCore) NothingWaits startOfMacro measureAndChange := by
    refine ⟨rfl, fun s stepped => ⟨?_, fun _ _ => trivial⟩⟩
    cases Except.ok.inj stepped
    rfl
  have held : entries decimalCore (ascii "P2 T7\n") = [⟨2, ⟨7, fun _ => 0, 0⟩, .empty⟩] := by
    decide +kernel
  have data_of : ∀ {data positive}, .setTool data positive ∈ measureAndChange →
      data = ⟨7, fun _ => 1, 2⟩ := by
    intro data positive hc
    rcases List.mem_cons.mp hc with same | hc
    · cases same
      rfl
    · cases List.mem_singleton.mp hc
  refine ⟨free, (macro_keeps_all_iff rfl ⟨rfl, rfl, rfl, rfl, Or.inr rfl⟩ rfl ?_).1 free⟩
  rw [held]
  refine ⟨fun e he => ?_, fun call hc => ?_, fun data positive hc => ?_,
    fun data positive hc e he => ?_⟩
  · cases List.mem_singleton.mp he
    exact ⟨by decide, by decide, by decide +kernel, by decide⟩
  · rcases List.mem_cons.mp hc with rfl | hc
    · decide
    · cases List.mem_singleton.mp hc
      decide
  · rw [data_of hc]
    decide +kernel
  · cases List.mem_singleton.mp he
    rw [data_of hc]
    decide +kernel

/-- The second measured tool takes the place of the first, and the handler of before is lost. -/
theorem second_set_tool_loses :
    ¬ ∀ start file tmp calls, start.streaming = true → start.hooks.Idle →
      start.fs = some ⟨some file, tmp⟩ → MacroKeepsAll decimalCore start calls := by
  intro all
  obtain ⟨last, s, ran, ended, kept⟩ := all startOfMacro (ascii "P2 T7\n") none
    [.setTool ⟨7, fun _ => 1, 2⟩ (by decide), .setTool ⟨8, fun _ => 1, 2⟩ (by decide)]
    rfl ⟨rfl, rfl, rfl, rfl, Or.inr rfl⟩ rfl
  have hooks : last = { startOfMacro with hooks := ⟨some .deferredSetTool, some .deferredSetTool,
      none, some ⟨8, fun _ => 1, 2⟩, 0⟩ } := (Except.ok.inj ran).symm
  have uncalled : (macroReturn decimalCore .succeed handlerDepth { startOfMacro with
      hooks := ⟨some .deferredSetTool, some .deferredSetTool, none, some ⟨8, fun _ => 1, 2⟩, 0⟩
    }).map MacroState.returned = some 0 := by
    decide +kernel
  rw [hooks] at ended
  rw [ended] at uncalled
  exact absurd (kept.returned.symm.trans (Option.some.inj uncalled)) (by decide)

end GrblhalSim
