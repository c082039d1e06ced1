import GrblhalSim.ToolFile

namespace GrblhalSim

/-- What a pointer to a macro return handler points to; `other` is one that is not of the tool
table. -/
inductive MacroHandler
  | deferredSetTool
  | deferredRegisterTool
  | other
  deriving DecidableEq

/-- `grbl.on_macro_return`, the two pointers that it is saved in and the updates that wait; for
`pendingSetTool` the flag `pending_set_tool_valid` tells whether there is one. -/
structure MacroHooks where
  onMacroReturn : Option MacroHandler
  onSetReturn : Option MacroHandler
  onChangedReturn : Option MacroHandler
  pendingSetTool : Option ToolData
  pendingRegisterTool : Int32
  deriving DecidableEq

/-- `streaming` is `hal.stream.file != NULL`, `returned` how often the other handler has been called.
`toolChanged` has the tools that were handed to the `on_tool_changed` of before, unless it is not
set. -/
structure MacroState where
  fs : ToolFs
  streaming : Bool
  hooks : MacroHooks
  currentTool : Int32
  returned : Nat
  toolChanged : Option (List Int32)
  deriving DecidableEq

/-- No update waits, and the macro return handler is not of the tool table. -/
structure MacroHooks.Idle (h : MacroHooks) : Prop where
  setReturn : h.onSetReturn = none
  changedReturn : h.onChangedReturn = none
  setTool : h.pendingSetTool = none
  registerTool : h.pendingRegisterTool = 0
  handler : h.onMacroReturn = none ∨ h.onMacroReturn = some .other

variable (core : GrblCore) (o : Outcomes)

def MacroHooks.deferSetTool (data : ToolData) (h : MacroHooks) : MacroHooks :=
  { h with
    pendingSetTool := some data
    onSetReturn := h.onMacroReturn
    onMacroReturn := some .deferredSetTool }

def MacroHooks.deferRegisterTool (toolId : Int32) (h : MacroHooks) : MacroHooks :=
  { h with
    pendingRegisterTool := toolId
    onChangedReturn := h.onMacroReturn
    onMacroReturn := some .deferredRegisterTool }

def setTool (data : ToolData) (s : MacroState) : Option (Bool × MacroState) :=
  if data.toolId ≤ 0 then some (false, s)
  else if s.streaming then some (true, { s with hooks := s.hooks.deferSetTool data })
  else (setToolWrite core o data s.fs).map fun r => (r.1, { s with fs := r.2 })

def storePending (data : ToolData) (fs : ToolFs) : Option (Bool × ToolFs) :=
  if (fileFind core o data.toolId fs).isSome then setToolWrite core o data fs
  else appendTool core o ⟨0, data, .empty⟩ fs

/-- `deferred_set_tool` up to the handler that it calls last. -/
def deferredSetTool (s : MacroState) : Option MacroState :=
  let hooks := { s.hooks with onMacroReturn := s.hooks.onSetReturn, onSetReturn := none }
  match s.hooks.pendingSetTool with
  | none => some { s with hooks := hooks }
  | some data =>
    (storePending core o data s.fs).map fun r =>
      { s with hooks := { hooks with pendingSetTool := none }, fs := r.2 }

def deferredRegisterTool (s : MacroState) : Option MacroState :=
  let hooks := { s.hooks with onMacroReturn := s.hooks.onChangedReturn, onChangedReturn := none }
  if 0 < s.hooks.pendingRegisterTool then
    (tooltableRegisterTool core o s.hooks.pendingRegisterTool none s.fs).map fun r =>
      { s with hooks := { hooks with pendingRegisterTool := 0 }, fs := r.fs }
  else some { s with hooks := hooks }

/-- The call of `grbl.on_macro_return`, if it is set, and the calls that follow within it. -/
def macroReturn : Nat → MacroState → Option MacroState
  | 0, _ => none
  | fuel + 1, s =>
    match s.hooks.onMacroReturn with
    | none => some s
    | some .other => some { s with returned := s.returned + 1 }
    | some .deferredSetTool => (deferredSetTool core o s).bind (macroReturn fuel)
    | some .deferredRegisterTool => (deferredRegisterTool core o s).bind (macroReturn fuel)

/-- Two saved pointers do not lead through more handlers. -/
def handlerDepth : Nat := 4

def onToolChanged (toolId : Int32) (s : MacroState) : Option MacroState :=
  let registered :=
    if s.fs.isSome && 0 < toolId then
      if s.streaming then some { s with hooks := s.hooks.deferRegisterTool toolId }
      else (tooltableRegisterTool core o toolId none s.fs).map fun r => { s with fs := r.fs }
    else some s
  registered.map fun s =>
    { s with currentTool := toolId, toolChanged := s.toolChanged.map (· ++ [toolId]) }

variable {core o}

theorem setTool_now {s : MacroState} (idle : s.streaming = false) (data : ToolData) :
    setTool core o data s =
      (setToolNow core o data s.fs).map fun r => (r.1, { s with fs := r.2 }) := by
  unfold setTool setToolNow
  rw [idle]
  split
  next =>
    cases s
    cases idle
    rfl
  next => rfl

def MacroHooks.endSetTool (h : MacroHooks) : MacroHooks :=
  { h with onMacroReturn := h.onSetReturn, onSetReturn := none, pendingSetTool := none }

def MacroHooks.endRegisterTool (h : MacroHooks) : MacroHooks :=
  { h with
    onMacroReturn := h.onChangedReturn
    onChangedReturn := none
    pendingRegisterTool := if 0 < h.pendingRegisterTool then 0 else h.pendingRegisterTool }

theorem deferredSetTool_pending {s : MacroState} {data : ToolData}
    (pending : s.hooks.pendingSetTool = some data) :
    deferredSetTool core o s = (storePending core o data s.fs).map fun r =>
      { s with hooks := s.hooks.endSetTool, fs := r.2 } := by
  simp only [deferredSetTool, pending]
  rfl

theorem deferredRegisterTool_pending {s : MacroState} (pending : 0 < s.hooks.pendingRegisterTool) :
    deferredRegisterTool core o s =
      (tooltableRegisterTool core o s.hooks.pendingRegisterTool none s.fs).map fun r =>
        { s with hooks := s.hooks.endRegisterTool, fs := r.fs } := by
  rw [deferredRegisterTool, if_pos pending, MacroHooks.endRegisterTool, if_pos pending]

theorem deferredSetTool_hooks {s s' : MacroState} (h : deferredSetTool core o s = some s') :
    s'.hooks = s.hooks.endSetTool ∧ s'.returned = s.returned := by
  unfold deferredSetTool at h
  cases pending : s.hooks.pendingSetTool with
  | none =>
    simp only [pending] at h
    cases Option.some.inj h
    rw [MacroHooks.endSetTool, ← pending]
    exact ⟨rfl, rfl⟩
  | some data =>
    simp only [pending] at h
    obtain ⟨r, _, rfl⟩ := Option.map_eq_some_iff.mp h
    exact ⟨rfl, rfl⟩

theorem deferredRegisterTool_hooks {s s' : MacroState}
    (h : deferredRegisterTool core o s = some s') :
    s'.hooks = s.hooks.endRegisterTool ∧ s'.returned = s.returned := by
  unfold deferredRegisterTool at h
  unfold MacroHooks.endRegisterTool
  split at h
  next waits =>
    obtain ⟨r, _, rfl⟩ := Option.map_eq_some_iff.mp h
    rw [if_pos waits]
    exact ⟨rfl, rfl⟩
  next none =>
    cases Option.some.inj h
    rw [if_neg none]
    exact ⟨rfl, rfl⟩

def MacroHooks.rank (h : MacroHooks) : Nat :=
  if h.onMacroReturn = none then 1
  else 2 + h.onSetReturn.toList.length + h.onChangedReturn.toList.length

theorem MacroHooks.rank_le (h : MacroHooks) : h.rank ≤ handlerDepth := by
  have set := Option.length_toList_le (o := h.onSetReturn)
  have changed := Option.length_toList_le (o := h.onChangedReturn)
  unfold rank handlerDepth
  split <;> omega

theorem MacroHooks.rank_endSetTool {h : MacroHooks} (called : h.onMacroReturn ≠ none) :
    h.endSetTool.rank < h.rank := by
  rw [rank, rank, if_neg called]
  cases saved : h.onSetReturn <;> simp [endSetTool, saved]
  omega

theorem MacroHooks.rank_endRegisterTool {h : MacroHooks} (called : h.onMacroReturn ≠ none) :
    h.endRegisterTool.rank < h.rank := by
  rw [rank, rank, if_neg called]
  cases saved : h.onChangedReturn <;> simp [endRegisterTool, saved]
  omega

/-- With more depth the calls end in the same way. -/
theorem macroReturn_depth {n : Nat} {s : MacroState} (enough : s.hooks.rank ≤ n) :
    macroReturn core o (n + 1) s = macroReturn core o n s := by
  induction n generalizing s with
  | zero =>
    unfold MacroHooks.rank at enough
    split at enough <;> omega
  | succ n ih =>
    rw [macroReturn, macroReturn]
    cases first : s.hooks.onMacroReturn with
    | none => rfl
    | some handler =>
      have called : s.hooks.onMacroReturn ≠ none := by simp [first]
      cases handler with
      | other => rfl
      | deferredSetTool =>
        refine Option.bind_congr fun s' h => ih ?_
        have := MacroHooks.rank_endSetTool called
        rw [(deferredSetTool_hooks h).1]
        omega
      | deferredRegisterTool =>
        refine Option.bind_congr fun s' h => ih ?_
        have := MacroHooks.rank_endRegisterTool called
        rw [(deferredRegisterTool_hooks h).1]
        omega

end GrblhalSim
