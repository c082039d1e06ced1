import GrblhalSim.ToolAtomic
import GrblhalSim.ToolMacro
import GrblhalSim.ToolReread

namespace GrblhalSim

open DecimalText

variable {core : GrblCore}

/-- The entry has the offsets and the radius of `data`, as the table stores them. -/
structure StoresData (data : ToolData) (e : ToolPocket) : Prop where
  offset : ∀ axis, e.tool.offset axis = round3 (data.offset axis)
  radius : e.tool.radius = round3 (data.radius * 2) / 2

/-- The tool is found with the offsets and the radius of `data`. -/
def ToolStored (core : GrblCore) (data : ToolData) (fs : ToolFs) : Prop :=
  ∃ e, findTool core data.toolId fs = some e ∧ StoresData data e

def setImmediately (core : GrblCore) (data : ToolData) (s : MacroState) :
    Option (Bool × MacroState) :=
  setTool core .succeed data { s with streaming := false }

def setInMacro (core : GrblCore) (data : ToolData) (s : MacroState) : Option (Bool × MacroState) :=
  (setTool core .succeed data { s with streaming := true }).bind fun called =>
    (macroReturn core .succeed handlerDepth called.2).map fun s => (called.1, s)

/-- Both ways report success, leave the same entries and store the tool's data. -/
def SameEffect (core : GrblCore) (data : ToolData) (s : MacroState) : Prop :=
  ∃ now later fileNow fileLater,
    setImmediately core data s = some (true, now) ∧ setInMacro core data s = some (true, later) ∧
      now.fs.table = some fileNow ∧ later.fs.table = some fileLater ∧
        entries core fileNow = entries core fileLater ∧
          ToolStored core data now.fs ∧ ToolStored core data later.fs

/-- The text of the entry's tool id is the one of `toolId`. -/
def ToolPocket.printsAs (toolId : Int32) (e : ToolPocket) : Bool :=
  (e.printedTool.toNat : Int) = toolId.toInt

/-- The entry is the tool's, or it has the offsets and the radius of `data` already. -/
def ToolPocket.Receives (data : ToolData) (e : ToolPocket) : Prop :=
  e.tool.toolId = data.toolId ∨
    (∀ axis, round3 (e.tool.offset axis) = round3 (data.offset axis)) ∧
      round3 (e.tool.radius * 2) = round3 (data.radius * 2)

theorem rewriteTable_table (update : List ToolPocket → List ToolPocket) (file : List UInt8)
    (tmp : Option (List UInt8)) :
    rewriteTable core .succeed update (some ⟨some file, tmp⟩) =
      if ∀ p ∈ update (entries core file), p.Fits then
        some (true, some ⟨some (tableText (update (entries core file))), none⟩)
      else none := by
  split
  next fits => exact rewriteTable_succeed rfl fits
  next tooLong => rw [rewriteTable_open rfl rfl rfl, if_neg tooLong]

theorem setData_printsAs (data : ToolData) (toolId : Int32) (e : ToolPocket) :
    (e.setData data).printsAs toolId = e.printsAs toolId := by
  unfold ToolPocket.setData
  split
  next => rfl
  next => rfl

theorem reread_printsAs (core : GrblCore) (toolId : Int32) (e : ToolPocket) :
    (e.reread core).tool.toolId = toolId ↔ e.printsAs toolId = true := by
  have value : (e.reread core).tool.toolId.toInt = e.printedTool.toNat :=
    toInt_toInt32 e.printedTool
  rw [← Int32.toInt_inj, value, ToolPocket.printsAs, decide_eq_true_eq]

theorem setData_reread_stores_iff {data : ToolData} {e : ToolPocket} :
    StoresData data ((e.setData data).reread core) ↔ e.Receives data := by
  unfold ToolPocket.setData ToolPocket.Receives
  split
  next same => exact iff_of_true ⟨fun _ => rfl, rfl⟩ (Or.inl same)
  next other =>
    rw [or_iff_right other]
    constructor
    · intro stores
      refine ⟨stores.offset, ?_⟩
      have half : round3 (e.tool.radius * 2) / 2 = round3 (data.radius * 2) / 2 := stores.radius
      linarith
    · rintro ⟨offset, radius⟩
      exact ⟨offset, congrArg (· / 2) radius⟩

theorem entries_setData {file : List UInt8} {data : ToolData}
    (fits : ∀ e ∈ entries core file, (e.setData data).Fits) :
    entries core (tableText ((entries core file).map (·.setData data))) =
      (entries core file).map fun e => (e.setData data).reread core := by
  have each : ∀ p ∈ (entries core file).map (·.setData data),
      p.Fits ∧ newline ∉ p.name.bytes := by
    intro p hp
    obtain ⟨e, he, rfl⟩ := List.mem_map.mp hp
    rw [e.setData_name data]
    exact ⟨fits e he, (entries_clean he).1⟩
  rw [entries_lines (fun p hp => (each p hp).1.1) fun p hp => (each p hp).2, List.map_map]
  rfl

theorem setImmediately_eq {data : ToolData} (positive : 0 < data.toolId) (s : MacroState) :
    setImmediately core data s = (setToolWrite core .succeed data s.fs).map fun r =>
      (r.1, { s with streaming := false, fs := r.2 }) := by
  have accepted : ¬ data.toolId ≤ 0 := Int32.not_le.mpr positive
  rw [setImmediately, setTool, if_neg accepted]
  rfl

def MacroState.ended (s : MacroState) (fs : ToolFs) : MacroState :=
  { s with
    fs := fs
    streaming := true
    returned := if s.hooks.onMacroReturn = none then s.returned else s.returned + 1 }

theorem macroReturn_idle {o : Outcomes} {s : MacroState} (idle : s.hooks.Idle) (n : Nat) :
    macroReturn core o (n + 1) s = some { s with
      returned := if s.hooks.onMacroReturn = none then s.returned else s.returned + 1 } := by
  rw [macroReturn]
  rcases idle.handler with none | other
  · rw [none]
    rfl
  · rw [other]
    rfl

theorem setInMacro_eq {data : ToolData} {s : MacroState} (positive : 0 < data.toolId)
    (idle : s.hooks.Idle) :
    setInMacro core data s =
      (storePending core .succeed data s.fs).map fun r => (true, s.ended r.2) := by
  have accepted : ¬ data.toolId ≤ 0 := Int32.not_le.mpr positive
  have ends : (s.hooks.deferSetTool data).endSetTool = s.hooks := by
    obtain ⟨setReturn, _, setTool, _, _⟩ := idle
    cases hooks : s.hooks
    simp only [hooks] at setReturn setTool
    rw [setReturn, setTool]
    rfl
  have deferred : deferredSetTool core .succeed
      { s with streaming := true, hooks := s.hooks.deferSetTool data } = _ :=
    deferredSetTool_pending rfl
  rw [setInMacro, setTool, if_neg accepted, if_pos rfl, Option.bind_some, handlerDepth]
  change ((deferredSetTool core .succeed _).bind (macroReturn core .succeed 3)).map _ = _
  rw [deferred]
  cases storePending core .succeed data s.fs with
  | none => rfl
  | some r =>
    have back : macroReturn core .succeed 3 { s with
        streaming := true, hooks := (s.hooks.deferSetTool data).endSetTool, fs := r.2 } =
        some (s.ended r.2) := by
      rw [ends]
      exact macroReturn_idle (s := { s with streaming := true, fs := r.2 }) idle 2
    exact congrArg (Option.map fun s => (true, s)) back

theorem findTool_setData {file : List UInt8} {data : ToolData}
    (fits : ∀ e ∈ entries core file, (e.setData data).Fits) :
    ToolStored core data
        (some ⟨some (tableText ((entries core file).map (·.setData data))), none⟩) ↔
      ∃ e, (entries core file).find? (·.printsAs data.toolId) = some e ∧ e.Receives data := by
  have found : findTool core data.toolId
      (some ⟨some (tableText ((entries core file).map (·.setData data))), none⟩) =
      ((entries core file).find? (·.printsAs data.toolId)).map
        fun e => (e.setData data).reread core := by
    rw [findTool_table, entries_setData fits, List.find?_map]
    congr 2
    funext e
    have same := reread_printsAs core data.toolId (e.setData data)
    rw [setData_printsAs] at same
    exact Bool.eq_iff_iff.mpr (decide_eq_true_iff.trans same)
  rw [ToolStored, found]
  constructor
  · rintro ⟨_, here, stores⟩
    obtain ⟨e, first, rfl⟩ := Option.map_eq_some_iff.mp here
    exact ⟨e, first, setData_reread_stores_iff.mp stores⟩
  · rintro ⟨e, first, receives⟩
    exact ⟨_, congrArg (Option.map _) first, setData_reread_stores_iff.mpr receives⟩

theorem findTool_isSome_iff (core : GrblCore) (toolId : Int32) (file : List UInt8)
    (tmp : Option (List UInt8)) :
    (findTool core toolId (some ⟨some file, tmp⟩)).isSome ↔
      ∃ e ∈ entries core file, e.tool.toolId = toolId := by
  rw [findTool_table, List.find?_isSome]
  simp only [decide_eq_true_eq]

theorem absent_entries_differ {file : List UInt8} {data : ToolData} {new : ToolPocket}
    (absent : ∀ e ∈ entries core file, e.tool.toolId ≠ data.toolId)
    (fits : ∀ e ∈ entries core file ++ [new], e.Fits) (clean : newline ∉ new.name.bytes) :
    entries core (tableText ((entries core file).map (·.setData data))) ≠
      entries core (tableText (entries core file ++ [new])) := by
  intro same
  have kept : ∀ e ∈ entries core file, (e.setData data).Fits := by
    intro e he
    rw [ToolPocket.setData, if_neg (absent e he)]
    exact fits e (List.mem_append_left _ he)
  have names : ∀ e ∈ entries core file ++ [new], newline ∉ e.name.bytes := by
    intro e he
    rcases List.mem_append.mp he with he | he
    · exact (entries_clean he).1
    · exact List.mem_singleton.mp he ▸ clean
  have lengths := congrArg List.length same
  rw [entries_setData kept, entries_lines (fun e he => (fits e he).1) names, List.length_map,
    List.length_map, List.length_append, List.length_singleton] at lengths
  omega

theorem not_sameEffect_of_absent {data : ToolData} {s : MacroState} {file : List UInt8}
    {tmp : Option (List UInt8)} (positive : 0 < data.toolId) (idle : s.hooks.Idle)
    (table : s.fs = some ⟨some file, tmp⟩)
    (absent : ∀ e ∈ entries core file, e.tool.toolId ≠ data.toolId) : ¬ SameEffect core data s := by
  have write : setToolWrite core .succeed data (some ⟨some file, tmp⟩) = _ :=
    rewriteTable_table (List.map (ToolPocket.setData data)) file tmp
  have append : appendTool core .succeed ⟨0, data, .empty⟩ (some ⟨some file, tmp⟩) = _ :=
    rewriteTable_table (fun es => es ++ [ToolPocket.mk 0 data .empty]) file tmp
  have missing : ¬ (findTool core data.toolId (some ⟨some file, tmp⟩)).isSome := by
    rw [findTool_isSome_iff]
    rintro ⟨e, he, same⟩
    exact absent e he same
  rw [SameEffect, setImmediately_eq positive, setInMacro_eq positive idle, table, storePending,
    if_neg missing, write, append]
  rintro ⟨now, later, fileNow, fileLater, ranNow, ranLater, tableNow, tableLater, same, _⟩
  split at ranNow
  next =>
    split at ranLater
    next fits =>
      cases Option.some.inj ranNow
      cases Option.some.inj ranLater
      cases Option.some.inj tableNow
      cases Option.some.inj tableLater
      exact absent_entries_differ absent fits List.not_mem_nil same
    next => cases ranLater
  next => cases ranNow

theorem sameEffect_iff_of_present {data : ToolData} {s : MacroState} {file : List UInt8}
    {tmp : Option (List UInt8)} (positive : 0 < data.toolId) (idle : s.hooks.Idle)
    (table : s.fs = some ⟨some file, tmp⟩)
    (present : ∃ e ∈ entries core file, e.tool.toolId = data.toolId) :
    SameEffect core data s ↔
      (∀ e ∈ entries core file, (e.setData data).Fits) ∧
        ∃ e, (entries core file).find? (·.printsAs data.toolId) = some e ∧ e.Receives data := by
  have write : setToolWrite core .succeed data (some ⟨some file, tmp⟩) = _ :=
    rewriteTable_table (List.map (ToolPocket.setData data)) file tmp
  have fitsAll : (∀ p ∈ (entries core file).map (ToolPocket.setData data), p.Fits) ↔
      ∀ e ∈ entries core file, (e.setData data).Fits := List.forall_mem_map
  rw [SameEffect, setImmediately_eq positive, setInMacro_eq positive idle, table, storePending,
    if_pos ((findTool_isSome_iff core data.toolId file tmp).mpr present), write]
  by_cases fits : ∀ e ∈ entries core file, (e.setData data).Fits
  · rw [if_pos (fitsAll.mpr fits), ← findTool_setData fits, and_iff_right fits]
    constructor
    · rintro ⟨now, later, _, _, ran, _, _, _, _, stored, _⟩
      cases Option.some.inj ran
      exact stored
    · intro stored
      exact ⟨_, _, _, _, rfl, rfl, rfl, rfl, rfl, stored, stored⟩
  · rw [if_neg fun all => fits (fitsAll.mp all)]
    refine iff_of_false ?_ fun h => fits h.1
    rintro ⟨_, _, _, _, ran, _⟩
    cases ran

/-- `setTool` does the same at once and after a macro, and stores the data, exactly when the tool is
in the table, the lines fit their buffers and the first entry whose id is printed like the tool's
is the tool's or has its numbers. -/
theorem set_tool_same_effect_iff {data : ToolData} {s : MacroState} {file : List UInt8}
    {tmp : Option (List UInt8)} (positive : 0 < data.toolId) (idle : s.hooks.Idle)
    (table : s.fs = some ⟨some file, tmp⟩) :
    SameEffect core data s ↔
      (∃ e ∈ entries core file, e.tool.toolId = data.toolId) ∧
        (∀ e ∈ entries core file, (e.setData data).Fits) ∧
          ∃ e, (entries core file).find? (·.printsAs data.toolId) = some e ∧ e.Receives data := by
  by_cases present : ∃ e ∈ entries core file, e.tool.toolId = data.toolId
  · rw [and_iff_right present]
    exact sameEffect_iff_of_present positive idle table present
  · refine iff_of_false ?_ fun h => present h.1
    exact not_sameEffect_of_absent positive idle table fun e he same => present ⟨e, he, same⟩

def toolMacroState (file : String) (handler : Option MacroHandler) : MacroState :=
  ⟨some ⟨some (ascii file), none⟩, false, ⟨handler, none, none, none, 0⟩, 0, 0, none⟩

theorem set_tool_same_effect_iff_known :
    SameEffect decimalCore ⟨7, fun _ => 1, 2⟩ (toolMacroState "P2 T7 X0.500\n" none) := by
  have held : entries decimalCore (ascii "P2 T7 X0.500\n") =
      [⟨2, ⟨7, Function.update (fun _ => 0) 0 (1 / 2), 0⟩, .empty⟩] := by
    decide +kernel
  refine (set_tool_same_effect_iff (by decide) ⟨rfl, rfl, rfl, rfl, Or.inl rfl⟩ rfl).mpr ?_
  rw [held]
  refine ⟨⟨_, List.mem_cons_self, rfl⟩, fun e he => ?_, _, rfl, Or.inl rfl⟩
  cases List.mem_singleton.mp he
  decide +kernel

theorem absent_tool_not_stored :
    ¬ ∀ data s file tmp, 0 < data.toolId → s.hooks.Idle → s.fs = some ⟨some file, tmp⟩ →
      SameEffect decimalCore data s := by
  intro all
  obtain ⟨now, later, _, _, ranNow, _, _, _, _, ⟨e, found, _⟩, _⟩ :=
    all ⟨7, fun _ => 1, 2⟩ (toolMacroState "P1 T1\n" none) _ none (by decide)
      ⟨rfl, rfl, rfl, rfl, Or.inl rfl⟩ rfl
  have lost : setImmediately decimalCore ⟨7, fun _ => 1, 2⟩ (toolMacroState "P1 T1\n" none) =
      some (true, toolMacroState "P1 T1\n" none) := by
    decide +kernel
  have missing : findTool decimalCore 7 (toolMacroState "P1 T1\n" none).fs = none := by
    decide +kernel
  cases Option.some.inj (lost.symm.trans ranNow)
  cases missing.symm.trans found

end GrblhalSim
