import GrblhalSim.ToolSetPaths

namespace GrblhalSim

open DecimalText

variable {core : GrblCore}

/-- A call that a macro makes. -/
inductive MacroCall
  | setTool (data : ToolData) (positive : 0 < data.toolId)
  | toolChanged (toolId : Int32) (positive : 0 < toolId)

def MacroCall.toolId : MacroCall → Int32
  | .setTool data _ => data.toolId
  | .toolChanged toolId _ => toolId

/-- The table has what the call is to put in it. -/
def MacroCall.TakenEffect (core : GrblCore) (fs : ToolFs) : MacroCall → Prop
  | .setTool data _ => ToolStored core data fs
  | .toolChanged toolId _ => (findTool core toolId fs).isSome

/-- The entries, with the data of the calls too, keep their tools when they are printed, and their
lines fit the buffers. -/
structure TextOk (es : List ToolPocket) (calls : List MacroCall) : Prop where
  entries : ∀ e ∈ es, Tame e
  toolId : ∀ call ∈ calls, call.toolId.toInt < 65536
  new : ∀ data positive, .setTool data positive ∈ calls → (ToolPocket.mk 0 data .empty).Fits
  set : ∀ data positive, .setTool data positive ∈ calls → ∀ e ∈ es, (e.setData data).Fits

/-- There is a table, and its text is in order for the calls. -/
def TableReady (core : GrblCore) (calls : List MacroCall) (fs : ToolFs) : Prop :=
  ∃ file tmp, fs = some ⟨some file, tmp⟩ ∧ TextOk (entries core file) calls

theorem StoresData.reread {data : ToolData} {e : ToolPocket} (h : StoresData data e) :
    StoresData data (e.reread core) where
  offset axis := by
    rw [reread_offset, h.offset axis]
    exact round3_round3 _
  radius := by
    have diameter : (e.reread core).tool.radius * 2 = _ := reread_diameter e
    rw [h.radius, div_mul_cancel₀ _ (by norm_num), round3_round3] at diameter
    linarith

theorem TextOk.rewritten {ps : List ToolPocket} {calls : List MacroCall} (h : TextOk ps calls) :
    TextOk (GrblhalSim.entries core (tableText ps)) calls := by
  have held : GrblhalSim.entries core (tableText ps) = _ := entries_tableText h.entries
  refine ⟨fun e he => ?_, h.toolId, h.new, fun data positive called e he => ?_⟩
  · have clean := (entries_clean he).1
    rw [held] at he
    obtain ⟨p, hp, rfl⟩ := List.mem_map.mp he
    exact (h.entries p hp).reread clean
  · rw [held] at he
    obtain ⟨p, hp, rfl⟩ := List.mem_map.mp he
    exact (h.set data positive called p hp).reread_setData (h.entries p hp).reread_toolId

/-- The last data that an entry takes are the ones that it has. -/
theorem setData_setData (first second : ToolData) (e : ToolPocket) :
    (e.setData first).setData second = e.setData second ∨
      (e.setData first).setData second = e.setData first := by
  have kept := (e.setData_toolId first).1
  by_cases other : e.tool.toolId = second.toolId
  · refine Or.inl ?_
    by_cases same : e.tool.toolId = first.toolId
    · rw [ToolPocket.setData_pos (kept.trans other), ToolPocket.setData_pos other,
        ToolPocket.setData_pos same]
    · rw [ToolPocket.setData_neg same]
  · exact Or.inr (ToolPocket.setData_neg (kept ▸ other))

theorem TextOk.map_setData {es : List ToolPocket} {calls : List MacroCall} (h : TextOk es calls)
    {data : ToolData} {positive : 0 < data.toolId} (called : .setTool data positive ∈ calls) :
    TextOk (es.map (ToolPocket.setData data)) calls := by
  have fits := h.set data positive called
  refine ⟨fun p hp => ?_, h.toolId, h.new, fun data' positive' called' p hp => ?_⟩
  · obtain ⟨e, he, rfl⟩ := List.mem_map.mp hp
    have tame := h.entries e he
    refine ⟨?_, ?_, fits e he, ?_⟩
    · rw [(e.setData_toolId data).1]
      exact tame.low
    · rw [(e.setData_toolId data).1]
      exact tame.high
    · rw [e.setData_name data]
      exact tame.nameLine
  · obtain ⟨e, he, rfl⟩ := List.mem_map.mp hp
    rcases setData_setData data data' e with last | kept
    · rw [last]
      exact h.set data' positive' called' e he
    · rw [kept]
      exact fits e he

theorem TextOk.append {es : List ToolPocket} {calls : List MacroCall} (h : TextOk es calls)
    {p : ToolPocket} (tame : Tame p)
    (set : ∀ data positive, .setTool data positive ∈ calls → (p.setData data).Fits) :
    TextOk (es ++ [p]) calls := by
  refine ⟨fun e he => ?_, h.toolId, h.new, fun data positive called e he => ?_⟩
  · rcases List.mem_append.mp he with he | he
    · exact h.entries e he
    · cases List.mem_singleton.mp he
      exact tame
  · rcases List.mem_append.mp he with he | he
    · exact h.set data positive called e he
    · cases List.mem_singleton.mp he
      exact set data positive called

/-- An entry without a name fits where its numbers do. -/
theorem fits_of_unnamed {p : ToolPocket} (unnamed : p.name = .empty) (numbers : p.NumbersFit) :
    p.Fits := by
  have front := frontText_length numbers
  have none : nameText p.name = [] := by
    rw [unnamed]
    rfl
  refine ⟨numbers, ?_⟩
  rw [ToolPocket.lineText, none, List.append_nil]
  exact lt_of_le_of_lt (Nat.succ_le_succ front) (by decide)

theorem TextOk.tame_new {es : List ToolPocket} {calls : List MacroCall} (h : TextOk es calls)
    {call : MacroCall} (called : call ∈ calls) (positive : 0 < call.toolId) {p : ToolPocket}
    (toolId : p.tool.toolId = call.toolId) (unnamed : p.name = .empty) (fits : p.Fits) :
    Tame p where
  low := by
    rw [toolId]
    exact (Int32.lt_iff_toInt_lt.mp positive).le
  high := by
    rw [toolId]
    exact h.toolId call called
  fits := fits
  nameLine := by
    rw [unnamed]
    exact List.not_mem_nil

theorem TextOk.new_setData {es : List ToolPocket} {calls : List MacroCall} (h : TextOk es calls)
    {data : ToolData} {positive : 0 < data.toolId} (called : .setTool data positive ∈ calls)
    {tool : ToolData} (fits : (ToolPocket.mk 0 tool .empty).Fits) :
    ((ToolPocket.mk 0 tool .empty).setData data).Fits := by
  by_cases same : tool.toolId = data.toolId
  · have given : (ToolPocket.mk 0 tool .empty).setData data = ⟨0, data, .empty⟩ := by
      rw [ToolPocket.setData_pos same]
      cases data
      cases same
      rfl
    rw [given]
    exact h.new data positive called
  · rw [ToolPocket.setData_neg same]
    exact fits

/-- The table holds the lines of these entries. -/
structure Rewritten (core : GrblCore) (calls : List MacroCall) (ps : List ToolPocket)
    (fs : ToolFs) : Prop where
  table : fs = some ⟨some (tableText ps), none⟩
  textOk : TextOk ps calls

theorem Rewritten.ready {calls : List MacroCall} {ps : List ToolPocket} {fs : ToolFs}
    (h : Rewritten core calls ps fs) : TableReady core calls fs :=
  ⟨tableText ps, none, h.table, h.textOk.rewritten⟩

theorem Rewritten.find {calls : List MacroCall} {ps : List ToolPocket} {fs : ToolFs}
    (h : Rewritten core calls ps fs) (toolId : Int32) :
    findTool core toolId fs = (ps.find? fun p => p.tool.toolId = toolId).map (·.reread core) := by
  rw [h.table]
  exact findTool_tableText h.textOk.entries toolId none

theorem rewriteTable_rewritten {calls : List MacroCall}
    (update : List ToolPocket → List ToolPocket) {file : List UInt8} (tmp : Option (List UInt8))
    (textOk : TextOk (update (entries core file)) calls) :
    ∃ fs, rewriteTable core .succeed update (some ⟨some file, tmp⟩) = some (true, fs) ∧
      Rewritten core calls (update (entries core file)) fs :=
  ⟨_, rewriteTable_succeed rfl fun p hp => (textOk.entries p hp).fits, rfl, textOk⟩

theorem setToolWrite_ready {calls : List MacroCall} {data : ToolData} {positive : 0 < data.toolId}
    (called : .setTool data positive ∈ calls) {file : List UInt8} (tmp : Option (List UInt8))
    (textOk : TextOk (entries core file) calls) :
    ∃ fs, setToolWrite core .succeed data (some ⟨some file, tmp⟩) = some (true, fs) ∧
      TableReady core calls fs ∧
        ∀ toolId e, findTool core toolId (some ⟨some file, tmp⟩) = some e →
          findTool core toolId fs = some ((e.setData data).reread core) := by
  obtain ⟨fs, ran, rewritten⟩ := rewriteTable_rewritten _ tmp (textOk.map_setData called)
  refine ⟨fs, ran, rewritten.ready, fun toolId e found => ?_⟩
  have search : (fun p : ToolPocket => decide (p.tool.toolId = toolId)) ∘ ToolPocket.setData data =
      fun p => decide (p.tool.toolId = toolId) := by
    funext p
    exact congrArg (fun t => decide (t = toolId)) (p.setData_toolId data).1
  rw [findTool_table] at found
  rw [rewritten.find, List.find?_map, search, found]
  rfl

theorem appendTool_ready {calls : List MacroCall} {p : ToolPocket} {file : List UInt8}
    (tmp : Option (List UInt8)) (textOk : TextOk (entries core file ++ [p]) calls)
    (absent : findTool core p.tool.toolId (some ⟨some file, tmp⟩) = none) :
    ∃ fs, appendTool core .succeed p (some ⟨some file, tmp⟩) = some (true, fs) ∧
      TableReady core calls fs ∧ findTool core p.tool.toolId fs = some (p.reread core) ∧
        ∀ toolId e, findTool core toolId (some ⟨some file, tmp⟩) = some e →
          findTool core toolId fs = some (e.reread core) := by
  obtain ⟨fs, ran, rewritten⟩ := rewriteTable_rewritten (· ++ [p]) tmp textOk
  refine ⟨fs, ran, rewritten.ready, ?_, fun toolId e found => ?_⟩
  · rw [rewritten.table]
    exact findTool_append rewritten.textOk.entries absent
  · rw [findTool_table] at found
    rw [rewritten.find, List.find?_append, found]
    rfl

/-- The deferred `setTool` stores its data and keeps every tool. -/
theorem storePending_ready {calls : List MacroCall} {fs : ToolFs} {data : ToolData}
    {positive : 0 < data.toolId} (called : .setTool data positive ∈ calls)
    (ready : TableReady core calls fs) :
    ∃ done fs', storePending core .succeed data fs = some (done, fs') ∧ TableReady core calls fs' ∧
      ToolStored core data fs' ∧
        ∀ toolId, (findTool core toolId fs).isSome → (findTool core toolId fs').isSome := by
  obtain ⟨file, tmp, rfl, textOk⟩ := ready
  unfold storePending
  split
  next present =>
    obtain ⟨e, found⟩ := Option.isSome_iff_exists.mp present
    obtain ⟨fs', ran, ready', kept⟩ := setToolWrite_ready called tmp textOk
    have own : e.tool.toolId = data.toolId := by simpa using List.find?_some found
    refine ⟨true, fs', ran, ready', ⟨_, kept data.toolId e found, ?_⟩, fun toolId some => ?_⟩
    · exact setData_reread_stores_iff.mpr (Or.inl own)
    · obtain ⟨e', found'⟩ := Option.isSome_iff_exists.mp some
      exact Option.isSome_of_eq_some (kept toolId e' found')
  next missing =>
    have absent := Option.not_isSome_iff_eq_none.mp missing
    have tame : Tame ⟨0, data, .empty⟩ :=
      textOk.tame_new called positive rfl rfl (textOk.new data positive called)
    obtain ⟨fs', ran, ready', new, kept⟩ := appendTool_ready (p := ⟨0, data, .empty⟩) tmp
      (textOk.append tame fun _ _ called' => textOk.new_setData called' tame.fits) absent
    refine ⟨true, fs', ran, ready', ⟨_, new, ⟨fun _ => rfl, rfl⟩⟩, fun toolId some => ?_⟩
    obtain ⟨e, found⟩ := Option.isSome_iff_exists.mp some
    exact Option.isSome_of_eq_some (kept toolId e found)

/-- The deferred registration registers its tool, and keeps every tool and what is stored. -/
theorem register_ready {calls : List MacroCall} {fs : ToolFs} {toolId : Int32}
    {positive : 0 < toolId} (called : .toolChanged toolId positive ∈ calls)
    (ready : TableReady core calls fs) :
    ∃ r, tooltableRegisterTool core .succeed toolId none fs = some r ∧
      TableReady core calls r.fs ∧ (findTool core toolId r.fs).isSome ∧
        (∀ data, ToolStored core data fs → ToolStored core data r.fs) ∧
          ∀ toolId, (findTool core toolId fs).isSome → (findTool core toolId r.fs).isSome := by
  obtain ⟨file, tmp, rfl, textOk⟩ := id ready
  cases found : fileFind core .succeed toolId (some ⟨some file, tmp⟩) with
  | some existing =>
    refine ⟨⟨.alreadyRegistered, none, some ⟨some file, tmp⟩⟩, ?_, ready, ?_, fun _ h => h,
      fun _ h => h⟩
    · rw [tooltableRegisterTool, found]
      rfl
    · exact Option.isSome_of_eq_some found
  | none =>
    have fits : (ToolPocket.mk 0 ⟨toolId, fun _ => 0, 0⟩ .empty).Fits := by
      refine fits_of_unnamed rfl ((numbersFit_iff _).mpr ⟨fun _ => shortText_zero, ?_⟩)
      rw [zero_mul]
      exact shortText_zero
    have tame : Tame ⟨0, ⟨toolId, fun _ => 0, 0⟩, .empty⟩ :=
      textOk.tame_new called positive rfl rfl fits
    obtain ⟨fs', ran, ready', new, kept⟩ :=
      appendTool_ready (p := ⟨0, ⟨toolId, fun _ => 0, 0⟩, .empty⟩) tmp
        (textOk.append tame fun _ _ called' => textOk.new_setData called' fits) found
    refine ⟨⟨.ok, none, fs'⟩, ?_, ready', Option.isSome_of_eq_some new, fun data stored => ?_,
      fun toolId some => ?_⟩
    · rw [tooltableRegisterTool, found]
      exact congrArg (carouselReturn none) ran
    · obtain ⟨e, held, stores⟩ := stored
      exact ⟨_, kept data.toolId e held, stores.reread⟩
    · obtain ⟨e, held⟩ := Option.isSome_iff_exists.mp some
      exact Option.isSome_of_eq_some (kept toolId e held)

end GrblhalSim
