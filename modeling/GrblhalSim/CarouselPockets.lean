import GrblhalSim.CarouselCommands

namespace GrblhalSim

open CallRun DecimalText

variable {core : GrblCore}

/-- The carousel pocket of a tool, if it has one. -/
def pocketIn (es : List ToolPocket) (toolId : Int32) : Option Int16 :=
  (es.find? fun e => e.tool.toolId = toolId).bind fun e =>
    if 1 ≤ e.pocketId then some e.pocketId else none

def ToolFs.pocketOf (core : GrblCore) (fs : ToolFs) (toolId : Int32) : Option Int16 :=
  pocketIn ((fs.table.map (entries core)).getD []) toolId

theorem pocketIn_reread {ps : List ToolPocket} (tame : ∀ p ∈ ps, Tame p) (toolId : Int32) :
    pocketIn (ps.map (·.reread core)) toolId = pocketIn ps toolId := by
  induction ps with
  | nil => rfl
  | cons p ps ih =>
    obtain ⟨first, rest⟩ := List.forall_mem_cons.mp tame
    have later := ih rest
    have same : (p.reread core).tool.toolId = p.tool.toolId := first.reread_toolId
    unfold pocketIn at later ⊢
    rw [List.map_cons, List.find?_cons, List.find?_cons, same]
    split
    next =>
      rw [Option.bind_some, Option.bind_some, reread_pocketId]
      by_cases pocket : 1 ≤ p.pocketId
      · rw [if_pos pocket]
      · rw [if_neg pocket, if_neg pocket]
        rfl
    next => exact later

theorem pocketOf_written {ps : List ToolPocket} (tame : ∀ p ∈ ps, Tame p)
    (tmp : Option (List UInt8)) :
    ToolFs.pocketOf core (some ⟨some (tableText ps), tmp⟩) = pocketIn ps := by
  have table : (ToolFs.table (some ⟨some (tableText ps), tmp⟩)).map (entries core) =
      some (ps.map (·.reread core)) := congrArg some (entries_tableText tame)
  funext toolId
  rw [ToolFs.pocketOf, table, Option.getD_some, pocketIn_reread tame]

theorem pocketIn_override {es : List ToolPocket} {ov : PocketOverride}
    (kept : ov.deleteEntry = false) {existing : ToolPocket}
    (found : es.find? (fun e => e.tool.toolId = ov.toolId) = some existing) :
    pocketIn (es.filterMap (applyOverrides [ov])) =
      Function.update (pocketIn es) ov.toolId
        (if 1 ≤ ov.newPocketId then some ov.newPocketId else none) := by
  funext toolId
  by_cases own : toolId = ov.toolId
  · subst own
    obtain ⟨e, now, pocket⟩ := find_override ov kept found
    rw [Function.update_self, pocketIn, now, Option.bind_some, pocket]
  · rw [Function.update_of_ne own]
    clear found
    induction es with
    | nil => rfl
    | cons e es ih =>
      unfold pocketIn at ih ⊢
      rw [List.filterMap_cons, applyOverrides_single, List.find?_cons]
      by_cases same : e.tool.toolId = ov.toolId
      · have other : ¬ e.tool.toolId = toolId := fun h => own (h.symm.trans same)
        simp only [if_pos same, kept, Bool.false_eq_true, if_false, List.find?_cons, other,
          decide_false]
        exact ih
      · simp only [if_neg same, List.find?_cons]
        split
        next => rfl
        next => exact ih

theorem pocketIn_append {es : List ToolPocket} {p : ToolPocket}
    (missing : es.find? (fun e => e.tool.toolId = p.tool.toolId) = none) :
    pocketIn (es ++ [p]) = Function.update (pocketIn es) p.tool.toolId
      (if 1 ≤ p.pocketId then some p.pocketId else none) := by
  funext toolId
  unfold pocketIn
  rw [List.find?_append]
  by_cases own : toolId = p.tool.toolId
  · subst own
    rw [Function.update_self, missing]
    simp
  · have other : ¬ p.tool.toolId = toolId := fun h => own h.symm
    rw [Function.update_of_ne own]
    simp [other]

theorem pocketIn_map {es : List ToolPocket} {f : ToolPocket → ToolPocket}
    (ids : ∀ e, (f e).tool.toolId = e.tool.toolId) (pockets : ∀ e, (f e).pocketId = e.pocketId) :
    pocketIn (es.map f) = pocketIn es := by
  funext toolId
  induction es with
  | nil => rfl
  | cons e es ih =>
    unfold pocketIn at ih ⊢
    rw [List.map_cons, List.find?_cons, List.find?_cons, ids]
    split
    next => rw [Option.bind_some, Option.bind_some, pockets]
    next => exact ih

/-- Every entry of the table can be written again. -/
def TableTame (core : GrblCore) (fs : ToolFs) : Prop :=
  ∀ file, fs.table = some file → ∀ e ∈ entries core file, Tame e

theorem entries_reread {ps : List ToolPocket} (tame : ∀ p ∈ ps, Tame p) (tmp : Option (List UInt8)) :
    TableTame core (some ⟨some (tableText ps), tmp⟩) := by
  intro file table e inside
  cases Option.some.inj table
  have clean := entries_clean inside
  rw [entries_tableText tame] at inside
  obtain ⟨p, written, rfl⟩ := List.mem_map.mp inside
  exact (tame p written).reread clean.1

/-- A call refuses and leaves the files, or it leaves the table that its update says. -/
theorem call_leaves {fs : ToolFs} (ready : fs.Ready core) {call : CarouselCall}
    (tame : WritesTame core fs call) :
    ∃ r, call.run core fs = some r ∧
      (call.update core fs = none ∧ r.result ≠ .ok ∧ r.fs = fs ∨
        ∃ old u, fs.table = some old ∧ call.update core fs = some u ∧ call.Makes core fs u ∧
          r.result = .ok ∧ r.assigned = call.assigned core fs ∧ r.fs.Ready core ∧
          r.fs.pocketOf core = pocketIn (u.apply (entries core old)) ∧ TableTame core r.fs) := by
  obtain ⟨old, tmp, rfl, consistent⟩ := ready
  rcases run_cases core ⟨some old, tmp⟩ call with
    ⟨u, updates, makes, ran⟩ | ⟨none, result, refused, ran⟩
  · have written := tame old u rfl updates
    have returned := ran.trans (update_returns (fun p hp => (written p hp).fits) _)
    refine ⟨_, returned, Or.inr ⟨old, u, rfl, updates, makes, rfl, rfl, ⟨_, none, rfl, ?_⟩,
      pocketOf_written written none, entries_reread written none⟩⟩
    rw [entries_tableText written]
    exact (update_consistent consistent makes).reread written
  · exact ⟨_, ran, Or.inl ⟨none, refused, rfl⟩⟩

theorem pocketOf_table {fs : ToolFs} {old : List UInt8} (table : fs.table = some old) :
    fs.pocketOf core = pocketIn (entries core old) := by
  funext toolId
  rw [ToolFs.pocketOf, table]
  rfl

theorem pocketIn_some {es : List ToolPocket} {toolId : Int32} {p : Int16}
    (h : pocketIn es toolId = some p) : 1 ≤ p ∧ ∃ e ∈ es, e.pocketId = p := by
  obtain ⟨e, found, pocket⟩ := Option.bind_eq_some_iff.mp h
  split at pocket
  next low =>
    cases Option.some.inj pocket
    exact ⟨low, e, List.mem_of_find?_eq_some found, rfl⟩
  next => cases pocket

theorem freePocket_within {limit : PocketLimit} {old : List UInt8} {tmp : Option (List UInt8)}
    (found : ¬ fileFindFreePocket core .succeed limit (some ⟨some old, tmp⟩) < 0) :
    (fileFindFreePocket core .succeed limit (some ⟨some old, tmp⟩)).toInt ≤ limit.pockets.toNat := by
  have small := limit.atMost
  rw [freePocket_search] at found ⊢
  split at found
  next => exact absurd (show (-1 : Int16) < 0 by decide) found
  next some =>
    rw [if_neg some]
    cases first : (List.finRange limit.pockets.toNat).find? fun n =>
        !pocketsInUse limit (entries core old) n.succ with
    | none =>
      rw [first] at found
      exact absurd (show (-1 : Int16) < 0 by decide) found
    | some n =>
      have inside := n.isLt
      rw [Option.map_some, Option.getD_some, Int16.toInt_ofNat_of_lt (by omega)]
      omega

/-- A table that can be read, but not rewritten. -/
structure Outcomes.ReadOnly (o : Outcomes) : Prop where
  openFind : o.openFind = true
  openFree : o.openFree = true
  shut : o.openSource = false ∨ o.openTarget = false

theorem carouselReturn_readOnly {o : Outcomes} (readOnly : o.ReadOnly) (assigned : Option Int16)
    (update : List ToolPocket → List ToolPocket) (files : ToolFiles) :
    carouselReturn assigned (rewriteTable core o update (some files)) =
      some ⟨.writeError, none, some files⟩ := by
  rw [rewriteTable_closed (Or.inr readOnly.shut)]
  rfl

/-- A call refuses or fails to write, and leaves the files, when the table is only read. -/
theorem add_readOnly (core : GrblCore) {o : Outcomes} (readOnly : o.ReadOnly) (toolId : Int32)
    (limit : PocketLimit) (name : Option CString) (files : ToolFiles) :
    ∃ result ≠ .ok, tooltableCarouselAdd core o toolId limit name (some files) =
      some ⟨result, none, some files⟩ := by
  have mounted : (some files).isNone = false := rfl
  unfold tooltableCarouselAdd
  rw [mounted, if_neg (by decide)]
  dsimp only
  split
  next => exact ⟨_, by decide, rfl⟩
  split
  next => exact ⟨_, by decide, rfl⟩
  split
  next => exact ⟨_, by decide, carouselReturn_readOnly readOnly _ _ files⟩
  next => exact ⟨_, by decide, carouselReturn_readOnly readOnly _ _ files⟩

theorem remove_readOnly (core : GrblCore) {o : Outcomes} (readOnly : o.ReadOnly) (toolId : Int32)
    (files : ToolFiles) :
    ∃ result ≠ .ok, tooltableCarouselRemove core o toolId (some files) =
      some ⟨result, none, some files⟩ := by
  have mounted : (some files).isNone = false := rfl
  unfold tooltableCarouselRemove
  rw [mounted, if_neg (by decide)]
  split
  next => exact ⟨_, by decide, rfl⟩
  split
  next => exact ⟨_, by decide, rfl⟩
  next => exact ⟨_, by decide, carouselReturn_readOnly readOnly _ _ files⟩

theorem setToolNow_readOnly {o : Outcomes} (readOnly : o.ReadOnly) (data : ToolData)
    (files : ToolFiles) : setToolNow core o data (some files) = some (false, some files) := by
  unfold setToolNow setToolWrite
  split
  next => rfl
  next => exact rewriteTable_closed (Or.inr readOnly.shut)

/-- A tool that is given a pocket had none, and nobody had the pocket. -/
theorem add_pockets {fs : ToolFs} (ready : fs.Ready core) {o : Outcomes}
    (files : o = .succeed ∨ o.ReadOnly) {toolId : Int32} {limit : PocketLimit}
    {name : Option CString} (tame : WritesTame core fs (.add toolId limit name)) :
    ∃ r, tooltableCarouselAdd core o toolId limit name fs = some r ∧
      (r.result ≠ .ok ∧ r.fs = fs ∨
        ∃ p, r.result = .ok ∧ r.assigned = some p ∧ p.toInt ≤ limit.pockets.toNat ∧
          fs.pocketOf core toolId = none ∧ (∀ other, fs.pocketOf core other ≠ some p) ∧
          r.fs.Ready core ∧
          r.fs.pocketOf core = Function.update (fs.pocketOf core) toolId (some p) ∧
          TableTame core r.fs) := by
  rcases files with rfl | readOnly
  case inr =>
    obtain ⟨old, tmp, rfl, -⟩ := ready
    obtain ⟨result, refused, ran⟩ := add_readOnly core readOnly toolId limit name ⟨some old, tmp⟩
    exact ⟨_, ran, Or.inl ⟨refused, rfl⟩⟩
  obtain ⟨r, ran, ⟨-, refused, same⟩ | ⟨old, u, table, updates, makes, ok, assigned, ready', pockets,
    tame'⟩⟩ := call_leaves ready tame
  · exact ⟨r, ran, Or.inl ⟨refused, same⟩⟩
  · obtain ⟨old', tmp, rfl, -⟩ := ready
    cases Option.some.inj table
    have before : ToolFs.pocketOf core (some ⟨some old, tmp⟩) = pocketIn (entries core old) :=
      pocketOf_table rfl
    have outside : ¬ (findTool core toolId (some ⟨some old, tmp⟩)).any
        fun existing => 1 ≤ existing.pocketId := by
      intro inPocket
      simp only [CarouselCall.update, if_pos inPocket] at updates
      cases updates
    have free : pocketIn (entries core old) toolId = none := by
      rw [findTool_table] at outside
      unfold pocketIn
      cases found : (entries core old).find? fun e => e.tool.toolId = toolId with
      | none => rfl
      | some e =>
        rw [found] at outside
        exact if_neg (by simpa using outside)
    have room : ¬ fileFindFreePocket core .succeed limit (some ⟨some old, tmp⟩) < 0 := by
      cases makes with
      | place _ room => exact room
      | placeNew _ room => exact room
    obtain ⟨low, unused⟩ := freePocket_free room
    refine ⟨r, ran, Or.inr ⟨_, ok, assigned, freePocket_within room, ?_, fun other taken => ?_,
        ready', ?_, tame'⟩⟩
    · rw [before]
      exact free
    · rw [before] at taken
      obtain ⟨-, e, inside, same⟩ := pocketIn_some taken
      exact unused e inside same
    · rw [pockets, before]
      cases makes with
      | place found _ =>
        have kept : (⟨toolId, fileFindFreePocket core .succeed limit (some ⟨some old, tmp⟩),
            shortName core name, false⟩ : PocketOverride).deleteEntry = false := rfl
        have placed := pocketIn_override kept found
        rw [if_pos low] at placed
        exact placed
      | placeNew missing _ =>
        have placed := pocketIn_append (p := ⟨fileFindFreePocket core .succeed limit
          (some ⟨some old, tmp⟩), ⟨toolId, fun _ => 0, 0⟩, shortName core name⟩) missing
        rw [if_pos low] at placed
        exact placed

/-- A tool that is removed had a pocket, and has none then. -/
theorem remove_pockets {fs : ToolFs} (ready : fs.Ready core) {toolId : Int32}
    (tame : WritesTame core fs (.remove toolId)) :
    ∃ r, tooltableCarouselRemove core .succeed toolId fs = some r ∧
      (r.result ≠ .ok ∧ r.fs = fs ∧ fs.pocketOf core toolId = none ∨
        r.result = .ok ∧ fs.pocketOf core toolId ≠ none ∧ r.fs.Ready core ∧
          r.fs.pocketOf core = Function.update (fs.pocketOf core) toolId none) := by
  obtain ⟨r, ran, outcome⟩ := call_leaves ready tame
  obtain ⟨old, tmp, rfl, -⟩ := ready
  have before : ToolFs.pocketOf core (some ⟨some old, tmp⟩) = pocketIn (entries core old) :=
    pocketOf_table rfl
  have known : (findTool core toolId (some ⟨some old, tmp⟩)).any
      (fun existing => 1 ≤ existing.pocketId) = true ↔
        pocketIn (entries core old) toolId ≠ none := by
    rw [findTool_table]
    unfold pocketIn
    cases (entries core old).find? fun e => e.tool.toolId = toolId with
    | none => simp
    | some e => simp
  refine ⟨r, ran, ?_⟩
  rcases outcome with ⟨none, refused, same⟩ | ⟨old', u, table, updates, makes, ok, -, ready', pockets,
    -⟩
  · refine Or.inl ⟨refused, same, ?_⟩
    rw [before]
    by_contra has
    simp only [CarouselCall.update, if_pos (known.mpr has)] at none
    cases none
  · cases Option.some.inj table
    refine Or.inr ⟨ok, ?_, ready', ?_⟩
    · rw [before]
      refine known.mp ?_
      by_contra outside
      simp only [CarouselCall.update, if_neg outside] at updates
      cases updates
    · rw [pockets, before]
      cases makes with
      | remove found =>
        have kept : (⟨toolId, 0, shortName core none, false⟩ : PocketOverride).deleteEntry = false :=
          rfl
        exact pocketIn_override kept found

theorem remove_leaves {fs : ToolFs} (ready : fs.Ready core) {o : Outcomes}
    (files : o = .succeed ∨ o.ReadOnly) {toolId : Int32}
    (tame : WritesTame core fs (.remove toolId)) :
    ∃ r, tooltableCarouselRemove core o toolId fs = some r ∧
      (r.result ≠ .ok ∧ r.fs = fs ∨
        r.result = .ok ∧ fs.pocketOf core toolId ≠ none ∧ r.fs.Ready core ∧
          r.fs.pocketOf core = Function.update (fs.pocketOf core) toolId none) := by
  rcases files with rfl | readOnly
  · obtain ⟨r, ran, outcome⟩ := remove_pockets ready tame
    exact ⟨r, ran, outcome.imp (fun refused => ⟨refused.1, refused.2.1⟩) id⟩
  · obtain ⟨old, tmp, rfl, -⟩ := ready
    obtain ⟨result, refused, ran⟩ := remove_readOnly core readOnly toolId ⟨some old, tmp⟩
    exact ⟨_, ran, Or.inl ⟨refused, rfl⟩⟩

theorem setTool_leaves {fs : ToolFs} (ready : fs.Ready core) {o : Outcomes}
    (files : o = .succeed ∨ o.ReadOnly) {data : ToolData}
    (tame : WritesTame core fs (.setTool data)) :
    ∃ set, setToolNow core o data fs = some set ∧ set.2.Ready core ∧
      set.2.pocketOf core = fs.pocketOf core := by
  rcases files with rfl | readOnly
  · obtain ⟨r, ran, outcome⟩ := call_leaves ready tame
    obtain ⟨set, written, sets⟩ := Option.map_eq_some_iff.mp ran
    have left : set.2 = r.fs := by
      rw [← sets]
      split
      next => rfl
      next => rfl
    refine ⟨set, written, ?_⟩
    rw [left]
    rcases outcome with ⟨-, -, same⟩ | ⟨old, u, table, updates, makes, -, -, ready', pockets, -⟩
    · exact ⟨same ▸ ready, congrArg _ same⟩
    · refine ⟨ready', ?_⟩
      rw [pockets, pocketOf_table table]
      cases makes
      exact pocketIn_map (fun e => (e.setData_toolId _).1) fun e => (e.setData_toolId _).2
  · obtain ⟨old, tmp, rfl, consistent⟩ := ready
    exact ⟨_, setToolNow_readOnly readOnly data ⟨some old, tmp⟩, ⟨old, tmp, rfl, consistent⟩, rfl⟩

/-- Without its pocket an entry is no longer than before. -/
theorem Tame.unplaced {e : ToolPocket} (h : Tame e) : Tame { e with pocketId := 0 } where
  low := h.low
  high := h.high
  nameLine := h.nameLine
  fits := by
    obtain ⟨words, line⟩ := h.fits
    refine ⟨words, ?_⟩
    have low : ¬ (1 : Int16) ≤ 0 := by decide
    have none : ToolPocket.printedPocket { e with pocketId := 0 } = 0 := if_neg low
    have digit : (decimal (ToolPocket.printedPocket { e with pocketId := 0 }).toNat).length = 1 := by
      rw [none]
      rfl
    have digits : 0 < (decimal e.printedPocket.toNat).length :=
      List.length_pos_iff.mpr (decimal_ne_nil _)
    have number : (ToolPocket.numberWords { e with pocketId := 0 }) = e.numberWords := rfl
    have tool : (ToolPocket.printedTool { e with pocketId := 0 }) = e.printedTool := rfl
    simp only [ToolPocket.lineText, ToolPocket.frontText, List.length_append, List.length_cons,
      number, tool, digit] at line ⊢
    omega

/-- What was written can be written again without a pocket. -/
theorem TableTame.remove {fs : ToolFs} (tame : TableTame core fs) (toolId : Int32) :
    WritesTame core fs (.remove toolId) := by
  intro file u table updates p written
  have update : u = .rewrite [⟨toolId, 0, shortName core none, false⟩] := by
    simp only [CarouselCall.update] at updates
    split at updates
    next => exact (Option.some.inj updates).symm
    next => cases updates
  rw [update] at written
  obtain ⟨e, inside, kept⟩ := List.mem_filterMap.mp written
  have before := tame file table e inside
  have same := applyOverrides_single ⟨toolId, 0, shortName core none, false⟩ e
  have noName : (shortName core none).bytes = [] := rfl
  rw [same] at kept
  split at kept
  next =>
    simp only [noName, ne_eq, not_true_eq_false, if_false, Bool.false_eq_true] at kept
    cases Option.some.inj kept
    exact before.unplaced
  next =>
    cases Option.some.inj kept
    exact before

section Commands

variable {η : Type} {readUint : ReadUint}

/-- The call of the tool table that a command is to make, once it has read its tool. -/
def TcCommand.call (readUint : ReadUint) (now : TcSituation) : TcCommand → Option CarouselCall
  | .tcAdd args =>
    match args.filter fun a => a.bytes ≠ [] with
    | none => some (.add now.tool.toolId now.pockets none)
    | some a =>
      match namedTool readUint a with
      | some (.ok (toolId, text)) => some (.add toolId.toInt32 now.pockets (nameBehind text))
      | _ => none
  | .tcReturn => some (.add now.tool.toolId now.pockets none)
  | .tcRm args =>
    match args.filter fun a => a.bytes ≠ [] with
    | none => some (.remove now.tool.toolId)
    | some a =>
      match namedTool readUint a with
      | some (.ok (toolId, _)) => some (.remove toolId.toInt32)
      | _ => none
  | .tcMeasure => none
  | .tcRemeasure => some (.setTool { now.tool with offset := fun _ => 0 })

/-- Every entry that the command writes is tame. -/
def TcTame (core : GrblCore) (readUint : ReadUint) (w : TcWorld η) (i : TcCommand × TcSituation) :
    Prop :=
  ∀ call, i.1.call readUint i.2 = some call → WritesTame core w.fs call

/-- The file operations of a command succeed, or the table can only be read; those that take a
deposit back succeed. -/
structure TcFiles (now : TcSituation) : Prop where
  files : now.files = .succeed ∨ now.files.ReadOnly
  undo : now.undo = .succeed

/-- What a command that is to make the call has done: nothing to the pockets if it was refused or
failed; a deposit has given its tool a free pocket and announced the two; a removal has taken the
tool's pocket. -/
def TcDone (core : GrblCore) (w : TcWorld η) (call : Option CarouselCall) (status : TcStatus)
    (w' : TcWorld η) : Prop :=
  if status = .ok then
    match call with
    | some (.add toolId limit _) => ∃ p : Int16, p.toInt ≤ limit.pockets.toNat ∧
        w.fs.pocketOf core toolId = none ∧ (∀ other, w.fs.pocketOf core other ≠ some p) ∧
        w'.fs.pocketOf core = Function.update (w.fs.pocketOf core) toolId (some p) ∧
        w'.outputs = w.outputs ++ [.ngcParam 4900 toolId.toUInt32.toNat, .ngcParam 4901 p.toInt,
          .ngcParam 4905 1, .ngcParam 4906 0, .keepout false, .enqueue (ascii "G65P391")]
    | some (.remove toolId) => w.fs.pocketOf core toolId ≠ none ∧
        w'.fs.pocketOf core = Function.update (w.fs.pocketOf core) toolId none
    | _ => w'.fs.pocketOf core = w.fs.pocketOf core
  else w'.fs.pocketOf core = w.fs.pocketOf core

/-- The command returns, and the table is as consistent as before. -/
def TcReturns (core : GrblCore) (w : TcWorld η) (call : Option CarouselCall)
    (result : Option (TcStatus × TcWorld η)) : Prop :=
  ∃ status w', result = some (status, w') ∧ w'.fs.Ready core ∧ TcDone core w call status w'

theorem refused_returns {w w' : TcWorld η} (ready : w.fs.Ready core) (call : Option CarouselCall)
    {status : TcStatus} (refused : status ≠ .ok) (same : w'.fs = w.fs) :
    TcReturns core w call (some (status, w')) := by
  refine ⟨status, w', rfl, same ▸ ready, ?_⟩
  unfold TcDone
  rw [if_neg refused, same]

theorem addTool_returns {w : TcWorld η} (ready : w.fs.Ready core) {now : TcSituation}
    (files : TcFiles now) {toolId : UInt32} {name : Option CString}
    (tame : WritesTame core w.fs (.add toolId.toInt32 now.pockets name)) :
    TcReturns core w (some (.add toolId.toInt32 now.pockets name))
      (w.addTool core now toolId name) := by
  unfold TcWorld.addTool
  split
  next => exact refused_returns ready _ (by decide) rfl
  split
  next => exact refused_returns ready _ (by decide) rfl
  rw [files.undo]
  obtain ⟨r, ran, ⟨refused, same⟩ | ⟨p, ok, assigned, within, none, unused, ready', pockets,
    tame'⟩⟩ := add_pockets ready files.files tame
  · rw [ran, Option.bind_some]
    dsimp only
    cases result : r.result with
    | ok => exact absurd result refused
    | _ => exact refused_returns ready _ (by decide) same
  · rw [ran, Option.bind_some]
    simp only [ok]
    split
    next =>
      refine ⟨_, _, rfl, ready', ?_⟩
      unfold TcDone
      rw [if_pos rfl]
      refine ⟨p, within, none, unused, pockets, ?_⟩
      have told : w.outputs ++ [.ngcParam 4900 toolId.toNat,
          .ngcParam 4901 (r.assigned.getD 0).toInt, .ngcParam 4905 1, .ngcParam 4906 0] ++
            [.keepout false] ++ [.enqueue (ascii "G65P391")] =
          w.outputs ++ [.ngcParam 4900 toolId.toNat, .ngcParam 4901 p.toInt,
            .ngcParam 4905 1, .ngcParam 4906 0, .keepout false, .enqueue (ascii "G65P391")] := by
        rw [assigned, List.append_assoc, List.append_assoc]
        rfl
      exact told
    next =>
      obtain ⟨undone, removed, ⟨-, -, gone⟩ | ⟨-, -, ready'', restored⟩⟩ :=
        remove_pockets ready' (tame'.remove toolId.toInt32)
      · rw [pockets, Function.update_self] at gone
        cases gone
      · refine ⟨_, _, congrArg (Option.map _) removed, ready'', ?_⟩
        unfold TcDone
        rw [if_neg (by decide)]
        refine restored.trans ?_
        rw [pockets, Function.update_idem, ← none, Function.update_eq_self]

theorem removeTool_returns {w : TcWorld η} (ready : w.fs.Ready core) {now : TcSituation}
    (files : TcFiles now) {toolId : UInt32}
    (tame : WritesTame core w.fs (.remove toolId.toInt32)) :
    TcReturns core w (some (.remove toolId.toInt32)) (w.removeTool core now toolId) := by
  rw [TcWorld.removeTool]
  obtain ⟨r, ran, outcome⟩ := remove_leaves ready files.files tame
  rw [ran, Option.map_some]
  rcases outcome with ⟨refused, same⟩ | ⟨ok, had, ready', pockets⟩
  · rw [if_neg refused]
    exact refused_returns ready _ (by decide) same
  · rw [if_pos ok]
    refine ⟨_, _, rfl, ready', ?_⟩
    unfold TcDone
    rw [if_pos rfl]
    exact ⟨had, pockets⟩

theorem carouselAdd_returns {w : TcWorld η} (ready : w.fs.Ready core) {now : TcSituation}
    (files : TcFiles now) {args : Option CString} {call : Option CarouselCall}
    (asks : TcCommand.call readUint now (.tcAdd args) = call)
    (tame : ∀ c, call = some c → WritesTame core w.fs c) :
    TcReturns core w call (w.carouselAdd core readUint now args) := by
  unfold TcCommand.call at asks
  dsimp only at asks
  unfold TcWorld.carouselAdd
  split
  next => exact refused_returns ready _ (by decide) rfl
  split
  next => exact refused_returns ready _ (by decide) rfl
  cases given : args.filter fun a => a.bytes ≠ [] with
  | none =>
    rw [given] at asks
    dsimp only at asks ⊢
    split
    next => exact refused_returns ready _ (by decide) rfl
    next =>
      subst asks
      have same := Int32.toInt32_toUInt32 now.tool.toolId
      have own : TcReturns core w (some (.add now.tool.toolId.toUInt32.toInt32 now.pockets none))
          (w.addTool core now now.tool.toolId.toUInt32 none) :=
        addTool_returns ready files (same.symm ▸ tame _ rfl)
      rwa [same] at own
  | some a =>
    rw [given] at asks
    dsimp only at asks ⊢
    cases named : namedTool readUint a with
    | none => exact refused_returns ready _ (by decide) rfl
    | some parsed =>
      cases parsed with
      | error code => exact refused_returns ready _ TcStatus.noConfusion rfl
      | ok tool =>
        rw [named] at asks
        subst asks
        exact addTool_returns ready files (tame _ rfl)

theorem carouselRemove_returns {w : TcWorld η} (ready : w.fs.Ready core) {now : TcSituation}
    (files : TcFiles now) {args : Option CString} {call : Option CarouselCall}
    (asks : TcCommand.call readUint now (.tcRm args) = call)
    (tame : ∀ c, call = some c → WritesTame core w.fs c) :
    TcReturns core w call (w.carouselRemove core readUint now args) := by
  unfold TcCommand.call at asks
  dsimp only at asks
  unfold TcWorld.carouselRemove
  split
  next => exact refused_returns ready _ (by decide) rfl
  cases given : args.filter fun a => a.bytes ≠ [] with
  | none =>
    rw [given] at asks
    dsimp only at asks ⊢
    split
    next => exact refused_returns ready _ (by decide) rfl
    next =>
      subst asks
      have same := Int32.toInt32_toUInt32 now.tool.toolId
      have own : TcReturns core w (some (.remove now.tool.toolId.toUInt32.toInt32))
          (w.removeTool core now now.tool.toolId.toUInt32) :=
        removeTool_returns ready files (same.symm ▸ tame _ rfl)
      rwa [same] at own
  | some a =>
    rw [given] at asks
    dsimp only at asks ⊢
    cases named : namedTool readUint a with
    | none => exact refused_returns ready _ (by decide) rfl
    | some parsed =>
      cases parsed with
      | error code => exact refused_returns ready _ TcStatus.noConfusion rfl
      | ok tool =>
        rw [named] at asks
        subst asks
        exact removeTool_returns ready files (tame _ rfl)

/-- A command that leaves the pockets as they were, whatever it returns. -/
theorem unmoved_returns {w w' : TcWorld η} (ready : w'.fs.Ready core) {call : Option CarouselCall}
    (measures : call = none ∨ ∃ data, call = some (.setTool data)) (status : TcStatus)
    (same : w'.fs.pocketOf core = w.fs.pocketOf core) :
    TcReturns core w call (some (status, w')) := by
  refine ⟨status, w', rfl, ready, ?_⟩
  unfold TcDone
  split
  next =>
    rcases measures with rfl | ⟨data, rfl⟩
    · exact same
    · exact same
  next => exact same

theorem startMeasure_fs (w : TcWorld η) (now : TcSituation) (failed : List UInt8) :
    (w.startMeasure now failed).2.fs = w.fs := by
  unfold TcWorld.startMeasure
  dsimp only
  split
  next => rfl
  next => rfl

theorem readyToMeasure_fs {w : TcWorld η} {now : TcSituation} {command : List UInt8}
    {r : TcStatus × TcWorld η} (refused : w.readyToMeasure now command = some r) : r.2.fs = w.fs := by
  unfold TcWorld.readyToMeasure at refused
  split at refused
  next => exact Option.some.inj refused ▸ rfl
  split at refused
  next => exact Option.some.inj refused ▸ rfl
  split at refused
  next => exact Option.some.inj refused ▸ rfl
  next => cases refused

theorem carouselMeasure_returns {w : TcWorld η} (ready : w.fs.Ready core) (now : TcSituation) :
    TcReturns core w none (some (w.carouselMeasure now)) := by
  have same : (w.carouselMeasure now).2.fs = w.fs := by
    unfold TcWorld.carouselMeasure
    cases asked : w.readyToMeasure now (ascii "TCMEASURE") with
    | none => exact startMeasure_fs _ _ _
    | some r => exact readyToMeasure_fs asked
  exact unmoved_returns (same.symm ▸ ready) (Or.inl rfl) _ (congrArg _ same)

theorem carouselRemeasure_returns {w : TcWorld η} (ready : w.fs.Ready core) {now : TcSituation}
    (files : TcFiles now)
    (tame : WritesTame core w.fs (.setTool { now.tool with offset := fun _ => 0 })) :
    TcReturns core w (some (.setTool { now.tool with offset := fun _ => 0 }))
      (w.carouselRemeasure core now) := by
  unfold TcWorld.carouselRemeasure
  cases asked : w.readyToMeasure now (ascii "TCREMEASURE") with
  | some r =>
    have same := readyToMeasure_fs asked
    exact unmoved_returns (same.symm ▸ ready) (Or.inr ⟨_, rfl⟩) _ (congrArg _ same)
  | none =>
    obtain ⟨set, written, kept, pockets⟩ := setTool_leaves ready files.files tame
    rw [written, Option.map_some]
    have same : (({ w with fs := set.2 } : TcWorld η).startMeasure now
        (ascii "TCREMEASURE: failed")).2.fs = set.2 := startMeasure_fs _ _ _
    exact unmoved_returns (same.symm ▸ kept) (Or.inr ⟨_, rfl⟩) _ ((congrArg _ same).trans pockets)

theorem execute_returns {w : TcWorld η} (ready : w.fs.Ready core) {i : TcCommand × TcSituation}
    (allowed : TcTame core readUint w i ∧ TcFiles i.2) :
    TcReturns core w (i.1.call readUint i.2) (w.execute core readUint i.2 i.1) := by
  obtain ⟨command, now⟩ := i
  obtain ⟨tame, files⟩ := allowed
  cases command with
  | tcAdd args => exact carouselAdd_returns ready files rfl tame
  | tcReturn =>
    have asks : TcCommand.call readUint now (.tcAdd none) =
        some (.add now.tool.toolId now.pockets none) := rfl
    exact carouselAdd_returns ready files asks tame
  | tcRm args => exact carouselRemove_returns ready files rfl tame
  | tcMeasure => exact carouselMeasure_returns ready now
  | tcRemeasure => exact carouselRemeasure_returns ready files (tame _ rfl)

def tcStep (core : GrblCore) (readUint : ReadUint) (w : TcWorld η) (i : TcCommand × TcSituation) :
    Except Unit (TcWorld η) :=
  orFault ((w.execute core readUint i.2 i.1).map Prod.snd)

/-- Whatever the command returns, it has done with the pockets what that says. -/
def TcHonest (core : GrblCore) (readUint : ReadUint) (w : TcWorld η)
    (i : TcCommand × TcSituation) : Prop :=
  ∀ status w', w.execute core readUint i.2 i.1 = some (status, w') →
    TcDone core w (i.1.call readUint i.2) status w'

theorem carousel_commands_honest {w : TcWorld η} {file : List UInt8} {tmp : Option (List UInt8)}
    {is : List (TcCommand × TcSituation)} (mounted : w.fs = some ⟨some file, tmp⟩)
    (start : Consistent (entries core file))
    (allowed : EachCall (tcStep core readUint)
      (fun w i => TcTame core readUint w i ∧ TcFiles i.2) w is) :
    (∃ w', run (tcStep core readUint) w is = .ok w') ∧
      EachState (tcStep core readUint) (fun w => TableConsistent core w.fs) w is ∧
      EachCall (tcStep core readUint) (TcHonest core readUint) w is := by
  have ready : w.fs.Ready core := ⟨file, tmp, mounted, start⟩
  have returns : ∀ (w : TcWorld η) i, w.fs.Ready core → TcTame core readUint w i ∧ TcFiles i.2 →
      ∃ w', tcStep core readUint w i = .ok w' ∧ w'.fs.Ready core := by
    intro w i ready allowed
    obtain ⟨status, w', ran, ready', -⟩ := execute_returns ready allowed
    refine ⟨w', ?_, ready'⟩
    rw [tcStep, ran]
    rfl
  have kept : ∀ (w : TcWorld η) i w', w.fs.Ready core → TcTame core readUint w i ∧ TcFiles i.2 →
      tcStep core readUint w i = .ok w' → w'.fs.Ready core := by
    intro w i w' ready allowed stepped
    obtain ⟨next, hnext, ready'⟩ := returns w i ready allowed
    cases Except.ok.inj (hnext.symm.trans stepped)
    exact ready'
  obtain ⟨w', ran, -⟩ := run_ok returns ready allowed
  refine ⟨⟨w', ran⟩, ?_, ?_⟩
  · exact (eachState_of_inv kept ready allowed).mono fun _ => ToolFs.Ready.consistent
  · refine (eachCall_iff kept (fun w i ready allowed => ?_) ready allowed).mpr
      (eachCall_all (fun _ _ => trivial) _ _)
    refine iff_of_true (fun status w' executed => ?_) trivial
    obtain ⟨status', next, ran, -, done⟩ := execute_returns ready allowed
    cases Option.some.inj (ran.symm.trans executed)
    exact done

end Commands

instance (p : ToolPocket) : Decidable (Tame p) :=
  decidable_of_iff (0 ≤ p.tool.toolId.toInt ∧ p.tool.toolId.toInt < 65536 ∧ p.Fits ∧
    newline ∉ p.name.bytes)
    ⟨fun h => ⟨h.1, h.2.1, h.2.2.1, h.2.2.2⟩, fun h => ⟨h.low, h.high, h.fits, h.nameLine⟩⟩

/-- The entries that a call writes. -/
def CarouselCall.writes (core : GrblCore) (call : CarouselCall) (old : List UInt8) :
    List ToolPocket :=
  ((call.update core (some ⟨some old, none⟩)).map (·.apply (entries core old))).getD []

theorem writesTame_of {call : CarouselCall} {old : List UInt8}
    (tame : ∀ p ∈ call.writes core old, Tame p) : WritesTame core (some ⟨some old, none⟩) call := by
  intro file u table updates p written
  cases Option.some.inj table
  unfold CarouselCall.writes at tame
  rw [updates] at tame
  exact tame p written

def atRest : TcSituation :=
  ⟨true, true, ⟨1, fun _ => 0, 0⟩, false, false, false, ⟨4, by decide⟩, true, .succeed, .succeed⟩

/-- The temporary file cannot be created. -/
def cardFull : TcSituation := { atRest with files := { Outcomes.succeed with openTarget := false } }

/-- Tool 1 is taken out of the carousel, is to be put back twice, and is measured again. -/
def tcRun : List (TcCommand × TcSituation) :=
  [(.tcRm none, atRest), (.tcAdd none, cardFull), (.tcAdd none, atRest), (.tcRemeasure, atRest)]

def tcStart : TcWorld Unit := ⟨some ⟨some (ascii "P1 T1\n"), none⟩, none, none, []⟩

def tcRemoved : TcWorld Unit :=
  { tcStart with
    fs := some ⟨some (ascii "P0 T1\n"), none⟩
    outputs := [.message (.info (ascii "Tool 1 removed from carousel"))] }

def tcFailed : TcWorld Unit := tcRemoved.warn (ascii "TCADD: failed to write tool table")

def tcAdded : TcWorld Unit :=
  { tcFailed.put [.ngcParam 4900 1, .ngcParam 4901 1, .ngcParam 4905 1, .ngcParam 4906 0,
      .keepout false, .enqueue (ascii "G65P391")] with
    fs := tcStart.fs
    onMacroReturn := some .macroExit }

abbrev noNumber : ReadUint := fun _ => .error 0

theorem tcRun_steps :
    tcStep decimalCore noNumber tcStart (.tcRm none, atRest) = .ok tcRemoved ∧
      tcStep decimalCore noNumber tcRemoved (.tcAdd none, cardFull) = .ok tcFailed ∧
      tcStep decimalCore noNumber tcFailed (.tcAdd none, atRest) = .ok tcAdded := by
  decide +kernel

theorem tcRun_writes : ∀ i ∈ tcRun, ∀ call ∈ i.1.call noNumber i.2,
    ∀ p ∈ call.writes decimalCore (ascii "P1 T1\n") ++ call.writes decimalCore (ascii "P0 T1\n"),
      Tame p := by
  decide +kernel

theorem tcRun_allowed {w : TcWorld Unit} {i : TcCommand × TcSituation} (inRun : i ∈ tcRun)
    (table : w.fs = some ⟨some (ascii "P1 T1\n"), none⟩ ∨
      w.fs = some ⟨some (ascii "P0 T1\n"), none⟩) :
    TcTame decimalCore noNumber w i ∧ TcFiles i.2 := by
  constructor
  · intro call asks
    have tame := tcRun_writes i inRun call asks
    rcases table with held | held
    · rw [held]
      exact writesTame_of fun p hp => tame p (List.mem_append_left _ hp)
    · rw [held]
      exact writesTame_of fun p hp => tame p (List.mem_append_right _ hp)
  · simp only [tcRun, List.mem_cons, List.not_mem_nil, or_false] at inRun
    rcases inRun with rfl | rfl | rfl | rfl
    · exact ⟨Or.inl rfl, rfl⟩
    · exact ⟨Or.inr ⟨rfl, rfl, Or.inr rfl⟩, rfl⟩
    · exact ⟨Or.inl rfl, rfl⟩
    · exact ⟨Or.inl rfl, rfl⟩

theorem carousel_commands_honest_remove :
    (∃ w', run (tcStep decimalCore noNumber) tcStart tcRun = .ok w') ∧
      EachState (tcStep decimalCore noNumber) (fun w => TableConsistent decimalCore w.fs) tcStart
        tcRun ∧
      EachCall (tcStep decimalCore noNumber) (TcHonest decimalCore noNumber) tcStart tcRun := by
  have held : entries decimalCore (ascii "P1 T1\n") = [⟨1, ⟨1, fun _ => 0, 0⟩, ⟨[], by decide⟩⟩] := by
    decide +kernel
  have start : Consistent (entries decimalCore (ascii "P1 T1\n")) := by
    rw [held]
    exact List.pairwise_singleton _ _
  obtain ⟨removes, fails, adds⟩ := tcRun_steps
  refine carousel_commands_honest rfl start ⟨tcRun_allowed (by simp [tcRun]) (Or.inl rfl),
    fun w h => ?_⟩
  cases Except.ok.inj (removes.symm.trans h)
  refine ⟨tcRun_allowed (by simp [tcRun]) (Or.inr rfl), fun w h => ?_⟩
  cases Except.ok.inj (fails.symm.trans h)
  refine ⟨tcRun_allowed (by simp [tcRun]) (Or.inr rfl), fun w h => ?_⟩
  cases Except.ok.inj (adds.symm.trans h)
  exact ⟨tcRun_allowed (by simp [tcRun]) (Or.inl rfl), fun _ _ => trivial⟩

end GrblhalSim
