import GrblhalSim.CallRun
import GrblhalSim.ToolAtomic
import GrblhalSim.ToolReread
import Mathlib.Data.List.Pairwise

namespace GrblhalSim

open CallRun

variable {core : GrblCore}

inductive CarouselCall
  | register (toolId : Int32) (name : Option CString)
  | add (toolId : Int32) (limit : PocketLimit) (name : Option CString)
  | remove (toolId : Int32)
  | delete (toolId : Int32)
  | setTool (data : ToolData)
  | clearTools

/-- The call with its results; for those that return a `bool`, false is a write error. -/
def CarouselCall.run (core : GrblCore) (fs : ToolFs) : CarouselCall → Option CarouselReturn
  | .register toolId name => tooltableRegisterTool core .succeed toolId name fs
  | .add toolId limit name => tooltableCarouselAdd core .succeed toolId limit name fs
  | .remove toolId => tooltableCarouselRemove core .succeed toolId fs
  | .delete toolId => tooltableDelete core .succeed toolId fs
  | .setTool data => carouselReturn none (setToolNow core .succeed data fs)
  | .clearTools => carouselReturn none (GrblhalSim.clearTools core .succeed fs)

def carouselStep (core : GrblCore) (fs : ToolFs) (call : CarouselCall) : Except Unit ToolFs :=
  orFault ((call.run core fs).map CarouselReturn.fs)

/-- Two entries with different tools, and not in the same pocket. -/
def Apart (a b : ToolPocket) : Prop :=
  a.tool.toolId ≠ b.tool.toolId ∧ (1 ≤ a.pocketId → a.pocketId ≠ b.pocketId)

def Consistent (es : List ToolPocket) : Prop := es.Pairwise Apart

def TableConsistent (core : GrblCore) (fs : ToolFs) : Prop :=
  ∀ file, fs.table = some file → Consistent (entries core file)

/-- What a call that returns `CarouselOp_OK` says about its tool. -/
def Announced (core : GrblCore) (fs : ToolFs) (call : CarouselCall) (r : CarouselReturn) : Prop :=
  match call with
  | .register toolId _ => ∃ e, findTool core toolId r.fs = some e ∧
      match findTool core toolId fs with
      | none => ¬ 1 ≤ e.pocketId
      | some existing => e.pocketId = existing.pocketId ∨ ¬ 1 ≤ e.pocketId ∧ ¬ 1 ≤ existing.pocketId
  | .add toolId _ _ => ∃ e p, findTool core toolId r.fs = some e ∧ r.assigned = some p ∧
      e.pocketId = p ∧ 1 ≤ p
  | .remove toolId => ∃ e, findTool core toolId r.fs = some e ∧ ¬ 1 ≤ e.pocketId
  | .delete toolId => findTool core toolId r.fs = none
  | .setTool _ => True
  | .clearTools => True

def KeepsPromise (core : GrblCore) (fs : ToolFs) (call : CarouselCall) : Prop :=
  ∀ r, call.run core fs = some r → r.result = .ok → Announced core fs call r

/-- The update of the table that the call makes, if it makes one. -/
def CarouselCall.update (core : GrblCore) (fs : ToolFs) : CarouselCall → Option TableUpdate
  | .register toolId name =>
    match findTool core toolId fs with
    | some existing =>
      if hasName name then
        some (.rewrite [⟨toolId, existing.pocketId, shortName core name, false⟩])
      else none
    | none => some (.append ⟨0, ⟨toolId, fun _ => 0, 0⟩, shortName core name⟩)
  | .add toolId limit name =>
    let found := findTool core toolId fs
    let freePocket := fileFindFreePocket core .succeed limit fs
    if found.any fun existing => 1 ≤ existing.pocketId then none
    else if freePocket < 0 then none
    else if found.isSome then some (.rewrite [⟨toolId, freePocket, shortName core name, false⟩])
    else some (.append ⟨freePocket, ⟨toolId, fun _ => 0, 0⟩, shortName core name⟩)
  | .remove toolId =>
    if (findTool core toolId fs).any fun existing => 1 ≤ existing.pocketId then
      some (.rewrite [⟨toolId, 0, shortName core none, false⟩])
    else none
  | .delete toolId =>
    if (findTool core toolId fs).any fun existing => existing.pocketId < 1 then
      some (.rewrite [⟨toolId, 0, shortName core none, true⟩])
    else none
  | .setTool data => if data.toolId ≤ 0 then none else some (.setData data)
  | .clearTools => some .clear

/-- Every entry that the call writes is tame. -/
def WritesTame (core : GrblCore) (fs : ToolFs) (call : CarouselCall) : Prop :=
  ∀ file u, fs.table = some file → call.update core fs = some u →
    ∀ p ∈ u.apply (entries core file), Tame p

theorem Apart.symm {a b : ToolPocket} (h : Apart a b) : Apart b a :=
  ⟨fun same => h.1 same.symm, fun pocket same => h.2 (same ▸ pocket) same.symm⟩

instance : Std.Symm Apart := ⟨fun _ _ => Apart.symm⟩

theorem Consistent.reread {ps : List ToolPocket} (h : Consistent ps) (tame : ∀ p ∈ ps, Tame p) :
    Consistent (ps.map (·.reread core)) := by
  rw [Consistent, List.pairwise_map]
  refine List.Pairwise.imp_of_mem (fun {a b} ha hb apart => ?_) h
  refine ⟨?_, fun pocket same => ?_⟩
  · rw [(tame a ha).reread_toolId, (tame b hb).reread_toolId]
    exact apart.1
  · have low := (reread_pocket_iff a).mp pocket
    have other := (reread_pocket_iff b).mp (same ▸ pocket)
    rw [reread_pocketId, reread_pocketId, if_pos low, if_pos other] at same
    exact apart.2 low same

/-- The pocket that a call assigns if it is the one to assign it. -/
def CarouselCall.assigned (core : GrblCore) (fs : ToolFs) : CarouselCall → Option Int16
  | .add _ limit _ => some (fileFindFreePocket core .succeed limit fs)
  | _ => none

theorem update_returns {old : List UInt8} {tmp : Option (List UInt8)} {u : TableUpdate}
    (fits : ∀ p ∈ u.apply (entries core old), p.Fits) (assigned : Option Int16) :
    carouselReturn assigned (u.run core .succeed (some ⟨some old, tmp⟩)) =
      some ⟨.ok, assigned, some ⟨some (tableText (u.apply (entries core old))), none⟩⟩ := by
  rw [u.run_mounted, rewriteTable_succeed rfl fits]
  rfl

/-- The updates that a call can make, each with what the table says before it. -/
inductive CarouselCall.Makes (core : GrblCore) (fs : ToolFs) : CarouselCall → TableUpdate → Prop
  | rename {toolId : Int32} {name : Option CString} {existing : ToolPocket}
      (found : findTool core toolId fs = some existing) :
      Makes core fs (.register toolId name)
        (.rewrite [⟨toolId, existing.pocketId, shortName core name, false⟩])
  | register {toolId : Int32} {name : Option CString} (missing : findTool core toolId fs = none) :
      Makes core fs (.register toolId name)
        (.append ⟨0, ⟨toolId, fun _ => 0, 0⟩, shortName core name⟩)
  | place {toolId : Int32} {limit : PocketLimit} {name : Option CString} {existing : ToolPocket}
      (found : findTool core toolId fs = some existing)
      (room : ¬ fileFindFreePocket core .succeed limit fs < 0) :
      Makes core fs (.add toolId limit name)
        (.rewrite [⟨toolId, fileFindFreePocket core .succeed limit fs, shortName core name, false⟩])
  | placeNew {toolId : Int32} {limit : PocketLimit} {name : Option CString}
      (missing : findTool core toolId fs = none)
      (room : ¬ fileFindFreePocket core .succeed limit fs < 0) :
      Makes core fs (.add toolId limit name)
        (.append ⟨fileFindFreePocket core .succeed limit fs, ⟨toolId, fun _ => 0, 0⟩,
          shortName core name⟩)
  | remove {toolId : Int32} {existing : ToolPocket}
      (found : findTool core toolId fs = some existing) :
      Makes core fs (.remove toolId) (.rewrite [⟨toolId, 0, shortName core none, false⟩])
  | delete {toolId : Int32} :
      Makes core fs (.delete toolId) (.rewrite [⟨toolId, 0, shortName core none, true⟩])
  | setTool {data : ToolData} : Makes core fs (.setTool data) (.setData data)
  | clearTools : Makes core fs .clearTools .clear

/-- A call makes an update and returns what comes of it, or it refuses and leaves the files. -/
def UpdatesOrRefuses (core : GrblCore) (files : ToolFiles) (call : CarouselCall) : Prop :=
  (∃ u, call.update core (some files) = some u ∧ call.Makes core (some files) u ∧
    call.run core (some files) =
      carouselReturn (call.assigned core (some files)) (u.run core .succeed (some files))) ∨
  (call.update core (some files) = none ∧
    ∃ result ≠ .ok, call.run core (some files) = some ⟨result, none, some files⟩)

theorem register_cases (toolId : Int32) (name : Option CString) (files : ToolFiles) :
    UpdatesOrRefuses core files (.register toolId name) := by
  have mounted : (some files).isNone = false := rfl
  cases found : findTool core toolId (some files) with
  | none =>
    refine Or.inl ⟨_, ?_, .register found, ?_⟩
    · simp only [CarouselCall.update, found]
    · simp only [CarouselCall.run, tooltableRegisterTool, mounted, found]
      rfl
  | some existing =>
    cases named : hasName name with
    | true =>
      refine Or.inl ⟨_, ?_, .rename found, ?_⟩
      · simp only [CarouselCall.update, found, named, if_true]
      · simp only [CarouselCall.run, tooltableRegisterTool, mounted, found, named]
        rfl
    | false =>
      refine Or.inr ⟨?_, .alreadyRegistered, by decide, ?_⟩
      · simp only [CarouselCall.update, found, named, Bool.false_eq_true, if_false]
      · simp only [CarouselCall.run, tooltableRegisterTool, mounted, found, named]
        rfl

theorem add_cases (toolId : Int32) (limit : PocketLimit) (name : Option CString)
    (files : ToolFiles) : UpdatesOrRefuses core files (.add toolId limit name) := by
  have mounted : (some files).isNone = false := rfl
  by_cases inPocket :
      (findTool core toolId (some files)).any fun existing => 1 ≤ existing.pocketId
  · refine Or.inr ⟨if_pos inPocket, .toolAlreadyInPocket, by decide, ?_⟩
    simp only [CarouselCall.run, tooltableCarouselAdd, mounted, inPocket]
    rfl
  · by_cases full : fileFindFreePocket core .succeed limit (some files) < 0
    · refine Or.inr ⟨(if_neg inPocket).trans (if_pos full), .noPocketAvailable, by decide, ?_⟩
      simp only [CarouselCall.run, tooltableCarouselAdd, mounted, inPocket, full]
      rfl
    · have start : (CarouselCall.add toolId limit name).update core (some files) = _ :=
        (if_neg inPocket).trans (if_neg full)
      cases found : findTool core toolId (some files) with
      | none =>
        rw [found] at start
        refine Or.inl ⟨_, start, .placeNew found full, ?_⟩
        simp only [CarouselCall.run, tooltableCarouselAdd, mounted, found, full]
        rfl
      | some existing =>
        rw [found] at start inPocket
        refine Or.inl ⟨_, start, .place found full, ?_⟩
        simp only [CarouselCall.run, tooltableCarouselAdd, mounted, found, inPocket, full]
        rfl

theorem remove_cases (toolId : Int32) (files : ToolFiles) :
    UpdatesOrRefuses core files (.remove toolId) := by
  have mounted : (some files).isNone = false := rfl
  cases found : findTool core toolId (some files) with
  | none =>
    refine Or.inr ⟨?_, .toolNotFound, by decide, ?_⟩
    · simp only [CarouselCall.update, found]
      rfl
    · simp only [CarouselCall.run, tooltableCarouselRemove, mounted, found]
      rfl
  | some existing =>
    by_cases outside : existing.pocketId < 1
    · have none : ¬ 1 ≤ existing.pocketId := Int16.not_le.mpr outside
      refine Or.inr ⟨?_, .toolNotFound, by decide, ?_⟩
      · simp only [CarouselCall.update, found, Option.any_some, decide_eq_true_eq, if_neg none]
      · simp only [CarouselCall.run, tooltableCarouselRemove, mounted, found, if_pos outside]
        rfl
    · have pocket : 1 ≤ existing.pocketId := Int16.not_lt.mp outside
      refine Or.inl ⟨_, ?_, .remove found, ?_⟩
      · simp only [CarouselCall.update, found, Option.any_some, decide_eq_true_eq, if_pos pocket]
      · simp only [CarouselCall.run, tooltableCarouselRemove, mounted, found, if_neg outside]
        rfl

theorem delete_cases (toolId : Int32) (files : ToolFiles) :
    UpdatesOrRefuses core files (.delete toolId) := by
  have mounted : (some files).isNone = false := rfl
  cases found : findTool core toolId (some files) with
  | none =>
    refine Or.inr ⟨?_, .toolNotFound, by decide, ?_⟩
    · simp only [CarouselCall.update, found]
      rfl
    · simp only [CarouselCall.run, tooltableDelete, mounted, found]
      rfl
  | some existing =>
    by_cases pocket : 1 ≤ existing.pocketId
    · have inside : ¬ existing.pocketId < 1 := Int16.not_lt.mpr pocket
      refine Or.inr ⟨?_, .toolAlreadyInPocket, by decide, ?_⟩
      · simp only [CarouselCall.update, found, Option.any_some, decide_eq_true_eq, if_neg inside]
      · simp only [CarouselCall.run, tooltableDelete, mounted, found, if_pos pocket]
        rfl
    · have outside : existing.pocketId < 1 := Int16.not_le.mp pocket
      refine Or.inl ⟨_, ?_, .delete, ?_⟩
      · simp only [CarouselCall.update, found, Option.any_some, decide_eq_true_eq, if_pos outside]
      · simp only [CarouselCall.run, tooltableDelete, mounted, found, if_neg pocket]
        rfl

theorem setTool_cases (data : ToolData) (files : ToolFiles) :
    UpdatesOrRefuses core files (.setTool data) := by
  by_cases refused : data.toolId ≤ 0
  · refine Or.inr ⟨if_pos refused, .writeError, by decide, ?_⟩
    rw [CarouselCall.run, setToolNow, if_pos refused]
    rfl
  · refine Or.inl ⟨_, if_neg refused, .setTool, ?_⟩
    rw [CarouselCall.run, setToolNow, if_neg refused]
    rfl

theorem run_cases (core : GrblCore) (files : ToolFiles) (call : CarouselCall) :
    UpdatesOrRefuses core files call := by
  cases call with
  | register toolId name => exact register_cases toolId name files
  | add toolId limit name => exact add_cases toolId limit name files
  | remove toolId => exact remove_cases toolId files
  | delete toolId => exact delete_cases toolId files
  | setTool data => exact setTool_cases data files
  | clearTools => exact Or.inl ⟨_, rfl, .clearTools, rfl⟩

theorem Consistent.map {es : List ToolPocket} (h : Consistent es) {f : ToolPocket → ToolPocket}
    (ids : ∀ e, (f e).tool.toolId = e.tool.toolId) (pockets : ∀ e, (f e).pocketId = e.pocketId) :
    Consistent (es.map f) := by
  rw [Consistent, List.pairwise_map]
  refine List.Pairwise.imp (fun {a b} apart => ?_) h
  rw [Apart, ids, ids, pockets, pockets]
  exact apart

theorem Consistent.append {es : List ToolPocket} (h : Consistent es) {p : ToolPocket}
    (fresh : ∀ e ∈ es, e.tool.toolId ≠ p.tool.toolId)
    (free : 1 ≤ p.pocketId → ∀ e ∈ es, e.pocketId ≠ p.pocketId) : Consistent (es ++ [p]) := by
  refine List.pairwise_append.mpr ⟨h, List.pairwise_singleton _ _, fun a ha b hb => ?_⟩
  cases List.mem_singleton.mp hb
  refine ⟨fresh a ha, fun pocket same => ?_⟩
  exact free (same ▸ pocket) a ha same

theorem Consistent.pocket_ne {es : List ToolPocket} (h : Consistent es) {a b : ToolPocket}
    (ha : a ∈ es) (hb : b ∈ es) (ids : a.tool.toolId ≠ b.tool.toolId) (pocket : 1 ≤ a.pocketId) :
    a.pocketId ≠ b.pocketId := by
  have different : a ≠ b := fun same => ids (congrArg (fun e => e.tool.toolId) same)
  exact (List.Pairwise.forall h ha hb different).2 pocket

theorem applyOverrides_single (ov : PocketOverride) (e : ToolPocket) :
    applyOverrides [ov] e =
      if e.tool.toolId = ov.toolId then
        if ov.deleteEntry then none
        else some { e with
          pocketId := ov.newPocketId
          name := if ov.name.bytes ≠ [] then ov.name else e.name }
      else some e := by
  unfold applyOverrides
  by_cases same : e.tool.toolId = ov.toolId
  · simp [same]
  · simp [same]

/-- What an override leaves of an entry: the entry itself, or its own one in the new pocket. -/
theorem override_cases {ov : PocketOverride} {e e' : ToolPocket}
    (h : e' ∈ applyOverrides [ov] e) :
    e' = e ∧ e.tool.toolId ≠ ov.toolId ∨
      e.tool.toolId = ov.toolId ∧ e'.tool = e.tool ∧ e'.pocketId = ov.newPocketId ∧
        ov.deleteEntry = false := by
  rw [applyOverrides_single] at h
  split at h
  next same =>
    split at h
    next => cases h
    next kept =>
      cases Option.some.inj h
      exact Or.inr ⟨same, rfl, rfl, by simpa using kept⟩
  next other =>
    cases Option.some.inj h
    exact Or.inl ⟨rfl, other⟩

theorem Consistent.override {es : List ToolPocket} (h : Consistent es) {ov : PocketOverride}
    (free : ov.deleteEntry = false → 1 ≤ ov.newPocketId →
      ∀ e ∈ es, e.tool.toolId ≠ ov.toolId → e.pocketId ≠ ov.newPocketId) :
    Consistent (es.filterMap (applyOverrides [ov])) := by
  have withMem := List.Pairwise.and_mem.mp h
  refine List.Pairwise.filterMap _ (fun a b each a' ha b' hb => ?_) withMem
  obtain ⟨memA, memB, apart⟩ := each
  rcases override_cases ha with ⟨rfl, otherA⟩ | ⟨sameA, toolA, pocketA, kept⟩
  · rcases override_cases hb with ⟨rfl, _⟩ | ⟨_, toolB, pocketB, kept⟩
    · exact apart
    · rw [Apart, toolB, pocketB]
      exact ⟨apart.1, fun pocket same => free kept (same ▸ pocket) a' memA otherA same⟩
  · rcases override_cases hb with ⟨rfl, otherB⟩ | ⟨sameB, _⟩
    · rw [Apart, toolA, pocketA]
      exact ⟨apart.1, fun pocket same => free kept pocket b' memB otherB same.symm⟩
    · exact absurd (sameA.trans sameB.symm) apart.1

theorem find_override {es : List ToolPocket} (ov : PocketOverride) (kept : ov.deleteEntry = false)
    {existing : ToolPocket} (found : es.find? (fun e => e.tool.toolId = ov.toolId) = some existing) :
    ∃ e, (es.filterMap (applyOverrides [ov])).find? (fun e => e.tool.toolId = ov.toolId) = some e ∧
      e.pocketId = ov.newPocketId := by
  induction es with
  | nil => cases found
  | cons first es ih =>
    rw [List.filterMap_cons, applyOverrides_single]
    by_cases same : first.tool.toolId = ov.toolId
    · simp [same, kept]
    · rw [if_neg same, List.find?_cons_of_neg (by simpa using same)]
      rw [List.find?_cons_of_neg (by simpa using same)] at found
      exact ih found

theorem markPocket_iff {limit : PocketLimit} (inUse : Fin (limit.pockets.toNat + 1) → Bool)
    (e : ToolPocket) (i : Fin (limit.pockets.toNat + 1)) :
    markPocket limit inUse e i = true ↔ inUse i = true ∨
      (1 ≤ e.pocketId ∧ e.pocketId ≤ limit.pockets.toInt16) ∧ e.pocketId.toInt.toNat = i := by
  unfold markPocket
  by_cases inside : 1 ≤ e.pocketId ∧ e.pocketId ≤ limit.pockets.toInt16
  · rw [dif_pos inside, Function.update_apply]
    by_cases here : i = ⟨e.pocketId.toInt.toNat, pocket_inside inside.2⟩
    · rw [if_pos here]
      exact iff_of_true rfl (Or.inr ⟨inside, (congrArg Fin.val here).symm⟩)
    · rw [if_neg here]
      exact ⟨Or.inl, fun h => h.resolve_right fun at_i => here (Fin.ext at_i.2.symm)⟩
  · rw [dif_neg inside]
    exact ⟨Or.inl, fun h => h.resolve_right fun at_i => inside at_i.1⟩

theorem pocketsInUse_iff (limit : PocketLimit) (es : List ToolPocket)
    (i : Fin (limit.pockets.toNat + 1)) :
    pocketsInUse limit es i = true ↔ ∃ e ∈ es,
      (1 ≤ e.pocketId ∧ e.pocketId ≤ limit.pockets.toInt16) ∧ e.pocketId.toInt.toNat = i := by
  have marks : ∀ start : Fin (limit.pockets.toNat + 1) → Bool,
      es.foldl (markPocket limit) start i = true ↔ start i = true ∨ ∃ e ∈ es,
        (1 ≤ e.pocketId ∧ e.pocketId ≤ limit.pockets.toInt16) ∧ e.pocketId.toInt.toNat = i := by
    induction es with
    | nil => simp
    | cons first es ih =>
      intro start
      rw [List.foldl_cons, ih, markPocket_iff, or_assoc]
      simp only [List.mem_cons, exists_eq_or_imp]
  exact (marks _).trans (or_iff_right (by decide))

/-- A pocket that is found is a pocket, and no entry of the table is in it. -/
theorem freePocket_search (limit : PocketLimit) (old : List UInt8) (tmp : Option (List UInt8)) :
    fileFindFreePocket core .succeed limit (some ⟨some old, tmp⟩) =
      if limit.pockets = 0 then -1
      else
        (((List.finRange limit.pockets.toNat).find? fun n =>
          !pocketsInUse limit (entries core old) n.succ).map fun n =>
            Int16.ofNat (n.val + 1)).getD (-1) := by
  have opened : (if Outcomes.succeed.openFree
      then ((ToolFs.table (some ⟨some old, tmp⟩)).map (entries core)).getD [] else []) =
      entries core old := rfl
  rw [fileFindFreePocket, opened]
  refine ite_congr rfl (fun _ => rfl) fun _ => ?_
  dsimp only
  cases (List.finRange limit.pockets.toNat).find? fun n =>
    !pocketsInUse limit (entries core old) n.succ <;> rfl

theorem freePocket_free {limit : PocketLimit} {old : List UInt8} {tmp : Option (List UInt8)}
    (found : ¬ fileFindFreePocket core .succeed limit (some ⟨some old, tmp⟩) < 0) :
    1 ≤ fileFindFreePocket core .succeed limit (some ⟨some old, tmp⟩) ∧
      ∀ e ∈ entries core old,
        e.pocketId ≠ fileFindFreePocket core .succeed limit (some ⟨some old, tmp⟩) := by
  have small := limit.atMost
  rw [freePocket_search] at found ⊢
  split at found
  next => exact absurd (show (-1 : Int16) < 0 by decide) found
  next some =>
    rw [if_neg some]
    cases first : (List.finRange limit.pockets.toNat).find? fun n =>
        !pocketsInUse limit (entries core old) n.succ with
    | none =>
      rw [first] at found
      exact absurd (show (-1 : Int16) < 0 by decide) found
    | some n =>
      have value : (Int16.ofNat (n.val + 1)).toInt = n.val + 1 := by
        have := n.isLt
        rw [Int16.toInt_ofNat_of_lt (by omega)]
        rfl
      rw [Option.map_some, Option.getD_some]
      refine ⟨?_, fun e he same => ?_⟩
      · rw [Int16.le_iff_toInt_le, value]
        exact Int.le_add_of_nonneg_left (Int.natCast_nonneg _)
      · have unused : pocketsInUse limit (entries core old) n.succ = false := by
          simpa using List.find?_some first
        have at_n : e.pocketId.toInt = n.val + 1 := same ▸ value
        have inUse := (pocketsInUse_iff limit (entries core old) n.succ).mpr ⟨e, he, ⟨?_, ?_⟩, ?_⟩
        · rw [unused] at inUse
          cases inUse
        · rw [Int16.le_iff_toInt_le, at_n]
          exact Int.le_add_of_nonneg_left (Int.natCast_nonneg _)
        · rw [Int16.le_iff_toInt_le, at_n, limit_toInt16]
          have := n.isLt
          omega
        · rw [at_n, Fin.val_succ]
          omega

theorem toolId_of_find {es : List ToolPocket} {toolId : Int32} {e : ToolPocket}
    (h : es.find? (fun e => e.tool.toolId = toolId) = some e) :
    e ∈ es ∧ e.tool.toolId = toolId :=
  ⟨List.mem_of_find?_eq_some h, by simpa using List.find?_some h⟩

theorem toolId_ne_of_find {es : List ToolPocket} {toolId : Int32}
    (h : es.find? (fun e => e.tool.toolId = toolId) = none) : ∀ e ∈ es, e.tool.toolId ≠ toolId :=
  fun e he => by simpa using List.find?_eq_none.mp h e he

/-- The update of a consistent table leaves consistent entries. -/
theorem update_consistent {old : List UInt8} {tmp : Option (List UInt8)} {call : CarouselCall}
    {u : TableUpdate} (h : Consistent (entries core old))
    (makes : call.Makes core (some ⟨some old, tmp⟩) u) :
    Consistent (u.apply (entries core old)) := by
  have noPocket : ¬ (1 : Int16) ≤ 0 := by decide
  cases makes with
  | rename found =>
    obtain ⟨mem, same⟩ := toolId_of_find found
    refine h.override fun _ pocket e he other => ?_
    exact (h.pocket_ne mem he (fun eq => other (eq ▸ same)) pocket).symm
  | register missing =>
    exact h.append (toolId_ne_of_find missing) fun pocket => absurd pocket noPocket
  | place _ room => exact h.override fun _ _ e he _ => (freePocket_free room).2 e he
  | placeNew missing room =>
    exact h.append (toolId_ne_of_find missing) fun _ => (freePocket_free room).2
  | remove => exact h.override fun _ pocket => absurd pocket noPocket
  | delete => exact h.override fun kept => by cases kept
  | setTool => exact h.map (fun e => (e.setData_toolId _).1) fun e => (e.setData_toolId _).2
  | clearTools => exact h.map (fun _ => rfl) fun _ => rfl

/-- The tool of an override is found with the new pocket. -/
theorem findTool_override {old : List UInt8} {tmp : Option (List UInt8)} {ov : PocketOverride}
    (kept : ov.deleteEntry = false) {existing : ToolPocket}
    (found : findTool core ov.toolId (some ⟨some old, tmp⟩) = some existing)
    (tame : ∀ p ∈ (entries core old).filterMap (applyOverrides [ov]), Tame p) :
    ∃ e, findTool core ov.toolId
        (some ⟨some (tableText ((entries core old).filterMap (applyOverrides [ov]))), none⟩) =
          some e ∧ e.pocketId = if 1 ≤ ov.newPocketId then ov.newPocketId else -1 := by
  obtain ⟨e, now, pocket⟩ := find_override ov kept found
  refine ⟨e.reread core, ?_, ?_⟩
  · rw [findTool_tableText tame, now]
    rfl
  · rw [reread_pocketId, pocket]

theorem findTool_deleted {old : List UInt8} {ov : PocketOverride} (deleted : ov.deleteEntry = true)
    (tame : ∀ p ∈ (entries core old).filterMap (applyOverrides [ov]), Tame p) :
    findTool core ov.toolId
      (some ⟨some (tableText ((entries core old).filterMap (applyOverrides [ov]))), none⟩) =
        none := by
  rw [findTool_tableText tame]
  refine Option.map_eq_none_iff.mpr (List.find?_eq_none.mpr fun e he => ?_)
  obtain ⟨first, _, kept⟩ := List.mem_filterMap.mp he
  rcases override_cases kept with ⟨rfl, other⟩ | ⟨_, _, _, undeleted⟩
  · simpa using other
  · rw [deleted] at undeleted
    cases undeleted

/-- After a tame update the tool of the call is found as the call announces. -/
theorem update_announced {old : List UInt8} {tmp : Option (List UInt8)} {call : CarouselCall}
    {u : TableUpdate} (makes : call.Makes core (some ⟨some old, tmp⟩) u)
    (tame : ∀ p ∈ u.apply (entries core old), Tame p) :
    Announced core (some ⟨some old, tmp⟩) call
      ⟨.ok, call.assigned core (some ⟨some old, tmp⟩),
        some ⟨some (tableText (u.apply (entries core old))), none⟩⟩ := by
  have noPocket : ¬ (1 : Int16) ≤ 0 ∧ ¬ (1 : Int16) ≤ -1 := by decide
  cases makes with
  | @rename _ _ existing found =>
    obtain ⟨e, now, pocket⟩ := findTool_override rfl found tame
    refine ⟨e, now, ?_⟩
    rw [found, pocket]
    by_cases inPocket : 1 ≤ existing.pocketId
    · exact Or.inl (if_pos inPocket)
    · rw [if_neg inPocket]
      exact Or.inr ⟨noPocket.2, inPocket⟩
  | register missing =>
    refine ⟨_, findTool_append tame missing, ?_⟩
    rw [missing]
    exact fun pocket => noPocket.1 ((reread_pocket_iff _).mp pocket)
  | place found room =>
    have low := (freePocket_free room).1
    obtain ⟨e, now, pocket⟩ := findTool_override rfl found tame
    exact ⟨e, _, now, rfl, pocket.trans (if_pos low), low⟩
  | placeNew missing room =>
    have low := (freePocket_free room).1
    exact ⟨_, _, findTool_append tame missing, rfl, if_pos low, low⟩
  | remove found =>
    obtain ⟨e, now, pocket⟩ := findTool_override rfl found tame
    refine ⟨e, now, ?_⟩
    rw [pocket, if_neg noPocket.1]
    exact noPocket.2
  | delete => exact findTool_deleted rfl tame
  | setTool => trivial
  | clearTools => trivial

/-- The table is there and consistent. -/
def ToolFs.Ready (core : GrblCore) (fs : ToolFs) : Prop :=
  ∃ old tmp, fs = some ⟨some old, tmp⟩ ∧ Consistent (entries core old)

theorem carouselStep_ready {fs : ToolFs} {call : CarouselCall} (ready : fs.Ready core)
    (tame : WritesTame core fs call) :
    (∃ fs', carouselStep core fs call = .ok fs' ∧ fs'.Ready core) ∧ KeepsPromise core fs call := by
  obtain ⟨old, tmp, rfl, consistent⟩ := ready
  rcases run_cases core ⟨some old, tmp⟩ call with
    ⟨u, updates, makes, ran⟩ | ⟨_, result, refused, ran⟩
  · have written := tame old u rfl updates
    have returned := ran.trans (update_returns (fun p hp => (written p hp).fits) _)
    refine ⟨⟨_, by rw [carouselStep, returned]; rfl, _, none, rfl, ?_⟩, fun r ran' _ => ?_⟩
    · rw [entries_tableText written]
      exact (update_consistent consistent makes).reread written
    · cases Option.some.inj (returned.symm.trans ran')
      exact update_announced makes written
  · refine ⟨⟨_, by rw [carouselStep, ran]; rfl, old, tmp, rfl, consistent⟩, fun r ran' done => ?_⟩
    cases Option.some.inj (ran.symm.trans ran')
    exact absurd done refused

theorem ToolFs.Ready.consistent {fs : ToolFs} (ready : fs.Ready core) : TableConsistent core fs := by
  obtain ⟨old, tmp, rfl, consistent⟩ := ready
  intro file same
  cases Option.some.inj same
  exact consistent

/-- From a consistent table, a run in which every entry that is written is tame goes through, keeps
the table consistent in every state, and every call that reports success keeps its promise. -/
theorem carousel_runs_consistent {file : List UInt8} {tmp : Option (List UInt8)}
    {calls : List CarouselCall} (start : Consistent (entries core file))
    (tame : EachCall (carouselStep core) (WritesTame core) (some ⟨some file, tmp⟩) calls) :
    (∃ fs, run (carouselStep core) (some ⟨some file, tmp⟩) calls = .ok fs) ∧
      EachState (carouselStep core) (TableConsistent core) (some ⟨some file, tmp⟩) calls ∧
      EachCall (carouselStep core) (KeepsPromise core) (some ⟨some file, tmp⟩) calls := by
  have ready : ToolFs.Ready core (some ⟨some file, tmp⟩) := ⟨file, tmp, rfl, start⟩
  have kept : ∀ fs call fs', ToolFs.Ready core fs → WritesTame core fs call →
      carouselStep core fs call = .ok fs' → ToolFs.Ready core fs' := by
    intro fs call fs' ready tame stepped
    obtain ⟨⟨next, hnext, ready'⟩, _⟩ := carouselStep_ready ready tame
    cases Except.ok.inj (hnext.symm.trans stepped)
    exact ready'
  obtain ⟨fs, ran, _⟩ := run_ok (fun fs call ready tame => (carouselStep_ready ready tame).1)
    ready tame
  refine ⟨⟨fs, ran⟩, ?_, ?_⟩
  · exact (eachState_of_inv kept ready tame).mono fun _ => ToolFs.Ready.consistent
  · refine (eachCall_iff kept (fun fs call ready tame => ?_) ready tame).mpr
      (eachCall_all (fun _ _ => trivial) _ _)
    exact iff_of_true (carouselStep_ready ready tame).2 trivial

def oneTool : List UInt8 := ascii "T1\n"

theorem carousel_runs_consistent_add :
    (∃ fs, run (carouselStep decimalCore) (some ⟨some oneTool, none⟩)
        [.add 1 ⟨4, by decide⟩ none] = .ok fs) ∧
      EachState (carouselStep decimalCore) (TableConsistent decimalCore)
        (some ⟨some oneTool, none⟩) [.add 1 ⟨4, by decide⟩ none] ∧
      EachCall (carouselStep decimalCore) (KeepsPromise decimalCore)
        (some ⟨some oneTool, none⟩) [.add 1 ⟨4, by decide⟩ none] := by
  have held : entries decimalCore oneTool = [⟨-1, ⟨1, fun _ => 0, 0⟩, ⟨[], by decide⟩⟩] := by
    decide +kernel
  have start : Consistent (entries decimalCore oneTool) := by
    rw [held]
    exact List.pairwise_singleton _ _
  refine carousel_runs_consistent start ⟨fun file u table updates p hp => ?_, fun _ _ => trivial⟩
  have update : CarouselCall.update decimalCore (some ⟨some oneTool, none⟩)
      (.add 1 ⟨4, by decide⟩ none) = some (.rewrite [⟨1, 1, ⟨[], by decide⟩, false⟩]) := by
    decide +kernel
  have written : TableUpdate.apply (.rewrite [⟨1, 1, ⟨[], by decide⟩, false⟩])
      (entries decimalCore oneTool) = [⟨1, ⟨1, fun _ => 0, 0⟩, ⟨[], by decide⟩⟩] := by
    decide +kernel
  cases Option.some.inj table
  cases Option.some.inj (update.symm.trans updates)
  rw [written] at hp
  cases List.mem_singleton.mp hp
  exact ⟨by decide, by decide, by decide +kernel, by decide⟩

theorem large_tool_id_duplicates :
    Consistent (entries decimalCore (ascii "P1 T5\n")) ∧
      ¬ EachState (carouselStep decimalCore) (TableConsistent decimalCore)
        (some ⟨some (ascii "P1 T5\n"), none⟩) [.register 65541 none] := by
  constructor
  · have held : entries decimalCore (ascii "P1 T5\n") =
        [⟨1, ⟨5, fun _ => 0, 0⟩, ⟨[], by decide⟩⟩] := by
      decide +kernel
    rw [held]
    exact List.pairwise_singleton _ _
  · intro consistent
    have ran : CarouselCall.run decimalCore (some ⟨some (ascii "P1 T5\n"), none⟩)
        (.register 65541 none) =
        some ⟨.ok, none, some ⟨some (ascii "P1 T5\nP0 T5\n"), none⟩⟩ := by
      decide +kernel
    have stepped : carouselStep decimalCore (some ⟨some (ascii "P1 T5\n"), none⟩)
        (.register 65541 none) = .ok (some ⟨some (ascii "P1 T5\nP0 T5\n"), none⟩) := by
      rw [carouselStep, ran]
      rfl
    have after := (consistent.2 _ stepped).first _ rfl
    have held : entries decimalCore (ascii "P1 T5\nP0 T5\n") =
        [⟨1, ⟨5, fun _ => 0, 0⟩, ⟨[], by decide⟩⟩, ⟨-1, ⟨5, fun _ => 0, 0⟩, ⟨[], by decide⟩⟩] := by
      decide +kernel
    rw [held] at after
    exact (List.rel_of_pairwise_cons after List.mem_cons_self).1 rfl

end GrblhalSim
