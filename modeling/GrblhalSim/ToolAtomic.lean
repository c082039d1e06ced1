import GrblhalSim.ToolStored

namespace GrblhalSim

variable {core : GrblCore} {o : Outcomes}

/-- A call of one of the four functions that update the table. -/
inductive TableUpdate
  | rewrite (overrides : List PocketOverride)
  | append (p : ToolPocket)
  | setData (data : ToolData)
  | clear
  deriving DecidableEq

/-- The entries that the update is to leave in the table. -/
def TableUpdate.apply : TableUpdate → List ToolPocket → List ToolPocket
  | .rewrite overrides, es => es.filterMap (applyOverrides overrides)
  | .append p, es => es ++ [p]
  | .setData data, es => es.map (ToolPocket.setData data)
  | .clear, es => es.map ToolPocket.clear

def TableUpdate.run (core : GrblCore) (o : Outcomes) : TableUpdate → ToolFs → Option (Bool × ToolFs)
  | .rewrite overrides => rewriteFile core o overrides
  | .append p => appendTool core o p
  | .setData data => setToolWrite core o data
  | .clear => clearTools core o

/-- The update fails and leaves the entries of the table as they were, or succeeds and leaves all of
the updated ones. -/
def Atomic (core : GrblCore) (u : TableUpdate) (o : Outcomes) (fs : ToolFs) : Prop :=
  ∃ done fs', u.run core o fs = some (done, fs') ∧
    (done = false → fs'.table.map (entries core) = fs.table.map (entries core)) ∧
    (done = true → ∀ old, fs.table = some old → ∃ new, fs'.table = some new ∧
      List.Forall₂ SameEntry (u.apply (entries core old)) (entries core new))

/-- Where the update gets to write, the lines fit their buffers, and then they are stored and keep
their entries, if the rename succeeds, or the old table is still there, if it fails. -/
def UpdateSafe (core : GrblCore) (u : TableUpdate) (o : Outcomes) (fs : ToolFs) : Prop :=
  ∀ old, fs.table = some old → o.openSource = true → o.openTarget = true →
    (∀ p ∈ u.apply (entries core old), p.Fits) ∧
      if o.rename then StoresEntries core o 0 (u.apply (entries core old))
      else o.unlinkTable = false ∧ o.remove = false

theorem TableUpdate.run_mounted (u : TableUpdate) (files : ToolFiles) :
    u.run core o (some files) = rewriteTable core o u.apply (some files) := by
  cases u with
  | rewrite overrides => rfl
  | append p => rfl
  | setData data => rfl
  | clear => rfl

theorem mapM_writePocketLine (ps : List ToolPocket) :
    ps.mapM writePocketLine =
      if ∀ p ∈ ps, p.Fits then some (ps.map fun p => p.lineText ++ [newline]) else none := by
  induction ps with
  | nil => rfl
  | cons p ps ih =>
    have line : writePocketLine p = if p.Fits then some (p.lineText ++ [newline]) else none := rfl
    rw [List.mapM_cons, line, ih]
    by_cases here : p.Fits
    · by_cases rest : ∀ q ∈ ps, q.Fits
      · have all : ∀ q ∈ p :: ps, q.Fits := by simpa [here] using rest
        simp only [if_pos here, if_pos rest, if_pos all]
        rfl
      · have some : ¬ ∀ q ∈ p :: ps, q.Fits := fun all => rest fun q hq => all q (by simp [hq])
        simp only [if_pos here, if_neg rest, if_neg some]
        rfl
    · have some : ¬ ∀ q ∈ p :: ps, q.Fits := fun all => here (all p (by simp))
      simp only [if_neg here, if_neg some]
      rfl

theorem rewriteTable_open {update : List ToolPocket → List ToolPocket} {files : ToolFiles}
    {old : List UInt8} (table : files.table = some old) (source : o.openSource = true)
    (target : o.openTarget = true) :
    rewriteTable core o update (some files) =
      if ∀ p ∈ update (entries core old), p.Fits then
        some (o.rename, some
          (if o.rename then ⟨some (storedText o 0 (update (entries core old))), none⟩
          else
            ⟨if o.unlinkTable || o.remove then none else some old,
              if o.unlinkTmp then none else some (storedText o 0 (update (entries core old)))⟩))
      else none := by
  simp only [rewriteTable, table, source, target, Bool.and_self, ↓reduceIte, mapM_writePocketLine]
  split
  next =>
    rw [← storeLines_storedText]
    cases renamed : o.rename <;> cases unlinked : o.unlinkTable <;> cases removed : o.remove <;>
      cases cleaned : o.unlinkTmp <;>
        simp [ToolFiles.rename, ToolFiles.unlinkTable, ToolFiles.unlinkTmp, renamed, unlinked,
          removed, cleaned]
  next => rfl

theorem rewriteTable_closed {update : List ToolPocket → List ToolPocket} {files : ToolFiles}
    (closed : files.table = none ∨ o.openSource = false ∨ o.openTarget = false) :
    rewriteTable core o update (some files) = some (false, some files) := by
  cases table : files.table with
  | none => simp only [rewriteTable, table]
  | some old =>
    have shut : (o.openSource && o.openTarget) = false := by
      rcases closed with none | shut | shut
      · rw [none] at table
        cases table
      · rw [shut, Bool.false_and]
      · rw [shut, Bool.and_false]
    simp only [rewriteTable, table, shut, Bool.false_eq_true, ↓reduceIte]

theorem rewriteTable_succeed {update : List ToolPocket → List ToolPocket} {files : ToolFiles}
    {old : List UInt8} (table : files.table = some old)
    (fits : ∀ p ∈ update (entries core old), p.Fits) :
    rewriteTable core .succeed update (some files) =
      some (true, some ⟨some (tableText (update (entries core old))), none⟩) := by
  rw [rewriteTable_open table rfl rfl, if_pos fits, storedText_whole (fun _ => le_rfl) fits]
  rfl

theorem updateSafe_open {u : TableUpdate} {files : ToolFiles} {old : List UInt8}
    (table : files.table = some old) (source : o.openSource = true)
    (target : o.openTarget = true) :
    UpdateSafe core u o (some files) ↔
      (∀ p ∈ u.apply (entries core old), p.Fits) ∧
        if o.rename then StoresEntries core o 0 (u.apply (entries core old))
        else o.unlinkTable = false ∧ o.remove = false := by
  constructor
  · intro safe
    exact safe old table source target
  · intro safe old' same _ _
    cases Option.some.inj (table.symm.trans same)
    exact safe

theorem atomic_renamed_iff {u : TableUpdate} {files : ToolFiles} {old : List UInt8}
    (table : files.table = some old) (source : o.openSource = true)
    (target : o.openTarget = true) (fits : ∀ p ∈ u.apply (entries core old), p.Fits)
    (renamed : o.rename = true) :
    Atomic core u o (some files) ↔ StoresEntries core o 0 (u.apply (entries core old)) := by
  rw [Atomic, u.run_mounted, rewriteTable_open table source target, if_pos fits, renamed,
    if_pos rfl, ← stored_same_iff fits]
  constructor
  · rintro ⟨done, fs', ran, _, complete⟩
    cases Option.some.inj ran
    obtain ⟨new, left, same⟩ := complete rfl old table
    cases Option.some.inj left
    exact same
  · intro same
    refine ⟨_, _, rfl, fun failed => absurd failed (by decide), fun _ old' given => ?_⟩
    cases Option.some.inj (table.symm.trans given)
    exact ⟨_, rfl, same⟩

theorem atomic_not_renamed_iff {u : TableUpdate} {files : ToolFiles} {old : List UInt8}
    (table : files.table = some old) (source : o.openSource = true)
    (target : o.openTarget = true) (fits : ∀ p ∈ u.apply (entries core old), p.Fits)
    (failed : o.rename = false) :
    Atomic core u o (some files) ↔ o.unlinkTable = false ∧ o.remove = false := by
  have before : ToolFs.table (some files) = some old := table
  rw [Atomic, u.run_mounted, rewriteTable_open table source target, if_pos fits, failed,
    if_neg (by decide), before]
  constructor
  · rintro ⟨done, fs', ran, kept, _⟩
    cases Option.some.inj ran
    have left := kept rfl
    cases unlinked : o.unlinkTable <;> cases removed : o.remove <;>
      simp [ToolFs.table, unlinked, removed] at left ⊢
  · rintro ⟨unlinked, removed⟩
    refine ⟨_, _, rfl, fun _ => ?_, fun done => absurd done (by decide)⟩
    rw [unlinked, removed]
    rfl

theorem atomic_closed {u : TableUpdate} {files : ToolFiles}
    (closed : files.table = none ∨ o.openSource = false ∨ o.openTarget = false) :
    Atomic core u o (some files) := by
  refine ⟨false, some files, ?_, fun _ => rfl, fun done => absurd done (by decide)⟩
  rw [u.run_mounted, rewriteTable_closed closed]

theorem open_or_closed (o : Outcomes) (files : ToolFiles) :
    (∃ old, files.table = some old ∧ o.openSource = true ∧ o.openTarget = true) ∨
      (files.table = none ∨ o.openSource = false ∨ o.openTarget = false) := by
  cases files.table with
  | none => exact Or.inr (Or.inl rfl)
  | some old =>
    cases o.openSource with
    | false => exact Or.inr (Or.inr (Or.inl rfl))
    | true =>
      cases o.openTarget with
      | false => exact Or.inr (Or.inr (Or.inr rfl))
      | true => exact Or.inl ⟨old, rfl, rfl, rfl⟩

theorem atomic_unmounted (core : GrblCore) (u : TableUpdate) (o : Outcomes) :
    Atomic core u o none := by
  obtain ⟨done, ran⟩ : ∃ done, u.run core o none = some (done, none) := by
    cases u <;> exact ⟨_, rfl⟩
  refine ⟨done, none, ran, fun _ => rfl, fun _ old none => ?_⟩
  cases none

/-- An update of a table is atomic exactly when its outcomes are safe: with both files open, each
line fits its buffers, and is stored and keeps its entry, or the old table outlives a failed
rename. -/
theorem table_update_atomic_iff (core : GrblCore) (u : TableUpdate) (o : Outcomes) (fs : ToolFs) :
    Atomic core u o fs ↔ UpdateSafe core u o fs := by
  cases fs with
  | none =>
    refine iff_of_true (atomic_unmounted core u o) fun old none => ?_
    cases none
  | some files =>
    rcases open_or_closed o files with ⟨old, table, source, target⟩ | closed
    · rw [updateSafe_open table source target]
      by_cases fits : ∀ p ∈ u.apply (entries core old), p.Fits
      · rw [and_iff_right fits]
        cases renamed : o.rename with
        | true => exact atomic_renamed_iff table source target fits renamed
        | false => exact atomic_not_renamed_iff table source target fits renamed
      · refine iff_of_false ?_ fun safe => fits safe.1
        rw [Atomic, u.run_mounted, rewriteTable_open table source target, if_neg fits]
        rintro ⟨_, _, ran, _⟩
        cases ran
    · refine iff_of_true (atomic_closed closed) fun old table source target => ?_
      rcases closed with none | shut | shut
      · cases none.symm.trans table
      · cases shut.symm.trans source
      · cases shut.symm.trans target

/-- The rename fails, all else succeeds. -/
def renameFails : Outcomes := { Outcomes.succeed with rename := false }

theorem failed_rename_loses_table : ¬ ∀ u o fs, Atomic decimalCore u o fs := by
  intro all
  obtain ⟨done, fs', ran, kept, _⟩ := all (.setData ⟨1, fun _ => 0, 0⟩) renameFails
    (some ⟨some (ascii "T1\n"), none⟩)
  have lost : setToolWrite decimalCore renameFails ⟨1, fun _ => 0, 0⟩
      (some ⟨some (ascii "T1\n"), none⟩) = some (false, some ⟨none, none⟩) := by
    decide +kernel
  cases Option.some.inj (lost.symm.trans ran)
  exact absurd (kept rfl) (by decide)

end GrblhalSim
