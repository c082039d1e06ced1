import GrblhalSim.FileTree
import GrblhalSim.FsModel

namespace GrblhalSim

open FileTree

abbrev HostTree := Tree FileName (List UInt8)

/-- The file system of the host, with its working directory. What it refuses is up to it, but a
rename of a directory to a place in itself, or of what is in a directory to that directory. -/
structure Host where
  cwd : List FileName
  refusesRemove : HostTree → List UInt8 → Bool
  refusesRename : HostTree → List UInt8 → List UInt8 → Bool
  nested : ∀ tree a b, hostPlace cwd a ≠ hostPlace cwd b →
    ¬ Apart (hostPlace cwd a) (hostPlace cwd b) → refusesRename tree a b = true

def Host.remove (h : Host) (tree : HostTree) (path : List UInt8) : Int × HostTree :=
  if tree (hostPlace h.cwd path) = none ∨ h.refusesRemove tree path = true then (-1, tree)
  else (0, tree.remove (hostPlace h.cwd path))

/-- `rename` of the C library: it fails when the source is missing or the host refuses. -/
def Host.rename (h : Host) (tree : HostTree) (a b : List UInt8) : Int × HostTree :=
  if tree (hostPlace h.cwd a) = none ∨ h.refusesRename tree a b = true then (-1, tree)
  else (0, tree.move (hostPlace h.cwd a) (hostPlace h.cwd b))

def simRename (h : Host) (tree : HostTree) (source target : CString) : Int × HostTree :=
  h.rename (h.remove tree (hostPath target)).2 (hostPath source) (hostPath target)

def Host.place (h : Host) (path : CString) : List FileName := hostPlace h.cwd (hostPath path)

/-- The rename is done, or all files are as they were. -/
def AllOrNothing (h : Host) (tree : HostTree) (source target : CString) : Prop :=
  ((simRename h tree source target).1 = 0 ∧ tree (h.place source) ≠ none ∧
    (∀ rest, (simRename h tree source target).2 (h.place target ++ rest) =
      tree (h.place source ++ rest)) ∧
    (h.place source ≠ h.place target →
      ∀ rest, (simRename h tree source target).2 (h.place source ++ rest) = none)) ∨
  ((simRename h tree source target).1 ≠ 0 ∧
    ∀ place content, (simRename h tree source target).2 place = some (.file content) ↔
      tree place = some (.file content))

/-- The target is a file that can be removed, and then there is no source, or the host refuses. -/
def LosesTarget (h : Host) (tree : HostTree) (source target : CString) : Prop :=
  (∃ content, tree (h.place target) = some (.file content)) ∧
    h.refusesRemove tree (hostPath target) = false ∧
    (tree (h.place source) = none ∨ h.place source = h.place target ∨
      h.refusesRename (tree.remove (h.place target)) (hostPath source) (hostPath target) = true)

variable {h : Host} {tree left : HostTree} {source target : CString}

theorem simRename_second (first : (h.remove tree (hostPath target)).2 = left) :
    simRename h tree source target =
      if left (h.place source) = none ∨
          h.refusesRename left (hostPath source) (hostPath target) = true then (-1, left)
      else (0, left.move (h.place source) (h.place target)) := by
  rw [simRename, first]
  rfl

theorem allOrNothing_failed
    (run : simRename h tree source target = (-1, left)) :
    AllOrNothing h tree source target ↔
      ∀ place content, left place = some (.file content) ↔ tree place = some (.file content) := by
  rw [AllOrNothing, run]
  constructor
  · intro result
    rcases result with ⟨zero, -⟩ | ⟨-, same⟩
    · cases zero
    · exact same
  · exact fun same => Or.inr ⟨Int.negSucc_ne_zero 0, same⟩

theorem allOrNothing_done
    (run : simRename h tree source target = (0, left.move (h.place source) (h.place target)))
    (present : tree (h.place source) ≠ none)
    (granted : h.refusesRename left (hostPath source) (hostPath target) = false)
    (step : left = tree ∨ h.place source ≠ h.place target ∧ left = tree.remove (h.place target)) :
    AllOrNothing h tree source target := by
  have apart (differ : h.place source ≠ h.place target) :
      Apart (h.place source) (h.place target) := by
    by_contra inside
    have refused := h.nested left (hostPath source) (hostPath target) differ inside
    rw [granted] at refused
    cases refused
  have kept (rest : List FileName) :
      left (h.place source ++ rest) = tree (h.place source ++ rest) := by
    rcases step with rfl | ⟨differ, rfl⟩
    · rfl
    · exact remove_below tree (apart differ) rest
  rw [AllOrNothing, run]
  refine Or.inl ⟨rfl, present, fun rest => ?_, fun differ rest => ?_⟩
  · exact (move_target left _ _ rest).trans (kept rest)
  · exact move_source left (apart differ) rest

theorem allOrNothing_stays
    (stays : tree (h.place target) = none ∨ h.refusesRemove tree (hostPath target) = true) :
    AllOrNothing h tree source target := by
  have first : (h.remove tree (hostPath target)).2 = tree := congrArg Prod.snd (if_pos stays)
  have second : simRename h tree source target = _ := simRename_second first
  by_cases fails : tree (h.place source) = none ∨
      h.refusesRename tree (hostPath source) (hostPath target) = true
  · rw [if_pos fails] at second
    exact (allOrNothing_failed second).mpr fun _ _ => Iff.rfl
  · rw [if_neg fails] at second
    rw [not_or, Bool.not_eq_true] at fails
    exact allOrNothing_done second fails.1 fails.2 (Or.inl rfl)

theorem LosesTarget.removed (loses : LosesTarget h tree source target) :
    ¬ (tree (h.place target) = none ∨ h.refusesRemove tree (hostPath target) = true) := by
  obtain ⟨⟨content, file⟩, granted, -⟩ := loses
  rw [file, granted]
  exact fun stays => stays.elim (fun none => by cases none) Bool.false_ne_true

theorem remove_source :
    tree.remove (h.place target) (h.place source) = none ↔
      h.place source = h.place target ∨ tree (h.place source) = none := by
  rw [Tree.remove]
  split
  next same => exact iff_of_true rfl (Or.inl same)
  next differ => exact (or_iff_right differ).symm

theorem allOrNothing_removed (present : tree (h.place target) ≠ none)
    (granted : h.refusesRemove tree (hostPath target) = false) :
    AllOrNothing h tree source target ↔ ¬ LosesTarget h tree source target := by
  have removes :
      ¬ (tree (h.place target) = none ∨ h.refusesRemove tree (hostPath target) = true) := by
    rw [granted]
    exact fun stays => stays.elim present Bool.false_ne_true
  have first : (h.remove tree (hostPath target)).2 = tree.remove (h.place target) :=
    congrArg Prod.snd (if_neg removes)
  have second : simRename h tree source target = _ := simRename_second first
  by_cases fails : tree.remove (h.place target) (h.place source) = none ∨
      h.refusesRename (tree.remove (h.place target)) (hostPath source) (hostPath target) = true
  · rw [if_pos fails] at second
    rw [allOrNothing_failed second]
    constructor
    · intro same loses
      obtain ⟨⟨content, file⟩, -⟩ := loses
      have still := (same (h.place target) content).mpr file
      rw [Tree.remove, if_pos rfl] at still
      cases still
    · intro keeps
      refine remove_file fun content file => keeps ⟨⟨content, file⟩, granted, ?_⟩
      rw [remove_source] at fails
      rcases fails with (same | missing) | refused
      · exact Or.inr (Or.inl same)
      · exact Or.inl missing
      · exact Or.inr (Or.inr refused)
  · rw [if_neg fails] at second
    rw [not_or, Bool.not_eq_true, remove_source, not_or] at fails
    obtain ⟨⟨differ, there⟩, done⟩ := fails
    refine iff_of_true (allOrNothing_done second there done (Or.inr ⟨differ, rfl⟩)) ?_
    intro loses
    obtain ⟨-, -, missing | same | refused⟩ := loses
    · exact there missing
    · exact differ same
    · rw [done] at refused
      cases refused

/-- `sim_rename` is all or nothing unless its first step loses the target. -/
theorem allOrNothing_iff (h : Host) (tree : HostTree) (source target : CString) :
    AllOrNothing h tree source target ↔ ¬ LosesTarget h tree source target := by
  by_cases stays : tree (h.place target) = none ∨ h.refusesRemove tree (hostPath target) = true
  · exact iff_of_true (allOrNothing_stays stays) fun loses => loses.removed stays
  · rw [not_or, Bool.not_eq_true] at stays
    exact allOrNothing_removed stays.1 stays.2

def plainHost : Host where
  cwd := []
  refusesRemove _ _ := false
  refusesRename _ a b :=
    hostPlace [] a ≠ hostPlace [] b ∧ ¬ Apart (hostPlace [] a) (hostPlace [] b)
  nested _ _ _ differ inside := decide_eq_true ⟨differ, inside⟩

/-- The table is there, and nothing is to become the table. -/
def tableTree : HostTree := fun p =>
  if p = [sdRoot, ascii "tooltable.tbl"] then some (.file (ascii "T1 P1\n")) else none

theorem missing_source_loses_table :
    ¬ AllOrNothing plainHost tableTree (.ofBuffer (ascii "/tooltable.tmp"))
      (.ofBuffer (ascii "/tooltable.tbl")) := by
  have failed : (simRename plainHost tableTree (.ofBuffer (ascii "/tooltable.tmp"))
      (.ofBuffer (ascii "/tooltable.tbl"))).1 ≠ 0 := by
    decide +kernel
  have lost : (simRename plainHost tableTree (.ofBuffer (ascii "/tooltable.tmp"))
      (.ofBuffer (ascii "/tooltable.tbl"))).2 [sdRoot, ascii "tooltable.tbl"] = none := by
    decide +kernel
  intro result
  rcases result with ⟨zero, -⟩ | ⟨-, same⟩
  · exact failed zero
  · have still := (same [sdRoot, ascii "tooltable.tbl"] (ascii "T1 P1\n")).mpr (if_pos rfl)
    rw [lost] at still
    cases still

end GrblhalSim
