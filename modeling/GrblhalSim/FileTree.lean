import Mathlib.Data.List.Infix

namespace FileTree

variable {α β : Type} [DecidableEq α]

inductive Entry (β : Type)
  | directory
  | file (content : β)
  deriving DecidableEq

/-- What stands at a place, which is the list of names that lead to it. -/
abbrev Tree (α β : Type) := List α → Option (Entry β)

def Tree.remove (tree : Tree α β) (place : List α) : Tree α β :=
  fun p => if p = place then none else tree p

/-- What stands at the source, and below it, stands at the target. -/
def Tree.move (tree : Tree α β) (source target : List α) : Tree α β :=
  fun p =>
    if target <+: p then tree (source ++ p.drop target.length)
    else if source <+: p then none
    else tree p

/-- Neither of two places is at or below the other. -/
def Apart (a b : List α) : Prop := ¬ a <+: b ∧ ¬ b <+: a

instance (a b : List α) : Decidable (Apart a b) := inferInstanceAs (Decidable (_ ∧ _))

theorem move_target (tree : Tree α β) (source target rest : List α) :
    tree.move source target (target ++ rest) = tree (source ++ rest) := by
  rw [Tree.move, if_pos (List.prefix_append target rest), List.drop_left]

theorem move_source (tree : Tree α β) {source target : List α} (apart : Apart source target)
    (rest : List α) : tree.move source target (source ++ rest) = none := by
  have outside : ¬ target <+: source ++ rest := by
    intro h
    rcases List.prefix_or_prefix_of_prefix h (List.prefix_append source rest) with below | above
    · exact apart.2 below
    · exact apart.1 above
  rw [Tree.move, if_neg outside, if_pos (List.prefix_append source rest)]

theorem remove_below (tree : Tree α β) {place other : List α} (apart : Apart other place)
    (rest : List α) : tree.remove place (other ++ rest) = tree (other ++ rest) := by
  refine if_neg fun same => apart.1 ?_
  rw [← same]
  exact List.prefix_append other rest

/-- To remove what is no file leaves all files. -/
theorem remove_file {tree : Tree α β} {place : List α}
    (noFile : ∀ content, tree place ≠ some (.file content)) (p : List α) (content : β) :
    tree.remove place p = some (.file content) ↔ tree p = some (.file content) := by
  rw [Tree.remove]
  split
  next here =>
    subst here
    exact iff_of_false (fun h => by cases h) (noFile content)
  next => exact Iff.rfl

end FileTree
