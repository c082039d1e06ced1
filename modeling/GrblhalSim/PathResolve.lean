import Mathlib.Data.List.Infix
import Mathlib.Data.List.TakeDrop

namespace PathResolve

variable {α : Type}

inductive Component (α : Type)
  | name (n : α)
  | up
  deriving DecidableEq

/-- One component on from a place, which is the list of names that lead to it. The root is its own
parent. -/
def move (place : List α) : Component α → List α
  | .name n => place ++ [n]
  | .up => place.dropLast

def resolve (place : List α) (path : List (Component α)) : List α := path.foldl move place

/-- A path with each name cancelled by the step up that leaves it: first `ups` steps up, then
names. -/
structure Cancelled (α : Type) where
  ups : Nat
  names : List α

def Cancelled.add (p : Cancelled α) : Component α → Cancelled α
  | .name n => { p with names := p.names ++ [n] }
  | .up => if p.names = [] then { p with ups := p.ups + 1 } else { p with names := p.names.dropLast }

def cancel (path : List (Component α)) : Cancelled α := path.foldl Cancelled.add ⟨0, []⟩

/-- Where a cancelled path leads to. -/
def Cancelled.goal (p : Cancelled α) (place : List α) : List α :=
  place.take (place.length - p.ups) ++ p.names

theorem take_up (place : List α) (k : Nat) :
    (place.take (place.length - k)).dropLast = place.take (place.length - (k + 1)) := by
  rw [List.dropLast_eq_take, List.take_take, List.length_take]
  congr 1
  omega

theorem Cancelled.move_goal (p : Cancelled α) (place : List α) (c : Component α) :
    move (p.goal place) c = (p.add c).goal place := by
  cases c with
  | name n => simp [move, Cancelled.goal, Cancelled.add]
  | up =>
    by_cases none : p.names = []
    · simp [move, Cancelled.goal, Cancelled.add, none, take_up]
    · simp [move, Cancelled.goal, Cancelled.add, none, List.dropLast_append_of_ne_nil]

theorem resolve_cancel (place : List α) (path : List (Component α)) :
    resolve place path = (cancel path).goal place := by
  have along : ∀ p : Cancelled α, resolve (p.goal place) path =
      (path.foldl Cancelled.add p).goal place := by
    induction path with
    | nil => exact fun _ => rfl
    | cons c path ih =>
      intro p
      rw [resolve, List.foldl_cons, p.move_goal]
      exact ih (p.add c)
  have here := along ⟨0, []⟩
  simpa [Cancelled.goal, cancel] using here

/-- A path leads to the same names from a place as from the root exactly when no step up is left
over. -/
theorem resolve_own_iff {place : List α} (below : place ≠ []) (path : List (Component α)) :
    resolve place path = place ++ resolve [] path ↔ (cancel path).ups = 0 := by
  have root : resolve [] path = (cancel path).names := by
    rw [resolve_cancel, Cancelled.goal, List.take_nil, List.nil_append]
  rw [resolve_cancel, Cancelled.goal, root, List.append_cancel_right_eq, List.take_eq_self_iff]
  have := List.length_pos_iff.mpr below
  omega

theorem resolve_append (place : List α) (path more : List (Component α)) :
    resolve place (path ++ more) = resolve (resolve place path) more :=
  List.foldl_append

end PathResolve
