import Mathlib.Data.List.Basic

namespace LineSplit

variable {α : Type} [DecidableEq α] (sep : α)

/-- The lines that end in a text, without what ends them, when `part` of the first has been read. -/
def lines (part : List α) : List α → List (List α)
  | [] => []
  | x :: xs => if x = sep then part :: lines [] xs else lines (part ++ [x]) xs

/-- What is left of a text behind its last line. -/
def rest (part : List α) : List α → List α
  | [] => part
  | x :: xs => if x = sep then rest [] xs else rest (part ++ [x]) xs

variable {sep}

theorem lines_append (part xs ys : List α) :
    lines sep part (xs ++ ys) = lines sep part xs ++ lines sep (rest sep part xs) ys := by
  induction xs generalizing part with
  | nil => rfl
  | cons x xs ih =>
    rw [List.cons_append, lines, lines, rest]
    split
    next => rw [ih, List.cons_append]
    next => rw [ih]

theorem rest_append (part xs ys : List α) :
    rest sep part (xs ++ ys) = rest sep (rest sep part xs) ys := by
  induction xs generalizing part with
  | nil => rfl
  | cons x xs ih =>
    rw [List.cons_append, rest, rest]
    split
    next => exact ih []
    next => exact ih (part ++ [x])

/-- Text without a separator goes on with the line. -/
theorem read_free {xs : List α} (free : sep ∉ xs) (part : List α) :
    lines sep part xs = [] ∧ rest sep part xs = part ++ xs := by
  induction xs generalizing part with
  | nil => exact ⟨rfl, (List.append_nil part).symm⟩
  | cons x xs ih =>
    rw [List.mem_cons, not_or] at free
    obtain ⟨none, left⟩ := ih free.2 (part ++ [x])
    rw [lines, rest, if_neg (Ne.symm free.1), if_neg (Ne.symm free.1), none, left,
      List.append_assoc]
    exact ⟨rfl, rfl⟩

/-- The first separator ends the first line. -/
theorem read_line {xs : List α} (free : sep ∉ xs) (part ys : List α) :
    lines sep part (xs ++ sep :: ys) = (part ++ xs) :: lines sep [] ys ∧
      rest sep part (xs ++ sep :: ys) = rest sep [] ys := by
  obtain ⟨none, left⟩ := read_free free part
  rw [lines_append, rest_append, none, left, lines, rest, if_pos rfl, if_pos rfl]
  exact ⟨rfl, rfl⟩

theorem rest_free {part : List α} (free : sep ∉ part) (xs : List α) : sep ∉ rest sep part xs := by
  induction xs generalizing part with
  | nil => exact free
  | cons x xs ih =>
    rw [rest]
    split
    next => exact ih List.not_mem_nil
    next other =>
      refine ih fun inside => ?_
      rcases List.mem_append.mp inside with old | new
      · exact free old
      · exact other (List.mem_singleton.mp new).symm

theorem lines_free {part : List α} (free : sep ∉ part) (xs : List α) :
    ∀ line ∈ lines sep part xs, sep ∉ line := by
  induction xs generalizing part with
  | nil => exact fun _ h => absurd h List.not_mem_nil
  | cons x xs ih =>
    rw [lines]
    split
    next =>
      intro line h
      rcases List.mem_cons.mp h with rfl | later
      · exact free
      · exact ih List.not_mem_nil line later
    next other =>
      refine ih fun inside => ?_
      rcases List.mem_append.mp inside with old | new
      · exact free old
      · exact other (List.mem_singleton.mp new).symm

/-- A part that has been read is part of the next line, if there is one. -/
theorem part_in_line {xs : List α} (ends : sep ∈ xs) (part : List α) :
    ∃ line ∈ lines sep part xs, part.length ≤ line.length := by
  obtain ⟨before, after, rfl, free⟩ := List.eq_append_cons_of_mem ends
  refine ⟨part ++ before, ?_, by rw [List.length_append]; omega⟩
  rw [(read_line free part after).1]
  exact List.mem_cons_self

end LineSplit
