import Mathlib.Data.List.Basic

namespace CheckedStore

variable {α ε : Type} {n : Nat} (fault : ε)

/-- A write to a buffer, which goes wrong behind its end. -/
def write (buf : Vector α n) (i : Nat) (x : α) : Except ε (Vector α n) :=
  if h : i < n then .ok (buf.set i x h) else .error fault

/-- A read of a buffer, which goes wrong behind its end. -/
def load (buf : Vector α n) (i : Nat) : Except ε α :=
  match buf.toList[i]? with
  | some x => .ok x
  | none => .error fault

/-- The writes of some items, one after the other from `start` on. -/
def store (buf : Vector α n) (start : Nat) : List α → Except ε (Vector α n)
  | [] => .ok buf
  | x :: xs => (write fault buf start x).bind fun buf => store buf (start + 1) xs

theorem load_drop {buf : Vector α n} {i : Nat} {x : α} {rest : List α}
    (h : buf.toList.drop i = x :: rest) : load fault buf i = .ok x := by
  have first : (buf.toList.drop i)[0]? = buf.toList[i + 0]? := List.getElem?_drop
  rw [h, Nat.add_zero] at first
  rw [load, ← first]
  rfl

theorem load_inside {buf : Vector α n} {i : Nat} (h : i < n) (d : α) :
    load fault buf i = .ok (buf.toList.getD i d) := by
  have inside : i < buf.toList.length := by simpa using h
  rw [load, List.getD_eq_getElem?_getD, List.getElem?_eq_getElem inside]
  rfl

/-- Steps that all go well. -/
theorem mapM_ok {β : Type} {f : α → Except ε β} {g : α → β} (xs : List α)
    (h : ∀ x ∈ xs, f x = .ok (g x)) : xs.mapM f = .ok (xs.map g) := by
  induction xs with
  | nil => rfl
  | cons x xs ih =>
    rw [List.mapM_cons, h x List.mem_cons_self, ih fun y hy => h y (List.mem_cons_of_mem x hy)]
    rfl

theorem write_fits {i : Nat} (buf : Vector α n) (x : α) (h : i < n) :
    write fault buf i x = .ok (buf.set i x h) :=
  dif_pos h

theorem write_overruns {i : Nat} (buf : Vector α n) (x : α) (h : n ≤ i) :
    write fault buf i x = .error fault :=
  dif_neg (Nat.not_lt.mpr h)

theorem store_one (buf : Vector α n) (i : Nat) (x : α) :
    store fault buf i [x] = write fault buf i x :=
  bind_pure (write fault buf i x)

/-- What fits is stored, and the rest of the buffer stays. -/
theorem store_fits (buf : Vector α n) (start : Nat) (xs : List α) (h : start + xs.length ≤ n) :
    ∃ buf', store fault buf start xs = .ok buf' ∧
      buf'.toList = buf.toList.take start ++ xs ++ buf.toList.drop (start + xs.length) := by
  induction xs generalizing buf start with
  | nil => exact ⟨buf, rfl, by simp⟩
  | cons x xs ih =>
    rw [List.length_cons] at h
    have inside : start < n := by omega
    obtain ⟨buf', stored, content⟩ :=
      ih (buf.set start x inside) (start + 1) (by omega)
    refine ⟨buf', by rw [store, write_fits fault buf x inside]; exact stored, ?_⟩
    have size : start < buf.toList.length := by simpa using inside
    rw [content, Vector.toList_set, List.take_succ_eq_append_getElem (by simpa using inside),
      List.take_set_of_le (Nat.le_refl start), List.getElem_set_self, List.drop_set_of_lt (by omega),
      List.length_cons, Nat.add_right_comm, Nat.add_assoc start]
    simp

/-- What is stored behind a known part of the buffer. -/
theorem store_behind {buf : Vector α n} {first old : List α} (content : buf.toList = first ++ old)
    (xs : List α) (h : xs.length ≤ old.length) :
    ∃ buf', store fault buf first.length xs = .ok buf' ∧
      buf'.toList = first ++ xs ++ old.drop xs.length := by
  have size : n = first.length + old.length := by
    rw [← List.length_append, ← content, Vector.length_toList]
  obtain ⟨buf', stored, after⟩ := store_fits fault buf first.length xs (by omega)
  refine ⟨buf', stored, ?_⟩
  rw [after, content, List.take_left, List.drop_length_add_append]

theorem store_overruns (buf : Vector α n) (start : Nat) (xs : List α) (some : xs ≠ [])
    (h : n < start + xs.length) : store fault buf start xs = .error fault := by
  induction xs generalizing buf start with
  | nil => exact absurd rfl some
  | cons x xs ih =>
    rw [List.length_cons] at h
    rw [store]
    by_cases inside : start < n
    · rw [write_fits fault buf x inside]
      exact ih _ (start + 1) (by rintro rfl; simp at h; omega) (by omega)
    · rw [write_overruns fault buf x (by omega)]
      rfl

end CheckedStore
