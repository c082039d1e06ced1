import Mathlib.Data.Fin.Basic
import Mathlib.Data.Fin.VecNotation
import Mathlib.Algebra.Group.Fin.Basic
import Mathlib.Tactic.Abel

namespace RingQueue

/-- A circular buffer with one slot always free: it is empty when the two indices meet. -/
structure Ring (α : Type) (n : Nat) where
  buf : Fin n → α
  head : Fin n
  tail : Fin n

variable {α : Type} {n : Nat}

def Ring.count (q : Ring α n) : Nat := (q.head - q.tail).val

theorem Ring.count_lt (q : Ring α n) : q.count < n := (q.head - q.tail).isLt

variable [NeZero n]

def Ring.empty (x : α) : Ring α n := ⟨fun _ => x, 0, 0⟩

def Ring.push (q : Ring α n) (c : α) : Ring α n :=
  let next := q.head + 1
  if next ≠ q.tail then { q with buf := Function.update q.buf q.head c, head := next } else q

def Ring.pop (q : Ring α n) : Option (α × Ring α n) :=
  if q.head ≠ q.tail then some (q.buf q.tail, { q with tail := q.tail + 1 }) else none

def Ring.get (q : Ring α n) (k : Nat) : α := q.buf (q.tail + Fin.ofNat n k)

/-- The contents, oldest first. -/
def Ring.toList (q : Ring α n) : List α := (List.range q.count).map q.get

theorem Ring.length_toList (q : Ring α n) : q.toList.length = q.count := by
  simp [Ring.toList]

theorem Ring.toList_eq_nil (q : Ring α n) : q.toList = [] ↔ q.head = q.tail := by
  rw [← List.length_eq_zero_iff, Ring.length_toList, Ring.count, Fin.val_eq_zero_iff, sub_eq_zero]

theorem Ring.pop_none {q : Ring α n} (h : q.pop = none) : q.toList = [] := by
  unfold Ring.pop at h
  split at h
  next => cases h
  next same => exact q.toList_eq_nil.mpr (not_not.mp same)

theorem Ring.toList_empty (x : α) : (Ring.empty x : Ring α n).toList = [] := by
  simp [Ring.toList, Ring.count, Ring.empty]

theorem val_add_one (d : Fin n) : (d + 1).val = (d.val + 1) % n := by
  rw [Fin.val_add, Fin.val_one', Nat.add_mod_mod]

theorem Ring.head_eq (q : Ring α n) : q.head = q.tail + Fin.ofNat n q.count := by
  have same : Fin.ofNat n q.count = q.head - q.tail := by
    apply Fin.ext
    exact Nat.mod_eq_of_lt q.count_lt
  rw [same]
  abel

theorem Ring.full_iff (q : Ring α n) : q.head + 1 = q.tail ↔ q.count + 1 = n := by
  have shift : q.head + 1 = q.tail ↔ (q.head - q.tail) + 1 = 0 := by
    rw [← sub_eq_zero, show q.head + 1 - q.tail = q.head - q.tail + 1 by abel]
  have bound := q.count_lt
  rw [shift, Fin.ext_iff, val_add_one, Fin.val_zero]
  change (q.count + 1) % n = 0 ↔ _
  constructor
  · intro h
    by_contra hne
    rw [Nat.mod_eq_of_lt (by omega)] at h
    omega
  · intro h
    rw [h, Nat.mod_self]

theorem Ring.push_full {q : Ring α n} (h : q.count + 1 = n) (c : α) : q.push c = q := by
  simp [Ring.push, q.full_iff.mpr h]

theorem Ring.push_room {q : Ring α n} (h : q.count + 1 < n) (c : α) :
    q.push c = { q with buf := Function.update q.buf q.head c, head := q.head + 1 } := by
  have room : q.head + 1 ≠ q.tail := fun full => by have := q.full_iff.mp full; omega
  simp [Ring.push, room]

theorem offset_ne {i k : Nat} (t : Fin n) (hi : i < k) (hk : k < n) :
    t + Fin.ofNat n i ≠ t + Fin.ofNat n k := by
  intro same
  have he : (Fin.ofNat n i).val = (Fin.ofNat n k).val := congrArg Fin.val (add_left_cancel same)
  simp only [Fin.val_ofNat, Nat.mod_eq_of_lt hk, Nat.mod_eq_of_lt (hi.trans hk)] at he
  omega

theorem Ring.count_push {q : Ring α n} (h : q.count + 1 < n) (c : α) :
    (q.push c).count = q.count + 1 := by
  rw [Ring.push_room h]
  change (q.head + 1 - q.tail).val = _
  rw [show q.head + 1 - q.tail = q.head - q.tail + 1 by abel, val_add_one]
  exact Nat.mod_eq_of_lt h

theorem Ring.toList_push {q : Ring α n} (h : q.count + 1 < n) (c : α) :
    (q.push c).toList = q.toList ++ [c] := by
  have kept : ∀ i ∈ List.range q.count, (q.push c).get i = q.get i := by
    intro i hi
    have hlt := List.mem_range.mp hi
    rw [Ring.push_room h]
    simp only [Ring.get]
    apply Function.update_of_ne
    rw [q.head_eq]
    exact offset_ne q.tail hlt q.count_lt
  have last : (q.push c).get q.count = c := by
    rw [Ring.push_room h]
    simp only [Ring.get, ← q.head_eq, Function.update_self]
  simp only [Ring.toList, Ring.count_push h, List.range_succ, List.map_append,
    List.map_congr_left kept, List.map_cons, List.map_nil, last]

theorem Ring.pop_some {q q' : Ring α n} {c : α} (h : q.pop = some (c, q')) :
    q.toList = c :: q'.toList := by
  unfold Ring.pop at h
  split at h
  next hne =>
    obtain ⟨rfl, rfl⟩ := Prod.mk.inj (Option.some.inj h)
    have positive : 0 < q.count := by
      rw [Nat.pos_iff_ne_zero]
      intro hz
      exact hne (sub_eq_zero.mp (Fin.ext hz))
    have hcount : ({ q with tail := q.tail + 1 } : Ring α n).count + 1 = q.count := by
      have step : q.head - (q.tail + 1) + 1 = q.head - q.tail := by abel
      have hv := congrArg Fin.val step
      rw [val_add_one] at hv
      change (({ q with tail := q.tail + 1 } : Ring α n).count + 1) % n = q.count at hv
      have bound := ({ q with tail := q.tail + 1 } : Ring α n).count_lt
      by_cases full : ({ q with tail := q.tail + 1 } : Ring α n).count + 1 = n
      · rw [full, Nat.mod_self] at hv
        omega
      · rwa [Nat.mod_eq_of_lt (by omega)] at hv
    rw [Ring.toList, ← hcount, List.range_succ_eq_map, List.map_cons, List.map_map]
    congr 1
    · simp [Ring.get]
    · apply List.map_congr_left
      intro i _
      have shift : q.tail + Fin.ofNat n (i + 1) = q.tail + 1 + Fin.ofNat n i := by
        have succ : Fin.ofNat n (i + 1) = Fin.ofNat n i + 1 := by
          apply Fin.ext
          simp [Fin.val_add]
        rw [succ]
        abel
      simp only [Function.comp, Ring.get, Nat.succ_eq_add_one, shift]
  next => simp at h

/-- Pushing a list keeps what fits and drops the rest. -/
theorem Ring.toList_pushAll (q : Ring α n) (cs : List α) :
    (cs.foldl Ring.push q).toList = q.toList ++ cs.take (n - 1 - q.count) := by
  induction cs generalizing q with
  | nil => simp
  | cons c cs ih =>
    have bound := q.count_lt
    rw [List.foldl_cons]
    by_cases full : q.count + 1 = n
    · rw [Ring.push_full full, ih, show n - 1 - q.count = 0 by omega]
      simp
    · have room : q.count + 1 < n := by omega
      rw [ih, Ring.toList_push room, Ring.count_push room,
        show n - 1 - q.count = (n - 1 - (q.count + 1)) + 1 by omega, List.take_succ_cons]
      simp

end RingQueue
