import Mathlib.Data.List.Range

namespace SlotTable

variable {α β σ : Type} {n : Nat}

/-- A fixed array of slots with a count of those in use. -/
structure Slots (α : Type) (n : Nat) where
  count : Nat
  slots : Vector α n

def writeSlot (v : Vector α n) (i : Nat) (a : α) : Option (Vector α n) :=
  if h : i < n then some (v.set i a h) else none

/-- Copy `len` slots from `src` to `dst`, as if through a copy of the array; `none` when a range
leaves the array. -/
def moveRange (v : Vector α n) (dst src len : Nat) : Option (Vector α n) :=
  if dst + len ≤ n ∧ src + len ≤ n then
    some (Vector.ofFn fun i =>
      if dst ≤ i.val ∧ i.val < dst + len then v[src + (i.val - dst)]?.getD v[i] else v[i])
  else none

/-- A loop that reads slot after slot and may leave early. -/
def scanSlots (v : Vector α n) (body : σ → α → Except β σ) : List Nat → σ → Option (Except β σ)
  | [], s => some (.ok s)
  | i :: is, s => do
    let a ← v[i]?
    match body s a with
    | .ok s => scanSlots v body is s
    | .error b => some (.error b)

def foldSlots (v : Vector α n) (body : σ → Nat → α → σ) : List Nat → σ → Option σ
  | [], s => some s
  | i :: is, s => do
    let a ← v[i]?
    foldSlots v body is (body s i a)

def mapSlots (f : α → α) : List Nat → Vector α n → Option (Vector α n)
  | [], v => some v
  | i :: is, v => do
    let a ← v[i]?
    let v ← writeSlot v i (f a)
    mapSlots f is v

/-- Take out slot `i`, move the later ones down and clear the last one. -/
def Slots.delete (blank : α) (s : Slots α n) (i : Nat) : Option (Slots α n) := do
  let moved ← moveRange s.slots i (i + 1) (s.count - i - 1)
  let cleared ← writeSlot moved (s.count - 1) blank
  some ⟨s.count - 1, cleared⟩

def Slots.put (s : Slots α n) (i : Nat) (a : α) : Option (Slots α n) := do
  let written ← writeSlot s.slots i a
  some ⟨if s.count ≤ i then i + 1 else s.count, written⟩

/-- The count does not exceed the array, and the slots behind it are blank. -/
structure Slots.Tidy (blank : α) (s : Slots α n) : Prop where
  count_le : s.count ≤ n
  blank : ∀ j, s.count ≤ j → j < n → s.slots[j]? = some blank

def Slots.All (P : α → Prop) (s : Slots α n) : Prop := ∀ (j : Nat) (a : α), s.slots[j]? = some a → P a

theorem slots_ext {v w : Vector α n} (h : ∀ j : Nat, v[j]? = w[j]?) : v = w := by
  apply Vector.ext
  intro j hj
  have same := h j
  rwa [Vector.getElem?_eq_getElem hj, Vector.getElem?_eq_getElem hj, Option.some.injEq] at same

theorem range_inside {m : Nat} (h : m ≤ n) : ∀ i ∈ List.range m, i < n :=
  fun _ hi => (List.mem_range.mp hi).trans_le h

theorem writeSlot_some {v : Vector α n} {i : Nat} (h : i < n) (a : α) :
    ∃ w, writeSlot v i a = some w ∧ ∀ j, w[j]? = if j = i then some a else v[j]? := by
  refine ⟨v.set i a h, by rw [writeSlot, dif_pos h], fun j => ?_⟩
  rw [Vector.getElem?_set]
  by_cases same : i = j
  · rw [if_pos same, if_pos same.symm]
  · rw [if_neg same, if_neg (Ne.symm same)]

theorem moveRange_some {v : Vector α n} {dst src len : Nat} (hd : dst + len ≤ n)
    (hs : src + len ≤ n) :
    ∃ w, moveRange v dst src len = some w ∧
      ∀ j, w[j]? = if dst ≤ j ∧ j < dst + len then v[src + (j - dst)]? else v[j]? := by
  refine ⟨_, by rw [moveRange, if_pos ⟨hd, hs⟩], fun j => ?_⟩
  by_cases hj : j < n
  · rw [Vector.getElem?_eq_getElem hj, Vector.getElem_ofFn]
    by_cases moved : dst ≤ j ∧ j < dst + len
    · have inside : src + (j - dst) < n := by omega
      simp [moved, inside]
    · simp [moved, hj]
  · have moved : ¬ (dst ≤ j ∧ j < dst + len) := by omega
    simp [moved, hj]

theorem scanSlots_some (v : Vector α n) (body : σ → α → Except β σ) {is : List Nat}
    (inside : ∀ i ∈ is, i < n) (s : σ) : ∃ r, scanSlots v body is s = some r := by
  induction is generalizing s with
  | nil => exact ⟨_, rfl⟩
  | cons i is ih =>
    obtain ⟨hi, later⟩ := List.forall_mem_cons.mp inside
    have read : v[i]? = some v[i] := Vector.getElem?_eq_getElem hi
    simp only [scanSlots, read, bind, Option.bind]
    split
    next next _ => exact ih later next
    next b _ => exact ⟨_, rfl⟩

theorem foldSlots_some (v : Vector α n) (body : σ → Nat → α → σ) {is : List Nat}
    (inside : ∀ i ∈ is, i < n) (s : σ) : ∃ s', foldSlots v body is s = some s' := by
  induction is generalizing s with
  | nil => exact ⟨s, rfl⟩
  | cons i is ih =>
    obtain ⟨hi, later⟩ := List.forall_mem_cons.mp inside
    have read : v[i]? = some v[i] := Vector.getElem?_eq_getElem hi
    simp only [foldSlots, read, bind, Option.bind]
    exact ih later _

theorem mapSlots_some (f : α → α) {is : List Nat} (inside : ∀ i ∈ is, i < n) (once : is.Nodup)
    (v : Vector α n) :
    ∃ w, mapSlots f is v = some w ∧ ∀ j, w[j]? = if j ∈ is then v[j]?.map f else v[j]? := by
  induction is generalizing v with
  | nil => exact ⟨v, rfl, fun j => by simp⟩
  | cons i is ih =>
    obtain ⟨hi, later⟩ := List.forall_mem_cons.mp inside
    have read : v[i]? = some v[i] := Vector.getElem?_eq_getElem hi
    obtain ⟨fresh, once⟩ := List.nodup_cons.mp once
    obtain ⟨w, write, hw⟩ := writeSlot_some (v := v) hi (f v[i])
    obtain ⟨w', rest, hw'⟩ := ih later once w
    refine ⟨w', by simp [mapSlots, read, write, rest], fun j => ?_⟩
    rw [hw', hw]
    by_cases same : j = i
    · subst same
      simp [fresh, read]
    · simp [same]

theorem mapSlots_none (f : α → α) {is : List Nat} {i : Nat} (hi : i ∈ is) (outside : n ≤ i)
    (v : Vector α n) : mapSlots f is v = none := by
  induction is generalizing v with
  | nil => cases hi
  | cons j is ih =>
    rcases List.mem_cons.mp hi with rfl | hi
    · simp [mapSlots, outside]
    · cases read : v[j]? with
      | none => simp [mapSlots, read]
      | some a =>
        simp [mapSlots, read, ih hi]

theorem Slots.delete_some (blank : α) {s : Slots α n} {i : Nat} (hi : i < s.count)
    (hc : s.count ≤ n) :
    ∃ s', s.delete blank i = some s' ∧ s'.count = s.count - 1 ∧
      ∀ j, s'.slots[j]? = if j + 1 = s.count then some blank
        else if i ≤ j ∧ j + 1 < s.count then s.slots[j + 1]? else s.slots[j]? := by
  have dst : i + (s.count - i - 1) ≤ n := by omega
  have src : i + 1 + (s.count - i - 1) ≤ n := by omega
  obtain ⟨moved, hm, moved_get⟩ := moveRange_some (v := s.slots) dst src
  obtain ⟨cleared, hw, cleared_get⟩ := writeSlot_some (v := moved) (i := s.count - 1) (by omega)
    blank
  refine ⟨⟨s.count - 1, cleared⟩, by simp [Slots.delete, hm, hw], rfl, fun j => ?_⟩
  rw [cleared_get, moved_get]
  by_cases last : j + 1 = s.count
  · rw [if_pos last, if_pos (by omega)]
  · rw [if_neg last, if_neg (by omega)]
    by_cases between : i ≤ j ∧ j + 1 < s.count
    · rw [if_pos between, if_pos (by omega), show i + 1 + (j - i) = j + 1 by omega]
    · rw [if_neg between, if_neg (by omega)]

theorem Slots.put_some (s : Slots α n) {i : Nat} (hi : i < n) (a : α) :
    ∃ s', s.put i a = some s' ∧ s'.count = max s.count (i + 1) ∧
      ∀ j, s'.slots[j]? = if j = i then some a else s.slots[j]? := by
  obtain ⟨w, hw, get⟩ := writeSlot_some (v := s.slots) hi a
  refine ⟨⟨if s.count ≤ i then i + 1 else s.count, w⟩, by simp [Slots.put, hw], ?_, get⟩
  show (if s.count ≤ i then i + 1 else s.count) = max s.count (i + 1)
  split <;> omega

theorem Slots.delete_count {blank : α} {s s' : Slots α n} {i : Nat}
    (h : s.delete blank i = some s') : s'.count = s.count - 1 := by
  obtain ⟨moved, _, h⟩ := Option.bind_eq_some_iff.mp h
  obtain ⟨cleared, _, h⟩ := Option.bind_eq_some_iff.mp h
  cases h
  rfl

theorem Slots.put_count {s s' : Slots α n} {i : Nat} {a : α} (h : s.put i a = some s') :
    s'.count = max s.count (i + 1) := by
  obtain ⟨written, _, h⟩ := Option.bind_eq_some_iff.mp h
  cases h
  show (if s.count ≤ i then i + 1 else s.count) = max s.count (i + 1)
  split <;> omega

section Tidy

variable {blank : α} {s : Slots α n}

theorem Slots.Tidy.delete (h : s.Tidy blank) {i : Nat} {s' : Slots α n} (hi : i < s.count)
    (hs : s.delete blank i = some s') : s'.Tidy blank := by
  obtain ⟨t, ht, count, get⟩ := Slots.delete_some blank hi h.count_le
  cases hs.symm.trans ht
  have := h.count_le
  refine ⟨by omega, fun j hj hn => ?_⟩
  rw [get]
  by_cases last : j + 1 = s.count
  · rw [if_pos last]
  · rw [if_neg last, if_neg (by omega)]
    exact h.blank j (by omega) hn

theorem Slots.Tidy.put (h : s.Tidy blank) {i : Nat} {a : α} {s' : Slots α n} (hi : i < n)
    (hs : s.put i a = some s') : s'.Tidy blank := by
  obtain ⟨t, ht, count, get⟩ := s.put_some hi a
  cases hs.symm.trans ht
  have := h.count_le
  refine ⟨by omega, fun j hj hn => ?_⟩
  rw [get, if_neg (by omega)]
  exact h.blank j (by omega) hn

end Tidy

theorem Slots.All.delete {P : α → Prop} {blank : α} {s s' : Slots α n} (h : s.All P)
    (hb : P blank) {i : Nat} (hi : i < s.count) (hc : s.count ≤ n)
    (hs : s.delete blank i = some s') : s'.All P := by
  obtain ⟨t, ht, _, get⟩ := Slots.delete_some blank hi hc
  cases hs.symm.trans ht
  intro j a ha
  rw [get] at ha
  split at ha
  next =>
    cases ha
    exact hb
  next =>
    split at ha
    next => exact h _ _ ha
    next => exact h _ _ ha

theorem Slots.All.put {P : α → Prop} {s s' : Slots α n} (h : s.All P) {i : Nat} {a : α} (ha : P a)
    (hi : i < n) (hs : s.put i a = some s') : s'.All P := by
  obtain ⟨t, ht, _, get⟩ := s.put_some hi a
  cases hs.symm.trans ht
  intro j b hb
  rw [get] at hb
  split at hb
  next =>
    cases hb
    exact ha
  next => exact h _ _ hb

end SlotTable
