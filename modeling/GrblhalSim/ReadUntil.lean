import Mathlib.Data.List.Infix

namespace ReadUntil

variable {α : Type*} {stop : List α}

/-- The shortest prefix of the stream that ends in `stop`. -/
structure FirstEnd (stop stream head : List α) : Prop where
  isPrefix : head <+: stream
  ends : stop <:+ head
  shortest : ∀ p, p <+: stream → stop <:+ p → head.length ≤ p.length

theorem FirstEnd.unique {stream a b : List α} (ha : FirstEnd stop stream a)
    (hb : FirstEnd stop stream b) : a = b := by
  have len : a.length = b.length :=
    Nat.le_antisymm (ha.shortest b hb.isPrefix hb.ends) (hb.shortest a ha.isPrefix ha.ends)
  exact (List.prefix_of_prefix_length_le ha.isPrefix hb.isPrefix len.le).eq_of_length len

/-- A prefix that ends in `stop` does not reach into items that `stop` does not have. -/
theorem prefix_before_replicate {p front : List α} {c : α} {n : Nat} (nonempty : stop ≠ [])
    (absent : c ∉ stop) (hp : p <+: front ++ List.replicate n c) (ends : stop <:+ p) :
    p <+: front := by
  by_cases short : p.length ≤ front.length
  · exact List.prefix_of_prefix_length_le hp (List.prefix_append _ _) short
  · exfalso
    obtain ⟨q, rfl⟩ := List.prefix_of_prefix_length_le (List.prefix_append front _) hp (by omega)
    have filler : q <+: List.replicate n c := (List.prefix_append_right_inj front).mp hp
    have hq : q ≠ [] := by
      rintro rfl
      simp at short
    have last : (front ++ q).getLast? = stop.getLast? := by
      obtain ⟨before, same⟩ := ends
      rw [← same, List.getLast?_append_of_ne_nil _ nonempty]
    rw [List.getLast?_append_of_ne_nil _ hq] at last
    obtain ⟨x, hx⟩ := Option.ne_none_iff_exists'.mp (mt List.getLast?_eq_none_iff.mp hq)
    have isFiller : x = c := List.eq_of_mem_replicate (filler.subset (List.mem_of_getLast? hx))
    rw [hx] at last
    exact absent (isFiller ▸ List.mem_of_getLast? last.symm)

variable [DecidableEq α] {limit : Nat}

/-- Read a stream item by item until what was read ends in `stop` or the buffer is full; `none`
when the stream gives no further item. -/
def readUntil (stop : List α) (limit : Nat) : List α → List α → Option (List α × List α)
  | buf, [] => if buf.length < limit then none else some (buf, [])
  | buf, c :: stream =>
    if buf.length < limit then
      if stop <:+ buf ++ [c] then some (buf ++ [c], stream)
      else readUntil stop limit (buf ++ [c]) stream
    else some (buf, c :: stream)

theorem readUntil_cases {buf : List α} (fresh : ∀ p, p <+: buf → ¬ stop <:+ p)
    (room : buf.length ≤ limit) (stream : List α) :
    (readUntil stop limit buf stream = none ∧ (buf ++ stream).length < limit) ∨
      ∃ taken rest, readUntil stop limit buf stream = some (taken, rest) ∧
        taken ++ rest = buf ++ stream ∧
        (FirstEnd stop (buf ++ stream) taken ∧ taken.length ≤ limit ∨
          taken.length = limit ∧ ∀ p, p <+: taken → ¬ stop <:+ p) := by
  induction stream generalizing buf with
  | nil =>
    by_cases more : buf.length < limit
    · exact Or.inl ⟨by rw [readUntil, if_pos more], by rwa [List.append_nil]⟩
    · refine Or.inr ⟨buf, [], by rw [readUntil, if_neg more], rfl, Or.inr ⟨by omega, fresh⟩⟩
  | cons c stream ih =>
    have same : buf ++ c :: stream = (buf ++ [c]) ++ stream := by simp
    by_cases more : buf.length < limit
    · have longer : (buf ++ [c]).length ≤ limit := by
        rw [List.length_append]
        exact more
      by_cases ends : stop <:+ buf ++ [c]
      · refine Or.inr ⟨buf ++ [c], stream, by rw [readUntil, if_pos more, if_pos ends],
          same.symm, Or.inl ⟨⟨⟨stream, same.symm⟩, ends, ?_⟩, longer⟩⟩
        intro p hp he
        by_contra! shorter
        rw [same] at hp
        have inside := List.prefix_of_prefix_length_le hp (List.prefix_append _ _) shorter.le
        rcases List.prefix_concat_iff.mp inside with whole | early
        · rw [whole] at shorter
          omega
        · exact fresh p early he
      · rw [readUntil, if_pos more, if_neg ends, same]
        apply ih ?_ longer
        intro p hp
        rcases List.prefix_concat_iff.mp hp with whole | early
        · rwa [whole]
        · exact fresh p early
    · refine Or.inr ⟨buf, c :: stream, by rw [readUntil, if_neg more], rfl,
        Or.inr ⟨by omega, fresh⟩⟩

theorem readUntil_none {buf stream : List α} (none : readUntil stop limit buf stream = none)
    (fresh : ∀ p, p <+: buf → ¬ stop <:+ p) : ∀ p, p <+: buf ++ stream → ¬ stop <:+ p := by
  induction stream generalizing buf with
  | nil =>
    rw [List.append_nil]
    exact fresh
  | cons c stream ih =>
    rw [readUntil] at none
    split at none
    next =>
      split at none
      next => cases none
      next others =>
        have next := ih none fun p hp => by
          rcases List.prefix_concat_iff.mp hp with whole | early
          · rwa [whole]
          · exact fresh p early
        rwa [List.append_assoc] at next
    next => cases none

end ReadUntil
