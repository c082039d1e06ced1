import Mathlib.Data.List.Basic

namespace StreamParser

/-- What one pass over the front of a receive buffer comes to. -/
inductive Pass (α ω : Type)
  | wait
  | take (out : List ω) (rest : List α)
  | halt
  | fault

inductive Ending (α : Type)
  | waiting (rest : List α)
  | halted
  | faulted

variable {α ω : Type}

def prepend (out : List ω) (r : List ω × Ending α) : List ω × Ending α := (out ++ r.1, r.2)

/-- Passes until the buffer holds no complete item; `none` when the fuel runs out. -/
def loop (pass : List α → Pass α ω) : Nat → List α → Option (List ω × Ending α)
  | 0, _ => none
  | fuel + 1, buf =>
    match pass buf with
    | .wait => some ([], .waiting buf)
    | .halt => some ([], .halted)
    | .fault => some ([], .faulted)
    | .take out rest => (loop pass fuel rest).map (prepend out)

/-- The buffers that passes start from, without a fuel parameter. -/
inductive Reach (pass : List α → Pass α ω) (start : List α) : List α → Prop
  | start : Reach pass start start
  | next {buf out rest} : Reach pass start buf → pass buf = .take out rest → Reach pass start rest

theorem Reach.trans {pass : List α → Pass α ω} {a b c : List α} (h : Reach pass a b)
    (h' : Reach pass b c) : Reach pass a c := by
  induction h' with
  | start => exact h
  | next _ hp ih => exact .next ih hp

theorem Reach.head {pass : List α → Pass α ω} {a c : List α} (h : Reach pass a c) :
    c = a ∨ ∃ out b, pass a = .take out b ∧ Reach pass b c := by
  induction h with
  | start => exact Or.inl rfl
  | next _ hp ih =>
    rcases ih with rfl | ⟨out, b, hb, reach⟩
    · exact Or.inr ⟨_, _, hp, .start⟩
    · exact Or.inr ⟨out, b, hb, .next reach hp⟩

theorem loop_take {pass : List α → Pass α ω} {buf rest : List α} {out : List ω}
    (h : pass buf = .take out rest) (fuel : Nat) :
    loop pass (fuel + 1) buf = (loop pass fuel rest).map (prepend out) := by
  simp [loop, h]

theorem loop_waiting_reach {pass : List α → Pass α ω} {fuel : Nat} {buf rest : List α}
    {out : List ω} (h : loop pass fuel buf = some (out, .waiting rest)) :
    Reach pass buf rest ∧ pass rest = .wait := by
  induction fuel generalizing buf out with
  | zero => simp [loop] at h
  | succ fuel ih =>
    cases hp : pass buf with
    | wait =>
      simp only [loop, hp, Option.some.injEq, Prod.mk.injEq, Ending.waiting.injEq] at h
      obtain ⟨_, rfl⟩ := h
      exact ⟨.start, hp⟩
    | halt => simp [loop, hp] at h
    | fault => simp [loop, hp] at h
    | take first next =>
      rw [loop_take hp] at h
      obtain ⟨⟨more, ending⟩, hl, he⟩ := Option.map_eq_some_iff.mp h
      simp only [prepend, Prod.mk.injEq] at he
      obtain ⟨reach, hw⟩ := ih (he.2 ▸ hl)
      exact ⟨Reach.trans (.next .start hp) reach, hw⟩

/-- If every pass from a reachable buffer shortens it, one pass more than the buffer is long
ends the loop. -/
theorem loop_total {pass : List α → Pass α ω} {fuel : Nat} {buf : List α}
    (shorter : ∀ cur out rest, Reach pass buf cur → pass cur = .take out rest →
      rest.length < cur.length)
    (hf : buf.length < fuel) : ∃ r, loop pass fuel buf = some r := by
  induction fuel generalizing buf with
  | zero => omega
  | succ fuel ih =>
    cases hp : pass buf with
    | wait => exact ⟨_, by simp [loop, hp]; rfl⟩
    | halt => exact ⟨_, by simp [loop, hp]; rfl⟩
    | fault => exact ⟨_, by simp [loop, hp]; rfl⟩
    | take out rest =>
      have hlt := shorter buf out rest .start hp
      obtain ⟨r, hr⟩ := ih (fun cur out' rest' reach => shorter cur out' rest'
        (Reach.trans (.next .start hp) reach)) (show rest.length < fuel by omega)
      exact ⟨prepend out r, by rw [loop_take hp, hr, Option.map_some]⟩

theorem loop_stuck {pass : List α → Pass α ω} {buf : List α} {out : List ω}
    (h : pass buf = .take out buf) (fuel : Nat) : loop pass fuel buf = none := by
  induction fuel with
  | zero => rfl
  | succ fuel ih => rw [loop_take h, ih, Option.map_none]

/-- When every pass shortens the buffer or leaves it as it is, running out of this fuel means
running for ever. -/
theorem loop_none_forever {pass : List α → Pass α ω} {fuel : Nat} {buf : List α}
    (shrinks : ∀ cur out rest, Reach pass buf cur → pass cur = .take out rest →
      rest.length < cur.length ∨ rest = cur)
    (hf : buf.length < fuel) (h : loop pass fuel buf = none) (fuel' : Nat) :
    loop pass fuel' buf = none := by
  induction fuel generalizing buf fuel' with
  | zero => omega
  | succ fuel ih =>
    cases hp : pass buf with
    | wait => simp [loop, hp] at h
    | halt => simp [loop, hp] at h
    | fault => simp [loop, hp] at h
    | take out rest =>
      rcases shrinks buf out rest .start hp with shorter | same
      · rw [loop_take hp, Option.map_eq_none_iff] at h
        have later := fun cur out' rest' reach => shrinks cur out' rest'
          (Reach.trans (.next .start hp) reach)
        cases fuel' with
        | zero => rfl
        | succ fuel' => rw [loop_take hp, ih later (by omega) h fuel', Option.map_none]
      · subst same
        exact loop_stuck hp fuel'

/-- The pass takes the item off the front of any buffer and waits for the rest of it. -/
structure Reads (pass : List α → Pass α ω) (item : List α) (out : List ω) : Prop where
  nonempty : item ≠ []
  whole : ∀ rest, pass (item ++ rest) = .take out rest
  part : ∀ p, p <+: item → p ≠ item → pass p = .wait

structure Ends (pass : List α → Pass α ω) (item : List α) : Prop where
  whole : ∀ rest, pass (item ++ rest) = .halt
  part : ∀ p, p <+: item → p ≠ item → pass p = .wait

variable {ι : Type} {enc : ι → List α} {out : ι → List ω}

/-- The loop takes the items that the buffer holds whole. What it keeps, with the bytes that
are still to come, are the other items and the tail of the stream. -/
theorem loop_items {pass : List α → Pass α ω} {items : List ι}
    (reads : ∀ i ∈ items, Reads pass (enc i) (out i)) {buf unread tail : List α} {fuel : Nat}
    (hs : buf ++ unread = items.flatMap enc ++ tail) (hf : buf.length < fuel) :
    ∃ done rest kept fuel', items = done ++ rest ∧ kept.length < fuel' ∧
      loop pass fuel buf = (loop pass fuel' kept).map (prepend (done.flatMap out)) ∧
      kept ++ unread = rest.flatMap enc ++ tail ∧ (rest = [] ∨ pass kept = .wait) := by
  induction items generalizing buf fuel with
  | nil =>
    refine ⟨[], [], buf, fuel, rfl, hf, ?_, by simpa using hs, Or.inl rfl⟩
    cases loop pass fuel buf <;> simp [prepend]
  | cons i items ih =>
    have hi := reads i (by simp)
    rw [List.flatMap_cons, List.append_assoc] at hs
    have took : ∀ more, buf = enc i ++ more → more ++ unread = items.flatMap enc ++ tail →
        ∃ done rest kept fuel', i :: items = done ++ rest ∧ kept.length < fuel' ∧
          loop pass fuel buf = (loop pass fuel' kept).map (prepend (done.flatMap out)) ∧
          kept ++ unread = rest.flatMap enc ++ tail ∧ (rest = [] ∨ pass kept = .wait) := by
      intro more hb hrest
      subst hb
      obtain ⟨fuel, rfl⟩ : ∃ m, fuel = m + 1 := ⟨fuel - 1, by omega⟩
      have positive : 0 < (enc i).length := List.length_pos_iff.mpr hi.nonempty
      have room : more.length < fuel := by simp only [List.length_append] at hf; omega
      obtain ⟨done, rest, kept, fuel', hd, hk, hl, hr, hw⟩ :=
        ih (fun j hj => reads j (List.mem_cons_of_mem i hj)) hrest room
      refine ⟨i :: done, rest, kept, fuel', by rw [hd]; rfl, hk, ?_, hr, hw⟩
      rw [loop_take (hi.whole more), hl, Option.map_map]
      congr 1
      funext r
      simp [prepend]
    rcases List.append_eq_append_iff.mp hs with ⟨missing, he, hu⟩ | ⟨more, hb, hrest⟩
    · by_cases none : missing = []
      · subst none
        exact took [] (by simpa using he.symm) (by simpa using hu)
      · refine ⟨[], i :: items, buf, fuel, rfl, hf, ?_, by simpa using hs, Or.inr ?_⟩
        · cases loop pass fuel buf <;> simp [prepend]
        · apply hi.part buf ⟨missing, he.symm⟩
          intro same
          exact none (by simpa [same] using he)
    · exact took more hb hrest.symm

end StreamParser
