import Mathlib.Algebra.Ring.Nat
import Mathlib.Data.List.Basic

namespace TextTokens

variable {α : Type} {delim : α → Bool}

/-- The pieces of a text between its delimiters, without the empty ones. -/
def tokens (delim : α → Bool) (text : List α) : List (List α) :=
  (text.splitOnP delim).filter fun piece => piece ≠ []

structure IsWord (delim : α → Bool) (word : List α) : Prop where
  nonempty : word ≠ []
  clean : ∀ c ∈ word, delim c = false

theorem IsWord.prepend {front word : List α} (h : IsWord delim word)
    (clean : ∀ c ∈ front, delim c = false) : IsWord delim (front ++ word) := by
  refine ⟨by simp [h.nonempty], fun c hc => ?_⟩
  rcases List.mem_append.mp hc with hc | hc
  · exact clean c hc
  · exact h.clean c hc

/-- The words with one separator between each two. -/
def join (sep : α) (words : List (List α)) : List α := List.intercalate [sep] words

theorem tokens_nil : tokens delim [] = [] := by
  simp [tokens, List.splitOnP_nil]

theorem tokens_append {d : α} (hd : delim d = true) (xs ys : List α) :
    tokens delim (xs ++ d :: ys) = tokens delim xs ++ tokens delim ys := by
  rw [tokens, List.splitOnP_append_cons xs ys hd, List.filter_append]
  rfl

theorem tokens_delim {d : α} (hd : delim d = true) (ys : List α) :
    tokens delim (d :: ys) = tokens delim ys := by
  have := tokens_append hd [] ys
  simpa [tokens_nil] using this

theorem tokens_word {word : List α} (h : IsWord delim word) : tokens delim word = [word] := by
  rw [tokens, List.splitOnP_eq_singleton h.clean]
  simp [h.nonempty]

theorem mem_splitOnP {text piece : List α} (h : piece ∈ text.splitOnP delim) {c : α}
    (hc : c ∈ piece) : delim c = false ∧ c ∈ text := by
  induction text generalizing piece with
  | nil =>
    rw [List.splitOnP_nil] at h
    cases List.mem_singleton.mp h
    cases hc
  | cons x xs ih =>
    rw [List.splitOnP_cons_eq_if_modifyHead] at h
    split at h
    next =>
      rcases List.mem_cons.mp h with rfl | h
      · cases hc
      · exact ⟨(ih h hc).1, List.mem_cons_of_mem _ (ih h hc).2⟩
    next clean =>
      obtain ⟨first, rest, eq⟩ := List.exists_cons_of_ne_nil (List.splitOnP_ne_nil delim xs)
      rw [eq, List.modifyHead_cons] at h
      rcases List.mem_cons.mp h with rfl | h
      · rcases List.mem_cons.mp hc with rfl | hc
        · exact ⟨by simpa using clean, List.mem_cons_self⟩
        · have := ih (by rw [eq]; exact List.mem_cons_self) hc
          exact ⟨this.1, List.mem_cons_of_mem _ this.2⟩
      · have := ih (by rw [eq]; exact List.mem_cons_of_mem _ h) hc
        exact ⟨this.1, List.mem_cons_of_mem _ this.2⟩

theorem isWord_of_mem {text word : List α} (h : word ∈ tokens delim text) : IsWord delim word := by
  obtain ⟨mem, ne⟩ := List.mem_filter.mp h
  exact ⟨by simpa using ne, fun c hc => (mem_splitOnP mem hc).1⟩

theorem mem_of_mem_tokens {text word : List α} (h : word ∈ tokens delim text) {c : α}
    (hc : c ∈ word) : c ∈ text :=
  (mem_splitOnP (List.mem_filter.mp h).1 hc).2

theorem join_cons {sep : α} {word : List α} {words : List (List α)} (ne : words ≠ []) :
    join sep (word :: words) = word ++ sep :: join sep words := by
  rw [join, List.intercalate_cons_of_ne_nil ne, List.append_assoc]
  rfl

theorem join_concat {sep : α} {word : List α} {words : List (List α)} (ne : words ≠ []) :
    join sep (words ++ [word]) = join sep words ++ sep :: word := by
  induction words with
  | nil => exact absurd rfl ne
  | cons first words ih =>
    cases words with
    | nil => simp [join]
    | cons second words =>
      have longer : first :: (second :: words) ++ [word] = first :: (second :: words ++ [word]) := rfl
      have ne' : second :: words ≠ [] := by simp
      rw [longer, join_cons (by simp), ih ne', join_cons ne', List.append_assoc, List.cons_append]

theorem join_flatMap {sep : α} (first : List α) (words : List (List α)) :
    join sep (first :: words) = first ++ words.flatMap (sep :: ·) := by
  induction words generalizing first with
  | nil => simp [join]
  | cons second words ih =>
    rw [join_cons (by simp), ih, List.flatMap_cons, List.cons_append]

theorem mem_join {sep c : α} {words : List (List α)} (h : c ∈ join sep words) :
    c = sep ∨ ∃ w ∈ words, c ∈ w := by
  cases words with
  | nil => cases h
  | cons first words =>
    rw [join_flatMap] at h
    rcases List.mem_append.mp h with h | h
    · exact Or.inr ⟨first, by simp, h⟩
    · obtain ⟨w, mem, hc⟩ := List.mem_flatMap.mp h
      rcases List.mem_cons.mp hc with hc | hc
      · exact Or.inl hc
      · exact Or.inr ⟨w, List.mem_cons_of_mem _ mem, hc⟩

theorem map_join {sep : α} {f : α → α} (fixed : f sep = sep) (words : List (List α)) :
    (join sep words).map f = join sep (words.map (List.map f)) := by
  cases words with
  | nil => rfl
  | cons first words =>
    rw [List.map_cons, join_flatMap, join_flatMap, List.map_append, List.map_flatMap,
      List.flatMap_map]
    simp [fixed]

/-- A text that goes over into joined words without a delimiter has its beginning in the first. -/
theorem tokens_append_join {sep : α} (hs : delim sep = true) (front : List α) {first : List α}
    {words : List (List α)} (clean : ∀ c ∈ front, delim c = false)
    (each : ∀ w ∈ first :: words, IsWord delim w) :
    tokens delim (front ++ join sep (first :: words)) = (front ++ first) :: words := by
  induction words generalizing front first with
  | nil =>
    have word : IsWord delim (front ++ first) := (each first (by simp)).prepend clean
    simpa [join] using tokens_word word
  | cons second words ih =>
    have here : IsWord delim (front ++ first) := (each first (by simp)).prepend clean
    rw [join_cons (by simp), ← List.append_assoc, tokens_append hs, tokens_word here]
    have rest := ih [] (by simp) fun w hw => each w (List.mem_cons_of_mem _ hw)
    rw [List.nil_append] at rest
    rw [rest, List.nil_append, List.singleton_append]

theorem tokens_head {c : α} (hc : delim c = false) (text : List α) :
    ∃ word words, tokens delim (c :: text) = (c :: word) :: words := by
  obtain ⟨first, rest, eq⟩ := List.exists_cons_of_ne_nil (List.splitOnP_ne_nil delim text)
  refine ⟨first, rest.filter (· ≠ []), ?_⟩
  rw [tokens, List.splitOnP_cons_eq_if_modifyHead, eq]
  simp [hc]

theorem tokens_fields {sep : α} (hs : delim sep = true) {first : List α} {words : List (List α)}
    (each : ∀ w ∈ first :: words, IsWord delim w) {rest : List α}
    (after : rest.head? = none ∨ rest.head? = some sep) :
    tokens delim (first ++ words.flatMap (sep :: ·) ++ rest) =
      first :: words ++ tokens delim rest := by
  induction words generalizing first with
  | nil =>
    have word := tokens_word (each first (by simp))
    cases rest with
    | nil => simpa [tokens_nil] using word
    | cons c rest =>
      have same : c = sep := by simpa using after
      rw [same, List.flatMap_nil, List.append_nil, tokens_append hs, word, tokens_delim hs]
  | cons second words ih =>
    have later := ih fun w hw => each w (List.mem_cons_of_mem _ hw)
    rw [List.flatMap_cons, List.cons_append, List.append_assoc, List.cons_append,
      tokens_append hs, tokens_word (each first (by simp)), later]
    rfl

theorem splitOnP_length (p : α → Bool) (text : List α) :
    ((text.splitOnP p).map fun piece => piece.length + 1).sum = text.length + 1 := by
  induction text with
  | nil => simp [List.splitOnP_nil]
  | cons c text ih =>
    obtain ⟨first, rest, eq⟩ := List.exists_cons_of_ne_nil (List.splitOnP_ne_nil p text)
    rw [List.splitOnP_cons_eq_if_modifyHead]
    rw [eq] at ih ⊢
    simp only [List.map_cons, List.sum_cons] at ih
    split
    next =>
      simp only [List.map_cons, List.sum_cons, List.length_nil, List.length_cons]
      omega
    next =>
      simp only [List.modifyHead_cons, List.map_cons, List.sum_cons, List.length_cons]
      omega

theorem tokens_length (p : α → Bool) (text : List α) :
    ((tokens p text).map fun word => word.length + 1).sum ≤ text.length + 1 := by
  have all := splitOnP_length p text
  rw [← all, tokens]
  clear all
  induction text.splitOnP p with
  | nil => simp
  | cons piece pieces ih =>
    rw [List.filter_cons]
    split
    next => simpa using ih
    next =>
      simp only [List.map_cons, List.sum_cons]
      omega

end TextTokens
