import GrblhalSim.ToolReread
import Mathlib.Data.List.Forall2

namespace GrblhalSim

variable {core : GrblCore} {o : Outcomes}

/-- What the `n`-th write stores of the line of an entry. -/
def storedLine (o : Outcomes) (n : Nat) (p : ToolPocket) : List UInt8 :=
  (p.lineText ++ [newline]).take (o.stored n)

/-- What is stored of the lines of entries, with the writes counted from `k` on. -/
def storedText (o : Outcomes) (k : Nat) (ps : List ToolPocket) : List UInt8 :=
  (ps.zipIdx k).flatMap fun line => storedLine o line.2 line.1

/-- Each line is stored whole, and the entry is kept by it. The last line may lack bytes at its end
without which it is still read as its entry. -/
def StoresEntries (core : GrblCore) (o : Outcomes) (k : Nat) (ps : List ToolPocket) : Prop :=
  ∀ n p, ps[n]? = some p →
    (p.lineText.length + 1 ≤ o.stored (k + n) ∧ Keeps core p) ∨
      (n + 1 = ps.length ∧
        ∃ q, readBack core (storedLine o (k + n) p) = some q ∧ SameEntry p q)

theorem storeLines_storedText (ps : List ToolPocket) :
    storeLines o (ps.map fun p => p.lineText ++ [newline]) = storedText o 0 ps := by
  rw [storeLines, List.zipIdx_map, List.flatMap_map]
  rfl

theorem storedText_cons (k : Nat) (p : ToolPocket) (ps : List ToolPocket) :
    storedText o k (p :: ps) = storedLine o k p ++ storedText o (k + 1) ps := by
  rw [storedText, List.zipIdx_cons, List.flatMap_cons]
  rfl

theorem storesEntries_cons (k : Nat) (p : ToolPocket) (ps : List ToolPocket) :
    StoresEntries core o k (p :: ps) ↔
      ((p.lineText.length + 1 ≤ o.stored k ∧ Keeps core p) ∨
        (ps = [] ∧ ∃ q, readBack core (storedLine o k p) = some q ∧ SameEntry p q)) ∧
      StoresEntries core o (k + 1) ps := by
  have last : 0 + 1 = (p :: ps).length ↔ ps = [] := by
    rw [List.length_cons, ← List.length_eq_zero_iff]
    omega
  constructor
  · intro all
    refine ⟨?_, fun n q hq => ?_⟩
    · have first := all 0 p rfl
      rwa [last] at first
    · have later := all (n + 1) q hq
      rw [List.length_cons, Nat.add_right_cancel_iff] at later
      rwa [Nat.add_assoc, Nat.add_comm 1 n]
  · rintro ⟨first, rest⟩ n q hq
    cases n with
    | zero =>
      cases Option.some.inj hq
      rwa [last]
    | succ n =>
      have later := rest n q hq
      rw [List.length_cons, Nat.add_right_cancel_iff]
      rwa [Nat.add_assoc, Nat.add_comm 1 n] at later

theorem storedLine_whole {k : Nat} {p : ToolPocket} (whole : p.lineText.length + 1 ≤ o.stored k) :
    storedLine o k p = p.lineText ++ [newline] := by
  refine List.take_of_length_le ?_
  rwa [List.length_append, List.length_singleton]

theorem storedLine_short {k : Nat} {p : ToolPocket} (short : ¬ p.lineText.length + 1 ≤ o.stored k)
    (clean : newline ∉ p.name.bytes) : newline ∉ storedLine o k p := by
  rw [storedLine, List.take_append_of_le_length (by omega)]
  exact fun mem => lineText_newline clean (List.mem_of_mem_take mem)

theorem storedText_whole {k : Nat} {ps : List ToolPocket}
    (whole : ∀ n, bufSize ≤ o.stored n) (fits : ∀ p ∈ ps, p.Fits) :
    storedText o k ps = tableText ps := by
  induction ps generalizing k with
  | nil => rfl
  | cons p ps ih =>
    have line : p.lineText.length + 1 ≤ o.stored k := (fits p (by simp)).2.le.trans (whole k)
    rw [storedText_cons, storedLine_whole line, ih fun q hq => fits q (by simp [hq])]
    rfl

/-- Bytes without a newline only go to the buffer of `read_line`. -/
theorem fileLines_part {text : List UInt8} (clean : newline ∉ text) (buf : List UInt8) :
    ∃ buf', ∀ file, fileLines buf (text ++ file) = fileLines buf' file := by
  induction text generalizing buf with
  | nil => exact ⟨buf, fun _ => rfl⟩
  | cons c text ih =>
    have ordinary : c ≠ newline := fun same => clean (by simp [same])
    obtain ⟨buf', later⟩ := ih (fun mem => clean (by simp [mem]))
      (if buf.length < lineSize - 1 then buf ++ [c] else buf)
    refine ⟨buf', fun file => ?_⟩
    rw [List.cons_append, fileLines, if_neg ordinary, later]

theorem fileLines_whole {line : List UInt8} (clean : newline ∉ line) (buf : List UInt8) :
    ∃ first, ∀ file, fileLines buf (line ++ newline :: file) = first :: fileLines [] file := by
  obtain ⟨buf', later⟩ := fileLines_part clean buf
  refine ⟨endLine buf', fun file => ?_⟩
  rw [later, fileLines, if_pos rfl]

theorem readLine_unended {file : List UInt8} (clean : newline ∉ file) {buf line rest : List UInt8}
    (h : readLine buf file = some (line, rest)) : rest = [] := by
  induction file generalizing buf with
  | nil =>
    rw [readLine] at h
    split at h
    next => cases h
    next => exact (congrArg Prod.snd (Option.some.inj h)).symm
  | cons c file ih =>
    have ordinary : c ≠ newline := fun same => clean (by simp [same])
    rw [readLine, if_neg ordinary] at h
    exact ih (fun mem => clean (by simp [mem])) h

theorem readBack_mem {text : List UInt8} {q : ToolPocket} (h : readBack core text = some q) :
    q ∈ entries core text := by
  obtain ⟨⟨line, rest⟩, read, parsed⟩ := Option.bind_eq_some_iff.mp h
  rw [entries, fileLines_readLine, read]
  exact List.mem_filterMap.mpr ⟨line, List.mem_cons_self, parsed⟩

/-- A file without a newline has the entry that its one line gives, if any. -/
theorem entries_unended {text : List UInt8} (clean : newline ∉ text) :
    entries core text = (readBack core text).toList := by
  rw [entries, fileLines_readLine, readBack]
  cases read : readLine [] text with
  | none => rfl
  | some result =>
    obtain ⟨line, rest⟩ := result
    cases readLine_unended clean read
    cases parsed : parseLine core (.ofBuffer line) with
    | none => simp [fileLines, parsed]
    | some e => simp [fileLines, parsed]

theorem entries_cons {p : ToolPocket} (fits : p.NumbersFit) (clean : newline ∉ p.name.bytes)
    (file : List UInt8) :
    entries core (p.lineText ++ newline :: file) = p.reread core :: entries core file := by
  rw [entries, fileLines_append (lineText_newline clean), List.filterMap_cons,
    parseLine_lineText fits]
  rfl

theorem fileLines_end (buf : List UInt8) : (fileLines buf []).length ≤ 1 := by
  rw [fileLines]
  split <;> simp

/-- What is stored of some lines holds no more lines, even behind bytes that were left over. -/
theorem fileLines_storedText {p : ToolPocket} {ps : List ToolPocket}
    (clean : ∀ q ∈ p :: ps, newline ∉ q.name.bytes) (k : Nat) (buf : List UInt8) :
    (fileLines buf (storedText o k (p :: ps))).length ≤ (p :: ps).length := by
  induction ps generalizing p k buf with
  | nil =>
    rw [storedText_cons]
    by_cases whole : p.lineText.length + 1 ≤ o.stored k
    · obtain ⟨first, lines⟩ := fileLines_whole (lineText_newline (clean p (by simp))) buf
      rw [storedLine_whole whole, List.append_assoc, List.singleton_append, lines]
      simp [storedText, fileLines]
    · obtain ⟨buf', lines⟩ := fileLines_part (storedLine_short whole (clean p (by simp))) buf
      rw [lines]
      exact fileLines_end buf'
  | cons next ps ih =>
    have rest := fun buf => ih (p := next) (fun q hq => clean q (by simp [hq])) (k + 1) buf
    rw [storedText_cons]
    by_cases whole : p.lineText.length + 1 ≤ o.stored k
    · obtain ⟨first, lines⟩ := fileLines_whole (lineText_newline (clean p (by simp))) buf
      rw [storedLine_whole whole, List.append_assoc, List.singleton_append, lines]
      exact Nat.succ_le_succ (rest [])
    · obtain ⟨buf', lines⟩ := fileLines_part (storedLine_short whole (clean p (by simp))) buf
      rw [lines]
      exact (rest buf').trans (Nat.le_succ _)

/-- A line without its newline runs into the next one, so that an entry is missing. -/
theorem entries_storedText_fewer (core : GrblCore) {p next : ToolPocket} {ps : List ToolPocket}
    (clean : ∀ q ∈ p :: next :: ps, newline ∉ q.name.bytes) {k : Nat}
    (short : ¬ p.lineText.length + 1 ≤ o.stored k) :
    (entries core (storedText o k (p :: next :: ps))).length < (p :: next :: ps).length := by
  obtain ⟨buf, lines⟩ := fileLines_part (storedLine_short short (clean p (by simp))) []
  have fewer : (fileLines buf (storedText o (k + 1) (next :: ps))).length ≤ (next :: ps).length :=
    fileLines_storedText (fun q hq => clean q (by simp [hq])) (k + 1) buf
  rw [storedText_cons, entries, lines]
  exact Nat.lt_succ_of_le ((List.length_filterMap_le _ _).trans fewer)

theorem readBack_keeps_iff {p : ToolPocket} (fits : p.NumbersFit) (clean : newline ∉ p.name.bytes) :
    (∃ q, readBack core (p.lineText ++ [newline]) = some q ∧ SameEntry p q) ↔ Keeps core p := by
  rw [readBack_clean fits clean]
  constructor
  · rintro ⟨q, read, same⟩
    cases Option.some.inj read
    exact keeps_of_sameEntry fits clean same
  · exact fun keeps => ⟨_, rfl, keeps.sameEntry⟩

theorem sameEntry_reread_iff {p : ToolPocket} (fits : p.NumbersFit)
    (clean : newline ∉ p.name.bytes) : SameEntry p (p.reread core) ↔ Keeps core p :=
  ⟨keeps_of_sameEntry fits clean, Keeps.sameEntry⟩

theorem stored_same_clean {ps : List ToolPocket} (fits : ∀ p ∈ ps, p.Fits)
    (clean : ∀ p ∈ ps, newline ∉ p.name.bytes) (k : Nat) :
    List.Forall₂ SameEntry ps (entries core (storedText o k ps)) ↔ StoresEntries core o k ps := by
  induction ps generalizing k with
  | nil => exact iff_of_true .nil fun n p h => nomatch h
  | cons p ps ih =>
    have numbers : p.NumbersFit := (fits p (by simp)).1
    have line := clean p (by simp)
    rw [storesEntries_cons]
    by_cases whole : p.lineText.length + 1 ≤ o.stored k
    · rw [storedText_cons, storedLine_whole whole, List.append_assoc, List.singleton_append,
        entries_cons numbers line, List.forall₂_cons, sameEntry_reread_iff numbers line,
        readBack_keeps_iff numbers line,
        ih (fun q hq => fits q (by simp [hq])) (fun q hq => clean q (by simp [hq]))]
      refine and_congr_left fun _ => ⟨fun keeps => Or.inl ⟨whole, keeps⟩, ?_⟩
      rintro (⟨_, keeps⟩ | ⟨_, keeps⟩) <;> exact keeps
    · cases ps with
      | nil =>
        have none : storedText o (k + 1) [] = [] := rfl
        rw [storedText_cons, none, List.append_nil, entries_unended (storedLine_short whole line)]
        cases readBack core (storedLine o k p) with
        | none => simp [whole, StoresEntries]
        | some q => simp [whole, StoresEntries]
      | cons next ps =>
        refine iff_of_false (fun same => ?_) (by simp [whole])
        have fewer := entries_storedText_fewer core clean whole
        exact absurd same.length_eq fewer.ne'

theorem sameEntry_clean {ps : List ToolPocket} {file : List UInt8}
    (same : List.Forall₂ SameEntry ps (entries core file)) :
    ∀ p ∈ ps, newline ∉ p.name.bytes := by
  intro p hp
  obtain ⟨n, hn, rfl⟩ := List.mem_iff_getElem.mp hp
  have near := same.get hn (same.length_eq ▸ hn)
  have clean := (entries_clean (List.get_mem (entries core file) ⟨n, same.length_eq ▸ hn⟩)).1
  rwa [near.name] at clean

theorem storesEntries_clean {ps : List ToolPocket} {k : Nat} (stores : StoresEntries core o k ps) :
    ∀ p ∈ ps, newline ∉ p.name.bytes := by
  intro p hp
  obtain ⟨n, hn⟩ := List.mem_iff_getElem?.mp hp
  rcases stores n p hn with ⟨_, keeps⟩ | ⟨_, q, read, same⟩
  · exact keeps.printable.nameLine
  · have clean := (entries_clean (readBack_mem read)).1
    rwa [same.name] at clean

/-- A table with what was stored of the lines of some entries holds these entries exactly when the
lines are stored whole, but for the last bytes, and keep their entries. -/
theorem stored_same_iff {ps : List ToolPocket} (fits : ∀ p ∈ ps, p.Fits) (k : Nat) :
    List.Forall₂ SameEntry ps (entries core (storedText o k ps)) ↔ StoresEntries core o k ps :=
  ⟨fun same => (stored_same_clean fits (sameEntry_clean same) k).mp same,
    fun stores => (stored_same_clean fits (storesEntries_clean stores) k).mpr stores⟩

/-- Writing the entries of a table back leaves all of them as they are exactly when each of them is
printable. -/
theorem rewritten_same_iff {old : List UInt8} (fits : ∀ e ∈ entries core old, e.Fits) :
    List.Forall₂ SameEntry (entries core old) (entries core (tableText (entries core old))) ↔
      ∀ e ∈ entries core old, Printable e := by
  have clean : ∀ e ∈ entries core old, newline ∉ e.name.bytes := fun e he => (entries_clean he).1
  rw [entries_lines (fun e he => (fits e he).1) clean, List.forall₂_map_right_iff,
    List.forall₂_same]
  refine forall₂_congr fun e he => ?_
  obtain ⟨line, _, parsed⟩ := List.mem_filterMap.mp he
  rw [sameEntry_reread_iff (fits e he).1 (clean e he)]
  exact ⟨Keeps.printable, fun printable =>
    ⟨printable, parseLine_toolId parsed, parseLine_tableName parsed⟩⟩

end GrblhalSim
