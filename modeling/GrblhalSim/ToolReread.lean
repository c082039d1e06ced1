import GrblhalSim.ToolFile
import GrblhalSim.ToolRoundTrip
import Mathlib.Data.List.Flatten

namespace GrblhalSim

open DecimalText TextTokens

variable {core : GrblCore}

abbrev findTool (core : GrblCore) (toolId : Int32) (fs : ToolFs) : Option ToolPocket :=
  fileFind core .succeed toolId fs

/-- The entry keeps its tool when it is printed, and its line is one line that fits the buffers. -/
structure Tame (p : ToolPocket) : Prop where
  low : 0 ≤ p.tool.toolId.toInt
  high : p.tool.toolId.toInt < 65536
  fits : p.Fits
  nameLine : newline ∉ p.name.bytes

theorem fileLines_newline {file buf line : List UInt8} (clean : newline ∉ buf)
    (h : line ∈ fileLines buf file) : newline ∉ line := by
  induction file generalizing buf with
  | nil =>
    rw [fileLines] at h
    split at h
    next => cases h
    next =>
      cases List.mem_singleton.mp h
      exact clean
  | cons c file ih =>
    rw [fileLines] at h
    split at h
    next =>
      rcases List.mem_cons.mp h with rfl | h
      · exact fun mem => clean ((endLine_isPrefix buf).subset mem)
      · exact ih List.not_mem_nil h
    next other =>
      refine ih (fun mem => ?_) h
      split at mem
      next =>
        rcases List.mem_append.mp mem with mem | mem
        · exact clean mem
        · exact other (List.mem_singleton.mp mem).symm
      next => exact clean mem

theorem addWord_newline (core : GrblCore) {name word : List UInt8} (hn : newline ∉ name)
    (hw : newline ∉ word) : newline ∉ addWord core name word := by
  unfold addWord
  split
  next =>
    split
    next => exact hw
    next =>
      have notBlank : newline ≠ blank := by decide
      simp [hn, hw, notBlank]
  next => exact hn

theorem foldl_addWord_newline {words : List (List UInt8)} (each : ∀ w ∈ words, newline ∉ w)
    {name : List UInt8} (clean : newline ∉ name) : newline ∉ words.foldl (addWord core) name := by
  induction words generalizing name with
  | nil => exact clean
  | cons word words ih =>
    have here := addWord_newline core clean (each word List.mem_cons_self)
    exact ih (fun w hw => each w (List.mem_cons_of_mem _ hw)) here

theorem parseName_newline {first : List UInt8} {words : List (List UInt8)}
    (start : newline ∉ first) (each : ∀ w ∈ words, newline ∉ w) :
    newline ∉ (parseName core first words).bytes := by
  intro h
  obtain ⟨b, hb, same⟩ := List.mem_map.mp ((List.takeWhile_sublist _).subset h)
  have cut : newline ∉ first.take (core.nameSize - 1) := fun mem => start (List.mem_of_mem_take mem)
  rcases (nameByte_cases b).2 with kept | percent
  · rw [kept] at same
    exact foldl_addWord_newline each cut (same ▸ hb)
  · rw [percent] at same
    exact absurd same (by decide)

/-- An entry of the table comes from a line, so its name has no newline. -/
theorem entries_clean {file : List UInt8} {e : ToolPocket} (he : e ∈ entries core file) :
    newline ∉ e.name.bytes ∧ 0 ≤ e.tool.toolId.toInt := by
  obtain ⟨line, hline, parsed⟩ := List.mem_filterMap.mp he
  have clean := fileLines_newline List.not_mem_nil hline
  refine ⟨?_, parseLine_toolId parsed⟩
  refine parseLine_named (Q := fun name => newline ∉ name.bytes) List.not_mem_nil
    (fun param words each => ?_) parsed
  have word : ∀ w ∈ param :: words, newline ∉ w := fun w hw mem =>
    clean ((List.takeWhile_sublist _).subset ((each w hw).2 _ mem))
  refine parseName_newline (fun mem => ?_) fun w hw => word w (List.mem_cons_of_mem _ hw)
  exact word param List.mem_cons_self (List.mem_of_mem_tail mem)

theorem Tame.reread_toolId {p : ToolPocket} (h : Tame p) :
    (p.reread core).tool.toolId = p.tool.toolId := by
  have low := h.low
  have high := h.high
  rw [← Int32.toInt_inj, ToolPocket.reread, ToolPocket.stored_toolId]
  omega

theorem reread_pocketId (p : ToolPocket) :
    (p.reread core).pocketId = if 1 ≤ p.pocketId then p.pocketId else -1 := rfl

theorem reread_pocket_iff (p : ToolPocket) : 1 ≤ (p.reread core).pocketId ↔ 1 ≤ p.pocketId := by
  rw [reread_pocketId]
  split
  next pocket => exact Iff.rfl
  next none => exact iff_of_false (show ¬ (1 : Int16) ≤ -1 by decide) none

theorem entries_tableText {ps : List ToolPocket} (tame : ∀ p ∈ ps, Tame p) :
    entries core (tableText ps) = ps.map (·.reread core) :=
  entries_lines (fun p hp => (tame p hp).fits.1) fun p hp => (tame p hp).nameLine

theorem findTool_table (toolId : Int32) (old : List UInt8) (tmp : Option (List UInt8)) :
    findTool core toolId (some ⟨some old, tmp⟩) =
      (entries core old).find? fun e => e.tool.toolId = toolId := rfl

theorem findTool_tableText {ps : List ToolPocket} (tame : ∀ p ∈ ps, Tame p) (toolId : Int32)
    (tmp : Option (List UInt8)) :
    findTool core toolId (some ⟨some (tableText ps), tmp⟩) =
      (ps.find? fun p => p.tool.toolId = toolId).map (·.reread core) := by
  have find : ∀ qs : List ToolPocket, (∀ p ∈ qs, Tame p) →
      (qs.map (·.reread core)).find? (fun e => e.tool.toolId = toolId) =
        (qs.find? fun p => p.tool.toolId = toolId).map (·.reread core) := by
    intro qs tame
    induction qs with
    | nil => rfl
    | cons q qs ih =>
      have rest := ih fun p hp => tame p (by simp [hp])
      rw [List.map_cons, List.find?_cons, List.find?_cons, (tame q (by simp)).reread_toolId]
      split
      next => rfl
      next => exact rest
  rw [findTool_table, entries_tableText tame, find ps tame]

/-- A tool that is new in the table is found with the entry that is appended. -/
theorem findTool_append {old : List UInt8} {tmp tmp' : Option (List UInt8)} {p : ToolPocket}
    (tame : ∀ q ∈ entries core old ++ [p], Tame q)
    (missing : findTool core p.tool.toolId (some ⟨some old, tmp⟩) = none) :
    findTool core p.tool.toolId (some ⟨some (tableText (entries core old ++ [p])), tmp'⟩) =
      some (p.reread core) := by
  rw [findTool_table] at missing
  rw [findTool_tableText tame, List.find?_append, missing]
  simp

theorem reread_printedPocket (core : GrblCore) (p : ToolPocket) :
    (p.reread core).printedPocket = p.printedPocket := by
  unfold ToolPocket.printedPocket
  rw [reread_pocketId]
  by_cases pocket : 1 ≤ p.pocketId
  · rw [if_pos pocket, if_pos pocket]
  · rw [if_neg pocket, if_neg pocket]
    rfl

theorem reread_printedTool (core : GrblCore) (p : ToolPocket) :
    (p.reread core).printedTool = p.printedTool := by
  change p.printedTool.toUInt32.toInt32.toUInt32.toUInt16 = p.printedTool
  simp

theorem filterMap_sublist {α β : Type} {f g : α → Option β} (fewer : ∀ a, f a = none ∨ f a = g a)
    (l : List α) : (l.filterMap f).Sublist (l.filterMap g) := by
  induction l with
  | nil => exact List.Sublist.refl _
  | cons a l ih =>
    rw [List.filterMap_cons, List.filterMap_cons]
    rcases fewer a with none | same
    · rw [none]
      cases g a with
      | none => exact ih
      | some b => exact ih.cons b
    · rw [same]
      cases g a with
      | none => exact ih
      | some b => exact ih.cons_cons b

/-- A word of an offset that was rounded is gone or is the same. -/
theorem offsetWord_rounded {p q : ToolPocket} (axis : Fin nAxis)
    (offset : q.tool.offset axis = p.tool.offset axis ∨
      q.tool.offset axis = round3 (p.tool.offset axis)) :
    q.offsetWord axis = none ∨ q.offsetWord axis = p.offsetWord axis := by
  unfold ToolPocket.offsetWord
  rcases offset with kept | rounded
  · exact Or.inr (by rw [kept])
  · rw [rounded]
    by_cases zero : round3 (p.tool.offset axis) = 0
    · rw [zero, abs_zero, if_neg (by norm_num [leastOffset])]
      exact Or.inl rfl
    · have large : leastOffset < |p.tool.offset axis| := by
        by_contra small
        refine zero (round3_small (lt_of_le_of_lt (not_lt.mp small) ?_))
        norm_num [leastOffset]
      rw [if_pos large, fixed3_round3 zero]
      exact (ite_eq_or_eq _ _ _).symm

theorem diameterWord_rounded {p q : ToolPocket}
    (diameter : q.tool.radius = p.tool.radius ∨ q.tool.radius * 2 = round3 (p.tool.radius * 2)) :
    q.diameterWord = none ∨ q.diameterWord = p.diameterWord := by
  unfold ToolPocket.diameterWord
  rcases diameter with kept | rounded
  · exact Or.inr (by rw [kept])
  · by_cases zero : round3 (p.tool.radius * 2) = 0
    · have none : q.tool.radius = 0 := by linarith
      exact Or.inl (if_neg (not_not.mpr none))
    · have some : q.tool.radius ≠ 0 := fun none => zero (by rw [← rounded, none, zero_mul])
      have before : p.tool.radius ≠ 0 := by
        intro none
        refine zero (round3_small ?_)
        rw [none, zero_mul, abs_zero]
        norm_num
      rw [if_pos some, if_pos before, rounded, fixed3_round3 zero]
      exact Or.inr rfl

/-- Numbers that are kept or rounded print no more words than before. -/
theorem numberWords_sublist {p q : ToolPocket}
    (offsets : ∀ axis, q.tool.offset axis = p.tool.offset axis ∨
      q.tool.offset axis = round3 (p.tool.offset axis))
    (diameter : q.tool.radius = p.tool.radius ∨ q.tool.radius * 2 = round3 (p.tool.radius * 2)) :
    q.numberWords.Sublist p.numberWords := by
  refine List.Sublist.append (filterMap_sublist (fun axis => offsetWord_rounded axis (offsets axis))
    _) ?_
  rcases diameterWord_rounded diameter with none | same
  · rw [none]
    exact List.nil_sublist _
  · rw [same]

theorem ToolPocket.Fits.shrink {p q : ToolPocket} (fits : p.Fits)
    (pocket : q.printedPocket = p.printedPocket) (tool : q.printedTool = p.printedTool)
    (words : q.numberWords.Sublist p.numberWords)
    (name : (nameText q.name).length ≤ (nameText p.name).length) : q.Fits := by
  refine ⟨fun word hw => fits.1 word (words.subset hw), ?_⟩
  have numbers := ((words.cons_cons (0x54 :: decimal p.printedTool.toNat)).flatMap
    (blank :: ·)).length_le
  have line := fits.2
  simp only [ToolPocket.lineText, ToolPocket.frontText, List.length_append, List.length_cons,
    pocket, tool] at line ⊢
  omega

theorem reread_nameText (core : GrblCore) (p : ToolPocket) :
    (nameText (p.reread core).name).length ≤ (nameText p.name).length := by
  have begins := cutName_isPrefix p
  have written := begins.length_le
  have name : (p.reread core).name = nameOf core p.cutName := rfl
  rw [name]
  by_cases empty : (nameOf core p.cutName).bytes = []
  · rw [nameText, if_pos empty]
    exact Nat.zero_le _
  · have short := (nameOf_length core begins).resolve_left empty
    have := nameText_length empty
    omega

theorem reread_offset (p : ToolPocket) (axis : Fin nAxis) :
    (p.reread core).tool.offset axis = round3 (p.tool.offset axis) := rfl

theorem reread_diameter (p : ToolPocket) :
    (p.reread core).tool.radius * 2 = round3 (p.tool.radius * 2) := by
  have half : (p.reread core).tool.radius = round3 (p.tool.radius * 2) / 2 := rfl
  rw [half, div_mul_cancel₀ _ (by norm_num)]

/-- An entry that was read back from the table fits again. -/
theorem ToolPocket.Fits.reread {p : ToolPocket} (fits : p.Fits) : (p.reread core).Fits :=
  fits.shrink (reread_printedPocket core p) (reread_printedTool core p)
    (numberWords_sublist (fun axis => Or.inr (reread_offset p axis)) (Or.inr (reread_diameter p)))
    (reread_nameText core p)

theorem ToolPocket.Fits.reread_setData {p : ToolPocket} {data : ToolData}
    (same : (p.reread core).tool.toolId = p.tool.toolId) (fits : (p.setData data).Fits) :
    ((p.reread core).setData data).Fits := by
  unfold ToolPocket.setData at fits ⊢
  rw [same]
  split at fits
  next found =>
    rw [if_pos found]
    exact fits.shrink (reread_printedPocket core p) (reread_printedTool core p)
      (numberWords_sublist (fun _ => Or.inl rfl) (Or.inl rfl)) (reread_nameText core p)
  next other =>
    rw [if_neg other]
    exact fits.reread

theorem Tame.reread {p : ToolPocket} (h : Tame p) (clean : newline ∉ (p.reread core).name.bytes) :
    Tame (p.reread core) where
  low := by
    rw [h.reread_toolId]
    exact h.low
  high := by
    rw [h.reread_toolId]
    exact h.high
  fits := h.fits.reread
  nameLine := clean

end GrblhalSim
