import GrblhalSim.ToolLine

namespace GrblhalSim

open DecimalText TextTokens

variable {core : GrblCore}

/-- What is read back from the line of an entry, with the name that is read. -/
def ToolPocket.stored (p : ToolPocket) (name : CString) : ToolPocket where
  pocketId := if 1 ≤ p.pocketId then p.pocketId else -1
  tool := ⟨p.printedTool.toUInt32.toInt32, fun axis => round3 (p.tool.offset axis),
    round3 (p.tool.radius * 2) / 2⟩
  name := name

def ToolPocket.NumbersFit (p : ToolPocket) : Prop :=
  ∀ word ∈ p.numberWords, word.length + 1 < tmpSize

instance (p : ToolPocket) : Decidable p.NumbersFit :=
  inferInstanceAs (Decidable (∀ word ∈ p.numberWords, word.length + 1 < tmpSize))

def ToolPocket.Fits (p : ToolPocket) : Prop := p.NumbersFit ∧ p.lineText.length + 1 < bufSize

instance (p : ToolPocket) : Decidable p.Fits :=
  inferInstanceAs (Decidable (p.NumbersFit ∧ p.lineText.length + 1 < bufSize))

/-- The text of a table with the entries. -/
def tableText (ps : List ToolPocket) : List UInt8 := ps.flatMap fun p => p.lineText ++ [newline]

/-- What is left of the name's part of the line when `read_line` has read it. -/
def ToolPocket.cutName (p : ToolPocket) : List UInt8 :=
  endLine ((nameText p.name).take (lineSize - 1 - p.frontText.length))

/-- The name that the end of a line gives. -/
def nameOf (core : GrblCore) (text : List UInt8) : CString :=
  match tokens isBlank text with
  | [] => .empty
  | first :: words => parseName core first.tail words

/-- What is read back from the line of an entry. -/
def ToolPocket.reread (core : GrblCore) (p : ToolPocket) : ToolPocket :=
  p.stored (nameOf core p.cutName)

theorem toNat_toUInt16 (t : Int32) : (t.toUInt32.toUInt16.toNat : Int) = t.toInt % 65536 := by
  rw [← Int32.toInt_toBitVec, BitVec.toInt_eq_toNat_cond, Int32.toNat_toBitVec,
    UInt32.toNat_toUInt16]
  split <;> omega

theorem toInt_toInt32 (u : UInt16) : u.toUInt32.toInt32.toInt = u.toNat := by
  have := u.toNat_lt
  rw [← Int32.toInt_toBitVec, UInt32.toBitVec_toInt32, BitVec.toInt_eq_toNat_cond,
    UInt32.toNat_toBitVec, UInt16.toNat_toUInt32]
  split <;> omega

theorem ToolPocket.stored_toolId (p : ToolPocket) (name : CString) :
    (p.stored name).tool.toolId.toInt = p.tool.toolId.toInt % 65536 := by
  rw [← toNat_toUInt16]
  exact toInt_toInt32 p.printedTool

/-- The words in front of the name. -/
def ToolPocket.frontWords (p : ToolPocket) : List (List UInt8) :=
  (0x50 :: decimal p.printedPocket.toNat) :: (0x54 :: decimal p.printedTool.toNat) :: p.numberWords

theorem number_bytes {b : UInt8} (h : b = minus ∨ b = point ∨ IsDigit b = true) :
    0x2D ≤ b.toNat := by
  rcases h with rfl | rfl | h
  · decide
  · decide
  · simp only [IsDigit, UInt8.le_iff_toNat_le, Bool.and_eq_true, decide_eq_true_eq] at h
    have : (0x30 : UInt8).toNat = 0x30 := rfl
    omega

theorem mem_numberWords {p : ToolPocket} {word : List UInt8} (h : word ∈ p.numberWords) :
    ∃ letter x, word = letter :: fixed3 x ∧ 0x2D ≤ letter.toNat := by
  rcases List.mem_append.mp h with h | h
  · obtain ⟨axis, _, h⟩ := List.mem_filterMap.mp h
    unfold ToolPocket.offsetWord at h
    split at h
    next =>
      have letters : ∀ axis, 0x2D ≤ (axisLetter axis).toNat := by decide
      exact ⟨_, _, (Option.some.inj h).symm, letters axis⟩
    next => cases h
  · unfold ToolPocket.diameterWord at h
    split at h
    next => exact ⟨_, _, by simpa using h, by decide⟩
    next => cases h

theorem mem_frontWords {p : ToolPocket} {word : List UInt8} (h : word ∈ p.frontWords) :
    word ≠ [] ∧ ∀ b ∈ word, 0x2D ≤ b.toNat := by
  have printed : ∀ n, ∀ b ∈ decimal n, 0x2D ≤ b.toNat := fun n b hb =>
    number_bytes (Or.inr (Or.inr (isDigit_of_mem_decimal hb)))
  rcases List.mem_cons.mp h with rfl | h
  · refine ⟨by simp, fun b hb => ?_⟩
    rcases List.mem_cons.mp hb with rfl | hb
    · decide
    · exact printed _ b hb
  · rcases List.mem_cons.mp h with rfl | h
    · refine ⟨by simp, fun b hb => ?_⟩
      rcases List.mem_cons.mp hb with rfl | hb
      · decide
      · exact printed _ b hb
    · obtain ⟨letter, x, rfl, large⟩ := mem_numberWords h
      refine ⟨by simp, fun b hb => ?_⟩
      rcases List.mem_cons.mp hb with rfl | hb
      · exact large
      · exact number_bytes (mem_fixed3 hb)

theorem frontWords_isWord {p : ToolPocket} {word : List UInt8} (h : word ∈ p.frontWords) :
    IsWord isBlank word := by
  obtain ⟨ne, bytes⟩ := mem_frontWords h
  refine ⟨ne, fun b hb => ?_⟩
  have large := bytes b hb
  simp only [isBlank, Bool.or_eq_false_iff, decide_eq_false_iff_not]
  constructor
  · rintro rfl
    exact absurd large (by decide)
  · rintro rfl
    exact absurd large (by decide)

theorem mem_frontText {p : ToolPocket} {b : UInt8} (h : b ∈ p.frontText) :
    b = blank ∨ 0x2D ≤ b.toNat := by
  rcases List.mem_append.mp h with h | h
  · exact Or.inr ((mem_frontWords (p := p) List.mem_cons_self).2 b h)
  · obtain ⟨word, mem, hb⟩ := List.mem_flatMap.mp h
    rcases List.mem_cons.mp hb with hb | hb
    · exact Or.inl hb
    · exact Or.inr ((mem_frontWords (p := p) (List.mem_cons_of_mem _ mem)).2 b hb)

theorem not_mem_frontText (p : ToolPocket) {b : UInt8} (control : b.toNat < 0x20) :
    b ∉ p.frontText := by
  intro h
  rcases mem_frontText h with rfl | large
  · exact absurd control (by decide)
  · omega

theorem lineText_noNul (p : ToolPocket) : 0 ∉ p.lineText := by
  intro h
  rcases List.mem_append.mp h with h | h
  · exact not_mem_frontText p (by decide) h
  · unfold nameText at h
    split at h
    next => cases h
    next =>
      have : (0 : UInt8) ∈ p.name.bytes := by simpa [blank, semicolon] using h
      exact p.name.noNul this

theorem lineText_newline {p : ToolPocket} (clean : newline ∉ p.name.bytes) :
    newline ∉ p.lineText := by
  intro h
  rcases List.mem_append.mp h with h | h
  · exact not_mem_frontText p (by decide) h
  · unfold nameText at h
    split at h
    next => cases h
    next =>
      have : newline ∈ p.name.bytes := by simpa [blank, semicolon, newline] using h
      exact clean this

theorem tokens_frontText (p : ToolPocket) {rest : List UInt8}
    (after : rest.head? = none ∨ rest.head? = some blank) :
    tokens isBlank (p.frontText ++ rest) = p.frontWords ++ tokens isBlank rest :=
  tokens_fields rfl (fun _ => frontWords_isWord (p := p)) after

theorem decimal_length_uint16 (u : UInt16) : (decimal u.toNat).length ≤ 5 :=
  (decimal_length_le (by decide)).mpr (lt_trans u.toNat_lt (by decide))

theorem flatMap_length {words : List (List UInt8)} (short : ∀ w ∈ words, w.length + 1 < tmpSize) :
    (words.flatMap (blank :: ·)).length ≤ 23 * words.length := by
  induction words with
  | nil => simp
  | cons word words ih =>
    have here := short word (by simp)
    have rest := ih fun w hw => short w (by simp [hw])
    simp only [tmpSize] at here
    simp only [List.flatMap_cons, List.length_append, List.length_cons]
    omega

theorem numberWords_length (p : ToolPocket) : p.numberWords.length ≤ 6 := by
  have offsets : ((List.finRange nAxis).filterMap p.offsetWord).length ≤ 5 :=
    (List.length_filterMap_le _ _).trans (by simp)
  have diameter : p.diameterWord.toList.length ≤ 1 := by cases p.diameterWord <;> simp
  rw [ToolPocket.numberWords, List.length_append]
  omega

theorem frontText_length {p : ToolPocket} (fits : p.NumbersFit) : p.frontText.length ≤ 151 := by
  have numbers := flatMap_length fits
  have := numberWords_length p
  have := decimal_length_uint16 p.printedPocket
  have := decimal_length_uint16 p.printedTool
  simp only [ToolPocket.frontText, List.flatMap_cons, List.length_append, List.length_cons]
  omega

theorem endLine_append {front rest : List UInt8} (ends : front.getLast? ≠ some carriageReturn) :
    endLine (front ++ rest) = front ++ endLine rest := by
  cases rest with
  | nil => simp [endLine, ends]
  | cons c rest =>
    have last : (front ++ c :: rest).getLast? = (c :: rest).getLast? := by
      rw [List.getLast?_append_of_ne_nil _ (by simp)]
    have shorter : (front ++ c :: rest).dropLast = front ++ (c :: rest).dropLast :=
      List.dropLast_append_of_ne_nil (by simp)
    unfold endLine
    rw [last, shorter]
    split
    next => rfl
    next => rfl

theorem endLine_isPrefix (buf : List UInt8) : endLine buf <+: buf := by
  unfold endLine
  split
  next => exact List.dropLast_prefix buf
  next => exact List.prefix_rfl

theorem readLine_append {line : List UInt8} (clean : newline ∉ line) {buf : List UInt8}
    (room : buf.length ≤ lineSize - 1) (file : List UInt8) :
    readLine buf (line ++ newline :: file) =
      some (endLine (buf ++ line.take (lineSize - 1 - buf.length)), file) := by
  induction line generalizing buf with
  | nil => simp [readLine]
  | cons c line ih =>
    have ordinary : c ≠ newline := fun same => clean (by simp [same])
    have clean' : newline ∉ line := fun mem => clean (by simp [mem])
    rw [List.cons_append, readLine, if_neg ordinary]
    split
    next more =>
      have left : lineSize - 1 - buf.length = lineSize - 1 - (buf ++ [c]).length + 1 := by
        rw [List.length_append, List.length_singleton]
        omega
      have room' : (buf ++ [c]).length ≤ lineSize - 1 := by
        rw [List.length_append, List.length_singleton]
        omega
      rw [ih clean' room', left, List.take_succ_cons, List.append_assoc, List.singleton_append]
    next full =>
      have none : lineSize - 1 - buf.length = 0 := by omega
      rw [ih clean' room, none, List.take_zero, List.take_zero]

theorem frontText_getLast (p : ToolPocket) : p.frontText.getLast? ≠ some carriageReturn := by
  intro h
  exact not_mem_frontText p (by decide) (List.mem_of_getLast? h)

theorem endLine_lineText {p : ToolPocket} (fits : p.NumbersFit) :
    endLine (p.lineText.take (lineSize - 1)) = p.frontText ++ p.cutName := by
  have short := frontText_length fits
  have room : p.frontText.length ≤ lineSize - 1 := le_trans short (by decide)
  rw [ToolPocket.lineText, List.take_append, List.take_of_length_le room,
    endLine_append (frontText_getLast p)]
  rfl

theorem cutName_isPrefix (p : ToolPocket) : p.cutName <+: nameText p.name :=
  (endLine_isPrefix _).trans (List.take_prefix _ _)

theorem head_of_begins {name : CString} {text : List UInt8} (begins : text <+: nameText name) :
    text.head? = none ∨ text.head? = some blank := by
  obtain ⟨more, eq⟩ := begins
  cases text with
  | nil => exact Or.inl rfl
  | cons c rest =>
    rw [nameText] at eq
    split at eq
    next => cases eq
    next =>
      rw [List.cons_append] at eq
      exact Or.inr (congrArg some (List.cons.inj eq).1)

theorem axisLetter_field (axis : Fin nAxis) :
    axisLetter axis ≠ 0x54 ∧ axisLetter axis ≠ 0x50 ∧ axisLetter axis ≠ semicolon ∧
      axisOf (axisLetter axis) = some axis ∧ ¬ (0x61 ≤ axisLetter axis ∧ axisLetter axis ≤ 0x7A) := by
  revert axis
  decide

theorem parseWords_field {letter : UInt8} (upper : ¬ (0x61 ≤ letter ∧ letter ≤ 0x7A))
    (field : letter ≠ semicolon) (text : List UInt8) (words : List (List UInt8)) (e : ToolPocket) :
    parseWords core ((letter :: text) :: words) e =
      (readField core letter text e).bind (parseWords core words) := by
  simp only [parseWords, List.headD_cons, List.tail_cons, core.caps_of_not_lower letter upper,
    if_neg field]

/-- The offset of one axis, as it is printed and read again. -/
def ToolPocket.restore (p e : ToolPocket) (axis : Fin nAxis) : ToolPocket :=
  if leastOffset < |p.tool.offset axis| then e.setOffset axis (round3 (p.tool.offset axis)) else e

theorem parseWords_offsets (p : ToolPocket) (axes : List (Fin nAxis)) (words : List (List UInt8))
    (e : ToolPocket) :
    parseWords core (axes.filterMap p.offsetWord ++ words) e =
      parseWords core words (axes.foldl p.restore e) := by
  induction axes generalizing e with
  | nil => rfl
  | cons axis axes ih =>
    obtain ⟨notTool, notPocket, notName, found, upper⟩ := axisLetter_field axis
    rw [List.foldl_cons, ← ih, List.filterMap_cons]
    unfold ToolPocket.offsetWord ToolPocket.restore
    split
    next small =>
      split at small
      next => cases small
      next notLarge => rw [if_neg notLarge]
    next word large =>
      split at large
      next printed =>
        rw [if_pos printed, ← Option.some.inj large, List.cons_append,
          parseWords_field upper notName]
        simp only [readField, if_neg notTool, if_neg notPocket, found, core.readFloat_fixed3]
        rfl
      next => cases large

theorem restore_all (p : ToolPocket) (axes : List (Fin nAxis)) (e : ToolPocket) :
    axes.foldl p.restore e =
      { e with tool.offset := fun axis =>
          if axis ∈ axes ∧ leastOffset < |p.tool.offset axis| then round3 (p.tool.offset axis)
          else e.tool.offset axis } := by
  induction axes generalizing e with
  | nil => simp
  | cons first axes ih =>
    rw [List.foldl_cons, ih]
    unfold ToolPocket.restore
    split
    next large =>
      simp only [ToolPocket.setOffset, ToolPocket.mk.injEq, ToolData.mk.injEq, true_and, and_true]
      funext axis
      by_cases same : axis = first
      · subst same
        simp [large]
      · simp [same]
    next small =>
      simp only [ToolPocket.mk.injEq, ToolData.mk.injEq, true_and, and_true]
      funext axis
      by_cases same : axis = first
      · subst same
        simp [small]
      · simp [same]

theorem readField_pocket (p e : ToolPocket) :
    readField core 0x50 (decimal p.printedPocket.toNat) e =
      some { e with pocketId := if 1 ≤ p.pocketId then p.pocketId else -1 } := by
  have printed := core.readUint_decimal p.printedPocket.toUInt32
  rw [UInt16.toNat_toUInt32] at printed
  have letter : (0x50 : UInt8) ≠ 0x54 := by decide
  rw [readField, if_neg letter, if_pos rfl, printed, Option.map_some]
  unfold ToolPocket.printedPocket
  split
  next pocket =>
    have nonzero : p.pocketId.toUInt16.toUInt32 ≠ 0 := by
      intro zero
      have : p.pocketId = 0 := by
        have := congrArg (fun n => n.toUInt16.toInt16) zero
        simpa using this
      rw [this] at pocket
      exact absurd pocket (by decide)
    rw [if_neg nonzero]
    simp
  next => simp

theorem readField_tool (p e : ToolPocket) :
    readField core 0x54 (decimal p.printedTool.toNat) e =
      some { e with tool.toolId := p.printedTool.toUInt32.toInt32 } := by
  have printed := core.readUint_decimal p.printedTool.toUInt32
  rw [UInt16.toNat_toUInt32] at printed
  rw [readField, if_pos rfl, printed, Option.map_some]

theorem parseWords_diameter (p e : ToolPocket) (unset : e.tool.radius = 0)
    (words : List (List UInt8)) :
    parseWords core (p.diameterWord.toList ++ words) e =
      parseWords core words { e with tool.radius := round3 (p.tool.radius * 2) / 2 } := by
  unfold ToolPocket.diameterWord
  split
  next =>
    have letter : (0x44 : UInt8) ≠ 0x54 ∧ (0x44 : UInt8) ≠ 0x50 ∧ axisOf 0x44 = none := by decide
    rw [Option.toList_some, List.singleton_append, parseWords_field (by decide) (by decide)]
    simp only [readField, if_neg letter.1, if_neg letter.2.1, letter.2.2, core.readFloat_fixed3]
    rfl
  next zero =>
    have none : round3 (p.tool.radius * 2) / 2 = e.tool.radius := by
      rw [not_not.mp zero, unset, zero_mul, round3_small (by norm_num), zero_div]
    rw [none]
    rfl

/-- Parsing the words in front of the name gives all of the entry but the name. -/
theorem parseWords_front (p : ToolPocket) (words : List (List UInt8)) :
    parseWords core (p.frontWords ++ words) .unset =
      parseWords core words (p.stored .empty) := by
  have offsets : ∀ axis, (if axis ∈ List.finRange nAxis ∧ leastOffset < |p.tool.offset axis| then
      round3 (p.tool.offset axis) else 0) = round3 (p.tool.offset axis) := by
    intro axis
    split
    next => rfl
    next small =>
      have notLarge : |p.tool.offset axis| ≤ leastOffset :=
        not_lt.mp fun large => small ⟨List.mem_finRange axis, large⟩
      exact (round3_small (lt_of_le_of_lt notLarge (by norm_num [leastOffset]))).symm
  rw [ToolPocket.frontWords, List.cons_append, parseWords_field (by decide) (by decide),
    readField_pocket, Option.bind_some, List.cons_append, parseWords_field (by decide) (by decide),
    readField_tool, Option.bind_some, ToolPocket.numberWords, List.append_assoc, parseWords_offsets,
    restore_all, parseWords_diameter _ _ rfl]
  simp only [ToolPocket.unset, offsets]
  rfl

theorem parseWords_name {name : CString} {text : List UInt8} (begins : text <+: nameText name)
    (e : ToolPocket) (unset : e.name = .empty) :
    parseWords core (tokens isBlank text) e = some { e with name := nameOf core text } := by
  obtain ⟨more, eq⟩ := begins
  have untouched : parseWords core [] e = some { e with name := .empty } := by
    rw [parseWords, ← unset]
  unfold nameOf
  cases text with
  | nil => exact untouched
  | cons c text =>
    unfold nameText at eq
    split at eq
    next => cases eq
    next =>
      rw [List.cons_append] at eq
      obtain ⟨same, eq⟩ := List.cons.inj eq
      have skip : tokens isBlank (c :: text) = tokens isBlank text := by
        rw [same]
        exact tokens_delim rfl text
      rw [skip]
      cases text with
      | nil => exact untouched
      | cons d text =>
        rw [List.cons_append] at eq
        have start : d = semicolon := (List.cons.inj eq).1
        obtain ⟨word, words, found⟩ :
            ∃ word words, tokens isBlank (semicolon :: text) = (semicolon :: word) :: words :=
          tokens_head rfl text
        have upper : core.caps semicolon = semicolon := core.caps_of_not_lower _ (by decide)
        rw [start, found]
        simp only [parseWords, List.headD_cons, upper, ↓reduceIte]

/-- The front of a line gives the entry back, with the name that the rest of the line gives. -/
theorem parseLine_front (p : ToolPocket) {text : List UInt8} (begins : text <+: nameText p.name) :
    parseLine core (.ofBuffer (p.frontText ++ text)) = some (p.stored (nameOf core text)) := by
  have noNul : 0 ∉ p.frontText ++ text := fun h =>
    lineText_noNul p (((List.prefix_append_right_inj _).mpr begins).subset h)
  have bytes : (CString.ofBuffer (p.frontText ++ text)).bytes = p.frontText ++ text :=
    cString_of_noNul noNul
  have start : (p.frontText ++ text).head? = some 0x50 := rfl
  have valid : (0 : Int32) ≤ (p.stored (nameOf core text)).tool.toolId := by
    rw [Int32.le_iff_toInt_le, ToolPocket.stored_toolId]
    exact Int.emod_nonneg _ (by decide)
  have parsed : parseWords core (tokens isBlank (p.frontText ++ text)) .unset =
      some (p.stored (nameOf core text)) := by
    rw [tokens_frontText p (head_of_begins begins), parseWords_front, parseWords_name begins _ rfl]
    rfl
  rw [parseLine, bytes, start, if_neg (by decide), parsed, Option.filter_some]
  simp [valid]

theorem parseLine_lineText {p : ToolPocket} (fits : p.NumbersFit) :
    parseLine core (.ofBuffer (endLine (p.lineText.take (lineSize - 1)))) =
      some (p.reread core) := by
  rw [endLine_lineText fits]
  exact parseLine_front p (cutName_isPrefix p)

theorem fileLines_append {line : List UInt8} (clean : newline ∉ line) (file : List UInt8) :
    fileLines [] (line ++ newline :: file) =
      endLine (line.take (lineSize - 1)) :: fileLines [] file := by
  rw [fileLines_readLine, readLine_append clean (by simp)]
  rfl

/-- The entries of a file that holds the lines of entries. -/
theorem entries_lines {ps : List ToolPocket} (fits : ∀ p ∈ ps, p.NumbersFit)
    (clean : ∀ p ∈ ps, newline ∉ p.name.bytes) :
    entries core (tableText ps) = ps.map (·.reread core) := by
  induction ps with
  | nil => rfl
  | cons p ps ih =>
    have rest := ih (fun q hq => fits q (by simp [hq])) fun q hq => clean q (by simp [hq])
    rw [tableText, List.flatMap_cons, List.append_assoc, List.singleton_append, entries,
      fileLines_append (lineText_newline (clean p (by simp))), List.filterMap_cons,
      parseLine_lineText (fits p (by simp))]
    exact congrArg (p.reread core :: ·) rest

end GrblhalSim
