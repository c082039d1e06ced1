import GrblhalSim.ToolText

namespace GrblhalSim

open DecimalText TextTokens

variable {core : GrblCore}

/-- The entry that `read_line` and `parse_line` give from the front of a text. -/
def readBack (core : GrblCore) (text : List UInt8) : Option ToolPocket :=
  (readLine [] text).bind fun read => parseLine core (.ofBuffer read.1)

/-- What is read back, `q`, for `p`: the same up to half a thousandth in its lengths. -/
structure SameEntry (p q : ToolPocket) : Prop where
  toolId : q.tool.toolId = p.tool.toolId
  pocket : q.pocketId = p.pocketId ∨ ¬ 1 ≤ q.pocketId ∧ ¬ 1 ≤ p.pocketId
  name : q.name = p.name
  offset : ∀ axis, |q.tool.offset axis - p.tool.offset axis| ≤ 1 / 2000
  diameter : |q.tool.radius * 2 - p.tool.radius * 2| ≤ 1 / 2000

def RoundTrips (core : GrblCore) (p : ToolPocket) : Prop :=
  ∃ text q, writePocketLine p = some text ∧ readBack core text = some q ∧ SameEntry p q

structure Printable (p : ToolPocket) : Prop where
  toolId : p.tool.toolId.toInt < 65536
  offset : ∀ axis, ShortText (p.tool.offset axis)
  diameter : ShortText (p.tool.radius * 2)
  line : p.lineText.length < lineSize
  nameEnd : p.name.bytes.getLast? ≠ some carriageReturn
  nameLine : newline ∉ p.name.bytes

theorem shortText_zero : ShortText 0 := by
  constructor <;> norm_num

theorem shortText_small {x : ℚ} (h : |x| ≤ leastOffset) : ShortText x := by
  obtain ⟨low, high⟩ := abs_le.mp h
  constructor <;> norm_num [leastOffset] at * <;> linarith

theorem numbersFit_iff (p : ToolPocket) :
    p.NumbersFit ↔ (∀ axis, ShortText (p.tool.offset axis)) ∧ ShortText (p.tool.radius * 2) := by
  have word : ∀ (letter : UInt8) x, (letter :: fixed3 x).length + 1 < tmpSize ↔ ShortText x := by
    intro letter x
    rw [← fixed3_length, List.length_cons, tmpSize]
    omega
  constructor
  · intro fits
    constructor
    · intro axis
      by_cases large : leastOffset < |p.tool.offset axis|
      · refine (word (axisLetter axis) _).mp (fits _ (List.mem_append_left _ ?_))
        exact List.mem_filterMap.mpr
          ⟨axis, List.mem_finRange axis, by rw [ToolPocket.offsetWord, if_pos large]⟩
      · exact shortText_small (not_lt.mp large)
    · by_cases zero : p.tool.radius = 0
      · rw [zero, zero_mul]
        exact shortText_zero
      · refine (word 0x44 _).mp (fits _ (List.mem_append_right _ ?_))
        simp [ToolPocket.diameterWord, zero]
  · rintro ⟨offsets, diameter⟩ w hw
    rcases List.mem_append.mp hw with hw | hw
    · obtain ⟨axis, _, hw⟩ := List.mem_filterMap.mp hw
      unfold ToolPocket.offsetWord at hw
      split at hw
      next =>
        cases Option.some.inj hw
        exact (word _ _).mpr (offsets axis)
      next => cases hw
    · unfold ToolPocket.diameterWord at hw
      split at hw
      next =>
        cases List.mem_singleton.mp hw
        exact (word _ _).mpr diameter
      next => cases hw

/-- A name as `parse_line` makes it: words with one blank between each two, no bar, no longer than
the name of an entry. -/
structure TidyName (core : GrblCore) (name : List UInt8) : Prop where
  words : ∃ words, name = join blank words ∧ ∀ w ∈ words, IsWord isBlank w ∧ 0 ∉ w
  short : name.length ≤ core.nameSize - 1

theorem addWord_tidy {name word : List UInt8} (tidy : TidyName core name)
    (isWord : IsWord isBlank word) (noNul : 0 ∉ word) : TidyName core (addWord core name word) := by
  unfold addWord
  split
  next room =>
    split
    next => exact ⟨⟨[word], by simp [join], by simpa using ⟨isWord, noNul⟩⟩, by omega⟩
    next nonempty =>
      obtain ⟨words, rfl, each⟩ := tidy.words
      have some : words ≠ [] := fun none => nonempty (by rw [none]; rfl)
      refine ⟨⟨words ++ [word], (join_concat some).symm, fun w hw => ?_⟩, ?_⟩
      · rcases List.mem_append.mp hw with hw | hw
        · exact each w hw
        · cases List.mem_singleton.mp hw
          exact ⟨isWord, noNul⟩
      · rw [List.length_append, List.length_cons]
        omega
  next => exact tidy

theorem foldl_addWord_tidy {words : List (List UInt8)}
    (each : ∀ w ∈ words, IsWord isBlank w ∧ 0 ∉ w) {name : List UInt8}
    (tidy : TidyName core name) : TidyName core (words.foldl (addWord core) name) := by
  induction words generalizing name with
  | nil => exact tidy
  | cons word words ih =>
    obtain ⟨isWord, noNul⟩ := each word (by simp)
    exact ih (fun w hw => each w (by simp [hw])) (addWord_tidy tidy isWord noNul)

theorem nameByte_cases (c : UInt8) : nameByte c ≠ 0x7C ∧ (nameByte c = c ∨ nameByte c = 0x25) := by
  unfold nameByte
  split
  next => exact ⟨by decide, Or.inr rfl⟩
  next other => exact ⟨other, Or.inl rfl⟩

theorem nameByte_word {w : List UInt8} (isWord : IsWord isBlank w) (noNul : 0 ∉ w) :
    IsWord isBlank (w.map nameByte) ∧ 0 ∉ w.map nameByte := by
  refine ⟨⟨by simpa using isWord.nonempty, fun c hc => ?_⟩, fun h => ?_⟩
  · obtain ⟨b, hb, rfl⟩ := List.mem_map.mp hc
    rcases (nameByte_cases b).2 with same | percent
    · rw [same]
      exact isWord.clean b hb
    · rw [percent]
      rfl
  · obtain ⟨b, hb, zero⟩ := List.mem_map.mp h
    rcases (nameByte_cases b).2 with same | percent
    · rw [same] at zero
      exact noNul (zero ▸ hb)
    · rw [percent] at zero
      exact absurd zero (by decide)

theorem TidyName.noNul {name : List UInt8} (tidy : TidyName core name) : 0 ∉ name := by
  obtain ⟨words, rfl, each⟩ := tidy.words
  intro h
  rcases mem_join h with h | ⟨w, hw, h⟩
  · exact absurd h (by decide)
  · exact (each w hw).2 h

theorem TidyName.map_nameByte {name : List UInt8} (tidy : TidyName core name) :
    TidyName core (name.map nameByte) := by
  obtain ⟨words, rfl, each⟩ := tidy.words
  refine ⟨⟨words.map (List.map nameByte), map_join rfl words, fun w hw => ?_⟩, ?_⟩
  · obtain ⟨v, hv, rfl⟩ := List.mem_map.mp hw
    exact nameByte_word (each v hv).1 (each v hv).2
  · rw [List.length_map]
    exact tidy.short

/-- A name as it stands in a table entry: tidy, and with no bar left. -/
def TableName (core : GrblCore) (name : CString) : Prop :=
  TidyName core name.bytes ∧ 0x7C ∉ name.bytes

theorem parseName_tableName {first : List UInt8} (clean : ∀ b ∈ first, isBlank b = false)
    (noNul : 0 ∉ first) {words : List (List UInt8)}
    (each : ∀ w ∈ words, IsWord isBlank w ∧ 0 ∉ w) : TableName core (parseName core first words) := by
  have start : TidyName core (first.take (core.nameSize - 1)) := by
    refine ⟨?_, by rw [List.length_take]; omega⟩
    by_cases empty : first.take (core.nameSize - 1) = []
    · exact ⟨[], by rw [empty]; rfl, by simp⟩
    · refine ⟨[first.take (core.nameSize - 1)], by simp [join], fun w hw => ?_⟩
      cases List.mem_singleton.mp hw
      exact ⟨⟨empty, fun c hc => clean c (List.mem_of_mem_take hc)⟩,
        fun h => noNul (List.mem_of_mem_take h)⟩
  have tidy := (foldl_addWord_tidy each start).map_nameByte
  have bytes : (parseName core first words).bytes =
      (words.foldl (addWord core) (first.take (core.nameSize - 1))).map nameByte :=
    cString_of_noNul tidy.noNul
  rw [TableName, bytes]
  refine ⟨tidy, fun h => ?_⟩
  obtain ⟨b, _, bar⟩ := List.mem_map.mp h
  exact (nameByte_cases b).1 bar

theorem readField_name {letter : UInt8} {text : List UInt8} {e e' : ToolPocket}
    (h : readField core letter text e = some e') : e'.name = e.name := by
  have map : ∀ {α : Type} {f : α → ToolPocket} {o : Option α}, o.map f = some e' →
      (∀ a, (f a).name = e.name) → e'.name = e.name := by
    intro α f o h keeps
    obtain ⟨a, _, rfl⟩ := Option.map_eq_some_iff.mp h
    exact keeps a
  unfold readField at h
  split at h
  next => exact map h fun _ => rfl
  next =>
    split at h
    next => exact map h fun _ => rfl
    next =>
      split at h
      next => exact map h fun _ => rfl
      next =>
        split at h
        next => exact map h fun _ => rfl
        next => exact congrArg ToolPocket.name (Option.some.inj h).symm

/-- What the name of a line's entry is made of: some of the line's words. -/
theorem parseWords_named {Q : CString → Prop} {R : List UInt8 → Prop}
    (named : ∀ param words, (∀ w ∈ param :: words, R w) → Q (parseName core param.tail words))
    {words : List (List UInt8)} (each : ∀ w ∈ words, R w) {e e' : ToolPocket} (start : Q e.name)
    (h : parseWords core words e = some e') : Q e'.name := by
  induction words generalizing e with
  | nil =>
    cases Option.some.inj h
    exact start
  | cons param words ih =>
    simp only [parseWords] at h
    split at h
    next =>
      cases Option.some.inj h
      exact named param words each
    next =>
      obtain ⟨next, read, h⟩ := Option.bind_eq_some_iff.mp h
      exact ih (fun w hw => each w (List.mem_cons_of_mem _ hw)) (readField_name read ▸ start) h

theorem parseLine_named {Q : CString → Prop} {line : CString} {p : ToolPocket} (empty : Q .empty)
    (named : ∀ param words, (∀ w ∈ param :: words, IsWord isBlank w ∧ ∀ b ∈ w, b ∈ line.bytes) →
      Q (parseName core param.tail words))
    (h : parseLine core line = some p) : Q p.name := by
  unfold parseLine at h
  split at h
  next => cases h
  next =>
    obtain ⟨h, _⟩ := Option.filter_eq_some_iff.mp h
    refine parseWords_named named (fun w hw => ?_) empty h
    exact ⟨isWord_of_mem hw, fun b hb => mem_of_mem_tokens hw hb⟩

theorem parseLine_tableName {line : CString} {p : ToolPocket} (h : parseLine core line = some p) :
    TableName core p.name := by
  refine parseLine_named (Q := TableName core) ?_ (fun param words each => ?_) h
  · exact ⟨⟨⟨[], rfl, by simp⟩, Nat.zero_le _⟩, List.not_mem_nil⟩
  · have noNul : ∀ w ∈ param :: words, 0 ∉ w := fun w hw zero =>
      line.noNul ((each w hw).2 0 zero)
    refine parseName_tableName (fun b hb => ?_) (fun zero => ?_) fun w hw => ?_
    · exact (each param (by simp)).1.clean b (List.mem_of_mem_tail hb)
    · exact noNul param (by simp) (List.mem_of_mem_tail zero)
    · exact ⟨(each w (by simp [hw])).1, noNul w (by simp [hw])⟩

theorem parseLine_toolId {line : CString} {p : ToolPocket} (h : parseLine core line = some p) :
    0 ≤ p.tool.toolId.toInt := by
  unfold parseLine at h
  split at h
  next => cases h
  next =>
    obtain ⟨_, h⟩ := Option.filter_eq_some_iff.mp h
    simpa [Int32.le_iff_toInt_le] using h

theorem foldl_addWord_short {words : List (List UInt8)} {name : List UInt8} (nonempty : name ≠ [])
    (short : (name ++ words.flatMap (blank :: ·)).length ≤ core.nameSize - 1) :
    words.foldl (addWord core) name = name ++ words.flatMap (blank :: ·) := by
  induction words generalizing name with
  | nil => simp
  | cons word words ih =>
    have total : name ++ (word :: words).flatMap (blank :: ·) =
        (name ++ blank :: word) ++ words.flatMap (blank :: ·) := by simp
    rw [total] at short ⊢
    have room : name.length + word.length + 1 ≤ core.nameSize - 1 := by
      simp only [List.length_append, List.length_cons] at short
      omega
    rw [List.foldl_cons, addWord, if_pos room, if_neg nonempty]
    exact ih (by simp) short

/-- A table name that is printed whole is read back. -/
theorem nameOf_nameText {name : CString} (table : TableName core name) :
    nameOf core (nameText name) = name := by
  obtain ⟨⟨⟨words, eq, each⟩, short⟩, noBar⟩ := table
  have same : ∀ {other : CString}, other.bytes = name.bytes → other = name := by
    intro other h
    cases other
    cases name
    cases h
    rfl
  cases words with
  | nil =>
    have empty : name.bytes = [] := eq
    rw [nameOf, nameText, if_pos empty, tokens_nil]
    exact same empty.symm
  | cons first words =>
    have nonempty := (each first (by simp)).1.nonempty
    rw [join_flatMap] at eq
    have text : nameText name = blank :: ([semicolon] ++ join blank (first :: words)) := by
      rw [nameText, if_neg (by rw [eq]; simp [nonempty]), join_flatMap, eq]
      rfl
    have found : tokens isBlank (nameText name) = ([semicolon] ++ first) :: words := by
      rw [text, tokens_delim rfl]
      have front : ∀ c ∈ [semicolon], isBlank c = false := List.forall_mem_singleton.mpr rfl
      exact tokens_append_join rfl [semicolon] front fun w hw => (each w hw).1
    have whole : first.take (core.nameSize - 1) = first := by
      refine List.take_of_length_le ?_
      rw [eq, List.length_append] at short
      omega
    have unchanged : name.bytes.map nameByte = name.bytes := by
      refine (List.map_congr_left fun c hc => ?_).trans (List.map_id _)
      have notBar : c ≠ 0x7C := fun bar => noBar (bar ▸ hc)
      rw [nameByte, if_neg notBar]
      rfl
    rw [nameOf, found]
    refine same ?_
    change (parseName core first words).bytes = name.bytes
    rw [parseName, whole,
      foldl_addWord_short nonempty (eq ▸ short), ← eq, unchanged]
    exact cString_of_noNul name.noNul

theorem addWord_length (core : GrblCore) (name word : List UInt8) :
    (addWord core name word).length ≤ name.length + (word.length + 1) := by
  unfold addWord
  split
  next =>
    split
    next => omega
    next => rw [List.length_append, List.length_cons]
  next => omega

theorem foldl_addWord_length (core : GrblCore) (words : List (List UInt8)) (name : List UInt8) :
    (words.foldl (addWord core) name).length ≤
      name.length + (words.map fun word => word.length + 1).sum := by
  induction words generalizing name with
  | nil => simp
  | cons word words ih =>
    have := ih (addWord core name word)
    have := addWord_length core name word
    rw [List.foldl_cons, List.map_cons, List.sum_cons]
    omega

theorem parseName_length (core : GrblCore) (first : List UInt8) (words : List (List UInt8)) :
    (parseName core first words).bytes.length ≤
      first.length + (words.map fun word => word.length + 1).sum := by
  have all := foldl_addWord_length core words (first.take (core.nameSize - 1))
  have cut := List.length_take_le' (core.nameSize - 1) first
  have stop : (parseName core first words).bytes.length ≤
      ((words.foldl (addWord core) (first.take (core.nameSize - 1))).map nameByte).length :=
    (List.takeWhile_sublist _).length_le
  rw [List.length_map] at stop
  exact (stop.trans all).trans (by omega)

/-- The name that is read is no longer than what stands behind the semicolon. -/
theorem nameOf_length (core : GrblCore) {name : CString} {text : List UInt8}
    (begins : text <+: nameText name) :
    (nameOf core text).bytes = [] ∨ (nameOf core text).bytes.length + 2 ≤ text.length := by
  unfold nameOf
  cases found : tokens isBlank text with
  | nil => exact Or.inl rfl
  | cons first words =>
    refine Or.inr ?_
    have start := head_of_begins begins
    cases text with
    | nil =>
      rw [tokens_nil] at found
      cases found
    | cons c text =>
      have same : c = blank := by simpa using start
      rw [same, tokens_delim rfl] at found
      have total := tokens_length isBlank text
      have mem : first ∈ tokens isBlank text := by
        rw [found]
        exact List.mem_cons_self
      have nonempty := (isWord_of_mem mem).nonempty
      have length := parseName_length core first.tail words
      have := List.length_pos_iff.mpr nonempty
      rw [found, List.map_cons, List.sum_cons] at total
      rw [List.length_tail] at length
      rw [List.length_cons]
      change (parseName core first.tail words).bytes.length + 2 ≤ _
      omega

theorem nameText_length {name : CString} (nonempty : name.bytes ≠ []) :
    (nameText name).length = name.bytes.length + 2 := by
  rw [nameText, if_neg nonempty, List.length_cons, List.length_cons]

/-- A name of which less is read than was written is read as another one. -/
theorem nameOf_ne {name : CString} {text : List UInt8} (begins : text <+: nameText name)
    (less : text.length < (nameText name).length) : nameOf core text ≠ name := by
  intro same
  have nonempty : name.bytes ≠ [] := by
    intro empty
    rw [nameText, if_pos empty] at less
    exact absurd less (Nat.not_lt_zero _)
  rcases nameOf_length core begins with empty | short
  · exact nonempty (same ▸ empty)
  · rw [same] at short
    rw [nameText_length nonempty] at less
    omega

theorem nameText_getLast (name : CString) :
    (nameText name).getLast? = some carriageReturn ↔
      name.bytes.getLast? = some carriageReturn := by
  unfold nameText
  split
  next empty => rw [empty]
  next nonempty =>
    obtain ⟨c, rest, eq⟩ := List.exists_cons_of_ne_nil nonempty
    rw [eq]
    rfl

/-- All of the name is read exactly when the line is short enough and does not end with a carriage
return. -/
theorem cutName_whole_iff {p : ToolPocket} (fits : p.NumbersFit) :
    p.cutName = nameText p.name ↔
      p.lineText.length < lineSize ∧ p.name.bytes.getLast? ≠ some carriageReturn := by
  have short := frontText_length fits
  have total : p.lineText.length = p.frontText.length + (nameText p.name).length :=
    List.length_append
  have ends : p.name.bytes.getLast? ≠ some carriageReturn ↔
      (nameText p.name).getLast? ≠ some carriageReturn := (not_congr (nameText_getLast _)).symm
  rw [ends]
  constructor
  · intro whole
    have lengths := congrArg List.length whole
    have read := (endLine_isPrefix ((nameText p.name).take
      (lineSize - 1 - p.frontText.length))).length_le
    rw [ToolPocket.cutName] at lengths
    rw [List.length_take] at read
    have fit : (nameText p.name).length ≤ lineSize - 1 - p.frontText.length := by omega
    refine ⟨by simp only [lineSize] at *; omega, fun last => ?_⟩
    have nonempty : (nameText p.name) ≠ [] := by
      intro empty
      rw [empty] at last
      cases last
    rw [List.take_of_length_le fit, endLine, if_pos last, List.length_dropLast] at lengths
    have := List.length_pos_iff.mpr nonempty
    omega
  · rintro ⟨line, last⟩
    have fit : (nameText p.name).length ≤ lineSize - 1 - p.frontText.length := by omega
    rw [ToolPocket.cutName, List.take_of_length_le fit, endLine, if_neg last]

theorem readBack_clean {p : ToolPocket} (fits : p.NumbersFit) (clean : newline ∉ p.name.bytes) :
    readBack core (p.lineText ++ [newline]) = some (p.reread core) := by
  rw [readBack, readLine_append (lineText_newline clean) (Nat.zero_le _), Option.bind_some]
  exact parseLine_lineText fits

/-- A newline in the name ends the line within the name. -/
theorem readBack_broken (core : GrblCore) {p : ToolPocket} (fits : p.NumbersFit)
    (broken : newline ∈ p.name.bytes) :
    ∃ text, text <+: nameText p.name ∧ text.length < (nameText p.name).length ∧
      readBack core (p.lineText ++ [newline]) = some (p.stored (nameOf core text)) := by
  have nonempty : p.name.bytes ≠ [] := List.ne_nil_of_mem broken
  have mem : newline ∈ nameText p.name := by
    rw [nameText, if_neg nonempty]
    exact List.mem_cons_of_mem _ (List.mem_cons_of_mem _ broken)
  obtain ⟨before, after, eq, clean⟩ := List.eq_append_cons_of_mem mem
  have line : p.lineText ++ [newline] =
      (p.frontText ++ before) ++ newline :: (after ++ [newline]) := by
    rw [ToolPocket.lineText, eq]
    simp
  have clean' : newline ∉ p.frontText ++ before := by
    intro h
    rcases List.mem_append.mp h with h | h
    · exact not_mem_frontText p (by decide) h
    · exact clean h
  have room : p.frontText.length ≤ lineSize - 1 := (frontText_length fits).trans (by decide)
  have read := (endLine_isPrefix (before.take (lineSize - 1 - p.frontText.length))).trans
    (List.take_prefix _ _)
  have begins : before <+: nameText p.name := ⟨newline :: after, eq.symm⟩
  refine ⟨endLine (before.take (lineSize - 1 - p.frontText.length)), read.trans begins, ?_, ?_⟩
  · have := read.length_le
    rw [eq, List.length_append, List.length_cons]
    omega
  · rw [readBack, line, readLine_append clean' (Nat.zero_le _), Option.bind_some, List.nil_append,
      List.length_nil, Nat.sub_zero, List.take_append, List.take_of_length_le room,
      endLine_append (frontText_getLast p)]
    exact parseLine_front p (read.trans begins)

/-- The entry is printable, with a tool id and a name that a line can give. -/
structure Keeps (core : GrblCore) (p : ToolPocket) : Prop where
  printable : Printable p
  positive : 0 ≤ p.tool.toolId.toInt
  table : TableName core p.name

theorem Keeps.numbersFit {p : ToolPocket} (keeps : Keeps core p) : p.NumbersFit :=
  (numbersFit_iff p).mpr ⟨keeps.printable.offset, keeps.printable.diameter⟩

theorem Keeps.fits {p : ToolPocket} (keeps : Keeps core p) : p.Fits := by
  refine ⟨keeps.numbersFit, ?_⟩
  have := keeps.printable.line
  simp only [lineSize, bufSize] at *
  omega

theorem Keeps.sameEntry {p : ToolPocket} (keeps : Keeps core p) : SameEntry p (p.reread core) where
  toolId := by
    have small := keeps.printable.toolId
    have positive := keeps.positive
    rw [← Int32.toInt_inj, ToolPocket.reread, ToolPocket.stored_toolId]
    omega
  pocket := by
    rw [ToolPocket.reread, ToolPocket.stored]
    by_cases pocket : 1 ≤ p.pocketId
    · exact Or.inl (if_pos pocket)
    · refine Or.inr ⟨?_, pocket⟩
      rw [if_neg pocket]
      exact show ¬ (1 : Int16) ≤ -1 by decide
  name := by
    have whole := (cutName_whole_iff keeps.numbersFit).mpr
      ⟨keeps.printable.line, keeps.printable.nameEnd⟩
    rw [ToolPocket.reread, whole]
    exact nameOf_nameText keeps.table
  offset axis := round3_near _
  diameter := by
    have near := round3_near (p.tool.radius * 2)
    simpa [ToolPocket.reread, ToolPocket.stored] using near

/-- An entry whose line is read back as itself is kept. -/
theorem keeps_of_sameEntry {p : ToolPocket} (fits : p.NumbersFit) (nameLine : newline ∉ p.name.bytes)
    (same : SameEntry p (p.reread core)) : Keeps core p := by
  have whole : p.cutName = nameText p.name := by
    by_contra cut
    have begins := cutName_isPrefix p
    have less : p.cutName.length < (nameText p.name).length :=
      lt_of_le_of_ne begins.length_le fun eq => cut (begins.eq_of_length eq)
    exact nameOf_ne begins less same.name
  obtain ⟨short, nameEnd⟩ := (cutName_whole_iff fits).mp whole
  obtain ⟨offset, diameter⟩ := (numbersFit_iff p).mp fits
  have printed : p.tool.toolId.toInt = p.tool.toolId.toInt % 65536 := by
    rw [← ToolPocket.stored_toolId p (nameOf core p.cutName)]
    exact congrArg Int32.toInt same.toolId.symm
  have accepted : parseLine core (.ofBuffer (endLine (p.lineText.take (lineSize - 1)))) =
      some (p.reread core) := parseLine_lineText fits
  refine ⟨⟨?_, offset, diameter, short, nameEnd, nameLine⟩, ?_, ?_⟩
  · omega
  · omega
  · rw [← same.name]
    exact parseLine_tableName accepted

theorem roundTrips_iff {p : ToolPocket} : RoundTrips core p ↔ Keeps core p := by
  constructor
  · rintro ⟨text, q, written, read, same⟩
    unfold writePocketLine at written
    split at written
    next fit =>
      have fits : p.NumbersFit := fit.1
      cases Option.some.inj written
      have nameLine : newline ∉ p.name.bytes := by
        intro broken
        obtain ⟨rest, begins, less, found⟩ := readBack_broken core fits broken
        cases Option.some.inj (found.symm.trans read)
        exact nameOf_ne begins less same.name
      cases Option.some.inj ((readBack_clean fits nameLine).symm.trans read)
      exact keeps_of_sameEntry fits nameLine same
    next => cases written
  · intro keeps
    exact ⟨p.lineText ++ [newline], p.reread core, if_pos keeps.fits,
      readBack_clean keeps.numbersFit keeps.printable.nameLine, keeps.sameEntry⟩

/-- The entry of an accepted line comes back from its printed line, within the buffers, exactly when
it is printable: the tool id fits 16 bits, each number fits `tmp`, the line fits the buffer that it
is read into, and the name has no newline and no carriage return at its end. -/
theorem table_text_round_trips_iff {line : CString} {p : ToolPocket}
    (accepted : parseLine core line = some p) : RoundTrips core p ↔ Printable p := by
  rw [roundTrips_iff]
  exact ⟨Keeps.printable, fun printable =>
    ⟨printable, parseLine_toolId accepted, parseLine_tableName accepted⟩⟩

def toolInPocket (toolId : Int32) (pocketId : Int16) (name : String) : ToolPocket :=
  ⟨pocketId, ⟨toolId, fun _ => 0, 0⟩, .ofBuffer (ascii name)⟩

theorem table_text_round_trips_iff_mill :
    RoundTrips decimalCore (toolInPocket 5 3 "mill") ↔ Printable (toolInPocket 5 3 "mill") :=
  table_text_round_trips_iff (show parseLine decimalCore (.ofBuffer (ascii "T5 P3 ;mill")) = some _ by
    decide +kernel)

theorem large_tool_id_changed :
    ¬ ∀ line p, parseLine decimalCore line = some p → RoundTrips decimalCore p := by
  intro all
  have accepted : parseLine decimalCore (.ofBuffer (ascii "T65541")) =
      some (toolInPocket 65541 (-1) "") := by decide +kernel
  obtain ⟨text, q, written, read, same⟩ := all _ _ accepted
  have printed : writePocketLine (toolInPocket 65541 (-1) "") = some (ascii "P0 T5\n") := by
    decide +kernel
  have back : readBack decimalCore (ascii "P0 T5\n") = some (toolInPocket 5 (-1) "") := by
    decide +kernel
  cases Option.some.inj (printed.symm.trans written)
  cases Option.some.inj (back.symm.trans read)
  exact absurd same.toolId (by decide)

end GrblhalSim
