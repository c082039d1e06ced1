import GrblhalSim.CString
import GrblhalSim.LineSplit
import Mathlib.Data.List.DropRight

namespace GrblhalSim

open LineSplit

/-- `normalize_log_text` from some byte on; `before` is `data[i - 1]`, if there is one. -/
def normalizeFrom (before : Option UInt8) : List UInt8 → List UInt8
  | [] => []
  | c :: data =>
    if c = 0x0A ∧ before ≠ some 0x0D then 0x0D :: 0x0A :: normalizeFrom (some c) data
    else c :: normalizeFrom (some c) data

def normalizeLogText (data : List UInt8) : List UInt8 := normalizeFrom none data

inductive Shown
  | log (text : List UInt8)
  | state (text : List UInt8)
  deriving DecidableEq

/-- The output side of the launcher: `g_outputBuffer`, the calls of `handle_output_line` and what
has been shown. -/
structure LauncherOutput where
  outputBuffer : List UInt8
  handled : List (List UInt8)
  shown : List Shown
  deriving DecidableEq

def trimLine (line : List UInt8) : List UInt8 := line.rdropWhile fun c => c = 0x0D ∨ c = 0x0A

def statePrefix : List UInt8 := ascii "[SIMSTATE]"

def trimmedShown (line : List UInt8) : Shown :=
  if statePrefix.isPrefixOf line then .state (line.drop 10) else .log (line ++ [0x0D, 0x0A])

def lineShown (line : List UInt8) : Shown := trimmedShown (trimLine line)

def LauncherOutput.handleOutputLine (s : LauncherOutput) (line : List UInt8) : LauncherOutput :=
  { s with handled := s.handled ++ [line], shown := s.shown ++ [lineShown line] }

def LauncherOutput.handleLines (s : LauncherOutput) : LauncherOutput :=
  match _found : s.outputBuffer.findIdx? (· = 0x0A) with
  | some lineEnd =>
    (({ s with outputBuffer := s.outputBuffer.drop (lineEnd + 1) } : LauncherOutput).handleOutputLine
      (s.outputBuffer.take (lineEnd + 1))).handleLines
  | none => s
termination_by s.outputBuffer.length
decreasing_by
  obtain ⟨inside, -⟩ := List.findIdx?_eq_some_iff_getElem.mp _found
  simp only [LauncherOutput.handleOutputLine, List.length_drop]
  omega

/-- `handle_output_chunk`: the text is a C string. -/
def LauncherOutput.handleOutputChunk (s : LauncherOutput) (text : List UInt8) : LauncherOutput :=
  let s := ({ s with outputBuffer := s.outputBuffer ++ cString text } : LauncherOutput).handleLines
  if 4096 < s.outputBuffer.length then
    { s with shown := s.shown ++ [.log s.outputBuffer], outputBuffer := [] }
  else s

/-- A chunk that `ReadFile` gives to `reader_thread`, on its way to the window. -/
def LauncherOutput.readChunk (s : LauncherOutput) (chunk : List UInt8) : LauncherOutput :=
  s.handleOutputChunk (normalizeLogText chunk)

theorem findIdx_line {text : List UInt8} {i : Nat} (h : text.findIdx? (· = 0x0A) = some i) :
    0x0A ∉ text.take i ∧ text.take (i + 1) = text.take i ++ [0x0A] ∧
      text = text.take i ++ 0x0A :: text.drop (i + 1) := by
  obtain ⟨inside, at_i, before⟩ := List.findIdx?_eq_some_iff_getElem.mp h
  have here : text[i] = 0x0A := of_decide_eq_true at_i
  refine ⟨fun early => ?_, ?_, ?_⟩
  · obtain ⟨j, hj, at_j⟩ := List.mem_iff_getElem.mp early
    rw [List.length_take] at hj
    rw [List.getElem_take] at at_j
    exact before j (by omega) (decide_eq_true at_j)
  · rw [List.take_succ_eq_append_getElem inside, here]
  · rw [← here, ← List.drop_eq_getElem_cons inside, List.take_append_drop]

theorem handleLines_lines (s : LauncherOutput) :
    s.handleLines = ⟨rest 0x0A [] s.outputBuffer,
      s.handled ++ (lines 0x0A [] s.outputBuffer).map (· ++ [0x0A]),
      s.shown ++ (lines 0x0A [] s.outputBuffer).map fun line => lineShown (line ++ [0x0A])⟩ := by
  induction s using LauncherOutput.handleLines.induct with
  | case1 s lineEnd found ih =>
    obtain ⟨free, first, whole⟩ := findIdx_line found
    have split := read_line free [] (s.outputBuffer.drop (lineEnd + 1))
    rw [← whole, List.nil_append] at split
    rw [LauncherOutput.handleLines]
    split
    next i same =>
      obtain rfl : lineEnd = i := Option.some.inj (found.symm.trans same)
      rw [ih, split.1, split.2, first]
      simp [LauncherOutput.handleOutputLine]
    next none =>
      rw [found] at none
      cases none
  | case2 s found =>
    have free : 0x0A ∉ s.outputBuffer := fun inside =>
      of_decide_eq_false (List.findIdx?_eq_none_iff.mp found _ inside) rfl
    obtain ⟨none, left⟩ := read_free free []
    rw [none, left, LauncherOutput.handleLines]
    split
    next i ends =>
      rw [found] at ends
      cases ends
    next => simp

theorem trimLine_concat (line : List UInt8) {c : UInt8} (h : c = 0x0D ∨ c = 0x0A) :
    trimLine (line ++ [c]) = trimLine line :=
  List.rdropWhile_concat_pos _ _ _ (decide_eq_true h)

/-- The CR that is put in front of an LF is trimmed from the line, and nothing else changes. -/
theorem normalizeFrom_lines (before : Option UInt8) (part data : List UInt8) :
    (lines 0x0A part (normalizeFrom before data)).map trimLine =
        (lines 0x0A part data).map trimLine ∧
      rest 0x0A part (normalizeFrom before data) = rest 0x0A part data := by
  induction data generalizing before part with
  | nil => exact ⟨rfl, rfl⟩
  | cons c data ih =>
    rw [normalizeFrom]
    split
    next alone =>
      obtain ⟨rfl, -⟩ := alone
      obtain ⟨sameLines, sameRest⟩ := ih (some 0x0A) []
      have noLf : (0x0A : UInt8) ∉ [0x0D] := by decide
      have extra := read_line noLf part (normalizeFrom (some 0x0A) data)
      rw [List.singleton_append] at extra
      rw [extra.1, extra.2, lines, rest, if_pos rfl, if_pos rfl, List.map_cons, List.map_cons,
        sameLines, sameRest, trimLine_concat part (Or.inl rfl)]
      exact ⟨rfl, rfl⟩
    next =>
      rw [lines, rest, lines, rest]
      split
      next =>
        obtain ⟨sameLines, sameRest⟩ := ih (some c) []
        rw [List.map_cons, List.map_cons, sameLines, sameRest]
        exact ⟨rfl, rfl⟩
      next => exact ih (some c) (part ++ [c])

theorem normalizeFrom_noNul {data : List UInt8} (noNul : 0 ∉ data) (before : Option UInt8) :
    0 ∉ normalizeFrom before data := by
  induction data generalizing before with
  | nil => exact List.not_mem_nil
  | cons c data ih =>
    rw [List.mem_cons, not_or] at noNul
    have later := ih noNul.2 (some c)
    rw [normalizeFrom]
    split
    next =>
      simp only [List.mem_cons, not_or]
      exact ⟨by decide, by decide, later⟩
    next =>
      simp only [List.mem_cons, not_or]
      exact ⟨noNul.1, later⟩

theorem readChunk_lines {s : LauncherOutput} (free : 0x0A ∉ s.outputBuffer) {chunk : List UInt8}
    (noNul : 0 ∉ chunk) :
    ∃ new, new.map trimLine = (lines 0x0A s.outputBuffer chunk).map trimLine ∧
      s.readChunk chunk =
        if 4096 < (rest 0x0A s.outputBuffer chunk).length then
          ⟨[], s.handled ++ new,
            s.shown ++ new.map lineShown ++ [.log (rest 0x0A s.outputBuffer chunk)]⟩
        else ⟨rest 0x0A s.outputBuffer chunk, s.handled ++ new, s.shown ++ new.map lineShown⟩ := by
  obtain ⟨none, left⟩ := read_free free []
  obtain ⟨sameLines, sameRest⟩ := normalizeFrom_lines Option.none s.outputBuffer chunk
  have text := cString_of_noNul (normalizeFrom_noNul noNul Option.none)
  refine ⟨(lines 0x0A s.outputBuffer (normalizeLogText chunk)).map (· ++ [0x0A]), ?_, ?_⟩
  · rw [← sameLines, List.map_map]
    exact List.map_congr_left fun line _ => trimLine_concat line (Or.inr rfl)
  · rw [LauncherOutput.readChunk, LauncherOutput.handleOutputChunk, handleLines_lines,
      normalizeLogText, text]
    dsimp only
    rw [lines_append, rest_append, none, left, List.nil_append, List.nil_append, sameRest,
      List.map_map]
    split
    next => rfl
    next => rfl

theorem map_lineShown {xs ys : List (List UInt8)} (h : xs.map trimLine = ys.map trimLine) :
    xs.map lineShown = ys.map lineShown := by
  have same := congrArg (List.map trimmedShown) h
  rw [List.map_map, List.map_map] at same
  exact same

theorem flushed_free {part data : List UInt8} (long : 4096 < part.length)
    (short : ∀ line ∈ lines 0x0A part data, line.length ≤ 4096) : 0x0A ∉ data := by
  intro ends
  obtain ⟨line, inside, grown⟩ := part_in_line ends part
  have := short line inside
  omega

/-- A run over the chunks of a stream: it depends on what is in the buffer and on the stream. -/
theorem readChunks_lines (chunks : List (List UInt8)) {s : LauncherOutput}
    (free : 0x0A ∉ s.outputBuffer) (noNul : 0 ∉ chunks.flatten)
    (short : ∀ line ∈ lines 0x0A s.outputBuffer chunks.flatten, line.length ≤ 4096) :
    (chunks.foldl LauncherOutput.readChunk s).handled.map trimLine =
        s.handled.map trimLine ++ (lines 0x0A s.outputBuffer chunks.flatten).map trimLine ∧
      ((rest 0x0A s.outputBuffer chunks.flatten).length ≤ 4096 →
        (chunks.foldl LauncherOutput.readChunk s).shown =
          s.shown ++ (lines 0x0A s.outputBuffer chunks.flatten).map lineShown) := by
  induction chunks generalizing s with
  | nil => exact ⟨(List.append_nil _).symm, fun _ => (List.append_nil _).symm⟩
  | cons chunk chunks ih =>
    rw [List.flatten_cons] at noNul short ⊢
    rw [List.mem_append, not_or] at noNul
    rw [lines_append] at short ⊢
    rw [rest_append, List.foldl_cons]
    obtain ⟨new, trimmed, read⟩ := readChunk_lines free noNul.1
    have still := rest_free free chunk
    rw [read]
    split
    next long =>
      have last : 0x0A ∉ chunks.flatten :=
        flushed_free long fun line inside => short line (List.mem_append_right _ inside)
      obtain ⟨none, left⟩ := read_free last (rest 0x0A s.outputBuffer chunk)
      obtain ⟨none', left'⟩ := read_free last []
      have run := ih (s := ⟨[], s.handled ++ new,
        s.shown ++ new.map lineShown ++ [.log (rest 0x0A s.outputBuffer chunk)]⟩)
        List.not_mem_nil noNul.2 (by rw [none']; simp)
      refine ⟨?_, fun tail => ?_⟩
      · rw [run.1, none, none', List.map_append, trimmed, List.append_nil, List.map_nil,
          List.append_nil]
      · rw [left, List.length_append] at tail
        omega
    next =>
      have run := ih (s := ⟨rest 0x0A s.outputBuffer chunk, s.handled ++ new,
        s.shown ++ new.map lineShown⟩) still noNul.2
        fun line inside => short line (List.mem_append_right _ inside)
      refine ⟨?_, fun tail => ?_⟩
      · rw [run.1, List.map_append, trimmed, List.map_append, List.append_assoc]
      · rw [run.2 tail, map_lineShown trimmed, List.map_append, List.append_assoc]

theorem trimLine_free {line : List UInt8} (free : 0x0A ∉ line) :
    trimLine line = line.rdropWhile (· = 0x0D) := by
  have same (text : List UInt8) (free : 0x0A ∉ text) :
      text.dropWhile (fun c => c = 0x0D ∨ c = 0x0A) = text.dropWhile (· = 0x0D) := by
    induction text with
    | nil => rfl
    | cons c text ih =>
      rw [List.mem_cons, not_or] at free
      have other : ¬ c = 0x0A := fun h => free.1 h.symm
      simp only [List.dropWhile_cons, other, or_false, ih free.2]
  rw [trimLine, List.rdropWhile, List.rdropWhile, same _ (by simpa using free)]

/-- Whatever the chunks, the lines that are handled are those of the stream, and so is what they
show; nothing else is shown as long as the end of the stream is not too long for the buffer. -/
theorem output_chunking (chunks : List (List UInt8)) (noNul : 0 ∉ chunks.flatten)
    (short : ∀ line ∈ lines 0x0A [] chunks.flatten, line.length ≤ 4096) :
    ∃ s, chunks.foldl LauncherOutput.readChunk ⟨[], [], []⟩ = s ∧
      s.handled.map trimLine =
        (lines 0x0A [] chunks.flatten).map (List.rdropWhile (· = 0x0D)) ∧
      s.handled.map lineShown = (lines 0x0A [] chunks.flatten).map lineShown ∧
      ((rest 0x0A [] chunks.flatten).length ≤ 4096 →
        s.shown = (lines 0x0A [] chunks.flatten).map lineShown) := by
  obtain ⟨handled, shown⟩ := readChunks_lines chunks (s := ⟨[], [], []⟩) List.not_mem_nil noNul short
  refine ⟨_, rfl, ?_, map_lineShown handled, shown⟩
  refine handled.trans (List.map_congr_left fun line inside => ?_)
  exact trimLine_free (lines_free List.not_mem_nil _ line inside)

theorem output_chunking_apart :
    (0 : UInt8) ∉ [[0x61, 0x0D], [0x0A]].flatten ∧
    (∀ line ∈ lines (0x0A : UInt8) [] [[0x61, 0x0D], [0x0A]].flatten, line.length ≤ 4096) ∧
    ∃ s, [[0x61, 0x0D], [0x0A]].foldl LauncherOutput.readChunk ⟨[], [], []⟩ = s ∧
      s.handled.map trimLine =
        (lines 0x0A [] [[0x61, 0x0D], [0x0A]].flatten).map (List.rdropWhile (· = 0x0D)) ∧
      s.handled.map lineShown =
        (lines 0x0A [] [[0x61, 0x0D], [0x0A]].flatten).map lineShown ∧
      ((rest (0x0A : UInt8) [] [[0x61, 0x0D], [0x0A]].flatten).length ≤ 4096 →
        s.shown = (lines 0x0A [] [[0x61, 0x0D], [0x0A]].flatten).map lineShown) :=
  have noNul : (0 : UInt8) ∉ [[0x61, 0x0D], [0x0A]].flatten := by decide
  have short : ∀ line ∈ lines (0x0A : UInt8) [] [[0x61, 0x0D], [0x0A]].flatten,
      line.length ≤ 4096 := by decide
  ⟨noNul, short, output_chunking _ noNul short⟩

end GrblhalSim
