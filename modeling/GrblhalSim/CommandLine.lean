import Mathlib.Data.List.Infix

namespace CommandLine

def backslash : UInt8 := 0x5C

def quote : UInt8 := 0x22

def isBlank (c : UInt8) : Bool := c = 0x20 || c = 0x09

def slashes (k : Nat) : List UInt8 := List.replicate k backslash

/-- Where the splitting of a command line stands: between two arguments, in the name of the program,
or in an argument, with the backslashes that have been read behind its text. -/
inductive Reading
  | between
  | name (text : List UInt8) (quoted : Bool)
  | argument (text : List UInt8) (pending : Nat) (quoted : Bool)
  deriving DecidableEq

structure Splitting where
  done : List (List UInt8)
  reading : Reading
  deriving DecidableEq

/-- A character of an argument: 2n backslashes in front of a quote are n backslashes, and the quote
switches the quoting; 2n + 1 are n backslashes and the quote is part of the argument. -/
def inArgument (done : List (List UInt8)) (text : List UInt8) (pending : Nat) (quoted : Bool)
    (c : UInt8) : Splitting :=
  if c = backslash then ⟨done, .argument text (pending + 1) quoted⟩
  else if c = quote then
    if pending % 2 = 0 then ⟨done, .argument (text ++ slashes (pending / 2)) 0 (!quoted)⟩
    else ⟨done, .argument (text ++ slashes (pending / 2) ++ [quote]) 0 quoted⟩
  else if isBlank c ∧ quoted = false then ⟨done ++ [text ++ slashes pending], .between⟩
  else ⟨done, .argument (text ++ slashes pending ++ [c]) 0 quoted⟩

def step (s : Splitting) (c : UInt8) : Splitting :=
  match s.reading with
  | .between => if isBlank c then s else inArgument s.done [] 0 false c
  | .name text quoted =>
    if c = quote then ⟨s.done, .name text (!quoted)⟩
    else if isBlank c ∧ quoted = false then ⟨s.done ++ [text], .between⟩
    else ⟨s.done, .name (text ++ [c]) quoted⟩
  | .argument text pending quoted => inArgument s.done text pending quoted c

def Splitting.finish (s : Splitting) : List (List UInt8) :=
  match s.reading with
  | .between => s.done
  | .name text _ => s.done ++ [text]
  | .argument text pending _ => s.done ++ [text ++ slashes pending]

def read (line : List UInt8) : Splitting := line.foldl step ⟨[], .name [] false⟩

def split (line : List UInt8) : List (List UInt8) := (read line).finish

/-- The arguments of a text behind the name of the program. -/
def arguments (text : List UInt8) : List (List UInt8) := (text.foldl step ⟨[], .between⟩).finish

def Splitting.quoted (s : Splitting) : Bool :=
  match s.reading with
  | .between => false
  | .name _ quoted => quoted
  | .argument _ _ quoted => quoted

def Splitting.pending (s : Splitting) : Nat :=
  match s.reading with
  | .argument _ pending _ => pending
  | _ => 0

def Splitting.PastName (s : Splitting) : Prop := ∀ text quoted, s.reading ≠ .name text quoted

/-- How many backslashes stand right in front of the quotes of a text, behind `k` others. -/
def escaping (k : Nat) : List UInt8 → Nat
  | [] => 0
  | c :: text =>
    if c = backslash then escaping (k + 1) text
    else if c = quote then k + escaping 0 text
    else escaping 0 text

/-- A backslash of an argument counts twice, a quote once. -/
def weight (text : List UInt8) : Nat := 2 * text.count backslash + text.count quote

def totalWeight (args : List (List UInt8)) : Nat := weight args.flatten

theorem quote_ne_backslash : quote ≠ backslash := by decide

theorem blank_ne {c : UInt8} (h : isBlank c = true) : c ≠ backslash ∧ c ≠ quote := by
  constructor
  · rintro rfl
    exact absurd h (by decide)
  · rintro rfl
    exact absurd h (by decide)

theorem inArgument_done (before done : List (List UInt8)) (text : List UInt8) (pending : Nat)
    (quoted : Bool) (c : UInt8) :
    inArgument (before ++ done) text pending quoted c =
      ⟨before ++ (inArgument done text pending quoted c).done,
        (inArgument done text pending quoted c).reading⟩ := by
  unfold inArgument
  split
  next => rfl
  next =>
    split
    next => split <;> rfl
    next =>
      split
      next => rw [List.append_assoc]
      next => rfl

theorem step_done (before done : List (List UInt8)) (reading : Reading) (c : UInt8) :
    step ⟨before ++ done, reading⟩ c =
      ⟨before ++ (step ⟨done, reading⟩ c).done, (step ⟨done, reading⟩ c).reading⟩ := by
  cases reading with
  | between =>
    simp only [step]
    split
    next => rfl
    next => exact inArgument_done before done [] 0 false c
  | name text quoted =>
    simp only [step]
    split
    next => rfl
    next =>
      split
      next => rw [List.append_assoc]
      next => rfl
  | argument text pending quoted => exact inArgument_done before done text pending quoted c

theorem finish_done (before done : List (List UInt8)) (reading : Reading) (text : List UInt8) :
    (text.foldl step ⟨before ++ done, reading⟩).finish =
      before ++ (text.foldl step ⟨done, reading⟩).finish := by
  induction text generalizing done reading with
  | nil =>
    cases reading with
    | between => rfl
    | name => exact List.append_assoc _ _ _
    | argument => exact List.append_assoc _ _ _
  | cons c text ih =>
    rw [List.foldl_cons, List.foldl_cons, step_done]
    exact ih _ _

theorem step_blank {s : Splitting} (closed : s.quoted = false) {c : UInt8} (h : isBlank c = true) :
    step s c = ⟨s.finish, .between⟩ := by
  obtain ⟨noSlash, noQuote⟩ := blank_ne h
  obtain ⟨done, reading⟩ := s
  cases reading with
  | between => simp only [step, h, if_true, Splitting.finish]
  | name text quoted =>
    have outside : quoted = false := closed
    simp only [step, if_neg noQuote, h, outside, and_self, if_true, Splitting.finish]
  | argument text pending quoted =>
    have outside : quoted = false := closed
    simp only [step, inArgument, if_neg noSlash, if_neg noQuote, h, outside, and_self, if_true,
      Splitting.finish]

/-- The arguments of what follows come behind those that have been read. -/
theorem finish_blank {s : Splitting} (closed : s.quoted = false) {c : UInt8}
    (h : isBlank c = true) (text : List UInt8) :
    ((c :: text).foldl step s).finish = s.finish ++ arguments (c :: text) := by
  have between : step ⟨[], .between⟩ c = ⟨[], .between⟩ := step_blank rfl h
  have shift := finish_done s.finish [] .between text
  rw [List.append_nil] at shift
  rw [List.foldl_cons, step_blank closed h, shift, arguments, List.foldl_cons, between]

theorem weight_append (text more : List UInt8) :
    weight (text ++ more) = weight text + weight more := by
  rw [weight, List.count_append, List.count_append, weight, weight]
  omega

theorem weight_slashes (k : Nat) : weight (slashes k) = 2 * k := by
  have none : (slashes k).count quote = 0 :=
    List.count_eq_zero.mpr fun h => absurd (List.eq_of_mem_replicate h) (by decide)
  rw [weight, none, slashes, List.count_replicate_self]
  rfl

theorem weight_other {c : UInt8} (noSlash : c ≠ backslash) (noQuote : c ≠ quote) :
    weight [c] = 0 := by
  rw [weight, List.count_singleton, List.count_singleton]
  simp [noSlash, noQuote]

theorem totalWeight_snoc (args : List (List UInt8)) (text : List UInt8) :
    totalWeight (args ++ [text]) = totalWeight args + weight text := by
  rw [totalWeight, List.flatten_append, weight_append, totalWeight]
  simp

/-- A backslash adds two to the weight of what has been read, and a quote takes off one for each
backslash in front of it. -/
theorem inArgument_weight (done : List (List UInt8)) (text : List UInt8) (pending : Nat)
    (quoted : Bool) (c : UInt8) :
    totalWeight (inArgument done text pending quoted c).finish + (if c = quote then pending else 0) =
        totalWeight done + weight text + 2 * pending + (if c = backslash then 2 else 0) ∧
      (inArgument done text pending quoted c).pending = (if c = backslash then pending + 1 else 0) ∧
      (inArgument done text pending quoted c).PastName := by
  have apart : backslash ≠ quote := quote_ne_backslash.symm
  unfold inArgument
  split
  next slash =>
    subst slash
    refine ⟨?_, rfl, fun _ _ h => by cases h⟩
    simp only [Splitting.finish, totalWeight_snoc, weight_append, weight_slashes, if_neg apart]
    omega
  next noSlash =>
    split
    next isQuote =>
      subst isQuote
      have one : weight [quote] = 1 := rfl
      split
      next even =>
        refine ⟨?_, rfl, fun _ _ h => by cases h⟩
        simp only [Splitting.finish, totalWeight_snoc, weight_append, weight_slashes]
        omega
      next odd =>
        refine ⟨?_, rfl, fun _ _ h => by cases h⟩
        simp only [Splitting.finish, totalWeight_snoc, weight_append, weight_slashes, one]
        omega
    next noQuote =>
      split
      next =>
        refine ⟨?_, rfl, fun _ _ h => by cases h⟩
        simp only [Splitting.finish, totalWeight_snoc, weight_append, weight_slashes]
        omega
      next =>
        refine ⟨?_, rfl, fun _ _ h => by cases h⟩
        simp only [Splitting.finish, totalWeight_snoc, weight_append, weight_slashes,
          weight_other noSlash noQuote]
        omega

theorem step_weight {s : Splitting} (past : s.PastName) (c : UInt8) :
    totalWeight (step s c).finish + (if c = quote then s.pending else 0) =
        totalWeight s.finish + (if c = backslash then 2 else 0) ∧
      (step s c).pending = (if c = backslash then s.pending + 1 else 0) ∧ (step s c).PastName := by
  obtain ⟨done, reading⟩ := s
  cases reading with
  | between =>
    simp only [step]
    split
    next h =>
      have noSlash := (blank_ne h).1
      rw [if_neg noSlash, if_neg noSlash]
      exact ⟨by split <;> rfl, rfl, past⟩
    next =>
      have read := inArgument_weight done [] 0 false c
      exact ⟨read.1, read.2.1, read.2.2⟩
  | name text quoted => exact absurd rfl (past text quoted)
  | argument text pending quoted =>
    have read := inArgument_weight done text pending quoted c
    refine ⟨?_, read.2.1, read.2.2⟩
    simp only [Splitting.finish, totalWeight_snoc, weight_append, weight_slashes]
    exact read.1.trans (by omega)

/-- The weight of what a text is split into: that of its backslashes, without those that only escape
something. -/
theorem foldl_weight {s : Splitting} (past : s.PastName) (text : List UInt8) :
    totalWeight (text.foldl step s).finish + escaping s.pending text =
      totalWeight s.finish + 2 * text.count backslash := by
  induction text generalizing s with
  | nil => rfl
  | cons c text ih =>
    obtain ⟨weights, pending, stillPast⟩ := step_weight past c
    have later := ih stillPast
    rw [pending] at later
    rw [List.foldl_cons, escaping, List.count_cons]
    by_cases slash : c = backslash
    · subst slash
      have noQuote : backslash ≠ quote := quote_ne_backslash.symm
      rw [if_pos rfl] at later
      rw [if_pos rfl, if_neg noQuote] at weights
      rw [if_pos rfl, beq_self_eq_true, if_pos rfl]
      omega
    · rw [if_neg slash] at later weights ⊢
      have other : (c == backslash) = false := beq_false_of_ne slash
      rw [other, if_neg Bool.false_ne_true]
      split
      next isQuote =>
        rw [if_pos isQuote] at weights
        omega
      next noQuote =>
        rw [if_neg noQuote] at weights
        omega

theorem step_quoted (s : Splitting) {c : UInt8} (noQuote : c ≠ quote) :
    (step s c).quoted = s.quoted := by
  obtain ⟨done, reading⟩ := s
  have inside (text : List UInt8) (pending : Nat) (quoted : Bool) :
      (inArgument done text pending quoted c).quoted = quoted := by
    unfold inArgument
    rw [if_neg noQuote]
    split
    next => rfl
    next =>
      split
      next ends => exact ends.2.symm
      next => rfl
  cases reading with
  | between =>
    simp only [step]
    split
    next => rfl
    next => exact inside [] 0 false
  | name text quoted =>
    simp only [step, if_neg noQuote]
    split
    next ends => exact ends.2.symm
    next => rfl
  | argument text pending quoted => exact inside text pending quoted

theorem foldl_quoted {text : List UInt8} (free : quote ∉ text) (s : Splitting) :
    (text.foldl step s).quoted = s.quoted := by
  induction text generalizing s with
  | nil => rfl
  | cons c text ih =>
    rw [List.mem_cons, not_or] at free
    rw [List.foldl_cons, ih free.2, step_quoted s (Ne.symm free.1)]

theorem name_read {name : List UInt8} (free : quote ∉ name) (done : List (List UInt8))
    (text : List UInt8) :
    name.foldl step ⟨done, .name text true⟩ = ⟨done, .name (text ++ name) true⟩ := by
  induction name generalizing text with
  | nil => rw [List.append_nil, List.foldl_nil]
  | cons c name ih =>
    rw [List.mem_cons, not_or] at free
    have read : step ⟨done, .name text true⟩ c = ⟨done, .name (text ++ [c]) true⟩ := by
      simp [step, Ne.symm free.1]
    rw [List.foldl_cons, read, ih free.2, List.append_assoc, List.singleton_append]

def Reading.Has (reading : Reading) (text : List UInt8) : Prop :=
  (∃ quoted, reading = .name text quoted) ∨ ∃ pending quoted, reading = .argument text pending quoted

theorem step_grows {s : Splitting} {text : List UInt8} (has : s.reading.Has text) (c : UInt8) :
    ∃ longer, text <+: longer ∧ ((step s c).done = s.done ∧ (step s c).reading.Has longer ∨
      step s c = ⟨s.done ++ [longer], .between⟩) := by
  obtain ⟨done, reading⟩ := s
  rcases has with ⟨quoted, rfl⟩ | ⟨pending, quoted, rfl⟩
  · simp only [step]
    split
    next => exact ⟨text, List.prefix_rfl, Or.inl ⟨rfl, Or.inl ⟨_, rfl⟩⟩⟩
    next =>
      split
      next => exact ⟨text, List.prefix_rfl, Or.inr rfl⟩
      next => exact ⟨text ++ [c], List.prefix_append _ _, Or.inl ⟨rfl, Or.inl ⟨_, rfl⟩⟩⟩
  · simp only [step, inArgument]
    split
    next => exact ⟨text, List.prefix_rfl, Or.inl ⟨rfl, Or.inr ⟨_, _, rfl⟩⟩⟩
    next =>
      split
      next =>
        split
        next => exact ⟨_, List.prefix_append _ _, Or.inl ⟨rfl, Or.inr ⟨_, _, rfl⟩⟩⟩
        next =>
          refine ⟨_, ?_, Or.inl ⟨rfl, Or.inr ⟨_, _, rfl⟩⟩⟩
          exact (List.prefix_append _ _).trans (List.prefix_append _ _)
      next =>
        split
        next => exact ⟨_, List.prefix_append _ _, Or.inr rfl⟩
        next =>
          refine ⟨_, ?_, Or.inl ⟨rfl, Or.inr ⟨_, _, rfl⟩⟩⟩
          exact (List.prefix_append _ _).trans (List.prefix_append _ _)

/-- The argument that is read goes on from its text. -/
theorem foldl_grows {s : Splitting} {text : List UInt8} (has : s.reading.Has text)
    (line : List UInt8) :
    ∃ longer more, (line.foldl step s).finish = s.done ++ longer :: more ∧ text <+: longer := by
  induction line generalizing s text with
  | nil =>
    obtain ⟨done, reading⟩ := s
    rcases has with ⟨quoted, rfl⟩ | ⟨pending, quoted, rfl⟩
    · exact ⟨text, [], rfl, List.prefix_rfl⟩
    · exact ⟨text ++ slashes pending, [], rfl, List.prefix_append _ _⟩
  | cons c line ih =>
    obtain ⟨longer, start, ⟨done, still⟩ | ended⟩ := step_grows has c
    · obtain ⟨longest, more, result, start'⟩ := ih still
      exact ⟨longest, more, by rw [List.foldl_cons, result, done], start.trans start'⟩
    · have shift := finish_done (s.done ++ [longer]) [] .between line
      rw [List.append_nil] at shift
      exact ⟨longer, _, by rw [List.foldl_cons, ended, shift, List.append_assoc]; rfl, start⟩

/-- Inside of quotes a blank is part of the argument, which is then longer than what was read. -/
theorem finish_quoted {s : Splitting} (inside : s.quoted = true) {c : UInt8}
    (h : isBlank c = true) (line : List UInt8) (more : List (List UInt8)) :
    ((c :: line).foldl step s).finish ≠ s.finish ++ more := by
  obtain ⟨noSlash, noQuote⟩ := blank_ne h
  obtain ⟨done, reading⟩ := s
  have grown (text : List UInt8) (finished : (⟨done, reading⟩ : Splitting).finish = done ++ [text])
      (same : (step ⟨done, reading⟩ c).done = done)
      (has : (step ⟨done, reading⟩ c).reading.Has (text ++ [c])) :
      ((c :: line).foldl step ⟨done, reading⟩).finish ≠
        (⟨done, reading⟩ : Splitting).finish ++ more := by
    obtain ⟨longer, others, result, start⟩ := foldl_grows has line
    rw [List.foldl_cons, result, same, finished, List.append_assoc]
    intro equal
    obtain ⟨first, -⟩ := List.cons_eq_cons.mp (List.append_cancel_left equal)
    have long := start.length_le
    rw [first, List.length_append, List.length_singleton] at long
    omega
  cases reading with
  | between => cases inside
  | name text quoted =>
    have quotes : quoted = true := inside
    refine grown text rfl ?_ ?_
    · simp [step, noQuote, h, quotes]
    · simp [step, noQuote, h, quotes, Reading.Has]
  | argument text pending quoted =>
    have quotes : quoted = true := inside
    refine grown (text ++ slashes pending) rfl ?_ ?_
    · simp [step, inArgument, noSlash, noQuote, h, quotes]
    · simp [step, inArgument, noSlash, noQuote, h, quotes, Reading.Has]

theorem escaping_quote (k : Nat) (text more : List UInt8) :
    escaping k (text ++ quote :: more) = escaping k (text ++ [quote]) + escaping 0 more := by
  have apart := quote_ne_backslash
  induction text generalizing k with
  | nil =>
    rw [List.nil_append, List.nil_append, escaping, escaping, if_neg apart, if_neg apart, if_pos rfl,
      if_pos rfl, escaping, Nat.add_zero]
  | cons c text ih =>
    rw [List.cons_append, List.cons_append, escaping, escaping]
    split
    next => exact ih (k + 1)
    next =>
      split
      next => rw [ih 0, Nat.add_assoc]
      next => exact ih 0

theorem not_escaped_behind {c : UInt8} (noSlash : c ≠ backslash) (noQuote : c ≠ quote) (k : Nat)
    (text : List UInt8) :
    [backslash, quote] <:+: slashes k ++ c :: text ↔ [backslash, quote] <:+: text := by
  induction k with
  | zero =>
    rw [slashes, List.replicate_zero, List.nil_append, List.infix_cons_iff, List.cons_prefix_cons]
    exact or_iff_right fun h => noSlash h.1.symm
  | succ k ih =>
    rw [← ih, slashes, List.replicate_succ, List.cons_append, List.infix_cons_iff,
      List.cons_prefix_cons]
    refine or_iff_right fun h => ?_
    cases k with
    | zero => exact noQuote (List.cons_prefix_cons.mp h.2).1.symm
    | succ k => exact absurd (List.cons_prefix_cons.mp h.2).1 (by decide)

theorem escaping_eq_zero (k : Nat) (text : List UInt8) :
    escaping k text = 0 ↔ ¬ [backslash, quote] <:+: slashes k ++ text := by
  induction text generalizing k with
  | nil =>
    refine iff_of_true rfl fun h => ?_
    have inside : quote ∈ slashes k ++ [] := h.subset (by simp)
    rw [List.append_nil] at inside
    exact absurd (List.eq_of_mem_replicate inside) (by decide)
  | cons c text ih =>
    rw [escaping]
    split
    next slash =>
      rw [ih, slash, slashes, slashes, List.replicate_succ', List.append_assoc,
        List.singleton_append]
    next noSlash =>
      split
      next isQuote =>
        subst isQuote
        cases k with
        | zero =>
          rw [Nat.zero_add, ih, slashes, List.replicate_zero, List.nil_append, List.nil_append,
            List.infix_cons_iff, List.cons_prefix_cons]
          exact not_congr (or_iff_right fun h => absurd h.1 (by decide)).symm
        | succ k =>
          refine iff_of_false (by omega) fun none => none ?_
          refine ⟨slashes k, text, ?_⟩
          rw [slashes, slashes, List.replicate_succ', List.append_assoc, List.append_assoc]
          rfl
      next noQuote =>
        rw [ih, not_escaped_behind noSlash noQuote k text]
        rfl

/-- A text that is one argument without quotes around it. -/
structure Word (text : List UInt8) : Prop where
  nonempty : text ≠ []
  plain : ∀ c ∈ text, isBlank c = false ∧ c ≠ quote

theorem foldl_plain {text : List UInt8} (plain : ∀ c ∈ text, isBlank c = false ∧ c ≠ quote)
    (done : List (List UInt8)) (before : List UInt8) (k : Nat) :
    (text.foldl step ⟨done, .argument before k false⟩).quoted = false ∧
      (text.foldl step ⟨done, .argument before k false⟩).finish =
        done ++ [before ++ slashes k ++ text] := by
  induction text generalizing before k with
  | nil =>
    rw [List.append_nil]
    exact ⟨rfl, rfl⟩
  | cons c text ih =>
    obtain ⟨noBlank, noQuote⟩ := plain c List.mem_cons_self
    have later := ih fun c inside => plain c (List.mem_cons_of_mem _ inside)
    by_cases slash : c = backslash
    · have read : step ⟨done, .argument before k false⟩ c =
          ⟨done, .argument before (k + 1) false⟩ := by
        simp only [step, inArgument, if_pos slash]
      obtain ⟨closed, finished⟩ := later before (k + 1)
      rw [List.foldl_cons, read]
      refine ⟨closed, finished.trans ?_⟩
      rw [slash, slashes, slashes, List.replicate_succ', List.append_assoc, List.append_assoc,
        List.append_assoc, List.singleton_append]
    · have read : step ⟨done, .argument before k false⟩ c =
          ⟨done, .argument (before ++ slashes k ++ [c]) 0 false⟩ := by
        simp [step, inArgument, slash, noQuote, noBlank]
      obtain ⟨closed, finished⟩ := later (before ++ slashes k ++ [c]) 0
      rw [List.foldl_cons, read]
      refine ⟨closed, finished.trans ?_⟩
      have none : slashes 0 = [] := rfl
      rw [none, List.append_nil, List.append_assoc, List.singleton_append]

theorem Word.read {text : List UInt8} (w : Word text) :
    (text.foldl step ⟨[], .between⟩).quoted = false ∧
      (text.foldl step ⟨[], .between⟩).finish = [text] := by
  obtain ⟨nonempty, plain⟩ := w
  cases text with
  | nil => exact absurd rfl nonempty
  | cons c text =>
    have start : step ⟨[], .between⟩ c = step ⟨[], .argument [] 0 false⟩ c := by
      simp only [step, (plain c List.mem_cons_self).1, Bool.false_eq_true, if_false]
    have whole := foldl_plain plain [] [] 0
    rw [List.foldl_cons, ← start] at whole
    exact whole

theorem arguments_blank {c : UInt8} (h : isBlank c = true) (text : List UInt8) :
    arguments (c :: text) = arguments text := by
  have between : step ⟨[], .between⟩ c = ⟨[], .between⟩ := step_blank rfl h
  rw [arguments, List.foldl_cons, between, arguments]

/-- A word is split off from what follows a blank. -/
theorem Word.split_off {text : List UInt8} (w : Word text) {more : List UInt8}
    (behind : more = [] ∨ ∃ rest, more = 0x20 :: rest) :
    arguments (text ++ more) = text :: arguments more := by
  obtain ⟨closed, finished⟩ := w.read
  rw [arguments, List.foldl_append]
  rcases behind with none | ⟨rest, some⟩
  · rw [none]
    exact finished
  · rw [some, finish_blank closed rfl rest, finished, List.singleton_append]

end CommandLine
