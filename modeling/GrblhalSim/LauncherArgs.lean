import GrblhalSim.CString
import GrblhalSim.CommandLine

namespace GrblhalSim

open CommandLine

/-- A character of `arg` in the output of `quote_arg`. -/
def quoteChar (c : UInt8) : List UInt8 := if c = quote then [backslash, quote] else [c]

def quoteArg (arg : List UInt8) : List UInt8 := quote :: arg.flatMap quoteChar ++ [quote]

/-- The texts of the window that `start_simulator` reads, and its check box. -/
structure LauncherFields where
  simPath : CString
  wsPort : CString
  speed : CString
  eeprom : CString
  step : CString
  noComment : Bool
  deriving DecidableEq

def LauncherFields.frontText (f : LauncherFields) : List UInt8 :=
  quoteArg f.simPath.bytes ++ ascii " -w " ++ f.wsPort.bytes ++ ascii " -t " ++ f.speed.bytes

def LauncherFields.backText (f : LauncherFields) : List UInt8 :=
  (if f.step.bytes ≠ [] ∧ f.step.bytes ≠ ascii "0" then ascii " -r " ++ f.step.bytes else []) ++
    (if f.noComment then ascii " -n" else [])

def LauncherFields.command (f : LauncherFields) : List UInt8 :=
  f.frontText ++
    (if f.eeprom.bytes ≠ [] then ascii " -e " ++ quoteArg f.eeprom.bytes else []) ++ f.backText

/-- The simulator gets the text as the argument of `-e`, between the arguments of the other texts. -/
def LauncherFields.EepromKept (f : LauncherFields) : Prop :=
  split f.command =
    split f.frontText ++ [ascii "-e", f.eeprom.bytes] ++ arguments f.backText

instance (f : LauncherFields) : Decidable f.EepromKept := inferInstanceAs (Decidable (_ = _))

theorem escaping_quoteChar (k : Nat) (arg more : List UInt8) :
    escaping k (arg.flatMap quoteChar ++ quote :: more) =
      escaping k (arg ++ quote :: more) + arg.count quote := by
  have apart := quote_ne_backslash
  induction arg generalizing k with
  | nil => rfl
  | cons c arg ih =>
    rw [List.flatMap_cons, List.append_assoc, List.cons_append, quoteChar, List.count_cons]
    split
    next isQuote =>
      subst isQuote
      rw [List.cons_append, List.singleton_append, escaping, if_pos rfl, escaping, if_neg apart,
        if_pos rfl, ih, escaping, if_neg apart, if_pos rfl, beq_self_eq_true, if_pos rfl]
      omega
    next noQuote =>
      have other : (c == quote) = false := beq_false_of_ne noQuote
      rw [List.singleton_append, escaping, escaping, other, if_neg Bool.false_ne_true,
        if_neg noQuote, Nat.add_zero]
      split
      next => exact ih (k + 1)
      next => exact ih 0

theorem count_quoteChar (arg : List UInt8) :
    (arg.flatMap quoteChar).count backslash = arg.count backslash + arg.count quote := by
  induction arg with
  | nil => rfl
  | cons c arg ih =>
    rw [List.flatMap_cons, List.count_append, ih, quoteChar, List.count_cons, List.count_cons]
    split
    next isQuote =>
      subst isQuote
      have one : [backslash, quote].count backslash = 1 := rfl
      have none : (quote == backslash) = false := rfl
      rw [one, none, beq_self_eq_true, if_pos rfl, if_neg Bool.false_ne_true]
      omega
    next noQuote =>
      have other : (c == quote) = false := beq_false_of_ne noQuote
      rw [other, if_neg Bool.false_ne_true, List.count_singleton]
      omega

/-- With no backslash in front of a quote the text comes out as it is. -/
theorem quoteChar_read (done : List (List UInt8)) (text arg : List UInt8) (k : Nat)
    (plain : escaping k (arg ++ [quote]) = 0) :
    (arg.flatMap quoteChar ++ [quote]).foldl step ⟨done, .argument text k true⟩ =
      ⟨done, .argument (text ++ slashes k ++ arg) 0 false⟩ := by
  have apart := quote_ne_backslash
  induction arg generalizing text k with
  | nil =>
    rw [List.nil_append, escaping, if_neg apart, if_pos rfl] at plain
    obtain rfl : k = 0 := by omega
    have read : step ⟨done, .argument text 0 true⟩ quote =
        ⟨done, .argument (text ++ slashes 0) 0 false⟩ := rfl
    rw [List.append_nil]
    exact read
  | cons c arg ih =>
    rw [List.cons_append, escaping] at plain
    rw [List.flatMap_cons, List.append_assoc, quoteChar]
    split at plain
    next slash =>
      subst slash
      have read : step ⟨done, .argument text k true⟩ backslash =
          ⟨done, .argument text (k + 1) true⟩ := rfl
      rw [if_neg (Ne.symm apart), List.singleton_append, List.foldl_cons, read, ih _ _ plain,
        slashes, slashes, List.replicate_succ']
      simp
    next noSlash =>
      split at plain
      next isQuote =>
        subst isQuote
        obtain rfl : k = 0 := by omega
        have read : [backslash, quote].foldl step ⟨done, .argument text 0 true⟩ =
            ⟨done, .argument (text ++ slashes 0 ++ [quote]) 0 true⟩ := rfl
        rw [if_pos rfl, List.foldl_append, read, ih _ _ (by omega), slashes]
        simp
      next noQuote =>
        have read : step ⟨done, .argument text k true⟩ c =
            ⟨done, .argument (text ++ slashes k ++ [c]) 0 true⟩ := by
          simp [step, inArgument, noSlash, noQuote]
        rw [if_neg noQuote, List.singleton_append, List.foldl_cons, read, ih _ _ plain, slashes,
          slashes]
        simp

theorem backText_blank (f : LauncherFields) :
    f.backText = [] ∨ ∃ text, f.backText = 0x20 :: text := by
  have r : ascii " -r " = 0x20 :: ascii "-r " := rfl
  have n : ascii " -n" = 0x20 :: ascii "-n" := rfl
  unfold LauncherFields.backText
  split
  next => exact Or.inr ⟨_, by rw [r, List.cons_append, List.cons_append]⟩
  next =>
    split
    next => exact Or.inr ⟨_, n⟩
    next => exact Or.inl rfl

theorem finish_backText (f : LauncherFields) {s : Splitting} (closed : s.quoted = false) :
    (f.backText.foldl step s).finish = s.finish ++ arguments f.backText := by
  rcases backText_blank f with none | ⟨text, some⟩
  · rw [none]
    exact (List.append_nil _).symm
  · rw [some]
    exact finish_blank closed rfl text

theorem eeprom_read (f : LauncherFields) :
    arguments (ascii " -e " ++ quoteArg f.eeprom.bytes ++ f.backText) =
      ((f.eeprom.bytes.flatMap quoteChar ++ quote :: f.backText).foldl step
        ⟨[ascii "-e"], .argument [] 0 true⟩).finish := by
  have start : (ascii " -e " ++ [quote]).foldl step ⟨[], .between⟩ =
      ⟨[ascii "-e"], .argument [] 0 true⟩ := rfl
  have line : ascii " -e " ++ quoteArg f.eeprom.bytes ++ f.backText =
      ascii " -e " ++ [quote] ++ (f.eeprom.bytes.flatMap quoteChar ++ quote :: f.backText) := by
    simp [quoteArg]
  rw [arguments, line, List.foldl_append, start]

/-- The weight of the arguments is that of the text and of what follows it, less the backslashes
that stand in front of a quote of the text or of the last one. -/
theorem eeprom_weight (f : LauncherFields) :
    totalWeight (arguments (ascii " -e " ++ quoteArg f.eeprom.bytes ++ f.backText)) +
        escaping 0 (f.eeprom.bytes ++ [quote]) =
      weight f.eeprom.bytes + totalWeight (arguments f.backText) := by
  have past : (⟨[ascii "-e"], .argument [] 0 true⟩ : Splitting).PastName :=
    fun _ _ h => by cases h
  have whole := foldl_weight past (f.eeprom.bytes.flatMap quoteChar ++ quote :: f.backText)
  have behind := foldl_weight (s := ⟨[], .between⟩) (fun _ _ h => by cases h) f.backText
  have noSlash : (quote == backslash) = false := rfl
  have before : totalWeight (⟨[ascii "-e"], .argument [] 0 true⟩ : Splitting).finish = 0 := rfl
  have nothing : totalWeight (⟨[], .between⟩ : Splitting).finish = 0 := rfl
  rw [← eeprom_read, before, List.count_append, List.count_cons, count_quoteChar, noSlash,
    if_neg Bool.false_ne_true, escaping_quoteChar, escaping_quote] at whole
  rw [nothing] at behind
  have rest : totalWeight (arguments f.backText) + escaping 0 f.backText =
      0 + 2 * f.backText.count backslash := behind
  dsimp only [Splitting.pending] at whole
  rw [weight]
  omega

theorem eeprom_split (f : LauncherFields) :
    arguments (ascii " -e " ++ quoteArg f.eeprom.bytes ++ f.backText) =
        [ascii "-e", f.eeprom.bytes] ++ arguments f.backText ↔
      escaping 0 (f.eeprom.bytes ++ [quote]) = 0 := by
  have weights := eeprom_weight f
  constructor
  · intro kept
    have zero : weight (ascii "-e") = 0 := rfl
    have args (xs : List (List UInt8)) : totalWeight ([ascii "-e", f.eeprom.bytes] ++ xs) =
        weight f.eeprom.bytes + totalWeight xs := by
      rw [totalWeight, List.flatten_append, weight_append, totalWeight]
      simp [weight_append, zero]
    rw [kept, args] at weights
    omega
  · intro plain
    have read := quoteChar_read [ascii "-e"] [] f.eeprom.bytes 0 plain
    rw [eeprom_read, List.append_cons, List.foldl_append, read, finish_backText f rfl]
    simp [Splitting.finish, slashes]

theorem frontText_closed {f : LauncherFields} (simPath : quote ∉ f.simPath.bytes)
    (wsPort : quote ∉ f.wsPort.bytes) (speed : quote ∉ f.speed.bytes) :
    (read f.frontText).quoted = false := by
  have plain (text : List UInt8) (free : quote ∉ text) : text.flatMap quoteChar = text := by
    induction text with
    | nil => rfl
    | cons c text ih =>
      rw [List.mem_cons, not_or] at free
      rw [List.flatMap_cons, ih free.2, quoteChar, if_neg (Ne.symm free.1)]
      rfl
  have w : quote ∉ ascii " -w " := by decide
  have t : quote ∉ ascii " -t " := by decide
  have behind : quote ∉ ascii " -w " ++ f.wsPort.bytes ++ ascii " -t " ++ f.speed.bytes := by
    simp only [List.mem_append, w, t, wsPort, speed, or_self, not_false_eq_true]
  have line : f.frontText = quote :: (f.simPath.bytes ++
      quote :: (ascii " -w " ++ f.wsPort.bytes ++ ascii " -t " ++ f.speed.bytes)) := by
    rw [LauncherFields.frontText, quoteArg, plain _ simPath]
    simp
  have opened : step ⟨[], .name [] false⟩ quote = ⟨[], .name [] true⟩ := rfl
  rw [line, CommandLine.read, List.foldl_cons, opened, List.foldl_append, name_read simPath,
    List.foldl_cons, foldl_quoted behind]
  rfl

/-- The argument of `-e` is kept exactly when the text in front of it ends outside of quotes, and no
backslash stands in front of a quote of the text or of the one that ends it. -/
theorem eepromKept_iff (f : LauncherFields) (given : f.eeprom.bytes ≠ []) :
    f.EepromKept ↔ (read f.frontText).quoted = false ∧
      ¬ [backslash, quote] <:+: f.eeprom.bytes ++ [quote] := by
  have blank : ascii " -e " = 0x20 :: ascii "-e " := rfl
  have line : f.command =
      f.frontText ++ 0x20 :: (ascii "-e " ++ quoteArg f.eeprom.bytes ++ f.backText) := by
    rw [LauncherFields.command, if_pos given, blank]
    simp
  have plain := escaping_eq_zero 0 (f.eeprom.bytes ++ [quote])
  rw [slashes, List.replicate_zero, List.nil_append] at plain
  rw [LauncherFields.EepromKept, split, line, CommandLine.read, List.foldl_append, ← plain]
  cases quoted : (read f.frontText).quoted with
  | true =>
    refine iff_of_false ?_ fun h => Bool.noConfusion h.1
    rw [List.append_assoc (split _)]
    exact finish_quoted quoted rfl _ _
  | false =>
    have behind := finish_blank quoted (c := 0x20) rfl
      (ascii "-e " ++ quoteArg f.eeprom.bytes ++ f.backText)
    rw [CommandLine.read] at behind
    rw [behind, List.append_assoc (split _)]
    refine Iff.trans ?_ ((eeprom_split f).trans (and_iff_right rfl).symm)
    exact ⟨List.append_cancel_left, congrArg _⟩

def directoryFields : LauncherFields :=
  ⟨.ofBuffer (ascii "sim.exe"), .ofBuffer (ascii "8080"), .ofBuffer (ascii "1"),
    .ofBuffer [0x43, 0x3A, 0x5C], .ofBuffer (ascii "0"), true⟩

theorem directory_not_kept : ¬ directoryFields.EepromKept := by
  decide +kernel

theorem eepromKept_iff_directory :
    directoryFields.eeprom.bytes ≠ [] ∧
    (directoryFields.EepromKept ↔ (read directoryFields.frontText).quoted = false ∧
      ¬ [backslash, quote] <:+: directoryFields.eeprom.bytes ++ [quote]) :=
  have given : directoryFields.eeprom.bytes ≠ [] := by decide +kernel
  ⟨given, eepromKept_iff directoryFields given⟩

end GrblhalSim
