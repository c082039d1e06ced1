import GrblhalSim.LauncherArgs
import GrblhalSim.ZoneCommand

namespace GrblhalSim

open CommandLine

/-- What the arguments of the simulator set, in `args` and in eeprom.c; `φ` are its floating-point
numbers. -/
structure ArgVars (φ : Type) where
  speedup : φ
  stepTime : φ
  commentChar : UInt8
  wsPort : UInt16
  eepromFilename : List UInt8
  deriving DecidableEq

/-- `set_eeprom_name`: `strncpy` into all but the last byte of a buffer of 256. -/
def ArgVars.setEepromName {φ : Type} (a : ArgVars φ) (name : List UInt8) : ArgVars φ :=
  { a with eepromFilename := name.take 255 }

def ArgVars.defaults {φ : Type} [One φ] [Zero φ] : ArgVars φ where
  speedup := 1
  stepTime := 0
  commentChar := 0x23
  wsPort := 8080
  eepromFilename := ascii "EEPROM.DAT"

/-- How the reading of the arguments ends: the simulator starts, it shows its usage with a bad option
or without one and exits, or it reads the null pointer behind the last argument. -/
inductive ArgsRead (φ : Type) where
  | started (a : ArgVars φ)
  | usage (bad : Option (List UInt8))
  | undefined
  deriving DecidableEq

def portOf (text : List UInt8) : UInt16 :=
  UInt16.ofNat (atoi (text.map fun c : UInt8 => Char.ofNat c.toNat) % 2 ^ 16).toNat

/-- The library's `atof` and the rounding of its result to a float. -/
structure Floats (φ : Type) where
  atof : List UInt8 → φ
  single : φ → φ

/-- The loop of `main` over the arguments behind the program's name. -/
def parseArgs {φ : Type} (fl : Floats φ) (a : ArgVars φ) : List (List UInt8) → ArgsRead φ
  | [] => .started a
  | arg :: rest =>
    if arg.getD 0 0 = 0x2D then
      if arg.getD 1 0 = 0x77 then
        match rest with
        | [] => .undefined
        | value :: rest => parseArgs fl { a with wsPort := portOf value } rest
      else if arg.getD 1 0 = 0x74 then
        match rest with
        | [] => .undefined
        | value :: rest => parseArgs fl { a with speedup := fl.single (fl.atof value) } rest
      else if arg.getD 1 0 = 0x65 then
        match rest with
        | [] => .undefined
        | value :: rest => parseArgs fl (a.setEepromName value) rest
      else if arg.getD 1 0 = 0x72 then
        match rest with
        | [] => .undefined
        | value :: rest => parseArgs fl { a with stepTime := fl.atof value } rest
      else if arg.getD 1 0 = 0x6E then parseArgs fl { a with commentChar := 0 } rest
      else if arg.getD 1 0 = 0x68 then .usage none
      else .usage (some arg)
    else parseArgs fl a rest

theorem arguments_option {name value : List UInt8} (option : Word name) (word : Word value)
    {more : List UInt8} (behind : more = [] ∨ ∃ rest, more = 0x20 :: rest) :
    arguments (0x20 :: (name ++ 0x20 :: (value ++ more))) = name :: value :: arguments more := by
  have split := option.split_off (Or.inr ⟨value ++ more, rfl⟩)
  rw [arguments_blank rfl, split, arguments_blank rfl, word.split_off behind]

theorem word_ascii {name : List UInt8} (nonempty : name ≠ [])
    (plain : name.all (fun c => !CommandLine.isBlank c && c ≠ quote) = true) : Word name := by
  refine ⟨nonempty, fun c inside => ?_⟩
  have each := List.all_eq_true.mp plain c inside
  simpa using each

/-- The texts of the window that the launcher does not put in quotes are words. -/
structure LauncherFields.Plain (f : LauncherFields) : Prop where
  simPath : quote ∉ f.simPath.bytes
  wsPort : Word f.wsPort.bytes
  speed : Word f.speed.bytes
  step : f.step.bytes = [] ∨ Word f.step.bytes
  eeprom : ¬ [backslash, quote] <:+: f.eeprom.bytes ++ [quote]

def LauncherFields.Reports (f : LauncherFields) : Prop :=
  f.step.bytes ≠ [] ∧ f.step.bytes ≠ ascii "0"

instance (f : LauncherFields) : Decidable f.Reports := inferInstanceAs (Decidable (_ ∧ _))

theorem arguments_backText {f : LauncherFields} (plain : f.Plain) :
    arguments f.backText = (if f.Reports then [ascii "-r", f.step.bytes] else []) ++
      (if f.noComment then [ascii "-n"] else []) := by
  have r : Word (ascii "-r") := word_ascii (by decide) (by decide)
  have n : Word (ascii "-n") := word_ascii (by decide) (by decide)
  have reportText : ascii " -r " = 0x20 :: (ascii "-r" ++ [0x20]) := rfl
  have commentText : ascii " -n" = 0x20 :: ascii "-n" := rfl
  have comment : arguments (if f.noComment then ascii " -n" else []) =
      if f.noComment then [ascii "-n"] else [] := by
    split
    next => rw [commentText, arguments_blank rfl, ← List.append_nil (ascii "-n"),
      n.split_off (Or.inl rfl), List.append_nil]; rfl
    next => rfl
  have behind : (if f.noComment then ascii " -n" else []) = [] ∨
      ∃ rest, (if f.noComment then ascii " -n" else []) = 0x20 :: rest := by
    split
    next => exact Or.inr ⟨_, commentText⟩
    next => exact Or.inl rfl
  have text : f.backText = (if f.Reports then ascii " -r " ++ f.step.bytes else []) ++
      (if f.noComment then ascii " -n" else []) := rfl
  rw [text]
  by_cases reports : f.Reports
  · have word : Word f.step.bytes := plain.step.resolve_left reports.1
    have option := arguments_option r word behind
    rw [if_pos reports, if_pos reports, reportText, List.cons_append, List.cons_append,
      List.append_assoc, List.append_assoc, List.singleton_append, option, comment]
    rfl
  · rw [if_neg reports, if_neg reports, List.nil_append, List.nil_append, comment]

def LauncherFields.given (f : LauncherFields) : List (List UInt8) :=
  [ascii "-w", f.wsPort.bytes, ascii "-t", f.speed.bytes] ++
    (if f.eeprom.bytes ≠ [] then [ascii "-e", f.eeprom.bytes] else []) ++
    ((if f.Reports then [ascii "-r", f.step.bytes] else []) ++
      (if f.noComment then [ascii "-n"] else []))

theorem flatMap_quoteChar {text : List UInt8} (free : quote ∉ text) :
    text.flatMap quoteChar = text := by
  induction text with
  | nil => rfl
  | cons c text ih =>
    rw [List.mem_cons, not_or] at free
    rw [List.flatMap_cons, ih free.2, quoteChar, if_neg (Ne.symm free.1)]
    rfl

def LauncherFields.tailText (f : LauncherFields) : List UInt8 :=
  (if f.eeprom.bytes ≠ [] then ascii " -e " ++ quoteArg f.eeprom.bytes else []) ++ f.backText

theorem tailText_blank (f : LauncherFields) :
    f.tailText = [] ∨ ∃ rest, f.tailText = 0x20 :: rest := by
  have e : ascii " -e " = 0x20 :: ascii "-e " := rfl
  unfold LauncherFields.tailText
  split
  next => exact Or.inr ⟨_, by rw [e, List.cons_append, List.cons_append]⟩
  next => exact backText_blank f

theorem arguments_tailText {f : LauncherFields} (plain : f.Plain) :
    arguments f.tailText =
      (if f.eeprom.bytes ≠ [] then [ascii "-e", f.eeprom.bytes] else []) ++
        arguments f.backText := by
  unfold LauncherFields.tailText
  split
  next =>
    refine (eeprom_split f).mpr ((escaping_eq_zero 0 _).mpr ?_)
    exact plain.eeprom
  next => rfl

theorem split_command {f : LauncherFields} (plain : f.Plain) :
    split f.command = f.simPath.bytes :: f.given := by
  have w : Word (ascii "-w") := word_ascii (by decide) (by decide)
  have t : Word (ascii "-t") := word_ascii (by decide) (by decide)
  have portText : ascii " -w " = 0x20 :: (ascii "-w" ++ [0x20]) := rfl
  have speedText : ascii " -t " = 0x20 :: (ascii "-t" ++ [0x20]) := rfl
  have line : f.command = quoteArg f.simPath.bytes ++
      0x20 :: (ascii "-w" ++ 0x20 :: (f.wsPort.bytes ++
        0x20 :: (ascii "-t" ++ 0x20 :: (f.speed.bytes ++ f.tailText)))) := by
    simp only [LauncherFields.command, LauncherFields.frontText, LauncherFields.tailText,
      portText, speedText, List.append_assoc, List.cons_append, List.nil_append]
  have named : (quoteArg f.simPath.bytes).foldl step ⟨[], .name [] false⟩ =
      ⟨[], .name f.simPath.bytes false⟩ := by
    have opened : step ⟨[], .name [] false⟩ quote = ⟨[], .name [] true⟩ := rfl
    rw [quoteArg, flatMap_quoteChar plain.simPath, List.cons_append, List.foldl_cons, opened,
      List.foldl_append, name_read plain.simPath]
    rfl
  have port (rest : List UInt8) := arguments_option w plain.wsPort (Or.inr ⟨rest, rfl⟩)
  have speed := arguments_option t plain.speed (tailText_blank f)
  rw [split, CommandLine.read, line, List.foldl_append, named, finish_blank rfl rfl, port, speed,
    arguments_tailText plain, arguments_backText plain]
  rfl

/-- The simulator starts with what the window says; an EEPROM name is cut to 255 bytes. -/
theorem launch_args {φ : Type} [One φ] [Zero φ] (fl : Floats φ) {f : LauncherFields}
    (plain : f.Plain) :
    parseArgs fl .defaults (split f.command).tail = .started {
      speedup := fl.single (fl.atof f.speed.bytes)
      stepTime := if f.Reports then fl.atof f.step.bytes else 0
      commentChar := if f.noComment then 0 else 0x23
      wsPort := portOf f.wsPort.bytes
      eepromFilename :=
        if f.eeprom.bytes ≠ [] then f.eeprom.bytes.take 255 else ascii "EEPROM.DAT" } := by
  have front (a : ArgVars φ) (rest : List (List UInt8)) :
      parseArgs fl a ([ascii "-w", f.wsPort.bytes, ascii "-t", f.speed.bytes] ++ rest) =
        parseArgs fl { a with
          wsPort := portOf f.wsPort.bytes, speedup := fl.single (fl.atof f.speed.bytes) } rest := rfl
  have name (a : ArgVars φ) (rest : List (List UInt8)) :
      parseArgs fl a
          ((if f.eeprom.bytes ≠ [] then [ascii "-e", f.eeprom.bytes] else []) ++ rest) =
        parseArgs fl { a with eepromFilename :=
          if f.eeprom.bytes ≠ [] then f.eeprom.bytes.take 255 else a.eepromFilename } rest := by
    split
    next => rfl
    next => rfl
  have reports (a : ArgVars φ) (rest : List (List UInt8)) :
      parseArgs fl a ((if f.Reports then [ascii "-r", f.step.bytes] else []) ++ rest) =
        parseArgs fl { a with
          stepTime := if f.Reports then fl.atof f.step.bytes else a.stepTime } rest := by
    split
    next => rfl
    next => rfl
  have comment (a : ArgVars φ) :
      parseArgs fl a (if f.noComment then [ascii "-n"] else []) = .started { a with
        commentChar := if f.noComment then 0 else a.commentChar } := by
    split
    next => rfl
    next => rfl
  rw [split_command plain, List.tail_cons, LauncherFields.given, List.append_assoc, front, name,
    reports, comment]
  rfl

def reportFields : LauncherFields :=
  ⟨.ofBuffer (ascii "my sim.exe"), .ofBuffer (ascii "8081"), .ofBuffer (ascii "2.5"),
    .ofBuffer (ascii "my \"mill\".dat"), .ofBuffer (ascii "0.25"), true⟩

theorem reportFields_plain : reportFields.Plain where
  simPath := by decide +kernel
  wsPort := word_ascii (by decide +kernel) (by decide +kernel)
  speed := word_ascii (by decide +kernel) (by decide +kernel)
  step := Or.inr (word_ascii (by decide +kernel) (by decide +kernel))
  eeprom := by decide +kernel

theorem launch_args_report :
    parseArgs (⟨fun text => text.length, id⟩ : Floats Nat) .defaults
        (split reportFields.command).tail =
      .started ⟨3, 4, 0, 8081, ascii "my \"mill\".dat"⟩ :=
  (launch_args _ reportFields_plain).trans (by decide +kernel)

end GrblhalSim
