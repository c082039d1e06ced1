import GrblhalSim.DecimalText
import GrblhalSim.LauncherOutput
import GrblhalSim.SimModel

namespace GrblhalSim

open DecimalText LineSplit

/-- `state_report_write`: `text` are the `state_report_len` bytes in `state_report_buf`. -/
def stateReportWrite (text : List UInt8) (s : CString) : List UInt8 :=
  text ++ s.bytes.take (1024 - text.length - 1)

/-- What `report_controller_state` leaves in the buffer of what the core's report writes. -/
def stateReport (pieces : List CString) : List UInt8 :=
  trimLine (pieces.foldl stateReportWrite [])

/-- A line on the simulator's output: a report of the state, one before the driver has started, or
another text. -/
inductive Printed
  | report (pieces : List CString)
  | starting
  | line (text : List UInt8)

def Printed.body : Printed → List UInt8
  | .report pieces => statePrefix ++ stateReport pieces
  | .starting => statePrefix ++ ascii "<Starting>"
  | .line text => text

def Printed.text (p : Printed) : List UInt8 := p.body ++ [0x0A]

def Printed.shown : Printed → Shown
  | .report pieces => .state (stateReport pieces)
  | .starting => .state (ascii "<Starting>")
  | .line text => .log (trimLine text ++ [0x0D, 0x0A])

/-- The controller when `grbl_per_byte` runs: `sys.driver_started`, what `report_realtime_status`
writes, and the lines that other code prints after it, `printBlock` first. -/
structure Reporting where
  driverStarted : Bool
  status : List CString
  later : List (List UInt8)

def Reporting.state (r : Reporting) : Printed :=
  if r.driverStarted then .report r.status else .starting

/-- What `grbl_per_byte` prints for a byte on stdin; `number` are the core's alarm codes. -/
def Reporting.keyLines (r : Reporting) (number : AlarmCode → UInt32) (ws : Ws) (c : UInt8) :
    List Printed :=
  match stdinCommand c with
  | some (.injectAlarm alarm label) =>
    [.line (ascii "[SIM] Injecting alarm " ++ decimal (number alarm).toNat ++ ascii " (" ++
      ascii label ++ ascii ")")]
  | some .toggleTxMuted =>
    [.line (ascii "[SIM] WebSocket TX mute " ++
      if ws.wsToggleTxMuted.1 then ascii "ON: controller will drop sender replies"
      else ascii "OFF: controller will resume sender replies")]
  | some .kickClient =>
    [.line (ascii "[SIM] WebSocket client kick " ++
      if ws.wsKickClient.1 then ascii "sent" else ascii "ignored; no client connected")]
  | some .reportControllerState => [r.state]
  | some .forceControllerIdle =>
    [.line (if r.driverStarted then ascii "[SIM] Controller state forced to Idle"
      else ascii "[SIM] Controller Idle request ignored; driver is still starting"), r.state]
  | _ => []

/-- The lines of a call of `grbl_per_byte` and those up to the next. -/
def Reporting.printed (r : Reporting) (number : AlarmCode → UInt32) (ws : Ws) (c : UInt8) :
    List Printed :=
  r.keyLines number ws c ++ r.later.map .line

/-- The buffer takes the first 1023 bytes, whatever the pieces are. -/
theorem writes_take (pieces : List CString) {text : List UInt8} (fits : text.length ≤ 1023) :
    pieces.foldl stateReportWrite text =
      (text ++ (pieces.map CString.bytes).flatten).take 1023 := by
  induction pieces generalizing text with
  | nil =>
    rw [List.foldl_nil, List.map_nil, List.flatten_nil, List.append_nil, List.take_of_length_le fits]
  | cons s pieces ih =>
    have room : 1024 - text.length - 1 = 1023 - text.length := by omega
    have still : (stateReportWrite text s).length ≤ 1023 := by
      rw [stateReportWrite, List.length_append, List.length_take]
      omega
    rw [List.foldl_cons, ih still, stateReportWrite, room, List.map_cons, List.flatten_cons,
      ← List.append_assoc]
    have front : (text ++ s.bytes).take 1023 = text ++ s.bytes.take (1023 - text.length) := by
      rw [List.take_append, List.take_of_length_le fits]
    have cut (xs ys : List UInt8) : (xs.take 1023 ++ ys).take 1023 = (xs ++ ys).take 1023 := by
      have same : 1023 - min 1023 xs.length = 1023 - xs.length := by omega
      rw [List.take_append, List.take_append, List.take_take, Nat.min_self, List.length_take, same]
    rw [← front, cut]

theorem stateReport_take (pieces : List CString) :
    stateReport pieces = trimLine (((pieces.map CString.bytes).flatten).take 1023) := by
  rw [stateReport, writes_take pieces (Nat.zero_le _), List.nil_append]

/-- The launcher reads the line as it was printed. -/
structure Printed.Read (p : Printed) : Prop where
  free : 0x0A ∉ p.body
  noNul : 0 ∉ p.body
  short : p.body.length ≤ 4096
  shown : lineShown p.body = p.shown

structure OtherLine (text : List UInt8) : Prop where
  free : 0x0A ∉ text
  noNul : 0 ∉ text
  short : text.length ≤ 4096
  other : ¬ statePrefix <+: text

theorem OtherLine.read {text : List UInt8} (line : OtherLine text) : (Printed.line text).Read where
  free := line.free
  noNul := line.noNul
  short := line.short
  shown := by
    have trimmed : ¬ statePrefix <+: trimLine text := fun starts =>
      line.other (starts.trans (List.rdropWhile_prefix _ _))
    rw [← List.isPrefixOf_iff_prefix] at trimmed
    rw [lineShown, trimmedShown]
    exact if_neg trimmed

theorem trimmedShown_state (text : List UInt8) :
    trimmedShown (statePrefix ++ text) = .state text := by
  have starts : statePrefix.isPrefixOf (statePrefix ++ text) = true :=
    List.isPrefixOf_iff_prefix.mpr (List.prefix_append _ _)
  have length : statePrefix.length = 10 := by decide
  rw [trimmedShown, if_pos starts, ← length, List.drop_left]

theorem trimLine_report (pieces : List CString) :
    trimLine (statePrefix ++ stateReport pieces) = statePrefix ++ stateReport pieces := by
  by_cases none : stateReport pieces = []
  · rw [none, List.append_nil]
    decide
  · refine List.rdropWhile_eq_self_iff.mpr fun nonempty => ?_
    rw [List.getLast_append_of_ne_nil _ none]
    exact List.rdropWhile_last_not _ _ none

theorem stateReport_front (pieces : List CString) :
    stateReport pieces <+: (pieces.map CString.bytes).flatten := by
  rw [stateReport_take]
  exact (List.rdropWhile_prefix _ _).trans (List.take_prefix _ _)

theorem report_read {pieces : List CString} (free : 0x0A ∉ stateReport pieces) :
    (Printed.report pieces).Read where
  free := by
    have none : 0x0A ∉ statePrefix := by decide
    simpa only [Printed.body, List.mem_append, not_or] using And.intro none free
  noNul := by
    have none : 0 ∉ statePrefix := by decide
    intro inside
    rcases List.mem_append.mp inside with front | behind
    · exact none front
    · have written := (stateReport_front pieces).subset behind
      obtain ⟨bytes, piece, inside⟩ := List.mem_flatten.mp written
      obtain ⟨s, -, rfl⟩ := List.mem_map.mp piece
      exact s.noNul inside
  short := by
    have length : statePrefix.length = 10 := by decide
    have cut := ((List.rdropWhile_prefix (fun c : UInt8 => c = 0x0D ∨ c = 0x0A)
      (((pieces.map CString.bytes).flatten).take 1023))).length_le
    rw [List.length_take] at cut
    rw [Printed.body, stateReport_take, List.length_append, length]
    have fits : (trimLine (((pieces.map CString.bytes).flatten).take 1023)).length ≤ 1023 :=
      cut.trans (Nat.min_le_left _ _)
    omega
  shown := by
    rw [Printed.body, lineShown, trimLine_report, trimmedShown_state]
    rfl

theorem starting_read : Printed.starting.Read where
  free := by decide
  noNul := by decide
  short := by decide
  shown := by decide

theorem lines_printed {items : List Printed} (read : ∀ p ∈ items, p.Read) :
    lines 0x0A [] (items.flatMap Printed.text) = items.map Printed.body ∧
      rest 0x0A [] (items.flatMap Printed.text) = [] := by
  induction items with
  | nil => exact ⟨rfl, rfl⟩
  | cons p items ih =>
    obtain ⟨later, none⟩ := ih fun p inside => read p (List.mem_cons_of_mem _ inside)
    obtain ⟨first, left⟩ := read_line (read p List.mem_cons_self).free [] (items.flatMap Printed.text)
    rw [List.flatMap_cons, Printed.text, List.append_assoc, List.singleton_append, first, left,
      later, none]
    exact ⟨rfl, rfl⟩

theorem printed_shown {items : List Printed} (read : ∀ p ∈ items, p.Read)
    {chunks : List (List UInt8)} (stream : chunks.flatten = items.flatMap Printed.text) :
    (chunks.foldl LauncherOutput.readChunk ⟨[], [], []⟩).shown = items.map Printed.shown := by
  obtain ⟨split, none⟩ := lines_printed read
  have noNul : 0 ∉ chunks.flatten := by
    rw [stream]
    intro inside
    obtain ⟨p, printed, inside⟩ := List.mem_flatMap.mp inside
    rcases List.mem_append.mp inside with body | ending
    · exact (read p printed).noNul body
    · exact absurd (List.mem_singleton.mp ending) (by decide)
  have short : ∀ line ∈ lines 0x0A [] chunks.flatten, line.length ≤ 4096 := by
    rw [stream, split]
    intro line inside
    obtain ⟨p, printed, rfl⟩ := List.mem_map.mp inside
    exact (read p printed).short
  have whole := (readChunks_lines chunks (s := ⟨[], [], []⟩) List.not_mem_nil noNul short).2
  rw [stream, split, none, List.nil_append, List.map_map] at whole
  refine (whole (Nat.zero_le _)).trans (List.map_congr_left fun p printed => ?_)
  exact (read p printed).shown

theorem otherLine_sim {text : List UInt8} (free : 0x0A ∉ text) (noNul : 0 ∉ text)
    (short : text.length ≤ 4000) : OtherLine (ascii "[SIM] " ++ text) where
  free := by
    have none : 0x0A ∉ ascii "[SIM] " := by decide
    simpa only [List.mem_append, not_or] using And.intro none free
  noNul := by
    have none : 0 ∉ ascii "[SIM] " := by decide
    simpa only [List.mem_append, not_or] using And.intro none noNul
  short := by
    have length : (ascii "[SIM] ").length = 6 := by decide
    rw [List.length_append, length]
    omega
  other := by
    intro starts
    have prefixText : statePrefix = ascii "[SIM" ++ ascii "STATE]" := by decide
    have messageText : ascii "[SIM] " ++ text = ascii "[SIM" ++ (ascii "] " ++ text) := by
      rw [← List.append_assoc]
      rfl
    rw [prefixText, messageText, List.prefix_append_right_inj] at starts
    obtain ⟨equal, -⟩ := List.cons_prefix_cons.mp starts
    exact absurd equal (by decide)

theorem stdinCommand_label {c : UInt8} {alarm : AlarmCode} {label : String}
    (command : stdinCommand c = some (.injectAlarm alarm label)) :
    0x0A ∉ ascii label ∧ 0 ∉ ascii label ∧ (ascii label).length ≤ 32 := by
  unfold stdinCommand at command
  split at command
  all_goals
    first
    | cases command
      decide
    | cases command

theorem decimal_plain (n : UInt32) :
    0x0A ∉ decimal n.toNat ∧ 0 ∉ decimal n.toNat ∧ (decimal n.toNat).length ≤ 10 := by
  have small := n.toNat_lt
  refine ⟨fun inside => ?_, fun inside => ?_, (decimal_length_le (by omega)).mpr (by omega)⟩
  · exact absurd (isDigit_of_mem_decimal inside) (by decide)
  · exact absurd (isDigit_of_mem_decimal inside) (by decide)

theorem injected_read (n : UInt32) {label : String} (free : 0x0A ∉ ascii label)
    (noNul : 0 ∉ ascii label) (short : (ascii label).length ≤ 32) :
    OtherLine (ascii "[SIM] Injecting alarm " ++ decimal n.toNat ++ ascii " (" ++ ascii label ++
      ascii ")") := by
  obtain ⟨freeNumber, noNulNumber, shortNumber⟩ := decimal_plain n
  have front : ascii "[SIM] Injecting alarm " = ascii "[SIM] " ++ ascii "Injecting alarm " := by
    decide
  have injecting : 0x0A ∉ ascii "Injecting alarm " ∧ 0 ∉ ascii "Injecting alarm " ∧
      (ascii "Injecting alarm ").length = 16 := by decide
  have opening : 0x0A ∉ ascii " (" ∧ 0 ∉ ascii " (" ∧ (ascii " (").length = 2 := by decide
  have closing : 0x0A ∉ ascii ")" ∧ 0 ∉ ascii ")" ∧ (ascii ")").length = 1 := by decide
  rw [front, List.append_assoc, List.append_assoc, List.append_assoc, List.append_assoc]
  refine otherLine_sim ?_ ?_ ?_
  · simp only [List.mem_append, injecting, opening, closing, freeNumber, free, or_self,
      not_false_eq_true]
  · simp only [List.mem_append, injecting, opening, closing, noNulNumber, noNul, or_self,
      not_false_eq_true]
  · simp only [List.length_append, injecting, opening, closing]
    omega

theorem state_read {r : Reporting} (free : 0x0A ∉ stateReport r.status) : r.state.Read := by
  unfold Reporting.state
  split
  next => exact report_read free
  next => exact starting_read

theorem keyLines_read {r : Reporting} (free : 0x0A ∉ stateReport r.status)
    (number : AlarmCode → UInt32) (ws : Ws) (c : UInt8) :
    ∀ p ∈ r.keyLines number ws c, p.Read := by
  unfold Reporting.keyLines
  split
  next alarm label command =>
    obtain ⟨freeLabel, noNul, short⟩ := stdinCommand_label command
    exact List.forall_mem_singleton.mpr (injected_read _ freeLabel noNul short).read
  next =>
    refine List.forall_mem_singleton.mpr (OtherLine.read ?_)
    have front : ascii "[SIM] WebSocket TX mute " =
        ascii "[SIM] " ++ ascii "WebSocket TX mute " := by decide
    rw [front, List.append_assoc]
    split
    next => exact otherLine_sim (by decide) (by decide) (by decide)
    next => exact otherLine_sim (by decide) (by decide) (by decide)
  next =>
    refine List.forall_mem_singleton.mpr (OtherLine.read ?_)
    have front : ascii "[SIM] WebSocket client kick " =
        ascii "[SIM] " ++ ascii "WebSocket client kick " := by decide
    rw [front, List.append_assoc]
    split
    next => exact otherLine_sim (by decide) (by decide) (by decide)
    next => exact otherLine_sim (by decide) (by decide) (by decide)
  next => exact List.forall_mem_singleton.mpr (state_read free)
  next =>
    refine List.forall_mem_cons.mpr ⟨OtherLine.read ?_,
      List.forall_mem_singleton.mpr (state_read free)⟩
    split
    next =>
      have front : ascii "[SIM] Controller state forced to Idle" =
          ascii "[SIM] " ++ ascii "Controller state forced to Idle" := by decide
      rw [front]
      exact otherLine_sim (by decide) (by decide) (by decide)
    next =>
      have front : ascii "[SIM] Controller Idle request ignored; driver is still starting" =
          ascii "[SIM] " ++ ascii "Controller Idle request ignored; driver is still starting" := by
        decide
      rw [front]
      exact otherLine_sim (by decide) (by decide) (by decide)
  next => exact fun p none => absurd none List.not_mem_nil

/-- The report is one line, and the other code prints no states. -/
structure Reporting.Plain (r : Reporting) : Prop where
  free : 0x0A ∉ stateReport r.status
  later : ∀ text ∈ r.later, OtherLine text

/-- Whatever is read on stdin and however the output is cut, the launcher shows each message and
each state, the state as the first 1023 bytes of the report without the line ends behind it. -/
theorem state_shown (number : AlarmCode → UInt32) {passes : List (Reporting × Ws × UInt8)}
    (plain : ∀ i ∈ passes, i.1.Plain) {chunks : List (List UInt8)}
    (stream : chunks.flatten =
      (passes.flatMap fun i => i.1.printed number i.2.1 i.2.2).flatMap Printed.text) :
    (chunks.foldl LauncherOutput.readChunk ⟨[], [], []⟩).shown =
        (passes.flatMap fun i => i.1.printed number i.2.1 i.2.2).map Printed.shown ∧
      ∀ i ∈ passes, stateReport i.1.status =
        trimLine (((i.1.status.map CString.bytes).flatten).take 1023) := by
  refine ⟨printed_shown (fun p inside => ?_) stream, fun i _ => stateReport_take i.1.status⟩
  obtain ⟨i, pass, printed⟩ := List.mem_flatMap.mp inside
  rcases List.mem_append.mp printed with key | other
  · exact keyLines_read (plain i pass).free number _ _ p key
  · obtain ⟨text, later, rfl⟩ := List.mem_map.mp other
    exact ((plain i pass).later text later).read

def idleReporting : Reporting :=
  ⟨true, [.ofBuffer (ascii "<Idle"), .ofBuffer (ascii ">" ++ [0x0D, 0x0A])], []⟩

theorem state_shown_idle :
    ([ascii "[SIMST", ascii "ATE]<Idle>" ++ [0x0A]].foldl LauncherOutput.readChunk
      ⟨[], [], []⟩).shown = [.state (ascii "<Idle>")] :=
  have idle : idleReporting.Plain :=
    ⟨by decide +kernel, fun _ none => absurd none List.not_mem_nil⟩
  have plain : ∀ i ∈ [(idleReporting, Ws.init, (0x12 : UInt8))], i.1.Plain :=
    List.forall_mem_singleton.mpr idle
  (state_shown (fun _ => 0) plain (by decide +kernel)).1.trans (by decide +kernel)

end GrblhalSim
