import GrblhalSim.ZoneCommand

namespace GrblhalSim

open SlotTable

/-- A line of one of the two commands that edit a zone, with the text after the command. -/
inductive ZoneLine
  | delete (text : List Char)
  | set (text : List Char)

def ZoneLine.text : ZoneLine → List Char
  | delete text => text
  | set text => text

def ZoneLine.chars : ZoneLine → List Char
  | delete text => "ZONE-".toList ++ text
  | set text => "ZONE=".toList ++ text

/-- The zone that a line names: the number its text starts with. Without one it is 0, which is
no user zone. -/
def ZoneLine.names (line : ZoneLine) : Int :=
  match scanInteger line.text with
  | some (n, _) => n
  | none => 0

/-- Zone `n` is gone, and the later ones have moved down by one. -/
structure Removed (s s' : EzState) (n : Nat) : Prop where
  count : s'.config.count + 1 = s.config.count
  enabled : s'.config.globalEnabled = s.config.globalEnabled
  before : ∀ j < n, s'.config.zones[j]? = s.config.zones[j]?
  after : ∀ j, n ≤ j → j < s'.config.count → s'.config.zones[j]? = s.config.zones[j + 1]?

structure Written (s s' : EzState) (n : Nat) (z : Zone) : Prop where
  count : s'.config.count = max s.config.count (n + 1)
  enabled : s'.config.globalEnabled = s.config.globalEnabled
  zones : ∀ j, s'.config.zones[j]? = if j = n then some z else s.config.zones[j]?

/-- The box of a `$ZONE=` line, with the bounds of each axis in order. -/
def ZoneArgs.box (args : ZoneArgs) : Zone :=
  ⟨min args.xMin args.xMax, min args.yMin args.yMax, min args.zMin args.zMax,
    max args.xMin args.xMax, max args.yMin args.yMax, max args.zMin args.zMax, args.zoneFlags⟩

/-- Nothing has changed, in the table or in the stored image. -/
def Rejected (s s' : EzState) (status : StatusCode) : Prop :=
  s' = s ∧ status = .invalidStatement

/-- A line edits the zone it names, and where it names none it is rejected. -/
def EditsNamed (scanFloat : FloatScan) (s s' : EzState) (status : StatusCode) :
    ZoneLine → Prop
  | .delete text =>
    let n := (ZoneLine.delete text).names
    if 1 ≤ n ∧ n < s.config.count then Removed s s' n.toNat ∧ status = .ok
    else Rejected s s' status
  | .set text =>
    let n := (ZoneLine.set text).names
    match sscanfZone scanFloat text with
    | none => Rejected s s' status
    | some args =>
      if 1 ≤ n ∧ n < ezMaxZones then Written s s' n.toNat args.box ∧ status = .ok
      else Rejected s s' status

/-- The low byte of the number leads to the zone that the number names, or to none. -/
def ZoneLine.ByteNames (s : EzState) : ZoneLine → Prop
  | .delete text =>
    let n := (ZoneLine.delete text).names
    (1 ≤ n ∧ n < s.config.count) ∨ n % 256 = 0 ∨ s.config.count ≤ n % 256
  | .set _ => True

/-- The decimal text of an integer. -/
def decimalInt (n : Int) : List Char :=
  if n < 0 then '-' :: Nat.toDigits 10 n.natAbs else Nat.toDigits 10 n.natAbs

theorem digit_not_sign {c : Char} (h : c.isDigit = true) :
    isSpace c = false ∧ c ≠ '-' ∧ c ≠ '+' := by
  refine ⟨?_, ?_, ?_⟩
  · have range : 48 ≤ c.toNat ∧ c.toNat ≤ 57 := by
      simpa [Char.isDigit, UInt32.le_iff_toNat_le] using h
    have blank : c ≠ ' ' := by
      rintro rfl
      exact absurd range (by decide)
    have after : ¬ c ≤ '\r' := by
      show ¬ c.toNat ≤ 13
      omega
    simp [isSpace, blank, after]
  · rintro rfl
    exact absurd h (by decide)
  · rintro rfl
    exact absurd h (by decide)

theorem scan_digits {digits rest : List Char} (all : ∀ c ∈ digits, c.isDigit = true)
    (stop : ∀ c ∈ rest.head?, c.isDigit = false) :
    (digits ++ rest).takeWhile Char.isDigit = digits ∧
      (digits ++ rest).dropWhile Char.isDigit = rest := by
  rw [List.takeWhile_append_of_pos all, List.dropWhile_append_of_pos all]
  cases rest with
  | nil => simp
  | cons c rest => simp [stop c rfl]

theorem scanInteger_minus (s : List Char) : scanInteger ('-' :: s) =
    if s.takeWhile Char.isDigit = [] then none
    else some (-(decimalValue (s.takeWhile Char.isDigit) : Int), s.dropWhile Char.isDigit) := rfl

theorem scanInteger_digit {c : Char} (h : c.isDigit = true) (s : List Char) :
    scanInteger (c :: s) = some ((decimalValue ((c :: s).takeWhile Char.isDigit) : Int),
      (c :: s).dropWhile Char.isDigit) := by
  obtain ⟨space, minus, plus⟩ := digit_not_sign h
  have signless : (c :: s).dropWhile isSpace = c :: s := by simp [space]
  have some_digit : (c :: s).takeWhile Char.isDigit ≠ [] := by simp [h]
  unfold scanInteger
  rw [signless]
  dsimp only
  split
  next t sign => exact absurd (List.cons.inj sign).1 minus
  next t sign => exact absurd (List.cons.inj sign).1 plus
  next => rw [if_neg some_digit]; rfl

theorem scanInteger_decimal (n : Int) {rest : List Char}
    (stop : ∀ c ∈ rest.head?, c.isDigit = false) :
    scanInteger (decimalInt n ++ rest) = some (n, rest) := by
  have all : ∀ c ∈ Nat.toDigits 10 n.natAbs, c.isDigit = true :=
    fun c => Nat.isDigit_of_mem_toDigits (by decide) (by decide)
  have value : decimalValue (Nat.toDigits 10 n.natAbs) = n.natAbs := Nat.ofDigitChars_ten_toDigits
  have some_digit : Nat.toDigits 10 n.natAbs ≠ [] := by simp
  obtain ⟨take, drop⟩ := scan_digits all stop
  unfold decimalInt
  by_cases negative : n < 0
  · rw [if_pos negative, List.cons_append, scanInteger_minus, take, drop, if_neg some_digit, value]
    have : -(n.natAbs : Int) = n := by omega
    rw [this]
  · have same : (n.natAbs : Int) = n := by omega
    rw [if_neg negative]
    cases digits : Nat.toDigits 10 n.natAbs with
    | nil => exact absurd digits some_digit
    | cons d ds =>
      rw [digits] at take drop value
      rw [List.cons_append, scanInteger_digit (all d (by simp [digits])), ← List.cons_append, take,
        drop, value, same]

/-- A command followed by the decimal text of `n` names `n`. -/
theorem ZoneLine.names_decimal (n : Int) {rest : List Char}
    (stop : ∀ c ∈ rest.head?, c.isDigit = false) {line : ZoneLine}
    (text : line.text = decimalInt n ++ rest) : line.names = n := by
  simp only [ZoneLine.names, text, scanInteger_decimal n stop]

theorem atoi_names {text : List Char} (low : -2 ^ 31 ≤ (ZoneLine.delete text).names)
    (high : (ZoneLine.delete text).names < 2 ^ 31) :
    atoi text = (ZoneLine.delete text).names := by
  simp only [ZoneLine.names, ZoneLine.text, atoi] at low high ⊢
  cases scan : scanInteger text with
  | none => rfl
  | some found =>
    obtain ⟨n, rest⟩ := found
    simp only [scan] at low high ⊢
    have wide : (max (-2 ^ 63) (min (2 ^ 63 - 1) n) : Int) = n := by omega
    rw [wide]
    exact Int.bmod_eq_of_le (by omega) (by omega)

theorem sscanfZone_slot {scanFloat : FloatScan} {text : List Char} {args : ZoneArgs}
    (parsed : sscanfZone scanFloat text = some args)
    (low : -2 ^ 31 ≤ (ZoneLine.set text).names) (high : (ZoneLine.set text).names < 2 ^ 31) :
    (args.slot : Int) = (ZoneLine.set text).names % 2 ^ 32 := by
  obtain ⟨⟨slot, s⟩, number, parsed⟩ := Option.bind_eq_some_iff.mp parsed
  obtain ⟨⟨n, s'⟩, scan, number⟩ := Option.bind_eq_some_iff.mp number
  have same : args.slot = slot := by
    iterate 12 obtain ⟨_, _, parsed⟩ := Option.bind_eq_some_iff.mp parsed
    cases parsed
    rfl
  simp only [ZoneLine.names, ZoneLine.text, scan] at low high ⊢
  have small : n.natAbs < 2 ^ 64 := by omega
  simp only [small, if_true] at number
  cases number
  rw [same]
  exact Int.toNat_of_nonneg (Int.emod_nonneg n (by decide))

theorem ZoneArgs.zone_eq_box (args : ZoneArgs) : args.zone = args.box :=
  zoneNormalize_eq _

theorem ezSysCommand_delete (scanFloat : FloatScan) (prev : Option SysCommandHook)
    (settings : AtciSettings) (s : EzState) (sysState : Nat) (text : List Char) :
    ezSysCommand scanFloat prev settings s sysState (ZoneLine.delete text).chars =
      s.deleteZone text := rfl

theorem ezSysCommand_set (scanFloat : FloatScan) (prev : Option SysCommandHook)
    (settings : AtciSettings) (s : EzState) (sysState : Nat) (text : List Char) :
    ezSysCommand scanFloat prev settings s sysState (ZoneLine.set text).chars =
      s.setZone scanFloat text := rfl

theorem removed_of_delete {s : EzState} {slots : Slots Zone ezMaxZones} {n : Nat}
    (inRange : s.config.count ≤ ezMaxZones) (used : n < s.config.count)
    (delete : s.config.slots.delete noZone n = some slots) :
    Removed s { s with config := s.config.withSlots slots }.ezSave n := by
  obtain ⟨slots', delete', count, get⟩ := Slots.delete_some noZone (s := s.config.slots) used inRange
  cases delete.symm.trans delete'
  have total : s.config.slots.count = s.config.count := rfl
  rw [total] at count get
  refine ⟨?_, rfl, fun j before => ?_, fun j start used => ?_⟩
  · show slots.count + 1 = s.config.count
    omega
  · exact (get j).trans (by rw [if_neg (by omega), if_neg (by omega)]; rfl)
  · have shorter : j < slots.count := used
    exact (get j).trans (by rw [if_neg (by omega), if_pos (by omega)]; rfl)

/-- What `$ZONE-` does is decided by the low byte of the number. -/
theorem deleteZone_cases {s : EzState} (text : List Char) {slot : Nat}
    (inRange : s.config.count ≤ ezMaxZones) (byte : (atoi text % 256).toNat = slot) :
    if 1 ≤ slot ∧ slot < s.config.count then
      ∃ s' reply, s.deleteZone text = some (s', reply) ∧ reply.status = .ok ∧ Removed s s' slot
    else ∃ reply, s.deleteZone text = some (s, reply) ∧ reply.status = .invalidStatement := by
  unfold EzState.deleteZone
  rw [byte]
  by_cases zero : slot = 0
  · rw [if_neg (by omega)]
    exact ⟨.reserved, by simp [zero], rfl⟩
  · by_cases unused : s.config.count ≤ slot
    · rw [if_neg (by omega)]
      exact ⟨.invalid, by simp [zero, unused], rfl⟩
    · rw [if_pos (by omega)]
      obtain ⟨slots, delete, _⟩ :=
        Slots.delete_some noZone (s := s.config.slots) (Nat.lt_of_not_le unused) inRange
      simp only [zero, unused, if_false, delete, bind, Option.bind]
      exact ⟨_, _, rfl, rfl, removed_of_delete inRange (Nat.lt_of_not_le unused) delete⟩

theorem setZone_cases (scanFloat : FloatScan) (s : EzState) (text : List Char) :
    match sscanfZone scanFloat text with
    | none => ∃ reply, s.setZone scanFloat text = some (s, reply) ∧
        reply.status = .invalidStatement
    | some args =>
      if 1 ≤ args.slot ∧ args.slot < ezMaxZones then
        ∃ s' reply, s.setZone scanFloat text = some (s', reply) ∧ reply.status = .ok ∧
          Written s s' args.slot args.box
      else ∃ reply, s.setZone scanFloat text = some (s, reply) ∧
        reply.status = .invalidStatement := by
  unfold EzState.setZone
  cases parsed : sscanfZone scanFloat text with
  | none => exact ⟨.invalid, rfl, rfl⟩
  | some args =>
    by_cases zero : args.slot = 0
    · simp only [zero]
      exact ⟨.reserved, rfl, rfl⟩
    · by_cases outside : ezMaxZones ≤ args.slot
      · have apart : ¬ (1 ≤ args.slot ∧ args.slot < ezMaxZones) := by omega
        simp only [apart, zero, outside, if_true, if_false]
        exact ⟨.invalid, rfl, rfl⟩
      · have inside : 1 ≤ args.slot ∧ args.slot < ezMaxZones := by omega
        obtain ⟨slots, put, count, get⟩ := s.config.slots.put_some inside.2 args.zone
        simp only [inside, zero, outside, and_self, if_true, if_false, put, bind, Option.bind]
        refine ⟨_, _, rfl, rfl, count, rfl, fun j => ?_⟩
        rw [← args.zone_eq_box]
        exact get j

theorem delete_edits_iff (scanFloat : FloatScan) {s : EzState} {text : List Char}
    (inRange : s.config.count ≤ ezMaxZones) (low : -2 ^ 31 ≤ (ZoneLine.delete text).names)
    (high : (ZoneLine.delete text).names < 2 ^ 31) :
    (∃ s' reply, s.deleteZone text = some (s', reply) ∧
      EditsNamed scanFloat s s' reply.status (.delete text)) ↔
      (ZoneLine.delete text).ByteNames s := by
  have size : ezMaxZones = 16 := rfl
  have outcome := deleteZone_cases text inRange (by rw [atoi_names low high])
  simp only [EditsNamed, ZoneLine.ByteNames]
  generalize (ZoneLine.delete text).names = n at outcome low high ⊢
  by_cases named : 1 ≤ n ∧ n < s.config.count
  · have byte : (n % 256).toNat = n.toNat := by omega
    rw [byte, if_pos (by omega)] at outcome
    obtain ⟨s', reply, call, status, removed⟩ := outcome
    simp only [named, and_self, if_true, true_or, iff_true]
    exact ⟨s', reply, call, removed, status⟩
  · simp only [named, if_false, false_or]
    by_cases taken : 1 ≤ (n % 256).toNat ∧ (n % 256).toNat < s.config.count
    · rw [if_pos taken] at outcome
      obtain ⟨s', reply, call, status, _⟩ := outcome
      refine iff_of_false ?_ (by omega)
      rintro ⟨s'', reply', call', _, rejected⟩
      cases call.symm.trans call'
      rw [status] at rejected
      cases rejected
    · rw [if_neg taken] at outcome
      obtain ⟨reply, call, status⟩ := outcome
      exact iff_of_true ⟨s, reply, call, rfl, status⟩ (by omega)

theorem set_edits (scanFloat : FloatScan) {s : EzState} {text : List Char}
    (low : -2 ^ 31 ≤ (ZoneLine.set text).names) (high : (ZoneLine.set text).names < 2 ^ 31) :
    ∃ s' reply, s.setZone scanFloat text = some (s', reply) ∧
      EditsNamed scanFloat s s' reply.status (.set text) := by
  have size : ezMaxZones = 16 := rfl
  have outcome := setZone_cases scanFloat s text
  simp only [EditsNamed]
  cases parsed : sscanfZone scanFloat text with
  | none =>
    rw [parsed] at outcome
    obtain ⟨reply, call, status⟩ := outcome
    exact ⟨s, reply, call, rfl, status⟩
  | some args =>
    have slot := sscanfZone_slot parsed low high
    simp only [parsed] at outcome ⊢
    -- A negative number wraps to one far above the last slot.
    by_cases named : 1 ≤ (ZoneLine.set text).names ∧ (ZoneLine.set text).names < ezMaxZones
    · have same : (ZoneLine.set text).names.toNat = args.slot := by omega
      rw [if_pos (by omega)] at outcome
      obtain ⟨s', reply, call, status, written⟩ := outcome
      simp only [named, and_self, if_true, same]
      exact ⟨s', reply, call, written, status⟩
    · rw [if_neg (by omega)] at outcome
      obtain ⟨reply, call, status⟩ := outcome
      simp only [named, if_false]
      exact ⟨s, reply, call, rfl, status⟩

/-- A `$ZONE-` or `$ZONE=` line edits exactly the zone it names when the low byte of a number
that names no zone to delete does not lead to one. -/
theorem zone_line_edits_iff (scanFloat : FloatScan) (prev : Option SysCommandHook)
    (settings : AtciSettings) (s : EzState) (sysState : Nat) (line : ZoneLine)
    (inRange : s.config.count ≤ ezMaxZones) (low : -2 ^ 31 ≤ line.names)
    (high : line.names < 2 ^ 31) :
    (∃ s' reply, ezSysCommand scanFloat prev settings s sysState line.chars = some (s', reply) ∧
      EditsNamed scanFloat s s' reply.status line) ↔ line.ByteNames s := by
  cases line with
  | delete text =>
    rw [ezSysCommand_delete]
    exact delete_edits_iff scanFloat inRange low high
  | set text =>
    rw [ezSysCommand_set]
    exact iff_of_true (set_edits scanFloat low high) trivial

def noSettings : AtciSettings := ⟨none, none, none, none⟩

def shelfState : EzState := ⟨shelfTable, shelfTable⟩

theorem zone_line_edits_2 :
    (∃ s' reply, ezSysCommand (fun _ => none) none noSettings shelfState 0
        (ZoneLine.delete ['2']).chars = some (s', reply) ∧
      EditsNamed (fun _ => none) shelfState s' reply.status (.delete ['2'])) ↔
      (ZoneLine.delete ['2']).ByteNames shelfState :=
  zone_line_edits_iff (fun _ => none) none noSettings shelfState 0 (.delete ['2']) (by decide)
    (by decide) (by decide)

/-- `$ZONE-257` removes zone 1. -/
theorem zone_257_removes_1 :
    shelfState.config.count ≤ ezMaxZones ∧ (ZoneLine.delete ['2', '5', '7']).names = 257 ∧
      ∃ s' reply, ezSysCommand (fun _ => none) none noSettings shelfState 0
          (ZoneLine.delete ['2', '5', '7']).chars = some (s', reply) ∧
        Removed shelfState s' 1 ∧
        ¬ EditsNamed (fun _ => none) shelfState s' reply.status (.delete ['2', '5', '7']) := by
  have names : (ZoneLine.delete ['2', '5', '7']).names = 257 := by decide
  have outcome := deleteZone_cases (s := shelfState) ['2', '5', '7'] (by decide) rfl
  rw [if_pos (by decide)] at outcome
  obtain ⟨s', reply, call, status, removed⟩ := outcome
  refine ⟨by decide, names, s', reply, ?_, removed, ?_⟩
  · rw [ezSysCommand_delete]
    exact call
  · have unused : ¬ (1 ≤ (257 : Int) ∧ (257 : Int) < shelfState.config.count) := by decide
    simp only [EditsNamed, names, unused, if_false, Rejected, status]
    simp

end GrblhalSim
