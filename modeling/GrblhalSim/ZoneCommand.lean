import GrblhalSim.ZoneStore

namespace GrblhalSim

open SlotTable

def stripPrefix : List Char → List Char → Option (List Char)
  | [], line => some line
  | _ :: _, [] => none
  | c :: word, d :: line => if c = d then stripPrefix word line else none

def isSpace (c : Char) : Bool := c = ' ' || ('\t' ≤ c && c ≤ '\r')

def decimalValue (digits : List Char) : Nat :=
  digits.foldl (fun n c => 10 * n + (c.toNat - '0'.toNat)) 0

/-- An optionally signed decimal integer after white space, as `strtol` takes it in base 10. -/
def scanInteger (s : List Char) : Option (Int × List Char) :=
  let s := s.dropWhile isSpace
  let (negative, s) := match s with
    | '-' :: s => (true, s)
    | '+' :: s => (false, s)
    | s => (false, s)
  let digits := s.takeWhile Char.isDigit
  if digits = [] then none
  else
    let n : Int := decimalValue digits
    some (if negative then -n else n, s.dropWhile Char.isDigit)

/-- `strtol` keeps its result in a 64-bit `long`, of which `atoi` returns the low 32 bits. -/
def atoi (s : List Char) : Int :=
  match scanInteger s with
  | none => 0
  | some (n, _) => (max (-2 ^ 63) (min (2 ^ 63 - 1) n) : Int).bmod (2 ^ 32)

/-- A `%u` of `sscanf`: `strtoul` in 64 bits, of which the low 32 bits are stored. -/
def scanUnsigned (s : List Char) : Option (Nat × List Char) := do
  let (n, s) ← scanInteger s
  some (if n.natAbs < 2 ^ 64 then (n % 2 ^ 32).toNat else 2 ^ 32 - 1, s)

def scanComma : List Char → Option (List Char)
  | ',' :: s => some s
  | _ => none

/-- A `%f` of `sscanf`: the number read and what follows it. -/
abbrev FloatScan := List Char → Option (ℚ × List Char)

/-- What `sscanf` reads of a `$ZONE=` line, when it reads at least seven numbers; `flags` is
`none` when it reads just seven. -/
structure ZoneArgs where
  slot : Nat
  xMin : ℚ
  yMin : ℚ
  zMin : ℚ
  xMax : ℚ
  yMax : ℚ
  zMax : ℚ
  flags : Option Nat

def sscanfZone (scanFloat : FloatScan) (s : List Char) : Option ZoneArgs := do
  let (slot, s) ← scanUnsigned s
  let (xMin, s) ← scanFloat (← scanComma s)
  let (yMin, s) ← scanFloat (← scanComma s)
  let (zMin, s) ← scanFloat (← scanComma s)
  let (xMax, s) ← scanFloat (← scanComma s)
  let (yMax, s) ← scanFloat (← scanComma s)
  let (zMax, s) ← scanFloat (← scanComma s)
  let flags := ((scanComma s).bind scanUnsigned).map (·.1)
  some ⟨slot, xMin, yMin, zMin, xMax, yMax, zMax, flags⟩

/-- The flags of a zone that is set; without a value, or with one below 8, it is enabled. -/
def ZoneArgs.zoneFlags (args : ZoneArgs) : ZoneFlags :=
  match args.flags with
  | none => ⟨0 ||| 0x08⟩
  | some flags => if flags < 8 then ⟨UInt8.ofNat flags ||| 0x08⟩ else ⟨UInt8.ofNat flags⟩

def ZoneArgs.zone (args : ZoneArgs) : Zone :=
  zoneNormalize
    ⟨args.xMin, args.yMin, args.zMin, args.xMax, args.yMax, args.zMax, args.zoneFlags⟩

def fixed2 (q : ℚ) : String :=
  let n := q.num.natAbs * 100
  let twice := 2 * (n % q.den)
  let even := n / q.den % 2 = 0
  let cents := if twice < q.den ∨ twice = q.den ∧ even then n / q.den else n / q.den + 1
  (if q < 0 then "-" else "") ++ toString (cents / 100) ++ "." ++
    (if cents % 100 < 10 then "0" else "") ++ toString (cents % 100)

def replyLine (text : String) : String := String.ofList (text.toList.take 159)

def enabledText (globalEnabled : Bool) : String := if globalEnabled then "enabled" else "disabled"

def zoneLine (i : Nat) (z : Zone) : String :=
  replyLine ("[ZONE:" ++ toString i ++ "|" ++ fixed2 z.xMin ++ "," ++ fixed2 z.yMin ++ "," ++
    fixed2 z.zMin ++ "," ++ fixed2 z.xMax ++ "," ++ fixed2 z.yMax ++ "," ++ fixed2 z.zMax ++ "|" ++
    toString z.flags.value.toNat ++ "]")

structure EzReply where
  status : StatusCode
  lines : List String
  messages : List Message

def EzReply.invalid : EzReply := ⟨.invalidStatement, [], []⟩

def EzReply.reserved : EzReply :=
  ⟨.invalidStatement, [], [⟨"EZ: Zone 0 is reserved for ATCi", .warning⟩]⟩

def EzState.exclusion (s : EzState) (rest : List Char) : EzState × EzReply :=
  let s := { s with config := { s.config with globalEnabled := rest.head? ≠ some '0' } }.ezSave
  (s, ⟨.ok, [replyLine ("[EZ:" ++ enabledText s.config.globalEnabled ++ "]")], []⟩)

/-- `$ZONE-`, with the rest of the line; `none` when a slot is accessed that the table lacks. -/
def EzState.deleteZone (s : EzState) (rest : List Char) : Option (EzState × EzReply) :=
  let slot := (atoi rest % 256).toNat
  if slot = 0 then some (s, .reserved)
  else if s.config.count ≤ slot then some (s, .invalid)
  else do
    let slots ← s.config.slots.delete noZone slot
    let s := { s with config := s.config.withSlots slots }.ezSave
    some (s, ⟨.ok, [replyLine ("[EZ:zone " ++ toString slot ++ " deleted, " ++
      toString s.config.count ++ " remaining]")], []⟩)

def EzState.setZone (scanFloat : FloatScan) (s : EzState) (rest : List Char) :
    Option (EzState × EzReply) :=
  match sscanfZone scanFloat rest with
  | none => some (s, .invalid)
  | some args =>
    if args.slot = 0 then some (s, .reserved)
    else if ezMaxZones ≤ args.slot then some (s, .invalid)
    else do
      let slots ← s.config.slots.put args.slot args.zone
      let s := { s with config := s.config.withSlots slots }.ezSave
      some (s, ⟨.ok, [replyLine ("[EZ:zone " ++ toString args.slot ++ " set]")], []⟩)

/-- `$ZONE`: the two loops over the table after zone 0 was synced. -/
def EzState.listZones (settings : AtciSettings) (s : EzState) : Option (EzState × EzReply) := do
  let s := { s with config := syncZone0FromAtci settings s.config }
  let slots := List.range s.config.count
  let active ← foldSlots s.config.zones
    (fun active _ z => if z.flags.enabled then active + 1 else active) slots 0
  let zones ← foldSlots s.config.zones
    (fun lines i z => if z.flags.enabled then lines ++ [zoneLine i z] else lines) slots []
  some (s, ⟨.ok, replyLine ("[EZ:" ++ enabledText s.config.globalEnabled ++ "," ++
    toString active ++ " active]") :: zones, []⟩)

abbrev SysCommandHook := Nat → List Char → StatusCode

def ezSysCommand (scanFloat : FloatScan) (prev : Option SysCommandHook) (settings : AtciSettings)
    (s : EzState) (sysState : Nat) (line : List Char) : Option (EzState × EzReply) :=
  match stripPrefix "EXCLUSION=".toList line with
  | some rest => some (s.exclusion rest)
  | none =>
    match stripPrefix "ZONE-".toList line with
    | some rest => s.deleteZone rest
    | none =>
      match stripPrefix "ZONE=".toList line with
      | some rest => s.setZone scanFloat rest
      | none =>
        if line = "ZONE".toList then s.listZones settings
        else
          match prev with
          | some hook => some (s, ⟨hook sysState line, [], []⟩)
          | none => some (s, ⟨.unhandled, [], []⟩)

def pointInZone (z : Zone) (p : Point) : Bool :=
  let xy : Bool := p.x ≥ z.xMin ∧ p.x ≤ z.xMax ∧ p.y ≥ z.yMin ∧ p.y ≤ z.yMax
  if !xy then false
  else if zoneZUndefined z then true
  else p.z ≥ z.zMin ∧ p.z ≤ z.zMax

/-- What `ez_realtime_report` writes before it calls the previous hook; `none` when the loop
leaves the table. -/
def ezRealtimeReport {k : Nat} (cfg : EzConfig) (planPosition : Option (Axes k)) :
    Option (List String) :=
  if cfg.globalEnabled then
    match planPosition with
    | none => some ["|EZ:E"]
    | some pos => do
      let inside ← scanSlots cfg.zones
        (fun () z => if z.flags.enabled && pointInZone z pos.point then .error () else .ok ())
        (List.range cfg.count) ()
      some [match inside with
        | .error () => "|EZ:EZ"
        | .ok () => "|EZ:E"]
  else some []

end GrblhalSim
