import GrblhalSim.CString
import GrblhalSim.DecimalText
import GrblhalSim.TextTokens
import Mathlib.Data.Fin.VecNotation
import Mathlib.Data.Fintype.Basic
import Mathlib.Data.List.FinRange

namespace GrblhalSim

open DecimalText TextTokens

def blank : UInt8 := 0x20
def newline : UInt8 := 0x0A
def carriageReturn : UInt8 := 0x0D
def semicolon : UInt8 := 0x3B

abbrev nAxis : Nat := 5

def axisLetter : Fin nAxis → UInt8 := ![0x58, 0x59, 0x5A, 0x41, 0x42]

/-- `tool_data_t`, without the fields that the tool table does not use. Lengths are the decimal
values of the C floats. -/
structure ToolData where
  toolId : Int32
  offset : Fin nAxis → ℚ
  radius : ℚ
  deriving DecidableEq

/-- `tool_pocket_t`. -/
structure ToolPocket where
  pocketId : Int16
  tool : ToolData
  name : CString
  deriving DecidableEq

/-- What the tool table uses of the grblHAL core: `read_uint` and `read_float` on the text behind
the letter of a word, `CAPS` and the size of the name in `tool_pocket_t`. -/
structure GrblCore where
  readUint : List UInt8 → Option UInt32
  readFloat : List UInt8 → Option ℚ
  caps : UInt8 → UInt8
  nameSize : Nat
  readUint_decimal : ∀ n : UInt32, readUint (decimal n.toNat) = some n
  readFloat_fixed3 : ∀ x : ℚ, readFloat (fixed3 x) = some (round3 x)
  caps_of_not_lower : ∀ c : UInt8, ¬ (0x61 ≤ c ∧ c ≤ 0x7A) → caps c = c
  nameSize_pos : 0 < nameSize

/-- A core that reads plain decimals. -/
def decimalCore : GrblCore where
  readUint text :=
    (readUnsigned text).bind fun n => if n < 2 ^ 32 then some (UInt32.ofNat n) else none
  readFloat := readSigned
  caps c := if 0x61 ≤ c ∧ c ≤ 0x7A then c &&& 0x5F else c
  nameSize := 32
  readUint_decimal n := by simp [readUnsigned_decimal, n.toNat_lt]
  readFloat_fixed3 := readSigned_fixed3
  caps_of_not_lower _ h := if_neg h
  nameSize_pos := by decide

def lineSize : Nat := 300
def bufSize : Nat := 400
def tmpSize : Nat := 24

/-- The buffer of `read_line` when the end of a line is met. -/
def endLine (buf : List UInt8) : List UInt8 :=
  if buf.getLast? = some carriageReturn then buf.dropLast else buf

/-- `read_line` from the bytes that are left in the file, with `buf` read already: the buffer and
the bytes that are left then. -/
def readLine (buf : List UInt8) : List UInt8 → Option (List UInt8 × List UInt8)
  | [] => if buf = [] then none else some (buf, [])
  | c :: file =>
    if c = newline then some (endLine buf, file)
    else readLine (if buf.length < lineSize - 1 then buf ++ [c] else buf) file

/-- The lines that calls of `read_line` give until there is none. -/
def fileLines (buf : List UInt8) : List UInt8 → List (List UInt8)
  | [] => if buf = [] then [] else [buf]
  | c :: file =>
    if c = newline then endLine buf :: fileLines [] file
    else fileLines (if buf.length < lineSize - 1 then buf ++ [c] else buf) file

theorem fileLines_readLine (buf file : List UInt8) :
    fileLines buf file =
      match readLine buf file with
      | some (line, rest) => line :: fileLines [] rest
      | none => [] := by
  induction file generalizing buf with
  | nil =>
    by_cases h : buf = []
    · simp [fileLines, readLine, h]
    · simp [fileLines, readLine, h]
  | cons c file ih =>
    by_cases h : c = newline
    · simp [fileLines, readLine, h]
    · rw [fileLines, readLine, if_neg h, if_neg h]
      exact ih _

def isBlank (c : UInt8) : Bool := c = blank || c = 0x09

def axisOf (letter : UInt8) : Option (Fin nAxis) :=
  (List.finRange nAxis).find? fun axis => axisLetter axis = letter

def ToolPocket.setOffset (e : ToolPocket) (axis : Fin nAxis) (value : ℚ) : ToolPocket :=
  { e with tool.offset := Function.update e.tool.offset axis value }

def ToolPocket.unset : ToolPocket := ⟨-1, ⟨-1, fun _ => 0, 0⟩, .empty⟩

variable (core : GrblCore)

/-- A word of the line, from its letter and what follows; words with other letters are skipped. -/
def readField (letter : UInt8) (text : List UInt8) (e : ToolPocket) : Option ToolPocket :=
  if letter = 0x54 then
    (core.readUint text).map fun toolId => { e with tool.toolId := toolId.toInt32 }
  else if letter = 0x50 then
    (core.readUint text).map fun pocketId : UInt32 =>
      { e with pocketId := if pocketId = 0 then -1 else pocketId.toUInt16.toInt16 }
  else
    match axisOf letter with
    | some axis => (core.readFloat text).map (e.setOffset axis)
    | none =>
      if letter = 0x44 then
        (core.readFloat text).map fun diameter => { e with tool.radius := diameter / 2 }
      else some e

def addWord (name word : List UInt8) : List UInt8 :=
  if name.length + word.length + 1 ≤ core.nameSize - 1 then
    if name = [] then word else name ++ blank :: word
  else name

def nameByte (c : UInt8) : UInt8 := if c = 0x7C then 0x25 else c

/-- The name from the word that starts with the semicolon, without it, and the words behind. -/
def parseName (first : List UInt8) (words : List (List UInt8)) : CString :=
  .ofBuffer ((words.foldl (addWord core) (first.take (core.nameSize - 1))).map nameByte)

def parseWords : List (List UInt8) → ToolPocket → Option ToolPocket
  | [], e => some e
  | param :: words, e =>
    let letter := core.caps (param.headD 0)
    if letter = semicolon then some { e with name := parseName core param.tail words }
    else (readField core letter param.tail e).bind (parseWords words)

def parseLine (line : CString) : Option ToolPocket :=
  if line.bytes.head? ∈ [none, some semicolon, some carriageReturn, some newline] then none
  else
    (parseWords core (tokens isBlank line.bytes) .unset).filter fun e => 0 ≤ e.tool.toolId

def entries (file : List UInt8) : List ToolPocket :=
  (fileLines [] file).filterMap fun line => parseLine core (.ofBuffer line)

/-- `(uint16_t)p->tool.tool_id`. -/
def ToolPocket.printedTool (p : ToolPocket) : UInt16 := p.tool.toolId.toUInt32.toUInt16

def ToolPocket.printedPocket (p : ToolPocket) : UInt16 :=
  if 1 ≤ p.pocketId then p.pocketId.toUInt16 else 0

def leastOffset : ℚ := 1 / 10000

def ToolPocket.offsetWord (p : ToolPocket) (axis : Fin nAxis) : Option (List UInt8) :=
  if leastOffset < |p.tool.offset axis| then some (axisLetter axis :: fixed3 (p.tool.offset axis))
  else none

def ToolPocket.diameterWord (p : ToolPocket) : Option (List UInt8) :=
  if p.tool.radius ≠ 0 then some (0x44 :: fixed3 (p.tool.radius * 2)) else none

/-- The words that go through `tmp`, without the blank before each. -/
def ToolPocket.numberWords (p : ToolPocket) : List (List UInt8) :=
  (List.finRange nAxis).filterMap p.offsetWord ++ p.diameterWord.toList

def nameText (name : CString) : List UInt8 :=
  if name.bytes = [] then [] else blank :: semicolon :: name.bytes

def ToolPocket.frontText (p : ToolPocket) : List UInt8 :=
  0x50 :: decimal p.printedPocket.toNat ++
    ((0x54 :: decimal p.printedTool.toNat) :: p.numberWords).flatMap (blank :: ·)

def ToolPocket.lineText (p : ToolPocket) : List UInt8 := p.frontText ++ nameText p.name

/-- What `write_pocket_line` hands to `vfs_write`, or `none` when a text is too long for `tmp` or
for `buf`. -/
def writePocketLine (p : ToolPocket) : Option (List UInt8) :=
  if (∀ word ∈ p.numberWords, word.length + 1 < tmpSize) ∧ p.lineText.length + 1 < bufSize then
    some (p.lineText ++ [newline])
  else none

end GrblhalSim
