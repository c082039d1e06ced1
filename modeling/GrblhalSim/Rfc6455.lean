import Mathlib.Data.List.Basic
import Mathlib.Data.Nat.Bitwise
import Mathlib.Data.Fin.VecNotation
import Mathlib.Tactic.Ring

namespace Rfc6455

def bigEndian (bytes : List UInt8) : Nat := bytes.foldl (fun acc b => acc * 256 + b.toNat) 0

/-- The last `k` big-endian bytes of a number. -/
def bigEndianBytes : Nat → Nat → List UInt8
  | 0, _ => []
  | k + 1, n => UInt8.ofNat (n / 256 ^ k) :: bigEndianBytes k n

theorem length_bigEndianBytes (k n : Nat) : (bigEndianBytes k n).length = k := by
  induction k with
  | zero => rfl
  | succ k ih => simp [bigEndianBytes, ih]

theorem foldl_bigEndianBytes (k n acc : Nat) :
    (bigEndianBytes k n).foldl (fun acc b => acc * 256 + b.toNat) acc =
      acc * 256 ^ k + n % 256 ^ k := by
  induction k generalizing acc with
  | zero => simp [bigEndianBytes, Nat.mod_one]
  | succ k ih =>
    have digit : (UInt8.ofNat (n / 256 ^ k)).toNat = n / 256 ^ k % 256 := UInt8.toNat_ofNat'
    rw [bigEndianBytes, List.foldl_cons, ih, digit, Nat.mod_pow_succ, Nat.pow_succ]
    ring

theorem bigEndian_bigEndianBytes {k n : Nat} (h : n < 256 ^ k) :
    bigEndian (bigEndianBytes k n) = n := by
  rw [bigEndian, foldl_bigEndianBytes, Nat.zero_mul, Nat.zero_add, Nat.mod_eq_of_lt h]

abbrev MaskKey := Fin 4 → UInt8

def MaskKey.bytes (key : MaskKey) : List UInt8 := [key 0, key 1, key 2, key 3]

/-- The octets of the payload under the masking key, from the octet with index `i` on. -/
def applyMask (key : MaskKey) : Nat → List UInt8 → List UInt8
  | _, [] => []
  | i, b :: bs => (b ^^^ key (Fin.ofNat 4 i)) :: applyMask key (i + 1) bs

theorem length_applyMask (key : MaskKey) (i : Nat) (bs : List UInt8) :
    (applyMask key i bs).length = bs.length := by
  induction bs generalizing i with
  | nil => rfl
  | cons b bs ih => simp [applyMask, ih]

theorem applyMask_applyMask (key : MaskKey) (i : Nat) (bs : List UInt8) :
    applyMask key i (applyMask key i bs) = bs := by
  induction bs generalizing i with
  | nil => rfl
  | cons b bs ih =>
    rw [applyMask, applyMask, ih, UInt8.xor_assoc, UInt8.xor_self, UInt8.xor_zero]

abbrev Opcode := Fin 16

def Opcode.continuation : Opcode := 0

def Opcode.text : Opcode := 1

def Opcode.binary : Opcode := 2

def Opcode.close : Opcode := 8

def Opcode.ping : Opcode := 9

def Opcode.pong : Opcode := 10

structure Frame where
  fin : Bool
  opcode : Opcode
  mask : Option MaskKey
  payload : List UInt8

inductive LenForm
  | seven
  | sixteen
  | sixtyFour
  deriving DecidableEq

def LenForm.Holds : LenForm → Nat → Prop
  | .seven, n => n < 126
  | .sixteen, n => n < 65536
  | .sixtyFour, n => n < 2 ^ 63

instance (form : LenForm) (n : Nat) : Decidable (form.Holds n) :=
  match form with
  | .seven => inferInstanceAs (Decidable (n < 126))
  | .sixteen => inferInstanceAs (Decidable (n < 65536))
  | .sixtyFour => inferInstanceAs (Decidable (n < 2 ^ 63))

def LenForm.code : LenForm → Nat → Nat
  | .seven, n => n
  | .sixteen, _ => 126
  | .sixtyFour, _ => 127

def LenForm.extended : LenForm → Nat → List UInt8
  | .seven, _ => []
  | .sixteen, n => bigEndianBytes 2 n
  | .sixtyFour, n => bigEndianBytes 8 n

/-- A frame with an encoding of its length that can hold it. -/
structure WireFrame extends Frame where
  form : LenForm
  holds : form.Holds payload.length

def Frame.firstByte (f : Frame) : UInt8 := UInt8.ofNat (f.fin.toNat * 128 + f.opcode.val)

def Frame.secondByte (f : Frame) (form : LenForm) : UInt8 :=
  UInt8.ofNat (f.mask.isSome.toNat * 128 + form.code f.payload.length)

def Frame.body (f : Frame) : List UInt8 :=
  match f.mask with
  | none => f.payload
  | some key => key.bytes ++ applyMask key 0 f.payload

def Frame.encode (f : Frame) (form : LenForm) : List UInt8 :=
  f.firstByte :: f.secondByte form :: (form.extended f.payload.length ++ f.body)

def WireFrame.encode (f : WireFrame) : List UInt8 := f.toFrame.encode f.form

def WireFrame.head (f : WireFrame) : List UInt8 :=
  f.firstByte :: f.secondByte f.form :: f.form.extended f.payload.length

theorem WireFrame.encode_eq (f : WireFrame) : f.encode = f.head ++ f.body := rfl

theorem WireFrame.encode_ne_nil (f : WireFrame) : f.encode ≠ [] := by
  simp [WireFrame.encode, Frame.encode]

/-- The encoding a sender has to use: the shortest one. -/
def minForm (n : Nat) : LenForm :=
  if n < 126 then .seven else if n < 65536 then .sixteen else .sixtyFour

theorem minForm_holds {n : Nat} (h : n < 2 ^ 63) : (minForm n).Holds n := by
  unfold minForm
  split
  next h1 => exact h1
  next =>
    split
    next h2 => exact h2
    next => exact h

theorem LenForm.code_lt (form : LenForm) {n : Nat} (h : form.Holds n) : form.code n < 128 := by
  cases form with
  | seven => exact Nat.lt_trans h (by omega)
  | sixteen => simp [LenForm.code]
  | sixtyFour => simp [LenForm.code]

theorem Frame.toNat_firstByte (f : Frame) :
    f.firstByte.toNat = f.fin.toNat * 128 + f.opcode.val := by
  have := f.opcode.isLt
  have := Bool.toNat_le f.fin
  rw [Frame.firstByte, UInt8.toNat_ofNat']
  omega

theorem Frame.toNat_secondByte (f : Frame) {form : LenForm} (h : form.Holds f.payload.length) :
    (f.secondByte form).toNat = f.mask.isSome.toNat * 128 + form.code f.payload.length := by
  have := form.code_lt h
  have := Bool.toNat_le f.mask.isSome
  rw [Frame.secondByte, UInt8.toNat_ofNat']
  omega

/-- Read a length after its 7-bit code; only the shortest encoding is accepted. -/
def decodeLen (code : Nat) (bs : List UInt8) : Option (Nat × List UInt8) :=
  if code < 126 then some (code, bs)
  else
    let width := if code = 126 then 2 else 8
    let n := bigEndian (bs.take width)
    if bs.length < width ∨ 2 ^ 63 ≤ n ∨ (minForm n).code n ≠ code then none
    else some (n, bs.drop width)

def decode (bs : List UInt8) : Option (Frame × List UInt8) :=
  match bs with
  | b0 :: b1 :: rest => do
    if b0.toNat / 16 % 8 ≠ 0 then none
    let (n, rest) ← decodeLen (b1.toNat % 128) rest
    let fin : Bool := 128 ≤ b0.toNat
    let opcode := Fin.ofNat 16 b0.toNat
    if b1.toNat < 128 then
      if rest.length < n then none else some (⟨fin, opcode, none, rest.take n⟩, rest.drop n)
    else
      match rest with
      | k0 :: k1 :: k2 :: k3 :: rest =>
        let key : MaskKey := ![k0, k1, k2, k3]
        if rest.length < n then none
        else some (⟨fin, opcode, some key, applyMask key 0 (rest.take n)⟩, rest.drop n)
      | _ => none
  | _ => none

/-- All frames of a byte string; `none` if something else is left. -/
def decodeAll : Nat → List UInt8 → Option (List Frame)
  | _, [] => some []
  | 0, _ :: _ => none
  | fuel + 1, b :: bs => do
    let (f, rest) ← decode (b :: bs)
    let fs ← decodeAll fuel rest
    some (f :: fs)

def decodeStream (bs : List UInt8) : Option (List Frame) := decodeAll bs.length bs

def Frame.encodeMin (f : Frame) : List UInt8 := f.encode (minForm f.payload.length)

theorem decodeLen_extended {code width n : Nat} (hc : ¬ code < 126)
    (hw : width = if code = 126 then 2 else 8) (hn : n < 256 ^ width) (small : n < 2 ^ 63)
    (shortest : (minForm n).code n = code) (rest : List UInt8) :
    decodeLen code (bigEndianBytes width n ++ rest) = some (n, rest) := by
  have length := length_bigEndianBytes width n
  have enough : ¬ (bigEndianBytes width n ++ rest).length < width := by
    rw [List.length_append, length]
    omega
  rw [decodeLen, if_neg hc]
  simp only [← hw, List.take_left' length, List.drop_left' length, bigEndian_bigEndianBytes hn]
  rw [if_neg]
  rintro (short | large | longer)
  · exact enough short
  · omega
  · exact longer shortest

theorem decodeLen_minForm {n : Nat} (h : n < 2 ^ 63) (rest : List UInt8) :
    decodeLen ((minForm n).code n) ((minForm n).extended n ++ rest) = some (n, rest) := by
  by_cases h1 : n < 126
  · have form : minForm n = .seven := if_pos h1
    rw [form]
    exact if_pos h1
  · by_cases h2 : n < 65536
    · have form : minForm n = .sixteen := (if_neg h1).trans (if_pos h2)
      rw [form]
      exact decodeLen_extended (show ¬ 126 < 126 by omega) rfl h2 h (by rw [form]; rfl) rest
    · have form : minForm n = .sixtyFour := (if_neg h1).trans (if_neg h2)
      have fits : n < 256 ^ 8 := h.trans (by decide)
      rw [form]
      exact decodeLen_extended (show ¬ 127 < 126 by omega) rfl fits h (by rw [form]; rfl) rest

theorem MaskKey.of_bytes (key : MaskKey) : ![key 0, key 1, key 2, key 3] = key := by
  funext i
  match i with
  | 0 | 1 | 2 | 3 => rfl

theorem Frame.firstByte_reserved (f : Frame) : f.firstByte.toNat / 16 % 8 = 0 := by
  have := f.opcode.isLt
  have := Bool.toNat_le f.fin
  rw [f.toNat_firstByte]
  omega

theorem Frame.firstByte_opcode (f : Frame) : Fin.ofNat 16 f.firstByte.toNat = f.opcode := by
  have := f.opcode.isLt
  apply Fin.ext
  rw [f.toNat_firstByte, Fin.val_ofNat]
  omega

theorem Frame.firstByte_fin (f : Frame) : decide (128 ≤ f.firstByte.toNat) = f.fin := by
  have := f.opcode.isLt
  rw [f.toNat_firstByte]
  cases f.fin with
  | true => simp
  | false => simp; omega

theorem decode_encodeMin (f : Frame) (h : f.payload.length < 2 ^ 63) (rest : List UInt8) :
    decode (f.encodeMin ++ rest) = some (f, rest) := by
  have hc := (minForm f.payload.length).code_lt (minForm_holds h)
  have second := f.toNat_secondByte (minForm_holds h)
  have len := decodeLen_minForm h (f.body ++ rest)
  have reserved := f.firstByte_reserved
  have opcode := f.firstByte_opcode
  have fin := f.firstByte_fin
  generalize hb0 : f.firstByte = b0 at reserved opcode fin
  generalize hb1 : f.secondByte (minForm f.payload.length) = b1 at second
  have code : b1.toNat % 128 = (minForm f.payload.length).code f.payload.length := by omega
  rw [Frame.encodeMin, Frame.encode, hb0, hb1, List.cons_append, List.cons_append,
    List.append_assoc, decode]
  simp only [reserved, ne_eq, not_true_eq_false, if_false, code, len, opcode, fin,
    Option.bind_eq_bind, Option.bind_some]
  cases hm : f.mask with
  | none =>
    have plain : b1.toNat < 128 := by simp [hm] at second; omega
    have body : f.body = f.payload := by simp [Frame.body, hm]
    have back : (⟨f.fin, f.opcode, none, f.payload⟩ : Frame) = f := by rw [← hm]
    simp [plain, body, back]
  | some key =>
    have masked : ¬ b1.toNat < 128 := by simp [hm] at second; omega
    have body : f.body = key 0 :: key 1 :: key 2 :: key 3 :: applyMask key 0 f.payload := by
      simp [Frame.body, hm, MaskKey.bytes]
    have hl := length_applyMask key 0 f.payload
    have back : (⟨f.fin, f.opcode, some key, f.payload⟩ : Frame) = f := by rw [← hm]
    simp [masked, body, hl, MaskKey.of_bytes, List.take_left' hl, List.drop_left' hl,
      applyMask_applyMask, back]

theorem decodeAll_encodeMin {fs : List Frame} (h : ∀ f ∈ fs, f.payload.length < 2 ^ 63)
    {fuel : Nat} (hf : (fs.flatMap Frame.encodeMin).length ≤ fuel) :
    decodeAll fuel (fs.flatMap Frame.encodeMin) = some fs := by
  induction fs generalizing fuel with
  | nil => simp [decodeAll]
  | cons f fs ih =>
    have read := decode_encodeMin f (h f (by simp)) (fs.flatMap Frame.encodeMin)
    obtain ⟨b, bs, hb⟩ : ∃ b bs, f.encodeMin = b :: bs := ⟨_, _, rfl⟩
    rw [List.flatMap_cons, hb] at hf ⊢
    rw [hb] at read
    rw [List.cons_append] at read hf ⊢
    cases fuel with
    | zero => simp at hf
    | succ fuel =>
      have rest := ih (fun g hg => h g (List.mem_cons_of_mem f hg))
        (show (fs.flatMap Frame.encodeMin).length ≤ fuel by simp at hf ⊢; omega)
      simp [decodeAll, read, rest]

theorem decodeStream_encodeMin {fs : List Frame} (h : ∀ f ∈ fs, f.payload.length < 2 ^ 63) :
    decodeStream (fs.flatMap Frame.encodeMin) = some fs :=
  decodeAll_encodeMin h le_rfl

end Rfc6455
