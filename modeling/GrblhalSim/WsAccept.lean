import GrblhalSim.CString
import GrblhalSim.Rfc6455

namespace GrblhalSim

/-- The loop that looks for `new_len`, at most `left` times more. -/
def padLength : Nat → Nat → Nat
  | 0, newLen => newLen
  | left + 1, newLen => if newLen % 64 ≠ 56 then padLength left (newLen + 1) else newLen

/-- `buf` of `sha1`: the message, a bit, zeros and the number of bits. -/
def sha1Buf (msg : List UInt8) : List UInt8 :=
  let newLen := padLength 63 (msg.length + 1)
  msg ++ 0x80 :: List.replicate (newLen - (msg.length + 1)) 0 ++
    Rfc6455.bigEndianBytes 8 (msg.length * 8)

def rotateLeft (x : UInt32) (n : UInt32) : UInt32 := (x <<< n) ||| (x >>> (32 - n))

def sha1Word (bytes : List UInt8) (i : Nat) : UInt32 :=
  ((bytes.getD i 0).toUInt32 <<< 24) ||| ((bytes.getD (i + 1) 0).toUInt32 <<< 16) |||
    ((bytes.getD (i + 2) 0).toUInt32 <<< 8) ||| (bytes.getD (i + 3) 0).toUInt32

/-- `w` of the block at `offset`. -/
def sha1Schedule (bytes : List UInt8) (offset : Nat) : List UInt32 :=
  (List.range' 16 64).foldl
    (fun w i => w ++ [rotateLeft
      (w.getD (i - 3) 0 ^^^ w.getD (i - 8) 0 ^^^ w.getD (i - 14) 0 ^^^ w.getD (i - 16) 0) 1])
    ((List.range 16).map fun i => sha1Word bytes (offset + 4 * i))

structure Sha1State where
  a : UInt32
  b : UInt32
  c : UInt32
  d : UInt32
  e : UInt32

def Sha1State.initial : Sha1State := ⟨0x67452301, 0xEFCDAB89, 0x98BADCFE, 0x10325476, 0xC3D2E1F0⟩

/-- `f + k` of a round. -/
def Sha1State.mix (s : Sha1State) (i : Nat) : UInt32 :=
  if i < 20 then ((s.b &&& s.c) ||| (~~~ s.b &&& s.d)) + 0x5A827999
  else if i < 40 then (s.b ^^^ s.c ^^^ s.d) + 0x6ED9EBA1
  else if i < 60 then ((s.b &&& s.c) ||| (s.b &&& s.d) ||| (s.c &&& s.d)) + 0x8F1BBCDC
  else (s.b ^^^ s.c ^^^ s.d) + 0xCA62C1D6

def Sha1State.round (w : List UInt32) (s : Sha1State) (i : Nat) : Sha1State :=
  ⟨rotateLeft s.a 5 + s.mix i + s.e + w.getD i 0, s.a, rotateLeft s.b 30, s.c, s.d⟩

def Sha1State.block (bytes : List UInt8) (h : Sha1State) (offset : Nat) : Sha1State :=
  let s := (List.range 80).foldl (Sha1State.round (sha1Schedule bytes offset)) h
  ⟨h.a + s.a, h.b + s.b, h.c + s.c, h.d + s.d, h.e + s.e⟩

/-- `sha1`: the digest. -/
def sha1 (msg : List UInt8) : List UInt8 :=
  let buf := sha1Buf msg
  let h := (List.range (buf.length / 64)).foldl (fun h n => Sha1State.block buf h (64 * n))
    Sha1State.initial
  [h.a, h.b, h.c, h.d, h.e].flatMap fun x : UInt32 =>
    [(x >>> 24).toUInt8, (x >>> 16).toUInt8, (x >>> 8).toUInt8, x.toUInt8]

def b64 : List UInt8 := ascii "ABCDEFGHIJKLMNOPQRSTUVWXYZabcdefghijklmnopqrstuvwxyz0123456789+/"

def b64Digit (i : UInt8) : UInt8 := b64.getD i.toNat 0

/-- The text of `base64_encode`. -/
def base64Encode : List UInt8 → List UInt8
  | a :: b :: c :: rest =>
    b64Digit (a >>> 2) :: b64Digit (((a &&& 3) <<< 4) ||| (b >>> 4)) ::
      b64Digit (((b &&& 0xF) <<< 2) ||| (c >>> 6)) :: b64Digit (c &&& 0x3F) :: base64Encode rest
  | [a, b] =>
    [b64Digit (a >>> 2), b64Digit (((a &&& 3) <<< 4) ||| (b >>> 4)), b64Digit ((b &&& 0xF) <<< 2),
      0x3D]
  | [a] => [b64Digit (a >>> 2), b64Digit ((a &&& 3) <<< 4), 0x3D, 0x3D]
  | [] => []

theorem length_sha1 (msg : List UInt8) : (sha1 msg).length = 20 := rfl

theorem length_base64Encode (bytes : List UInt8) :
    (base64Encode bytes).length = 4 * ((bytes.length + 2) / 3) := by
  induction bytes using base64Encode.induct with
  | case1 a b c rest ih =>
    simp only [base64Encode, List.length_cons, ih]
    omega
  | case2 => simp [base64Encode]
  | case3 => simp [base64Encode]
  | case4 => simp [base64Encode]

example : base64Encode (ascii "Man") = ascii "TWFu" ∧ base64Encode (ascii "Ma") = ascii "TWE=" ∧
    base64Encode (ascii "M") = ascii "TQ==" := by
  decide

theorem b64Digit_ne_zero {i : UInt8} (small : i.toNat < 64) : b64Digit i ≠ 0 := by
  have digits : ∀ c ∈ b64, c ≠ 0 := by decide +kernel
  have size : b64.length = 64 := by decide +kernel
  rw [b64Digit, List.getD_eq_getElem _ _ (size ▸ small)]
  exact digits _ (List.getElem_mem _)

theorem toNat_shiftRight_lt (x n : UInt8) (two : 2 ≤ n.toNat) (eight : n.toNat < 8) :
    (x >>> n).toNat < 64 := by
  have := x.toNat_lt
  have := Nat.pow_le_pow_right (show 0 < 2 by decide) two
  rw [UInt8.toNat_shiftRight, Nat.mod_eq_of_lt eight, Nat.shiftRight_eq_div_pow]
  exact Nat.div_lt_of_lt_mul (by omega)

theorem toNat_and_shiftLeft_lt (x mask n : UInt8) (small : mask.toNat * 2 ^ n.toNat < 64)
    (eight : n.toNat < 8) : ((x &&& mask) <<< n).toNat < 64 := by
  have : x.toNat &&& mask.toNat ≤ mask.toNat := Nat.and_le_right
  have := Nat.mul_le_mul_right (2 ^ n.toNat) this
  rw [UInt8.toNat_shiftLeft, Nat.mod_eq_of_lt eight, UInt8.toNat_and, Nat.shiftLeft_eq]
  exact Nat.lt_of_le_of_lt (Nat.mod_le _ _) (by omega)

theorem toNat_or_lt {x y : UInt8} (hx : x.toNat < 64) (hy : y.toNat < 64) :
    (x ||| y).toNat < 64 := by
  rw [UInt8.toNat_or]
  exact Nat.or_lt_two_pow (n := 6) hx hy

/-- The text of `base64_encode` has no NUL, so that it is the string that its buffer holds. -/
theorem base64Encode_noNul (bytes : List UInt8) : 0 ∉ base64Encode bytes := by
  have top2 (x : UInt8) := toNat_shiftRight_lt x 2 (by decide) (by decide)
  have top4 (x : UInt8) := toNat_shiftRight_lt x 4 (by decide) (by decide)
  have top6 (x : UInt8) := toNat_shiftRight_lt x 6 (by decide) (by decide)
  have low2 (x : UInt8) := toNat_and_shiftLeft_lt x 3 4 (by decide) (by decide)
  have low4 (x : UInt8) := toNat_and_shiftLeft_lt x 0xF 2 (by decide) (by decide)
  have low6 (x : UInt8) : (x &&& 0x3F).toNat < 64 := by
    rw [UInt8.toNat_and]
    exact Nat.and_lt_two_pow (n := 6) _ (by decide)
  have digit {i : UInt8} (small : i.toNat < 64) : 0 ≠ b64Digit i := (b64Digit_ne_zero small).symm
  induction bytes using base64Encode.induct with
  | case1 a b c rest ih =>
    simp only [base64Encode, List.mem_cons, not_or]
    exact ⟨digit (top2 a), digit (toNat_or_lt (low2 a) (top4 b)),
      digit (toNat_or_lt (low4 b) (top6 c)), digit (low6 c), ih⟩
  | case2 a b =>
    simp only [base64Encode, List.mem_cons, not_or]
    exact ⟨digit (top2 a), digit (toNat_or_lt (low2 a) (top4 b)), digit (low4 b), by decide,
      List.not_mem_nil⟩
  | case3 a =>
    simp only [base64Encode, List.mem_cons, not_or]
    exact ⟨digit (top2 a), digit (low2 a), by decide, by decide, List.not_mem_nil⟩
  | case4 => exact List.not_mem_nil

theorem padLength_mod (left newLen : Nat) {k : Nat} (near : k ≤ left)
    (ends : (newLen + k) % 64 = 56) : padLength left newLen % 64 = 56 := by
  induction left generalizing newLen k with
  | zero =>
    cases Nat.le_zero.mp near
    exact ends
  | succ left ih =>
    rw [padLength]
    split
    next more =>
      cases k with
      | zero => exact absurd ends more
      | succ k => exact ih (newLen + 1) (k := k) (by omega) (by omega)
    next done => exact not_not.mp done

theorem le_padLength (left newLen : Nat) : newLen ≤ padLength left newLen := by
  induction left generalizing newLen with
  | zero => exact le_rfl
  | succ left ih =>
    rw [padLength]
    split
    next =>
      have := ih (newLen + 1)
      omega
    next => exact le_rfl

/-- The blocks of `sha1` end where its buffer does. -/
theorem length_sha1Buf (msg : List UInt8) :
    ∃ blocks, (sha1Buf msg).length = 64 * blocks := by
  have ends := padLength_mod 63 (msg.length + 1)
    (k := (120 - (msg.length + 1) % 64) % 64) (by omega) (by omega)
  have long := le_padLength 63 (msg.length + 1)
  refine ⟨(padLength 63 (msg.length + 1) + 8) / 64, ?_⟩
  simp only [sha1Buf, List.length_append, List.length_cons, List.length_replicate,
    Rfc6455.length_bigEndianBytes]
  omega

end GrblhalSim
