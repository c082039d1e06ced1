import Mathlib.Algebra.GroupWithZero.Nat
import Mathlib.Data.List.Basic

namespace Rfc4648

/-- The character that stands for a value in the base 64 alphabet. -/
def symbol (v : Nat) : UInt8 :=
  if v < 26 then UInt8.ofNat (65 + v)
  else if v < 52 then UInt8.ofNat (97 + (v - 26))
  else if v < 62 then UInt8.ofNat (48 + (v - 52))
  else if v = 62 then 43 else 47

def alphabet : List UInt8 := (List.range 64).map symbol

def pad : UInt8 := 61

/-- The value that a character of the alphabet stands for. -/
def value (c : UInt8) : Option Nat :=
  if 65 ≤ c.toNat ∧ c.toNat ≤ 90 then some (c.toNat - 65)
  else if 97 ≤ c.toNat ∧ c.toNat ≤ 122 then some (c.toNat - 97 + 26)
  else if 48 ≤ c.toNat ∧ c.toNat ≤ 57 then some (c.toNat - 48 + 52)
  else if c.toNat = 43 then some 62
  else if c.toNat = 47 then some 63 else none

/-- Data as groups of six bits, the last one filled up with zero bits. -/
def sextets : List UInt8 → List Nat
  | a :: b :: c :: rest =>
    let group := a.toNat * 2 ^ 16 + b.toNat * 2 ^ 8 + c.toNat
    group / 2 ^ 18 :: group / 2 ^ 12 % 64 :: group / 2 ^ 6 % 64 :: group % 64 :: sextets rest
  | [a, b] =>
    let group := (a.toNat * 2 ^ 8 + b.toNat) * 2 ^ 2
    [group / 2 ^ 12, group / 2 ^ 6 % 64, group % 64]
  | [a] =>
    let group := a.toNat * 2 ^ 4
    [group / 2 ^ 6, group % 64]
  | [] => []

/-- How many characters of padding stand behind data of some length. -/
def padding (n : Nat) : Nat := (3 - n % 3) % 3

/-- The base 64 encoding. -/
def encode (bytes : List UInt8) : List UInt8 :=
  (sextets bytes).map symbol ++ List.replicate (padding bytes.length) pad

/-- The base 64 decoding. Padding stands at the end only, and the bits it fills up are zero. -/
def decode : List UInt8 → Option (List UInt8)
  | [] => some []
  | c0 :: c1 :: c2 :: c3 :: rest =>
    match value c0, value c1, value c2, value c3 with
    | some v0, some v1, some v2, some v3 =>
      let group := v0 * 2 ^ 18 + v1 * 2 ^ 12 + v2 * 2 ^ 6 + v3
      (decode rest).map fun bytes => UInt8.ofNat (group / 2 ^ 16) ::
        UInt8.ofNat (group / 2 ^ 8 % 256) :: UInt8.ofNat (group % 256) :: bytes
    | some v0, some v1, some v2, none =>
      let group := v0 * 2 ^ 12 + v1 * 2 ^ 6 + v2
      if c3 = pad ∧ rest = [] ∧ group % 4 = 0 then
        some [UInt8.ofNat (group / 2 ^ 10), UInt8.ofNat (group / 2 ^ 2 % 256)]
      else none
    | some v0, some v1, none, none =>
      let group := v0 * 2 ^ 6 + v1
      if c2 = pad ∧ c3 = pad ∧ rest = [] ∧ group % 16 = 0 then
        some [UInt8.ofNat (group / 2 ^ 4)]
      else none
    | _, _, _, _ => none
  | _ => none

theorem value_symbol {v : Nat} (small : v < 64) : value (symbol v) = some v := by
  have table : ∀ v : Fin 64, value (symbol v.val) = some v.val := by decide +kernel
  exact table ⟨v, small⟩

theorem value_pad : value pad = none := by decide

theorem symbol_mem {v : Nat} (small : v < 64) : symbol v ∈ alphabet :=
  List.mem_map.mpr ⟨v, List.mem_range.mpr small, rfl⟩

theorem sextets_lt (bytes : List UInt8) : ∀ v ∈ sextets bytes, v < 64 := by
  induction bytes using sextets.induct with
  | case1 a b c rest ih =>
    have := a.toNat_lt
    have := b.toNat_lt
    have := c.toNat_lt
    simp only [sextets, List.mem_cons, forall_eq_or_imp]
    exact ⟨by omega, by omega, by omega, by omega, ih⟩
  | case2 a b =>
    have := a.toNat_lt
    have := b.toNat_lt
    simp only [sextets, List.mem_cons, forall_eq_or_imp]
    exact ⟨by omega, by omega, by omega, by simp⟩
  | case3 a =>
    have := a.toNat_lt
    simp only [sextets, List.mem_cons, forall_eq_or_imp]
    exact ⟨by omega, by omega, by simp⟩
  | case4 => simp [sextets]

theorem encode_cons (a b c : UInt8) (rest : List UInt8) :
    encode (a :: b :: c :: rest) =
      (sextets [a, b, c]).map symbol ++ encode rest := by
  have same : padding (a :: b :: c :: rest).length = padding rest.length := by
    simp only [padding, List.length_cons]
    omega
  rw [encode, same]
  rfl

theorem length_encode (bytes : List UInt8) :
    (encode bytes).length = 4 * ((bytes.length + 2) / 3) := by
  induction bytes using sextets.induct with
  | case1 a b c rest ih =>
    simp only [encode_cons, List.length_append, List.length_cons, ih, sextets, List.map_cons,
      List.map_nil, List.length_nil]
    omega
  | case2 => simp [encode, sextets, padding]
  | case3 => simp [encode, sextets, padding]
  | case4 => rfl

theorem octet {n : Nat} {b : UInt8} (h : n % 256 = b.toNat) : UInt8.ofNat n = b :=
  UInt8.toNat_inj.mp (UInt8.toNat_ofNat'.trans h)

theorem decode_quantum {v0 v1 v2 v3 : Nat} (h0 : v0 < 64) (h1 : v1 < 64) (h2 : v2 < 64)
    (h3 : v3 < 64) (text : List UInt8) :
    decode (symbol v0 :: symbol v1 :: symbol v2 :: symbol v3 :: text) =
      (decode text).map fun bytes =>
        let group := v0 * 2 ^ 18 + v1 * 2 ^ 12 + v2 * 2 ^ 6 + v3
        UInt8.ofNat (group / 2 ^ 16) :: UInt8.ofNat (group / 2 ^ 8 % 256) ::
          UInt8.ofNat (group % 256) :: bytes := by
  rw [decode, value_symbol h0, value_symbol h1, value_symbol h2, value_symbol h3]

theorem decode_two {v0 v1 v2 : Nat} (h0 : v0 < 64) (h1 : v1 < 64) (h2 : v2 < 64)
    (zeros : v2 % 4 = 0) :
    decode [symbol v0, symbol v1, symbol v2, pad] =
      some [UInt8.ofNat ((v0 * 2 ^ 12 + v1 * 2 ^ 6 + v2) / 2 ^ 10),
        UInt8.ofNat ((v0 * 2 ^ 12 + v1 * 2 ^ 6 + v2) / 2 ^ 2 % 256)] := by
  rw [decode, value_symbol h0, value_symbol h1, value_symbol h2, value_pad]
  exact if_pos ⟨rfl, rfl, by omega⟩

theorem decode_one {v0 v1 : Nat} (h0 : v0 < 64) (h1 : v1 < 64) (zeros : v1 % 16 = 0) :
    decode [symbol v0, symbol v1, pad, pad] =
      some [UInt8.ofNat ((v0 * 2 ^ 6 + v1) / 2 ^ 4)] := by
  rw [decode, value_symbol h0, value_symbol h1, value_pad]
  exact if_pos ⟨rfl, rfl, rfl, by omega⟩

/-- Nothing is lost: the decoding of the encoding is the data. -/
theorem decode_encode (bytes : List UInt8) : decode (encode bytes) = some bytes := by
  induction bytes using sextets.induct with
  | case1 a b c rest ih =>
    have := a.toNat_lt
    have := b.toNat_lt
    have := c.toNat_lt
    rw [encode_cons]
    refine (decode_quantum (by omega) (by omega) (by omega) (by omega) (encode rest)).trans ?_
    rw [ih]
    refine congrArg some (List.cons_eq_cons.mpr ⟨octet ?_, List.cons_eq_cons.mpr ⟨octet ?_,
      List.cons_eq_cons.mpr ⟨octet ?_, rfl⟩⟩⟩)
    · omega
    · omega
    · omega
  | case2 a b =>
    have := a.toNat_lt
    have := b.toNat_lt
    refine (decode_two (by omega) (by omega) (by omega) (by omega)).trans ?_
    refine congrArg some (List.cons_eq_cons.mpr ⟨octet ?_, List.cons_eq_cons.mpr ⟨octet ?_, rfl⟩⟩)
    · omega
    · omega
  | case3 a =>
    have := a.toNat_lt
    refine (decode_one (by omega) (by omega) (by omega)).trans ?_
    exact congrArg some (List.cons_eq_cons.mpr ⟨octet (by omega), rfl⟩)
  | case4 => rfl

end Rfc4648
