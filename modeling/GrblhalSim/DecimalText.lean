import Mathlib.Data.Rat.Floor
import Mathlib.Tactic.Linarith
import Mathlib.Tactic.FieldSimp
import Mathlib.Tactic.Ring

namespace DecimalText

def minus : UInt8 := 0x2D
def point : UInt8 := 0x2E

def IsDigit (b : UInt8) : Bool := 0x30 ≤ b && b ≤ 0x39

/-- The decimal text of a number, without leading zeros. -/
def decimal (n : Nat) : List UInt8 := (Nat.toDigits 10 n).map fun c => UInt8.ofNat c.toNat

def digitsValue (init : Nat) (digits : List UInt8) : Nat :=
  digits.foldl (fun n b => 10 * n + (b.toNat - 48)) init

def digitByte (d : Nat) : UInt8 := UInt8.ofNat (48 + d)

/-- The quotient rounded to the nearest whole number, a tie to the even one. -/
def roundHalfEven (num den : Nat) : Nat :=
  if 2 * (num % den) < den then num / den
  else if den < 2 * (num % den) then num / den + 1
  else num / den + num / den % 2

/-- The thousandths in the absolute value of `x`, rounded. -/
def thousandths (x : ℚ) : Nat := roundHalfEven (1000 * x.num.natAbs) x.den

/-- `x` rounded to three decimals. -/
def round3 (x : ℚ) : ℚ := if x < 0 then -(thousandths x / 1000 : ℚ) else thousandths x / 1000

def pad3 (m : Nat) : List UInt8 := [digitByte (m / 100), digitByte (m / 10 % 10), digitByte (m % 10)]

/-- The text of a number of thousandths, with three decimals. -/
def thousandthsText (t : Nat) : List UInt8 := decimal (t / 1000) ++ point :: pad3 (t % 1000)

/-- The text of `x` with three decimals. -/
def fixed3 (x : ℚ) : List UInt8 :=
  if x < 0 then minus :: thousandthsText (thousandths x) else thousandthsText (thousandths x)

/-- The unsigned decimal number at the front of a text. -/
def readUnsigned (text : List UInt8) : Option Nat :=
  if text.takeWhile IsDigit = [] then none else some (digitsValue 0 (text.takeWhile IsDigit))

/-- The number at the front of a text, with or without decimals. -/
def readMagnitude (text : List UInt8) : Option ℚ :=
  let whole := text.takeWhile IsDigit
  let rest := text.dropWhile IsDigit
  let decimals := if rest.head? = some point then rest.tail.takeWhile IsDigit else []
  if whole = [] ∧ decimals = [] then none
  else some (digitsValue 0 (whole ++ decimals) / 10 ^ decimals.length)

def readSigned (text : List UInt8) : Option ℚ :=
  if text.head? = some minus then (readMagnitude text.tail).map (- ·) else readMagnitude text

theorem digitByte_toNat {d : Nat} (h : d < 10) : (digitByte d).toNat = 48 + d := by
  rw [digitByte, UInt8.toNat_ofNat']
  omega

theorem isDigit_digitByte {d : Nat} (h : d < 10) : IsDigit (digitByte d) = true := by
  have := digitByte_toNat h
  simp only [IsDigit, UInt8.le_iff_toNat_le, Bool.and_eq_true, decide_eq_true_eq, this]
  exact ⟨Nat.le_add_right _ _, by simp; omega⟩

theorem digitChar_byte {c : Char} (h : c.isDigit = true) :
    (UInt8.ofNat c.toNat).toNat = c.toNat ∧ IsDigit (UInt8.ofNat c.toNat) = true := by
  have range : 48 ≤ c.toNat ∧ c.toNat ≤ 57 := by
    simpa [Char.isDigit, UInt32.le_iff_toNat_le] using h
  have byte : (UInt8.ofNat c.toNat).toNat = c.toNat := by
    rw [UInt8.toNat_ofNat']
    omega
  refine ⟨byte, ?_⟩
  simp only [IsDigit, UInt8.le_iff_toNat_le, Bool.and_eq_true, decide_eq_true_eq, byte]
  exact ⟨range.1, range.2⟩

theorem isDigit_of_mem_decimal {n : Nat} {b : UInt8} (h : b ∈ decimal n) : IsDigit b = true := by
  obtain ⟨c, hc, rfl⟩ := List.mem_map.mp h
  exact (digitChar_byte (Nat.isDigit_of_mem_toDigits (by decide) (by decide) hc)).2

theorem decimal_ne_nil (n : Nat) : decimal n ≠ [] := by
  simp [decimal]

theorem decimal_length_le {n k : Nat} (hk : 0 < k) : (decimal n).length ≤ k ↔ n < 10 ^ k := by
  rw [decimal, List.length_map]
  exact Nat.length_toDigits_le_iff (by decide) hk

theorem digitsValue_map {cs : List Char} (digits : ∀ c ∈ cs, c.isDigit = true) (init : Nat) :
    digitsValue init (cs.map fun c => UInt8.ofNat c.toNat) = Nat.ofDigitChars 10 cs init := by
  induction cs generalizing init with
  | nil => rfl
  | cons c cs ih =>
    have here := (digitChar_byte (digits c (by simp))).1
    rw [Nat.ofDigitChars_cons, ← ih (fun d hd => digits d (by simp [hd])), List.map_cons, digitsValue,
      List.foldl_cons, here]
    rfl

theorem digitsValue_decimal (n : Nat) : digitsValue 0 (decimal n) = n := by
  rw [decimal, digitsValue_map fun c => Nat.isDigit_of_mem_toDigits (by decide) (by decide)]
  exact Nat.ofDigitChars_ten_toDigits

theorem takeWhile_digits {digits : List UInt8} (rest : List UInt8)
    (all : ∀ b ∈ digits, IsDigit b = true) (stop : ∀ b ∈ rest.head?, IsDigit b = false) :
    (digits ++ rest).takeWhile IsDigit = digits ∧ (digits ++ rest).dropWhile IsDigit = rest := by
  rw [List.takeWhile_append_of_pos all, List.dropWhile_append_of_pos all]
  cases rest with
  | nil => simp
  | cons b rest =>
    have := stop b rfl
    simp [this]

theorem readUnsigned_decimal (n : Nat) : readUnsigned (decimal n) = some n := by
  have := (takeWhile_digits [] (fun b => isDigit_of_mem_decimal (n := n)) (by simp)).1
  rw [List.append_nil] at this
  rw [readUnsigned, this, if_neg (decimal_ne_nil n), digitsValue_decimal]

theorem pad3_digits {m : Nat} (h : m < 1000) : ∀ b ∈ pad3 m, IsDigit b = true := by
  intro b hb
  simp only [pad3, List.mem_cons, List.not_mem_nil, or_false] at hb
  rcases hb with rfl | rfl | rfl
  · exact isDigit_digitByte (by omega)
  · exact isDigit_digitByte (by omega)
  · exact isDigit_digitByte (by omega)

theorem digitsValue_pad3 {m : Nat} (h : m < 1000) (init : Nat) :
    digitsValue init (pad3 m) = 1000 * init + m := by
  have hundreds := digitByte_toNat (show m / 100 < 10 by omega)
  have tens := digitByte_toNat (show m / 10 % 10 < 10 by omega)
  have ones := digitByte_toNat (show m % 10 < 10 by omega)
  simp only [digitsValue, pad3, List.foldl_cons, List.foldl_nil, hundreds, tens, ones]
  omega

theorem mem_thousandthsText {t : Nat} {b : UInt8} (h : b ∈ thousandthsText t) :
    b = point ∨ IsDigit b = true := by
  rcases List.mem_append.mp h with h | h
  · exact Or.inr (isDigit_of_mem_decimal h)
  · rcases List.mem_cons.mp h with h | h
    · exact Or.inl h
    · exact Or.inr (pad3_digits (Nat.mod_lt _ (by decide)) b h)

theorem mem_fixed3 {x : ℚ} {b : UInt8} (h : b ∈ fixed3 x) :
    b = minus ∨ b = point ∨ IsDigit b = true := by
  unfold fixed3 at h
  split at h
  next =>
    rcases List.mem_cons.mp h with h | h
    · exact Or.inl h
    · exact Or.inr (mem_thousandthsText h)
  next => exact Or.inr (mem_thousandthsText h)

theorem readMagnitude_thousandthsText (t : Nat) :
    readMagnitude (thousandthsText t) = some (t / 1000 : ℚ) := by
  have whole := takeWhile_digits (point :: pad3 (t % 1000))
    (fun b => isDigit_of_mem_decimal (n := t / 1000)) (by
      intro b hb
      cases hb
      decide)
  have decimals := (takeWhile_digits []
    (pad3_digits (Nat.mod_lt t (show 0 < 1000 by decide))) (by simp)).1
  rw [List.append_nil] at decimals
  have value : digitsValue 0 (decimal (t / 1000) ++ pad3 (t % 1000)) = t := by
    rw [digitsValue, List.foldl_append, ← digitsValue, ← digitsValue, digitsValue_decimal,
      digitsValue_pad3 (Nat.mod_lt _ (by decide))]
    omega
  have len : (pad3 (t % 1000)).length = 3 := rfl
  simp only [readMagnitude, thousandthsText, whole.1, whole.2, List.head?_cons, ↓reduceIte,
    List.tail_cons, decimals, value, decimal_ne_nil, false_and, len]
  norm_num

theorem thousandthsText_head (t : Nat) : (thousandthsText t).head? ≠ some minus := by
  rw [thousandthsText, List.head?_append_of_ne_nil _ (decimal_ne_nil _)]
  intro h
  have := isDigit_of_mem_decimal (List.mem_of_mem_head? h)
  exact absurd this (by decide)

theorem readSigned_fixed3 (x : ℚ) : readSigned (fixed3 x) = some (round3 x) := by
  unfold readSigned fixed3 round3
  by_cases neg : x < 0
  · simp [neg, readMagnitude_thousandthsText]
  · simp only [neg, ↓reduceIte, thousandthsText_head, readMagnitude_thousandthsText]

theorem roundHalfEven_bounds (num : Nat) {den : Nat} (hd : 0 < den) :
    2 * (den * roundHalfEven num den) ≤ 2 * num + den ∧
      2 * num ≤ 2 * (den * roundHalfEven num den) + den := by
  have parts := Nat.div_add_mod num den
  have below := Nat.mod_lt num hd
  unfold roundHalfEven
  split
  next => omega
  next =>
    split
    next =>
      rw [Nat.mul_succ]
      omega
    next =>
      rcases Nat.mod_two_eq_zero_or_one (num / den) with even | odd
      · rw [even, Nat.add_zero]
        omega
      · rw [odd, Nat.mul_succ]
        omega

theorem roundHalfEven_near (num : Nat) {den : Nat} (hd : 0 < den) :
    |(roundHalfEven num den : ℚ) - num / den| ≤ 1 / 2 := by
  have hq : (0 : ℚ) < den := by exact_mod_cast hd
  obtain ⟨high, low⟩ := roundHalfEven_bounds num hd
  have high : 2 * (den * roundHalfEven num den : ℚ) ≤ 2 * num + den := by exact_mod_cast high
  have low : 2 * (num : ℚ) ≤ 2 * (den * roundHalfEven num den) + den := by exact_mod_cast low
  have scaled : (roundHalfEven num den : ℚ) - num / den =
      (den * roundHalfEven num den - num) / den := by field_simp
  rw [scaled, abs_div, abs_of_pos hq, div_le_iff₀ hq, abs_le]
  constructor <;> linarith

theorem roundHalfEven_small {num den : Nat} (h : 2 * num < den) : roundHalfEven num den = 0 := by
  have below : num < den := by omega
  rw [roundHalfEven, Nat.mod_eq_of_lt below, if_pos h, Nat.div_eq_of_lt below]

theorem abs_thousand (x : ℚ) : ((1000 * x.num.natAbs : Nat) : ℚ) / x.den = 1000 * |x| := by
  rw [Rat.abs_def, Rat.divInt_eq_div]
  push_cast
  rw [Nat.cast_natAbs, Int.cast_abs]
  ring

theorem roundHalfEven_lt {num den m : Nat} (hd : 0 < den) (even : m % 2 = 0) :
    roundHalfEven num den < m ↔ 2 * num < (2 * m - 1) * den := by
  have split := Nat.div_add_mod num den
  have below := Nat.mod_lt num hd
  have scaled : ∀ a b : Nat, a ≤ b → den * a ≤ den * b := fun _ _ => Nat.mul_le_mul_left den
  rcases Nat.lt_trichotomy (num / den + 1) m with less | same | more
  · have room := scaled (num / den + 2) m (by omega)
    have left : roundHalfEven num den < m := by
      unfold roundHalfEven
      split <;> [skip; split] <;> omega
    refine iff_of_true left ?_
    rw [Nat.sub_mul, Nat.mul_assoc, Nat.mul_comm m den]
    rw [Nat.mul_add] at room
    omega
  · have odd : num / den % 2 = 1 := by omega
    have value : (2 * m - 1) * den = 2 * (den * (num / den)) + den := by
      have : 2 * m - 1 = 2 * (num / den) + 1 := by omega
      rw [this, Nat.add_mul, Nat.mul_assoc, Nat.mul_comm (num / den) den, Nat.one_mul]
    rw [value]
    unfold roundHalfEven
    split <;> [skip; split] <;> omega
  · have room := scaled m (num / den) (by omega)
    have left : ¬ roundHalfEven num den < m := by
      unfold roundHalfEven
      split <;> [skip; split] <;> omega
    refine iff_of_false left ?_
    rw [Nat.sub_mul, Nat.mul_assoc, Nat.mul_comm m den]
    omega

theorem thousandths_lt (x : ℚ) {m : Nat} (even : m % 2 = 0) (hm : 0 < m) :
    thousandths x < m ↔ |x| < m / 1000 - 1 / 2000 := by
  have den : (0 : ℚ) < x.den := by exact_mod_cast x.pos
  have scaled := abs_thousand x
  rw [div_eq_iff den.ne'] at scaled
  have cast : ((2 * m - 1 : Nat) : ℚ) = 2 * m - 1 := by
    rw [Nat.cast_sub (by omega)]
    push_cast
    ring
  have rational : 2 * (1000 * x.num.natAbs) < (2 * m - 1) * x.den ↔
      2 * (1000 * |x| * x.den) < (2 * m - 1) * x.den := by
    rw [← scaled, ← cast]
    norm_cast
  rw [thousandths, roundHalfEven_lt x.pos even, rational, ← mul_assoc,
    mul_lt_mul_iff_left₀ den]
  constructor <;> intro h <;> linarith

/-- A number whose text with three decimals has at most 21 characters. -/
def ShortText (x : ℚ) : Prop := -(10 ^ 16 - 1 / 2000) < x ∧ x < 10 ^ 17 - 1 / 2000

theorem thousandthsText_length (t k : Nat) :
    (thousandthsText t).length ≤ k + 5 ↔ t < 10 ^ (k + 1) * 1000 := by
  have pad : (pad3 (t % 1000)).length = 3 := rfl
  rw [← Nat.div_lt_iff_lt_mul (by decide), ← decimal_length_le (Nat.succ_pos k), thousandthsText,
    List.length_append, List.length_cons, pad]
  omega

theorem fixed3_length (x : ℚ) : (fixed3 x).length ≤ 21 ↔ ShortText x := by
  unfold fixed3 ShortText
  split
  next neg =>
    have text := thousandthsText_length (thousandths x) 15
    rw [thousandths_lt x (by norm_num) (by norm_num), abs_of_neg neg] at text
    rw [List.length_cons, Nat.add_le_add_iff_right (n := 1), text]
    push_cast
    constructor
    · intro h
      constructor <;> linarith
    · intro h
      linarith [h.1]
  next notNeg =>
    have text := thousandthsText_length (thousandths x) 16
    rw [thousandths_lt x (by norm_num) (by norm_num), abs_of_nonneg (not_lt.mp notNeg)] at text
    rw [text]
    push_cast
    constructor
    · intro h
      constructor <;> linarith
    · intro h
      linarith [h.2]

theorem round3_small {x : ℚ} (h : |x| < 1 / 2000) : round3 x = 0 := by
  have den : (0 : ℚ) < x.den := by exact_mod_cast x.pos
  have small : 2 * (1000 * x.num.natAbs) < x.den := by
    have scaled := abs_thousand x
    rw [div_eq_iff den.ne'] at scaled
    have := mul_lt_mul_of_pos_right h den
    have : (2 * (1000 * x.num.natAbs : Nat) : ℚ) < x.den := by linarith
    exact_mod_cast this
  simp [round3, thousandths, roundHalfEven_small small]

theorem round3_near (x : ℚ) : |round3 x - x| ≤ 1 / 2000 := by
  have near := roundHalfEven_near (1000 * x.num.natAbs) x.pos
  rw [abs_thousand] at near
  obtain ⟨low, high⟩ := abs_le.mp near
  unfold round3 thousandths
  split
  next neg =>
    rw [abs_of_neg neg] at low high
    rw [abs_le]
    constructor <;> linarith
  next notNeg =>
    rw [abs_of_nonneg (not_lt.mp notNeg)] at low high
    rw [abs_le]
    constructor <;> linarith

theorem roundHalfEven_mul (m : Nat) {den : Nat} (hd : 0 < den) :
    roundHalfEven (m * den) den = m := by
  rw [roundHalfEven, Nat.mul_mod_left, Nat.mul_div_cancel _ hd, if_pos (by omega)]

theorem thousandths_of_abs {x : ℚ} {t : Nat} (h : |x| = t / 1000) : thousandths x = t := by
  have den : (x.den : ℚ) ≠ 0 := by exact_mod_cast x.den_nz
  have scaled := abs_thousand x
  have whole : (1000 * x.num.natAbs : Nat) = (t * x.den : ℚ) := by
    rw [div_eq_iff den, h] at scaled
    linarith
  have exact : 1000 * x.num.natAbs = t * x.den := by exact_mod_cast whole
  rw [thousandths, exact]
  exact roundHalfEven_mul t x.pos

theorem abs_round3 (x : ℚ) : |round3 x| = thousandths x / 1000 := by
  have nonneg : (0 : ℚ) ≤ thousandths x / 1000 := by positivity
  unfold round3
  split
  next => rw [abs_neg, abs_of_nonneg nonneg]
  next => exact abs_of_nonneg nonneg

theorem thousandths_round3 (x : ℚ) : thousandths (round3 x) = thousandths x :=
  thousandths_of_abs (abs_round3 x)

theorem round3_neg_iff {x : ℚ} (h : round3 x ≠ 0) : round3 x < 0 ↔ x < 0 := by
  have nonneg : (0 : ℚ) ≤ thousandths x / 1000 := by positivity
  by_cases neg : x < 0
  · have value : round3 x = -(thousandths x / 1000 : ℚ) := if_pos neg
    refine iff_of_true (lt_of_le_of_ne ?_ h) neg
    linarith
  · have value : round3 x = thousandths x / 1000 := if_neg neg
    refine iff_of_false ?_ neg
    linarith

theorem round3_round3 (x : ℚ) : round3 (round3 x) = round3 x := by
  by_cases zero : round3 x = 0
  · rw [zero]
    exact round3_small (by norm_num)
  · rw [round3, thousandths_round3]
    exact ite_congr (propext (round3_neg_iff zero)) (fun _ => rfl) fun _ => rfl

theorem fixed3_round3 {x : ℚ} (h : round3 x ≠ 0) : fixed3 (round3 x) = fixed3 x := by
  rw [fixed3, thousandths_round3]
  exact ite_congr (propext (round3_neg_iff h)) (fun _ => rfl) fun _ => rfl

end DecimalText
