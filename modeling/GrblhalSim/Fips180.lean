import Mathlib.Data.List.Induction
import Mathlib.Tactic.Ring

namespace Fips180

abbrev Word := BitVec 32

/-- A number as a bit string, the most significant bit first. -/
def bits : Nat → Nat → List Bool
  | 0, _ => []
  | w + 1, n => n.testBit w :: bits w n

/-- The number that a bit string stands for. -/
def number (text : List Bool) : Nat := text.foldl (fun acc b => 2 * acc + b.toNat) 0

/-- The zero bits behind the 1 that ends a message of `l` bits. -/
def zeros (l : Nat) : Nat := (448 + 512 - (l + 1) % 512) % 512

/-- A message that is given in bytes. -/
def octets (bytes : List UInt8) : List Bool := bytes.flatMap fun b => bits 8 b.toNat

def pad (message : List Bool) : List Bool :=
  message ++ true :: List.replicate (zeros message.length) false ++ bits 64 message.length

def rotl (n : Nat) (x : Word) : Word := (x <<< n) ||| (x >>> (32 - n))

def ch (x y z : Word) : Word := (x &&& y) ^^^ (~~~ x &&& z)

def parity (x y z : Word) : Word := x ^^^ y ^^^ z

def maj (x y z : Word) : Word := (x &&& y) ^^^ (x &&& z) ^^^ (y &&& z)

/-- The function of round `t`. -/
def logical (t : Nat) : Word → Word → Word → Word :=
  if t < 20 then ch else if t < 40 then parity else if t < 60 then maj else parity

/-- The constant of round `t`. -/
def constant (t : Nat) : Word :=
  if t < 20 then 0x5A827999 else if t < 40 then 0x6ED9EBA1
  else if t < 60 then 0x8F1BBCDC else 0xCA62C1D6

/-- Word `t` of a block of the message. -/
def word (block : List Bool) (t : Nat) : Word :=
  BitVec.ofNat 32 (number ((block.drop (32 * t)).take 32))

/-- Word `t` of the message schedule. -/
def schedule (block : List Bool) (t : Nat) : Word :=
  if t < 16 then word block t
  else rotl 1 (schedule block (t - 3) ^^^ schedule block (t - 8) ^^^ schedule block (t - 14) ^^^
    schedule block (t - 16))
termination_by t

/-- The five working variables, or a hash value. -/
structure Working where
  a : Word
  b : Word
  c : Word
  d : Word
  e : Word

def initial : Working := ⟨0x67452301, 0xEFCDAB89, 0x98BADCFE, 0x10325476, 0xC3D2E1F0⟩

def round (w : Nat → Word) (s : Working) (t : Nat) : Working :=
  ⟨rotl 5 s.a + logical t s.b s.c s.d + s.e + constant t + w t, s.a, rotl 30 s.b, s.c, s.d⟩

/-- The hash value after a block. -/
def compress (h : Working) (block : List Bool) : Working :=
  let s := (List.range 80).foldl (round (schedule block)) h
  ⟨s.a + h.a, s.b + h.b, s.c + h.c, s.d + h.d, s.e + h.e⟩

/-- Block `i` of a padded message. -/
def block (padded : List Bool) (i : Nat) : List Bool := (padded.drop (512 * i)).take 512

/-- The hash value after all blocks of a padded message. -/
def hash (padded : List Bool) : Working :=
  (List.range (padded.length / 512)).foldl (fun h i => compress h (block padded i)) initial

def Working.digest (h : Working) : List Bool :=
  [h.a, h.b, h.c, h.d, h.e].flatMap fun x => bits 32 x.toNat

/-- The message digest of a message. -/
def sha1 (message : List Bool) : List Bool := (hash (pad message)).digest

theorem length_bits (w n : Nat) : (bits w n).length = w := by
  induction w with
  | zero => rfl
  | succ w ih => rw [bits, List.length_cons, ih]

theorem bits_add (v w n : Nat) : bits (v + w) n = bits v (n / 2 ^ w) ++ bits w n := by
  induction v with
  | zero => rw [Nat.zero_add, bits, List.nil_append]
  | succ v ih =>
    rw [Nat.succ_add_eq_add_succ, Nat.add_succ, bits, ih, bits, List.cons_append,
      Nat.testBit_div_two_pow]

theorem bits_mod (w n : Nat) {v : Nat} (h : w ≤ v) : bits w (n % 2 ^ v) = bits w n := by
  induction w with
  | zero => rfl
  | succ w ih =>
    have low : w < v := by omega
    rw [bits, ih (by omega), bits, Nat.testBit_mod_two_pow, decide_eq_true low, Bool.true_and]

theorem number_snoc (text : List Bool) (b : Bool) :
    number (text ++ [b]) = 2 * number text + b.toNat := by
  rw [number, List.foldl_append]
  rfl

theorem number_append (text more : List Bool) :
    number (text ++ more) = 2 ^ more.length * number text + number more := by
  induction more using List.reverseRecOn with
  | nil => simp [number]
  | append_singleton more b ih =>
    rw [← List.append_assoc, number_snoc, ih, number_snoc, List.length_append, List.length_cons,
      List.length_nil, Nat.pow_succ]
    ring

theorem number_bits (w n : Nat) : number (bits w n) = n % 2 ^ w := by
  induction w with
  | zero => rw [Nat.pow_zero, Nat.mod_one]; rfl
  | succ w ih =>
    have step := number_append [n.testBit w] (bits w n)
    rw [List.singleton_append, length_bits, ih] at step
    have first : number [n.testBit w] = n / 2 ^ w % 2 := by
      rw [← Nat.toNat_testBit]
      exact Nat.zero_add _
    rw [bits, step, first, Nat.mod_pow_succ, Nat.add_comm]

theorem octets_cons (b : UInt8) (bytes : List UInt8) :
    octets (b :: bytes) = bits 8 b.toNat ++ octets bytes :=
  List.flatMap_cons

theorem octets_append (bytes more : List UInt8) :
    octets (bytes ++ more) = octets bytes ++ octets more :=
  List.flatMap_append

theorem length_octets (bytes : List UInt8) : (octets bytes).length = 8 * bytes.length := by
  induction bytes with
  | nil => rfl
  | cons b bytes ih =>
    rw [octets_cons, List.length_append, length_bits, ih, List.length_cons]
    omega

theorem octets_drop (bytes : List UInt8) (n : Nat) :
    (octets bytes).drop (8 * n) = octets (bytes.drop n) := by
  rcases Nat.le_total n bytes.length with inside | outside
  · have whole := octets_append (bytes.take n) (bytes.drop n)
    rw [List.take_append_drop] at whole
    rw [whole]
    refine List.drop_left' ?_
    rw [length_octets, List.length_take, Nat.min_eq_left inside]
  · have long := length_octets bytes
    rw [List.drop_of_length_le outside, List.drop_of_length_le (by omega)]
    rfl

theorem octets_take (bytes : List UInt8) (n : Nat) :
    (octets bytes).take (8 * n) = octets (bytes.take n) := by
  rcases Nat.le_total n bytes.length with inside | outside
  · have whole := octets_append (bytes.take n) (bytes.drop n)
    rw [List.take_append_drop] at whole
    rw [whole]
    refine List.take_left' ?_
    rw [length_octets, List.length_take, Nat.min_eq_left inside]
  · have long := length_octets bytes
    rw [List.take_of_length_le outside, List.take_of_length_le (by omega)]

theorem octets_zeros (n : Nat) :
    octets (List.replicate n 0) = List.replicate (8 * n) false := by
  induction n with
  | zero => rfl
  | succ n ih =>
    rw [List.replicate_succ, octets_cons, ih, Nat.mul_succ, Nat.add_comm,
      ← List.replicate_append_replicate]
    rfl

theorem number_octets_cons (b : UInt8) (bytes : List UInt8) :
    number (octets (b :: bytes)) = 256 ^ bytes.length * b.toNat + number (octets bytes) := by
  rw [octets_cons, number_append, number_bits, length_octets, Nat.pow_mul,
    Nat.mod_eq_of_lt b.toNat_lt]

/-- The padding is the shortest that ends a block. -/
theorem zeros_least (l : Nat) :
    (l + 1 + zeros l) % 512 = 448 ∧ ∀ k, (l + 1 + k) % 512 = 448 → zeros l ≤ k := by
  constructor
  · rw [zeros]
    omega
  · intro k h
    rw [zeros]
    omega

theorem ch_or (x y z : Word) : ch x y z = (x &&& y) ||| (~~~ x &&& z) := by
  refine BitVec.eq_of_getLsbD_eq fun i hi => ?_
  simp only [ch, BitVec.getLsbD_xor, BitVec.getLsbD_or, BitVec.getLsbD_and, BitVec.getLsbD_not, hi]
  cases x.getLsbD i <;> simp

theorem maj_or (x y z : Word) : maj x y z = (x &&& y) ||| (x &&& z) ||| (y &&& z) := by
  refine BitVec.eq_of_getLsbD_eq fun i hi => ?_
  simp only [maj, BitVec.getLsbD_xor, BitVec.getLsbD_or, BitVec.getLsbD_and]
  cases x.getLsbD i <;> cases y.getLsbD i <;> cases z.getLsbD i <;> rfl

theorem schedule_message {text : List Bool} {t : Nat} (h : t < 16) :
    schedule text t = word text t := by
  rw [schedule, if_pos h]

theorem schedule_expanded {text : List Bool} {t : Nat} (h : 16 ≤ t) :
    schedule text t = rotl 1 (schedule text (t - 3) ^^^ schedule text (t - 8) ^^^
      schedule text (t - 14) ^^^ schedule text (t - 16)) := by
  rw [schedule, if_neg (by omega)]

theorem block_octets (bytes : List UInt8) (i : Nat) :
    block (octets bytes) i = octets ((bytes.drop (64 * i)).take 64) := by
  rw [block, show 512 * i = 8 * (64 * i) by omega, octets_drop]
  exact octets_take _ 64

/-- A word of a block is four bytes of the message. -/
theorem word_octets (bytes : List UInt8) (i : Nat) {t : Nat} (h : t < 16) :
    word (block (octets bytes) i) t =
      BitVec.ofNat 32 (number (octets ((bytes.drop (64 * i + 4 * t)).take 4))) := by
  have four : (((bytes.drop (64 * i)).take 64).drop (4 * t)).take 4 =
      (bytes.drop (64 * i + 4 * t)).take 4 := by
    rw [List.drop_take, List.take_take, Nat.min_eq_left (by omega), List.drop_drop]
  rw [word, block_octets, show 32 * t = 8 * (4 * t) by omega, octets_drop, ← four]
  exact congrArg (fun text => BitVec.ofNat 32 (number text)) (octets_take _ 4)

end Fips180
