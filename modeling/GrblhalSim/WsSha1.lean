import GrblhalSim.CheckedStore
import GrblhalSim.Fips180
import GrblhalSim.WsAccept
import GrblhalSim.WsServer

namespace GrblhalSim

open CheckedStore

def sha1NewLen (msg : List UInt8) : Nat := padLength 63 (msg.length + 1)

/-- What the loop behind the 0x80 writes. -/
def sha1Bits (len : Nat) : List UInt8 :=
  let bits := UInt64.ofNat len * 8
  (List.range 8).map fun i => (bits >>> UInt64.ofNat (56 - 8 * i)).toUInt8

/-- `buf` of `sha1` after its writes, from what `calloc` gives. -/
def sha1Fill (msg : List UInt8) :
    Except NoReturn (Vector UInt8 (sha1NewLen msg + 8)) := do
  let buf ← store .undefined (Vector.replicate (sha1NewLen msg + 8) 0) 0 msg
  let buf ← write .undefined buf msg.length 0x80
  store .undefined buf (sha1NewLen msg) (sha1Bits msg.length)

variable {size : Nat}

def sha1LoadWord (buf : Vector UInt8 size) (i : Nat) : Except NoReturn UInt32 := do
  let b0 ← load .undefined buf i
  let b1 ← load .undefined buf (i + 1)
  let b2 ← load .undefined buf (i + 2)
  let b3 ← load .undefined buf (i + 3)
  .ok ((b0.toUInt32 <<< 24) ||| (b1.toUInt32 <<< 16) ||| (b2.toUInt32 <<< 8) ||| b3.toUInt32)

def sha1Expand (w : List UInt32) : List UInt32 :=
  (List.range' 16 64).foldl
    (fun w i => w ++ [rotateLeft
      (w.getD (i - 3) 0 ^^^ w.getD (i - 8) 0 ^^^ w.getD (i - 14) 0 ^^^ w.getD (i - 16) 0) 1]) w

def Sha1State.compress (h : Sha1State) (w : List UInt32) : Sha1State :=
  let s := (List.range 80).foldl (Sha1State.round w) h
  ⟨h.a + s.a, h.b + s.b, h.c + s.c, h.d + s.d, h.e + s.e⟩

/-- The loop of `sha1` over the blocks, from some `offset` on. -/
def sha1Loop (buf : Vector UInt8 size) (offset : Nat) (h : Sha1State) :
    Except NoReturn Sha1State :=
  if offset < size then do
    let w ← (List.range 16).mapM fun i => sha1LoadWord buf (offset + 4 * i)
    sha1Loop buf (offset + 64) (h.compress (sha1Expand w))
  else .ok h
termination_by size - offset

def Sha1State.digest (h : Sha1State) : List UInt8 :=
  [h.a, h.b, h.c, h.d, h.e].flatMap fun x : UInt32 =>
    [(x >>> 24).toUInt8, (x >>> 16).toUInt8, (x >>> 8).toUInt8, x.toUInt8]

/-- `sha1` with reads and writes of `buf` that go wrong outside of it. -/
def sha1In (msg : List UInt8) : Except NoReturn (List UInt8) := do
  let buf ← sha1Fill msg
  let h ← sha1Loop buf 0 .initial
  .ok h.digest

theorem sha1Bits_eq (len : Nat) : sha1Bits len = Rfc6455.bigEndianBytes 8 (len * 8) := by
  have bits : (UInt64.ofNat len * 8).toNat = len * 8 % 2 ^ 64 := by
    rw [UInt64.toNat_mul, UInt64.toNat_ofNat', Nat.mod_mul_mod]
    rfl
  have byte (i : Nat) (h : i ∈ List.range 8) :
      ((UInt64.ofNat len * 8) >>> UInt64.ofNat (56 - 8 * i)).toUInt8 =
        UInt8.ofNat (len * 8 / 2 ^ (56 - 8 * i)) := by
    have split : 2 ^ 64 = 2 ^ (56 - 8 * i) * 2 ^ (64 - (56 - 8 * i)) := by
      rw [← Nat.pow_add, Nat.add_sub_cancel' (by omega)]
    have small : (UInt64.ofNat (56 - 8 * i)).toNat = 56 - 8 * i :=
      UInt64.toNat_ofNat_of_lt' (by show 56 - 8 * i < 2 ^ 64; omega)
    apply UInt8.toNat_inj.mp
    rw [UInt64.toNat_toUInt8, UInt64.toNat_shiftRight, UInt8.toNat_ofNat', small, bits,
      Nat.mod_eq_of_lt (show 56 - 8 * i < 64 by omega), Nat.shiftRight_eq_div_pow, split,
      Nat.mod_mul_right_div_self, Nat.mod_mod_of_dvd _ (Nat.pow_dvd_pow 2 (by omega))]
  rw [sha1Bits, List.map_congr_left byte]
  rfl

theorem sha1Fill_ok (msg : List UInt8) :
    ∃ buf, sha1Fill msg = .ok buf ∧ buf.toList = sha1Buf msg := by
  have long : msg.length + 1 ≤ sha1NewLen msg := le_padLength 63 (msg.length + 1)
  have empty : (Vector.replicate (sha1NewLen msg + 8) (0 : UInt8)).toList =
      [] ++ List.replicate (sha1NewLen msg + 8) 0 := Vector.toList_replicate
  obtain ⟨buf1, stored1, content1⟩ := store_behind NoReturn.undefined empty msg
    (by rw [List.length_replicate]; omega)
  rw [List.nil_append, List.drop_replicate] at content1
  obtain ⟨buf2, stored2, content2⟩ := store_behind NoReturn.undefined content1 [0x80]
    (by rw [List.length_replicate, List.length_singleton]; omega)
  have zeros : sha1NewLen msg + 8 - msg.length - [(0x80 : UInt8)].length =
      sha1NewLen msg - (msg.length + 1) + 8 := by
    rw [List.length_singleton]
    omega
  rw [List.drop_replicate, zeros, ← List.replicate_append_replicate, ← List.append_assoc] at content2
  obtain ⟨buf3, stored3, content3⟩ := store_behind NoReturn.undefined content2
    (sha1Bits msg.length) (by simp [sha1Bits])
  have start : (msg ++ [0x80] ++ List.replicate (sha1NewLen msg - (msg.length + 1)) 0).length =
      sha1NewLen msg := by
    simp only [List.length_append, List.length_singleton, List.length_replicate]
    omega
  rw [start] at stored3
  rw [store_one] at stored2
  refine ⟨buf3, ?_, ?_⟩
  · rw [sha1Fill]
    show (store NoReturn.undefined _ 0 msg).bind _ = _
    rw [List.length_nil] at stored1
    rw [stored1]
    show (write NoReturn.undefined buf1 msg.length 0x80).bind _ = _
    rw [stored2]
    exact stored3
  · rw [content3, sha1Bits_eq]
    simp [Rfc6455.length_bigEndianBytes, sha1Buf, sha1NewLen]

theorem sha1LoadWord_ok {buf : Vector UInt8 size} {i : Nat} (h : i + 4 ≤ size) :
    sha1LoadWord buf i = .ok (sha1Word buf.toList i) := by
  rw [sha1LoadWord, load_inside NoReturn.undefined (show i < size by omega) 0,
    load_inside NoReturn.undefined (show i + 1 < size by omega) 0,
    load_inside NoReturn.undefined (show i + 2 < size by omega) 0,
    load_inside NoReturn.undefined (show i + 3 < size by omega) 0]
  rfl

theorem compress_expand (bytes : List UInt8) (offset : Nat) (h : Sha1State) :
    h.compress (sha1Expand ((List.range 16).map fun i => sha1Word bytes (offset + 4 * i))) =
      Sha1State.block bytes h offset := rfl

/-- The loop reads whole blocks only, and works off one after the other. -/
theorem sha1Loop_ok (buf : Vector UInt8 size) {blocks : Nat} (whole : size = 64 * blocks) (i left : Nat)
    (h : Sha1State) (ends : i + left = blocks) :
    sha1Loop buf (64 * i) h = .ok ((List.range' i left).foldl
      (fun h n => Sha1State.block buf.toList h (64 * n)) h) := by
  induction left generalizing i h with
  | zero =>
    rw [sha1Loop, if_neg (by omega)]
    rfl
  | succ left ih =>
    have words : (List.range 16).mapM (fun k => sha1LoadWord buf (64 * i + 4 * k)) =
        .ok ((List.range 16).map fun k => sha1Word buf.toList (64 * i + 4 * k)) := by
      refine mapM_ok _ fun k hk => sha1LoadWord_ok ?_
      have := List.mem_range.mp hk
      omega
    rw [sha1Loop, if_pos (by omega), words]
    show sha1Loop buf (64 * i + 64) (h.compress (sha1Expand _)) = _
    rw [compress_expand, ← Nat.mul_succ, ih (i + 1) _ (by omega), List.range'_succ,
      List.foldl_cons]

theorem sha1In_ok (msg : List UInt8) : sha1In msg = .ok (sha1 msg) := by
  obtain ⟨buf, filled, content⟩ := sha1Fill_ok msg
  obtain ⟨blocks, whole⟩ := length_sha1Buf msg
  have size : sha1NewLen msg + 8 = 64 * blocks := by
    rw [← whole, ← content, Vector.length_toList]
  have loop := sha1Loop_ok buf size 0 blocks .initial (Nat.zero_add blocks)
  rw [Nat.mul_zero, ← List.range_eq_range'] at loop
  rw [sha1In, filled]
  show (sha1Loop buf 0 .initial).bind _ = _
  rw [loop, sha1, whole, Nat.mul_div_cancel_left _ (by omega), content]
  rfl

end GrblhalSim
