import GrblhalSim.CheckedStore
import GrblhalSim.Rfc4648
import GrblhalSim.WsAccept
import GrblhalSim.WsServer

namespace GrblhalSim

open CheckedStore

variable {n m : Nat}

/-- `base64_encode` behind its loop. -/
def base64Tail (input : Vector UInt8 n) (out : Vector UInt8 m) (i j : Nat) :
    Except NoReturn (Vector UInt8 m) :=
  if i < n then do
    let x ← load .undefined input i
    let out ← write .undefined out j (b64Digit (x >>> 2))
    if i + 1 < n then do
      let y ← load .undefined input (i + 1)
      let out ← write .undefined out (j + 1) (b64Digit (((x &&& 3) <<< 4) ||| (y >>> 4)))
      let out ← write .undefined out (j + 2) (b64Digit ((y &&& 0xF) <<< 2))
      let out ← write .undefined out (j + 3) 0x3D
      write .undefined out (j + 4) 0
    else do
      let out ← write .undefined out (j + 1) (b64Digit ((x &&& 3) <<< 4))
      let out ← write .undefined out (j + 2) 0x3D
      let out ← write .undefined out (j + 3) 0x3D
      write .undefined out (j + 4) 0
  else write .undefined out j 0

def base64Loop (input : Vector UInt8 n) (out : Vector UInt8 m) (i j : Nat) :
    Except NoReturn (Vector UInt8 m) :=
  if i + 2 < n then do
    let x ← load .undefined input i
    let y ← load .undefined input (i + 1)
    let z ← load .undefined input (i + 2)
    let out ← write .undefined out j (b64Digit (x >>> 2))
    let out ← write .undefined out (j + 1) (b64Digit (((x &&& 3) <<< 4) ||| (y >>> 4)))
    let out ← write .undefined out (j + 2) (b64Digit (((y &&& 0xF) <<< 2) ||| (z >>> 6)))
    let out ← write .undefined out (j + 3) (b64Digit (z &&& 0x3F))
    base64Loop input out (i + 3) (j + 4)
  else base64Tail input out i j
termination_by n - i

/-- `base64_encode` on the bytes of `input`, with reads and writes that go wrong outside of the two
arrays. -/
def base64EncodeIn (input : Vector UInt8 n) (out : Vector UInt8 m) :
    Except NoReturn (Vector UInt8 m) :=
  base64Loop input out 0 0

theorem sub_of_drop {input : Vector UInt8 n} {i : Nat} {bytes : List UInt8}
    (rest : input.toList.drop i = bytes) : n - i = bytes.length := by
  rw [← rest]
  simp

theorem drop_later {input : Vector UInt8 n} {i : Nat} {bytes : List UInt8}
    (rest : input.toList.drop i = bytes) (k : Nat) :
    input.toList.drop (i + k) = bytes.drop k := by
  rw [← List.drop_drop, rest]

theorem base64Loop_store (input : Vector UInt8 n) (out : Vector UInt8 m) (i j : Nat) :
    base64Loop input out i j =
      store .undefined out j (base64Encode (input.toList.drop i) ++ [0]) := by
  have ends (out : Vector UInt8 m) (j : Nat) :
      write .undefined out j 0 = store NoReturn.undefined out j [0] :=
    (store_one NoReturn.undefined out j 0).symm
  generalize rest : input.toList.drop i = bytes
  have size := sub_of_drop rest
  induction bytes using base64Encode.induct generalizing out i j with
  | case1 x y z bytes ih =>
    have next : input.toList.drop (i + 1) = y :: z :: bytes := drop_later rest 1
    have third : input.toList.drop (i + 2) = z :: bytes := drop_later rest 2
    have behind : input.toList.drop (i + 3) = bytes := drop_later rest 3
    simp only [List.length_cons] at size
    rw [base64Loop, if_pos (by omega), load_drop NoReturn.undefined rest,
      load_drop NoReturn.undefined next, load_drop NoReturn.undefined third]
    simp only [ih _ _ _ behind (sub_of_drop behind)]
    rfl
  | case2 x y =>
    have next : input.toList.drop (i + 1) = [y] := drop_later rest 1
    simp only [List.length_cons, List.length_nil] at size
    have second : i + 1 < n := by omega
    rw [base64Loop, if_neg (by omega), base64Tail, if_pos (by omega),
      load_drop NoReturn.undefined rest]
    simp only [if_pos second, load_drop NoReturn.undefined next, ends]
    rfl
  | case3 x =>
    simp only [List.length_cons, List.length_nil] at size
    have last : ¬ i + 1 < n := by omega
    rw [base64Loop, if_neg (by omega), base64Tail, if_pos (by omega),
      load_drop NoReturn.undefined rest]
    simp only [if_neg last, ends]
    rfl
  | case4 =>
    simp only [List.length_nil] at size
    rw [base64Loop, if_neg (by omega), base64Tail, if_neg (by omega), ends]
    rfl

theorem b64Digit_symbol {i : UInt8} (small : i.toNat < 64) :
    b64Digit i = Rfc4648.symbol i.toNat := by
  have table : ∀ v : Fin 64, b64.getD v.val 0 = Rfc4648.symbol v.val := by decide +kernel
  exact table ⟨i.toNat, small⟩

theorem toNat_shiftRight (x k : UInt8) (eight : k.toNat < 8) :
    (x >>> k).toNat = x.toNat / 2 ^ k.toNat := by
  rw [UInt8.toNat_shiftRight, Nat.mod_eq_of_lt eight, Nat.shiftRight_eq_div_pow]

theorem toNat_and_mask (x : UInt8) {mask : UInt8} {w : Nat} (low : mask.toNat = 2 ^ w - 1) :
    (x &&& mask).toNat = x.toNat % 2 ^ w := by
  rw [UInt8.toNat_and, low, Nat.and_two_pow_sub_one_eq_mod]

theorem toNat_low (x : UInt8) {mask k : UInt8} {w : Nat} (low : mask.toNat = 2 ^ w - 1)
    (eight : k.toNat < 8) (fits : 2 ^ w * 2 ^ k.toNat ≤ 256) :
    ((x &&& mask) <<< k).toNat = 2 ^ k.toNat * (x.toNat % 2 ^ w) := by
  have small := Nat.mul_lt_mul_of_pos_right (Nat.mod_lt x.toNat (Nat.two_pow_pos w))
    (Nat.two_pow_pos k.toNat)
  rw [UInt8.toNat_shiftLeft, toNat_and_mask x low, Nat.mod_eq_of_lt eight, Nat.shiftLeft_eq,
    Nat.mod_eq_of_lt (by omega), Nat.mul_comm]

theorem toNat_join (x y : UInt8) {mask k r : UInt8} {w : Nat} (low : mask.toNat = 2 ^ w - 1)
    (eight : k.toNat < 8) (fits : 2 ^ w * 2 ^ k.toNat ≤ 256) (split : k.toNat + r.toNat = 8)
    (some : 0 < k.toNat) :
    (((x &&& mask) <<< k) ||| (y >>> r)).toNat =
      2 ^ k.toNat * (x.toNat % 2 ^ w) + y.toNat / 2 ^ r.toNat := by
  have high : y.toNat / 2 ^ r.toNat < 2 ^ k.toNat := by
    rw [Nat.div_lt_iff_lt_mul (Nat.two_pow_pos _), ← Nat.pow_add, split]
    exact y.toNat_lt
  rw [UInt8.toNat_or, toNat_low x low eight fits, toNat_shiftRight y r (by omega),
    Nat.two_pow_add_eq_or_of_lt high]

/-- The text is the standard encoding. -/
theorem base64Encode_eq (bytes : List UInt8) : base64Encode bytes = Rfc4648.encode bytes := by
  have top (x : UInt8) : (x >>> 2).toNat = x.toNat / 4 := toNat_shiftRight x 2 (by decide)
  have low2 (x : UInt8) : ((x &&& 3) <<< 4).toNat = 16 * (x.toNat % 4) :=
    toNat_low x (w := 2) rfl (by decide) (by decide)
  have low4 (x : UInt8) : ((x &&& 0xF) <<< 2).toNat = 4 * (x.toNat % 16) :=
    toNat_low x (w := 4) rfl (by decide) (by decide)
  have low6 (x : UInt8) : (x &&& 0x3F).toNat = x.toNat % 64 := toNat_and_mask x (w := 6) rfl
  have join2 (x y : UInt8) :
      (((x &&& 3) <<< 4) ||| (y >>> 4)).toNat = 16 * (x.toNat % 4) + y.toNat / 16 :=
    toNat_join x y (w := 2) rfl (by decide) (by decide) rfl (by decide)
  have join4 (x y : UInt8) :
      (((x &&& 0xF) <<< 2) ||| (y >>> 6)).toNat = 4 * (x.toNat % 16) + y.toNat / 64 :=
    toNat_join x y (w := 4) rfl (by decide) (by decide) rfl (by decide)
  have digit {i : UInt8} {v : Nat} (value : i.toNat = v) (small : v < 64) :
      b64Digit i = Rfc4648.symbol v := by
    rw [b64Digit_symbol (by omega), value]
  induction bytes using base64Encode.induct with
  | case1 a b c rest ih =>
    have := a.toNat_lt
    have := b.toNat_lt
    have := c.toNat_lt
    simp only [base64Encode, Rfc4648.encode_cons, ih, Rfc4648.sextets, List.map_cons, List.map_nil,
      List.cons_append, List.nil_append, List.cons.injEq, and_true]
    refine ⟨digit ((top a).trans ?_) ?_, digit ((join2 a b).trans ?_) ?_,
      digit ((join4 b c).trans ?_) ?_, digit ((low6 c).trans ?_) ?_⟩
    all_goals omega
  | case2 a b =>
    have := a.toNat_lt
    have := b.toNat_lt
    simp only [base64Encode, Rfc4648.encode, Rfc4648.sextets, List.map_cons, List.map_nil,
      List.cons_append, List.nil_append, List.cons.injEq]
    refine ⟨digit ((top a).trans ?_) ?_, digit ((join2 a b).trans ?_) ?_,
      digit ((low4 b).trans ?_) ?_, rfl⟩
    all_goals omega
  | case3 a =>
    have := a.toNat_lt
    simp only [base64Encode, Rfc4648.encode, Rfc4648.sextets, List.map_cons, List.map_nil,
      List.cons_append, List.nil_append, List.cons.injEq]
    refine ⟨digit ((top a).trans ?_) ?_, digit ((low2 a).trans ?_) ?_, rfl⟩
    all_goals omega
  | case4 => rfl

/-- What `base64_encode` leaves in an array with room for it. -/
theorem base64EncodeIn_exact (input : Vector UInt8 n) (out : Vector UInt8 m)
    (room : 4 * ((n + 2) / 3) + 1 ≤ m) :
    ∃ out' symbols pads, base64EncodeIn input out = .ok out' ∧
      out'.toList = symbols ++ List.replicate pads Rfc4648.pad ++ 0 ::
        out.toList.drop (4 * ((n + 2) / 3) + 1) ∧
      symbols.length + pads = 4 * ((n + 2) / 3) ∧ (∀ c ∈ symbols, c ∈ Rfc4648.alphabet) ∧
      (n % 3 = 0 → pads = 0) ∧ (n % 3 = 2 → pads = 1) ∧ (n % 3 = 1 → pads = 2) ∧
      Rfc4648.decode (symbols ++ List.replicate pads Rfc4648.pad) = some input.toList := by
  have text : Rfc4648.encode input.toList =
      (Rfc4648.sextets input.toList).map Rfc4648.symbol ++
        List.replicate (Rfc4648.padding n) Rfc4648.pad := by
    rw [Rfc4648.encode, Vector.length_toList]
  have long := Rfc4648.length_encode input.toList
  rw [Vector.length_toList] at long
  have fits : 0 + (base64Encode input.toList ++ [0]).length ≤ m := by
    rw [base64Encode_eq, List.length_append, long, List.length_cons, List.length_nil]
    omega
  obtain ⟨out', stored, content⟩ := store_fits NoReturn.undefined out 0 _ fits
  refine ⟨out', (Rfc4648.sextets input.toList).map Rfc4648.symbol, Rfc4648.padding n, ?_, ?_, ?_,
    ?_, ?_, ?_, ?_, ?_⟩
  · exact (base64Loop_store input out 0 0).trans stored
  · rw [content, base64Encode_eq, ← text, List.length_append, long, List.take_zero,
      List.nil_append, List.append_assoc, Nat.zero_add]
    rfl
  · rw [text, List.length_append, List.length_replicate] at long
    exact long
  · intro c known
    obtain ⟨v, member, rfl⟩ := List.mem_map.mp known
    exact Rfc4648.symbol_mem (Rfc4648.sextets_lt _ v member)
  · intro h
    simp only [Rfc4648.padding, h]
  · intro h
    simp only [Rfc4648.padding, h]
  · intro h
    simp only [Rfc4648.padding, h]
  · rw [← text]
    exact Rfc4648.decode_encode _

theorem base64EncodeIn_exact_two :
    4 * ((2 + 2) / 3) + 1 ≤ 5 ∧
    ∃ out' symbols pads, base64EncodeIn #v[77, 97] #v[1, 2, 3, 4, 5] = .ok out' ∧
      out'.toList = symbols ++ List.replicate pads Rfc4648.pad ++ 0 ::
        [1, 2, 3, 4, 5].drop (4 * ((2 + 2) / 3) + 1) ∧
      symbols.length + pads = 4 * ((2 + 2) / 3) ∧ (∀ c ∈ symbols, c ∈ Rfc4648.alphabet) ∧
      (2 % 3 = 0 → pads = 0) ∧ (2 % 3 = 2 → pads = 1) ∧ (2 % 3 = 1 → pads = 2) ∧
      Rfc4648.decode (symbols ++ List.replicate pads Rfc4648.pad) = some [77, 97] :=
  ⟨by omega, base64EncodeIn_exact #v[77, 97] #v[1, 2, 3, 4, 5] (by omega)⟩

end GrblhalSim
