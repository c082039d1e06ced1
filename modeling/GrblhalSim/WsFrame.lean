import GrblhalSim.Rfc6455
import GrblhalSim.WsServer

namespace GrblhalSim

open Rfc6455 StreamParser

theorem and_0x0F (b : UInt8) : (b &&& 0x0F).toNat = b.toNat % 16 := by
  rw [UInt8.toNat_and]
  exact Nat.and_two_pow_sub_one_eq_mod b.toNat 4

theorem and_0x7F (b : UInt8) : (b &&& 0x7F).toNat = b.toNat % 128 := by
  rw [UInt8.toNat_and]
  exact Nat.and_two_pow_sub_one_eq_mod b.toNat 7

theorem and_0x80 (b : UInt8) : (b &&& 0x80 != 0) = decide (128 ≤ b.toNat) := by
  have hb := b.toNat_lt
  have bit : (b &&& 0x80).toNat = (b.toNat.testBit 7).toNat * 128 := by
    rw [UInt8.toNat_and]
    exact Nat.and_two_pow b.toNat 7
  have top : b.toNat.testBit 7 = decide (128 ≤ b.toNat) := by
    rw [Nat.testBit_eq_decide_div_mod_eq, decide_eq_decide]
    omega
  rw [top] at bit
  have zero : b &&& 0x80 = 0 ↔ (b &&& 0x80).toNat = 0 := by
    rw [← UInt8.toNat_inj]
    rfl
  by_cases h : 128 ≤ b.toNat <;> simp [zero, bit, h]

theorem rawRead_append (pre post : List UInt8) (b : UInt8) :
    rawRead (pre ++ b :: post) pre.length = .ok b := by
  simp [rawRead]

theorem shift_or_toNat {acc : UInt64} (h : acc.toNat < 2 ^ 56) (b : UInt8) :
    (acc <<< 8 ||| b.toUInt64).toNat = acc.toNat * 256 + b.toNat := by
  have hb := b.toNat_lt
  have shift : (acc <<< 8).toNat = acc.toNat <<< 8 := by
    rw [UInt64.toNat_shiftLeft, Nat.shiftLeft_eq, Nat.shiftLeft_eq]
    exact Nat.mod_eq_of_lt (show acc.toNat * 256 < 2 ^ 64 by omega)
  rw [UInt64.toNat_or, shift, UInt8.toNat_toUInt64, ← Nat.shiftLeft_add_eq_or_of_lt hb,
    Nat.shiftLeft_eq]

theorem readLength_append (ext : List UInt8) (pre post : List UInt8) {acc : UInt64} {k : Nat}
    (ha : acc.toNat < 256 ^ k) (hk : k + ext.length ≤ 8) :
    ∃ n, readLength (pre ++ (ext ++ post)) ext.length pre.length acc = .ok n ∧
      n.toNat = ext.foldl (fun acc b => acc * 256 + b.toNat) acc.toNat := by
  induction ext generalizing pre acc k with
  | nil => exact ⟨acc, rfl, rfl⟩
  | cons b ext ih =>
    have hb := b.toNat_lt
    rw [List.length_cons] at hk
    have small : 256 ^ k ≤ 2 ^ 56 :=
      calc 256 ^ k ≤ 256 ^ 7 := Nat.pow_le_pow_right (by omega) (by omega)
        _ = 2 ^ 56 := by norm_num
    have next := shift_or_toNat (Nat.lt_of_lt_of_le ha small) b
    have bound : (acc <<< 8 ||| b.toUInt64).toNat < 256 ^ (k + 1) := by
      rw [next, Nat.pow_succ]
      omega
    obtain ⟨n, hn, hv⟩ := ih (pre ++ [b]) bound (by omega)
    refine ⟨n, ?_, by rw [List.foldl_cons, ← next, hv]⟩
    rw [List.length_cons, readLength, List.cons_append, rawRead_append]
    simpa [bind, Except.bind] using hn

theorem readLength_bigEndian {k n : Nat} (hk : k ≤ 8) (hn : n < 256 ^ k) (b0 b1 : UInt8)
    (q : List UInt8) :
    ∃ m, readLength (b0 :: b1 :: (bigEndianBytes k n ++ q)) k 2 0 = .ok m ∧ m.toNat = n := by
  have hl := length_bigEndianBytes k n
  obtain ⟨m, hm, hv⟩ := readLength_append (bigEndianBytes k n) [b0, b1] q
    (show (0 : UInt64).toNat < 256 ^ 0 by decide) (by omega)
  rw [hl] at hm
  exact ⟨m, hm, hv.trans (bigEndian_bigEndianBytes hn)⟩

theorem readHeader_cons (b0 b1 : UInt8) (q : List UInt8) :
    readHeader (b0 :: b1 :: q) =
      if (b1 &&& 0x7F).toUInt64 = 126 then
        if q.length < 2 then .error .needMore
        else (readLength (b0 :: b1 :: q) 2 2 0).map (⟨b0 &&& 0x0F, b1 &&& 0x80 != 0, ·, 4⟩)
      else if (b1 &&& 0x7F).toUInt64 = 127 then
        if q.length < 8 then .error .needMore
        else (readLength (b0 :: b1 :: q) 8 2 0).map (⟨b0 &&& 0x0F, b1 &&& 0x80 != 0, ·, 10⟩)
      else .ok ⟨b0 &&& 0x0F, b1 &&& 0x80 != 0, (b1 &&& 0x7F).toUInt64, 2⟩ := by
  have two : (b0 :: b1 :: q).length < 4 ↔ q.length < 2 := by simp; omega
  have eight : (b0 :: b1 :: q).length < 10 ↔ q.length < 8 := by simp; omega
  simp only [← two, ← eight]
  rfl

structure FrameHeader.Describes (h : FrameHeader) (f : WireFrame) : Prop where
  opcode : h.opcode.toNat = f.opcode.val
  masked : h.masked = f.mask.isSome
  payloadLen : h.payloadLen.toNat = f.payload.length
  headerLen : h.headerLen = 2 + (f.form.extended f.payload.length).length

theorem opcode_firstByte (f : Frame) : (f.firstByte &&& 0x0F).toNat = f.opcode.val := by
  have := f.opcode.isLt
  rw [and_0x0F, f.toNat_firstByte]
  omega

theorem masked_secondByte (f : WireFrame) :
    (f.secondByte f.form &&& 0x80 != 0) = f.mask.isSome := by
  have := f.form.code_lt f.holds
  rw [and_0x80, f.toNat_secondByte f.holds]
  cases f.mask.isSome with
  | true => simp
  | false => simp; omega

theorem code_secondByte (f : WireFrame) (code : UInt64) :
    (f.secondByte f.form &&& 0x7F).toUInt64 = code ↔
      f.form.code f.payload.length = code.toNat := by
  have := f.form.code_lt f.holds
  rw [← UInt64.toNat_inj, UInt8.toNat_toUInt64, and_0x7F, f.toNat_secondByte f.holds]
  omega

theorem readHeader_frame (f : WireFrame) (q : List UInt8) :
    ∃ h, readHeader (f.firstByte :: f.secondByte f.form ::
      (f.form.extended f.payload.length ++ q)) = .ok h ∧ h.Describes f := by
  have op := opcode_firstByte f.toFrame
  have masked := masked_secondByte f
  have holds := f.holds
  have is126 := code_secondByte f 126
  have is127 := code_secondByte f 127
  have code := code_secondByte f (f.secondByte f.form &&& 0x7F).toUInt64
  rw [readHeader_cons]
  cases hform : f.form with
  | seven =>
    rw [hform] at holds masked is126 is127 code
    have small : f.payload.length < 126 := holds
    have no126 : f.payload.length ≠ 126 := by omega
    have no127 : f.payload.length ≠ 127 := by omega
    rw [if_neg (is126.not.mpr no126), if_neg (is127.not.mpr no127)]
    exact ⟨_, rfl, op, masked, (code.mp rfl).symm, by rw [hform]; rfl⟩
  | sixteen =>
    rw [hform] at holds masked is126 is127 code
    have hl := length_bigEndianBytes 2 f.payload.length
    have long : ¬ (LenForm.sixteen.extended f.payload.length ++ q).length < 2 := by
      rw [List.length_append, LenForm.extended, hl]
      omega
    obtain ⟨n, hn, hv⟩ := readLength_bigEndian (k := 2) (by omega)
      (holds.trans_le (by decide)) f.firstByte (f.secondByte .sixteen) q
    rw [if_pos (is126.mpr rfl), if_neg long, LenForm.extended, hn]
    exact ⟨_, rfl, op, masked, hv, by rw [hform, LenForm.extended, hl]⟩
  | sixtyFour =>
    rw [hform] at holds masked is126 is127 code
    have hl := length_bigEndianBytes 8 f.payload.length
    have long : ¬ (LenForm.sixtyFour.extended f.payload.length ++ q).length < 8 := by
      rw [List.length_append, LenForm.extended, hl]
      omega
    obtain ⟨n, hn, hv⟩ := readLength_bigEndian (k := 8) (by omega)
      (holds.trans_le (by decide)) f.firstByte (f.secondByte .sixtyFour) q
    rw [if_neg (is126.not.mpr (show 127 ≠ 126 by omega)), if_pos (is127.mpr rfl), if_neg long,
      LenForm.extended, hn]
    exact ⟨_, rfl, op, masked, hv, by rw [hform, LenForm.extended, hl]⟩

theorem readHeader_short (f : WireFrame) {q : List UInt8}
    (hq : q.length < (f.form.extended f.payload.length).length) :
    readHeader (f.firstByte :: f.secondByte f.form :: q) = .error .needMore := by
  have is126 := code_secondByte f 126
  have is127 := code_secondByte f 127
  rw [readHeader_cons]
  cases hform : f.form with
  | seven => simp [hform, LenForm.extended] at hq
  | sixteen =>
    rw [hform] at is126 is127
    rw [hform, LenForm.extended, length_bigEndianBytes] at hq
    rw [if_pos (is126.mpr rfl), if_pos hq]
  | sixtyFour =>
    rw [hform] at is126 is127
    rw [hform, LenForm.extended, length_bigEndianBytes] at hq
    rw [if_neg (is126.not.mpr (show 127 ≠ 126 by omega)), if_pos (is127.mpr rfl), if_pos hq]

theorem rawRead_key (pre post : List UInt8) (key : MaskKey) (i : Nat) :
    rawRead (pre ++ (key.bytes ++ post)) (pre.length + i % 4) = .ok (key (Fin.ofNat 4 i)) := by
  have small : i % 4 < 4 := Nat.mod_lt i (by omega)
  have index : ∀ j : Fin 4, rawRead (pre ++ (key.bytes ++ post)) (pre.length + j) = .ok (key j) := by
    intro j
    rw [rawRead, List.getElem?_append_right (by omega), Nat.add_sub_cancel_left]
    match j with
    | 0 | 1 | 2 | 3 => rfl
  exact index ⟨i % 4, small⟩

theorem unmaskLoop_applyMask (pre post : List UInt8) (key : MaskKey) (done todo : List UInt8) :
    unmaskLoop pre.length todo.length done.length
        (pre ++ (key.bytes ++ (done ++ (todo ++ post)))) =
      .ok (pre ++ (key.bytes ++ (done ++ (applyMask key done.length todo ++ post)))) := by
  induction todo generalizing done with
  | nil => rfl
  | cons b todo ih =>
    have place : pre.length + 4 + done.length = (pre ++ (key.bytes ++ done)).length := by
      simp [MaskKey.bytes]
      omega
    have front : pre ++ (key.bytes ++ (done ++ (b :: todo ++ post))) =
        (pre ++ (key.bytes ++ done)) ++ b :: (todo ++ post) := by simp
    have read : rawRead (pre ++ (key.bytes ++ (done ++ (b :: todo ++ post))))
        (pre.length + 4 + done.length) = .ok b := by
      rw [place, front, rawRead_append]
    have write : ∀ c, (pre ++ (key.bytes ++ (done ++ (b :: todo ++ post)))).set
        (pre.length + 4 + done.length) c =
        pre ++ (key.bytes ++ ((done ++ [c]) ++ (todo ++ post))) := by
      intro c
      rw [place, front]
      simp
    have next := ih (done ++ [b ^^^ key (Fin.ofNat 4 done.length)])
    rw [List.length_append, List.length_singleton] at next
    rw [List.length_cons, unmaskLoop, read, rawRead_key]
    simp only [bind, Except.bind, write, next]
    simp [applyMask]

theorem pushLoop_append (payload pre post : List UInt8) :
    pushLoop (pre ++ (payload ++ post)) payload.length pre.length = .ok payload := by
  induction payload generalizing pre with
  | nil => rfl
  | cons b payload ih =>
    have next := ih (pre ++ [b])
    rw [List.append_assoc, List.length_append, List.length_singleton] at next
    rw [List.length_cons, pushLoop, List.cons_append, rawRead_append]
    simp only [bind, Except.bind]
    rw [show pre ++ b :: (payload ++ post) = pre ++ ([b] ++ (payload ++ post)) from rfl, next]

theorem int32_small {n : Int} (h0 : 0 ≤ n) (h : n < 2 ^ 31) : int32 n = n := by
  apply Int.bmod_eq_of_le_mul_two
  · omega
  · omega

/-- What the connection gets from a frame. -/
def handled (f : Frame) : List WsOut :=
  if f.opcode = .text ∨ f.opcode = .binary then f.payload.map .rxPush
  else if f.opcode = .ping then [.send pongHeader]
  else []

section Frame

variable {f : WireFrame} {h : FrameHeader}

theorem head_length (hd : h.Describes f) : f.head.length = h.headerLen := by
  rw [hd.headerLen, WireFrame.head]
  simp
  omega

theorem body_length (hd : h.Describes f) : f.body.length = h.maskLen + f.payload.length := by
  rw [FrameHeader.maskLen, hd.masked, Frame.body]
  cases f.mask with
  | none => simp
  | some key =>
    simp [MaskKey.bytes, length_applyMask]
    omega

theorem needed_frame (hd : h.Describes f) (size : f.encode.length < 2 ^ 31) :
    h.needed = f.encode.length := by
  have parts : f.encode.length = h.headerLen + (h.maskLen + f.payload.length) := by
    rw [f.encode_eq, List.length_append, head_length hd, body_length hd]
  have small : int32 f.payload.length = f.payload.length := int32_small (by omega) (by omega)
  rw [FrameHeader.needed, hd.payloadLen, small, int32_small (by omega) (by omega)]
  omega

theorem unmask_frame (hd : h.Describes f) (rest : List UInt8) :
    ∃ key : List UInt8, key.length = h.maskLen ∧
      unmask h (f.encode ++ rest) = .ok (f.head ++ (key ++ (f.payload ++ rest))) := by
  rw [unmask, FrameHeader.maskLen, hd.masked, f.encode_eq, Frame.body, hd.payloadLen,
    List.append_assoc]
  cases f.mask with
  | none => exact ⟨[], rfl, rfl⟩
  | some key =>
    refine ⟨key.bytes, rfl, ?_⟩
    have loop := unmaskLoop_applyMask f.head rest key [] (applyMask key 0 f.payload)
    rw [head_length hd, length_applyMask, List.length_nil, applyMask_applyMask] at loop
    simpa using loop

theorem handleFrame_frame (hd : h.Describes f) {key : List UInt8} (hk : key.length = h.maskLen)
    (rest : List UInt8) :
    handleFrame h (f.head ++ (key ++ (f.payload ++ rest))) =
      .ok (if f.opcode = .close then none else some (handled f.toFrame)) := by
  have opcode : ∀ n : Opcode, h.opcode = UInt8.ofNat n ↔ f.opcode = n := by
    intro n
    have := n.isLt
    have same : (UInt8.ofNat n).toNat = n := by
      rw [UInt8.toNat_ofNat']
      omega
    rw [← UInt8.toNat_inj, same, hd.opcode, Fin.ext_iff]
  have push := pushLoop_append f.payload (f.head ++ key) rest
  rw [List.append_assoc, List.length_append, head_length hd, hk] at push
  have one : h.opcode = 0x01 ↔ f.opcode = .text := opcode .text
  have two : h.opcode = 0x02 ↔ f.opcode = .binary := opcode .binary
  have eight : h.opcode = 0x08 ↔ f.opcode = .close := opcode .close
  have nine : h.opcode = 0x09 ↔ f.opcode = .ping := opcode .ping
  simp only [handleFrame, handled, FrameHeader.payloadStart, hd.payloadLen, push, one, two, eight,
    nine]
  by_cases data : f.opcode = .text ∨ f.opcode = .binary
  · have open' : f.opcode ≠ .close := by rcases data with h1 | h1 <;> rw [h1] <;> decide
    simp [data, open', bind, Except.bind]
  · by_cases close : f.opcode = .close
    · rw [if_neg data, if_pos close, if_pos close]
    · rw [if_neg data, if_neg close, if_neg close, if_neg data]
      by_cases ping : f.opcode = .ping
      · rw [if_pos ping, if_pos ping]
      · rw [if_neg ping, if_neg ping]

theorem framePass_frame (f : WireFrame) (size : f.encode.length < 2 ^ 31)
    (rest : List UInt8) :
    framePass (f.encode ++ rest) =
      if f.opcode = .close then .halt else .take (handled f.toFrame) rest := by
  obtain ⟨h, hr, hd⟩ := readHeader_frame f (f.body ++ rest)
  have raw : f.encode ++ rest = f.firstByte :: f.secondByte f.form ::
      (f.form.extended f.payload.length ++ (f.body ++ rest)) := by
    simp [WireFrame.encode, Frame.encode]
  have needed := needed_frame hd size
  obtain ⟨key, hk, hu⟩ := unmask_frame hd rest
  have all : (f.head ++ (key ++ (f.payload ++ rest))).drop h.needed.toNat = rest := by
    rw [needed, Int.toNat_natCast, f.encode_eq, ← List.append_assoc, ← List.append_assoc]
    apply List.drop_left'
    simp only [List.length_append, body_length hd, hk]
    omega
  have enough : ¬ ((f.encode ++ rest).length : Int) < h.needed := by
    rw [needed, List.length_append]
    omega
  have long : ¬ (f.encode ++ rest).length < 2 := by
    rw [raw]
    simp
  have header : readHeader (f.encode ++ rest) = .ok h := by rw [raw, hr]
  simp only [framePass, long, header, enough, hu, handleFrame_frame hd hk, all, if_false]
  by_cases close : f.opcode = .close
  · simp [close]
  · simp [close]
    omega

theorem framePass_part (f : WireFrame) (size : f.encode.length < 2 ^ 31) {p : List UInt8}
    (hp : p <+: f.encode) (hne : p ≠ f.encode) : framePass p = .wait := by
  have shorter : p.length < f.encode.length :=
    Nat.lt_of_le_of_ne hp.length_le fun same => hne (hp.eq_of_length same)
  by_cases short : p.length < 2
  · exact framePass_short short
  · obtain ⟨q, rfl, hq⟩ : ∃ q, p = f.firstByte :: f.secondByte f.form :: q ∧
        q <+: f.form.extended f.payload.length ++ f.body := by
      match p, hp with
      | [], _ => simp at short
      | [_], _ => simp at short
      | b0 :: b1 :: q, hp =>
        rw [WireFrame.encode, Frame.encode, List.cons_prefix_cons, List.cons_prefix_cons] at hp
        obtain ⟨rfl, rfl, hq⟩ := hp
        exact ⟨q, rfl, hq⟩
    by_cases inside : q.length < (f.form.extended f.payload.length).length
    · exact framePass_needMore (readHeader_short f inside)
    · obtain ⟨q, rfl⟩ := List.prefix_of_prefix_length_le (List.prefix_append _ f.body) hq (by omega)
      obtain ⟨h, hr, hd⟩ := readHeader_frame f q
      apply framePass_waiting hr
      rw [needed_frame hd size]
      omega

/-- A frame that does not close the connection is read off whole, from a buffer that holds it. -/
theorem reads_frame (f : WireFrame) (size : f.encode.length < 2 ^ 31)
    (open' : f.opcode ≠ .close) : Reads framePass f.encode (handled f.toFrame) where
  nonempty := f.encode_ne_nil
  whole rest := by rw [framePass_frame f size, if_neg open']
  part _ hp hne := framePass_part f size hp hne

theorem ends_frame (f : WireFrame) (size : f.encode.length < 2 ^ 31)
    (close : f.opcode = .close) : Ends framePass f.encode where
  whole rest := by rw [framePass_frame f size, if_pos close]
  part _ hp hne := framePass_part f size hp hne

end Frame

end GrblhalSim
