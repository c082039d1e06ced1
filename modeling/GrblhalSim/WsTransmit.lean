import GrblhalSim.WsFrame

namespace GrblhalSim

open Rfc6455

/-- The frame that `ws_send_frame` sends. -/
def textFrame (payload : List UInt8) : Frame := ⟨true, .text, none, payload⟩

theorem and_0xFF (b : UInt8) : b &&& 0xFF = b := by
  have low : (b &&& 0xFF).toNat = b.toNat % 256 := by
    rw [UInt8.toNat_and]
    exact Nat.and_two_pow_sub_one_eq_mod b.toNat 8
  rw [← UInt8.toNat_inj, low]
  exact Nat.mod_eq_of_lt b.toNat_lt

theorem wsFrameHeader_encode (data : List UInt8) :
    wsFrameHeader data.length ++ data = (textFrame data).encodeMin := by
  have encoded : (textFrame data).encodeMin = 0x81 ::
      UInt8.ofNat ((minForm data.length).code data.length) ::
        ((minForm data.length).extended data.length ++ data) := by
    simp [Frame.encodeMin, Frame.encode, textFrame, Opcode.text, Frame.firstByte, Frame.secondByte,
      Frame.body]
  rw [encoded]
  by_cases h1 : data.length < 126
  · simp [wsFrameHeader, minForm, h1, LenForm.code, LenForm.extended]
  · by_cases h2 : data.length < 65536
    · simp [wsFrameHeader, minForm, h1, h2, LenForm.code, LenForm.extended, bigEndianBytes,
        and_0xFF, Nat.shiftRight_eq_div_pow]
    · simp [wsFrameHeader, minForm, h1, h2, LenForm.code, LenForm.extended, bigEndianBytes,
        List.range_succ, Nat.shiftRight_eq_div_pow]

theorem length_wsFrameHeader (n : Nat) : (wsFrameHeader n).length ≤ 10 := by
  unfold wsFrameHeader
  split
  next => simp
  next => split <;> simp

theorem given_all {fd : Nat} {buf : List UInt8} (small : buf.length < 2 ^ 31) :
    (Send.mk fd buf (int32 buf.length)).given = buf := by
  rw [Send.given, int32_small (by omega) (by omega), Int.toNat_natCast, List.take_length]

theorem wsSendFrame_connected {s : Ws} (hc : s.Connected) (data : List UInt8) :
    ∃ fd, s.wsSendFrame data =
      [⟨fd, wsFrameHeader data.length, int32 (wsFrameHeader data.length).length⟩,
        ⟨fd, data, int32 data.length⟩] := by
  obtain ⟨fd, hfd⟩ := Option.isSome_iff_exists.mp hc.1
  exact ⟨fd, by simp [Ws.wsSendFrame, hfd, hc.2]⟩

theorem wsSendFrame_given {s : Ws} (hc : s.Connected) {data : List UInt8}
    (small : data.length < 2 ^ 31) :
    (s.wsSendFrame data).flatMap Send.given = (textFrame data).encodeMin := by
  obtain ⟨fd, hs⟩ := wsSendFrame_connected hc data
  have short := length_wsFrameHeader data.length
  rw [hs, List.flatMap_cons, List.flatMap_singleton, given_all (by omega), given_all small,
    wsFrameHeader_encode]

/-- `ws_putchar` sends the line once `data` is in it. -/
def Ws.Flushes (s : Ws) (data : UInt8) : Prop :=
  data = 10 ∨ data = 13 ∨ wsTxBufSize - 1 ≤ (s.txBuf ++ [data]).length

theorem wsPutchar_cases (s : Ws) (data : UInt8) :
    (¬ s.Connected ∧ s.wsPutchar data = (s, [])) ∨
      (s.Connected ∧ s.wsTxMuted = true ∧ s.wsPutchar data = ({ s with txBuf := [] }, [])) ∨
      (s.Connected ∧ s.wsTxMuted = false ∧ ¬ s.Flushes data ∧
        s.wsPutchar data = ({ s with txBuf := s.txBuf ++ [data] }, [])) ∨
      (s.Connected ∧ s.wsTxMuted = false ∧ s.Flushes data ∧
        s.wsPutchar data = ({ s with txBuf := [] }, s.wsSendFrame (s.txBuf ++ [data]))) := by
  have closed : (s.clientFd.isNone || !s.wsHandshakeDone) = true ↔ ¬ s.Connected := by
    cases hfd : s.clientFd <;> simp [Ws.Connected, hfd]
  unfold Ws.wsPutchar
  by_cases hc : s.Connected
  · rw [if_neg (by simpa [closed] using hc)]
    cases muted : s.wsTxMuted with
    | true => exact Or.inr (Or.inl ⟨hc, rfl, by simp⟩)
    | false =>
      by_cases flush : s.Flushes data
      · exact Or.inr (Or.inr (Or.inr ⟨hc, rfl, flush, if_pos flush⟩))
      · exact Or.inr (Or.inr (Or.inl ⟨hc, rfl, flush, if_neg flush⟩))
  · exact Or.inl ⟨hc, if_pos (closed.mpr hc)⟩

end GrblhalSim
