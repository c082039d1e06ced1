import GrblhalSim.WsTransmit

namespace GrblhalSim

open Rfc6455

inductive TxOp
  | put (data : UInt8)
  | toggle

/-- The server with the calls of `send` made so far and the bytes put while unmuted, without the
partial lines that were pending when the output was muted. -/
structure Output where
  ws : Ws
  sends : List Send
  put : List UInt8

def outputStep (o : Output) : TxOp → Output
  | .put data =>
    let result := o.ws.wsPutchar data
    ⟨result.1, o.sends ++ result.2, if o.ws.wsTxMuted then o.put else o.put ++ [data]⟩
  | .toggle =>
    let result := o.ws.wsToggleTxMuted
    ⟨result.2, o.sends,
      if result.1 then o.put.take (o.put.length - o.ws.txBuf.length) else o.put⟩

def output (o : Output) (ops : List TxOp) : Output := ops.foldl outputStep o

/-- The lines sent and the pending line make up what was put. -/
structure Lines (o : Output) (lines : List (List UInt8)) : Prop where
  connected : o.ws.Connected
  pending : o.ws.txBuf.length < wsTxBufSize - 1
  muted : o.ws.wsTxMuted = true → o.ws.txBuf = []
  sizes : ∀ line ∈ lines, line ≠ [] ∧ line.length ≤ wsTxBufSize - 1
  sent : o.sends.flatMap Send.given = (lines.map textFrame).flatMap Frame.encodeMin
  text : lines.flatten ++ o.ws.txBuf = o.put

theorem lines_put {o : Output} {lines : List (List UInt8)} (ho : Lines o lines) (data : UInt8) :
    ∃ lines', Lines (outputStep o (.put data)) lines' := by
  obtain ⟨connected, pending, muted, sizes, sent, text⟩ := ho
  have size : wsTxBufSize = 512 := rfl
  rcases wsPutchar_cases o.ws data with ⟨closed, _⟩ | ⟨_, mute, hp⟩ | ⟨_, open', stays, hp⟩ |
    ⟨_, open', flush, hp⟩
  · exact absurd connected closed
  · refine ⟨lines, ?_⟩
    have empty := muted mute
    simp only [outputStep, hp, mute, if_true, List.append_nil]
    exact ⟨connected, by simp [size], fun _ => rfl, sizes, sent, by rw [← text, empty]⟩
  · refine ⟨lines, ?_⟩
    have room : (o.ws.txBuf ++ [data]).length < wsTxBufSize - 1 := by
      by_contra! full
      exact stays (Or.inr (Or.inr full))
    simp only [outputStep, hp, open', Bool.false_eq_true, if_false, List.append_nil]
    exact ⟨connected, room, fun mute => by simp at mute, sizes, sent,
      by rw [← text, List.append_assoc]⟩
  · refine ⟨lines ++ [o.ws.txBuf ++ [data]], ?_⟩
    have length : (o.ws.txBuf ++ [data]).length = o.ws.txBuf.length + 1 := by simp
    have small : (o.ws.txBuf ++ [data]).length < 2 ^ 31 := by omega
    have frame := wsSendFrame_given connected small
    simp only [outputStep, hp, open', Bool.false_eq_true, if_false]
    refine ⟨connected, by simp [size], fun _ => rfl, ?_, ?_, ?_⟩
    · intro line hl
      rcases List.mem_append.mp hl with old | new
      · exact sizes line old
      · rw [List.mem_singleton.mp new]
        exact ⟨by simp, by omega⟩
    · rw [List.flatMap_append, sent, frame]
      simp
    · rw [← text]
      simp

theorem lines_toggle {o : Output} {lines : List (List UInt8)} (ho : Lines o lines) :
    Lines (outputStep o .toggle) lines := by
  obtain ⟨connected, pending, muted, sizes, sent, text⟩ := ho
  have size : wsTxBufSize = 512 := rfl
  cases mute : o.ws.wsTxMuted with
  | true =>
    have same : outputStep o .toggle = ⟨{ o.ws with wsTxMuted := false }, o.sends, o.put⟩ := by
      simp [outputStep, Ws.wsToggleTxMuted, mute]
    rw [same]
    exact ⟨connected, pending, fun no => by simp at no, sizes, sent, text⟩
  | false =>
    have settled : o.put.take (o.put.length - o.ws.txBuf.length) = lines.flatten := by
      rw [← text, List.length_append, Nat.add_sub_cancel, List.take_left]
    have same : outputStep o .toggle =
        ⟨{ o.ws with wsTxMuted := true, txBuf := [] }, o.sends, lines.flatten⟩ := by
      simp [outputStep, Ws.wsToggleTxMuted, mute, settled]
    rw [same]
    exact ⟨connected, by simp [size], fun _ => rfl, sizes, sent, List.append_nil _⟩

theorem lines_output {o : Output} {lines : List (List UInt8)} (ho : Lines o lines)
    (ops : List TxOp) : ∃ lines', Lines (output o ops) lines' := by
  induction ops generalizing o lines with
  | nil => exact ⟨lines, ho⟩
  | cons op ops ih =>
    cases op with
    | put data =>
      obtain ⟨lines', ho'⟩ := lines_put ho data
      exact ih ho'
    | toggle => exact ih (lines_toggle ho)

theorem lines_start {s : Ws} (hc : s.Connected) (idle : s.txBuf = []) : Lines ⟨s, [], []⟩ [] :=
  ⟨hc, by rw [idle]; decide, fun _ => idle, by simp, rfl, by simp [idle]⟩

/-- What `ws_send_frame` sends decodes to the one text frame it was called for, and what a session
that has nothing pending sends decodes to the lines put, up to the one that is then pending. -/
theorem output_round_trip {s : Ws} (hc : s.Connected) :
    (∀ d : List UInt8, d.length < 2 ^ 31 →
      decodeStream ((s.wsSendFrame d).flatMap Send.given) = some [textFrame d]) ∧
    (s.txBuf = [] → ∀ ops : List TxOp, (output ⟨s, [], []⟩ ops).ws.txBuf.length < wsTxBufSize - 1 ∧
      ∃ lines : List (List UInt8),
        decodeStream ((output ⟨s, [], []⟩ ops).sends.flatMap Send.given) =
          some (lines.map textFrame) ∧
        (∀ line ∈ lines, line ≠ [] ∧ line.length ≤ wsTxBufSize - 1) ∧
        lines.flatten ++ (output ⟨s, [], []⟩ ops).ws.txBuf = (output ⟨s, [], []⟩ ops).put) := by
  constructor
  · intro d small
    have payload : ∀ f ∈ [textFrame d], f.payload.length < 2 ^ 63 := by
      simp only [List.mem_singleton, forall_eq, textFrame]
      omega
    have one := decodeStream_encodeMin payload
    rw [List.flatMap_singleton] at one
    rw [wsSendFrame_given hc small, one]
  · intro idle ops
    obtain ⟨lines, h⟩ := lines_output (lines_start hc idle) ops
    refine ⟨h.pending, lines, ?_, h.sizes, h.text⟩
    rw [h.sent]
    apply decodeStream_encodeMin
    intro f hf
    obtain ⟨line, hl, rfl⟩ := List.mem_map.mp hf
    have bound := (h.sizes line hl).2
    have size : wsTxBufSize = 512 := rfl
    show line.length < 2 ^ 63
    omega

theorem output_round_trip_fresh :
    (∀ d : List UInt8, d.length < 2 ^ 31 →
      decodeStream ((freshClient.wsSendFrame d).flatMap Send.given) = some [textFrame d]) ∧
    ∀ ops : List TxOp, (output ⟨freshClient, [], []⟩ ops).ws.txBuf.length < wsTxBufSize - 1 ∧
      ∃ lines : List (List UInt8),
        decodeStream ((output ⟨freshClient, [], []⟩ ops).sends.flatMap Send.given) =
          some (lines.map textFrame) ∧
        (∀ line ∈ lines, line ≠ [] ∧ line.length ≤ wsTxBufSize - 1) ∧
        lines.flatten ++ (output ⟨freshClient, [], []⟩ ops).ws.txBuf =
          (output ⟨freshClient, [], []⟩ ops).put :=
  ⟨(output_round_trip ⟨rfl, rfl⟩).1, (output_round_trip ⟨rfl, rfl⟩).2 rfl⟩

def hugeText : List UInt8 := List.replicate (2 ^ 32) 0

/-- The length of the payload is 0 as an `int`, so only the header is sent. -/
theorem wsSendFrame_huge :
    freshClient.Connected ∧ hugeText.length < 2 ^ 63 ∧
      decodeStream ((freshClient.wsSendFrame hugeText).flatMap Send.given) ≠
        some [textFrame hugeText] := by
  have size : hugeText.length = 2 ^ 32 := List.length_replicate
  have wrapped : int32 ((2 ^ 32 : Nat) : Int) = 0 := by decide
  obtain ⟨fd, hs⟩ := wsSendFrame_connected (s := freshClient) ⟨rfl, rfl⟩ hugeText
  have headerOnly : (freshClient.wsSendFrame hugeText).flatMap Send.given =
      [0x81, 127, 0, 0, 0, 1, 0, 0, 0, 0] := by
    have header : wsFrameHeader (2 ^ 32) = [0x81, 127, 0, 0, 0, 1, 0, 0, 0, 0] := rfl
    have first := @given_all fd (wsFrameHeader (2 ^ 32)) (by rw [header]; decide)
    have second : (Send.mk fd hugeText 0).given = [] := List.take_zero
    rw [hs, size, wrapped, List.flatMap_cons, List.flatMap_singleton, first, second, header,
      List.append_nil]
  refine ⟨⟨rfl, rfl⟩, by rw [size]; decide, ?_⟩
  rw [headerOnly, show decodeStream [0x81, 127, 0, 0, 0, 1, 0, 0, 0, 0] = none from rfl]
  simp

end GrblhalSim
