import GrblhalSim.WsOutput

namespace GrblhalSim

open Rfc6455

/-- The bytes that reach the socket when the calls of `send` accept these numbers of bytes. -/
def accepted : List Send → List Nat → List UInt8
  | s :: sends, k :: ks => s.given.take k ++ accepted sends ks
  | _, _ => []

/-- After a call of `send` that accepts less than it is given, no call accepts anything. -/
def Unbroken : List Send → List Nat → Prop
  | s :: sends, k :: ks => (s.given.length ≤ k ∧ Unbroken sends ks) ∨ accepted sends ks = []
  | _, _ => True

/-- The beginning of a stream of text frames whose payloads are the beginning of `text`. -/
def FramesOf (text bytes : List UInt8) : Prop :=
  ∃ lines : List (List UInt8),
    bytes <+: (lines.map textFrame).flatMap Frame.encodeMin ∧ lines.flatten <+: text

def putSends (s : Ws) (text : List UInt8) : List Send :=
  (output ⟨s, [], []⟩ (text.map .put)).sends

theorem accepted_prefix {sends : List Send} {ks : List Nat} (h : Unbroken sends ks) :
    accepted sends ks <+: sends.flatMap Send.given := by
  induction sends generalizing ks with
  | nil => exact List.nil_prefix
  | cons s sends ih =>
    cases ks with
    | nil => exact List.nil_prefix
    | cons k ks =>
      rw [accepted, List.flatMap_cons]
      rcases h with ⟨all, rest⟩ | none
      · rw [List.take_of_length_le all]
        exact (List.prefix_append_right_inj s.given).mpr (ih rest)
      · rw [none, List.append_nil]
        exact (List.take_prefix k s.given).trans (List.prefix_append _ _)

theorem output_put {o : Output} (text : List UInt8) (unmuted : o.ws.wsTxMuted = false) :
    (output o (text.map .put)).put = o.put ++ text := by
  induction text generalizing o with
  | nil => simp [output]
  | cons data text ih =>
    have still : (outputStep o (.put data)).ws.wsTxMuted = false := by
      rcases wsPutchar_cases o.ws data with ⟨_, hp⟩ | ⟨_, _, hp⟩ | ⟨_, _, _, hp⟩ | ⟨_, _, _, hp⟩ <;>
        simp [outputStep, hp, unmuted]
    have next := ih still
    rw [List.map_cons, output, List.foldl_cons]
    rw [output] at next
    rw [next]
    simp [outputStep, unmuted]

/-- In a session that begins with nothing pending, what the socket accepts is a stream of text
frames as long as nothing is accepted after a call of `send` that was cut short. -/
theorem wsPutchar_framed {s : Ws} (hc : s.Connected) (idle : s.txBuf = [])
    (unmuted : s.wsTxMuted = false) {text : List UInt8} {ks : List Nat}
    (unbroken : Unbroken (putSends s text) ks) :
    FramesOf text (accepted (putSends s text) ks) := by
  obtain ⟨lines, h⟩ := lines_output (lines_start hc idle) (text.map .put)
  have put : (output ⟨s, [], []⟩ (text.map .put)).put = text := output_put text unmuted
  refine ⟨lines, ?_, ?_⟩
  · rw [← h.sent]
    exact accepted_prefix unbroken
  · rw [← put, ← h.text]
    exact List.prefix_append _ _

theorem wsPutchar_framed_ok :
    FramesOf [0x6f, 0x6b, 0x0a] (accepted (putSends freshClient [0x6f, 0x6b, 0x0a]) [2, 1]) :=
  wsPutchar_framed ⟨rfl, rfl⟩ rfl rfl (Or.inl ⟨by decide, Or.inr rfl⟩)

/-- Two lines, of which only one byte of the first payload is accepted. -/
theorem wsPutchar_misframed :
    freshClient.Connected ∧ freshClient.txBuf = [] ∧ freshClient.wsTxMuted = false ∧
      accepted (putSends freshClient [0x6f, 0x6b, 0x0a, 0x6f, 0x6b, 0x0a]) [2, 1, 2, 3] =
        [0x81, 3, 0x6f, 0x81, 3, 0x6f, 0x6b, 0x0a] ∧
      ¬ FramesOf [0x6f, 0x6b, 0x0a, 0x6f, 0x6b, 0x0a]
        (accepted (putSends freshClient [0x6f, 0x6b, 0x0a, 0x6f, 0x6b, 0x0a]) [2, 1, 2, 3]) := by
  have bytes : accepted (putSends freshClient [0x6f, 0x6b, 0x0a, 0x6f, 0x6b, 0x0a]) [2, 1, 2, 3] =
      [0x81, 3, 0x6f, 0x81, 3, 0x6f, 0x6b, 0x0a] := rfl
  refine ⟨⟨rfl, rfl⟩, rfl, rfl, bytes, ?_⟩
  rw [bytes]
  rintro ⟨lines, frames, text⟩
  cases lines with
  | nil => simp at frames
  | cons line lines =>
    rw [List.map_cons, List.flatMap_cons, ← wsFrameHeader_encode] at frames
    unfold wsFrameHeader at frames
    split at frames
    next =>
      simp only [List.cons_append, List.nil_append, List.cons_prefix_cons] at frames
      obtain ⟨_, code, frames⟩ := frames
      have length : line.length = 3 := by
        have code := congrArg UInt8.toNat code
        rw [UInt8.toNat_ofNat'] at code
        have three : UInt8.toNat 3 = 3 := rfl
        omega
      obtain ⟨a, b, c, rfl⟩ := List.length_eq_three.mp length
      simp only [List.flatten_cons, List.cons_append, List.cons_prefix_cons] at frames text
      have second : (0x81 : UInt8) = 0x6b := frames.2.1.trans text.2.1
      exact absurd second (by decide)
    next => split at frames <;> simp [List.cons_prefix_cons] at frames

end GrblhalSim
