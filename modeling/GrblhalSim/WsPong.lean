import GrblhalSim.WsStall
import Mathlib.Data.List.Forall2

namespace GrblhalSim

open CallRun Rfc6455 StreamParser

/-- Frames of any size below 2^31 bytes, with an optional close frame at the end. -/
structure FrameStream where
  frames : List WireFrame
  close : Option WireFrame
  stays : ∀ f ∈ frames, f.opcode ≠ .close
  closes : ∀ f ∈ close, f.opcode = .close
  small : ∀ f ∈ frames ++ close.toList, f.encode.length < 2 ^ 31
  pings : ∀ f ∈ frames, f.opcode = .ping → f.payload.length ≤ 125

def FrameStream.bytes (c : FrameStream) : List UInt8 :=
  c.frames.flatMap WireFrame.encode ++ c.close.toList.flatMap WireFrame.encode

def WsOut.sent : WsOut → Option (List UInt8)
  | .rxPush _ => none
  | .send bytes => some bytes

def sentChunks (out : List WsOut) : List (List UInt8) := out.filterMap WsOut.sent

def pingsOf (frames : List WireFrame) : List WireFrame := frames.filter fun f => f.opcode = .ping

/-- The bytes are one pong frame with the application data of the ping. -/
def IsPongFor (ping : WireFrame) (bytes : List UInt8) : Prop :=
  ∃ pong, decode bytes = some (pong, []) ∧ pong.opcode = .pong ∧ pong.payload = ping.payload

def AnswersPings (frames : List WireFrame) (out : List WsOut) : Prop :=
  List.Forall₂ IsPongFor (pingsOf frames) (sentChunks out)

/-- Each frame with a ping behind it fits `raw_buf`. -/
def FitsBeforePing (frames : List WireFrame) : Prop :=
  ∀ before f behind, frames = before ++ f :: behind → (∃ g ∈ behind, g.opcode = .ping) →
    f.encode.length ≤ rawBufSize

/-- The chunks are as much of the stream as `recv` is asked for: all of it, or what fills up
`raw_buf`. -/
structure Delivers (c : FrameStream) (r : Received) (chunks : List (List UInt8)) : Prop where
  fits : EachCall receiveChunk FitsSpace r chunks
  front : chunks.flatten <+: c.bytes
  all : chunks.flatten = c.bytes ∨
    ∀ r', run receiveChunk r chunks = .ok r' → r'.ws.rawBuf.length = rawBufSize

theorem pingsOf_cons (f : WireFrame) (frames : List WireFrame) :
    pingsOf (f :: frames) = if f.opcode = .ping then f :: pingsOf frames else pingsOf frames := by
  rw [pingsOf, List.filter_cons]
  by_cases ping : f.opcode = .ping
  · simp [ping, pingsOf]
  · simp [ping, pingsOf]

theorem pingsOf_append (a b : List WireFrame) : pingsOf (a ++ b) = pingsOf a ++ pingsOf b :=
  List.filter_append a b

theorem sentChunks_append (a b : List WsOut) : sentChunks (a ++ b) = sentChunks a ++ sentChunks b :=
  List.filterMap_append

theorem sentChunks_rxPush (bytes : List UInt8) : sentChunks (bytes.map .rxPush) = [] := by
  rw [sentChunks, List.filterMap_map]
  exact List.filterMap_none bytes

/-- Whatever the ping, the pong is the same. -/
theorem sentChunks_handled (frames : List WireFrame) :
    sentChunks (frames.flatMap fun f => handled f.toFrame) =
      (pingsOf frames).map fun _ => pongHeader := by
  induction frames with
  | nil => rfl
  | cons f frames ih =>
    rw [List.flatMap_cons, sentChunks_append, ih, pingsOf_cons]
    by_cases data : f.opcode = .text ∨ f.opcode = .binary
    · have other : f.opcode ≠ .ping := by rcases data with h | h <;> rw [h] <;> decide
      simp [handled, data, other, sentChunks_rxPush]
    · by_cases ping : f.opcode = .ping
      · rw [handled, if_neg data, if_pos ping, if_pos ping]
        rfl
      · rw [handled, if_neg data, if_neg ping, if_neg ping]
        rfl

theorem isPongFor_pongHeader (ping : WireFrame) : IsPongFor ping pongHeader ↔ ping.payload = [] := by
  have read : decode pongHeader = some (⟨true, .pong, none, []⟩, []) := rfl
  constructor
  · rintro ⟨pong, decoded, -, same⟩
    rw [read] at decoded
    cases decoded
    exact same.symm
  · exact fun empty => ⟨_, read, rfl, empty.symm⟩

theorem answersPings_handled (frames rest : List WireFrame) :
    AnswersPings (frames ++ rest) (frames.flatMap fun f => handled f.toFrame) ↔
      (∀ f ∈ pingsOf frames, f.payload = []) ∧ pingsOf rest = [] := by
  rw [AnswersPings, sentChunks_handled, pingsOf_append]
  induction pingsOf frames with
  | nil => simp
  | cons f pings ih =>
    rw [List.map_cons, List.cons_append, List.forall₂_cons, ih, isPongFor_pongHeader,
      List.forall_mem_cons, and_assoc]

/-- The frames `done` have been handled, each of them from `raw_buf`, and those in `rest` have not
been taken yet. -/
structure Partway (c : FrameStream) (r : Received) (unread : List UInt8)
    (done rest : List WireFrame) : Prop where
  split : c.frames = done ++ rest
  left : r.ws.rawBuf ++ unread =
    rest.flatMap WireFrame.encode ++ c.close.toList.flatMap WireFrame.encode
  wait : framePass r.ws.rawBuf = .wait
  out : r.out = done.flatMap fun f => handled f.toFrame
  fits : ∀ f ∈ done, f.encode.length ≤ rawBufSize

structure Closed (c : FrameStream) (r : Received) : Prop where
  out : r.out = c.frames.flatMap fun f => handled f.toFrame
  fits : ∀ f ∈ c.frames, f.encode.length ≤ rawBufSize

theorem length_encode_le {frames : List WireFrame} {kept : List UInt8} {n : Nat}
    (h : (frames.flatMap WireFrame.encode ++ kept).length ≤ n) :
    ∀ f ∈ frames, f.encode.length ≤ n := by
  intro f hf
  obtain ⟨a, b, rfl⟩ := List.append_of_mem hf
  simp only [List.flatMap_append, List.flatMap_cons, List.length_append] at h
  omega

theorem Partway.receive {c : FrameStream} {r : Received} {unread chunk : List UInt8}
    {done rest : List WireFrame} (h : Partway c r (chunk ++ unread) done rest)
    (hc : r.ws.Connected) (fits : FitsSpace r chunk) :
    ∃ r', receiveChunk r chunk = .ok r' ∧
      ((r'.ws.Connected ∧ ∃ done' rest', Partway c r' unread done' rest') ∨
        unread = [] ∧ Closed c r') := by
  have left := h.left
  have room := fits.2
  rw [← List.append_assoc] at left
  have call := receiveChunk_eq hc fits
  rcases processRawBuffer_frames (fun f hf => c.stays f (by simp [h.split, hf])) c.closes
    (fun f hf => c.small f (by
      rw [h.split]
      rcases List.mem_append.mp hf with hr | hl
      · simp [hr]
      · exact List.mem_append_right _ hl)) left with
    ⟨now, later, kept, cut, parsed, front, wait⟩ | ⟨closed, all, parsed⟩
  · rw [parsed] at call
    refine ⟨_, call, Or.inl ⟨hc, done ++ now, later, ?_, ?_, wait, ?_, ?_⟩⟩
    · rw [h.split, cut, List.append_assoc]
    · rw [front, cut, List.flatMap_append, List.append_assoc, List.append_assoc] at left
      exact List.append_cancel_left left
    · rw [List.flatMap_append, ← h.out]
    · intro f hf
      rcases List.mem_append.mp hf with hd | hn
      · exact h.fits f hd
      · exact length_encode_le (by rw [← front, List.length_append]; exact room) f hn
  · rw [parsed] at call
    refine ⟨_, call, Or.inr ⟨all, ?_, ?_⟩⟩
    · rw [h.split, List.flatMap_append, ← h.out]
    · intro f hf
      rw [h.split] at hf
      rcases List.mem_append.mp hf with hd | hn
      · exact h.fits f hd
      · rw [all, List.append_nil] at left
        exact length_encode_le (by rw [← left, List.length_append]; exact room) f hn

theorem Partway.receive_all {c : FrameStream} {r : Received} {unread : List UInt8}
    {chunks : List (List UInt8)} {done rest : List WireFrame}
    (h : Partway c r (chunks.flatten ++ unread) done rest) (hc : r.ws.Connected)
    (fits : EachCall receiveChunk FitsSpace r chunks) :
    ∃ r', run receiveChunk r chunks = .ok r' ∧
      ((∃ done' rest', Partway c r' unread done' rest') ∨ Closed c r') := by
  induction chunks generalizing r done rest with
  | nil => exact ⟨r, rfl, Or.inl ⟨done, rest, h⟩⟩
  | cons chunk chunks ih =>
    rw [List.flatten_cons, List.append_assoc] at h
    obtain ⟨r', hstep, ⟨hc', done', rest', h'⟩ | ⟨all, closed⟩⟩ := h.receive hc fits.1
    · rw [run_cons hstep]
      exact ih h' hc' (fits.2 r' hstep)
    · have last : chunks = [] := by
        cases chunks with
        | nil => rfl
        | cons next chunks =>
          rw [List.flatten_cons, List.append_assoc, List.append_eq_nil_iff] at all
          exact absurd all.1 (fits.2 r' hstep).1.1
      rw [run_cons hstep, last]
      exact ⟨r', rfl, Or.inr closed⟩

theorem length_encode_le_payload (f : WireFrame) : f.encode.length ≤ f.payload.length + 14 := by
  have extended : (f.form.extended f.payload.length).length ≤ 8 := by
    cases f.form with
    | seven => exact Nat.zero_le 8
    | sixteen => simp [LenForm.extended, length_bigEndianBytes]
    | sixtyFour => simp [LenForm.extended, length_bigEndianBytes]
  have body : f.body.length ≤ f.payload.length + 4 := by
    rw [Frame.body]
    cases f.mask with
    | none => exact Nat.le_add_right _ 4
    | some key =>
      simp [MaskKey.bytes, length_applyMask]
  rw [f.encode_eq, List.length_append, WireFrame.head]
  simp only [List.length_cons]
  omega

/-- Where no more can be received, the first frame that was not taken is larger than `raw_buf`. -/
theorem Partway.stops {c : FrameStream} {r : Received} {unread : List UInt8}
    {f : WireFrame} {done rest : List WireFrame} (h : Partway c r unread done (f :: rest))
    (stop : unread = [] ∨ r.ws.rawBuf.length = rawBufSize) : rawBufSize < f.encode.length := by
  by_contra! fits
  have left := h.left
  rw [List.flatMap_cons, List.append_assoc] at left
  have inside : f.encode <+: r.ws.rawBuf := by
    rcases stop with none | full
    · rw [none, List.append_nil] at left
      exact ⟨_, left.symm⟩
    · exact List.prefix_of_prefix_length_le ⟨_, left.symm⟩ (List.prefix_append _ _) (full ▸ fits)
  obtain ⟨more, hmore⟩ := inside
  have member : f ∈ c.frames := by simp [h.split]
  have taken := (reads_frame f (c.small f (List.mem_append_left _ member))
    (c.stays f member)).whole more
  rw [hmore, h.wait] at taken
  cases taken

theorem mem_pingsOf {f : WireFrame} {frames : List WireFrame} :
    f ∈ pingsOf frames ↔ f ∈ frames ∧ f.opcode = .ping := by
  simp [pingsOf]

theorem pingsOf_eq_nil {frames : List WireFrame} :
    pingsOf frames = [] ↔ ∀ f ∈ frames, f.opcode ≠ .ping := by
  simp [pingsOf]

/-- The pings that were taken have no payload and no other ones are left exactly when no ping has
a payload or a frame in front of it that does not fit. -/
theorem taken_pings_iff (done rest : List WireFrame)
    (fits : ∀ f ∈ done, f.encode.length ≤ rawBufSize)
    (large : ∀ f behind, rest = f :: behind → rawBufSize < f.encode.length)
    (short : ∀ f ∈ done ++ rest, f.opcode = .ping → f.payload.length ≤ 125) :
    ((∀ f ∈ pingsOf done, f.payload = []) ∧ pingsOf rest = []) ↔
      (∀ f ∈ done ++ rest, f.opcode = .ping → f.payload = []) ∧ FitsBeforePing (done ++ rest) := by
  constructor
  · rintro ⟨empty, none⟩
    have last := pingsOf_eq_nil.mp none
    constructor
    · intro f hf ping
      rcases List.mem_append.mp hf with hd | hr
      · exact empty f (mem_pingsOf.mpr ⟨hd, ping⟩)
      · exact absurd ping (last f hr)
    · rintro before f behind split ⟨g, hg, ping⟩
      rcases List.append_eq_append_iff.mp split with ⟨more, -, hrest⟩ | ⟨more, hdone, hbehind⟩
      · exact absurd ping (last g (by simp [hrest, hg]))
      · cases more with
        | nil =>
          rw [List.nil_append] at hbehind
          exact absurd ping (last g (by simp [← hbehind, hg]))
        | cons x more =>
          cases hbehind
          exact fits f (by simp [hdone])
  · rintro ⟨empty, before⟩
    refine ⟨fun f hf => ?_, pingsOf_eq_nil.mpr fun g hg ping => ?_⟩
    · obtain ⟨hd, ping⟩ := mem_pingsOf.mp hf
      exact empty f (List.mem_append_left _ hd) ping
    · cases rest with
      | nil => cases hg
      | cons f behind =>
        have big := large f behind rfl
        rcases List.mem_cons.mp hg with rfl | hb
        · have := length_encode_le_payload g
          have := short g (by simp) ping
          have size : rawBufSize = 4096 := rfl
          omega
        · have := before done f behind rfl ⟨g, hb, ping⟩
          omega

/-- However a stream is cut, each of its pings gets a pong with its data exactly when no ping has
any and no frame in front of a ping is larger than `raw_buf`. -/
theorem pings_answered_iff (c : FrameStream) {s : Ws} (hc : s.Connected) (empty : s.rawBuf = [])
    {chunks : List (List UInt8)} (delivers : Delivers c ⟨s, []⟩ chunks) :
    ∃ r, run receiveChunk ⟨s, []⟩ chunks = .ok r ∧
      (AnswersPings c.frames r.out ↔
        (∀ f ∈ c.frames, f.opcode = .ping → f.payload = []) ∧ FitsBeforePing c.frames) := by
  obtain ⟨unread, cut⟩ := delivers.front
  have start : Partway c ⟨s, []⟩ (chunks.flatten ++ unread) [] c.frames :=
    ⟨rfl, by rw [empty, cut]; rfl, by rw [empty]; rfl, rfl, by simp⟩
  obtain ⟨r, hrun, ⟨done, rest, h⟩ | closed⟩ := start.receive_all hc delivers.fits
  · have stop : unread = [] ∨ r.ws.rawBuf.length = rawBufSize := by
      rcases delivers.all with all | full
      · rw [all] at cut
        exact Or.inl (List.append_right_eq_self.mp cut)
      · exact Or.inr (full r hrun)
    refine ⟨r, hrun, ?_⟩
    have large : ∀ f behind, rest = f :: behind → rawBufSize < f.encode.length := by
      rintro f behind rfl
      exact h.stops stop
    rw [h.out, h.split, answersPings_handled]
    exact taken_pings_iff done rest h.fits large (fun f hf => c.pings f (h.split ▸ hf))
  · refine ⟨r, hrun, ?_⟩
    have same := answersPings_handled c.frames []
    have known := taken_pings_iff c.frames [] closed.fits (by simp)
      (by rw [List.append_nil]; exact c.pings)
    rw [List.append_nil] at same known
    rw [closed.out, same]
    exact known

def pingSession : FrameStream where
  frames := querySession.frames
  close := querySession.close
  stays := querySession.stays
  closes := querySession.closes
  small := by decide
  pings := by decide

theorem pings_answered_empty :
    ∃ r, run receiveChunk ⟨freshClient, []⟩ [pingSession.bytes] = .ok r ∧
      AnswersPings pingSession.frames r.out := by
  have delivers : Delivers pingSession ⟨freshClient, []⟩ [pingSession.bytes] :=
    ⟨⟨⟨by decide, by decide⟩, fun _ _ => trivial⟩, by simp, Or.inl (List.append_nil _)⟩
  obtain ⟨r, hrun, answers⟩ := pings_answered_iff pingSession ⟨rfl, rfl⟩ rfl delivers
  refine ⟨r, hrun, answers.mpr ⟨by decide, fun before f behind split _ => ?_⟩⟩
  have small : ∀ f ∈ pingSession.frames, f.encode.length ≤ rawBufSize := by decide
  exact small f (by simp [split])

def pingWithData : FrameStream where
  frames := [⟨⟨true, .ping, none, [0x78]⟩, .seven, by decide⟩]
  close := none
  stays := by decide
  closes := closes_none
  small := by decide
  pings := by decide

theorem pong_without_data :
    Delivers pingWithData ⟨freshClient, []⟩ [pingWithData.bytes] ∧
      ∀ r, run receiveChunk ⟨freshClient, []⟩ [pingWithData.bytes] = .ok r →
        ¬ AnswersPings pingWithData.frames r.out := by
  refine ⟨⟨⟨⟨by decide, by decide⟩, fun _ _ => trivial⟩, by simp, Or.inl (List.append_nil _)⟩,
    fun r hrun answers => ?_⟩
  have sent : run receiveChunk ⟨freshClient, []⟩ [pingWithData.bytes] =
      .ok ⟨freshClient, [.send pongHeader]⟩ := rfl
  rw [sent] at hrun
  cases hrun
  have only := (List.forall₂_cons.mp answers).1
  have none := (isPongFor_pongHeader _).mp only
  cases none

end GrblhalSim
