import GrblhalSim.CallRun
import GrblhalSim.WsFrame

namespace GrblhalSim

open CallRun Rfc6455 StreamParser

/-- Frames that each fit `raw_buf`, with an optional close frame at the end. -/
structure ClientStream where
  frames : List WireFrame
  close : Option WireFrame
  stays : ∀ f ∈ frames, f.opcode ≠ .close
  closes : ∀ f ∈ close, f.opcode = .close
  fits : ∀ f ∈ frames ++ close.toList, f.encode.length ≤ rawBufSize

theorem closes_none : ∀ f ∈ (none : Option WireFrame), f.opcode = .close := by simp

def ClientStream.tail (c : ClientStream) : List UInt8 := c.close.toList.flatMap WireFrame.encode

def ClientStream.bytes (c : ClientStream) : List UInt8 :=
  c.frames.flatMap WireFrame.encode ++ c.tail

theorem small_of_fits {f : WireFrame} (fits : f.encode.length ≤ rawBufSize) :
    f.encode.length < 2 ^ 31 := Nat.lt_of_le_of_lt fits (by decide)

theorem ClientStream.reads (c : ClientStream) {f : WireFrame} (hf : f ∈ c.frames) :
    Reads framePass f.encode (handled f.toFrame) :=
  reads_frame f (small_of_fits (c.fits f (List.mem_append_left _ hf))) (c.stays f hf)

def ClientStream.after (c : ClientStream) {done rest : List WireFrame}
    (h : c.frames = done ++ rest) : ClientStream where
  frames := rest
  close := c.close
  stays f hf := c.stays f (by simp [h, hf])
  closes := c.closes
  fits f hf := c.fits f (by
    rcases List.mem_append.mp hf with hr | hc
    · simp [h, hr]
    · exact List.mem_append_right _ hc)

/-- What one call of `process_raw_buffer` makes of a buffer that holds the front of a stream. -/
inductive Parsed (c : ClientStream) (unread : List UInt8) : List WsOut → Ending UInt8 → Prop
  | waiting {done rest kept} (split : c.frames = done ++ rest)
      (left : kept ++ unread = (c.after split).bytes) (wait : framePass kept = .wait) :
      Parsed c unread (done.flatMap fun f => handled f.toFrame) (.waiting kept)
  | halted (closed : c.close.isSome) (all : unread = []) :
      Parsed c unread (c.frames.flatMap fun f => handled f.toFrame) .halted

/-- One call takes the frames that the buffer holds whole, and a close frame if nothing is left. -/
theorem processRawBuffer_frames {frames : List WireFrame} {close : Option WireFrame}
    (stays : ∀ f ∈ frames, f.opcode ≠ .close) (closes : ∀ f ∈ close, f.opcode = .close)
    (small : ∀ f ∈ frames ++ close.toList, f.encode.length < 2 ^ 31) {raw unread : List UInt8}
    (hs : raw ++ unread =
      frames.flatMap WireFrame.encode ++ close.toList.flatMap WireFrame.encode) :
    (∃ done rest kept, frames = done ++ rest ∧
        processRawBuffer raw = some (done.flatMap (fun f => handled f.toFrame), .waiting kept) ∧
        raw = done.flatMap WireFrame.encode ++ kept ∧ framePass kept = .wait) ∨
      close.isSome ∧ unread = [] ∧
        processRawBuffer raw = some (frames.flatMap fun f => handled f.toFrame, .halted) := by
  have reads : ∀ f ∈ frames, Reads framePass f.encode (handled f.toFrame) := fun f hf =>
    reads_frame f (small f (List.mem_append_left _ hf)) (stays f hf)
  obtain ⟨done, rest, kept, fuel, split, hk, hl, left, hw⟩ :=
    loop_items reads hs (Nat.lt_succ_self raw.length)
  obtain ⟨fuel, rfl⟩ : ∃ m, fuel = m + 1 := ⟨fuel - 1, by omega⟩
  have taken : raw = done.flatMap WireFrame.encode ++ kept := by
    rw [split, List.flatMap_append, List.append_assoc, ← left, ← List.append_assoc] at hs
    exact List.append_cancel_right hs
  have waits : framePass kept = .wait → processRawBuffer raw =
      some (done.flatMap (fun f => handled f.toFrame), .waiting kept) := by
    intro wait
    rw [processRawBuffer, hl, loop, wait]
    simp [prepend]
  rcases hw with rfl | wait
  · cases hc : close with
    | none =>
      simp only [hc, Option.toList_none, List.flatMap_nil, List.append_nil,
        List.append_eq_nil_iff] at left
      have wait : framePass kept = .wait := by rw [left.1]; rfl
      exact Or.inl ⟨done, [], kept, split, waits wait, taken, wait⟩
    | some f =>
      have ends := ends_frame f (small f (by simp [hc])) (closes f hc)
      have whole : kept ++ unread = f.encode := by simpa [hc] using left
      by_cases all : kept = f.encode
      · have none : unread = [] := by simpa [all] using whole
        have halt := ends.whole []
        rw [List.append_nil, ← all] at halt
        refine Or.inr ⟨rfl, none, ?_⟩
        rw [processRawBuffer, hl, loop, halt, split]
        simp [prepend]
      · have wait := ends.part kept ⟨unread, whole⟩ all
        exact Or.inl ⟨done, [], kept, split, waits wait, taken, wait⟩
  · exact Or.inl ⟨done, rest, kept, split, waits wait, taken, wait⟩

theorem processRawBuffer_parsed (c : ClientStream) {raw unread : List UInt8}
    (hs : raw ++ unread = c.bytes) :
    ∃ out ending, processRawBuffer raw = some (out, ending) ∧ Parsed c unread out ending := by
  rcases processRawBuffer_frames c.stays c.closes (fun f hf => small_of_fits (c.fits f hf)) hs with
    ⟨done, rest, kept, split, taken, front, wait⟩ | ⟨closed, all, taken⟩
  · refine ⟨_, _, taken, .waiting split ?_ wait⟩
    have whole : c.bytes = done.flatMap WireFrame.encode ++ (c.after split).bytes := by
      rw [ClientStream.bytes, split, List.flatMap_append, List.append_assoc]
      rfl
    rw [front, whole, List.append_assoc] at hs
    exact List.append_cancel_left hs
  · exact ⟨_, _, taken, .halted closed all⟩

/-- A buffer without a complete frame that holds all that is left of a stream is empty. -/
theorem nothing_left (c : ClientStream) {kept : List UInt8} (left : kept = c.bytes)
    (wait : framePass kept = .wait) : c.frames = [] ∧ c.close = none ∧ kept = [] := by
  subst left
  cases hf : c.frames with
  | cons f frames =>
    have read := (c.reads (f := f) (by simp [hf])).whole (frames.flatMap WireFrame.encode ++ c.tail)
    simp [ClientStream.bytes, hf, read] at wait
  | nil =>
    cases hc : c.close with
    | none => simp [ClientStream.bytes, ClientStream.tail, hf, hc]
    | some f =>
      have size := small_of_fits (c.fits f (by simp [hc]))
      have ends := (ends_frame f size (c.closes f hc)).whole []
      simp [ClientStream.bytes, ClientStream.tail, hf, hc] at wait ends
      simp [ends] at wait

structure Received where
  ws : Ws
  out : List WsOut

def receiveChunk (r : Received) (chunk : List UInt8) : Except NoReturn Received := do
  let (ws, out) ← r.ws.wsReceive (.data chunk)
  .ok ⟨ws, r.out ++ out⟩

/-- `recv` returns at least one byte and at most the space left in `raw_buf`. -/
def FitsSpace (r : Received) (chunk : List UInt8) : Prop :=
  chunk ≠ [] ∧ r.ws.rawBuf.length + chunk.length ≤ rawBufSize

def Ws.parsed (s : Ws) (out : List WsOut) : Ending UInt8 → Ws
  | .waiting rest => { s.rxPushAll out with rawBuf := rest }
  | _ => (s.rxPushAll out).sockClose

theorem receive_parsed (c : ClientStream) {s : Ws} {chunk unread : List UInt8}
    (hc : s.Connected) (hn : chunk ≠ []) (hf : s.rawBuf.length + chunk.length ≤ rawBufSize)
    (hs : s.rawBuf ++ (chunk ++ unread) = c.bytes) :
    ∃ out ending, Parsed c unread out ending ∧
      s.wsReceive (.data chunk) = .ok (s.parsed out ending, out) := by
  rw [← List.append_assoc] at hs
  obtain ⟨out, ending, hp, parsed⟩ := processRawBuffer_parsed c hs
  have space : ¬ rawBufSize ≤ s.rawBuf.length := by
    have := List.length_pos_iff.mpr hn
    omega
  refine ⟨out, ending, parsed, ?_⟩
  cases parsed <;> simp [Ws.wsReceive, hc.1, hc.2, Ws.processIncoming, space, hp, Ws.parsed]

/-- However a stream is cut, all of it is handled, and in order. -/
theorem receive_stream (c : ClientStream) {r : Received} {chunks : List (List UInt8)}
    (hr : r.ws.Connected) (hs : r.ws.rawBuf ++ chunks.flatten = c.bytes)
    (wait : framePass r.ws.rawBuf = .wait) (hf : EachCall receiveChunk FitsSpace r chunks) :
    ∃ r', run receiveChunk r chunks = .ok r' ∧
      r'.out = r.out ++ c.frames.flatMap (fun f => handled f.toFrame) ∧
      r'.ws.rawBuf = [] ∧ (r'.ws.Connected ↔ c.close = none) := by
  induction chunks generalizing c r with
  | nil =>
    obtain ⟨frames, close, empty⟩ := nothing_left c (by simpa using hs) wait
    exact ⟨r, rfl, by simp [frames], empty, by simp [hr, close]⟩
  | cons chunk chunks ih =>
    rw [List.flatten_cons] at hs
    obtain ⟨out, ending, parsed, received⟩ := receive_parsed c hr hf.1.1 hf.1.2 hs
    have hstep : receiveChunk r chunk = .ok ⟨r.ws.parsed out ending, r.out ++ out⟩ := by
      rw [receiveChunk, received]
      rfl
    have later := hf.2 _ hstep
    rw [run_cons hstep]
    cases parsed with
    | @waiting done rest kept split left wait =>
      have connected : (r.ws.parsed (done.flatMap fun f => handled f.toFrame)
        (.waiting kept)).Connected := hr
      obtain ⟨r', hrun, hout, hraw, hopen⟩ := ih (c.after split) (r := ⟨_, _⟩) connected
        left wait later
      refine ⟨r', hrun, ?_, hraw, hopen⟩
      rw [hout, split, List.flatMap_append, List.append_assoc]
      rfl
    | halted closed all =>
      have last : chunks = [] := by
        cases chunks with
        | nil => rfl
        | cons next chunks =>
          rw [List.flatten_cons, List.append_eq_nil_iff] at all
          exact absurd all.1 later.1.1
      subst last
      refine ⟨_, rfl, rfl, rfl, ?_⟩
      simp [Ws.Connected, Ws.parsed, Ws.sockClose, Option.isSome_iff_ne_none.mp closed]

/-- The payloads of the text and binary frames, in order. -/
def dataPayload (frames : List WireFrame) : List UInt8 :=
  (frames.filter fun f => f.opcode = .text ∨ f.opcode = .binary).flatMap fun f => f.payload

theorem dataPayload_cons (f : WireFrame) (frames : List WireFrame) :
    dataPayload (f :: frames) =
      (if f.opcode = .text ∨ f.opcode = .binary then f.payload else []) ++ dataPayload frames := by
  rw [dataPayload, List.filter_cons]
  by_cases data : f.opcode = .text ∨ f.opcode = .binary <;> simp [data, dataPayload]

theorem pushedBytes_append (out more : List WsOut) :
    pushedBytes (out ++ more) = pushedBytes out ++ pushedBytes more := List.filterMap_append

theorem pushedBytes_rxPush (bytes : List UInt8) : pushedBytes (bytes.map .rxPush) = bytes := by
  rw [pushedBytes, List.filterMap_map]
  exact List.filterMap_some

theorem pushedBytes_handled (frames : List WireFrame) :
    pushedBytes (frames.flatMap fun f => handled f.toFrame) = dataPayload frames := by
  induction frames with
  | nil => rfl
  | cons f frames ih =>
    rw [List.flatMap_cons, pushedBytes_append, ih, dataPayload_cons]
    by_cases data : f.opcode = .text ∨ f.opcode = .binary
    · simp [handled, data, pushedBytes_rxPush]
    · rw [handled, if_neg data, if_neg data]
      by_cases ping : f.opcode = .ping
      · rw [if_pos ping]
        rfl
      · rw [if_neg ping]
        rfl

theorem count_pong_handled (frames : List WireFrame) :
    (frames.flatMap fun f => handled f.toFrame).count (.send pongHeader) =
      frames.countP fun f => f.opcode = .ping := by
  induction frames with
  | nil => rfl
  | cons f frames ih =>
    rw [List.flatMap_cons, List.count_append, ih, List.countP_cons]
    by_cases data : f.opcode = .text ∨ f.opcode = .binary
    · have other : f.opcode ≠ .ping := by rcases data with h1 | h1 <;> rw [h1] <;> decide
      simp [handled, data, other, List.count_eq_zero]
    · rw [handled, if_neg data, Nat.add_comm]
      by_cases ping : f.opcode = .ping <;> simp [ping]

/-- Decoding a client's stream from chunks gives what decoding it whole gives. -/
theorem processIncoming_decodes (c : ClientStream) {s : Ws} (hc : s.Connected)
    (empty : s.rawBuf = []) {chunks : List (List UInt8)} (cut : chunks.flatten = c.bytes)
    (fits : EachCall receiveChunk FitsSpace ⟨s, []⟩ chunks) :
    ∃ r, run receiveChunk ⟨s, []⟩ chunks = .ok r ∧
      pushedBytes r.out = dataPayload c.frames ∧
      r.out.count (.send pongHeader) = c.frames.countP (fun f => f.opcode = .ping) ∧
      r.ws.rawBuf = [] := by
  obtain ⟨r, hrun, hout, hraw, _⟩ := receive_stream c (r := ⟨s, []⟩) hc
    (by rw [empty, cut, List.nil_append]) (by rw [empty]; rfl) fits
  rw [List.nil_append] at hout
  refine ⟨r, hrun, ?_, ?_, hraw⟩
  · rw [hout, pushedBytes_handled]
  · rw [hout, count_pong_handled]

def statusQuery : WireFrame where
  fin := true
  opcode := .text
  mask := some ![0x37, 0xfa, 0x21, 0x3d]
  payload := [0x3f, 0x0a]
  form := .seven
  holds := by decide

def emptyPing : WireFrame := ⟨⟨true, .ping, none, []⟩, .sixteen, by decide⟩

def emptyClose : WireFrame := ⟨⟨true, .close, none, []⟩, .seven, by decide⟩

def querySession : ClientStream where
  frames := [statusQuery, emptyPing]
  close := some emptyClose
  stays := by decide
  closes := by decide
  fits := by decide

theorem processIncoming_decodes_query :
    ∃ r, run receiveChunk ⟨freshClient, []⟩ [querySession.bytes] = .ok r ∧
      pushedBytes r.out = dataPayload querySession.frames ∧
      r.out.count (.send pongHeader) = querySession.frames.countP (fun f => f.opcode = .ping) ∧
      r.ws.rawBuf = [] :=
  processIncoming_decodes querySession ⟨rfl, rfl⟩ rfl (List.append_nil _)
    ⟨⟨by decide, by decide⟩, fun _ _ => trivial⟩

end GrblhalSim
