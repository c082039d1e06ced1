import GrblhalSim.WsDecode
import Mathlib.Data.List.TakeDrop

namespace GrblhalSim

open CallRun RingQueue Rfc6455 StreamParser

def RecvResult.bytes : RecvResult → List UInt8
  | .data bytes => bytes
  | _ => []

/-- The server, what the client has sent but the server has not read, and the non-zero values
returned so far. -/
structure Delivery where
  ws : Ws
  unread : List UInt8
  returned : List UInt8

/-- One call of `ws_getchar` while no other client connects. -/
def getcharCall (d : Delivery) (received : RecvResult) : Except NoReturn Delivery := do
  let ((c, ws), _) ← d.ws.wsGetchar none received
  .ok ⟨ws, d.unread.drop received.bytes.length, if c = 0 then d.returned else d.returned ++ [c]⟩

/-- What `recv` can return in this state when the client disconnects only after its last byte
has been read. -/
def Arrives (d : Delivery) : RecvResult → Prop
  | .data bytes =>
    bytes ≠ [] ∧ d.ws.rawBuf.length + bytes.length ≤ rawBufSize ∧ bytes <+: d.unread
  | .eof => d.unread = []
  | .wouldBlock => True
  | .error => False

/-- The values returned, the ring, and the payloads that are still in `raw_buf` or unread make up
what the client sent. -/
def Undamaged (frames : List WireFrame) (d : Delivery) : Prop :=
  ∃ done rest, frames = done ++ rest ∧ d.ws.rawBuf ++ d.unread = rest.flatMap WireFrame.encode ∧
    d.returned ++ d.ws.rx.toList ++ dataPayload rest = dataPayload frames

/-- The ring has room for the payloads of the frames that the call completes. -/
def RingHolds (frames : List WireFrame) (d : Delivery) (received : RecvResult) : Prop :=
  ∀ done now later, frames = done ++ (now ++ later) →
    d.ws.rawBuf ++ d.unread = (now ++ later).flatMap WireFrame.encode →
    now.flatMap WireFrame.encode <+: d.ws.rawBuf ++ received.bytes →
    d.ws.rx.count + (dataPayload now).length < wsRxBufSize

theorem flatMap_encode_eq_nil {frames : List WireFrame}
    (h : (frames.flatMap WireFrame.encode).length = 0) : frames = [] := by
  cases frames with
  | nil => rfl
  | cons f frames =>
    have := List.length_pos_iff.mpr f.encode_ne_nil
    simp only [List.flatMap_cons, List.length_append] at h
    omega

theorem suffix_unique {done rest done' rest' : List WireFrame}
    (split : done ++ rest = done' ++ rest')
    (same : rest.flatMap WireFrame.encode = rest'.flatMap WireFrame.encode) :
    done = done' ∧ rest = rest' := by
  have lengths := congrArg List.length same
  rcases List.append_eq_append_iff.mp split with ⟨more, rfl, rfl⟩ | ⟨more, rfl, rfl⟩
  · have none : more = [] := flatMap_encode_eq_nil (by simp at lengths ⊢; omega)
    simp [none]
  · have none : more = [] := flatMap_encode_eq_nil (by simp at lengths ⊢; omega)
    simp [none]

theorem dataPayload_append (now later : List WireFrame) :
    dataPayload (now ++ later) = dataPayload now ++ dataPayload later := by
  simp [dataPayload]

structure Delivering (c : ClientStream) (d : Delivery) (done rest : List WireFrame) : Prop where
  split : c.frames = done ++ rest
  left : d.ws.rawBuf ++ d.unread = (c.after split).bytes
  wait : framePass d.ws.rawBuf = .wait
  connected : d.ws.Connected ∨ rest = []
  nonzero : 0 ∉ d.ws.rx.toList

section Call

variable {c : ClientStream} {d : Delivery} {done rest : List WireFrame}

theorem Delivering.frames_left (hd : Delivering c d done rest) (still : c.close = none) :
    d.ws.rawBuf ++ d.unread = rest.flatMap WireFrame.encode := by
  have left := hd.left
  simpa [ClientStream.bytes, ClientStream.tail, ClientStream.after, still] using left

theorem Delivering.nothing (hd : Delivering c d done rest) (all : d.unread = []) :
    rest = [] ∧ d.ws.rawBuf = [] := by
  have left := hd.left
  rw [all, List.append_nil] at left
  obtain ⟨frames, _, empty⟩ := nothing_left (c.after hd.split) left hd.wait
  exact ⟨frames, empty⟩

/-- The read in a call of `ws_getchar` takes the frames `now` off the stream. -/
structure Took (d : Delivery) (received : RecvResult) (now later : List WireFrame) (ws : Ws) :
    Prop where
  ring : ws.rx = (dataPayload now).foldl Ring.push d.ws.rx
  left : ws.rawBuf ++ d.unread.drop received.bytes.length = later.flatMap WireFrame.encode
  completed : d.ws.rawBuf ++ received.bytes = now.flatMap WireFrame.encode ++ ws.rawBuf
  wait : framePass ws.rawBuf = .wait
  connected : ws.Connected ∨ later = []

theorem Delivering.took_nothing (hd : Delivering c d done rest) (still : c.close = none)
    {received : RecvResult} (silent : received.bytes = []) : Took d received [] rest d.ws where
  ring := rfl
  left := by simpa [silent] using hd.frames_left still
  completed := by simp [silent]
  wait := hd.wait
  connected := hd.connected

theorem Delivering.took_last (hd : Delivering c d done rest) {received : RecvResult}
    (silent : received.bytes = []) (all : d.unread = []) :
    Took d received [] rest d.ws.sockClose where
  ring := rfl
  left := by simp [all, (hd.nothing all).1, Ws.sockClose]
  completed := by simp [silent, (hd.nothing all).2, Ws.sockClose]
  wait := rfl
  connected := Or.inr (hd.nothing all).1

theorem receive_took_data (hd : Delivering c d done rest) (still : c.close = none)
    (connected : d.ws.Connected) {bytes : List UInt8} (arrives : Arrives d (.data bytes)) :
    ∃ ws out now later, d.ws.wsReceive (.data bytes) = .ok (ws, out) ∧
      rest = now ++ later ∧ Took d (.data bytes) now later ws := by
  have frames := hd.frames_left still
  obtain ⟨nonempty, fit, unread, hu⟩ := arrives
  have stream : d.ws.rawBuf ++ (bytes ++ unread) = (c.after hd.split).bytes := by
    rw [hu, hd.left]
  obtain ⟨out, ending, parsed, received⟩ :=
    receive_parsed (c.after hd.split) connected nonempty fit stream
  cases parsed with
  | @waiting now later kept split left wait =>
    have whole : rest = now ++ later := split
    have tail : kept ++ unread = later.flatMap WireFrame.encode := by
      simpa [ClientStream.bytes, ClientStream.tail, ClientStream.after, still] using left
    refine ⟨_, _, now, later, received, whole, ?_, ?_, ?_, wait, Or.inl connected⟩
    · simp [Ws.parsed, Ws.rxPushAll, pushedBytes_handled]
    · rw [← tail, RecvResult.bytes, ← hu, List.drop_left]
      rfl
    · rw [← hu, whole, List.flatMap_append, ← tail, ← List.append_assoc,
        ← List.append_assoc] at frames
      exact List.append_cancel_right frames
  | halted closed all => simp [ClientStream.after, still] at closed

theorem receive_took (hd : Delivering c d done rest) (still : c.close = none)
    {received : RecvResult} (arrives : Arrives d received) :
    ∃ ws out now later, d.ws.wsReceive received = .ok (ws, out) ∧ rest = now ++ later ∧
      Took d received now later ws := by
  by_cases connected : d.ws.Connected
  · have read : d.ws.wsReceive received = d.ws.processIncoming received := by
      rw [Ws.wsReceive, connected.1, connected.2, Bool.and_self, if_pos rfl]
    cases received with
    | data bytes => exact receive_took_data hd still connected arrives
    | eof =>
      by_cases full : rawBufSize ≤ d.ws.rawBuf.length
      · refine ⟨d.ws, [], [], rest, ?_, rfl, hd.took_nothing still rfl⟩
        rw [read, Ws.processIncoming, if_pos full]
      · refine ⟨d.ws.sockClose, [], [], rest, ?_, rfl, hd.took_last rfl arrives⟩
        rw [read, Ws.processIncoming, if_neg full]
    | wouldBlock =>
      refine ⟨d.ws, [], [], rest, ?_, rfl, hd.took_nothing still rfl⟩
      rw [read, Ws.processIncoming, ite_self]
    | error => exact arrives.elim
  · have frames := hd.frames_left still
    have empty := hd.connected.resolve_left connected
    rw [empty, List.flatMap_nil, List.append_eq_nil_iff] at frames
    have silent : received.bytes = [] := by
      cases received with
      | data bytes => exact absurd (List.prefix_nil.mp (frames.2 ▸ arrives.2.2)) arrives.1
      | eof | wouldBlock | error => rfl
    refine ⟨d.ws, [], [], rest, ?_, rfl, hd.took_nothing still silent⟩
    unfold Ws.wsReceive
    exact if_neg (by simpa [Ws.Connected] using connected)

theorem rxPop_delivers {ws : Ws} (nonzero : 0 ∉ ws.rx.toList) (returned : List UInt8) :
    (if ws.rxPop.1 = 0 then returned else returned ++ [ws.rxPop.1]) ++ ws.rxPop.2.rx.toList =
      returned ++ ws.rx.toList := by
  unfold Ws.rxPop
  cases hp : ws.rx.pop with
  | none => simp
  | some popped =>
    obtain ⟨byte, rx⟩ := popped
    have contents := Ring.pop_some hp
    have some : byte ≠ 0 := fun zero => nonzero (by rw [contents, zero]; simp)
    simp [some, contents]

theorem rxPop_nonzero {ws : Ws} (nonzero : 0 ∉ ws.rx.toList) : 0 ∉ ws.rxPop.2.rx.toList := by
  unfold Ws.rxPop
  cases hp : ws.rx.pop with
  | none => exact nonzero
  | some popped =>
    rw [Ring.pop_some hp] at nonzero
    exact fun zero => nonzero (List.mem_cons_of_mem _ zero)

theorem Took.whole {received : RecvResult} {now later now' later' : List WireFrame} {ws : Ws}
    (took : Took d received now later ws) (fits : ∀ f ∈ later, f ∈ c.frames)
    (same : now' ++ later' = now ++ later)
    (inside : now'.flatMap WireFrame.encode <+: d.ws.rawBuf ++ received.bytes) :
    (dataPayload now').length ≤ (dataPayload now).length := by
  rcases List.append_eq_append_iff.mp same with ⟨more, rfl, _⟩ | ⟨more, rfl, rfl⟩
  · rw [dataPayload_append, List.length_append]
    omega
  · cases more with
    | nil => rw [List.append_nil]
    | cons f more =>
      obtain ⟨rest, hrest⟩ := inside
      rw [took.completed, List.flatMap_append, List.append_assoc, List.append_cancel_left_eq,
        List.flatMap_cons, List.append_assoc] at hrest
      have taken := (c.reads (fits f (by simp))).whole (more.flatMap WireFrame.encode ++ rest)
      rw [hrest, took.wait] at taken
      cases taken

theorem ringHolds_iff (hd : Delivering c d done rest) (still : c.close = none)
    {received : RecvResult} {now later : List WireFrame} {ws : Ws} (cut : rest = now ++ later)
    (took : Took d received now later ws) :
    RingHolds c.frames d received ↔ d.ws.rx.count + (dataPayload now).length < wsRxBufSize := by
  have frames := hd.frames_left still
  constructor
  · intro holds
    exact holds done now later (by rw [hd.split, cut]) (by rw [frames, cut])
      ⟨ws.rawBuf, took.completed.symm⟩
  · intro room done' now' later' split left inside
    obtain ⟨_, same⟩ := suffix_unique (split.symm.trans hd.split) (left.symm.trans frames)
    have := took.whole (c := c) (fun f hf => by simp [hd.split, cut, hf]) (same.trans cut) inside
    omega

theorem undamaged_iff (hd : Delivering c d done rest) (still : c.close = none) :
    Undamaged c.frames d ↔
      d.returned ++ d.ws.rx.toList ++ dataPayload rest = dataPayload c.frames := by
  have frames := hd.frames_left still
  constructor
  · rintro ⟨done', rest', split, left, whole⟩
    obtain ⟨_, rfl⟩ := suffix_unique (hd.split.symm.trans split) (frames.symm.trans left)
    exact whole
  · exact fun whole => ⟨done, rest, hd.split, frames, whole⟩

/-- One call keeps the stream undamaged exactly when the ring has room for what it completes. -/
theorem getcharCall_step (hd : Delivering c d done rest) (still : c.close = none)
    (nonzero : 0 ∉ dataPayload c.frames) {received : RecvResult} (arrives : Arrives d received) :
    ∃ d' done' rest', getcharCall d received = .ok d' ∧ Delivering c d' done' rest' ∧
      (Undamaged c.frames d → (Undamaged c.frames d' ↔ RingHolds c.frames d received)) := by
  obtain ⟨ws, out, now, later, read, cut, took⟩ := receive_took hd still arrives
  have contents : ws.rx.toList = d.ws.rx.toList ++
      (dataPayload now).take (wsRxBufSize - 1 - d.ws.rx.count) := by
    rw [took.ring, Ring.toList_pushAll]
  have split : c.frames = (done ++ now) ++ later := by rw [hd.split, cut, List.append_assoc]
  have clean : 0 ∉ ws.rx.toList := by
    rw [contents, List.mem_append, not_or]
    refine ⟨hd.nonzero, fun zero => nonzero ?_⟩
    rw [split, dataPayload_append, dataPayload_append]
    simp [List.mem_of_mem_take zero]
  have accept : d.ws.wsAccept none = d.ws := by
    unfold Ws.wsAccept
    cases d.ws.clientFd <;> rfl
  have call : getcharCall d received = .ok ⟨ws.rxPop.2, d.unread.drop received.bytes.length,
      if ws.rxPop.1 = 0 then d.returned else d.returned ++ [ws.rxPop.1]⟩ := by
    rw [getcharCall, Ws.wsGetchar, accept, read]
    rfl
  have next : Delivering c ⟨ws.rxPop.2, d.unread.drop received.bytes.length,
      if ws.rxPop.1 = 0 then d.returned else d.returned ++ [ws.rxPop.1]⟩ (done ++ now) later := by
    refine ⟨split, ?_, ?_, ?_, rxPop_nonzero clean⟩
    · have left := took.left
      simpa [ws.rxPop_rawBuf, ClientStream.bytes, ClientStream.tail, ClientStream.after, still]
        using left
    · rw [ws.rxPop_rawBuf, took.wait]
    · rw [ws.rxPop_connected]
      exact took.connected
  refine ⟨_, _, _, call, next, fun whole => ?_⟩
  have bound := d.ws.rx.count_lt
  rw [undamaged_iff hd still, cut, dataPayload_append] at whole
  rw [undamaged_iff next still, ringHolds_iff hd still cut took, ← whole, rxPop_delivers clean,
    contents]
  simp only [List.append_assoc, List.append_cancel_left_eq, List.append_cancel_right_eq,
    List.take_eq_self_iff]
  omega

end Call

def BetweenCalls (c : ClientStream) (d : Delivery) : Prop := ∃ done rest, Delivering c d done rest

section Run

variable {c : ClientStream} {s : Ws}

theorem delivering_start (hc : s.Connected) (empty : s.rawBuf = []) (idle : s.rx.toList = []) :
    Delivering c ⟨s, c.bytes, []⟩ [] c.frames where
  split := rfl
  left := by simp [empty, ClientStream.after, ClientStream.bytes, ClientStream.tail]
  wait := by rw [empty]; rfl
  connected := Or.inl hc
  nonzero := by simp [idle]

theorem undamaged_iff_ringHolds (still : c.close = none) (nonzero : 0 ∉ dataPayload c.frames)
    (hc : s.Connected) (empty : s.rawBuf = []) (idle : s.rx.toList = []) {calls : List RecvResult}
    (arrives : EachCall getcharCall Arrives ⟨s, c.bytes, []⟩ calls) :
    EachState getcharCall (Undamaged c.frames) ⟨s, c.bytes, []⟩ calls ↔
      EachCall getcharCall (RingHolds c.frames) ⟨s, c.bytes, []⟩ calls := by
  have start := delivering_start (c := c) hc empty idle
  have whole := (undamaged_iff start still).mpr (by simp [idle])
  have between : BetweenCalls c ⟨s, c.bytes, []⟩ := ⟨_, _, start⟩
  refine eachState_iff ?_ between whole arrives
  rintro d received ⟨done, rest, hd⟩ good arrives
  obtain ⟨d', done', rest', call, hd', agree⟩ := getcharCall_step hd still nonzero arrives
  exact ⟨d', call, ⟨done', rest', hd'⟩, agree good⟩

/-- Every call returns, and no byte is lost, repeated or moved exactly as long as each call finds
room in the ring for the payloads it completes. -/
theorem wsGetchar_delivers_iff (still : c.close = none) (nonzero : 0 ∉ dataPayload c.frames)
    (hc : s.Connected) (empty : s.rawBuf = []) (idle : s.rx.toList = []) {calls : List RecvResult}
    (arrives : EachCall getcharCall Arrives ⟨s, c.bytes, []⟩ calls) :
    (∃ d, run getcharCall ⟨s, c.bytes, []⟩ calls = .ok d) ∧
      (EachState getcharCall (Undamaged c.frames) ⟨s, c.bytes, []⟩ calls ↔
        EachCall getcharCall (RingHolds c.frames) ⟨s, c.bytes, []⟩ calls) := by
  refine ⟨?_, undamaged_iff_ringHolds still nonzero hc empty idle arrives⟩
  have between : BetweenCalls c ⟨s, c.bytes, []⟩ := ⟨_, _, delivering_start hc empty idle⟩
  have returns : ∀ d received, BetweenCalls c d → Arrives d received →
      ∃ d', getcharCall d received = .ok d' ∧ BetweenCalls c d' := by
    rintro d received ⟨done, rest, hd⟩ arrives
    obtain ⟨d', done', rest', call, hd', _⟩ := getcharCall_step hd still nonzero arrives
    exact ⟨d', call, done', rest', hd'⟩
  obtain ⟨d, hrun, _⟩ := run_ok returns between arrives
  exact ⟨d, hrun⟩

end Run

def statusStream : ClientStream where
  frames := [statusQuery]
  close := none
  stays := by decide
  closes := by decide
  fits := by decide

theorem wsGetchar_delivers_iff_status :
    (∃ d, run getcharCall ⟨freshClient, statusStream.bytes, []⟩ [.data statusStream.bytes] = .ok d) ∧
      (EachState getcharCall (Undamaged statusStream.frames) ⟨freshClient, statusStream.bytes, []⟩
          [.data statusStream.bytes] ↔
        EachCall getcharCall (RingHolds statusStream.frames) ⟨freshClient, statusStream.bytes, []⟩
          [.data statusStream.bytes]) :=
  wsGetchar_delivers_iff rfl (by decide) ⟨rfl, rfl⟩ rfl (Ring.toList_empty 0)
    ⟨⟨by decide, by decide, List.prefix_rfl⟩, fun _ _ => trivial⟩

theorem getcharCall_parts {d d' : Delivery} {received : RecvResult}
    (call : getcharCall d received = .ok d') :
    d'.unread = d.unread.drop received.bytes.length ∧
      d'.returned.length ≤ d.returned.length + 1 := by
  unfold getcharCall at call
  cases read : d.ws.wsGetchar none received with
  | error stop => rw [read] at call; cases call
  | ok result =>
    rw [read] at call
    cases call
    refine ⟨rfl, ?_⟩
    show (ite _ _ _ : List UInt8).length ≤ _
    split <;> simp

def longLine : WireFrame where
  fin := true
  opcode := .text
  mask := some ![1, 2, 3, 4]
  payload := List.replicate 4088 0x41
  form := .sixteen
  holds := by
    show (List.replicate 4088 (0x41 : UInt8)).length < 65536
    rw [List.length_replicate]
    decide

theorem longLine_payload : longLine.payload.length = 4088 := List.length_replicate

theorem longLine_encode : longLine.encode.length = 4096 := by
  have body : longLine.body.length = 4092 := by
    show (MaskKey.bytes ![1, 2, 3, 4] ++ applyMask _ 0 longLine.payload).length = 4092
    rw [List.length_append, length_applyMask, longLine_payload]
    rfl
  rw [longLine.encode_eq, List.length_append, body]
  rfl

def twoLines : ClientStream where
  frames := [longLine, longLine]
  close := none
  stays := by
    intro f hf
    have same : f = longLine := by simpa using hf
    rw [same]
    decide
  closes := closes_none
  fits := by
    intro f hf
    have same : f = longLine := by simpa using hf
    rw [same, longLine_encode]
    decide

theorem twoLines_payload : dataPayload twoLines.frames = longLine.payload ++ longLine.payload :=
  congrArg (longLine.payload ++ ·) (List.append_nil _)

theorem twoLines_bytes : twoLines.bytes = longLine.encode ++ longLine.encode := by
  rw [ClientStream.bytes, ClientStream.tail]
  show (longLine.encode ++ (longLine.encode ++ [])) ++ [] = _
  rw [List.append_nil, List.append_nil]

theorem rawBuf_after_line {d : Delivery} {done rest : List WireFrame}
    (hd : Delivering twoLines d done rest) (unread : d.unread = longLine.encode) :
    d.ws.rawBuf = [] := by
  have left := hd.frames_left rfl
  rw [unread] at left
  match done, rest, hd.split with
  | [], _, rfl =>
    have whole : d.ws.rawBuf = longLine.encode := by
      apply List.append_cancel_right (left.trans _)
      exact congrArg (longLine.encode ++ ·) (List.append_nil _)
    have taken := (twoLines.reads (List.mem_cons_self ..)).whole []
    rw [List.append_nil, ← whole, hd.wait] at taken
    cases taken
  | [_], _, rfl => simpa using left
  | [_, _], [], _ => exact (List.append_eq_nil_iff.mp left).1

/-- After the first of two such lines only one byte of it has been returned, and the second does
not fit the ring. -/
theorem wsGetchar_loses_bytes :
    twoLines.close = none ∧ 0 ∉ dataPayload twoLines.frames ∧ freshClient.Connected ∧
      freshClient.rawBuf = [] ∧ freshClient.rx.toList = [] ∧
      EachCall getcharCall Arrives ⟨freshClient, twoLines.bytes, []⟩
        [.data longLine.encode, .data longLine.encode] ∧
      ¬ EachState getcharCall (Undamaged twoLines.frames) ⟨freshClient, twoLines.bytes, []⟩
        [.data longLine.encode, .data longLine.encode] := by
  have nonzero : 0 ∉ dataPayload twoLines.frames := by
    rw [twoLines_payload, List.mem_append, or_self]
    exact fun zero => absurd (List.eq_of_mem_replicate zero) (by decide)
  have idle : freshClient.rx.toList = [] := Ring.toList_empty 0
  have start := delivering_start (c := twoLines) (s := freshClient) ⟨rfl, rfl⟩ rfl idle
  have first : Arrives ⟨freshClient, twoLines.bytes, []⟩ (.data longLine.encode) := by
    refine ⟨longLine.encode_ne_nil, ?_, ?_⟩
    · rw [longLine_encode]
      decide
    · rw [twoLines_bytes]
      exact List.prefix_append _ _
  obtain ⟨d1, done1, rest1, call1, hd1, _⟩ := getcharCall_step start rfl nonzero first
  obtain ⟨unread1, returned1⟩ := getcharCall_parts call1
  have unread1 : d1.unread = longLine.encode := by
    rw [unread1, twoLines_bytes]
    exact List.drop_left
  have empty1 := rawBuf_after_line hd1 unread1
  have second : Arrives d1 (.data longLine.encode) := by
    refine ⟨longLine.encode_ne_nil, ?_, ?_⟩
    · rw [empty1, longLine_encode]
      decide
    · exact ⟨[], by rw [List.append_nil, unread1]⟩
  obtain ⟨d2, done2, rest2, call2, hd2, _⟩ := getcharCall_step hd1 rfl nonzero second
  obtain ⟨unread2, returned2⟩ := getcharCall_parts call2
  have unread2 : d2.unread = [] := by
    rw [unread2, unread1]
    exact List.drop_length
  have only1 : ∀ d, getcharCall ⟨freshClient, twoLines.bytes, []⟩ (.data longLine.encode) = .ok d →
      d = d1 := fun d hd => Except.ok.inj (hd.symm.trans call1)
  refine ⟨rfl, nonzero, ⟨rfl, rfl⟩, rfl, idle, ⟨first, fun d hd => ?_⟩, fun safe => ?_⟩
  · rw [only1 d hd]
    exact ⟨second, fun _ _ => trivial⟩
  · have whole := (undamaged_iff hd2 rfl).mp ((safe.2 d1 call1).2 d2 call2)
    have lengths := congrArg List.length whole
    rw [(hd2.nothing unread2).1, twoLines_payload] at lengths
    have count := d2.ws.rx.count_lt
    have size : wsRxBufSize = 4096 := rfl
    have none : (dataPayload []).length = 0 := rfl
    simp only [List.length_append, Ring.length_toList, longLine_payload, none] at lengths
    have zero : (⟨freshClient, twoLines.bytes, []⟩ : Delivery).returned.length = 0 := rfl
    omega

end GrblhalSim
