import GrblhalSim.WsDecode

namespace GrblhalSim

open CallRun Rfc6455

/-- The frames of a message after its first fragment, with pings and pongs among them. -/
inductive Continued : List WireFrame → Prop
  | last {f : WireFrame} (opcode : f.opcode = .continuation) (fin : f.fin = true) : Continued [f]
  | more {f : WireFrame} {fs : List WireFrame} (opcode : f.opcode = .continuation)
      (fin : f.fin = false) (rest : Continued fs) : Continued (f :: fs)
  | control {f : WireFrame} {fs : List WireFrame} (opcode : f.opcode = .ping ∨ f.opcode = .pong)
      (rest : Continued fs) : Continued (f :: fs)

/-- The frames of one text or binary message. -/
inductive Fragmented : List WireFrame → Prop
  | single {f : WireFrame} (opcode : f.opcode = .text ∨ f.opcode = .binary) (fin : f.fin = true) :
      Fragmented [f]
  | split {f : WireFrame} {fs : List WireFrame} (opcode : f.opcode = .text ∨ f.opcode = .binary)
      (fin : f.fin = false) (rest : Continued fs) : Fragmented (f :: fs)

def messagePayload (frames : List WireFrame) : List UInt8 :=
  (frames.filter fun f =>
    f.opcode = .continuation ∨ f.opcode = .text ∨ f.opcode = .binary).flatMap fun f => f.payload

theorem messagePayload_cons (f : WireFrame) (frames : List WireFrame) :
    messagePayload (f :: frames) =
      (if f.opcode = .continuation ∨ f.opcode = .text ∨ f.opcode = .binary then f.payload
        else []) ++ messagePayload frames := by
  rw [messagePayload, List.filter_cons]
  by_cases part : f.opcode = .continuation ∨ f.opcode = .text ∨ f.opcode = .binary <;>
    simp [part, messagePayload]

theorem Continued.stays {fs : List WireFrame} (h : Continued fs) : ∀ f ∈ fs, f.opcode ≠ .close := by
  induction h with
  | last opcode _ =>
    rw [List.forall_mem_singleton, opcode]
    decide
  | more opcode _ _ ih => exact List.forall_mem_cons.mpr ⟨by rw [opcode]; decide, ih⟩
  | control opcode _ ih =>
    exact List.forall_mem_cons.mpr ⟨by rcases opcode with h | h <;> rw [h] <;> decide, ih⟩

theorem Fragmented.stays {fs : List WireFrame} (h : Fragmented fs) :
    ∀ f ∈ fs, f.opcode ≠ .close := by
  cases h with
  | single opcode _ =>
    rw [List.forall_mem_singleton]
    rcases opcode with h | h <;> rw [h] <;> decide
  | split opcode _ rest =>
    exact List.forall_mem_cons.mpr ⟨by rcases opcode with h | h <;> rw [h] <;> decide, rest.stays⟩

def Fragmented.stream {fs : List WireFrame} (h : Fragmented fs)
    (size : ∀ f ∈ fs, f.encode.length ≤ rawBufSize) : ClientStream where
  frames := fs
  close := none
  stays := h.stays
  closes := closes_none
  fits := by simpa using size

theorem dataPayload_length_le (fs : List WireFrame) :
    (dataPayload fs).length ≤ (messagePayload fs).length := by
  induction fs with
  | nil => exact le_rfl
  | cons f fs ih =>
    rw [dataPayload_cons, messagePayload_cons, List.length_append, List.length_append]
    by_cases data : f.opcode = .text ∨ f.opcode = .binary
    · simp [data, ih]
    · simp [data]
      omega

theorem dataPayload_eq_iff (fs : List WireFrame) :
    dataPayload fs = messagePayload fs ↔ ∀ f ∈ fs, f.opcode = .continuation → f.payload = [] := by
  induction fs with
  | nil => simp [dataPayload, messagePayload]
  | cons f fs ih =>
    rw [dataPayload_cons, messagePayload_cons, List.forall_mem_cons, ← ih]
    by_cases data : f.opcode = .text ∨ f.opcode = .binary
    · have first : f.opcode ≠ .continuation := by rcases data with h | h <;> rw [h] <;> decide
      simp [data, first]
    · by_cases part : f.opcode = .continuation
      · have le := dataPayload_length_le fs
        rw [if_neg data, if_pos (Or.inl part), List.nil_append]
        constructor
        · intro same
          have lengths := congrArg List.length same
          rw [List.length_append] at lengths
          have empty : f.payload = [] := List.length_eq_zero_iff.mp (by omega)
          exact ⟨fun _ => empty, by simpa [empty] using same⟩
        · rintro ⟨empty, same⟩
          rw [empty part, same, List.nil_append]
      · simp [data, part]

/-- A message arrives whole exactly when its continuation frames carry nothing. -/
theorem processIncoming_fragmented {fs : List WireFrame} (message : Fragmented fs)
    (size : ∀ f ∈ fs, f.encode.length ≤ rawBufSize) {s : Ws} (hc : s.Connected)
    (empty : s.rawBuf = []) {chunks : List (List UInt8)}
    (cut : chunks.flatten = fs.flatMap WireFrame.encode)
    (fits : EachCall receiveChunk FitsSpace ⟨s, []⟩ chunks) :
    ∃ r, run receiveChunk ⟨s, []⟩ chunks = .ok r ∧
      (pushedBytes r.out = messagePayload fs ↔
        ∀ f ∈ fs, f.opcode = .continuation → f.payload = []) := by
  have whole : chunks.flatten = (message.stream size).bytes := by
    simp [cut, ClientStream.bytes, ClientStream.tail, Fragmented.stream]
  obtain ⟨r, hrun, hout, _⟩ := receive_stream (message.stream size) (r := ⟨s, []⟩) hc
    (by rw [empty, whole, List.nil_append]) (by rw [empty]; rfl) fits
  rw [List.nil_append] at hout
  refine ⟨r, hrun, ?_⟩
  rw [hout, pushedBytes_handled]
  exact dataPayload_eq_iff fs

def twoFragments : List WireFrame :=
  [⟨⟨false, .text, none, [0x47, 0x30]⟩, .seven, by decide⟩,
    ⟨⟨true, .continuation, none, [0x58, 0x35, 0x0a]⟩, .seven, by decide⟩]

theorem twoFragments_message : Fragmented twoFragments :=
  .split (.inl rfl) rfl (.last rfl rfl)

theorem processIncoming_fragmented_two :
    ∃ r, run receiveChunk ⟨freshClient, []⟩ [twoFragments.flatMap WireFrame.encode] = .ok r ∧
      (pushedBytes r.out = messagePayload twoFragments ↔
        ∀ f ∈ twoFragments, f.opcode = .continuation → f.payload = []) :=
  processIncoming_fragmented twoFragments_message (by decide) ⟨rfl, rfl⟩ rfl (List.append_nil _)
    ⟨⟨by decide, by decide⟩, fun _ _ => trivial⟩

/-- The second fragment of the message is dropped. -/
theorem processIncoming_drops_fragment :
    Fragmented twoFragments ∧ (∀ f ∈ twoFragments, f.encode.length ≤ rawBufSize) ∧
      freshClient.Connected ∧ freshClient.rawBuf = [] ∧
      EachCall receiveChunk FitsSpace ⟨freshClient, []⟩ [twoFragments.flatMap WireFrame.encode] ∧
      (run receiveChunk ⟨freshClient, []⟩ [twoFragments.flatMap WireFrame.encode]).map
        (fun r => pushedBytes r.out) = .ok [0x47, 0x30] ∧
      messagePayload twoFragments = [0x47, 0x30, 0x58, 0x35, 0x0a] :=
  ⟨twoFragments_message, by decide, ⟨rfl, rfl⟩, rfl, ⟨⟨by decide, by decide⟩, fun _ _ => trivial⟩,
    rfl, rfl⟩

end GrblhalSim
