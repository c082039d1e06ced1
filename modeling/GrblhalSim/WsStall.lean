import GrblhalSim.WsSafety

namespace GrblhalSim

open CallRun StreamParser

/-- The buffer is full and the frame at its front declares that it is larger. -/
def FillsUp (raw : List UInt8) : Prop :=
  raw.length = rawBufSize ∧ ∃ h, readHeader raw = .ok h ∧ rawBufSize < h.needed

theorem readHeader_needMore {raw : List UInt8} (long : 2 ≤ raw.length)
    (more : readHeader raw = .error .needMore) : raw.length < 10 := by
  match raw, long with
  | b0 :: b1 :: q, _ =>
    by_contra! ten
    rw [List.length_cons, List.length_cons] at ten
    obtain ⟨n2, h2, _⟩ := readLength_append (q.take 2) [b0, b1] (q.drop 2)
      (show (0 : UInt64).toNat < 256 ^ 0 by decide) (by simp)
    obtain ⟨n8, h8, _⟩ := readLength_append (q.take 8) [b0, b1] (q.drop 8)
      (show (0 : UInt64).toNat < 256 ^ 0 by decide) (by simp)
    rw [List.take_append_drop, List.length_take, Nat.min_eq_left (by omega)] at h2 h8
    have r2 : readLength (b0 :: b1 :: q) 2 2 0 = .ok n2 := h2
    have r8 : readLength (b0 :: b1 :: q) 8 2 0 = .ok n8 := h8
    rw [readHeader_cons, r2, r8, if_neg (show ¬ q.length < 2 by omega),
      if_neg (show ¬ q.length < 8 by omega)] at more
    split at more
    next => cases more
    next => split at more <;> cases more

theorem framePass_wait_full {raw : List UInt8} (full : raw.length = rawBufSize) :
    framePass raw = .wait ↔ FillsUp raw := by
  have size : rawBufSize = 4096 := rfl
  constructor
  · intro wait
    have known := framePass_cases (show raw.length ≤ rawBufSize by omega)
    rw [wait] at known
    cases known with
    | short few => omega
    | header long more =>
      have := readHeader_needMore long more
      omega
    | @waiting h header more => exact ⟨full, h, header, by omega⟩
  · rintro ⟨_, h, header, more⟩
    exact framePass_waiting header (by omega)

theorem processRawBuffer_full {raw rest : List UInt8} {out : List WsOut}
    (small : raw.length ≤ rawBufSize) (h : processRawBuffer raw = some (out, .waiting rest))
    (full : rest.length = rawBufSize) : FillsUp raw := by
  obtain ⟨reach, wait⟩ := loop_waiting_reach h
  rcases reach.head with rfl | ⟨first, next, take, reach⟩
  · exact (framePass_wait_full full).mp wait
  · rcases framePass_shrinks small take with shorter | rfl
    · have := reach_length_le (by omega) reach
      omega
    · simp [processRawBuffer, loop_stuck take] at h

theorem receiveChunk_eq {r : Received} {chunk : List UInt8} (hc : r.ws.Connected)
    (fit : FitsSpace r chunk) :
    receiveChunk r chunk =
      match processRawBuffer (r.ws.rawBuf ++ chunk) with
      | none => .error .hangs
      | some (_, .faulted) => .error .undefined
      | some (out, ending) => .ok ⟨r.ws.parsed out ending, r.out ++ out⟩ := by
  have space : ¬ rawBufSize ≤ r.ws.rawBuf.length := by
    have := List.length_pos_iff.mpr fit.1
    have := fit.2
    omega
  rw [receiveChunk, Ws.wsReceive, hc.1, hc.2, Bool.and_self, if_pos rfl, Ws.processIncoming,
    if_neg space]
  cases processRawBuffer (r.ws.rawBuf ++ chunk) with
  | none => rfl
  | some result =>
    obtain ⟨out, ending⟩ := result
    cases ending <;> rfl

/-- A later call of `ws_getchar`, with what `accept` and `recv` return in it. -/
def getcharState (s : Ws) (call : Option (Nat × Bool) × RecvResult) : Except NoReturn Ws :=
  (s.wsGetchar call.1 call.2).map fun result => result.1.2

/-- No later call of `ws_getchar` takes anything from the full buffer of an open connection. -/
def Ws.Stuck (s : Ws) : Prop :=
  s.Connected ∧ s.rawBuf.length = rawBufSize ∧
    ∀ calls, EachState getcharState (fun s' => s'.rawBuf = s.rawBuf) s calls

theorem getcharState_full {s : Ws} (hc : s.Connected) (full : s.rawBuf.length = rawBufSize)
    (call : Option (Nat × Bool) × RecvResult) : getcharState s call = .ok s.rxPop.2 := by
  obtain ⟨accepted, received⟩ := call
  have accept : s.wsAccept accepted = s := by
    obtain ⟨fd, hfd⟩ := Option.isSome_iff_exists.mp hc.1
    simp [Ws.wsAccept, hfd]
  have receive : s.wsReceive received = .ok (s, []) := by
    rw [Ws.wsReceive, hc.1, hc.2, Bool.and_self, if_pos rfl]
    unfold Ws.processIncoming
    exact if_pos full.ge
  rw [getcharState, Ws.wsGetchar, accept, receive]
  rfl

theorem Ws.stuck_of_full {s : Ws} (hc : s.Connected) (full : s.rawBuf.length = rawBufSize) :
    s.Stuck := by
  refine ⟨hc, full, fun calls => ?_⟩
  have stays : EachState getcharState (fun t => t.Connected ∧ t.rawBuf = s.rawBuf) s calls := by
    apply eachState_of_step calls ?_ ⟨hc, rfl⟩
    rintro t call t' ⟨ht, same⟩ hstep
    rw [getcharState_full ht (by rw [same, full])] at hstep
    cases hstep
    exact ⟨t.rxPop_connected.mpr ht, by rw [t.rxPop_rawBuf, same]⟩
  exact stays.mono fun _ h => h.2

/-- After the call of `process_raw_buffer` an open connection can be read from again. -/
def KeepsReading (r : Received) (chunk : List UInt8) : Prop :=
  r.ws.Connected → ∀ r', receiveChunk r chunk = .ok r' → r'.ws.Connected →
    r'.ws.rawBuf.length < rawBufSize ∧ ¬ r'.ws.Stuck

def FrontFits (r : Received) (chunk : List UInt8) : Prop :=
  r.ws.Connected → ¬ FillsUp (r.ws.rawBuf ++ chunk)

theorem Ws.parsed_connected {s : Ws} {out : List WsOut} {ending : Ending UInt8}
    (h : (s.parsed out ending).Connected) : ∃ rest, ending = .waiting rest := by
  cases ending with
  | waiting rest => exact ⟨rest, rfl⟩
  | halted => exact absurd h.1 (by simp [Ws.parsed, Ws.sockClose])
  | faulted => exact absurd h.1 (by simp [Ws.parsed, Ws.sockClose])

theorem keepsReading_iff {r : Received} {chunk : List UInt8} (fit : FitsSpace r chunk) :
    KeepsReading r chunk ↔ FrontFits r chunk := by
  have small : (r.ws.rawBuf ++ chunk).length ≤ rawBufSize := by
    rw [List.length_append]
    exact fit.2
  apply forall_congr'
  intro hc
  have call := receiveChunk_eq hc fit
  constructor
  · intro reads fills
    have wait := (framePass_wait_full fills.1).mpr fills
    have same : processRawBuffer (r.ws.rawBuf ++ chunk) =
        some ([], .waiting (r.ws.rawBuf ++ chunk)) := by
      rw [processRawBuffer, loop, wait]
    rw [same] at call
    have room := (reads _ call hc).1
    have full : (r.ws.rawBuf ++ chunk).length < rawBufSize := room
    have := fills.1
    omega
  · intro front r' hstep connected
    suffices room : r'.ws.rawBuf.length < rawBufSize from
      ⟨room, fun stuck => by have := stuck.2.1; omega⟩
    rw [call] at hstep
    split at hstep
    next => cases hstep
    next => cases hstep
    next out ending _ parsed =>
      cases hstep
      obtain ⟨rest, rfl⟩ := Ws.parsed_connected connected
      obtain ⟨reach, _⟩ := loop_waiting_reach parsed
      have bound := reach_length_le small reach
      have room : rest.length ≠ rawBufSize := fun full =>
        front (processRawBuffer_full small parsed full)
      show rest.length < rawBufSize
      omega

/-- The server can always read on exactly as long as no frame that is larger than `raw_buf`
fills it up. -/
theorem processIncoming_keeps_reading_iff {r : Received} {chunks : List (List UInt8)}
    (fits : EachCall receiveChunk FitsSpace r chunks) :
    EachCall receiveChunk KeepsReading r chunks ↔ EachCall receiveChunk FrontFits r chunks :=
  eachCall_iff (fun _ _ _ (_ : True) _ _ => trivial) (fun _ _ _ fit => keepsReading_iff fit)
    trivial fits

theorem processIncoming_keeps_reading_iff_query :
    EachCall receiveChunk KeepsReading ⟨freshClient, []⟩ [querySession.bytes] ↔
      EachCall receiveChunk FrontFits ⟨freshClient, []⟩ [querySession.bytes] :=
  processIncoming_keeps_reading_iff ⟨⟨by decide, by decide⟩, fun _ _ => trivial⟩

/-- The first 4096 bytes of a text frame with 8192 bytes of payload. -/
def largeFront : List UInt8 := [0x81, 0x7E, 0x20, 0x00] ++ List.replicate 4092 0x41

theorem processIncoming_stalls :
    freshClient.Connected ∧ freshClient.rawBuf = [] ∧
      EachCall receiveChunk FitsSpace ⟨freshClient, []⟩ [largeFront] ∧
      ¬ EachCall receiveChunk KeepsReading ⟨freshClient, []⟩ [largeFront] ∧
      ∃ r, receiveChunk ⟨freshClient, []⟩ largeFront = .ok r ∧ r.ws.Stuck := by
  have size : largeFront.length = rawBufSize := by
    rw [largeFront, List.length_append, List.length_replicate]
    rfl
  have fit : FitsSpace ⟨freshClient, []⟩ largeFront :=
    ⟨List.cons_ne_nil _ _, by rw [size]; decide⟩
  have header : ∀ q, readHeader (0x81 :: 0x7E :: 0x20 :: 0x00 :: q) =
      .ok ⟨1, false, 0x2000, 4⟩ := by
    intro q
    rw [readHeader_cons, if_pos (by decide), if_neg (by simp)]
    rfl
  have fills : FillsUp largeFront := ⟨size, _, header _, by decide⟩
  have stalls : ¬ KeepsReading ⟨freshClient, []⟩ largeFront :=
    fun reads => (keepsReading_iff fit).mp reads ⟨rfl, rfl⟩ fills
  have wait : processRawBuffer largeFront = some ([], .waiting largeFront) := by
    rw [processRawBuffer, loop, (framePass_wait_full size).mpr fills]
  refine ⟨⟨rfl, rfl⟩, rfl, ⟨fit, fun _ _ => trivial⟩, fun reads => stalls reads.1,
    ⟨freshClient.parsed [] (.waiting largeFront), []⟩, ?_, Ws.stuck_of_full ⟨rfl, rfl⟩ size⟩
  have front : freshClient.rawBuf ++ largeFront = largeFront := List.nil_append _
  rw [receiveChunk_eq ⟨rfl, rfl⟩ fit, front, wait]
  rfl

end GrblhalSim
