import GrblhalSim.WsDecode

namespace GrblhalSim

open CallRun StreamParser

theorem rawRead_ok {raw : List UInt8} {i : Nat} (h : i < raw.length) :
    ∃ b, rawRead raw i = .ok b := ⟨raw[i], by simp [rawRead, h]⟩

theorem rawRead_fault {raw : List UInt8} {i : Nat} (h : raw.length ≤ i) :
    rawRead raw i = .error .fault := by
  simp [rawRead, h]

theorem unmaskLoop_ok {headerLen n i : Nat} {raw : List UInt8}
    (h : headerLen + 4 + i + n ≤ raw.length) :
    ∃ raw', unmaskLoop headerLen n i raw = .ok raw' ∧ raw'.length = raw.length ∧
      raw'.drop (headerLen + 4 + i + n) = raw.drop (headerLen + 4 + i + n) := by
  induction n generalizing i raw with
  | zero => exact ⟨raw, rfl, rfl, rfl⟩
  | succ n ih =>
    have small : i % 4 < 4 := Nat.mod_lt i (by omega)
    obtain ⟨b, hb⟩ := rawRead_ok (show headerLen + 4 + i < raw.length by omega)
    obtain ⟨m, hm⟩ := rawRead_ok (show headerLen + i % 4 < raw.length by omega)
    obtain ⟨raw', hl, hlen, hdrop⟩ := @ih (i + 1) (raw.set (headerLen + 4 + i) (b ^^^ m))
      (by rw [List.length_set]; omega)
    rw [List.length_set] at hlen
    rw [List.drop_set_of_lt (by omega)] at hdrop
    refine ⟨raw', ?_, hlen, ?_⟩
    · rw [unmaskLoop, hb, hm]
      exact hl
    · rw [show headerLen + 4 + i + (n + 1) = headerLen + 4 + (i + 1) + n by omega, hdrop]

theorem unmaskLoop_fault {headerLen n i : Nat} {raw : List UInt8} (hn : 0 < n)
    (h : raw.length < headerLen + 4 + i + n) : unmaskLoop headerLen n i raw = .error .fault := by
  induction n generalizing i raw with
  | zero => omega
  | succ n ih =>
    rw [unmaskLoop]
    by_cases inside : headerLen + 4 + i < raw.length
    · have small : i % 4 < 4 := Nat.mod_lt i (by omega)
      obtain ⟨b, hb⟩ := rawRead_ok inside
      obtain ⟨m, hm⟩ := rawRead_ok (show headerLen + i % 4 < raw.length by omega)
      rw [hb, hm]
      exact ih (by omega) (by rw [List.length_set]; omega)
    · rw [rawRead_fault (by omega)]
      rfl

theorem pushLoop_ok {raw : List UInt8} {n i : Nat} (h : i + n ≤ raw.length) :
    ∃ bytes, pushLoop raw n i = .ok bytes := by
  induction n generalizing i with
  | zero => exact ⟨[], rfl⟩
  | succ n ih =>
    obtain ⟨b, hb⟩ := rawRead_ok (show i < raw.length by omega)
    obtain ⟨bytes, hl⟩ := ih (i := i + 1) (by omega)
    exact ⟨b :: bytes, by rw [pushLoop, hb, hl]; rfl⟩

theorem pushLoop_fault {raw : List UInt8} {n i : Nat} (hn : 0 < n) (h : raw.length < i + n) :
    pushLoop raw n i = .error .fault := by
  induction n generalizing i with
  | zero => omega
  | succ n ih =>
    rw [pushLoop]
    by_cases inside : i < raw.length
    · obtain ⟨b, hb⟩ := rawRead_ok inside
      rw [hb, ih (by omega) (by omega)]
      rfl
    · rw [rawRead_fault (by omega)]
      rfl

def FrameHeader.Touches (h : FrameHeader) : Prop :=
  h.masked = true ∨ h.opcode = 0x01 ∨ h.opcode = 0x02

/-- The size of the frame, without the narrowing to `int`. -/
def FrameHeader.total (h : FrameHeader) : Nat := h.headerLen + h.maskLen + h.payloadLen.toNat

theorem needed_of_total {h : FrameHeader} (small : h.total ≤ rawBufSize) :
    h.needed = h.total := by
  have bound : h.headerLen + h.maskLen + h.payloadLen.toNat ≤ 4096 := small
  have len : int32 h.payloadLen.toNat = h.payloadLen.toNat := int32_small (by omega) (by omega)
  rw [FrameHeader.needed, len, int32_small (by omega) (by omega), FrameHeader.total]
  omega

theorem needed_of_empty {h : FrameHeader} (empty : h.payloadLen.toNat = 0)
    (small : h.headerLen ≤ 10) : h.needed = h.total := by
  apply needed_of_total
  have mask : h.maskLen ≤ 4 := by
    unfold FrameHeader.maskLen
    split <;> omega
  have size : rawBufSize = 4096 := rfl
  rw [FrameHeader.total]
  omega

theorem readHeader_headerLen {raw : List UInt8} {h : FrameHeader} (long : 2 ≤ raw.length)
    (header : readHeader raw = .ok h) : h.headerLen ≤ 10 := by
  match raw, long with
  | b0 :: b1 :: q, _ =>
    rw [readHeader_cons] at header
    split at header
    next =>
      split at header
      next => cases header
      next =>
        cases hl : readLength (b0 :: b1 :: q) 2 2 0 with
        | error e => rw [hl] at header; cases header
        | ok n => rw [hl] at header; cases header; show 4 ≤ 10; omega
    next =>
      split at header
      next =>
        split at header
        next => cases header
        next =>
          cases hl : readLength (b0 :: b1 :: q) 8 2 0 with
          | error e => rw [hl] at header; cases header
          | ok n => rw [hl] at header; cases header; show 10 ≤ 10; omega
      next => cases header; show 2 ≤ 10; omega

section Pass

variable {raw : List UInt8} {h : FrameHeader}

theorem unmask_ok (small : raw.length ≤ rawBufSize)
    (inside : h.masked = true → h.total ≤ raw.length) :
    ∃ raw', unmask h raw = .ok raw' ∧ raw'.length = raw.length ∧
      raw'.drop h.needed.toNat = raw.drop h.needed.toNat := by
  unfold unmask
  split
  next masked =>
    have fits := inside masked
    have total : h.headerLen + 4 + 0 + h.payloadLen.toNat = h.total := by
      simp [FrameHeader.total, FrameHeader.maskLen, masked]
    obtain ⟨raw', hl, hlen, hdrop⟩ := unmaskLoop_ok (total ▸ fits)
    rw [total] at hdrop
    refine ⟨raw', hl, hlen, ?_⟩
    rw [needed_of_total (fits.trans small), Int.toNat_natCast, hdrop]
  next => exact ⟨raw, rfl, rfl, rfl⟩

theorem handleFrame_ok (inside : h.Touches → h.total ≤ raw.length) :
    ∃ out, handleFrame h raw = .ok out ∧ (out = none ↔ h.opcode = 0x08) := by
  unfold handleFrame
  split
  next data =>
    have fits : h.payloadStart + h.payloadLen.toNat ≤ raw.length := inside (Or.inr data)
    obtain ⟨bytes, hb⟩ := pushLoop_ok fits
    refine ⟨some (bytes.map .rxPush), by rw [hb]; rfl, ?_⟩
    rcases data with h1 | h2 <;> simp [*]
  next =>
    split
    next close => exact ⟨none, rfl, by simp [close]⟩
    next other =>
      split
      next => exact ⟨_, rfl, by simp [other]⟩
      next => exact ⟨_, rfl, by simp [other]⟩

theorem framePass_inside (long : 2 ≤ raw.length) (small : raw.length ≤ rawBufSize)
    (header : readHeader raw = .ok h) (enough : h.needed ≤ raw.length)
    (inside : h.Touches → h.total ≤ raw.length) :
    (h.opcode = 0x08 ∧ framePass raw = .halt) ∨
      (h.opcode ≠ 0x08 ∧ h.needed < 0 ∧ framePass raw = .fault) ∨
      (h.opcode ≠ 0x08 ∧ 0 ≤ h.needed ∧
        ∃ out, framePass raw = .take out (raw.drop h.needed.toNat)) := by
  obtain ⟨raw', hu, hlen, hdrop⟩ := unmask_ok small fun masked => inside (Or.inl masked)
  have inside' : h.Touches → h.total ≤ raw'.length := by rwa [hlen]
  obtain ⟨out, hh, hclose⟩ := handleFrame_ok inside'
  have pass : framePass raw = match out with
      | none => .halt
      | some out => if h.needed < 0 then .fault else .take out (raw'.drop h.needed.toNat) := by
    rw [framePass, if_neg (by omega), header]
    simp only [if_neg (show ¬ (raw.length : Int) < h.needed by omega), hu, hh]
    cases out <;> rfl
  cases out with
  | none => exact Or.inl ⟨hclose.mp rfl, pass⟩
  | some out =>
    have other : h.opcode ≠ 0x08 := fun close => by simpa using hclose.mpr close
    by_cases negative : h.needed < 0
    · exact Or.inr (Or.inl ⟨other, negative, by simpa [negative] using pass⟩)
    · exact Or.inr (Or.inr ⟨other, by omega, out, by simpa [negative, hdrop] using pass⟩)

theorem framePass_outside (long : 2 ≤ raw.length) (header : readHeader raw = .ok h)
    (enough : h.needed ≤ raw.length) (touches : h.Touches) (beyond : raw.length < h.total) :
    framePass raw = .fault := by
  have positive : 0 < h.payloadLen.toNat := by
    rw [Nat.pos_iff_ne_zero]
    intro empty
    have := needed_of_empty empty (readHeader_headerLen long header)
    omega
  rw [framePass, if_neg (by omega), header]
  simp only [if_neg (show ¬ (raw.length : Int) < h.needed by omega)]
  by_cases masked : h.masked = true
  · have size : h.headerLen + 4 + 0 + h.payloadLen.toNat = h.total := by
      simp [FrameHeader.total, FrameHeader.maskLen, masked]
    rw [unmask, if_pos masked, unmaskLoop_fault positive (size ▸ beyond)]
  · have data := touches.resolve_left masked
    have fault : pushLoop raw h.payloadLen.toNat h.payloadStart = .error .fault :=
      pushLoop_fault positive beyond
    rw [unmask, if_neg masked]
    simp only
    rw [handleFrame, if_pos data, fault]
    rfl

end Pass

inductive PassCase (raw : List UInt8) : Pass UInt8 WsOut → Prop
  | short (few : raw.length < 2) : PassCase raw .wait
  | header (long : 2 ≤ raw.length) (more : readHeader raw = .error .needMore) : PassCase raw .wait
  | badHeader (fault : readHeader raw = .error .fault) : PassCase raw .fault
  | waiting {h} (header : readHeader raw = .ok h) (more : raw.length < h.needed) : PassCase raw .wait
  | outside {h} (header : readHeader raw = .ok h) (enough : h.needed ≤ raw.length)
      (touches : h.Touches) (beyond : raw.length < h.total) : PassCase raw .fault
  | close {h} (header : readHeader raw = .ok h) (opcode : h.opcode = 0x08)
      (inside : h.Touches → h.total ≤ raw.length) : PassCase raw .halt
  | negative {h} (header : readHeader raw = .ok h) (opcode : h.opcode ≠ 0x08)
      (negative : h.needed < 0) : PassCase raw .fault
  | take {h out} (header : readHeader raw = .ok h) (opcode : h.opcode ≠ 0x08)
      (inside : h.Touches → h.total ≤ raw.length) (positive : 0 ≤ h.needed)
      (enough : h.needed ≤ raw.length) : PassCase raw (.take out (raw.drop h.needed.toNat))

theorem framePass_cases {raw : List UInt8} (small : raw.length ≤ rawBufSize) :
    PassCase raw (framePass raw) := by
  by_cases few : raw.length < 2
  · rw [framePass_short few]
    exact .short few
  · cases header : readHeader raw with
    | error stop =>
      cases stop with
      | needMore =>
        rw [framePass_needMore header]
        exact .header (by omega) header
      | fault =>
        rw [framePass, if_neg few, header]
        exact .badHeader header
    | ok h =>
      by_cases more : raw.length < h.needed
      · rw [framePass_waiting header more]
        exact .waiting header more
      · have enough : h.needed ≤ raw.length := by omega
        by_cases inside : h.Touches → h.total ≤ raw.length
        · rcases framePass_inside (by omega) small header enough inside with
            ⟨close, halt⟩ | ⟨other, negative, fault⟩ | ⟨other, positive, out, take⟩
          · rw [halt]
            exact .close header close inside
          · rw [fault]
            exact .negative header other negative
          · rw [take]
            exact .take header other inside positive enough
        · obtain ⟨touches, beyond⟩ := Classical.not_imp.mp inside
          rw [framePass_outside (by omega) header enough touches (by omega)]
          exact .outside header enough touches (by omega)

theorem framePass_take {raw rest : List UInt8} {out : List WsOut} (small : raw.length ≤ rawBufSize)
    (take : framePass raw = .take out rest) :
    ∃ h, readHeader raw = .ok h ∧ 0 ≤ h.needed ∧ h.needed ≤ raw.length ∧
      rest = raw.drop h.needed.toNat := by
  have known := framePass_cases small
  rw [take] at known
  cases known with
  | take header _ _ positive enough => exact ⟨_, header, positive, enough, rfl⟩

theorem framePass_shrinks {raw rest : List UInt8} {out : List WsOut}
    (small : raw.length ≤ rawBufSize) (take : framePass raw = .take out rest) :
    rest.length < raw.length ∨ rest = raw := by
  obtain ⟨h, _, positive, enough, left⟩ := framePass_take small take
  rw [left]
  by_cases zero : h.needed = 0
  · exact Or.inr (by rw [zero]; rfl)
  · left
    rw [List.length_drop]
    omega

theorem reach_length_le {raw cur : List UInt8} (small : raw.length ≤ rawBufSize)
    (reach : Reach framePass raw cur) : cur.length ≤ raw.length := by
  induction reach with
  | start => exact le_rfl
  | next reach take ih =>
    rcases framePass_shrinks (ih.trans small) take with shorter | rfl
    · omega
    · exact ih

/-- A call that runs out of the fuel given to it never returns. -/
theorem processRawBuffer_none {raw : List UInt8} (small : raw.length ≤ rawBufSize)
    (h : processRawBuffer raw = none) (fuel : Nat) : loop framePass fuel raw = none :=
  loop_none_forever (fun _ _ _ reach => framePass_shrinks ((reach_length_le small reach).trans small))
    (Nat.lt_succ_self _) h fuel

/-- The pass stays in the buffer and, if it takes a frame, takes at least two bytes. -/
def PassSafe (raw : List UInt8) : Prop :=
  framePass raw ≠ .fault ∧
    ∀ out rest, framePass raw = .take out rest → rest.length + 2 ≤ raw.length

structure CallSafe (raw : List UInt8) : Prop where
  terminates : processRawBuffer raw ≠ none
  consumes : ∀ cur out rest, Reach framePass raw cur → framePass cur = .take out rest →
    rest.length + 2 ≤ cur.length
  bounded : ∀ cur, Reach framePass raw cur → cur.length ≤ rawBufSize
  inBounds : ∀ cur, Reach framePass raw cur → framePass cur ≠ .fault

theorem callSafe_iff {raw : List UInt8} (small : raw.length ≤ rawBufSize) :
    CallSafe raw ↔ ∀ cur, Reach framePass raw cur → PassSafe cur := by
  constructor
  · intro safe cur reach
    exact ⟨safe.inBounds cur reach, fun out rest => safe.consumes cur out rest reach⟩
  · intro safe
    have consumes : ∀ cur out rest, Reach framePass raw cur → framePass cur = .take out rest →
        rest.length + 2 ≤ cur.length :=
      fun cur out rest reach => (safe cur reach).2 out rest
    refine ⟨?_, consumes, ?_, fun cur reach => (safe cur reach).1⟩
    · obtain ⟨r, hr⟩ := loop_total (fun cur out rest reach hp => by
        have := consumes cur out rest reach hp
        omega) (Nat.lt_succ_self raw.length)
      rw [processRawBuffer, hr]
      simp
    · intro cur reach
      induction reach with
      | start => exact small
      | next reach hp ih =>
        have := consumes _ _ _ reach hp
        omega

/-- The frames at the front of the buffer declare sizes that survive the narrowing to `int`, or
are passed over without a look at their payload. -/
inductive SoundStream : List UInt8 → Prop
  | short {raw} (few : raw.length < 2) : SoundStream raw
  | header {raw} (more : readHeader raw = .error .needMore) : SoundStream raw
  | waiting {raw h} (header : readHeader raw = .ok h) (more : raw.length < h.needed) :
      SoundStream raw
  | close {raw h} (header : readHeader raw = .ok h) (opcode : h.opcode = 0x08)
      (payload : h.Touches → h.total ≤ raw.length) : SoundStream raw
  | frame {raw h} (header : readHeader raw = .ok h) (opcode : h.opcode ≠ 0x08)
      (payload : h.Touches → h.total ≤ raw.length) (two : 2 ≤ h.needed)
      (enough : h.needed ≤ raw.length) (rest : SoundStream (raw.drop h.needed.toNat)) :
      SoundStream raw

theorem safe_of_sound {raw : List UInt8} (sound : SoundStream raw)
    (small : raw.length ≤ rawBufSize) : ∀ cur, Reach framePass raw cur → PassSafe cur := by
  have stops : ∀ {raw : List UInt8}, framePass raw = .wait ∨ framePass raw = .halt →
      ∀ cur, Reach framePass raw cur → PassSafe cur := by
    intro raw ends cur reach
    rcases reach.head with rfl | ⟨out, rest, take, _⟩
    · rcases ends with h | h <;> simp [PassSafe, h]
    · rcases ends with h | h <;> simp [h] at take
  induction sound with
  | short few => exact stops (Or.inl (framePass_short few))
  | header more => exact stops (Or.inl (framePass_needMore more))
  | waiting header more => exact stops (Or.inl (framePass_waiting header more))
  | @close raw h header opcode payload =>
    apply stops
    by_cases few : raw.length < 2
    · exact Or.inl (framePass_short few)
    · by_cases more : raw.length < h.needed
      · exact Or.inl (framePass_waiting header more)
      · rcases framePass_inside (by omega) small header (by omega) payload with
          ⟨_, halt⟩ | ⟨other, _⟩ | ⟨other, _⟩
        · exact Or.inr halt
        · exact absurd opcode other
        · exact absurd opcode other
  | @frame raw h header opcode payload two enough rest ih =>
    rcases framePass_inside (by omega) small header enough payload with
      ⟨close, _⟩ | ⟨_, negative, _⟩ | ⟨_, _, out, take⟩
    · exact absurd close opcode
    · omega
    · intro cur reach
      rcases reach.head with rfl | ⟨out', rest', take', more⟩
      · refine ⟨by rw [take]; simp, fun out' rest' take' => ?_⟩
        rw [take] at take'
        cases take'
        rw [List.length_drop]
        omega
      · rw [take] at take'
        cases take'
        exact ih (by rw [List.length_drop]; omega) cur more

theorem sound_of_safe {raw : List UInt8} (small : raw.length ≤ rawBufSize)
    (safe : ∀ cur, Reach framePass raw cur → PassSafe cur) : SoundStream raw := by
  have here := safe raw .start
  have known := framePass_cases small
  generalize pass : framePass raw = p at known
  cases known with
  | short few => exact .short few
  | header _ more => exact .header more
  | badHeader => exact absurd pass here.1
  | waiting header more => exact .waiting header more
  | outside => exact absurd pass here.1
  | close header opcode inside => exact .close header opcode inside
  | negative => exact absurd pass here.1
  | @take h out header opcode inside positive enough =>
    have two := here.2 _ _ pass
    rw [List.length_drop] at two
    have shorter : raw.length - h.needed.toNat < raw.length := by omega
    refine .frame header opcode inside (by omega) enough (sound_of_safe ?_ ?_)
    · rw [List.length_drop]
      omega
    · exact fun cur reach => safe cur (Reach.trans (.next .start pass) reach)
termination_by raw.length
decreasing_by
  rw [List.length_drop]
  omega

theorem callSafe_iff_sound {raw : List UInt8} (small : raw.length ≤ rawBufSize) :
    CallSafe raw ↔ SoundStream raw := by
  rw [callSafe_iff small]
  exact ⟨sound_of_safe small, fun sound => safe_of_sound sound small⟩

/-- The call of `process_raw_buffer` after the `recv` that returns `chunk` is safe. -/
def ParsesSafely (r : Received) (chunk : List UInt8) : Prop :=
  r.ws.Connected → CallSafe (r.ws.rawBuf ++ chunk)

def DeclaresSoundly (r : Received) (chunk : List UInt8) : Prop :=
  r.ws.Connected → SoundStream (r.ws.rawBuf ++ chunk)

/-- Whatever a client sends and however it arrives, the parser is safe exactly as long as the
declared lengths are sound. -/
theorem processRawBuffer_safe_iff {r : Received} {chunks : List (List UInt8)}
    (fits : EachCall receiveChunk FitsSpace r chunks) :
    EachCall receiveChunk ParsesSafely r chunks ↔ EachCall receiveChunk DeclaresSoundly r chunks := by
  refine eachCall_iff (fun _ _ _ (_ : True) _ _ => trivial) ?_ trivial fits
  intro r chunk _ fit
  apply imp_congr_right
  intro _
  exact callSafe_iff_sound (by rw [List.length_append]; exact fit.2)

theorem processRawBuffer_safe_iff_query :
    EachCall receiveChunk ParsesSafely ⟨freshClient, []⟩ [querySession.bytes] ↔
      EachCall receiveChunk DeclaresSoundly ⟨freshClient, []⟩ [querySession.bytes] :=
  processRawBuffer_safe_iff ⟨⟨by decide, by decide⟩, fun _ _ => trivial⟩

/-- A masked text frame that declares 2^32 - 14 bytes of payload. -/
def overlongText : List UInt8 := [0x81, 0xFF, 0, 0, 0, 0, 0xFF, 0xFF, 0xFF, 0xF2, 1, 2, 3, 4]

def overlongPing : List UInt8 := [0x89, 0x7F, 0, 0, 0, 0, 0xFF, 0xFF, 0xFF, 0xF6]

/-- The first frame is unmasked beyond the end of the buffer, the second is handled for ever. -/
theorem processRawBuffer_overruns :
    freshClient.Connected ∧ freshClient.rawBuf = [] ∧
      EachCall receiveChunk FitsSpace ⟨freshClient, []⟩ [overlongText] ∧
      framePass overlongText = .fault ∧
      ¬ EachCall receiveChunk ParsesSafely ⟨freshClient, []⟩ [overlongText] ∧
      EachCall receiveChunk FitsSpace ⟨freshClient, []⟩ [overlongPing] ∧
      (∀ fuel, loop framePass fuel overlongPing = none) ∧
      ¬ EachCall receiveChunk ParsesSafely ⟨freshClient, []⟩ [overlongPing] := by
  have text : readHeader overlongText = .ok ⟨1, true, 0xFFFFFFF2, 10⟩ := rfl
  have ping : readHeader overlongPing = .ok ⟨9, false, 0xFFFFFFF6, 10⟩ := rfl
  have fault : framePass overlongText = .fault :=
    framePass_outside (by decide) text (by decide) (Or.inl rfl) (by decide +kernel)
  have stays : ∃ out, framePass overlongPing = .take out overlongPing := by
    have zero : FrameHeader.needed ⟨9, false, 0xFFFFFFF6, 10⟩ = 0 := by decide
    have untouched : ¬ FrameHeader.Touches ⟨9, false, 0xFFFFFFF6, 10⟩ := by simp [FrameHeader.Touches]
    rcases framePass_inside (by decide) (by decide) ping (by decide) (absurd · untouched) with
      ⟨close, _⟩ | ⟨_, negative, _⟩ | ⟨_, _, take⟩
    · exact absurd close (by decide)
    · omega
    · rwa [zero] at take
  obtain ⟨out, stays⟩ := stays
  refine ⟨⟨rfl, rfl⟩, rfl, ⟨⟨by decide, by decide⟩, fun _ _ => trivial⟩, fault, ?_,
    ⟨⟨by decide, by decide⟩, fun _ _ => trivial⟩, loop_stuck stays, ?_⟩
  · intro safe
    exact (safe.1 ⟨rfl, rfl⟩).inBounds _ .start fault
  · intro safe
    exact (safe.1 ⟨rfl, rfl⟩).terminates (loop_stuck stays _)

end GrblhalSim
