import GrblhalSim.CheckedStore
import GrblhalSim.WsAccept
import GrblhalSim.WsHandshake

namespace GrblhalSim

open CheckedStore ReadUntil

def acceptB64Size : Nat := 64

def responseSize : Nat := 512

/-- The arrays of `do_handshake` behind `buf`, with whatever the stack holds there. -/
structure HandshakeBuffers where
  acceptInput : Vector UInt8 acceptInputSize
  acceptB64 : Vector UInt8 acceptB64Size
  response : Vector UInt8 responseSize

/-- The loop that reads the request, with `hlen` bytes of it in `buf`: what it leaves there, `hlen`
and the bytes that are not read, unless `recv` fails. -/
def receiveRequest (buf : Vector UInt8 handshakeBufSize) (hlen : Nat) :
    List UInt8 → Except NoReturn (Option (Vector UInt8 handshakeBufSize × Nat × List UInt8))
  | [] => if hlen < handshakeBufSize - 1 then .ok none else .ok (some (buf, hlen, []))
  | c :: stream =>
    if hlen < handshakeBufSize - 1 then
      (write .undefined buf hlen c).bind fun buf =>
        if 4 ≤ hlen + 1 ∧ (buf.toList.drop (hlen + 1 - 4)).take 4 = headEnd then
          .ok (some (buf, hlen + 1, stream))
        else receiveRequest buf (hlen + 1) stream
    else .ok (some (buf, hlen, c :: stream))

def responseText (accept : List UInt8) : List UInt8 :=
  ascii "HTTP/1.1 101 Switching Protocols\r\nUpgrade: websocket\r\nConnection: Upgrade\r\n" ++
    ascii "Sec-WebSocket-Accept: " ++ accept ++ headEnd

/-- The part of `do_handshake` behind the search for the key: what it sends. -/
def answerKey (b : HandshakeBuffers) (key : List UInt8) : Except NoReturn (List UInt8) := do
  let acceptInput ← store .undefined b.acceptInput 0 key
  let acceptInput ← store .undefined acceptInput key.length (wsMagic ++ [0])
  let sha := sha1 (cString acceptInput.toList)
  let acceptB64 ← store .undefined b.acceptB64 0 (base64Encode sha ++ [0])
  let text := responseText (cString acceptB64.toList)
  let response ← store .undefined b.response 0 (text.take (responseSize - 1) ++ [0])
  .ok (cString response.toList)

/-- `do_handshake` with its writes to the four arrays: what it sends before it returns true, `none`
where it returns false, and the bytes that are not read. -/
def doHandshakeIn (b : HandshakeBuffers) (stream : List UInt8) :
    Except NoReturn (Option (List UInt8) × List UInt8) :=
  (receiveRequest (Vector.replicate handshakeBufSize 0) 0 stream).bind fun received =>
    match received with
    | none => .ok (none, [])
    | some (buf, hlen, unread) =>
      if hlen < 10 then .ok (none, unread)
      else
        match requestKey buf.toList with
        | none => .ok (none, unread)
        | some key => (answerKey b key).map fun sent => (some sent, unread)

/-- A request that the read loop admits: the bytes up to the first end of a head, or as many as
there is room for. -/
inductive Admitted (stream request : List UInt8) : Prop
  | head (first : FirstEnd headEnd stream request) (fits : request.length ≤ handshakeBufSize - 1)
  | full (front : request <+: stream) (full : request.length = handshakeBufSize - 1)
      (fresh : ∀ p, p <+: request → ¬ headEnd <:+ p)

/-- The text between the first `Sec-WebSocket-Key: ` of the request and the next end of a line. -/
def KeyLine (request key : List UInt8) : Prop :=
  ∃ front rest, cString request = front ++ rest ∧ FirstEnd keyHeader (cString request) front ∧
    FirstEnd crlf rest (key ++ crlf)

/-- The key of each request that the read loop admits has at most 91 bytes. -/
def ShortKey (stream : List UInt8) : Prop :=
  ∀ request key, Admitted stream request → KeyLine request key → key.length ≤ 91

theorem strstr_cases (needle text : List UInt8) :
    (strstr needle text = none ∧ ∀ p, p <+: text → ¬ needle <:+ p) ∨
      ∃ front tail, strstr needle text = some tail ∧ text = front ++ tail ∧
        FirstEnd needle text (front ++ needle) := by
  induction text with
  | nil =>
    by_cases h : needle = []
    · exact Or.inr ⟨[], [], by simp [strstr, h], rfl, by simp [h], by simp, by simp [h]⟩
    · refine Or.inl ⟨by simp [strstr, h], fun p hp hn => ?_⟩
      rw [List.prefix_nil.mp hp] at hn
      exact h (List.suffix_nil.mp hn)
  | cons c cs ih =>
    rw [strstr]
    by_cases h : needle <+: c :: cs
    · rw [if_pos h]
      exact Or.inr ⟨[], c :: cs, rfl, rfl, h, List.suffix_rfl, fun p _ hn => hn.length_le⟩
    · rw [if_neg h]
      have later : ∀ p, p <+: c :: cs → needle <:+ p → ∃ q, p = c :: q ∧ q <+: cs ∧ needle <:+ q := by
        intro p hp hn
        rcases List.prefix_cons_iff.mp hp with rfl | ⟨q, rfl, hq⟩
        · rw [List.suffix_nil.mp hn] at h
          exact absurd List.nil_prefix h
        · rcases List.suffix_cons_iff.mp hn with rfl | hs
          · exact absurd hp h
          · exact ⟨q, rfl, hq, hs⟩
      rcases ih with ⟨none, absent⟩ | ⟨front, tail, found, rfl, first⟩
      · refine Or.inl ⟨none, fun p hp hn => ?_⟩
        obtain ⟨q, -, hq, hs⟩ := later p hp hn
        exact absent q hq hs
      · refine Or.inr ⟨c :: front, tail, found, rfl, ?_, ?_, fun p hp hn => ?_⟩
        · exact (List.prefix_cons_inj c).mpr first.isPrefix
        · exact first.ends.trans (List.suffix_cons c _)
        · obtain ⟨q, rfl, hq, hs⟩ := later p hp hn
          have := first.shortest q hq hs
          simpa using this

theorem strstr_eq_some_iff {needle text tail : List UInt8} :
    strstr needle text = some tail ↔
      ∃ front, text = front ++ tail ∧ FirstEnd needle text (front ++ needle) := by
  rcases strstr_cases needle text with ⟨none, absent⟩ | ⟨front, tail', found, split, first⟩
  · rw [none]
    refine iff_of_false (by simp) ?_
    rintro ⟨front, -, first⟩
    exact absent _ first.isPrefix first.ends
  · rw [found, Option.some.injEq]
    constructor
    · rintro rfl
      exact ⟨front, split, first⟩
    · rintro ⟨front', split', first'⟩
      have same := List.append_cancel_right (first.unique first')
      exact List.append_cancel_left (split.symm.trans (same ▸ split'))

theorem requestKey_iff (request key : List UInt8) :
    requestKey request = some key ↔ KeyLine request key := by
  constructor
  · intro h
    obtain ⟨tail, start, h⟩ := Option.bind_eq_some_iff.mp h
    obtain ⟨stop, finish, h⟩ := Option.bind_eq_some_iff.mp h
    obtain ⟨front, split, first⟩ := strstr_eq_some_iff.mp start
    have header := first.isPrefix
    rw [split, List.prefix_append_right_inj] at header
    obtain ⟨rest, rfl⟩ := header
    rw [List.drop_left] at finish h
    obtain ⟨text, cut, last⟩ := strstr_eq_some_iff.mp finish
    have same : text = key := by
      rw [← Option.some.inj h, cut, List.length_append, Nat.add_sub_cancel, List.take_left]
    exact ⟨front ++ keyHeader, rest, by rw [split, List.append_assoc], first, same ▸ last⟩
  · rintro ⟨front, rest, split, first, last⟩
    obtain ⟨before, rfl⟩ := first.ends
    obtain ⟨more, cut⟩ := last.isPrefix
    rw [List.append_assoc] at split
    have start : strstr keyHeader (cString request) = some (keyHeader ++ rest) :=
      strstr_eq_some_iff.mpr ⟨before, split, first⟩
    have finish : strstr crlf rest = some (crlf ++ more) :=
      strstr_eq_some_iff.mpr ⟨key, by rw [← cut, List.append_assoc], last⟩
    have text : rest = key ++ (crlf ++ more) := by rw [← cut, List.append_assoc]
    simp only [requestKey, start, List.drop_left, finish, bind, Option.bind]
    rw [text, List.length_append, Nat.add_sub_cancel, List.take_left]

def HoldsText (buf : Vector UInt8 handshakeBufSize) (text : List UInt8) : Prop :=
  buf.toList = text ++ List.replicate (handshakeBufSize - text.length) 0

theorem HoldsText.write {buf : Vector UInt8 handshakeBufSize} {text : List UInt8}
    (holds : HoldsText buf text) (room : text.length < handshakeBufSize) (c : UInt8) :
    HoldsText (buf.set text.length c room) (text ++ [c]) := by
  obtain ⟨more, hm⟩ : ∃ more, handshakeBufSize - text.length = more + 1 :=
    ⟨handshakeBufSize - text.length - 1, by omega⟩
  have len : (text ++ [c]).length = text.length + 1 := List.length_append
  have left : handshakeBufSize - (text.length + 1) = more := by omega
  rw [HoldsText, Vector.toList_set, holds, len, hm, left, List.set_append_right _ _ le_rfl,
    Nat.sub_self, List.replicate_succ, List.set_cons_zero, List.append_assoc]
  rfl

theorem HoldsText.ends_iff {buf : Vector UInt8 handshakeBufSize} {text : List UInt8}
    (holds : HoldsText buf text) :
    (4 ≤ text.length ∧ (buf.toList.drop (text.length - 4)).take 4 = headEnd) ↔
      headEnd <:+ text := by
  have size : headEnd.length = 4 := rfl
  rw [List.suffix_iff_eq_drop, size, holds, List.drop_append_of_le_length (by omega)]
  constructor
  · rintro ⟨long, same⟩
    rw [List.take_append_of_le_length (by rw [List.length_drop]; omega), List.take_of_length_le
      (by rw [List.length_drop]; omega)] at same
    exact same.symm
  · intro same
    have long := congrArg List.length same
    rw [size, List.length_drop] at long
    rw [List.take_append_of_le_length (by rw [← same, size]), ← same]
    exact ⟨by omega, rfl⟩

theorem receiveRequest_eq {buf : Vector UInt8 handshakeBufSize} {text : List UInt8}
    (holds : HoldsText buf text) (stream : List UInt8) :
    (readUntil headEnd (handshakeBufSize - 1) text stream = none ∧
        receiveRequest buf text.length stream = .ok none) ∨
      ∃ request unread buf',
        readUntil headEnd (handshakeBufSize - 1) text stream = some (request, unread) ∧
        receiveRequest buf text.length stream = .ok (some (buf', request.length, unread)) ∧
        HoldsText buf' request := by
  induction stream generalizing buf text with
  | nil =>
    by_cases more : text.length < handshakeBufSize - 1
    · exact Or.inl ⟨by rw [readUntil, if_pos more], by rw [receiveRequest, if_pos more]⟩
    · exact Or.inr ⟨text, [], buf, by rw [readUntil, if_neg more],
        by rw [receiveRequest, if_neg more], holds⟩
  | cons c stream ih =>
    by_cases more : text.length < handshakeBufSize - 1
    · have room : text.length < handshakeBufSize := by omega
      have next := holds.write room c
      have len : (text ++ [c]).length = text.length + 1 := List.length_append
      have step : receiveRequest buf text.length (c :: stream) =
          if headEnd <:+ text ++ [c] then
            .ok (some (buf.set text.length c room, text.length + 1, stream))
          else receiveRequest (buf.set text.length c room) (text.length + 1) stream := by
        rw [receiveRequest, if_pos more, write_fits _ buf c room]
        exact ite_congr (propext (len ▸ next.ends_iff)) (fun _ => rfl) (fun _ => rfl)
      rw [readUntil, if_pos more, step]
      split
      next ends => exact Or.inr ⟨_, _, _, rfl, by rw [len], next⟩
      next => exact len ▸ ih next
    · exact Or.inr ⟨text, c :: stream, buf, by rw [readUntil, if_neg more],
        by rw [receiveRequest, if_neg more], holds⟩

def keyResponse (key : List UInt8) : List UInt8 :=
  responseText (base64Encode (sha1 (key ++ wsMagic)))

theorem length_wsMagic : wsMagic.length = 36 := by decide +kernel

theorem fitsAcceptInput_iff (key : List UInt8) : FitsAcceptInput key ↔ key.length ≤ 91 := by
  have size : acceptInputSize = 128 := rfl
  rw [FitsAcceptInput, length_wsMagic]
  omega

theorem noNul_append {a b : List UInt8} (ha : 0 ∉ a) (hb : 0 ∉ b) : 0 ∉ a ++ b := by
  rw [List.mem_append, not_or]
  exact ⟨ha, hb⟩

theorem responseText_noNul {accept : List UInt8} (h : 0 ∉ accept) : 0 ∉ responseText accept :=
  noNul_append (noNul_append (noNul_append (by decide +kernel) (by decide +kernel)) h) (by decide)

theorem length_responseText (accept : List UInt8) :
    (responseText accept).length = accept.length + 101 := by
  have front : (ascii
      "HTTP/1.1 101 Switching Protocols\r\nUpgrade: websocket\r\nConnection: Upgrade\r\n").length =
        75 := by
    decide +kernel
  have header : (ascii "Sec-WebSocket-Accept: ").length = 22 := by decide +kernel
  have last : headEnd.length = 4 := rfl
  simp only [responseText, List.length_append, front, header, last]
  omega

theorem store_string {n : Nat} (buf : Vector UInt8 n) {text : List UInt8} (noNul : 0 ∉ text)
    (fits : text.length + 1 ≤ n) :
    ∃ buf', store NoReturn.undefined buf 0 (text ++ [0]) = .ok buf' ∧ cString buf'.toList = text := by
  obtain ⟨buf', stored, content⟩ := store_fits NoReturn.undefined buf 0 (text ++ [0])
    (by rw [List.length_append, List.length_singleton]; omega)
  refine ⟨buf', stored, ?_⟩
  rw [content, List.take_zero, List.nil_append, List.append_assoc]
  exact cString_terminated noNul _

theorem answerKey_fits (b : HandshakeBuffers) {key : List UInt8} (noNul : 0 ∉ key)
    (fits : FitsAcceptInput key) : answerKey b key = .ok (keyResponse key) := by
  have room : key.length + (wsMagic ++ [0]).length ≤ acceptInputSize := by
    rw [List.length_append, List.length_singleton]
    exact fits
  obtain ⟨copied, hcopied, front⟩ := store_fits NoReturn.undefined b.acceptInput 0 key
    (by omega)
  obtain ⟨input, hinput, whole⟩ := store_fits NoReturn.undefined copied key.length
    (wsMagic ++ [0]) room
  have text : cString input.toList = key ++ wsMagic := by
    have kept : copied.toList.take key.length = key := by
      rw [front, List.take_zero, List.nil_append, List.take_left]
    rw [whole, kept, ← List.append_assoc, List.append_assoc (key ++ wsMagic)]
    exact cString_terminated (noNul_append noNul (by decide +kernel)) _
  have digits := base64Encode_noNul (sha1 (key ++ wsMagic))
  have length : (base64Encode (sha1 (key ++ wsMagic))).length = 28 := by
    rw [length_base64Encode, length_sha1]
  have long : (keyResponse key).length = 129 := by
    rw [keyResponse, length_responseText, length]
  obtain ⟨accept, haccept, hdigits⟩ :=
    store_string b.acceptB64 digits (by rw [length]; decide)
  obtain ⟨response, hresponse, hsent⟩ :=
    store_string b.response (responseText_noNul digits)
      (show (keyResponse key).length + 1 ≤ responseSize by rw [long]; decide)
  have uncut : (keyResponse key).take (responseSize - 1) = keyResponse key :=
    List.take_of_length_le (by rw [long]; decide)
  have sent : responseText (base64Encode (sha1 (key ++ wsMagic))) = keyResponse key := rfl
  rw [sent] at hresponse hsent
  simp only [answerKey, bind, Except.bind, hcopied, hinput, text, haccept, hdigits, sent, uncut,
    hresponse, hsent]

theorem answerKey_overruns (b : HandshakeBuffers) {key : List UInt8}
    (long : ¬ FitsAcceptInput key) : answerKey b key = .error .undefined := by
  by_cases room : key.length ≤ acceptInputSize
  · obtain ⟨copied, hcopied, -⟩ := store_fits NoReturn.undefined b.acceptInput 0 key (by omega)
    have past : acceptInputSize < key.length + (wsMagic ++ [0]).length := by
      rw [List.length_append, List.length_singleton]
      exact Nat.lt_of_not_le long
    have overrun := store_overruns NoReturn.undefined copied key.length
      (wsMagic ++ [0]) (by simp) past
    simp only [answerKey, bind, Except.bind, hcopied, overrun]
  · have overrun := store_overruns NoReturn.undefined b.acceptInput 0 key
      (by rintro rfl; simp at room) (by omega)
    simp only [answerKey, bind, Except.bind, overrun]

theorem requestKey_noNul {request key : List UInt8} (h : requestKey request = some key) :
    0 ∉ key := by
  obtain ⟨front, rest, split, -, last⟩ := (requestKey_iff request key).mp h
  intro nul
  have inside : 0 ∈ cString request := by
    rw [split]
    exact List.mem_append_right _ (last.isPrefix.subset (List.mem_append_left _ nul))
  exact cString_noNul request inside

/-- What the handshake over the arrays is, where the one without them ends in `h`. -/
def Handshake.result : Handshake → Except NoReturn (Option (List UInt8))
  | .failed => .ok none
  | .overrun => .error .undefined
  | .done key => .ok (some (keyResponse key))

/-- The handshake over its arrays does what `doHandshake` says, whatever the arrays held. -/
theorem doHandshakeIn_eq (b : HandshakeBuffers) (stream : List UInt8) :
    doHandshakeIn b stream =
      (doHandshake stream).1.result.map fun sent => (sent, (doHandshake stream).2) := by
  have empty : HoldsText (Vector.replicate handshakeBufSize 0) [] := Vector.toList_replicate
  rcases receiveRequest_eq empty stream with
    ⟨none, received⟩ | ⟨request, unread, buf, read, received, holds⟩
  · rw [List.length_nil] at received
    simp only [doHandshakeIn, received, doHandshake, none]
    rfl
  · rw [List.length_nil] at received
    have text : cString buf.toList = cString request := by
      rw [holds]
      exact cString_append_zeros request _
    have sameKey : requestKey buf.toList = requestKey request := by
      rw [requestKey, requestKey, text]
    simp only [doHandshakeIn, received, doHandshake, read, sameKey, Except.bind]
    split
    next => rfl
    next =>
      cases found : requestKey request with
      | none => rfl
      | some key =>
        by_cases fits : FitsAcceptInput key
        · simp only [answerKey_fits b (requestKey_noNul found) fits, if_pos fits]
          rfl
        · simp only [answerKey_overruns b fits, if_neg fits]
          rfl

theorem readUntil_iff_admitted {stream request : List UInt8} :
    (∃ unread, readUntil headEnd (handshakeBufSize - 1) [] stream = some (request, unread)) ↔
      Admitted stream request := by
  rcases readRequest_cases stream with ⟨none, short⟩ | ⟨buf, unread, read, split, how⟩
  · have absent := readUntil_none none headEnd_fresh
    rw [none]
    refine iff_of_false (by simp) fun admitted => ?_
    cases admitted with
    | head first _ => exact absent _ first.isPrefix first.ends
    | full front full _ =>
      have := front.length_le
      omega
  · have inside : buf <+: stream := ⟨unread, split⟩
    rw [read]
    constructor
    · rintro ⟨_, h⟩
      cases h
      rcases how with ⟨first, fits⟩ | ⟨-, full, fresh⟩
      · exact .head first fits
      · exact .full inside full fresh
    · intro admitted
      suffices request = buf from ⟨unread, by rw [this]⟩
      rcases how with ⟨first, fits⟩ | ⟨-, full, fresh⟩
      · cases admitted with
        | head first' _ => exact first'.unique first
        | full front full fresh =>
          have early := List.prefix_of_prefix_length_le inside front (by omega)
          exact absurd first.ends (fresh _ early)
      · cases admitted with
        | head first fits =>
          have early := List.prefix_of_prefix_length_le first.isPrefix inside (by omega)
          exact absurd first.ends (fresh _ early)
        | full front full' _ =>
          exact (List.prefix_of_prefix_length_le front inside (by omega)).eq_of_length (by omega)

theorem KeyLine.long {request key : List UInt8} (h : KeyLine request key) : 10 ≤ request.length := by
  obtain ⟨front, rest, split, first, -⟩ := h
  have header : keyHeader.length = 19 := by decide +kernel
  have := first.ends.length_le
  have := first.isPrefix.length_le
  have : (cString request).length ≤ request.length := (List.takeWhile_prefix _).length_le
  omega

theorem doHandshake_overrun_iff (stream : List UInt8) :
    (doHandshake stream).1 = .overrun ↔
      ∃ request key, Admitted stream request ∧ KeyLine request key ∧ ¬ key.length ≤ 91 := by
  simp only [← readUntil_iff_admitted, ← requestKey_iff, ← fitsAcceptInput_iff]
  constructor
  · intro h
    unfold doHandshake at h
    split at h
    next => cases h
    next buf unread read =>
      split at h
      next => cases h
      next =>
        split at h
        next => cases h
        next key found =>
          split at h
          next => cases h
          next long => exact ⟨buf, key, ⟨unread, read⟩, found, long⟩
  · rintro ⟨request, key, ⟨unread, read⟩, found, long⟩
    have enough := ((requestKey_iff request key).mp found).long
    simp only [doHandshake, read, if_neg (show ¬ request.length < 10 by omega), found, if_neg long]

theorem Handshake.result_ok_iff (h : Handshake) : (∃ sent, h.result = .ok sent) ↔ h ≠ .overrun := by
  cases h with
  | failed => exact iff_of_true ⟨_, rfl⟩ (by decide)
  | overrun => exact iff_of_false (by simp [Handshake.result]) (by decide)
  | done key => exact iff_of_true ⟨_, rfl⟩ Handshake.noConfusion

/-- The handshake stays inside its arrays exactly when the key of the request is short. -/
theorem handshake_in_bounds_iff (b : HandshakeBuffers) (stream : List UInt8) :
    (∃ result, doHandshakeIn b stream = .ok result) ↔ ShortKey stream := by
  have returns : (∃ result, doHandshakeIn b stream = .ok result) ↔
      ∃ sent, (doHandshake stream).1.result = .ok sent := by
    rw [doHandshakeIn_eq]
    cases (doHandshake stream).1.result with
    | error => simp [Except.map]
    | ok sent => simp [Except.map]
  rw [returns, Handshake.result_ok_iff, Ne, doHandshake_overrun_iff]
  simp only [ShortKey, not_exists, not_and, not_not]

def longKeyRequest : List UInt8 := keyHeader ++ List.replicate 92 0x41 ++ headEnd

theorem long_key_overruns :
    ¬ ∃ result, doHandshakeIn ⟨.replicate _ 0, .replicate _ 0, .replicate _ 0⟩ longKeyRequest =
      .ok result := by
  have overrun : doHandshake longKeyRequest = (.overrun, []) := by decide +kernel
  rw [doHandshakeIn_eq, overrun]
  rintro ⟨_, h⟩
  cases h

end GrblhalSim
