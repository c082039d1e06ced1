import GrblhalSim.CString
import GrblhalSim.ReadUntil
import GrblhalSim.WsServer

namespace GrblhalSim

open ReadUntil

/-- The haystack from the first occurrence of the needle on. -/
def strstr (needle : List UInt8) : List UInt8 → Option (List UInt8)
  | [] => if needle = [] then some [] else none
  | c :: cs => if needle <+: c :: cs then some (c :: cs) else strstr needle cs

def crlf : List UInt8 := [13, 10]

def headEnd : List UInt8 := crlf ++ crlf

/-- The size of `buf`; the last byte of it stays zero. -/
def handshakeBufSize : Nat := 2048

def acceptInputSize : Nat := 128

def wsMagic : List UInt8 := ascii "258EAFA5-E914-47DA-95CA-C5AB0DC85B11"

def keyHeader : List UInt8 := ascii "Sec-WebSocket-Key: "

/-- The text between `key_start` and `key_end`, where both are found. -/
def requestKey (buf : List UInt8) : Option (List UInt8) := do
  let keyStart ← strstr keyHeader (cString buf)
  let keyStart := keyStart.drop keyHeader.length
  let keyEnd ← strstr crlf keyStart
  some (keyStart.take (keyStart.length - keyEnd.length))

def FitsAcceptInput (key : List UInt8) : Prop := key.length + wsMagic.length + 1 ≤ acceptInputSize

instance (key : List UInt8) : Decidable (FitsAcceptInput key) :=
  inferInstanceAs (Decidable (_ ≤ _))

/-- How `do_handshake` ends: it returns false, it writes past `accept_input`, or it answers the
key and returns true. -/
inductive Handshake
  | failed
  | overrun
  | done (key : List UInt8)
  deriving DecidableEq

/-- `do_handshake`, with the bytes that it leaves unread. `recv` gives it one byte at a time, until
it fails, times out or finds the connection closed at the end of the stream. -/
def doHandshake (stream : List UInt8) : Handshake × List UInt8 :=
  match readUntil headEnd (handshakeBufSize - 1) [] stream with
  | none => (.failed, [])
  | some (buf, unread) =>
    if buf.length < 10 then (.failed, unread)
    else
      match requestKey buf with
      | none => (.failed, unread)
      | some key => if FitsAcceptInput key then (.done key, unread) else (.overrun, unread)

/-- The accept in `ws_getchar` of a client that sends `stream`. -/
def Ws.connect (s : Ws) (fd : Nat) (stream : List UInt8) : Except NoReturn (Ws × List UInt8) :=
  match doHandshake stream with
  | (.failed, unread) => .ok (s.wsAccept (some (fd, false)), unread)
  | (.overrun, _) => .error .undefined
  | (.done _, unread) => .ok (s.wsAccept (some (fd, true)), unread)

/-- A handshake that succeeds takes the request head, so that the client's frames begin with the
first byte behind it. -/
def TakesHead (stream : List UInt8) : Prop :=
  ∀ key unread, doHandshake stream = (.done key, unread) →
    ∃ head, FirstEnd headEnd stream head ∧ head ++ unread = stream ∧
      ∀ s fd, s.clientFd = none → ∃ ws, Ws.connect s fd stream = .ok (ws, unread) ∧
        ws.Connected ∧ ws.rawBuf = []

/-- The request head, as far as it matters to `do_handshake`, fits its buffer: the head is there in
time, the stream breaks off, or there is no complete key. -/
inductive HeadFits (stream : List UInt8) : Prop
  | head {head : List UInt8} (first : FirstEnd headEnd stream head)
      (fits : head.length ≤ handshakeBufSize - 1)
  | breaksOff (short : stream.length < handshakeBufSize - 1)
  | noKey (none : requestKey (stream.take (handshakeBufSize - 1)) = none)
  | longKey {key : List UInt8} (found : requestKey (stream.take (handshakeBufSize - 1)) = some key)
      (long : ¬ FitsAcceptInput key)

theorem headEnd_fresh (p : List UInt8) (hp : p <+: []) : ¬ headEnd <:+ p := by
  rw [List.prefix_nil.mp hp]
  decide

theorem readRequest_cases (stream : List UInt8) :
    (readUntil headEnd (handshakeBufSize - 1) [] stream = none ∧
        stream.length < handshakeBufSize - 1) ∨
      ∃ buf unread, readUntil headEnd (handshakeBufSize - 1) [] stream = some (buf, unread) ∧
        buf ++ unread = stream ∧
        (FirstEnd headEnd stream buf ∧ buf.length ≤ handshakeBufSize - 1 ∨
          buf = stream.take (handshakeBufSize - 1) ∧ buf.length = handshakeBufSize - 1 ∧
            ∀ p, p <+: buf → ¬ headEnd <:+ p) := by
  rcases readUntil_cases headEnd_fresh (Nat.zero_le _) stream with
    none | ⟨buf, unread, read, split, ended | ⟨full, fresh⟩⟩
  · exact Or.inl none
  · exact Or.inr ⟨buf, unread, read, split, Or.inl ended⟩
  · refine Or.inr ⟨buf, unread, read, split, Or.inr ⟨?_, full, fresh⟩⟩
    have whole : buf ++ unread = stream := split
    rw [← whole, ← full, List.take_left]

theorem connect_done {stream key unread : List UInt8} {s : Ws} (free : s.clientFd = none)
    (fd : Nat) (h : doHandshake stream = (.done key, unread)) :
    ∃ ws, s.connect fd stream = .ok (ws, unread) ∧ ws.Connected ∧ ws.rawBuf = [] := by
  rw [Ws.connect, h]
  refine ⟨_, rfl, ?_, ?_⟩ <;> simp [Ws.wsAccept, free, Ws.Connected]

theorem doHandshake_done {stream key unread : List UInt8}
    (h : doHandshake stream = (.done key, unread)) :
    ∃ buf, readUntil headEnd (handshakeBufSize - 1) [] stream = some (buf, unread) ∧
      requestKey buf = some key ∧ FitsAcceptInput key := by
  unfold doHandshake at h
  split at h
  next => cases h
  next buf rest read =>
    split at h
    next => cases h
    next =>
      split at h
      next => cases h
      next found =>
        split at h
        next fits =>
          cases h
          exact ⟨buf, read, found, fits⟩
        next => cases h

theorem headFits_of_takes {stream : List UInt8} (takes : TakesHead stream) : HeadFits stream := by
  rcases readRequest_cases stream with
    ⟨_, short⟩ | ⟨buf, unread, read, split, ⟨first, fits⟩ | ⟨rfl, full, fresh⟩⟩
  · exact .breaksOff short
  · exact .head first fits
  · cases found : requestKey (stream.take (handshakeBufSize - 1)) with
    | none => exact .noKey found
    | some key =>
      by_cases fits : FitsAcceptInput key
      · have long : ¬ (stream.take (handshakeBufSize - 1)).length < 10 := by
          rw [full]
          decide
        have done : doHandshake stream = (.done key, unread) := by
          simp only [doHandshake, read, if_neg long, found, if_pos fits]
        obtain ⟨head, first, cut, _⟩ := takes key unread done
        have same := List.append_cancel_right (cut.trans split.symm)
        exact absurd first.ends (fresh head (same ▸ List.prefix_rfl))
      · exact .longKey found fits

theorem takesHead_of_fits {stream : List UInt8} (fits : HeadFits stream) : TakesHead stream := by
  intro key unread done
  obtain ⟨buf, read, found, small⟩ := doHandshake_done done
  have accept := fun (s : Ws) (fd : Nat) (free : s.clientFd = none) => connect_done free fd done
  rcases readRequest_cases stream with
    ⟨none, _⟩ | ⟨buf', unread', read', split, ⟨first, _⟩ | ⟨rfl, full, fresh⟩⟩
  · rw [none] at read
    cases read
  · rw [read'] at read
    cases read
    exact ⟨buf, first, split, accept⟩
  · rw [read'] at read
    cases read
    cases fits with
    | @head head first fits =>
      have inside := List.prefix_take_iff.mpr ⟨first.isPrefix, fits⟩
      exact absurd first.ends (fresh head inside)
    | breaksOff short =>
      rw [List.length_take] at full
      omega
    | noKey none =>
      rw [none] at found
      cases found
    | longKey found' long =>
      rw [found'] at found
      cases found
      exact absurd small long

/-- The frames of a client begin behind the request head exactly when the head fits the buffer. -/
theorem doHandshake_takes_head_iff (stream : List UInt8) : TakesHead stream ↔ HeadFits stream :=
  ⟨headFits_of_takes, takesHead_of_fits⟩

/-- A request whose key stands in front and whose cookie makes it longer than the buffer. -/
def requestFront : List UInt8 :=
  ascii "GET / HTTP/1.1\r\nSec-WebSocket-Key: dGhlIHNhbXBsZSBub25jZQ==\r\nCookie: "

def longRequest : List UInt8 := requestFront ++ List.replicate 3000 0x61 ++ headEnd

theorem longRequest_front :
    longRequest.take (handshakeBufSize - 1) = requestFront ++ List.replicate 1978 0x61 := by
  have size : requestFront.length = 69 := by decide +kernel
  rw [longRequest, List.append_assoc, List.take_append, size, List.take_of_length_le (by decide),
    List.take_append_of_le_length (by rw [List.length_replicate]; decide), List.take_replicate]
  rfl

theorem requestKey_front (n : Nat) : requestKey (requestFront ++ List.replicate n 0x61) =
    some (ascii "dGhlIHNhbXBsZSBub25jZQ==") := by
  have text : cString (requestFront ++ List.replicate n 0x61) =
      requestFront ++ List.replicate n 0x61 := by
    have nonzero : requestFront.all (· ≠ 0) = true := by decide +kernel
    rw [cString, List.takeWhile_append_of_pos (List.all_eq_true.mp nonzero),
      List.takeWhile_replicate]
    rfl
  have start : strstr keyHeader (requestFront ++ List.replicate n 0x61) =
      some (keyHeader ++ (ascii "dGhlIHNhbXBsZSBub25jZQ==" ++ (ascii "\r\nCookie: " ++
        List.replicate n 0x61))) := rfl
  have stop : ∀ rest,
      strstr crlf (ascii "dGhlIHNhbXBsZSBub25jZQ==" ++ (ascii "\r\nCookie: " ++ rest)) =
        some (ascii "\r\nCookie: " ++ rest) := fun _ => rfl
  simp only [requestKey, text, start, List.drop_left, bind, Option.bind, stop,
    List.length_append, Nat.add_sub_cancel, List.take_left]

theorem doHandshake_cuts_head : ¬ TakesHead longRequest := by
  intro takes
  have found := longRequest_front ▸ requestKey_front 1978
  rcases headFits_of_takes takes with ⟨first, fits⟩ | short | none | ⟨found', long⟩
  · have inside := List.prefix_take_iff.mpr ⟨first.isPrefix, fits⟩
    rw [longRequest_front] at inside
    have early := prefix_before_replicate (by decide) (by decide) inside first.ends
    have none : ∀ p ∈ requestFront.inits, ¬ headEnd <:+ p := by decide +kernel
    exact none _ (List.mem_inits _ _ |>.mpr early) first.ends
  · rw [longRequest, List.length_append, List.length_append, List.length_replicate] at short
    have size : handshakeBufSize - 1 = 2047 := rfl
    omega
  · rw [none] at found
    cases found
  · rw [found'] at found
    cases found
    exact long (by decide)

end GrblhalSim
