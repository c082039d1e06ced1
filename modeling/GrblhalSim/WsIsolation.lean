import GrblhalSim.CallRun
import GrblhalSim.WsTransmit

namespace GrblhalSim

open CallRun

inductive WsEvent
  | getchar (accepted : Option (Nat × Bool)) (received : RecvResult)
  | putchar (data : UInt8)
  | toggleTxMuted
  | kickClient

def Ws.accepts (s : Ws) (accepted : Option (Nat × Bool)) : Bool :=
  s.clientFd.isNone && accepted.any (·.2)

/-- What `recv` returns ends the session: a close frame, a disconnect or an error. -/
def Ws.endsSession (s : Ws) (received : RecvResult) : Bool :=
  s.clientFd.isSome && s.wsHandshakeDone && decide (s.rawBuf.length < rawBufSize) &&
    match received with
    | .data bytes =>
      match processRawBuffer (s.rawBuf ++ bytes) with
      | some (_, .halted) => true
      | _ => false
    | .eof | .error => true
    | .wouldBlock => false

/-- The server with the bytes passed to `ws_putchar` and the payload bytes sent since the last
client was accepted. The output is `stale` from a session's end in the middle of a line until the
output is muted. -/
structure Session where
  ws : Ws
  put : List UInt8
  sent : List UInt8
  stale : Bool

def Session.init : Session := ⟨Ws.init, [], [], false⟩

def sentPayload : List Send → List UInt8
  | [_, payload] => payload.buf
  | _ => []

def sessionStep (x : Session) : WsEvent → Except NoReturn Session
  | .getchar accepted received => do
    let ((_, ws), _) ← x.ws.wsGetchar accepted received
    let stale :=
      if (x.ws.wsAccept accepted).endsSession received then !x.ws.txBuf.isEmpty else x.stale
    .ok (if x.ws.accepts accepted then ⟨ws, [], [], stale⟩ else ⟨ws, x.put, x.sent, stale⟩)
  | .putchar data =>
    let result := x.ws.wsPutchar data
    .ok ⟨result.1, x.put ++ [data], x.sent ++ sentPayload result.2, x.stale⟩
  | .toggleTxMuted =>
    let result := x.ws.wsToggleTxMuted
    .ok ⟨result.2, x.put, x.sent, x.stale && !result.1⟩
  | .kickClient =>
    let result := x.ws.wsKickClient
    .ok ⟨result.2, x.put, x.sent, x.stale && !result.1⟩

/-- What was sent to the client was passed to `ws_putchar` after the client was accepted. -/
def Isolated (x : Session) : Prop := x.sent.Sublist x.put

def WsEvent.accepts (x : Session) : WsEvent → Prop
  | .getchar accepted _ => x.ws.accepts accepted
  | _ => False

def AcceptsClean (x : Session) (e : WsEvent) : Prop := e.accepts x → x.ws.txBuf = []

def NotStale (x : Session) (e : WsEvent) : Prop := e.accepts x → x.stale = false

theorem wsAccept_eq (s : Ws) (accepted : Option (Nat × Bool)) :
    (s.accepts accepted = false ∧ s.wsAccept accepted = s) ∨
      (s.accepts accepted = true ∧ ∃ fd, s.wsAccept accepted =
        { s with clientFd := some fd, wsHandshakeDone := true, rawBuf := [] }) := by
  unfold Ws.wsAccept Ws.accepts
  cases s.clientFd with
  | some fd => exact Or.inl ⟨rfl, rfl⟩
  | none =>
    match accepted with
    | none => exact Or.inl ⟨rfl, rfl⟩
    | some (fd, false) => exact Or.inl ⟨rfl, rfl⟩
    | some (fd, true) => exact Or.inr ⟨rfl, fd, rfl⟩

/-- A read leaves the transmit side alone and closes the connection only where the session ends. -/
theorem wsReceive_frame {s s' : Ws} {received : RecvResult} {out : List WsOut}
    (h : s.wsReceive received = .ok (s', out)) :
    s'.txBuf = s.txBuf ∧ s'.wsTxMuted = s.wsTxMuted ∧
      s'.clientFd = if s.endsSession received then none else s.clientFd := by
  unfold Ws.wsReceive at h
  unfold Ws.endsSession
  split at h
  next connected =>
    unfold Ws.processIncoming at h
    split at h
    next full =>
      cases h
      have closed : ¬ s.rawBuf.length < rawBufSize := by omega
      simp [closed]
    next space =>
      have room : s.rawBuf.length < rawBufSize := by omega
      rw [connected, decide_eq_true room]
      cases received with
      | data bytes =>
        simp only at h ⊢
        split at h
        next => cases h
        next => cases h
        next halted => cases h; simp [halted, Ws.sockClose, Ws.rxPushAll]
        next waiting => cases h; simp [waiting, Ws.rxPushAll]
      | eof => cases h; simp [Ws.sockClose]
      | wouldBlock => cases h; simp
      | error => cases h; simp [Ws.sockClose]
  next closed =>
    cases h
    simp [closed]

theorem wsAccept_txBuf (s : Ws) (accepted : Option (Nat × Bool)) :
    (s.wsAccept accepted).txBuf = s.txBuf := by
  rcases wsAccept_eq s accepted with ⟨_, same⟩ | ⟨_, fd, taken⟩
  · rw [same]
  · rw [taken]

/-- A call of `ws_getchar` changes `client_fd` only, as far as the transmit side can tell. -/
theorem wsGetchar_frame {s s' : Ws} {accepted : Option (Nat × Bool)} {received : RecvResult}
    {c : UInt8} {out : List WsOut} (h : s.wsGetchar accepted received = .ok ((c, s'), out)) :
    s'.txBuf = s.txBuf ∧ s'.clientFd =
      if (s.wsAccept accepted).endsSession received then none
      else (s.wsAccept accepted).clientFd := by
  unfold Ws.wsGetchar at h
  cases read : (s.wsAccept accepted).wsReceive received with
  | error stop =>
    rw [read] at h
    cases h
  | ok result =>
    obtain ⟨ws, more⟩ := result
    rw [read] at h
    have pop : ws.rxPop = (c, s') := congrArg Prod.fst (Except.ok.inj h)
    have state : s' = ws.rxPop.2 := by rw [pop]
    obtain ⟨tx, _, fd⟩ := wsReceive_frame read
    rw [state, ws.rxPop_txBuf, ws.rxPop_clientFd, tx, fd, wsAccept_txBuf]
    exact ⟨rfl, rfl⟩

/-- The output is stale exactly when a line is pending while no client is connected. -/
def StaleKnown (x : Session) : Prop :=
  x.ws.clientFd = none → (x.stale = true ↔ x.ws.txBuf ≠ [])

/-- What is sent and what is pending for a client was passed to `ws_putchar` for it. -/
def Clean (x : Session) : Prop :=
  x.sent.Sublist x.put ∧ (x.ws.clientFd ≠ none → (x.sent ++ x.ws.txBuf).Sublist x.put)

theorem sessionStep_getchar {x x' : Session} {accepted : Option (Nat × Bool)}
    {received : RecvResult} (h : sessionStep x (.getchar accepted received) = .ok x') :
    x'.ws.txBuf = x.ws.txBuf ∧
      (x'.ws.clientFd = if (x.ws.wsAccept accepted).endsSession received then none
        else (x.ws.wsAccept accepted).clientFd) ∧
      (x'.stale = if (x.ws.wsAccept accepted).endsSession received then !x.ws.txBuf.isEmpty
        else x.stale) ∧
      (x'.put = if x.ws.accepts accepted then [] else x.put) ∧
      (x'.sent = if x.ws.accepts accepted then [] else x.sent) := by
  cases read : x.ws.wsGetchar accepted received with
  | error stop =>
    rw [sessionStep, read] at h
    cases h
  | ok result =>
    obtain ⟨⟨c, ws⟩, out⟩ := result
    obtain ⟨tx, fd⟩ := wsGetchar_frame read
    rw [sessionStep, read] at h
    have same := Except.ok.inj h
    split at same
    next accepts => subst same; simp [tx, fd, accepts]
    next stays => subst same; simp [tx, fd, stays]

theorem wsPutchar_closed {s : Ws} (h : s.clientFd = none) (data : UInt8) :
    s.wsPutchar data = (s, []) := by
  simp [Ws.wsPutchar, h]

theorem staleKnown_step {x x' : Session} {e : WsEvent} (known : StaleKnown x)
    (h : sessionStep x e = .ok x') : StaleKnown x' := by
  intro closed
  cases e with
  | getchar accepted received =>
    obtain ⟨tx, fd, stale, _, _⟩ := sessionStep_getchar h
    rw [tx, stale]
    split
    next => simp
    next goesOn =>
      rw [fd, if_neg goesOn] at closed
      rcases wsAccept_eq x.ws accepted with ⟨_, same⟩ | ⟨_, _, taken⟩
      · exact known (same ▸ closed)
      · simp [taken] at closed
  | putchar data =>
    obtain rfl := Except.ok.inj h
    by_cases none : x.ws.clientFd = none
    · rw [wsPutchar_closed none]
      exact known none
    · rcases wsPutchar_cases x.ws data with ⟨_, hp⟩ | ⟨_, _, hp⟩ | ⟨_, _, _, hp⟩ | ⟨_, _, _, hp⟩ <;>
        exact absurd (by simpa [hp] using closed) none
  | toggleTxMuted =>
    obtain rfl := Except.ok.inj h
    cases muted : x.ws.wsTxMuted <;> simp_all [Ws.wsToggleTxMuted, StaleKnown]
  | kickClient =>
    obtain rfl := Except.ok.inj h
    cases fd : x.ws.clientFd <;> simp_all [Ws.wsKickClient, Ws.sockClose, StaleKnown]

theorem clean_getchar {x x' : Session} {accepted : Option (Nat × Bool)} {received : RecvResult}
    (clean : Clean x) (accepts : AcceptsClean x (.getchar accepted received))
    (h : sessionStep x (.getchar accepted received) = .ok x') : Clean x' := by
  obtain ⟨sent, pending⟩ := clean
  obtain ⟨tx, fd, _, hput, hsent⟩ := sessionStep_getchar h
  rcases wsAccept_eq x.ws accepted with ⟨no, same⟩ | ⟨yes, _⟩
  · simp only [no, Bool.false_eq_true, if_false] at hput hsent
    refine ⟨by rw [hput, hsent]; exact sent, fun stays => ?_⟩
    rw [hput, hsent, tx]
    apply pending
    intro none
    rw [fd, same, none, ite_self] at stays
    exact stays rfl
  · have empty : x.ws.txBuf = [] := accepts yes
    simp only [yes, if_true] at hput hsent
    refine ⟨by rw [hput, hsent], fun _ => by rw [hput, hsent, tx, empty]; exact .slnil⟩

theorem clean_putchar {x x' : Session} {data : UInt8} (clean : Clean x)
    (h : sessionStep x (.putchar data) = .ok x') : Clean x' := by
  obtain ⟨sent, pending⟩ := clean
  obtain rfl := Except.ok.inj h
  have grown : x.put.Sublist (x.put ++ [data]) := List.sublist_append_left x.put [data]
  have line : x.ws.Connected → (x.sent ++ x.ws.txBuf ++ [data]).Sublist (x.put ++ [data]) := by
    intro hc
    have opened : x.ws.clientFd ≠ none := fun none => by simp [Ws.Connected, none] at hc
    exact (pending opened).append_right [data]
  rcases wsPutchar_cases x.ws data with ⟨_, hp⟩ | ⟨_, _, hp⟩ | ⟨hc, _, _, hp⟩ | ⟨hc, _, _, hp⟩
  · simp only [hp, sentPayload, List.append_nil, Clean]
    exact ⟨sent.trans grown, fun stays => (pending stays).trans grown⟩
  · simp only [hp, sentPayload, List.append_nil, Clean]
    exact ⟨sent.trans grown, fun _ => sent.trans grown⟩
  · simp only [hp, sentPayload, List.append_nil, Clean]
    exact ⟨sent.trans grown, fun _ => by rw [← List.append_assoc]; exact line hc⟩
  · obtain ⟨fd, hs⟩ := wsSendFrame_connected hc (x.ws.txBuf ++ [data])
    have whole := line hc
    rw [List.append_assoc] at whole
    simp only [hp, hs, sentPayload, List.append_nil, Clean]
    exact ⟨whole, fun _ => whole⟩

theorem clean_step {x x' : Session} {e : WsEvent} (clean : Clean x) (accepts : AcceptsClean x e)
    (h : sessionStep x e = .ok x') : Clean x' := by
  cases e with
  | getchar accepted received => exact clean_getchar clean accepts h
  | putchar data => exact clean_putchar clean h
  | toggleTxMuted =>
    obtain rfl := Except.ok.inj h
    refine ⟨clean.1, fun stays => ?_⟩
    cases muted : x.ws.wsTxMuted with
    | true =>
      have connected : x.ws.clientFd ≠ none := by simpa [Ws.wsToggleTxMuted, muted] using stays
      simpa [Ws.wsToggleTxMuted, muted] using clean.2 connected
    | false => simpa [Ws.wsToggleTxMuted, muted] using clean.1
  | kickClient =>
    obtain rfl := Except.ok.inj h
    refine ⟨clean.1, fun stays => ?_⟩
    cases fd : x.ws.clientFd with
    | none => simp [Ws.wsKickClient, fd] at stays
    | some _ => simp [Ws.wsKickClient, Ws.sockClose, fd] at stays

theorem acceptsClean_iff {x : Session} {e : WsEvent} (known : StaleKnown x) :
    AcceptsClean x e ↔ NotStale x e := by
  apply imp_congr_right
  intro accepts
  have closed : x.ws.clientFd = none := by
    cases e with
    | getchar accepted received =>
      have both : x.ws.accepts accepted = true := accepts
      simp [Ws.accepts] at both
      exact both.1
    | putchar data => exact accepts.elim
    | toggleTxMuted => exact accepts.elim
    | kickClient => exact accepts.elim
  have agree := known closed
  cases stale : x.stale <;> simp_all

/-- In a run of any calls, output goes only to the client it was put for, and a new client finds
nothing pending, exactly as long as no client is accepted while the output is stale. -/
theorem sessions_isolated_iff (events : List WsEvent) :
    (EachState sessionStep Isolated Session.init events ∧
        EachCall sessionStep AcceptsClean Session.init events) ↔
      EachCall sessionStep NotStale Session.init events := by
  have known : StaleKnown Session.init := fun _ => by simp [Session.init, Ws.init]
  have clean : Clean Session.init := ⟨.slnil, fun h => absurd rfl h⟩
  have agree : EachCall sessionStep AcceptsClean Session.init events ↔
      EachCall sessionStep NotStale Session.init events :=
    eachCall_iff (fun _ _ _ known _ h => staleKnown_step known h)
      (fun _ _ known _ => acceptsClean_iff known) known (eachCall_all (fun _ _ => trivial) _ _)
  constructor
  · exact fun isolated => agree.mp isolated.2
  · intro fresh
    have accepts := agree.mpr fresh
    refine ⟨?_, accepts⟩
    have kept := eachState_of_inv (fun _ _ _ clean accepts h => clean_step clean accepts h) clean
      accepts
    exact kept.mono fun _ clean => clean.1

/-- A client disconnects in the middle of a line, and another one connects. -/
def handover : List WsEvent :=
  [.getchar (some (4, true)) .wouldBlock, .putchar 0x78, .getchar none .eof,
    .getchar (some (5, true)) .wouldBlock, .putchar 0x0a]

theorem second_client_gets_line :
    (∃ x, run sessionStep Session.init handover = .ok x ∧ x.put = [0x0a] ∧ x.sent = [0x78, 0x0a]) ∧
      ¬ EachState sessionStep Isolated Session.init handover ∧
      ¬ EachCall sessionStep AcceptsClean Session.init handover := by
  refine ⟨⟨_, rfl, rfl, rfl⟩, ?_, ?_⟩
  · intro isolated
    have last := isolated.last rfl
    exact absurd last.length_le (by decide)
  · intro clean
    have third := (((clean.2 _ rfl).2 _ rfl).2 _ rfl).1 rfl
    cases third

end GrblhalSim
