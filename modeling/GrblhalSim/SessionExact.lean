import GrblhalSim.SimSession
import GrblhalSim.WsTransmit

namespace GrblhalSim

open CallRun RingQueue Rfc6455 StreamParser

variable {tx rx : Nat}

def pongFrame : Frame := ⟨true, .pong, none, []⟩

def pongsOf (frames : List Frame) : List Frame := frames.filter fun f => f.opcode = .pong

/-- The payloads of the text frames, in order. -/
def textOf (frames : List Frame) : List UInt8 :=
  (frames.filter fun f => f.opcode = .text).flatMap fun f => f.payload

/-- What was sent is `frames`, a text frame or a pong each, and with the pending line they hold the
bytes from the UART. -/
structure ClientWorld.Framed (w : ClientWorld) (frames : List Frame) : Prop where
  connected : w.world.ws.Connected
  unmuted : w.world.ws.wsTxMuted = false
  pending : w.world.ws.txBuf.length < wsTxBufSize - 1
  wire : w.sends.flatten = frames.flatMap Frame.encodeMin
  kinds : ∀ f ∈ frames, f = pongFrame ∨ f = textFrame f.payload ∧ f.payload.length < wsTxBufSize
  text : textOf frames ++ w.world.ws.txBuf = w.line.sent

theorem textOf_append (as bs : List Frame) : textOf (as ++ bs) = textOf as ++ textOf bs := by
  simp [textOf]

theorem ClientWorld.Framed.putchar {w : ClientWorld} {frames : List Frame}
    (framed : w.Framed frames) (c : UInt8) :
    ∃ more, (w.putchar c).Framed (frames ++ more) ∧ pongsOf more = [] := by
  obtain ⟨connected, unmuted, pending, wire, kinds, text⟩ := framed
  have size : wsTxBufSize = 512 := rfl
  rcases wsPutchar_cases w.world.ws c with ⟨closed, _⟩ | ⟨_, mute, _⟩ | ⟨_, _, stays, hp⟩ |
    ⟨_, _, _, hp⟩
  · exact absurd connected closed
  · rw [unmuted] at mute
    cases mute
  · have room : (w.world.ws.txBuf ++ [c]).length < wsTxBufSize - 1 := by
      by_contra! full
      exact stays (Or.inr (Or.inr full))
    refine ⟨[], ?_, rfl⟩
    rw [List.append_nil]
    simp only [ClientWorld.putchar, hp]
    refine ⟨connected, unmuted, room, ?_, kinds, ?_⟩
    · simpa using wire
    · rw [← text, List.append_assoc]
  · have length : (w.world.ws.txBuf ++ [c]).length = w.world.ws.txBuf.length + 1 := by simp
    have small : (w.world.ws.txBuf ++ [c]).length < 2 ^ 31 := by omega
    have frame := wsSendFrame_given connected small
    refine ⟨[textFrame (w.world.ws.txBuf ++ [c])], ?_, rfl⟩
    simp only [ClientWorld.putchar, hp]
    refine ⟨connected, unmuted, by simp [size], ?_, ?_, ?_⟩
    · rw [List.flatten_append, ← List.flatMap_def, List.flatMap_append, ← wire,
        List.flatMap_singleton, frame]
    · intro f hf
      rcases List.mem_append.mp hf with old | new
      · exact kinds f old
      · right
        rw [List.mem_singleton.mp new]
        exact ⟨rfl, by simp only [textFrame]; omega⟩
    · rw [textOf_append, ← text]
      simp [textOf, textFrame]

theorem ClientWorld.Framed.puts {w : ClientWorld} {frames : List Frame} (framed : w.Framed frames)
    (i : LoopInput) (bytes : List UInt8) :
    ∃ more, (bytes.foldl (fun w c => (clientSim i).putchar c w) w).Framed (frames ++ more) ∧
      pongsOf more = [] := by
  induction bytes generalizing w frames with
  | nil => exact ⟨[], by rwa [List.append_nil], rfl⟩
  | cons c bytes ih =>
    obtain ⟨first, framed', none⟩ := framed.putchar c
    obtain ⟨more, framed'', none'⟩ := ih framed'
    refine ⟨first ++ more, by rwa [← List.append_assoc], ?_⟩
    rw [pongsOf, List.filter_append]
    exact List.append_eq_nil_iff.mpr ⟨none, none'⟩

/-- What is sent between two bytes of output changes nothing but the pending line. -/
theorem puts_frame (i : LoopInput) (bytes : List UInt8) (w : ClientWorld) :
    ∃ txBuf sent sends, bytes.foldl (fun w c => (clientSim i).putchar c w) w =
      { w with
        world := { w.world with ws := { w.world.ws with txBuf := txBuf } }
        line := { w.line with sent := sent }
        sends := sends } := by
  induction bytes generalizing w with
  | nil => exact ⟨w.world.ws.txBuf, w.line.sent, w.sends, rfl⟩
  | cons c bytes ih =>
    have first : ∃ txBuf, (w.world.ws.wsPutchar c).1 = { w.world.ws with txBuf := txBuf } := by
      unfold Ws.wsPutchar
      split
      next => exact ⟨w.world.ws.txBuf, rfl⟩
      next =>
        split
        next => exact ⟨[], rfl⟩
        next =>
          simp only
          split
          next => exact ⟨[], rfl⟩
          next => exact ⟨w.world.ws.txBuf ++ [c], rfl⟩
    obtain ⟨txBuf, put⟩ := first
    obtain ⟨txBuf', sent, sends, h⟩ := ih (w.putchar c)
    refine ⟨txBuf', sent, sends, ?_⟩
    rw [List.foldl_cons]
    refine h.trans ?_
    simp only [ClientWorld.putchar, put]

def ClientWorld.delivery (w : ClientWorld) : Delivery :=
  ⟨w.world.ws, w.unread, w.taken.map Prod.fst⟩

/-- What the client and the keyboard do while the client stays connected and unmuted, and the ring of
the server has room for what arrives; grblHAL discards no input. -/
structure Ordinary (c : ClientStream) (x : SimSession tx rx) (i : LoopInput) : Prop where
  keeps : ∀ call ∈ i.calls, (SerialEvent.core call).discards = false
  unmuted : stdinCommand i.stdin ≠ some .toggleTxMuted
  unkicked : stdinCommand i.stdin ≠ some .kickClient
  arrives : i.received = .wouldBlock ∨
    ∃ bytes, i.received = .data bytes ∧ Arrives x.client.delivery (.data bytes)
  room : RingHolds c.frames x.client.delivery i.received

/-- The frames `done` have reached the server, and `sent` the client. -/
structure ClientInv (c : ClientStream) (w : ClientWorld) (done rest : List WireFrame)
    (sent : List Frame) : Prop where
  kept : w.line.kept = keptBytes w.taken
  delivering : Delivering c w.delivery done rest
  taken : w.taken.map Prod.fst ++ w.world.ws.rx.toList = dataPayload done
  framed : w.Framed sent
  pongs : (pongsOf sent).length = (pingsOf done).length

structure SimSession.Inv (c : ClientStream) (x : SimSession tx rx) (done rest : List WireFrame)
    (sent : List Frame) : Prop where
  receives : RxInv x.port
  transmits : TxInv x.port
  client : ClientInv c x.client done rest sent

theorem cores_keep (large : 1 < 2 ^ rx) {x : SimSession tx rx} {calls : List CoreCall}
    (keeps : ∀ call ∈ calls, (SerialEvent.core call).discards = false)
    (receives : RxInv x.port) (transmits : TxInv x.port) :
    RxInv (calls.foldl SimSession.core x).port ∧ TxInv (calls.foldl SimSession.core x).port ∧
      (calls.foldl SimSession.core x).client = x.client := by
  induction calls generalizing x with
  | nil => exact ⟨receives, transmits, rfl⟩
  | cons call calls ih =>
    have client : (x.core call).client = x.client := by
      have keep := keeps call List.mem_cons_self
      cases call with
      | putC c blocking => rfl
      | getC => rfl
      | rxFlush => cases keep
      | rxCancel => cases keep
    have rxPort : RxInv (x.core call).port := (receives.core large call).1
    have txPort : TxInv (x.core call).port := by
      obtain ⟨port, step, inv⟩ := transmits.step (.core call)
      cases step
      exact inv
    obtain ⟨rxLast, txLast, last⟩ :=
      ih (fun call hc => keeps call (List.mem_cons_of_mem _ hc)) rxPort txPort
    exact ⟨rxLast, txLast, last.trans client⟩

/-- The frames `now` are read, and the connection stays as it is. -/
structure Read (s : Ws) (unread : List UInt8) (received : RecvResult) (now later : List WireFrame)
    (ws : Ws) : Prop where
  read : s.wsReceive received = .ok (ws, now.flatMap fun f => handled f.toFrame)
  left : ws.rawBuf ++ unread.drop received.bytes.length = later.flatMap WireFrame.encode
  connected : ws.Connected
  muted : ws.wsTxMuted = s.wsTxMuted
  txBuf : ws.txBuf = s.txBuf

theorem receive_read {c : ClientStream} {d : Delivery} {done rest : List WireFrame}
    (hd : Delivering c d done rest) (still : c.close = none) (connected : d.ws.Connected)
    {received : RecvResult} (arrives : received = .wouldBlock ∨
      ∃ bytes, received = .data bytes ∧ Arrives d (.data bytes)) :
    ∃ now later ws, rest = now ++ later ∧ Read d.ws d.unread received now later ws := by
  have frames := hd.frames_left still
  rcases arrives with rfl | ⟨bytes, rfl, nonempty, fit, unread, hu⟩
  · refine ⟨[], rest, d.ws, rfl, ?_, frames, connected, rfl, rfl⟩
    have read : d.ws.wsReceive .wouldBlock = d.ws.processIncoming .wouldBlock := by
      rw [Ws.wsReceive, connected.1, connected.2, Bool.and_self, if_pos rfl]
    rw [read, Ws.processIncoming, ite_self]
    rfl
  · have stream : d.ws.rawBuf ++ (bytes ++ unread) = (c.after hd.split).bytes := by
      rw [hu, hd.left]
    obtain ⟨out, ending, parsed, received⟩ :=
      receive_parsed (c.after hd.split) connected nonempty fit stream
    cases parsed with
    | @waiting now later kept split left wait =>
      refine ⟨now, later, _, split, received, ?_, connected, rfl, rfl⟩
      have tail : kept ++ unread = later.flatMap WireFrame.encode := by
        simpa [ClientStream.bytes, ClientStream.tail, ClientStream.after, still] using left
      rw [← tail, RecvResult.bytes, ← hu, List.drop_left]
      rfl
    | halted closed all => simp [ClientStream.after, still] at closed

theorem sentChunks_pongs (now : List WireFrame) :
    (sentChunks (now.flatMap fun f => handled f.toFrame)).flatten =
      ((pingsOf now).map fun _ => pongFrame).flatMap Frame.encodeMin := by
  have pong : pongFrame.encodeMin = pongHeader := by decide
  rw [sentChunks_handled]
  induction pingsOf now with
  | nil => rfl
  | cons f pings ih =>
    rw [List.map_cons, List.map_cons, List.flatten_cons, List.flatMap_cons, ih, pong]

theorem textOf_pongs (pings : List WireFrame) : textOf (pings.map fun _ => pongFrame) = [] := by
  induction pings with
  | nil => rfl
  | cons f pings ih =>
    rw [List.map_cons, textOf, List.filter_cons, if_neg (by decide)]
    exact ih

theorem pongsOf_pongs (pings : List WireFrame) :
    (pongsOf (pings.map fun _ => pongFrame)).length = pings.length := by
  induction pings with
  | nil => rfl
  | cons f pings ih =>
    rw [List.map_cons, pongsOf, List.filter_cons, if_pos (by decide), List.length_cons,
      List.length_cons]
    exact congrArg Nat.succ ih

theorem got_delivery (w : ClientWorld) (i : LoopInput) (b : UInt8) (ws : Ws) (out : List WsOut) :
    (w.got i b ws out).delivery = ⟨ws, w.unread.drop i.received.bytes.length,
      if b = 0 then w.taken.map Prod.fst else w.taken.map Prod.fst ++ [b]⟩ := by
  unfold ClientWorld.got ClientWorld.delivery
  by_cases zero : b = 0
  · simp [zero]
  · simp [zero]

theorem got_kept {w : ClientWorld} (kept : w.line.kept = keptBytes w.taken) (i : LoopInput)
    (b : UInt8) (ws : Ws) (out : List WsOut) :
    (w.got i b ws out).line.kept = keptBytes (w.got i b ws out).taken := by
  unfold ClientWorld.got
  by_cases zero : b = 0
  · simp [zero, kept]
  · cases i.realtime b with
    | true => simp [zero, kept, keptBytes]
    | false => simp [zero, kept, keptBytes]

theorem got_sent (w : ClientWorld) (i : LoopInput) (b : UInt8) (ws : Ws) (out : List WsOut) :
    (w.got i b ws out).line.sent = w.line.sent := by
  unfold ClientWorld.got
  simp only
  split
  next => rfl
  next => rfl

theorem rxPop_muted (s : Ws) : s.rxPop.2.wsTxMuted = s.wsTxMuted := by
  unfold Ws.rxPop
  split
  next => rfl
  next => rfl

theorem getchar_client {c : ClientStream} {w : ClientWorld} {done rest : List WireFrame}
    {sent : List Frame} (still : c.close = none) (nonzero : 0 ∉ dataPayload c.frames)
    (inv : ClientInv c w done rest sent) {i : LoopInput} (arrives : i.received = .wouldBlock ∨
      ∃ bytes, i.received = .data bytes ∧ Arrives w.delivery (.data bytes))
    (room : RingHolds c.frames w.delivery i.received) :
    ∃ b ws out done' rest' sent',
      w.world.ws.wsGetchar i.accepted i.received = .ok ((b, ws), out) ∧
        ClientInv c (w.got i b ws out) done' rest' sent' := by
  have hd := inv.delivering
  obtain ⟨now, later, read, cut, reading⟩ := receive_read hd still inv.framed.connected arrives
  have accept (accepted : Option (Nat × Bool)) : w.world.ws.wsAccept accepted = w.world.ws := by
    obtain ⟨fd, some⟩ := Option.isSome_iff_exists.mp inv.framed.connected.1
    simp only [Ws.wsAccept, some]
  have arrives' : Arrives w.delivery i.received := by
    rcases arrives with blocked | ⟨bytes, data, arrives⟩
    · rw [blocked]
      trivial
    · rwa [data]
  obtain ⟨d', done', rest', call, hd', agree⟩ := getcharCall_step hd still nonzero arrives'
  have got (accepted : Option (Nat × Bool)) : w.world.ws.wsGetchar accepted i.received =
      .ok (read.rxPop, now.flatMap fun f => handled f.toFrame) := by
    rw [Ws.wsGetchar, accept, show w.world.ws.wsReceive i.received = _ from reading.read]
    rfl
  have same : d' = (w.got i read.rxPop.1 read.rxPop.2
      (now.flatMap fun f => handled f.toFrame)).delivery := by
    have plain : w.delivery.ws.wsGetchar none i.received = _ := got none
    rw [getcharCall, plain] at call
    cases call
    rw [got_delivery]
    rfl
  subst same
  have split : done' = done ++ now := by
    have left := hd'.frames_left still
    rw [got_delivery] at left
    have old : c.frames = (done ++ now) ++ later := by rw [hd.split, cut, List.append_assoc]
    rw [show (_ : Ws).rawBuf = _ from Ws.rxPop_rawBuf read] at left
    exact (suffix_unique (hd'.split.symm.trans old) (left.symm.trans reading.left)).1
  have whole := inv.taken
  refine ⟨read.rxPop.1, read.rxPop.2, now.flatMap fun f => handled f.toFrame, done', rest',
    sent ++ (pingsOf now).map fun _ => pongFrame, got _, got_kept inv.kept i _ _ _, hd', ?_, ?_, ?_⟩
  · have before : Undamaged c.frames w.delivery := by
      rw [undamaged_iff hd still, hd.split, dataPayload_append]
      exact congrArg (· ++ dataPayload rest) whole
    have after := (undamaged_iff hd' still).mp ((agree before).mpr room)
    rw [hd'.split, dataPayload_append] at after
    exact List.append_cancel_right after
  · have framed := inv.framed
    refine ⟨(Ws.rxPop_connected read).mpr reading.connected, ?_, ?_, ?_, ?_, ?_⟩
    · exact (rxPop_muted read).trans (reading.muted.trans framed.unmuted)
    · rw [show (w.got i read.rxPop.1 read.rxPop.2 _).world.ws.txBuf = _ from
        (Ws.rxPop_txBuf read).trans reading.txBuf]
      exact framed.pending
    · rw [List.flatMap_append, ← framed.wire, ← sentChunks_pongs, ← List.flatten_append]
      rfl
    · intro f hf
      rcases List.mem_append.mp hf with old | new
      · exact framed.kinds f old
      · obtain ⟨_, _, rfl⟩ := List.mem_map.mp new
        exact .inl rfl
    · rw [textOf_append, textOf_pongs, List.append_nil, got_sent, ← framed.text]
      exact congrArg (textOf sent ++ ·) ((Ws.rxPop_txBuf read).trans reading.txBuf)
  · rw [pongsOf, List.filter_append, List.length_append, split, pingsOf_append, List.length_append]
    exact congrArg₂ (· + ·) inv.pongs (pongsOf_pongs _)

theorem ClientInv.puts {c : ClientStream} {w : ClientWorld} {done rest : List WireFrame}
    {sent : List Frame} (inv : ClientInv c w done rest sent) (i : LoopInput) (bytes : List UInt8) :
    ∃ more, ClientInv c (bytes.foldl (fun w c => (clientSim i).putchar c w) w) done rest
        (sent ++ more) := by
  obtain ⟨more, framed, none⟩ := inv.framed.puts i bytes
  obtain ⟨txBuf, sentBytes, sends, same⟩ := puts_frame i bytes w
  refine ⟨more, ?_⟩
  rw [same] at framed ⊢
  have hd := inv.delivering
  refine ⟨inv.kept, ⟨hd.split, hd.left, hd.wait, hd.connected, hd.nonzero⟩, inv.taken, framed, ?_⟩
  rw [pongsOf, List.filter_append, List.length_append]
  have empty : (more.filter fun f => f.opcode = .pong).length = 0 := by
    rw [show more.filter _ = _ from none]
    rfl
  rw [empty]
  exact inv.pongs

theorem ClientInv.withWorld {c : ClientStream} {w : ClientWorld} {done rest : List WireFrame}
    {sent : List Frame} (inv : ClientInv c w done rest sent) {world : SimWorld}
    (same : world.ws = w.world.ws) : ClientInv c { w with world := world } done rest sent := by
  obtain ⟨kept, delivering, taken, framed, pongs⟩ := inv
  obtain ⟨ws, exit, requests⟩ := world
  subst same
  exact ⟨kept, ⟨delivering.split, delivering.left, delivering.wait, delivering.connected,
    delivering.nonzero⟩, taken, ⟨framed.connected, framed.unmuted, framed.pending, framed.wire,
    framed.kinds, framed.text⟩, pongs⟩

theorem lineSim_maps (i : LoopInput) (b : UInt8) :
    (clientSim i).Maps (lineSim b i.realtime) ClientWorld.line where
  putchar _ _ := rfl
  requestExit _ := rfl

theorem printSteps_ws (w : SimWorld) (belowHoming : Bool) :
    (w.printSteps belowHoming).ws = w.ws := by
  unfold SimWorld.printSteps
  split
  next => rfl
  next => rfl

theorem grblPerByte_ws (w : SimWorld) {c : UInt8} (unmuted : stdinCommand c ≠ some .toggleTxMuted)
    (unkicked : stdinCommand c ≠ some .kickClient) : (w.grblPerByte c).ws = w.ws := by
  unfold SimWorld.grblPerByte
  split
  next command => exact absurd command unmuted
  next command => exact absurd command unkicked
  next => rfl
  next => rfl

/-- A tick of the serial port is one of `Traffic` with the byte that `ws_getchar` returns. -/
theorem SimSession.Inv.tick {c : ClientStream} {x : SimSession tx rx} {done rest : List WireFrame}
    {sent : List Frame} (still : c.close = none) (nonzero : 0 ∉ dataPayload c.frames)
    (inv : x.Inv c done rest sent) {i : LoopInput} (arrives : i.received = .wouldBlock ∨
      ∃ bytes, i.received = .data bytes ∧ Arrives x.client.delivery (.data bytes))
    (room : RingHolds c.frames x.client.delivery i.received) :
    ∃ serial client done' rest' sent',
      x.serial.simulateSerial (clientSim i) i.realtime x.client = .ok (serial, client) ∧
        SimSession.Inv c { x with serial := serial, client := client } done' rest' sent' := by
  have idle : x.serial.Idle := inv.receives.idle
  have enabled : x.serial.TxEnabled := inv.receives.enabled
  obtain ⟨s', sentAll, _⟩ := simulateTx_step idle enabled (clientSim i) i.realtime x.client
  obtain ⟨more, putInv⟩ := inv.client.puts i x.serial.held
  obtain ⟨txBuf, line, sends, frame⟩ := puts_frame i x.serial.held x.client
  generalize hw : x.serial.held.foldl (fun w c => (clientSim i).putchar c w) x.client = w
    at sentAll putInv frame
  have arrivesLater : i.received = .wouldBlock ∨
      ∃ bytes, i.received = .data bytes ∧ Arrives w.delivery (.data bytes) := by
    rw [frame]
    exact arrives
  have roomLater : RingHolds c.frames w.delivery i.received := by
    rw [frame]
    exact room
  obtain ⟨b, ws, out, done', rest', sent', got, gotInv⟩ :=
    getchar_client still nonzero putInv arrivesLater roomLater
  have mine : (clientSim i).getchar (x.serial.simulateTx (clientSim i) i.realtime x.client).2 =
      .ok (b, w.got i b ws out) := by
    rw [sentAll]
    simp only [clientSim, got, bind, Except.bind]
  have others : (lineSim b i.realtime).getchar
      (x.serial.simulateTx (clientSim i) i.realtime x.client).2.line =
        .ok (b, (w.got i b ws out).line) := by
    rw [sentAll]
    rfl
  obtain ⟨serial, client, ran, line, which⟩ :=
    simulateSerial_maps_ok (lineSim_maps i b) i.realtime idle.booted mine others
  have port : trafficStep x.port (.simulate b i.realtime) =
      .ok { x.port with serial := serial, line := client.line } := by
    rw [trafficStep, show x.port.serial.simulateSerial _ _ x.port.line = _ from line]
    rfl
  obtain ⟨rxPort, rxStep, rxInv, _⟩ := inv.receives.simulate b i.realtime
  obtain ⟨txPort, txStep, txInv⟩ := inv.transmits.step (.simulate b i.realtime)
  cases rxStep.symm.trans port
  cases txStep.symm.trans port
  rw [sentAll] at which
  rcases which with rfl | rfl | rfl
  · exact ⟨serial, _, done, rest, _, ran, rxInv, txInv, putInv⟩
  · exact ⟨serial, _, _, _, _, ran, rxInv, txInv, gotInv⟩
  · exact ⟨serial, _, _, _, _, ran, rxInv, txInv, gotInv.withWorld rfl⟩

theorem SimSession.Inv.pass {c : ClientStream} {x : SimSession tx rx} {done rest : List WireFrame}
    {sent : List Frame} (large : 1 < 2 ^ rx) (still : c.close = none)
    (nonzero : 0 ∉ dataPayload c.frames) (inv : x.Inv c done rest sent) {i : LoopInput}
    (ordinary : Ordinary c x i) :
    ∃ x' done' rest' sent', sessionPass x i = .ok x' ∧ x'.Inv c done' rest' sent' := by
  obtain ⟨receives, transmits, client⟩ := cores_keep large ordinary.keeps inv.receives inv.transmits
  have cores : (i.calls.foldl SimSession.core x).Inv c done rest sent :=
    ⟨receives, transmits, client ▸ inv.client⟩
  unfold sessionPass
  simp only
  split
  next =>
    obtain ⟨serial, last, done', rest', sent', ran, inv'⟩ :=
      cores.tick still nonzero (client ▸ ordinary.arrives) (client ▸ ordinary.room)
    rw [ran]
    refine ⟨_, done', rest', sent', rfl, inv'.receives, inv'.transmits, ?_⟩
    refine inv'.client.withWorld ?_
    rw [grblPerByte_ws _ ordinary.unmuted ordinary.unkicked, printSteps_ws]
  next =>
    exact ⟨_, done, rest, sent, rfl, receives, transmits,
      cores.client.withWorld (printSteps_ws _ _)⟩

theorem ClientWorld.Accepted.gets {w : ClientWorld} {ks : List Nat} (accepted : w.Accepted ks) :
    w.gets ks = w.sends.flatten := by
  unfold ClientWorld.Accepted at accepted
  unfold ClientWorld.gets
  generalize w.sends = sends at accepted ⊢
  induction accepted with
  | nil => rfl
  | cons whole _ ih =>
    rw [List.zipWith_cons_cons, List.flatten_cons, List.flatten_cons, List.take_of_length_le whole, ih]

/-- The client has sent `frames`, of which `done` have been read, and has been sent `sent`, which it
gets if `send` accepts all that it is given. Every byte is in one place: what is under way is in
`raw_buf`, in the rings, in the UART or in the pending line. -/
structure SimSession.Exact (frames : List WireFrame) (x : SimSession tx rx) (done rest : List WireFrame)
    (sent : List Frame) : Prop where
  split : frames = done ++ rest
  unread : x.client.world.ws.rawBuf ++ x.client.unread = rest.flatMap WireFrame.encode
  taken : x.client.taken.map Prod.fst ++ x.client.world.ws.rx.toList = dataPayload done
  returned : keptBytes x.client.taken = x.returned ++ x.serial.rxbuffer.toList
  noOverflow : x.serial.overflow = false
  wire : ∀ ks, x.client.Accepted ks → decodeStream (x.client.gets ks) = some sent
  kinds : ∀ f ∈ sent, f = pongFrame ∨ f = textFrame f.payload
  text : x.accepted =
    textOf sent ++ x.client.world.ws.txBuf ++ x.serial.held ++ x.serial.txbuffer.toList
  pongs : (pongsOf sent).length = (pingsOf done).length

theorem SimSession.Inv.exact {c : ClientStream} {x : SimSession tx rx} {done rest : List WireFrame}
    {sent : List Frame} (still : c.close = none) (inv : x.Inv c done rest sent) :
    x.Exact c.frames done rest sent where
  split := inv.client.delivering.split
  unread := inv.client.delivering.frames_left still
  taken := inv.client.taken
  returned := inv.client.kept.symm.trans inv.receives.delivered
  noOverflow := inv.receives.noOverflow
  wire ks accepted := by
    rw [accepted.gets, inv.client.framed.wire]
    refine decodeStream_encodeMin fun f hf => ?_
    have size : wsTxBufSize = 512 := rfl
    rcases inv.client.framed.kinds f hf with rfl | ⟨_, small⟩
    · decide
    · omega
  kinds f hf := (inv.client.framed.kinds f hf).imp id And.left
  text := by
    rw [inv.client.framed.text]
    exact inv.transmits.delivered
  pongs := inv.client.pongs

/-- The client is connected, and nothing has gone through the serial port yet. -/
def SimSession.start (world : SimWorld) (bytes : List UInt8) : SimSession tx rx :=
  ⟨Serial.serialInit, ⟨world, ⟨[], []⟩, bytes, [], []⟩, [], []⟩

structure SimWorld.Fresh (world : SimWorld) : Prop where
  connected : world.ws.Connected
  unmuted : world.ws.wsTxMuted = false
  rx : world.ws.rx.toList = []
  rawBuf : world.ws.rawBuf = []
  txBuf : world.ws.txBuf = []

theorem session_start_inv {c : ClientStream} {world : SimWorld} (fresh : world.Fresh) :
    (SimSession.start world c.bytes : SimSession tx rx).Inv c [] c.frames [] where
  receives := start_rxInv
  transmits := start_txInv
  client := by
    have hd := delivering_start (c := c) fresh.connected fresh.rawBuf fresh.rx
    refine ⟨rfl, ⟨hd.split, hd.left, hd.wait, hd.connected, hd.nonzero⟩, fresh.rx, ?_, rfl⟩
    refine ⟨fresh.connected, fresh.unmuted, ?_, rfl, by simp, fresh.txBuf⟩
    rw [show (SimSession.start world c.bytes : SimSession tx rx).client.world.ws.txBuf = _ from
      fresh.txBuf]
    decide

/-- From the client's frames to `serialGetC` and from `serialPutC` to the frames that the client
is sent nothing is lost, repeated or moved, in every run in which the client stays connected and
unmuted and the ring of the server holds what arrives. -/
theorem session_exact {c : ClientStream} {world : SimWorld} (large : 1 < 2 ^ rx)
    (still : c.close = none) (nonzero : 0 ∉ dataPayload c.frames) (fresh : world.Fresh)
    {inputs : List LoopInput} (ordinary : EachCall sessionPass (Ordinary c)
      (SimSession.start world c.bytes : SimSession tx rx) inputs) :
    (∃ x, run sessionPass (SimSession.start world c.bytes : SimSession tx rx) inputs = .ok x ∧
      run Simulator.loopPass ⟨Serial.serialInit, world⟩ inputs = .ok x.erase) ∧
    EachState sessionPass (fun x => ∃ done rest sent, x.Exact c.frames done rest sent)
      (SimSession.start world c.bytes : SimSession tx rx) inputs := by
  have start : ∃ done rest sent,
      (SimSession.start world c.bytes : SimSession tx rx).Inv c done rest sent :=
    ⟨_, _, _, session_start_inv fresh⟩
  have pass (x : SimSession tx rx) (i : LoopInput) (inv : ∃ done rest sent, x.Inv c done rest sent)
      (ordinary : Ordinary c x i) :
      ∃ x', sessionPass x i = .ok x' ∧ ∃ done rest sent, x'.Inv c done rest sent := by
    obtain ⟨done, rest, sent, inv⟩ := inv
    obtain ⟨x', done', rest', sent', passed, inv'⟩ := inv.pass large still nonzero ordinary
    exact ⟨x', passed, done', rest', sent', inv'⟩
  constructor
  · obtain ⟨x, ran, _⟩ := run_ok pass start ordinary
    exact ⟨x, ran, sessionRun_erase ran⟩
  · have kept (x : SimSession tx rx) (i : LoopInput) (x' : SimSession tx rx)
        (inv : ∃ done rest sent, x.Inv c done rest sent) (ordinary : Ordinary c x i)
        (passed : sessionPass x i = .ok x') : ∃ done rest sent, x'.Inv c done rest sent := by
      obtain ⟨next, passed', inv'⟩ := pass x i inv ordinary
      cases passed.symm.trans passed'
      exact inv'
    have states := eachState_of_inv kept start ordinary
    exact states.mono fun x ⟨done, rest, sent, inv⟩ => ⟨done, rest, sent, inv.exact still⟩

/-- grblHAL prints a line while a status query arrives. -/
def queryPass : LoopInput where
  calls := [.putC 0x6F false, .putC 0x0A false, .getC]
  readSerial := true
  accepted := none
  received := .data statusStream.bytes
  realtime := fun c => c == 0x3F
  belowHoming := false
  stdin := 0

theorem queryPass_ordinary :
    Ordinary statusStream (SimSession.start ⟨freshClient, .no, 0⟩ statusStream.bytes : SimSession 7 7)
      queryPass where
  keeps := by simp [queryPass, SerialEvent.discards]
  unmuted := by simp [queryPass, stdinCommand]
  unkicked := by simp [queryPass, stdinCommand]
  arrives := .inr ⟨statusStream.bytes, rfl, by decide, by decide, List.prefix_rfl⟩
  room done now later split _ _ := by
    have whole := congrArg (fun frames => (dataPayload frames).length) split
    simp only [dataPayload_append, List.length_append] at whole
    have total : (dataPayload statusStream.frames).length = 2 := rfl
    have idle : (SimSession.start ⟨freshClient, .no, 0⟩ statusStream.bytes :
      SimSession 7 7).client.delivery.ws.rx.count = 0 := rfl
    have size : wsRxBufSize = 4096 := rfl
    omega

theorem session_exact_query :
    (∃ x, run sessionPass (SimSession.start ⟨freshClient, .no, 0⟩ statusStream.bytes : SimSession 7 7)
        [queryPass] = .ok x ∧
      run Simulator.loopPass ⟨Serial.serialInit, ⟨freshClient, .no, 0⟩⟩ [queryPass] =
        .ok x.erase) ∧
    EachState sessionPass (fun x => ∃ done rest sent, x.Exact statusStream.frames done rest sent)
      (SimSession.start ⟨freshClient, .no, 0⟩ statusStream.bytes : SimSession 7 7) [queryPass] :=
  session_exact (by decide) rfl (by decide)
    ⟨⟨rfl, rfl⟩, rfl, Ring.toList_empty 0, rfl, rfl⟩ ⟨queryPass_ordinary, fun _ _ => trivial⟩

end GrblhalSim
