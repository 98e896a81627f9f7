import S5LBox.Library.Trace
import S5LBox.Net.Sequence

/-!
# The handshake

A flow may enter ESTABLISHED only when the host's connect is done, a SYN-ACK was generated and the
guest acknowledged just that. The code tells the two halves of SYN-RCVD apart by `snd_nxt` and
`snd_una` alone, so an acknowledgement that arrives while they are equal goes through.
-/

namespace S5LBox.Net

def FlowEvent.isSynAck : FlowEvent → Bool
  | .segment flags _ _ _ _ => flags == flagSyn ||| flagAck
  | _ => false

/-- The host is connected and the SYN-ACK was generated. -/
def Answered (history : List FlowEvent) : Prop :=
  .ready ∈ history ∧ ∃ event ∈ history, event.isSynAck

/-- What it takes to enter ESTABLISHED. -/
def EntersProperly (before : List FlowEvent) : FlowEvent → Prop
  | .established ack sndUna =>
    Answered before ∧ ∃ iss irs, before.head? = some (.opened iss irs) ∧
      ack = iss + 1 ∧ sndUna = iss + 1
  | _ => True

/-- Every entry into ESTABLISHED was proper. -/
def HandshakeSafe (history : List FlowEvent) : Prop := Trace.Lawful EntersProperly history

/-- The condition on an acknowledging segment: in SYN-RCVD it finds the SYN-ACK outstanding (or
acknowledges just the SYN, host data being already there), and it acknowledges no host data that
came before the handshake was done. -/
def HandshakeOrder (f : Flow) (seg : Segment) : Prop :=
  f.state = .synRcvd → (f.sndNxt ≠ f.sndUna ∨ (f.txbuf ≠ [] ∧ seg.ack = f.sndUna + 1)) ∧
      ¬(1 < f.reach seg.ack ∧ f.reach seg.ack ≤ f.txbuf.length)

/-- A flow that waits for its handshake. -/
structure Waiting (f : Flow) : Prop where
  opened : ∃ irs, f.history.head? = some (.opened f.sndUna irs)
  next : f.sndNxt = f.sndUna ∨ f.sndNxt = f.sndUna + 1
  answered : f.sndNxt ≠ f.sndUna ∨ f.txbuf ≠ [] → Answered f.history
  noFin : f.finSent = false

structure Handshaken (f : Flow) : Prop where
  safe : HandshakeSafe f.history
  room : f.txbuf.length ≤ netTcpTxbuf
  waiting : f.state = .synRcvd → Waiting f

theorem Answered.append {history : List FlowEvent} (h : Answered history) (event : FlowEvent) :
    Answered (history ++ [event]) := by
  obtain ⟨hready, answer, hmem, hanswer⟩ := h
  exact ⟨List.mem_append_left _ hready, answer, List.mem_append_left _ hmem, hanswer⟩

theorem head?_append {history : List FlowEvent} {first : FlowEvent}
    (h : history.head? = some first) (event : FlowEvent) :
    (history ++ [event]).head? = some first := by
  rw [List.head?_append, h]
  rfl

theorem HandshakeSafe.note {f : Flow} {event : FlowEvent} (h : HandshakeSafe f.history)
    (hevent : EntersProperly f.history event) : HandshakeSafe (f.note event).history :=
  Trace.lawful_append.2 ⟨h, hevent⟩

theorem Waiting.note {f : Flow} (h : Waiting f) (event : FlowEvent) : Waiting (f.note event) := by
  obtain ⟨irs, hopened⟩ := h.opened
  exact ⟨⟨irs, head?_append hopened event⟩, h.next, fun hsent ↦ (h.answered hsent).append event,
    h.noFin⟩

theorem Handshaken.note {f : Flow} (h : Handshaken f) {event : FlowEvent}
    (hevent : EntersProperly f.history event) : Handshaken (f.note event) :=
  ⟨h.safe.note hevent, h.room, fun hstate ↦ (h.waiting hstate).note event⟩

variable {f : Flow}

theorem Handshaken.of_same {f' : Flow} (h : Handshaken f) (hhistory : f'.history = f.history)
    (htxbuf : f'.txbuf = f.txbuf) (hstate : f'.state = f.state) (hnxt : f'.sndNxt = f.sndNxt)
    (huna : f'.sndUna = f.sndUna) (hfin : f'.finSent = f.finSent) : Handshaken f' := by
  refine ⟨?_, ?_, ?_⟩
  · rw [hhistory]
    exact h.safe
  · rw [htxbuf]
    exact h.room
  · intro hsyn
    obtain ⟨hopened, hnext, hanswered, hnoFin⟩ := h.waiting (hstate ▸ hsyn)
    refine ⟨?_, ?_, ?_, ?_⟩
    · rwa [hhistory, huna]
    · rwa [hnxt, huna]
    · rwa [hnxt, huna, htxbuf, hhistory]
    · rwa [hfin]

theorem Handshaken.sent (h : Handshaken f) (flags : Octet) (seq : Word) (data : List Octet)
    (queued : Bool) : Handshaken (f.sent flags seq data queued) :=
  have hsame : Handshaken { f with needAck := f.needAck && !(queued && hasFlag flags flagAck) } :=
    h.of_same rfl rfl rfl rfl rfl rfl
  hsame.note trivial

theorem Handshaken.past {f' : Flow} (h : Handshaken f) (hhistory : f'.history = f.history)
    (hroom : f'.txbuf.length ≤ netTcpTxbuf) (hstate : f'.state ≠ .synRcvd) : Handshaken f' := by
  refine ⟨?_, hroom, fun hsyn ↦ absurd hsyn hstate⟩
  rw [hhistory]
  exact h.safe

theorem outstanding_waiting (h : Waiting f) : f.outstanding ≤ 1 := by
  unfold Flow.outstanding
  rcases h.next with hnext | hnext
  · rw [hnext, sub_self]
    decide
  · rw [hnext, add_sub_cancel_left]
    decide

theorem Handshaken.move {f' : Flow} (h : Handshaken f) (hmove : FlowMove f f') : Handshaken f' := by
  cases hmove with
  | control queued hflags => exact h.sent _ _ _ _
  | timers nowMs =>
    unfold Flow.tcpTimers
    split
    · split
      · exact h
      · exact h.of_same rfl rfl rfl rfl rfl rfl
    · exact h.of_same rfl rfl rfl rfl rfl rfl
  | failed => exact h.note trivial
  | connected queued hstate hpending =>
    have hready : Handshaken (f.note .ready) := h.note trivial
    have hsent := hready.sent (flagSyn ||| flagAck) f.sndNxt [] queued
    refine ⟨hsent.safe, hsent.room, ?_⟩
    intro _
    have hwait' := hsent.waiting hstate
    refine ⟨hwait'.opened, ?_, ?_, hwait'.noFin⟩
    · right
      change f.sndNxt + BitVec.ofNat 32 1 = f.sndUna + 1
      rw [hpending]
      rfl
    · intro _
      refine ⟨?_, _, List.mem_append_right _ (List.mem_singleton_self _), ?_⟩
      · apply List.mem_append_left
        exact List.mem_append_right _ (List.mem_singleton_self _)
      · exact beq_self_eq_true _
  | deliver count =>
    have hsame : Handshaken { f with rxbuf := f.rxbuf.drop count, needAck := true } :=
      h.of_same rfl rfl rfl rfl rfl rfl
    exact hsame.note trivial
  | shutdown => exact h.of_same rfl rfl rfl rfl rfl rfl
  | append hconnected hopen hroom =>
    refine ⟨h.safe.note trivial, ?_, ?_⟩
    · change (f.txbuf ++ _).length ≤ netTcpTxbuf
      rw [List.length_append]
      exact hroom
    · intro hstate
      obtain ⟨⟨irs, hopened⟩, hnext, hanswered, hnoFin⟩ := h.waiting hstate
      refine ⟨⟨irs, head?_append hopened _⟩, hnext, ?_, hnoFin⟩
      intro _
      exact (hanswered (.inl (hconnected hstate))).append _
  | endStream =>
    have hsame : Handshaken { f with hostEof := true } := h.of_same rfl rfl rfl rfl rfl rfl
    exact hsame.note trivial
  | timeOut => exact h.of_same rfl rfl rfl rfl rfl rfl
  | rewind =>
    refine ⟨h.safe, h.room, ?_⟩
    intro hstate
    obtain ⟨hopened, hnext, hanswered, hnoFin⟩ := h.waiting hstate
    refine ⟨hopened, .inl rfl, ?_, hnoFin⟩
    rintro (hsent | hdata)
    · exact absurd rfl hsent
    · exact hanswered (.inr hdata)
  | data count queued hstate hlive hsent hmore =>
    exact (h.sent (flagAck ||| flagPsh) f.sndNxt (f.slice _ count) queued).past rfl h.room hstate
  | commitFin =>
    unfold Flow.commitFin
    split
    case isTrue hcommit =>
      refine h.past rfl h.room ?_
      dsimp only
      split <;> simp
    · exact h
  | fin queued hdue =>
    have hpast : f.state ≠ .synRcvd := by
      intro hstate
      unfold Flow.finDue at hdue
      rw [hstate] at hdue
      simp at hdue
    exact (h.sent (flagAck ||| flagFin) f.sndNxt [] queued).past rfl h.room hpast
  | probe queued hstate hlive hidle hmore =>
    exact (h.sent flagAck f.sndNxt (f.txbuf.take 1) queued).past rfl h.room hstate

theorem finAcked_frame (f : Flow) (nowMs : Word) :
    (f.finAcked nowMs).history = f.history ∧ (f.finAcked nowMs).txbuf = f.txbuf ∧
      (f.finAcked nowMs).sndUna = f.sndUna ∧ (f.finAcked nowMs).sndNxt = f.sndNxt ∧
      (f.finAcked nowMs).finSent = f.finSent ∧
      ((f.finAcked nowMs).state = .synRcvd ↔ f.state = .synRcvd) := by
  unfold Flow.finAcked
  split <;> simp_all

theorem receiveRest_history (f : Flow) (nowMs : Word) (seg : Segment)
    (hestablished : Handshaken (f.establish seg.ack))
    (hstate : (f.establish seg.ack).state ≠ .synRcvd) : Handshaken (f.receiveRest nowMs seg) := by
  have hdata : Handshaken ((f.establish seg.ack).receiveData seg) ∧
      ((f.establish seg.ack).receiveData seg).state ≠ .synRcvd := by
    generalize f.establish seg.ack = g at *
    unfold Flow.receiveData Flow.takePayload
    split
    · split
      · refine ⟨Handshaken.note ?_ trivial, hstate⟩
        exact hestablished.of_same rfl rfl rfl rfl rfl rfl
      · exact ⟨hestablished.of_same rfl rfl rfl rfl rfl rfl, hstate⟩
    · exact ⟨hestablished, hstate⟩
  unfold Flow.receiveRest
  generalize (f.establish seg.ack).receiveData seg = g at *
  obtain ⟨hgood, hpast⟩ := hdata
  unfold Flow.receiveFin
  split
  · split
    · exact hgood.of_same rfl rfl rfl rfl rfl rfl
    split
    · have hsame : Handshaken { g with rcvNxt := g.rcvNxt + 1, needAck := true } :=
        hgood.of_same rfl rfl rfl rfl rfl rfl
      have hnoted := @Handshaken.note _ hsame .finished trivial
      unfold Flow.acceptFin
      dsimp only
      split
      · exact hnoted.past rfl hnoted.room (by simp)
      · exact hnoted.past rfl hnoted.room (by simp)
      · exact hnoted.past rfl hnoted.room (by simp)
      · exact hnoted
    · exact hgood
  · exact hgood

/-- In SYN-RCVD an acknowledgement is accepted or changes nothing but the window. -/
theorem receiveAck_waiting (h : Waiting f) (nowMs : Word) (seg : Segment) :
    f.receiveAck nowMs seg = if f.accepts seg.ack
      then { f with sndWnd := seg.wnd.setWidth 32 }.consumed seg.ack
      else { f with sndWnd := seg.wnd.setWidth 32 } := by
  have hcover : { f with sndWnd := seg.wnd.setWidth 32 }.coversFin seg.ack = false := by
    unfold Flow.coversFin
    rw [h.noFin, Bool.false_and]
  unfold Flow.receiveAck
  rw [Flow.tcpConsumeAck_eq, hcover]
  rfl

theorem receiveAck_frame_of_past (h : Handshaken f) (hstate : f.state ≠ .synRcvd) (nowMs : Word)
    (seg : Segment) :
    Handshaken (f.receiveAck nowMs seg) ∧ (f.receiveAck nowMs seg).state ≠ .synRcvd := by
  have hroom (count : ℕ) : (f.txbuf.drop count).length ≤ netTcpTxbuf := by
    rw [List.length_drop]
    exact (Nat.sub_le _ _).trans h.room
  unfold Flow.receiveAck
  rw [Flow.tcpConsumeAck_eq]
  split
  · split
    · obtain ⟨hhistory, htxbuf, -, -, -, hsyn⟩ := finAcked_frame
        ({ f with sndWnd := seg.wnd.setWidth 32 }.consumed seg.ack) nowMs
      refine ⟨h.past hhistory ?_ ?_, ?_⟩
      · rw [htxbuf]
        exact hroom _
      · exact fun h ↦ hstate (hsyn.1 h)
      · exact fun h ↦ hstate (hsyn.1 h)
    · exact ⟨h.past rfl (hroom _) hstate, hstate⟩
  · exact ⟨h.past rfl h.room hstate, hstate⟩

/-- A waiting flow whose handshake is not done after an acknowledgement still waits. -/
theorem Handshaken.acked (h : Handshaken f) (nowMs : Word) (seg : Segment)
    (hwaits : (f.receiveAck nowMs seg).handshaking = true) :
    Handshaken (f.receiveAck nowMs seg) := by
  by_cases hstate : f.state = .synRcvd
  · have hwait := h.waiting hstate
    rw [receiveAck_waiting hwait] at *
    split
    case isTrue haccepts =>
      -- An accepted number is no earlier than the next one sent, so it ends the handshake.
      rw [if_pos haccepts] at hwaits
      have hnear := outstanding_waiting hwait
      have hreach := (Flow.accepts_iff h.room (by omega) _).1 haccepts
      have hcommitted : f.committed = f.txbuf.length := by
        unfold Flow.committed
        rw [hwait.noFin]
        rfl
      have hroom : f.txbuf.length ≤ 4096 := h.room
      unfold Flow.handshaking at hwaits
      rw [Bool.and_eq_true, netSeqLt_iff] at hwaits
      change _ ∧ 0 < (f.consumed seg.ack).outstanding ∧ _ at hwaits
      rcases hreach with hreach | hreach
      · rw [Flow.consumed_outstanding (by omega) (by omega)] at hwaits
        omega
      · have hsame : f.sndNxt = f.sndUna := by
          have hzero : f.outstanding = 0 := by omega
          rw [← ofNat_sub_toNat f.sndNxt f.sndUna]
          change f.sndUna + BitVec.ofNat 32 f.outstanding = f.sndUna
          rw [hzero]
          exact BitVec.add_zero _
        have hlater := (Bool.and_eq_true_iff.1 haccepts).1
        have hnone : (f.consumed seg.ack).outstanding = 0 := by
          change ((if netSeqLt f.sndNxt seg.ack then seg.ack else f.sndNxt) - seg.ack).toNat = 0
          rw [hsame, if_pos hlater, sub_self]
          rfl
        omega
    · exact h.of_same rfl rfl rfl rfl rfl rfl
  · exact (receiveAck_frame_of_past h hstate nowMs seg).1

theorem Handshaken.establish (h : Handshaken f) (nowMs : Word) {seg : Segment}
    (horder : HandshakeOrder f seg) (hdone : (f.receiveAck nowMs seg).handshaking = false) :
    Handshaken ((f.receiveAck nowMs seg).establish seg.ack) ∧
      ((f.receiveAck nowMs seg).establish seg.ack).state ≠ .synRcvd := by
  by_cases hstate : f.state = .synRcvd
  · have hwait := h.waiting hstate
    obtain ⟨hturn, hdata⟩ := horder hstate
    have hnear := outstanding_waiting hwait
    have hroom : f.txbuf.length ≤ 4096 := h.room
    have hcommitted : f.committed = f.txbuf.length := by
      unfold Flow.committed
      rw [hwait.noFin]
      rfl
    have hnonempty : f.txbuf ≠ [] → 0 < f.txbuf.length := List.length_pos_of_ne_nil
    have hreach : seg.ack = f.sndUna + 1 → f.reach seg.ack = 1 := by
      intro hack
      unfold Flow.reach
      rw [hack, add_sub_cancel_left]
      rfl
    have houtstanding : f.sndNxt ≠ f.sndUna → f.outstanding = 1 := by
      intro hne
      unfold Flow.outstanding
      rw [hwait.next.resolve_left hne, add_sub_cancel_left]
      rfl
    have haccepts := Flow.accepts_iff h.room (by omega) seg.ack
    have haccepted : f.accepts seg.ack = true := by
      by_contra hrejected
      rcases hturn with hne | ⟨hfull, hack⟩
      · have hone := houtstanding hne
        rw [receiveAck_waiting hwait, if_neg hrejected] at hdone
        have hearlier : netSeqLt f.sndUna f.sndNxt = true := by
          rw [netSeqLt_iff]
          change 0 < f.outstanding ∧ f.outstanding ≤ 2 ^ 31
          omega
        unfold Flow.handshaking at hdone
        rw [hstate, hearlier] at hdone
        exact absurd hdone (by decide)
      · have hone := hreach hack
        have hpos := hnonempty hfull
        exact hrejected (haccepts.2 (.inl (by omega)))
    have hone : f.reach seg.ack = 1 := by
      rcases hturn with hne | ⟨_, hack⟩
      · have hout := houtstanding hne
        have hwindow := haccepts.1 haccepted
        omega
      · exact hreach hack
    have hack : seg.ack = f.sndUna + 1 := by
      have hplace := ofNat_sub_toNat seg.ack f.sndUna
      change f.sndUna + BitVec.ofNat 32 (f.reach seg.ack) = seg.ack at hplace
      rw [hone] at hplace
      exact hplace.symm
    have hanswered : Answered f.history := by
      apply hwait.answered
      rcases hturn with hne | ⟨hfull, _⟩
      · exact .inl hne
      · exact .inr hfull
    obtain ⟨irs, hopened⟩ := hwait.opened
    rw [receiveAck_waiting hwait, if_pos haccepted]
    unfold Flow.establish
    rw [if_pos (by simpa [Flow.consumed] using hstate)]
    refine ⟨⟨h.safe.note ⟨hanswered, f.sndUna, irs, hopened, hack, hack⟩, ?_, ?_⟩, by simp [Flow.note]⟩
    · change (f.txbuf.drop _).length ≤ netTcpTxbuf
      rw [List.length_drop]
      exact (Nat.sub_le _ _).trans h.room
    · intro hsyn
      cases hsyn
  · obtain ⟨hgood, hpast⟩ := receiveAck_frame_of_past h hstate nowMs seg
    have hsame : (f.receiveAck nowMs seg).establish seg.ack = f.receiveAck nowMs seg := by
      unfold Flow.establish
      rw [if_neg (by simpa using hpast)]
    rw [hsame]
    exact ⟨hgood, hpast⟩

theorem handshakeRule : FlowRule Handshaken HandshakeSafe HandshakeOrder where
  move _ _ h hmove := h.move hmove
  ending _ h _ := h.safe
  unused := Trace.lawful_nil
  opened f seg iss hhistory htxbuf _ hfin _ := by
    refine ⟨?_, ?_, ?_⟩
    · change HandshakeSafe (f.history ++ [.opened iss (getBe32 seg 4)])
      rw [hhistory]
      exact Trace.lawful_append.2 ⟨Trace.lawful_nil, trivial⟩
    · change f.txbuf.length ≤ netTcpTxbuf
      rw [htxbuf]
      exact Nat.zero_le _
    · intro _
      refine ⟨⟨getBe32 seg 4, ?_⟩, .inl rfl, ?_, hfin⟩
      · change (f.history ++ [FlowEvent.opened iss (getBe32 seg 4)]).head? = _
        rw [hhistory]
        rfl
      · rintro (hsent | hdata)
        · exact absurd rfl hsent
        · exact absurd htxbuf hdata
  handled _ _ _ h := h.of_same rfl rfl rfl rfl rfl rfl
  touched _ _ h := h.of_same rfl rfl rfl rfl rfl rfl
  safe_touched _ _ _ h := h
  reset _ h := h.note trivial
  again _ _ h _ := h.sent _ _ _ _
  acked _ nowMs seg h _ hwaits := h.acked nowMs seg hwaits
  rest _ nowMs seg h horder hdone := by
    obtain ⟨hgood, hpast⟩ := h.establish nowMs horder hdone
    exact receiveRest_history _ nowMs seg hgood hpast

/-- In every run whose acknowledging segments come in order, every flow, live or released, has
entered ESTABLISHED only properly. -/
theorem handshakeSafe_of_order {η : Type} (cfg : Config) (eg : Egress η) (host : η) (ops : List Op)
    (horder : Run.Within System.step (Meets HandshakeOrder) (System.init cfg eg host) ops) :
    ∀ history ∈ (Run.run System.step (System.init cfg eg host) ops).stack.histories,
      HandshakeSafe history :=
  (handshakeRule.run horder).histories (fun _ h ↦ h.safe) (fun _ h ↦ h) Trace.lawful_nil

/-- The answers of the host, in order; a call past the last of its kind finds the connect done,
nothing to read and everything accepted. -/
structure Script where
  statuses : List ConnectStatus
  reads : List Received
  sends : List ℕ

def Script.clip (cap : ℕ) : Received → Received
  | .octets data => .octets (data.take cap)
  | other => other

theorem Script.clip_le {cap : ℕ} {answer : Received} {data : List Octet}
    (h : Script.clip cap answer = .octets data) : data.length ≤ cap := by
  cases answer with
  | octets all =>
    obtain rfl := Received.octets.inj h
    exact List.length_take_le cap all
  | eof => cases h
  | error => cases h

def scripted : Egress Script where
  openFlow := some fun script _ _ _ ↦ (script, 3)
  status := some fun script _ ↦
    ({ script with statuses := script.statuses.tail }, script.statuses.headD .ready)
  send := some fun script _ data ↦
    ({ script with sends := script.sends.tail },
      some (min (script.sends.headD data.length) data.length))
  recv := some fun script _ cap ↦
    ({ script with reads := script.reads.tail }, Script.clip cap (script.reads.headD (.octets [])))
  shutdownTx := none
  close := none
  resolve := none
  icmpEcho := none
  send_le := by
    rintro call hcall script handle data count hcount
    obtain rfl := Option.some.inj hcall
    obtain rfl := Option.some.inj hcount
    exact min_le_right _ _
  recv_le := by
    rintro call hcall script handle cap data hdata
    obtain rfl := Option.some.inj hcall
    exact Script.clip_le hdata

def exampleConfig : Config where
  guestIp := 0x0a00020f
  localIp := 0x0a000202
  dnsIp := 0x0a000203
  iss := 0x5335384c

/-- The initial send sequence of the first flow. -/
def exampleIss : Word := 0xf16cb205

/-- A segment of the guest, whose own sequence numbers start at 100. -/
def guestSegment (flags : Octet) (seq ack : Word) (payload : List Octet) : Op :=
  let guestIp := exampleConfig.guestIp
  let seg := sealTcp guestIp 0x01020304 (tcpHeader 1000 80 seq ack 0x50 flags 4000 ++ payload)
  .input ((netBuildIpv4 netMtu guestIp 0x01020304 protoTcp 7 seg.length).getD [] ++ seg)

def exampleRun (script : Script) (ops : List Op) : System Script :=
  Run.run System.step (System.init exampleConfig scripted script) ops

instance decidableMeets {η : Type} (safe : Flow → Segment → Prop)
    [∀ f seg, Decidable (safe f seg)] (s : System η) : ∀ op, Decidable (Meets safe s op)
  | .input pkt =>
    match h : s.stack.arrival pkt with
    | none => .isTrue fun f seg hsome ↦ by simp [h] at hsome
    | some (f, seg) =>
      decidable_of_iff (seg.acknowledges → safe f seg) <| by
        constructor
        · intro hsafe f' seg' hsome
          rw [h] at hsome
          obtain ⟨rfl, rfl⟩ := Prod.mk.inj (Option.some.inj hsome)
          exact hsafe
        · intro hmeets
          exact hmeets f seg h
  | .tick _ => .isTrue trivial
  | .output _ => .isTrue trivial

instance (f : Flow) (seg : Segment) : Decidable (HandshakeOrder f seg) := by
  unfold HandshakeOrder
  infer_instance

/-- The connect is pending, and an acknowledgement of the guest opens the flow all the same. -/
theorem handshake_violated : ¬∀ history ∈ (exampleRun ⟨[.pending, .pending], [], []⟩
        [guestSegment flagSyn 100 0 [], guestSegment flagAck 101 0 []]).stack.histories,
      HandshakeSafe history := by
  intro hsafe
  have hhistory : [.opened exampleIss 100, .established 0 exampleIss] ∈
      (exampleRun ⟨[.pending, .pending], [], []⟩
        [guestSegment flagSyn 100 0 [], guestSegment flagAck 101 0 []]).stack.histories := by
    decide +kernel
  have hentry := hsafe _ hhistory [.opened exampleIss 100] (.established 0 exampleIss) [] rfl
  exact absurd hentry.1.1 (by decide)

theorem handshakeSafe_of_order_exchange : HandshakeSafe [.opened exampleIss 100, .ready,
      .segment (flagSyn ||| flagAck) exampleIss 101 [] true,
      .established (exampleIss + 1) (exampleIss + 1), .buffered 101 [7] [7], .delivered [7],
      .segment flagAck (exampleIss + 1) 102 [] true] :=
  handshakeSafe_of_order exampleConfig scripted ⟨[.pending], [], []⟩
    [guestSegment flagSyn 100 0 [], .tick 5, guestSegment flagAck 101 (exampleIss + 1) [7]]
    (by decide +kernel) _ (by decide +kernel)

end S5LBox.Net
