import S5LBox.Ppp.Layering

/-!
# The line

What the peer has put on the line so far, and the control packets each action adds to it. Sending
depends on nothing else, so a sequence of packets is sent the same way whatever the automaton does
in between.
-/

namespace S5LBox.Ppp

/-- The part of the peer that sending reads and changes. -/
structure Line where
  tx : ℕ → Octet
  txHead : Word
  txTail : Word
  txAccm : Word
  framesOut : ℕ
  txBytes : ℕ
  txOverflows : ℕ

def Peer.line (p : Peer) : Line where
  tx := p.tx
  txHead := p.txHead
  txTail := p.txTail
  txAccm := p.txAccm
  framesOut := p.stats.framesOut
  txBytes := p.stats.txBytes
  txOverflows := p.stats.txOverflows

/-- A control packet. -/
structure Packet where
  proto : Control
  code : Octet
  id : Octet
  data : List Octet
  deriving DecidableEq

/-- Sending control packets, one after the other. -/
def Peer.send (p : Peer) (packets : List Packet) : Peer :=
  packets.foldl (fun p packet ↦ sendCp p packet.proto packet.code packet.id packet.data) p

/-- The packets sent so far, those dropped for want of room included. -/
def Line.sent (l : Line) : ℕ := l.framesOut + l.txOverflows

theorem line_txFrame_congr {p q : Peer} (h : p.line = q.line) (proto : Half)
    (info : List Octet) : (txFrame p proto info).line = (txFrame q proto info).line := by
  simp only [Peer.line, Line.mk.injEq] at h
  obtain ⟨htx, hhead, htail, haccm, hframes, hbytes, hoverflows⟩ := h
  have hused : p.txUsed = q.txUsed := by rw [Peer.txUsed, Peer.txUsed, hhead, htail]
  unfold txFrame
  simp only [haccm, hused]
  split
  · simp only [Peer.line, htx, hhead, htail, hframes, hbytes, hoverflows]
  · simp only [Peer.line, htx, hhead, htail, hframes, hbytes, hoverflows]

theorem line_sendCp_congr {p q : Peer} (h : p.line = q.line) (proto : Control) (code id : Octet)
    (data : List Octet) : (sendCp p proto code id data).line = (sendCp q proto code id data).line := by
  unfold sendCp
  split
  · simp only [Peer.line, Line.mk.injEq] at h ⊢
    obtain ⟨htx, hhead, htail, haccm, hframes, hbytes, hoverflows⟩ := h
    exact ⟨htx, hhead, htail, haccm, hframes, hbytes, congrArg (· + 1) hoverflows⟩
  · exact line_txFrame_congr h _ _

theorem line_send_congr {p q : Peer} (h : p.line = q.line) (packets : List Packet) :
    (p.send packets).line = (q.send packets).line := by
  induction packets generalizing p q with
  | nil => exact h
  | cons packet rest ih => exact ih (line_sendCp_congr h _ _ _ _)

theorem send_append (p : Peer) (first second : List Packet) :
    p.send (first ++ second) = (p.send first).send second := List.foldl_append ..

/-- Every packet is counted. -/
theorem sent_sendCp (p : Peer) (proto : Control) (code id : Octet) (data : List Octet) :
    (sendCp p proto code id data).line.sent = p.line.sent + 1 := by
  have hframe (number : Half) (info : List Octet) :
      (txFrame p number info).line.sent = p.line.sent + 1 := by
    unfold txFrame
    simp only
    split
    · exact (Nat.add_assoc p.stats.framesOut p.stats.txOverflows 1).symm
    · exact Nat.add_right_comm p.stats.framesOut 1 p.stats.txOverflows
  unfold sendCp
  split
  · exact (Nat.add_assoc p.stats.framesOut p.stats.txOverflows 1).symm
  · exact hframe _ _

variable (p : Peer) (proto : Control)

@[simp] theorem line_setFsm (f : Fsm) : (p.setFsm proto f).line = p.line := by
  cases proto <;> rfl

@[simp] theorem line_setState (state : State) :
    (p.setState proto state).line = p.line := line_setFsm ..

@[simp] theorem line_restartStart : (restartStart p proto).line = p.line := line_setFsm ..

@[simp] theorem line_restartStop : (restartStop p proto).line = p.line := line_setFsm ..

@[simp] theorem line_irc (count : Octet) : (irc p proto count).line = p.line := line_setFsm ..

@[simp] theorem line_spendFailure : (spendFailure p proto).line = p.line := line_setFsm ..

@[simp] theorem line_freshId : (freshId p proto).line = p.line := line_setFsm ..

@[simp] theorem line_spendRestart : (spendRestart p proto).line = p.line := by
  unfold spendRestart
  simp only
  split
  · exact line_setFsm ..
  · rfl

@[simp] theorem line_tld : (tld p proto).line = p.line := by
  cases proto <;> rfl

theorem line_classifyConfreq (opts : List Octet) : (classifyConfreq p proto opts).2.line = p.line :=
  view_classifyConfreq Peer.line (fun _ _ ↦ rfl) p proto opts

/-- The fields of an automaton that a request of ours is built from. -/
def Fsm.asking (f : Fsm) : Octet × Octet × Octet := (f.reqOpts, f.nextId, f.lastReqId)

/-- What a request of ours is built from. -/
def Peer.asking (p : Peer) : (Octet × Octet × Octet) × (Octet × Octet × Octet) × Word × Word :=
  (p.lcp.asking, p.ipcp.asking, p.ourMagic, p.cfg.localIp)

/-- A Configure-Request of ours: a fresh one takes the next identifier, a retransmission keeps
that of the last. -/
def Peer.request (p : Peer) (proto : Control) (fresh : Bool) : Packet where
  proto := proto
  code := confReq
  id := if fresh then (p.fsmFor proto).nextId else (p.fsmFor proto).lastReqId
  data := buildConfreq p proto

theorem request_congr {p q : Peer} (h : p.asking = q.asking) (proto : Control) (fresh : Bool) :
    p.request proto fresh = q.request proto fresh := by
  simp only [Peer.asking, Fsm.asking, Prod.mk.injEq] at h
  obtain ⟨⟨hopts, hnext, hlast⟩, ⟨hopts', hnext', hlast'⟩, hmagic, hip⟩ := h
  cases proto with
  | lcp => simp only [Peer.request, Peer.fsmFor, buildConfreq, hopts, hnext, hlast, hmagic]
  | ipcp => simp only [Peer.request, Peer.fsmFor, buildConfreq, hopts', hnext', hlast', hip]

theorem asking_setFsm {p : Peer} {proto : Control} {f : Fsm}
    (h : f.asking = (p.fsmFor proto).asking) : (p.setFsm proto f).asking = p.asking := by
  cases proto with
  | lcp => exact congrArg (·, p.ipcp.asking, p.ourMagic, p.cfg.localIp) h
  | ipcp => exact congrArg (p.lcp.asking, ·, p.ourMagic, p.cfg.localIp) h

@[simp] theorem asking_setState (state : State) :
    (p.setState proto state).asking = p.asking := asking_setFsm rfl

@[simp] theorem asking_restartStop : (restartStop p proto).asking = p.asking := asking_setFsm rfl

@[simp] theorem asking_irc (count : Octet) :
    (irc p proto count).asking = p.asking := asking_setFsm rfl

@[simp] theorem asking_tld : (tld p proto).asking = p.asking := by
  cases proto <;> rfl

@[simp] theorem asking_sendCp (code id : Octet) (data : List Octet) :
    (sendCp p proto code id data).asking = p.asking := by
  have hframe (number : Half) (info : List Octet) : (txFrame p number info).asking = p.asking := by
    unfold txFrame
    simp only
    split <;> rfl
  unfold sendCp
  split
  · rfl
  · exact hframe _ _

theorem asking_classifyConfreq (opts : List Octet) :
    (classifyConfreq p proto opts).2.asking = p.asking :=
  view_classifyConfreq Peer.asking (fun _ _ ↦ rfl) p proto opts

theorem line_scr (fresh : Bool) :
    (scr p proto fresh).line = (p.send [p.request proto fresh]).line := by
  unfold scr
  rw [line_restartStart, line_spendRestart]
  cases fresh with
  | false => rfl
  | true =>
    refine (line_sendCp_congr (line_freshId p proto) ..).trans ?_
    cases proto <;> rfl

theorem line_sta (id : Octet) :
    (sta p proto id).line = (p.send [⟨proto, termAck, id, []⟩]).line := rfl

theorem line_tlu : (tlu p proto).line = (p.send (match proto with
      | .lcp => [⟨.ipcp, confReq, p.ipcp.nextId, [ipcpOptAddress, 6] ++ putBe32 p.cfg.localIp⟩]
      | .ipcp => [])).line := by
  cases proto with
  | lcp =>
    let q := p.setState .ipcp .reqSent
    let q' := irc (q.setFsm .ipcp { q.ipcp with reqOpts := reqIpcpAddress }) .ipcp maxConfigure
    have hline : q'.line = p.line := rfl
    have hdata : buildConfreq q' .ipcp = [ipcpOptAddress, 6] ++ putBe32 p.cfg.localIp :=
      if_pos (show reqIpcpAddress &&& reqIpcpAddress ≠ 0 by decide)
    have hrequest : q'.request .ipcp true =
        ⟨.ipcp, confReq, p.ipcp.nextId, [ipcpOptAddress, 6] ++ putBe32 p.cfg.localIp⟩ :=
      congrArg (Packet.mk .ipcp confReq p.ipcp.nextId) hdata
    show (scr q' .ipcp true).line = _
    rw [line_scr, hrequest]
    exact line_send_congr hline _
  | ipcp => rfl

end S5LBox.Ppp
