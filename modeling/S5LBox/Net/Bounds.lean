import S5LBox.Net.Handshake
import S5LBox.Net.Service

/-!
# Bounds of a flow

Neither buffer of a TCP flow outgrows its array, and what is outstanding toward the guest is never
more than the send buffer and one sequence number for a SYN or a FIN that was not acknowledged yet.
-/

namespace S5LBox.Net

/-- Our FIN was committed and not acknowledged. -/
def Flow.finPending (f : Flow) : Bool :=
  f.finSent && (f.state == .finWait1 || f.state == .closing || f.state == .lastAck)

/-- The most that may be outstanding: the SYN, or the buffer and the FIN. -/
def Flow.outstandingMax (f : Flow) : ℕ :=
  if f.state = .synRcvd then 1 else f.txbuf.length + if f.finPending then 1 else 0

structure Bounded (f : Flow) : Prop where
  txbuf : f.txbuf.length ≤ netTcpTxbuf
  rxbuf : f.rxbuf.length ≤ netTcpRxbuf
  outstanding : f.outstanding ≤ f.outstandingMax

/-- The history begins with the SYN. -/
def Begun (history : List FlowEvent) : Prop := ∃ iss irs, history.head? = some (.opened iss irs)

theorem Begun.append {history : List FlowEvent} (h : Begun history) (event : FlowEvent) :
    Begun (history ++ [event]) := by
  obtain ⟨iss, irs, hhead⟩ := h
  exact ⟨iss, irs, head?_append hhead event⟩

namespace Bounded

variable {f f' : Flow}

section

variable (h : Bounded f)

include h

theorem outstanding_le : f.outstanding ≤ 4097 := by
  have htx : f.txbuf.length ≤ 4096 := h.txbuf
  have hmax := h.outstanding
  unfold Flow.outstandingMax at hmax
  split at hmax
  · omega
  · split at hmax <;> omega

/-- In the order of sequence numbers the oldest outstanding one is not after the next one. -/
theorem netSeqLe : netSeqLe f.sndUna f.sndNxt = true := by
  have hle := h.outstanding_le
  unfold Flow.outstanding at hle
  rw [netSeqLe_iff]
  omega

theorem of_same (htx : f'.txbuf = f.txbuf) (hrx : f'.rxbuf = f.rxbuf)
    (hnxt : f'.sndNxt = f.sndNxt) (huna : f'.sndUna = f.sndUna) (hstate : f'.state = f.state)
    (hfin : f'.finSent = f.finSent) : Bounded f' := by
  refine ⟨htx ▸ h.txbuf, hrx ▸ h.rxbuf, ?_⟩
  have hout := h.outstanding
  unfold Flow.outstanding Flow.outstandingMax Flow.finPending at *
  rw [hnxt, huna, hstate, htx, hfin]
  exact hout

theorem sent (flags : Octet) (seq : Word) (data : List Octet) (queued : Bool) :
    Bounded (f.sent flags seq data queued) := h.of_same rfl rfl rfl rfl rfl rfl

omit h in
theorem sendTo (h : Bounded f) {next : Word} {count : ℕ}
    (hnext : next = f.sndUna + BitVec.ofNat 32 count) (hcount : count ≤ f.outstandingMax)
    (hshort : count ≤ 4097) : Bounded { f with sndNxt := next } := by
  refine ⟨h.txbuf, h.rxbuf, ?_⟩
  have hout : (next - f.sndUna).toNat = count := (sub_eq_iff _ _ _ (by omega)).2 hnext
  change (next - f.sndUna).toNat ≤ f.outstandingMax
  omega

theorem move (hmove : FlowMove f f') : Bounded f' := by
  have htx : f.txbuf.length ≤ 4096 := h.txbuf
  cases hmove with
  | control queued hflags => exact h.sent ..
  | timers nowMs =>
    unfold Flow.tcpTimers
    split
    · split
      · exact h
      · exact h.of_same rfl rfl rfl rfl rfl rfl
    · exact h.of_same rfl rfl rfl rfl rfl rfl
  | failed => exact h.of_same rfl rfl rfl rfl rfl rfl
  | connected queued hstate hpending =>
    have hnext : f.sndNxt + BitVec.ofNat 32 1 = f.sndUna + BitVec.ofNat 32 1 := by rw [hpending]
    have hmax : 1 ≤ f.outstandingMax := by
      unfold Flow.outstandingMax
      rw [if_pos hstate]
    exact (h.sendTo hnext hmax (by omega)).of_same rfl rfl rfl rfl rfl rfl
  | deliver count =>
    refine ⟨h.txbuf, ?_, h.outstanding⟩
    change (f.rxbuf.drop count).length ≤ netTcpRxbuf
    rw [List.length_drop]
    exact (Nat.sub_le _ _).trans h.rxbuf
  | shutdown => exact h.of_same rfl rfl rfl rfl rfl rfl
  | append hconnected hopen hroom =>
    refine ⟨?_, h.rxbuf, h.outstanding.trans ?_⟩
    · change (f.txbuf ++ _).length ≤ netTcpTxbuf
      rw [List.length_append]
      exact hroom
    · unfold Flow.outstandingMax
      split
      case isTrue hsyn => exact (if_pos hsyn).ge
      case isFalse hsyn =>
        refine le_of_le_of_eq (Nat.add_le_add_right ?_ _) (if_neg hsyn).symm
        change f.txbuf.length ≤ (f.txbuf ++ _).length
        rw [List.length_append]
        exact Nat.le_add_right _ _
  | endStream => exact h.of_same rfl rfl rfl rfl rfl rfl
  | timeOut => exact h.of_same rfl rfl rfl rfl rfl rfl
  | rewind => exact @sendTo f h f.sndUna 0 (BitVec.add_zero _).symm (Nat.zero_le _) (by omega)
  | @data sent count queued hstate hlive hsent hmore =>
    have hslice : (f.slice sent count).length ≤ f.txbuf.length - sent := by
      unfold Flow.slice
      rw [List.length_take, List.length_drop]
      exact min_le_right _ _
    have hnext : f.sndNxt + BitVec.ofNat 32 (f.slice sent count).length =
        f.sndUna + BitVec.ofNat 32 (sent + (f.slice sent count).length) := by
      rw [hsent, BitVec.ofNat_add, BitVec.add_assoc]
    have hmax : f.txbuf.length ≤ f.outstandingMax := by
      unfold Flow.outstandingMax
      rw [if_neg hstate]
      exact Nat.le_add_right _ _
    exact (h.sendTo hnext (by omega) (by omega)).of_same rfl rfl rfl rfl rfl rfl
  | commitFin =>
    unfold Flow.commitFin
    split
    case isFalse => exact h
    case isTrue hcommit =>
      simp only [Bool.and_eq_true, Bool.not_eq_true', Bool.or_eq_true, beq_iff_eq] at hcommit
      refine ⟨h.txbuf, h.rxbuf, h.outstanding.trans ?_⟩
      have hpast : f.state ≠ .synRcvd := by
        rintro hsyn
        rcases hcommit.2 with hstate | hstate <;> rw [hsyn] at hstate <;> cases hstate
      have hbefore : f.outstandingMax = f.txbuf.length := by
        unfold Flow.outstandingMax Flow.finPending
        rw [if_neg hpast, hcommit.1.2]
        rfl
      have hafter : (if f.state == .closeWait then TcpState.lastAck else .finWait1) ≠ .synRcvd := by
        split <;> decide
      rw [hbefore]
      exact (Nat.le_add_right _ _).trans_eq (if_neg hafter).symm
  | fin queued hdue =>
    unfold Flow.finDue at hdue
    simp only [Bool.and_eq_true, beq_iff_eq] at hdue
    have hnext : f.sndNxt + BitVec.ofNat 32 1 =
        f.sndUna + BitVec.ofNat 32 (f.txbuf.length + 1) := by
      rw [hdue.1.2, BitVec.ofNat_add, BitVec.add_assoc]
    have hpending : f.finPending = true := by
      unfold Flow.finPending
      rw [hdue.1.1, hdue.2]
      rfl
    have hpast : f.state ≠ .synRcvd := by
      intro hsyn
      have hstate := hdue.2
      rw [hsyn] at hstate
      exact absurd hstate (by decide)
    have hmax : f.txbuf.length + 1 ≤ f.outstandingMax := by
      unfold Flow.outstandingMax
      rw [if_neg hpast, hpending]
      rfl
    exact (h.sendTo hnext hmax (by omega)).of_same rfl rfl rfl rfl rfl rfl
  | probe queued hstate hlive hidle hmore =>
    have hnext : f.sndNxt + BitVec.ofNat 32 1 = f.sndUna + BitVec.ofNat 32 1 := by rw [hidle]
    have hsome : 0 < f.txbuf.length := List.length_pos_iff.2 hmore
    have hmax : 1 ≤ f.outstandingMax := by
      unfold Flow.outstandingMax
      rw [if_neg hstate]
      omega
    exact (h.sendTo hnext hmax (by omega)).of_same rfl rfl rfl rfl rfl rfl

omit h in
theorem of_none (htx : f.txbuf.length ≤ netTcpTxbuf) (hrx : f.rxbuf.length ≤ netTcpRxbuf)
    (hnone : f.outstanding = 0) : Bounded f :=
  ⟨htx, hrx, hnone ▸ Nat.zero_le _⟩

/-- An acknowledgement takes what it covers off what is outstanding; the one half the sequence
space away is only accepted when nothing is. -/
theorem consumed {ack : Word} (haccepts : f.accepts ack = true) :
    Bounded (f.consumed ack) ∧ (f.coversFin ack = true → (f.consumed ack).outstanding = 0) := by
  have htx : (f.txbuf.drop (f.reach ack)).length ≤ netTcpTxbuf := by
    rw [List.length_drop]
    exact (Nat.sub_le _ _).trans h.txbuf
  have htxbuf : f.txbuf.length ≤ 4096 := h.txbuf
  have hle := h.outstanding_le
  have hmax := h.outstanding
  rw [Flow.accepts_iff h.txbuf (by omega)] at haccepts
  rcases haccepts with ⟨hpos, hreach⟩ | ⟨hnone, hreach⟩
  · have hshort : f.reach ack ≤ 2 ^ 30 := by
      unfold Flow.committed at hreach
      split at hreach <;> omega
    have hleft := Flow.consumed_outstanding (by omega) hshort
    refine ⟨⟨htx, h.rxbuf, ?_⟩, ?_⟩
    · have hlength : (f.consumed ack).txbuf.length = f.txbuf.length - f.reach ack :=
        List.length_drop
      have hpending : (f.consumed ack).finPending = f.finPending := rfl
      have hstate : (f.consumed ack).state = f.state := rfl
      rw [hleft]
      unfold Flow.outstandingMax at *
      rw [hlength, hpending, hstate]
      split at hmax
      case isTrue hsyn =>
        rw [if_pos hsyn]
        omega
      case isFalse hpast =>
        rw [if_neg hpast]
        omega
    · intro hcovers
      unfold Flow.coversFin at hcovers
      simp only [Bool.and_eq_true, decide_eq_true_eq] at hcovers
      rw [hleft]
      unfold Flow.outstandingMax at hmax
      split at hmax
      · omega
      · split at hmax <;> omega
  · have hzero : f.outstanding = 0 := by omega
    have hsame : f.sndNxt = f.sndUna := by
      have hnext := ofNat_sub_toNat f.sndNxt f.sndUna
      unfold Flow.outstanding at hzero
      rw [hzero] at hnext
      exact hnext.symm.trans (BitVec.add_zero _)
    have hlater : netSeqLt f.sndNxt ack = true := by
      unfold Flow.reach at hreach
      rw [netSeqLt_iff, hsame, hreach]
      decide
    have hdone : (f.consumed ack).outstanding = 0 := by
      unfold Flow.outstanding Flow.consumed
      dsimp only
      rw [if_pos hlater, sub_self]
      rfl
    exact ⟨.of_none htx h.rxbuf hdone, fun _ ↦ hdone⟩

theorem finAcked (hnone : f.outstanding = 0) (nowMs : Word) : Bounded (f.finAcked nowMs) := by
  unfold Flow.finAcked
  split
  · exact .of_none h.txbuf h.rxbuf hnone
  · exact .of_none h.txbuf h.rxbuf hnone
  · exact .of_none h.txbuf h.rxbuf hnone
  · exact h

theorem receiveAck (nowMs : Word) (seg : Segment) : Bounded (f.receiveAck nowMs seg) := by
  have hwindow : Bounded { f with sndWnd := seg.wnd.setWidth 32 } :=
    h.of_same rfl rfl rfl rfl rfl rfl
  unfold Flow.receiveAck
  generalize { f with sndWnd := seg.wnd.setWidth 32 } = f at *
  rw [Flow.tcpConsumeAck_eq]
  split
  case isFalse => exact hwindow
  case isTrue haccepts =>
    have hconsumed := hwindow.consumed haccepts
    split
    case isTrue hcovers => exact hconsumed.1.finAcked (hconsumed.2 hcovers) nowMs
    case isFalse => exact hconsumed.1

theorem establish (hdone : f.handshaking = false) (ack : Word) : Bounded (f.establish ack) := by
  unfold Flow.establish
  split
  case isFalse => exact h
  case isTrue hsyn =>
    have hle := h.outstanding_le
    have hnone : f.outstanding = 0 := by
      unfold Flow.handshaking at hdone
      rw [hsyn, Bool.true_and] at hdone
      have hlater := (netSeqLt_iff f.sndUna f.sndNxt).not.1 (by simp [hdone])
      unfold Flow.outstanding at hle ⊢
      omega
    exact (of_none h.txbuf h.rxbuf hnone : Bounded { f with state := .established }).of_same
      rfl rfl rfl rfl rfl rfl

theorem receiveData (seg : Segment) : Bounded (f.receiveData seg) := by
  unfold Flow.receiveData
  split
  case isFalse => exact h
  split
  · refine ⟨h.txbuf, ?_, h.outstanding⟩
    have hroom := h.rxbuf
    have htaken : ((seg.payload.drop (f.rcvNxt - seg.seq).toNat).take
      (netTcpRxbuf - f.rxbuf.length)).length ≤ netTcpRxbuf - f.rxbuf.length := List.length_take_le _ _
    change (f.rxbuf ++ _).length ≤ netTcpRxbuf
    rw [List.length_append]
    omega
  · exact h.of_same rfl rfl rfl rfl rfl rfl

/-- The guest's FIN changes the state only between states in which as much may be outstanding. -/
theorem receiveFin (nowMs : Word) (seg : Segment) : Bounded (f.receiveFin nowMs seg) := by
  unfold Flow.receiveFin
  split
  case isFalse => exact h
  split
  · exact h.of_same rfl rfl rfl rfl rfl rfl
  split
  case isFalse => exact h
  have hout := h.outstanding
  unfold Flow.acceptFin
  dsimp only
  split
  case h_1 hstate =>
    refine ⟨h.txbuf, h.rxbuf, hout.trans_eq ?_⟩
    unfold Flow.outstandingMax Flow.finPending
    change f.state = .established at hstate
    simp [hstate, Flow.note]
  case h_2 hstate =>
    refine ⟨h.txbuf, h.rxbuf, hout.trans_eq ?_⟩
    unfold Flow.outstandingMax Flow.finPending
    change f.state = .finWait1 at hstate
    simp [hstate, Flow.note]
  case h_3 hstate =>
    refine ⟨h.txbuf, h.rxbuf, hout.trans_eq ?_⟩
    unfold Flow.outstandingMax Flow.finPending
    change f.state = .finWait2 at hstate
    simp [hstate, Flow.note]
  · exact h.of_same rfl rfl rfl rfl rfl rfl

end

end Bounded

/-- A rule that asks nothing of the segments holds in runs with resets, too. -/
theorem FlowRule.run_act {η : Type} {good : Flow → Prop} {ended : List FlowEvent → Prop}
    (rule : FlowRule good ended fun _ _ ↦ True) (cfg : Config) (eg : Egress η) (host : η)
    (ops : List NetOp) :
    SettledStack good ended (Run.run System.act (System.init cfg eg host) ops).stack := by
  have hinit (cfg : Config) (eg : Egress η) (host : η) :
      SettledStack good ended (netInit cfg eg host) :=
    ⟨fun _ ↦ settled_blank, fun _ hmem ↦ absurd hmem List.not_mem_nil⟩
  refine @Run.invariant _ _ System.act (fun s ↦ SettledStack good ended s.stack) ?_ _
    (hinit cfg eg host) ops
  intro s op h
  cases op with
  | op op =>
    refine rule.step h ?_
    cases op with
    | input pkt => exact fun _ _ _ _ ↦ trivial
    | tick nowMs => trivial
    | output cap => trivial
  | reset => exact hinit _ _ _

theorem FlowMove.begun {f f' : Flow} (h : FlowMove f f') (hbegun : Begun f.history) :
    Begun f'.history := by
  cases h with
  | control => exact hbegun.append _
  | timers nowMs =>
    unfold Flow.tcpTimers
    split
    · split <;> exact hbegun
    · exact hbegun
  | failed => exact hbegun.append _
  | connected => exact (hbegun.append .ready).append _
  | deliver => exact hbegun.append _
  | append => exact hbegun.append _
  | endStream => exact hbegun.append _
  | data => exact hbegun.append _
  | commitFin =>
    unfold Flow.commitFin
    split <;> exact hbegun
  | fin => exact hbegun.append _
  | probe => exact hbegun.append _
  | _ => exact hbegun

theorem receiveRest_begun {f : Flow} (h : Begun f.history) (nowMs : Word) (seg : Segment) :
    Begun (f.receiveRest nowMs seg).history := by
  have hestablish : Begun (f.establish seg.ack).history := by
    unfold Flow.establish
    split
    · exact h.append _
    · exact h
  have hdata (f : Flow) (h : Begun f.history) : Begun (f.receiveData seg).history := by
    unfold Flow.receiveData
    split
    · split
      · exact h.append _
      · exact h
    · exact h
  have hfin (f : Flow) (h : Begun f.history) : Begun (f.receiveFin nowMs seg).history := by
    unfold Flow.receiveFin Flow.acceptFin
    split
    · split
      · exact h
      split
      · dsimp only
        split <;> exact h.append _
      · exact h
    · exact h
  exact hfin _ (hdata _ hestablish)

theorem boundedRule : FlowRule (fun f ↦ Bounded f ∧ Begun f.history)
    (fun history ↦ history = [] ∨ Begun history) fun _ _ ↦ True where
  move _ _ h hmove := ⟨h.1.move hmove, hmove.begun h.2⟩
  ending _ h _ := .inr h.2
  unused := .inl rfl
  opened f seg iss hhistory htx hrx _ _ := by
    refine ⟨.of_none ?_ ?_ ?_, iss, getBe32 seg 4, ?_⟩
    · change f.txbuf.length ≤ netTcpTxbuf
      rw [htx]
      exact Nat.zero_le _
    · change f.rxbuf.length ≤ netTcpRxbuf
      rw [hrx]
      exact Nat.zero_le _
    · change (iss - iss).toNat = 0
      rw [sub_self]
      rfl
    · change (f.history ++ [_]).head? = _
      rw [hhistory]
      rfl
  handled _ _ _ h := ⟨h.1.of_same rfl rfl rfl rfl rfl rfl, h.2⟩
  touched _ _ h := ⟨h.1.of_same rfl rfl rfl rfl rfl rfl, h.2⟩
  safe_touched _ _ _ h := h
  reset _ h := ⟨h.1.of_same rfl rfl rfl rfl rfl rfl, h.2.append _⟩
  again _ _ h _ := ⟨h.1.sent .., h.2.append _⟩
  acked f nowMs seg h _ _ := by
    refine ⟨h.1.receiveAck nowMs seg, ?_⟩
    rw [(receiveAck_aside f nowMs seg).history]
    exact h.2
  rest f nowMs seg h _ hdone := by
    have hack := h.1.receiveAck nowMs seg
    refine ⟨((hack.establish hdone seg.ack).receiveData seg).receiveFin nowMs seg, ?_⟩
    refine receiveRest_begun ?_ nowMs seg
    rw [(receiveAck_aside f nowMs seg).history]
    exact h.2

end S5LBox.Net
