import Mathlib.Logic.Relation
import S5LBox.Net.Queue

/-!
# What a tick does to a flow

A tick takes a flow through a sequence of moves, each of which says when it can be made and what
it leaves; it may then release the flow. Everything the later modules prove about ticks is proved
of the moves.
-/

namespace S5LBox.Net

/-- A reset was sent to the guest or came from it. -/
def wasReset (history : List FlowEvent) : Bool :=
  history.any fun
    | .reset => true
    | .segment flags _ _ _ _ => hasFlag flags flagRst
    | _ => false

/-- The flow ends without a reset or because of one. -/
def Over (f : Flow) : Prop := f.state = .timeWait ∨ f.state = .closed ∨ wasReset f.history

/-- The next octets of the send buffer, `count` of them at most, behind the `sent` octets that are
in flight. -/
def Flow.slice (f : Flow) (sent count : ℕ) : List Octet := (f.txbuf.drop sent).take count

inductive FlowMove : Flow → Flow → Prop
  | control (f : Flow) {flags : Octet} (queued : Bool)
      (hflags : (flags = flagAck ∧ f.state ≠ .closed) ∨ flags = flagRst ||| flagAck) :
      FlowMove f (f.sent flags f.sndNxt [] queued)
  | timers (f : Flow) (nowMs : Word) : FlowMove f (f.tcpTimers nowMs)
  | failed (f : Flow) : FlowMove f (f.note .failed)
  | connected (f : Flow) (queued : Bool) (hstate : f.state = .synRcvd)
      (hpending : f.sndNxt = f.sndUna) :
      FlowMove f (((f.note .ready).sent (flagSyn ||| flagAck) f.sndNxt [] queued).advance 1)
  | deliver (f : Flow) (count : ℕ) : FlowMove f (f.deliver count)
  | shutdown (f : Flow) : FlowMove f { f with txShutdown := true }
  | append (f : Flow) {data : List Octet}
      (hconnected : f.state = .synRcvd → f.sndNxt ≠ f.sndUna) (hopen : f.hostEof = false)
      (hroom : f.txbuf.length + data.length ≤ netTcpTxbuf) : FlowMove f (f.append data)
  | endStream (f : Flow) : FlowMove f f.endStream
  | timeOut (f : Flow) : FlowMove f f.timeOut
  | rewind (f : Flow) : FlowMove f f.rewind
  | data (f : Flow) {sent : ℕ} (count : ℕ) (queued : Bool) (hstate : f.state ≠ .synRcvd)
      (hlive : f.state ≠ .closed) (hsent : f.sndNxt = f.sndUna + BitVec.ofNat 32 sent) (hmore : sent < f.txbuf.length) :
      FlowMove f ((f.sent (flagAck ||| flagPsh) f.sndNxt (f.slice sent count) queued).advance
        (f.slice sent count).length)
  | commitFin (f : Flow) : FlowMove f f.commitFin
  | fin (f : Flow) (queued : Bool) (hdue : f.finDue = true) :
      FlowMove f ((f.sent (flagAck ||| flagFin) f.sndNxt [] queued).advance 1)
  | probe (f : Flow) (queued : Bool) (hstate : f.state ≠ .synRcvd) (hlive : f.state ≠ .closed)
      (hidle : f.sndNxt = f.sndUna) (hmore : f.txbuf ≠ []) :
      FlowMove f ((f.sent flagAck f.sndNxt (f.txbuf.take 1) queued).advance 1)

variable {η : Type} {c d e : Conn η}

structure Reaches (c d : Conn η) : Prop where
  env : Grows c.env d.env
  released : d.env.released = c.env.released
  flow : Relation.ReflTransGen FlowMove c.flow d.flow

/-- The flow went on, or it came to its end and was released. -/
def Outcome (c d : Conn η) : Prop :=
  Reaches c d ∨ ∃ last, Reaches c last ∧ Over last.flow ∧ d = last.netFlowFree

namespace Reaches

theorem refl (c : Conn η) : Reaches c c := ⟨.refl _, rfl, .refl⟩

theorem trans (h : Reaches c d) (h' : Reaches d e) : Reaches c e :=
  ⟨h.env.trans h'.env, h'.released.trans h.released, h.flow.trans h'.flow⟩

theorem outcome (h : Reaches c d) (h' : Outcome d e) : Outcome c e := by
  rcases h' with h' | ⟨last, hlast, hover, rfl⟩
  · exact .inl (h.trans h')
  · exact .inr ⟨last, h.trans hlast, hover, rfl⟩

theorem free (h : Reaches c d) (hover : Over d.flow) : Outcome c d.netFlowFree :=
  .inr ⟨d, h, hover, rfl⟩

theorem setHost (c : Conn η) (host : η) : Reaches c (c.setHost host) :=
  ⟨.of_same rfl rfl rfl, rfl, .refl⟩

theorem setFlow {f : Flow} (h : FlowMove c.flow f) : Reaches c (c.setFlow f) :=
  ⟨.refl _, rfl, .single h⟩

end Reaches

theorem netEmit_released (env : Env η) (src dst : Word) (proto : Octet) (payload : List Octet) :
    (env.netEmit src dst proto payload).1.released = env.released := by
  unfold Env.netEmit
  split
  · rfl
  split
  · rfl
  split <;> rfl

theorem grows_tcpOut (c : Conn η) (flags : Octet) (seq : Word) (data : List Octet) :
    Grows c.env (c.tcpOut flags seq data).env := by
  unfold Conn.tcpOut
  dsimp only
  exact .netEmit rfl verifies_segment

theorem tcpOut_released (c : Conn η) (flags : Octet) (seq : Word) (data : List Octet) :
    (c.tcpOut flags seq data).env.released = c.env.released := by
  unfold Conn.tcpOut
  dsimp only
  exact netEmit_released ..

variable {flags : Octet} {data : List Octet}

theorem reaches_tcpOut {seq : Word}
    (h : ∀ queued, FlowMove c.flow (c.flow.sent flags seq data queued)) :
    Reaches c (c.tcpOut flags seq data) :=
  ⟨grows_tcpOut c flags seq data, tcpOut_released c flags seq data, .single (h _)⟩

theorem reaches_setFlow_sendNext {f : Flow} {count : ℕ}
    (h : ∀ queued, FlowMove c.flow ((f.sent flags f.sndNxt data queued).advance count)) :
    Reaches c ((c.setFlow f).sendNext flags data count) :=
  ⟨grows_tcpOut (c.setFlow f) flags f.sndNxt data, tcpOut_released (c.setFlow f) flags f.sndNxt data,
    .single (h _)⟩

theorem reaches_sendNext {count : ℕ}
    (h : ∀ queued, FlowMove c.flow ((c.flow.sent flags c.flow.sndNxt data queued).advance count)) :
    Reaches c (c.sendNext flags data count) := reaches_setFlow_sendNext h

theorem hasFlag_rst : hasFlag (flagRst ||| flagAck) flagRst = true := by decide

theorem tcpAbort_outcome (c : Conn η) : Outcome c c.tcpAbort := by
  apply Reaches.free (reaches_tcpOut fun queued ↦ .control c.flow queued (.inr rfl))
  have hevent : wasReset (c.tcpOut (flagRst ||| flagAck) c.flow.sndNxt []).flow.history = true := by
    change wasReset (c.flow.history ++ _) = true
    simp only [wasReset, List.any_append, List.any_cons, hasFlag_rst, Bool.true_or, Bool.or_true]
  exact .inr (.inr hevent)

theorem reaches_setTimers (c : Conn η) : Reaches c c.setTimers := .setFlow (.timers _ _)

theorem pumpAck_reaches (hlive : c.flow.state ≠ .closed) : Reaches c c.pumpAck := by
  unfold Conn.pumpAck
  split
  · exact reaches_tcpOut fun queued ↦ .control c.flow queued (.inl ⟨rfl, hlive⟩)
  · exact .refl c

theorem pumpFin_reaches (c : Conn η) :
    Reaches c c.pumpFin ∧ c.pumpFin.flow.state = c.flow.state := by
  unfold Conn.pumpFin
  split
  case isTrue hdue => exact ⟨reaches_sendNext fun queued ↦ .fin c.flow queued hdue, rfl⟩
  · exact ⟨.refl c, rfl⟩

theorem pumpData_reaches {turns sent : ℕ} (hstate : c.flow.state ≠ .synRcvd)
    (hlive : c.flow.state ≠ .closed)
    (hsent : c.flow.sndNxt = c.flow.sndUna + BitVec.ofNat 32 sent ∨ c.flow.txbuf.length ≤ sent) :
    Reaches c (c.pumpData turns sent) ∧ (c.pumpData turns sent).flow.state = c.flow.state := by
  induction turns generalizing c sent with
  | zero => exact ⟨.refl c, rfl⟩
  | succ turns ih =>
    rw [Conn.pumpData]
    split
    · exact ⟨.refl c, rfl⟩
    case isFalse hmore =>
      have hroom : sent < c.flow.txbuf.length := by omega
      have hplace := hsent.resolve_right (by omega)
      let data := c.flow.nextSegment sent
      have hturn : Reaches c (c.sendNext (flagAck ||| flagPsh) data data.length) :=
        reaches_sendNext fun queued ↦ .data c.flow _ queued hstate hlive hplace hroom
      have hnext : c.flow.sndNxt + BitVec.ofNat 32 data.length =
          c.flow.sndUna + BitVec.ofNat 32 (sent + data.length) := by
        rw [hplace, BitVec.ofNat_add, BitVec.add_assoc]
      have hrest := ih (c := c.sendNext (flagAck ||| flagPsh) data data.length) hstate hlive
        (.inl hnext)
      exact ⟨hturn.trans hrest.1, hrest.2⟩

theorem tcpInflight_spec (f : Flow) :
    f.sndNxt = f.sndUna + BitVec.ofNat 32 f.tcpInflight ∨ f.txbuf.length ≤ f.tcpInflight := by
  unfold Flow.tcpInflight
  dsimp only
  split
  · exact .inr le_rfl
  · left
    rw [BitVec.ofNat_toNat, BitVec.setWidth_eq, add_comm, sub_add_cancel]

theorem commitFin_state {f : Flow} (hlive : f.state ≠ .closed) : f.commitFin.state ≠ .closed := by
  unfold Flow.commitFin
  split
  · dsimp only
    split <;> simp
  · exact hlive

theorem tcpPump_reaches (hlive : c.flow.state ≠ .closed) : Reaches c c.tcpPump := by
  unfold Conn.tcpPump
  split
  · exact .refl c
  case isFalse hstate =>
    have hpast : c.flow.state ≠ .synRcvd := by
      intro hsyn
      simp [hsyn] at hstate
    have hdata : Reaches c
        (c.pumpData (c.flow.txbuf.length - c.flow.tcpInflight) c.flow.tcpInflight) ∧ _ :=
      pumpData_reaches hpast hlive (tcpInflight_spec c.flow)
    generalize c.pumpData (c.flow.txbuf.length - c.flow.tcpInflight) c.flow.tcpInflight = d at *
    have hcommit := hdata.1.trans (.setFlow (.commitFin _))
    have hopen : (d.setFlow d.flow.commitFin).flow.state ≠ .closed :=
      commitFin_state (hdata.2 ▸ hlive)
    have hfin := pumpFin_reaches (d.setFlow d.flow.commitFin)
    have hack := pumpAck_reaches (hfin.2 ▸ hopen)
    exact ((hcommit.trans hfin.1).trans hack).trans (reaches_setTimers _)

theorem pumpOrFree_outcome (hlive : c.flow.state ≠ .closed) : Outcome c c.pumpOrFree := by
  unfold Conn.pumpOrFree
  dsimp only
  split
  case isTrue hclosed => exact (tcpPump_reaches hlive).free (.inr (.inl (by simpa using hclosed)))
  · exact .inl (tcpPump_reaches hlive)

/-- The flow is not at its end, and its connect is done if there was anything to wait for. -/
def Connected (f : Flow) : Prop :=
  f.state ≠ .closed ∧ (f.state = .synRcvd → f.sndNxt ≠ f.sndUna)

section

variable (h : Connected c.flow)

include h

theorem retransmit_outcome : Outcome c c.retransmit := by
  have htimeOut : Reaches c (c.setFlow c.flow.timeOut) := .setFlow (.timeOut _)
  unfold Conn.retransmit
  split
  · dsimp only
    split
    · exact htimeOut.outcome (tcpAbort_outcome _)
    split
    case isTrue hpersist =>
      simp only [Bool.and_eq_true, beq_iff_eq, bne_iff_ne, ne_eq] at hpersist
      have hpast : c.flow.state ≠ .synRcvd := fun hsyn ↦ h.2 hsyn hpersist.1.1
      have hprobe : Reaches (c.setFlow c.flow.timeOut)
          ((c.setFlow c.flow.timeOut).sendNext flagAck (c.flow.txbuf.take 1) 1) :=
        reaches_sendNext fun queued ↦ .probe _ queued hpast h.1 hpersist.1.1 hpersist.1.2
      exact .inl (htimeOut.trans (hprobe.trans (reaches_setTimers _)))
    · have hrewind : Reaches (c.setFlow c.flow.timeOut) (c.setFlow c.flow.timeOut.rewind) :=
        .setFlow (.rewind _)
      exact (htimeOut.trans hrewind).outcome (pumpOrFree_outcome h.1)
  · exact pumpOrFree_outcome h.1

theorem drain_reaches : Reaches c c.drain.1 ∧ Connected c.drain.1.flow := by
  unfold Conn.drain
  split
  · exact ⟨.refl c, h⟩
  split
  · exact ⟨(Reaches.setHost c _).trans (.setFlow (.failed _)), h⟩
  · exact ⟨.setHost c _, h⟩
  · exact ⟨(Reaches.setHost c _).trans (.setFlow (.deliver _ _)), h⟩

theorem halfClose_reaches : Reaches c c.halfClose ∧ Connected c.halfClose.flow := by
  unfold Conn.halfClose
  split
  · exact ⟨(Reaches.setHost c _).trans (.setFlow (.shutdown _)), h⟩
  · exact ⟨.refl c, h⟩

theorem fillLoop_reaches {guard : ℕ} (hopen : c.flow.hostEof = false) :
    Reaches c (c.fillLoop guard).1 ∧ Connected (c.fillLoop guard).1.flow := by
  induction guard generalizing c with
  | zero => exact ⟨.refl c, h⟩
  | succ guard ih =>
    rw [Conn.fillLoop]
    split
    · exact ⟨.refl c, h⟩
    case isFalse hroom =>
      split
      · exact ⟨.setHost c _, h⟩
      case h_2 host first rest hrecv =>
        have hlength : (first :: rest).length ≤ netTcpTxbuf - c.flow.txbuf.length :=
          Egress.callRecv_le (congrArg Prod.snd hrecv)
        have happend : FlowMove c.flow (c.flow.append (first :: rest)) :=
          .append c.flow h.2 hopen (by omega)
        have hrest := ih (c := (c.setHost host).setFlow (c.flow.append (first :: rest))) h hopen
        exact ⟨((Reaches.setHost c host).trans (.setFlow happend)).trans hrest.1, hrest.2⟩
      · exact ⟨(Reaches.setHost c _).trans (.setFlow (.endStream _)), h⟩
      · exact ⟨(Reaches.setHost c _).trans (.setFlow (.failed _)), h⟩

theorem fill_reaches : Reaches c c.fill.1 ∧ Connected c.fill.1.flow := by
  unfold Conn.fill
  split
  · exact ⟨.refl c, h⟩
  case isFalse hopen => exact fillLoop_reaches h (by simpa using hopen)

theorem tickOpen_outcome : Outcome c c.tickOpen := by
  have hdrain := drain_reaches h
  unfold Conn.tickOpen
  split
  case h_1 drained heq =>
    rw [heq] at hdrain
    exact hdrain.1.outcome (tcpAbort_outcome _)
  case h_2 drained heq =>
    rw [heq] at hdrain
    have hhalf := halfClose_reaches hdrain.2
    have hfill := fill_reaches hhalf.2
    have hbefore := hdrain.1.trans hhalf.1
    split
    case h_1 filled hfilled =>
      rw [hfilled] at hfill
      exact (hbefore.trans hfill.1).outcome (tcpAbort_outcome _)
    case h_2 filled hfilled =>
      rw [hfilled] at hfill
      exact (hbefore.trans hfill.1).outcome (retransmit_outcome hfill.2)

end

theorem tickConnect_outcome (hstate : c.flow.state = .synRcvd)
    (hpending : c.flow.sndNxt = c.flow.sndUna) : Outcome c c.tickConnect := by
  unfold Conn.tickConnect
  split
  case h_1 host _ =>
    split
    · exact (Reaches.setHost c host).outcome (tcpAbort_outcome _)
    · exact .inl (.setHost c host)
  case h_2 host _ =>
    exact ((Reaches.setHost c host).trans (.setFlow (.failed _))).outcome (tcpAbort_outcome _)
  case h_3 host _ =>
    have hsend : Reaches (c.setHost host)
        (((c.setHost host).setFlow (c.flow.note .ready)).sendNext (flagSyn ||| flagAck) [] 1) :=
      reaches_setFlow_sendNext fun queued ↦ .connected c.flow queued hstate hpending
    exact .inl (((Reaches.setHost c host).trans hsend).trans (reaches_setTimers _))

theorem tickTimeWait_outcome (hstate : c.flow.state = .timeWait) : Outcome c c.tickTimeWait := by
  have hack := pumpAck_reaches (c := c) (by rw [hstate]; decide)
  have hsame : c.pumpAck.flow.state = .timeWait := by
    unfold Conn.pumpAck
    split
    · exact hstate
    · exact hstate
  unfold Conn.tickTimeWait
  dsimp only
  split
  · exact hack.free (.inl hsame)
  · exact .inl hack

theorem netTcpTick_outcome (c : Conn η) : Outcome c c.netTcpTick := by
  unfold Conn.netTcpTick
  split
  · exact .inl (.refl c)
  split
  case h_1 hstate => exact tickTimeWait_outcome hstate
  case h_2 hstate => exact (Reaches.refl c).free (.inr (.inl hstate))
  case h_3 hstate =>
    split
    case isTrue hpending => exact tickConnect_outcome hstate (by simpa using hpending)
    case isFalse hpending =>
      refine tickOpen_outcome ⟨?_, fun _ hsame ↦ hpending (by simpa using hsame)⟩
      rw [hstate]
      decide
  case h_4 hclosed hother =>
    exact tickOpen_outcome ⟨fun hsame ↦ hclosed hsame, fun hsyn ↦ (hother hsyn).elim⟩

end S5LBox.Net
