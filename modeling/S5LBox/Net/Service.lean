import S5LBox.Net.Histories

/-!
# The work of the stack

What any function of the stack does to a flow it services is a sequence of small pieces of work: a
segment or a datagram toward the guest, a call with the flow's handle, or a change of the flow
alone. At the end of it the flow may be released. The stack works on one flow after another, opens
a flow in a free slot, or does something beside its flows.
-/

namespace S5LBox.Net

/-- Release the flow in a slot. -/
def Stack.freeFlow {η : Type} (s : Stack η) (i : Fin netMaxFlows) : Stack η :=
  if (s.flow i).used then s.service i Conn.netFlowFree else s

def Stack.freeFlows {η : Type} (s : Stack η) : Stack η :=
  (List.finRange netMaxFlows).foldl Stack.freeFlow s

/-- `net_reset`: release every flow and start again. -/
def Stack.netReset {η : Type} (s : Stack η) : Stack η :=
  netInit s.freeFlows.env.cfg s.freeFlows.env.eg s.freeFlows.env.host

inductive NetOp
  | op (op : Op)
  | reset

/-- A run may reset the stack at any time. -/
def System.act {η : Type} (s : System η) : NetOp → System η
  | .op op => s.step op
  | .reset => { s with stack := s.stack.netReset }

/-- The flow is in use and has a handle. -/
def Held (f : Flow) : Prop := f.used = true ∧ 0 ≤ f.handle

/-- The two flows agree on what they are for and on the guest's side of the connection. -/
structure Aside (f f' : Flow) : Prop where
  used : f'.used = f.used
  proto : f'.proto = f.proto
  guestPort : f'.guestPort = f.guestPort
  dstIp : f'.dstIp = f.dstIp
  dstPort : f'.dstPort = f.dstPort
  handle : f'.handle = f.handle
  rcvNxt : f'.rcvNxt = f.rcvNxt
  rxbuf : f'.rxbuf = f.rxbuf
  history : f'.history = f.history

/-- Events that are neither a segment nor about the guest's side. -/
def FlowEvent.quiet : FlowEvent → Bool
  | .opened _ _ => false
  | .segment _ _ _ _ _ => false
  | .buffered _ _ _ => false
  | .finished => false
  | .delivered _ => false
  | _ => true

/-- The guest's FIN takes its sequence number. -/
def Flow.finish (f : Flow) : Flow :=
  { f with rcvNxt := f.rcvNxt + 1, needAck := true }.note .finished

inductive FlowWork : Flow → Flow → Prop
  | aside {f f' : Flow} (h : Aside f f') : FlowWork f f'
  | note (f : Flow) {event : FlowEvent} (h : event.quiet = true) : FlowWork f (f.note event)
  | deliver (f : Flow) (count : ℕ) : FlowWork f (f.deliver count)
  | take (f : Flow) (seg : Segment) : FlowWork f (f.takePayload seg)
  | finish (f : Flow) : FlowWork f f.finish

variable {η : Type}

/-- What a call with a handle, other than to close it, leaves of the host. -/
inductive Calls (eg : Egress η) (handle : ℤ) (host : η) : η → Prop
  | status : Calls eg handle host (eg.callStatus host handle).1
  | send (data : List Octet) : Calls eg handle host (eg.callSend host handle data).1
  | recv (cap : ℕ) : Calls eg handle host (eg.callRecv host handle cap).1
  | shutdownTx : Calls eg handle host (eg.callShutdownTx host handle)

inductive Work : Conn η → Conn η → Prop
  | segment (c : Conn η) {flags : Octet} (seq : Word) (data : List Octet)
      (hack : hasFlag flags flagAck = true) : Work c (c.tcpOut flags seq data)
  | datagram (c : Conn η) (payload : List Octet) : Work c (c.relay payload).1
  | flow (c : Conn η) {f : Flow} (h : FlowWork c.flow f) : Work c (c.setFlow f)
  | call (c : Conn η) {host : η} (hheld : Held c.flow)
      (h : Calls c.env.eg c.flow.handle c.env.host host) : Work c (c.setHost host)

abbrev Works : Conn η → Conn η → Prop := Relation.ReflTransGen Work

/-- The flow was worked on, and perhaps released then. -/
def Serviced (c d : Conn η) : Prop := Works c d ∨ ∃ last, Works c last ∧ d = last.netFlowFree

variable {c d e : Conn η}

namespace Serviced

theorem after (h : Works c d) (h' : Serviced d e) : Serviced c e := by
  rcases h' with h' | ⟨last, hlast, rfl⟩
  · exact .inl (h.trans h')
  · exact .inr ⟨last, h.trans hlast, rfl⟩

theorem free (h : Works c d) : Serviced c d.netFlowFree := .inr ⟨d, h, rfl⟩

end Serviced

/-- What a flow is for. -/
def Flow.tuple (f : Flow) : Octet × Half × Word × Half := (f.proto, f.guestPort, f.dstIp, f.dstPort)

theorem FlowWork.frame {f f' : Flow} (h : FlowWork f f') :
    f'.used = f.used ∧ f'.tuple = f.tuple ∧ f'.handle = f.handle := by
  cases h with
  | aside h =>
    refine ⟨h.used, ?_, h.handle⟩
    unfold Flow.tuple
    rw [h.proto, h.guestPort, h.dstIp, h.dstPort]
  | note => exact ⟨rfl, rfl, rfl⟩
  | deliver => exact ⟨rfl, rfl, rfl⟩
  | take => exact ⟨rfl, rfl, rfl⟩
  | finish => exact ⟨rfl, rfl, rfl⟩

theorem netEmit_queued (env : Env η) (src dst : Word) (proto : Octet) (payload : List Octet) :
    ((env.netEmit src dst proto payload).2 = false ∧
        (env.netEmit src dst proto payload).1.queued = env.queued) ∨
      ((env.netEmit src dst proto payload).2 = true ∧ ∃ header, header.length = ipv4HdrLen ∧
        (env.netEmit src dst proto payload).1.queued = env.queued ++ [header ++ payload]) := by
  unfold Env.netEmit
  split
  · exact .inl ⟨rfl, rfl⟩
  split
  · exact .inl ⟨rfl, rfl⟩
  case h_2 header hbuild =>
    split
    · exact .inl ⟨rfl, rfl⟩
    · exact .inr ⟨rfl, header, (netBuildIpv4_spec hbuild).2.1, rfl⟩

/-- What no work on a flow changes, and that the queue only gets longer. -/
structure Framed (c d : Conn η) : Prop where
  used : d.flow.used = c.flow.used
  tuple : d.flow.tuple = c.flow.tuple
  handle : d.flow.handle = c.flow.handle
  cfg : d.env.cfg = c.env.cfg
  eg : d.env.eg = c.env.eg
  released : d.env.released = c.env.released
  queued : ∃ more, d.env.queued = c.env.queued ++ more

theorem netEmit_frame (env : Env η) (src dst : Word) (proto : Octet) (payload : List Octet) :
    (env.netEmit src dst proto payload).1.cfg = env.cfg ∧
      (env.netEmit src dst proto payload).1.eg = env.eg ∧
      (env.netEmit src dst proto payload).1.host = env.host := by
  unfold Env.netEmit
  split
  · exact ⟨rfl, rfl, rfl⟩
  split
  · exact ⟨rfl, rfl, rfl⟩
  split <;> exact ⟨rfl, rfl, rfl⟩

theorem netEmit_more (env : Env η) (src dst : Word) (proto : Octet) (payload : List Octet) :
    ∃ more, (env.netEmit src dst proto payload).1.queued = env.queued ++ more := by
  rcases netEmit_queued env src dst proto payload with ⟨_, hqueued⟩ | ⟨_, header, _, hqueued⟩
  · exact ⟨[], by rw [hqueued, List.append_nil]⟩
  · exact ⟨_, hqueued⟩

theorem Work.framed (h : Work c d) : Framed c d := by
  cases h with
  | segment seq data hack =>
    unfold Conn.tcpOut
    have hframe := netEmit_frame c.env c.flow.dstIp c.env.cfg.guestIp protoTcp
    exact ⟨rfl, rfl, rfl, (hframe _).1, (hframe _).2.1, netEmit_released .., netEmit_more ..⟩
  | datagram payload =>
    unfold Conn.relay
    have hframe := netEmit_frame c.env c.flow.dstIp c.env.cfg.guestIp protoUdp
    exact ⟨rfl, rfl, rfl, (hframe _).1, (hframe _).2.1, netEmit_released .., netEmit_more ..⟩
  | flow h =>
    obtain ⟨hused, htuple, hhandle⟩ := h.frame
    exact ⟨hused, htuple, hhandle, rfl, rfl, rfl, [], (List.append_nil _).symm⟩
  | call hheld h => exact ⟨rfl, rfl, rfl, rfl, rfl, rfl, [], (List.append_nil _).symm⟩

theorem works_framed (h : Works c d) : Framed c d := by
  induction h with
  | refl => exact ⟨rfl, rfl, rfl, rfl, rfl, rfl, [], (List.append_nil _).symm⟩
  | tail _ hwork ih =>
    have hstep := hwork.framed
    obtain ⟨more, hmore⟩ := ih.queued
    obtain ⟨last, hlast⟩ := hstep.queued
    exact ⟨hstep.used.trans ih.used, hstep.tuple.trans ih.tuple, hstep.handle.trans ih.handle,
      hstep.cfg.trans ih.cfg, hstep.eg.trans ih.eg, hstep.released.trans ih.released,
      more ++ last, by rw [hlast, hmore, List.append_assoc]⟩

theorem works_held (h : Works c d) (hheld : Held c.flow) : Held d.flow := by
  have hframed := works_framed h
  exact ⟨hframed.used.trans hheld.1, hheld.2.trans_eq hframed.handle.symm⟩

theorem works_aside {f : Flow} (h : Aside c.flow f) : Works c (c.setFlow f) :=
  .single (.flow c (.aside h))

theorem works_note {event : FlowEvent} (h : event.quiet = true) :
    Works c (c.setFlow (c.flow.note event)) :=
  .single (.flow c (.note c.flow h))

theorem works_tcpOut {flags : Octet} (hack : hasFlag flags flagAck = true) (seq : Word)
    (data : List Octet) : Works c (c.tcpOut flags seq data) :=
  .single (.segment c seq data hack)

theorem works_sendNext {flags : Octet} (hack : hasFlag flags flagAck = true) (data : List Octet)
    (count : ℕ) : Works c (c.sendNext flags data count) :=
  (works_tcpOut hack c.flow.sndNxt data).trans (works_aside (by constructor <;> rfl))

theorem works_setTimers (c : Conn η) : Works c c.setTimers := by
  refine works_aside ?_
  unfold Flow.tcpTimers
  split
  · split
    · constructor <;> rfl
    · constructor <;> rfl
  · constructor <;> rfl

theorem works_pumpAck (c : Conn η) : Works c c.pumpAck := by
  unfold Conn.pumpAck
  split
  · exact works_tcpOut (by decide) _ _
  · exact .refl

theorem works_pumpFin (c : Conn η) : Works c c.pumpFin := by
  unfold Conn.pumpFin
  split
  · exact works_sendNext (by decide) _ _
  · exact .refl

theorem works_pumpData (turns sent : ℕ) (c : Conn η) : Works c (c.pumpData turns sent) := by
  induction turns generalizing c sent with
  | zero => exact .refl
  | succ turns ih =>
    rw [Conn.pumpData]
    split
    · exact .refl
    · exact (works_sendNext (by decide) _ _).trans (ih _ _)

theorem works_commitFin (c : Conn η) : Works c (c.setFlow c.flow.commitFin) := by
  refine works_aside ?_
  unfold Flow.commitFin
  split <;> constructor <;> rfl

theorem works_tcpPump (c : Conn η) : Works c c.tcpPump := by
  unfold Conn.tcpPump
  split
  · exact .refl
  · have hdata := works_pumpData (c.flow.txbuf.length - c.flow.tcpInflight) c.flow.tcpInflight c
    have hcommit := hdata.trans (works_commitFin _)
    exact ((hcommit.trans (works_pumpFin _)).trans (works_pumpAck _)).trans (works_setTimers _)

theorem tcpAbort_serviced (c : Conn η) : Serviced c c.tcpAbort :=
  .free (works_tcpOut (by decide) _ _)

theorem pumpOrFree_serviced (c : Conn η) : Serviced c c.pumpOrFree := by
  unfold Conn.pumpOrFree
  dsimp only
  split
  · exact .free (works_tcpPump c)
  · exact .inl (works_tcpPump c)

theorem retransmit_serviced (c : Conn η) : Serviced c c.retransmit := by
  have htimeOut : Works c (c.setFlow c.flow.timeOut) := works_aside (by constructor <;> rfl)
  unfold Conn.retransmit
  split
  · dsimp only
    split
    · exact .after htimeOut (tcpAbort_serviced _)
    split
    · have hprobe : Works (c.setFlow c.flow.timeOut)
          ((c.setFlow c.flow.timeOut).sendNext flagAck (c.flow.txbuf.take 1) 1) :=
        works_sendNext (by decide) _ _
      exact .inl (htimeOut.trans (hprobe.trans (works_setTimers _)))
    · have hrewind : Works c (c.setFlow c.flow.timeOut.rewind) :=
        works_aside (by constructor <;> rfl)
      exact .after hrewind (pumpOrFree_serviced _)
  · exact pumpOrFree_serviced c

section

variable (hheld : Held c.flow)

include hheld

theorem works_send (data : List Octet) :
    Works c (c.setHost (c.env.eg.callSend c.env.host c.flow.handle data).1) :=
  .single (.call c hheld (.send data))

theorem works_recv (cap : ℕ) :
    Works c (c.setHost (c.env.eg.callRecv c.env.host c.flow.handle cap).1) :=
  .single (.call c hheld (.recv cap))

theorem works_drain : Works c c.drain.1 := by
  have hsend := works_send hheld c.flow.rxbuf
  unfold Conn.drain
  split
  · exact .refl
  generalize c.env.eg.callSend c.env.host c.flow.handle c.flow.rxbuf = result at *
  rcases result with ⟨host, _ | _ | count⟩
  · exact hsend.trans (works_note rfl)
  · exact hsend
  · exact hsend.tail (.flow _ (.deliver _ _))

theorem works_halfClose : Works c c.halfClose := by
  unfold Conn.halfClose
  split
  · have hcall : Works c (c.setHost (c.env.eg.callShutdownTx c.env.host c.flow.handle)) :=
      .single (.call c hheld .shutdownTx)
    exact hcall.trans (works_aside (by constructor <;> rfl))
  · exact .refl

theorem works_fillLoop {guard : ℕ} : Works c (c.fillLoop guard).1 := by
  induction guard generalizing c with
  | zero => exact .refl
  | succ guard ih =>
    rw [Conn.fillLoop]
    split
    · exact .refl
    have hrecv := works_recv hheld (netTcpTxbuf - c.flow.txbuf.length)
    generalize c.env.eg.callRecv c.env.host c.flow.handle (netTcpTxbuf - c.flow.txbuf.length) =
      result at *
    rcases result with ⟨host, ⟨_ | ⟨first, rest⟩⟩ | _ | _⟩
    · exact hrecv
    · have hroom : Works (c.setHost host)
          ((c.setHost host).setFlow { c.flow with txbuf := c.flow.txbuf ++ first :: rest }) :=
        works_aside (by constructor <;> rfl)
      have happend : Works c ((c.setHost host).setFlow (c.flow.append (first :: rest))) :=
        (hrecv.trans hroom).trans (works_note rfl)
      exact happend.trans (ih hheld)
    · have hend : Works (c.setHost host) ((c.setHost host).setFlow { c.flow with hostEof := true }) :=
        works_aside (by constructor <;> rfl)
      exact (hrecv.trans hend).trans (works_note rfl)
    · exact hrecv.trans (works_note rfl)

theorem works_fill : Works c c.fill.1 := by
  unfold Conn.fill
  split
  · exact .refl
  · exact works_fillLoop hheld

theorem tickOpen_serviced : Serviced c c.tickOpen := by
  have hdrain := works_drain hheld
  unfold Conn.tickOpen
  generalize c.drain = drained at *
  rcases drained with ⟨drained, _ | _⟩
  · exact .after hdrain (tcpAbort_serviced _)
  have hhalf := hdrain.trans (works_halfClose (works_held hdrain hheld))
  have hfill := hhalf.trans (works_fill (works_held hhalf hheld))
  dsimp only
  generalize drained.halfClose.fill = filled at *
  rcases filled with ⟨filled, _ | _⟩
  · exact .after hfill (tcpAbort_serviced _)
  · exact .after hfill (retransmit_serviced _)

theorem tickConnect_serviced : Serviced c c.tickConnect := by
  have hstatus : Works c (c.setHost (c.env.eg.callStatus c.env.host c.flow.handle).1) :=
    .single (.call c hheld .status)
  unfold Conn.tickConnect
  generalize c.env.eg.callStatus c.env.host c.flow.handle = result at *
  rcases result with ⟨host, _ | _ | _⟩
  · dsimp only
    split
    · exact .after hstatus (tcpAbort_serviced _)
    · exact .inl hstatus
  · have hready : Works c ((c.setHost host).setFlow (c.flow.note .ready)) :=
      hstatus.trans (works_note rfl)
    exact .inl ((hready.trans (works_sendNext (by decide) _ _)).trans (works_setTimers _))
  · exact .after (hstatus.trans (works_note rfl)) (tcpAbort_serviced _)

omit hheld in
theorem tickTimeWait_serviced (c : Conn η) : Serviced c c.tickTimeWait := by
  unfold Conn.tickTimeWait
  dsimp only
  split
  · exact .free (works_pumpAck c)
  · exact .inl (works_pumpAck c)

theorem netTcpTick_serviced : Serviced c c.netTcpTick := by
  unfold Conn.netTcpTick
  split
  · exact .inl .refl
  split
  · exact tickTimeWait_serviced c
  · exact .free .refl
  · split
    · exact tickConnect_serviced hheld
    · exact tickOpen_serviced hheld
  · exact tickOpen_serviced hheld

end

theorem receiveAck_aside (f : Flow) (nowMs : Word) (seg : Segment) :
    Aside f (f.receiveAck nowMs seg) := by
  unfold Flow.receiveAck Flow.tcpConsumeAck Flow.finAcked
  dsimp only
  split
  · constructor <;> rfl
  split
  · split <;> constructor <;> rfl
  · constructor <;> rfl

theorem works_establish (c : Conn η) (ack : Word) : Works c (c.setFlow (c.flow.establish ack)) := by
  unfold Flow.establish
  split
  · have hstate : Works c (c.setFlow { c.flow with state := .established }) :=
      works_aside (by constructor <;> rfl)
    exact hstate.trans (works_note rfl)
  · exact .refl

theorem works_receiveData (c : Conn η) (seg : Segment) :
    Works c (c.setFlow (c.flow.receiveData seg)) := by
  unfold Flow.receiveData
  split
  · split
    · exact .single (.flow c (.take _ seg))
    · exact works_aside (by constructor <;> rfl)
  · exact .refl

theorem works_receiveFin (c : Conn η) (nowMs : Word) (seg : Segment) :
    Works c (c.setFlow (c.flow.receiveFin nowMs seg)) := by
  unfold Flow.receiveFin
  split
  case isFalse => exact .refl
  split
  · exact works_aside (by constructor <;> rfl)
  split
  · have hfinish : Works c (c.setFlow c.flow.finish) := .single (.flow c (.finish _))
    refine hfinish.trans ?_
    have haside : Aside c.flow.finish (c.flow.acceptFin nowMs) := by
      unfold Flow.acceptFin
      dsimp only
      split <;> constructor <;> rfl
    exact works_aside haside
  · exact .refl

theorem works_receiveRest (c : Conn η) (nowMs : Word) (seg : Segment) :
    Works c (c.setFlow (c.flow.receiveRest nowMs seg)) :=
  ((works_establish c seg.ack).trans (works_receiveData _ seg)).trans
    (works_receiveFin _ nowMs seg)

theorem receive_serviced (hheld : Held c.flow) (seg : Segment) : Serviced c (c.receive seg) := by
  have htouch : Works c c.touch := works_aside (by constructor <;> rfl)
  change Serviced c (c.touch.respond seg)
  refine .after htouch ?_
  replace hheld := works_held htouch hheld
  generalize c.touch = c at *
  unfold Conn.respond
  split
  · exact .free (works_note rfl)
  split
  · unfold Conn.receiveSyn
    split
    · split
      · exact .inl (works_tcpOut (by decide) _ _)
      · exact .inl .refl
    · exact tcpAbort_serviced c
  split
  · exact .inl .refl
  · have hack : Works c (c.setFlow (c.flow.receiveAck c.env.nowMs seg)) :=
      works_aside (receiveAck_aside ..)
    unfold Conn.receiveAck
    dsimp only
    split
    · exact .inl hack
    · have hrest := hack.trans (works_receiveRest _ c.env.nowMs seg)
      exact .after hrest (netTcpTick_serviced (works_held hrest hheld))

theorem udpSend_serviced (hheld : Held c.flow) (payload : List Octet) :
    Serviced c (c.udpSend payload) := by
  have hsend := works_send hheld payload
  unfold Conn.udpSend
  generalize c.env.eg.callSend c.env.host c.flow.handle payload = result at *
  rcases result with ⟨host, _ | count⟩
  · exact .free (hsend.trans (works_aside (by constructor <;> rfl)))
  · exact .inl (hsend.trans (works_aside (by constructor <;> rfl)))

theorem udpPoll_serviced (guard : ℕ) (hheld : Held c.flow) : Serviced c (c.udpPoll guard) := by
  induction guard generalizing c with
  | zero => exact .inl .refl
  | succ guard ih =>
    have hrecv := works_recv hheld (netMtu - ipv4HdrLen - udpHdrLen)
    rw [Conn.udpPoll]
    generalize c.env.eg.callRecv c.env.host c.flow.handle (netMtu - ipv4HdrLen - udpHdrLen) =
      result at *
    rcases result with ⟨host, ⟨_ | ⟨first, rest⟩⟩ | _ | _⟩
    · exact .inl hrecv
    · have hrelay := hrecv.tail (.datagram (c.setHost host) (first :: rest))
      dsimp only
      generalize (c.setHost host).relay (first :: rest) = relayed at *
      rcases relayed with ⟨relayed, _ | _⟩
      · exact .inl hrelay
      · have htouch : Works c relayed.touch := hrelay.trans (works_aside (by constructor <;> rfl))
        exact .after htouch (ih (works_held htouch hheld))
    · exact .free hrecv
    · exact .free hrecv

theorem dropIdle_serviced (c : Conn η) : Serviced c c.dropIdle := by
  unfold Conn.dropIdle
  split
  · exact .free .refl
  · exact .inl .refl

theorem udpTick_serviced (hheld : Held c.flow) : Serviced c c.udpTick := by
  have hpoll := udpPoll_serviced 8 hheld
  unfold Conn.udpTick
  split
  · exact dropIdle_serviced c
  rcases hpoll with hpoll | ⟨last, hlast, hpoll⟩
  · exact .after hpoll (dropIdle_serviced _)
  · -- A flow that the poll released is not in use any more and is not released again.
    have hfreed : last.netFlowFree.flow.used = false := by
      unfold Conn.netFlowFree
      rw [(works_held hlast hheld).1]
      rfl
    have hsame : last.netFlowFree.dropIdle = last.netFlowFree := by
      unfold Conn.dropIdle
      rw [hfreed]
      rfl
    rw [hpoll, hsame]
    exact .free hlast

theorem netFlowFree_of_used (hused : c.flow.used = true) : c.netFlowFree =
    { env := { c.env with
        host := if 0 ≤ c.flow.handle then c.env.eg.callClose c.env.host c.flow.handle else c.env.host
        released := c.env.released ++ [c.flow.history] }
      flow := Flow.blank } := by
  unfold Conn.netFlowFree
  rw [if_neg (by simp [hused])]

theorem netFlowFree_of_refused (hused : c.flow.used = true) (hrefused : c.flow.handle < 0) :
    c.netFlowFree =
      { env := { c.env with released := c.env.released ++ [c.flow.history] }
        flow := Flow.blank } := by
  rw [netFlowFree_of_used hused, if_neg (not_le.2 hrefused)]

/-- Ask the egress for the flow. -/
def Conn.asked (c : Conn η) : Conn η :=
  let opened := c.env.eg.callOpen c.env.host c.flow.proto c.flow.dstIp c.flow.dstPort
  (c.setHost opened.1).setFlow { c.flow with handle := opened.2 }

/-- The flow was worked on; one that was refused is released. -/
def Opening (c d : Conn η) : Prop :=
  Serviced c d ∧ (c.flow.handle < 0 → ∃ last, Works c last ∧ d = last.netFlowFree)

theorem Opening.of_freed (h : Works c d) : Opening c d.netFlowFree := ⟨.free h, fun _ ↦ ⟨d, h, rfl⟩⟩

theorem Opening.of_held (hheld : Held c.flow) (h : Serviced c d) : Opening c d :=
  ⟨h, fun hnegative ↦ absurd hheld.2 (by omega)⟩

theorem openHandle_opening (hused : c.flow.used = true) (hproto : c.flow.proto = protoTcp) :
    Opening c.asked c.openHandle := by
  unfold Conn.asked Conn.openHandle
  rw [hproto]
  generalize c.env.eg.callOpen c.env.host protoTcp c.flow.dstIp c.flow.dstPort = opened
  obtain ⟨host, handle⟩ := opened
  dsimp only
  split
  · have hnote : Works ((c.setHost host).setFlow { c.flow with handle })
        ((c.setHost host).setFlow ({ c.flow with handle }.note .failed)) := works_note rfl
    exact .of_freed (hnote.trans (works_tcpOut (by decide) _ _))
  · have hheld : Held { c.flow with handle } := ⟨hused, by dsimp only; omega⟩
    have hset : Works ((c.setHost host).setFlow { c.flow with handle })
        ((c.setHost host).setFlow { c.flow with handle, closeAt := c.env.nowMs + 30000 }) :=
      works_aside (by constructor <;> rfl)
    exact .of_held hheld (.after hset (netTcpTick_serviced (works_held hset hheld)))

theorem udpOpen_opening (hused : c.flow.used = true) (hproto : c.flow.proto = protoUdp)
    (hnone : c.flow.handle < 0) (payload : List Octet) : Opening c.asked (c.udpOpen payload) := by
  unfold Conn.asked Conn.udpOpen
  rw [hproto]
  generalize c.env.eg.callOpen c.env.host protoUdp c.flow.dstIp c.flow.dstPort = opened
  obtain ⟨host, handle⟩ := opened
  dsimp only
  split
  case isTrue hnegative =>
    have hsame : (c.setHost host).netFlowFree =
        ((c.setHost host).setFlow { c.flow with handle }).netFlowFree := by
      rw [netFlowFree_of_refused (c := c.setHost host) hused hnone,
        netFlowFree_of_refused (c := (c.setHost host).setFlow { c.flow with handle }) hused
          hnegative]
      rfl
    rw [hsame]
    exact .of_freed .refl
  · have hheld : Held { c.flow with handle } := ⟨hused, by dsimp only; omega⟩
    exact .of_held hheld (udpSend_serviced hheld payload)

/-- What the stack does beside its flows: it may queue datagrams, resolve a name or relay an
echo. -/
structure Beside (env env' : Env η) : Prop where
  cfg : env'.cfg = env.cfg
  eg : env'.eg = env.eg
  released : env'.released = env.released
  queued : ∃ more, env'.queued = env.queued ++ more
  host : env'.host = env.host ∨ (∃ ip icmp, env'.host = env.eg.callIcmpEcho env.host ip icmp) ∨
    ∃ name, env'.host = (env.eg.callResolve env.host name).1

/-- A flow that was just made: nothing is buffered and at most the SYN has happened. -/
structure Fresh (f : Flow) : Prop where
  used : f.used = true
  rxbuf : f.rxbuf = []
  started : f.history = [] ∨ ∃ iss irs, f.history = [.opened iss irs] ∧ f.rcvNxt = irs + 1

inductive StackWork : Stack η → Stack η → Prop
  | beside (s : Stack η) {env : Env η} (h : Beside s.env env) : StackWork s { s with env }
  | serve (s : Stack η) (i : Fin netMaxFlows) (act : Conn η → Conn η)
      (hused : (s.flow i).used = true)
      (h : Serviced ⟨s.env, s.flow i⟩ (act ⟨s.env, s.flow i⟩)) : StackWork s (s.service i act)
  | opens (s : Stack η) (i : Fin netMaxFlows) (act : Conn η → Conn η) {env : Env η} {f : Flow}
      (hfree : (s.flow i).used = false)
      (hnew : ∀ j, (s.flow j).used = true → (s.flow j).tuple ≠ f.tuple)
      (henv : Beside s.env env) (hfresh : Fresh f)
      (h : Opening (Conn.asked ⟨env, f⟩) (act ⟨s.env, s.flow i⟩)) : StackWork s (s.service i act)

abbrev StackWorks : Stack η → Stack η → Prop := Relation.ReflTransGen StackWork

/-- Every flow in use has a handle. -/
def Stack.Holding (s : Stack η) : Prop := ∀ i, (s.flow i).used = true → 0 ≤ (s.flow i).handle

namespace Beside

variable {env env' env'' : Env η}

theorem of_same (hcfg : env'.cfg = env.cfg) (heg : env'.eg = env.eg)
    (hreleased : env'.released = env.released) (hqueued : env'.queued = env.queued)
    (hhost : env'.host = env.host) : Beside env env' :=
  ⟨hcfg, heg, hreleased, ⟨[], by rw [hqueued, List.append_nil]⟩, .inl hhost⟩

theorem refl (env : Env η) : Beside env env := of_same rfl rfl rfl rfl rfl

theorem of_sends (h : Sends env env') : Beside env env' := by
  have hqueued : ∃ more, env'.queued = env.queued ++ more := by
    obtain ⟨more, hmore, -⟩ := h.grows.queue
    exact ⟨more, hmore⟩
  obtain ⟨host, hhost, rfl | ⟨src, proto, payload, -, rfl⟩⟩ := id h
  · exact ⟨rfl, rfl, rfl, hqueued, hhost⟩
  · have hframe := netEmit_frame { env with host } src env.cfg.guestIp proto payload
    refine ⟨hframe.1, hframe.2.1, h.released, hqueued, ?_⟩
    rw [hframe.2.2]
    exact hhost

theorem netOutput (env : Env η) (cap : ℕ) : Beside env (env.netOutput cap).1 := by
  unfold Env.netOutput
  split
  · exact refl env
  split
  · exact refl env
  · exact of_same rfl rfl rfl rfl rfl

end Beside

theorem Serviced.frame (h : Serviced c d) (hused : d.flow.used = true) :
    c.flow.used = true ∧ d.flow.tuple = c.flow.tuple ∧ d.flow.handle = c.flow.handle := by
  rcases h with h | ⟨last, hlast, rfl⟩
  · have hframed := works_framed h
    exact ⟨hframed.used ▸ hused, hframed.tuple, hframed.handle⟩
  · have hframed := works_framed hlast
    by_cases hlive : last.flow.used = true
    · rw [netFlowFree_of_used hlive] at hused
      cases hused
    · have hsame : last.netFlowFree = last := by
        unfold Conn.netFlowFree
        rw [if_pos (by simpa using hlive)]
      rw [hsame] at hused
      exact absurd hused hlive

theorem Opening.held (h : Opening c d) (hused : d.flow.used = true) : 0 ≤ c.flow.handle := by
  by_contra hnegative
  obtain ⟨last, hlast, rfl⟩ := h.2 (not_le.1 hnegative)
  have hframe := h.1.frame hused
  have hlive : last.flow.used = true := (works_framed hlast).used.trans hframe.1
  rw [netFlowFree_of_used hlive] at hused
  cases hused

namespace Stack

variable {s s' : Stack η}

theorem service_flow {P : Flow → Prop} {i : Fin netMaxFlows} {act : Conn η → Conn η}
    (hact : P (act ⟨s.env, s.flow i⟩).flow) (hothers : ∀ j, j ≠ i → P (s.flow j)) :
    ∀ j, P ((s.service i act).flow j) := by
  intro j
  unfold service
  dsimp only
  by_cases hsame : j = i
  · rw [hsame, Function.update_self]
    exact hact
  · rw [Function.update_of_ne hsame]
    exact hothers j hsame

theorem Holding.work (hholding : s.Holding) (h : StackWork s s') : s'.Holding := by
  cases h with
  | beside h => exact hholding
  | serve i act hused h =>
    refine service_flow (P := fun f ↦ f.used = true → 0 ≤ f.handle) ?_ fun j _ ↦ hholding j
    intro hlive
    have hframe := h.frame hlive
    rw [hframe.2.2]
    exact hholding i hused
  | opens i act hfree hnew henv hfresh h =>
    refine service_flow (P := fun f ↦ f.used = true → 0 ≤ f.handle) ?_ fun j _ ↦ hholding j
    intro hlive
    rw [(h.1.frame hlive).2.2]
    exact h.held hlive

theorem Holding.works (hholding : s.Holding) (h : StackWorks s s') : s'.Holding := by
  induction h with
  | refl => exact hholding
  | tail _ hwork ih => exact ih.work hwork

theorem freeSlot_spec {i : Fin netMaxFlows} (h : s.freeSlot = some i) : (s.flow i).used = false := by
  have hfound := List.find?_some h
  simpa using hfound

theorem netFlowFind_none {proto : Octet} {guestPort dstPort : Half} {dstIp : Word}
    (h : s.netFlowFind proto guestPort dstIp dstPort = none) (j : Fin netMaxFlows)
    (hused : (s.flow j).used = true) : (s.flow j).tuple ≠ (proto, guestPort, dstIp, dstPort) := by
  intro htuple
  have hnone := List.find?_eq_none.1 h j (List.mem_finRange j)
  unfold Flow.tuple at htuple
  simp only [Prod.mk.injEq] at htuple
  simp [hused, htuple] at hnone

theorem serve (hholding : s.Holding) {i : Fin netMaxFlows} {act : Conn η → Conn η}
    (hused : (s.flow i).used = true)
    (hact : ∀ c : Conn η, Held c.flow → Serviced c (act c)) : StackWorks s (s.service i act) :=
  .single (.serve s i act hused (hact _ ⟨hused, hholding i hused⟩))

theorem works_udpInput (hholding : s.Holding) (src dst : Word) (p : List Octet) :
    StackWorks s (s.udpInput src dst p) := by
  unfold udpInput
  dsimp only
  split
  · exact .refl
  split
  · exact .refl
  split
  · exact .refl
  split
  · exact .single (.beside s (.of_sends (dnsInput_sends ..)))
  split
  case h_1 i hfind =>
    exact serve hholding (netFlowFind_spec hfind).1 fun c hheld ↦ udpSend_serviced hheld _
  case h_2 hfind =>
    split
    · exact .refl
    case h_2 i hslot =>
      let f := Flow.allocated protoUdp (getBe16 p 0) dst (getBe16 p 2) s.env.nowMs
      have hfresh : Fresh f := ⟨rfl, rfl, .inl rfl⟩
      refine .single (.opens s i _ (freeSlot_spec hslot) (netFlowFind_none hfind) (.refl _) hfresh ?_)
      have hnone : f.handle < 0 := Int.negSucc_lt_zero 0
      exact udpOpen_opening rfl rfl hnone _

theorem works_netTcpInput (hholding : s.Holding) (src dst : Word) (seg : List Octet) :
    StackWorks s (s.netTcpInput src dst seg) := by
  unfold netTcpInput
  dsimp only
  split
  · exact .refl
  split
  case h_1 i hfind =>
    exact serve hholding (netFlowFind_spec hfind).1 fun c hheld ↦ receive_serviced hheld _
  case h_2 hfind =>
    split
    · unfold tcpSyn
      split
      · exact .single (.beside s (.of_sends (tcpReject_sends ..)))
      case h_2 i hslot =>
        have hwalk : Beside s.env { s.env with issWalk := s.env.issWalk + 0x9e3779b9 } :=
          .of_same rfl rfl rfl rfl rfl
        let f := (Flow.allocated protoTcp (getBe16 seg 0) dst (getBe16 seg 2) s.env.nowMs).synFlow seg
          (s.env.issWalk + 0x9e3779b9)
        have hfresh : Fresh f := ⟨rfl, rfl, .inr ⟨_, _, rfl, rfl⟩⟩
        refine .single (.opens s i _ (freeSlot_spec hslot) (netFlowFind_none hfind) hwalk hfresh ?_)
        rw [openFlow_eq]
        exact openHandle_opening rfl rfl
    · exact .single (.beside s (.of_sends (tcpReject_sends ..)))

theorem works_netInput (hholding : s.Holding) (pkt : List Octet) :
    StackWorks s (s.netInput pkt) := by
  unfold netInput
  split
  · exact .refl
  rename_i hvalid
  dsimp only
  split
  · exact .single (.beside s (.of_sends (icmpInput_sends _ (src_of_valid hvalid) _ _)))
  split
  · exact works_udpInput hholding _ _ _
  split
  · exact works_netTcpInput hholding _ _ _
  · exact .refl

theorem works_foldl {visit : Stack η → Fin netMaxFlows → Stack η}
    (hvisit : ∀ s i, s.Holding → StackWorks s (visit s i)) (slots : List (Fin netMaxFlows))
    (hholding : s.Holding) : StackWorks s (slots.foldl visit s) := by
  induction slots generalizing s with
  | nil => exact .refl
  | cons i rest ih =>
    have hfirst := hvisit s i hholding
    exact hfirst.trans (ih (hholding.works hfirst))

theorem works_netTick (hholding : s.Holding) (nowMs : Word) : StackWorks s (s.netTick nowMs) := by
  have hvisit (s : Stack η) (i : Fin netMaxFlows) (hholding : s.Holding) :
      StackWorks s (s.tickFlow i) := by
    unfold tickFlow
    split
    · exact .refl
    case isFalse hused =>
      have hused : (s.flow i).used = true := by simpa using hused
      split
      · exact serve hholding hused fun c hheld ↦ udpTick_serviced hheld
      · exact serve hholding hused fun c hheld ↦ netTcpTick_serviced hheld
  unfold netTick
  split
  · exact .refl
  · have hclock : StackWork s { s with env := { s.env with nowMs } } :=
      .beside s (.of_same rfl rfl rfl rfl rfl)
    exact .head hclock (works_foldl hvisit _ (hholding.work hclock))

theorem works_freeFlows (hholding : s.Holding) : StackWorks s s.freeFlows := by
  refine works_foldl ?_ _ hholding
  intro s i hholding
  unfold freeFlow
  split
  case isTrue hused => exact serve hholding hused fun c _ ↦ .free .refl
  · exact .refl

end Stack

theorem System.works_step {s : System η} (hholding : s.stack.Holding) (op : Op) :
    StackWorks s.stack (s.step op).stack := by
  cases op with
  | input pkt => exact Stack.works_netInput hholding pkt
  | tick nowMs => exact Stack.works_netTick hholding nowMs
  | output cap => exact .single (.beside s.stack (.netOutput ..))

theorem Serviced.env (h : Serviced c d) : d.env.cfg = c.env.cfg ∧ d.env.eg = c.env.eg := by
  rcases h with h | ⟨last, hlast, rfl⟩
  · exact ⟨(works_framed h).cfg, (works_framed h).eg⟩
  · have hframed := works_framed hlast
    unfold Conn.netFlowFree
    split
    · exact ⟨hframed.cfg, hframed.eg⟩
    · exact ⟨hframed.cfg, hframed.eg⟩

namespace Stack

variable {s s' : Stack η}

theorem env_work (h : StackWork s s') : s'.env.cfg = s.env.cfg ∧ s'.env.eg = s.env.eg := by
  cases h with
  | beside h => exact ⟨h.cfg, h.eg⟩
  | serve i act hused h => exact h.env
  | opens i act hfree hnew henv hfresh h =>
    have hasked := h.1.env
    exact ⟨hasked.1.trans henv.cfg, hasked.2.trans henv.eg⟩

theorem freeFlow_used {i j : Fin netMaxFlows} (hused : ((s.freeFlow i).flow j).used = true) :
    (s.flow j).used = true ∧ j ≠ i := by
  unfold freeFlow at hused
  split at hused
  case isFalse hfree => exact ⟨hused, fun hsame ↦ hfree (hsame ▸ hused)⟩
  case isTrue hlive =>
    unfold service at hused
    rw [netFlowFree_of_used (c := ⟨s.env, s.flow i⟩) hlive] at hused
    dsimp only at hused
    by_cases hsame : j = i
    · rw [hsame, Function.update_self] at hused
      cases hused
    · rw [Function.update_of_ne hsame] at hused
      exact ⟨hused, hsame⟩

theorem freeFlows_used (s : Stack η) (j : Fin netMaxFlows) : (s.freeFlows.flow j).used = false := by
  have hfold (slots : List (Fin netMaxFlows)) (s : Stack η)
      (hused : ((slots.foldl freeFlow s).flow j).used = true) :
      (s.flow j).used = true ∧ j ∉ slots := by
    induction slots generalizing s with
    | nil => exact ⟨hused, List.not_mem_nil⟩
    | cons i rest ih =>
      have hrest := ih (s.freeFlow i) hused
      have hfirst := freeFlow_used hrest.1
      exact ⟨hfirst.1, by simp [hfirst.2, hrest.2]⟩
  by_contra hused
  exact (hfold _ s (by simpa [freeFlows] using hused)).2 (List.mem_finRange j)

/-- The run rule: what work keeps, and starting again keeps too, holds throughout the runs. -/
theorem kept_run {cfg : Config} {eg : Egress η} {host : η} {kept : Stack η → Prop}
    (hwork : ∀ s s', s.Holding → s.env.eg = eg → kept s → StackWork s s' → kept s')
    (hinit : kept (netInit cfg eg host))
    (hreset : ∀ s, kept s → (∀ i, (s.flow i).used = false) → kept (netInit cfg eg s.env.host))
    (ops : List NetOp) : kept (Run.run System.act (System.init cfg eg host) ops).stack := by
  let held (s : Stack η) := (s.Holding ∧ s.env.cfg = cfg ∧ s.env.eg = eg) ∧ kept s
  have hworks (s s' : Stack η) (hheld : held s) (h : StackWorks s s') : held s' := by
    induction h with
    | refl => exact hheld
    | tail _ hlast ih =>
      obtain ⟨⟨hholding, hcfg, heg⟩, hkept⟩ := ih
      have henv := env_work hlast
      exact ⟨⟨hholding.work hlast, henv.1.trans hcfg, henv.2.trans heg⟩,
        hwork _ _ hholding heg hkept hlast⟩
  have hholding (host : η) : (netInit cfg eg host).Holding := by
    intro i hused
    cases hused
  have hstep (s : System η) (op : NetOp) (hheld : held s.stack) : held (s.act op).stack := by
    cases op with
    | op op => exact hworks _ _ hheld (System.works_step hheld.1.1 op)
    | reset =>
      have hfreed := hworks _ _ hheld (works_freeFlows hheld.1.1)
      change held (netInit s.stack.freeFlows.env.cfg s.stack.freeFlows.env.eg _)
      rw [hfreed.1.2.1, hfreed.1.2.2]
      exact ⟨⟨hholding _, rfl, rfl⟩, hreset _ hfreed.2 (freeFlows_used _)⟩
  have hstart : held (System.init cfg eg host).stack := ⟨⟨hholding host, rfl, rfl⟩, hinit⟩
  have hrun : held (Run.run System.act (System.init cfg eg host) ops).stack :=
    @Run.invariant _ _ System.act (fun s ↦ held s.stack) hstep _ hstart ops
  exact hrun.2

end Stack

end S5LBox.Net
