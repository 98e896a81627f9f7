import S5LBox.Net.Moves

/-!
# What the guest is handed

Every function of the stack does no more to the queue than put well-formed datagrams at its end, so
what the guest is handed over a whole run is what was queued, in order and as it was queued.
-/

namespace S5LBox.Net

variable {η : Type} {c d : Conn η}

theorem setHost_grows (c : Conn η) (host : η) : Grows c.env (c.setHost host).env :=
  .of_same rfl rfl rfl

theorem Grows.of_setFlow {f : Flow} {env : Env η} (h : Grows (c.setFlow f).env env) :
    Grows c.env env := h

theorem netFlowFree_grows (c : Conn η) : Grows c.env c.netFlowFree.env := by
  unfold Conn.netFlowFree
  split
  · exact .refl _
  · exact .of_same rfl rfl rfl

theorem Outcome.grows (h : Outcome c d) : Grows c.env d.env := by
  rcases h with h | ⟨last, hlast, hover, rfl⟩
  · exact h.env
  · exact hlast.env.trans (netFlowFree_grows last)

theorem respond_grows (c : Conn η) (seg : Segment) : Grows c.env (c.respond seg).env := by
  unfold Conn.respond
  split
  · exact .of_setFlow (netFlowFree_grows _)
  split
  · unfold Conn.receiveSyn
    split
    · split
      · exact grows_tcpOut c _ _ _
      · exact .refl _
    · exact (tcpAbort_outcome c).grows
  split
  · exact .refl _
  · unfold Conn.receiveAck
    dsimp only
    split
    · exact .refl _
    · exact .of_setFlow (netTcpTick_outcome _).grows

theorem openFlow_grows (c : Conn η) (seg : List Octet) : Grows c.env (c.openFlow seg).env := by
  have hhandle (c : Conn η) : Grows c.env c.openHandle.env := by
    unfold Conn.openHandle
    split
    case h_1 host handle _ =>
      split
      · exact (setHost_grows c host).trans (.of_setFlow (tcpAbort_outcome _).grows)
      · exact (setHost_grows c host).trans (.of_setFlow (netTcpTick_outcome _).grows)
  let iss := c.env.issWalk + 0x9e3779b9
  have hwalk : Grows c.env { c.env with issWalk := iss } := .of_same rfl rfl rfl
  exact hwalk.trans (hhandle { env := { c.env with issWalk := iss }, flow := c.flow.synFlow seg iss })

theorem udpSend_grows (c : Conn η) (payload : List Octet) :
    Grows c.env (c.udpSend payload).env := by
  unfold Conn.udpSend
  split
  · exact (setHost_grows c _).trans (netFlowFree_grows (c.touch.setHost _))
  · exact setHost_grows c _

theorem udpOpen_grows (c : Conn η) (payload : List Octet) :
    Grows c.env (c.udpOpen payload).env := by
  unfold Conn.udpOpen
  split
  case h_1 host handle _ =>
    split
    · exact (setHost_grows c host).trans (netFlowFree_grows _)
    · exact (setHost_grows c host).trans (.of_setFlow (udpSend_grows _ payload))

theorem udpPoll_grows (c : Conn η) (guard : ℕ) : Grows c.env (c.udpPoll guard).env := by
  induction guard generalizing c with
  | zero => exact .refl _
  | succ guard ih =>
    rw [Conn.udpPoll]
    split
    case h_1 host _ => exact setHost_grows c host
    case h_2 host first rest _ =>
      have hrelay : Grows c.env ((c.setHost host).relay (first :: rest)).1.env :=
        (setHost_grows c host).trans (.netEmit rfl verifies_udpDatagram)
      split
      case h_1 relayed heq =>
        rw [heq] at hrelay
        exact hrelay
      case h_2 relayed heq =>
        rw [heq] at hrelay
        exact hrelay.trans (ih relayed.touch)
    case h_3 host _ => exact (setHost_grows c host).trans (netFlowFree_grows _)
    case h_4 host _ => exact (setHost_grows c host).trans (netFlowFree_grows _)

theorem udpTick_grows (c : Conn η) : Grows c.env c.udpTick.env := by
  have hidle (c : Conn η) : Grows c.env c.dropIdle.env := by
    unfold Conn.dropIdle
    split
    · exact netFlowFree_grows c
    · exact .refl _
  unfold Conn.udpTick
  split
  · exact hidle c
  · exact (udpPoll_grows c 8).trans (hidle _)

/-- The host may have relayed an echo or resolved a name. -/
def Asked (env : Env η) (host : η) : Prop :=
  host = env.host ∨ (∃ ip icmp, host = env.eg.callIcmpEcho env.host ip icmp) ∨
    ∃ name, host = (env.eg.callResolve env.host name).1

/-- What is done beside the flows: the host is asked, or a datagram for the guest that verifies is
emitted. -/
def Sends (env env' : Env η) : Prop :=
  ∃ host, Asked env host ∧ (env' = { env with host } ∨ ∃ src proto payload,
      (payload.length ≤ netMtu - ipv4HdrLen → Verifies src env.cfg.guestIp proto payload) ∧
        env' = ({ env with host }.netEmit src env.cfg.guestIp proto payload).1)

namespace Sends

variable {env env' : Env η}

theorem refl (env : Env η) : Sends env env := ⟨_, .inl rfl, .inl rfl⟩

theorem emit {src : Word} {proto : Octet} {payload : List Octet}
    (h : payload.length ≤ netMtu - ipv4HdrLen → Verifies src env.cfg.guestIp proto payload) :
    Sends env (env.netEmit src env.cfg.guestIp proto payload).1 :=
  ⟨_, .inl rfl, .inr ⟨src, proto, payload, h, rfl⟩⟩

theorem grows (h : Sends env env') : Grows env env' := by
  obtain ⟨host, -, rfl | ⟨src, proto, payload, hverifies, rfl⟩⟩ := h
  · exact .of_same rfl rfl rfl
  · have hhost : Grows env { env with host } := .of_same rfl rfl rfl
    exact hhost.trans (.netEmit rfl hverifies)

theorem released (h : Sends env env') : env'.released = env.released := by
  obtain ⟨host, -, rfl | ⟨src, proto, payload, -, rfl⟩⟩ := h
  · rfl
  · exact netEmit_released ..

end Sends

section Env

variable (env : Env η)

theorem tcpReject_sends (dstIp : Word) (seg : List Octet) (paylen : ℕ) :
    Sends env (env.tcpReject dstIp seg paylen) := by
  have hreset (srcPort dstPort : Half) (seq ack : Word) (offset flags : Octet) (wnd : Half) :
      Verifies dstIp env.cfg.guestIp protoTcp (sealTcp dstIp env.cfg.guestIp
        (tcpHeader srcPort dstPort seq ack offset flags wnd)) := by
    have hshort : (tcpHeader srcPort dstPort seq ack offset flags wnd ++ []).length ≤ 65535 := by
      rw [List.append_nil, length_tcpHeader]
      decide
    have hseal : Verifies dstIp env.cfg.guestIp protoTcp (sealTcp dstIp env.cfg.guestIp
        (tcpHeader srcPort dstPort seq ack offset flags wnd ++ [])) := verifies_sealTcp hshort
    rwa [List.append_nil] at hseal
  unfold Env.tcpReject
  dsimp only
  split
  · exact .refl _
  · apply Sends.emit
    intro _
    split
    · exact hreset ..
    · exact hreset ..

theorem icmpInput_sends {src : Word} (hsrc : src = env.cfg.guestIp) (dst : Word) (p : List Octet) :
    Sends env (env.icmpInput src dst p) := by
  subst hsrc
  unfold Env.icmpInput
  split
  · exact .refl _
  case isFalse hlong =>
    split
    · exact .refl _
    split
    · exact .refl _
    split
    · split
      · exact .refl _
      case isFalse hshort =>
        apply Sends.emit
        intro _
        exact verifies_echo (by omega) (by omega)
    · exact ⟨_, .inr (.inl ⟨_, _, rfl⟩), .inl rfl⟩

theorem dnsReply_sends {host : η} (gport : Half) (q : List Octet) (qend : ℕ) (rcode : DnsRcode)
    (answer : Option Word) (hhost : Asked env host) :
    Sends env ({ env with host }.dnsReply gport q qend rcode answer) := by
  unfold Env.dnsReply
  split
  · exact ⟨host, hhost, .inl rfl⟩
  · exact ⟨host, hhost, .inr ⟨_, _, _, verifies_udpDatagram, rfl⟩⟩

theorem dnsInput_sends (gport : Half) (p : List Octet) : Sends env (env.dnsInput gport p) := by
  have hreply (qend : ℕ) (rcode : DnsRcode) (answer : Option Word) :
      Sends env (env.dnsReply gport p qend rcode answer) := dnsReply_sends env _ _ _ _ _ (.inl rfl)
  have hanswer (qend : ℕ) (name : List Octet) : Sends env (env.dnsAnswer gport p qend name) := by
    unfold Env.dnsAnswer
    split
    · exact hreply ..
    split
    · exact hreply ..
    split
    · exact hreply ..
    have hname : Asked env (env.eg.callResolve env.host name).1 := .inr (.inr ⟨name, rfl⟩)
    generalize env.eg.callResolve env.host name = result at *
    rcases result with ⟨host, _ | _ | _⟩
    · exact dnsReply_sends env _ _ _ _ _ hname
    · exact dnsReply_sends env _ _ _ _ _ hname
    · exact dnsReply_sends env _ _ _ _ _ hname
  unfold Env.dnsInput
  split
  · exact .refl _
  split
  · exact .refl _
  split
  · exact hreply ..
  split
  · exact hreply ..
  split
  · exact hreply ..
  · exact hanswer _ _

end Env

theorem src_of_valid {cfg : Config} {pkt : List Octet}
    (h : ¬(!Stack.validDatagram cfg pkt) = true) : getBe32 pkt 12 = cfg.guestIp := by
  unfold Stack.validDatagram at h
  simp only [Bool.not_eq_true', Bool.not_eq_false, Bool.and_eq_true, beq_iff_eq] at h
  exact h.2

section Stack

variable (s : Stack η)

theorem service_grows {i : Fin netMaxFlows} {act : Conn η → Conn η}
    (h : ∀ c, Grows c.env (act c).env) : Grows s.env (s.service i act).env := h ⟨s.env, s.flow i⟩

theorem udpInput_grows (src dst : Word) (p : List Octet) :
    Grows s.env (s.udpInput src dst p).env := by
  unfold Stack.udpInput
  dsimp only
  split
  · exact .refl _
  split
  · exact .refl _
  split
  · exact .refl _
  split
  · exact (dnsInput_sends s.env _ _).grows
  split
  · exact service_grows s fun c ↦ udpSend_grows c _
  split
  · exact .refl _
  · exact service_grows s fun c ↦ .of_setFlow (udpOpen_grows _ _)

theorem netTcpInput_grows (src dst : Word) (seg : List Octet) :
    Grows s.env (s.netTcpInput src dst seg).env := by
  unfold Stack.netTcpInput
  dsimp only
  split
  · exact .refl _
  split
  · exact service_grows s fun c ↦ .of_setFlow (respond_grows c.touch _)
  split
  · unfold Stack.tcpSyn
    split
    · exact (tcpReject_sends s.env _ _ _).grows
    · exact service_grows s fun c ↦ .of_setFlow (openFlow_grows _ seg)
  · exact (tcpReject_sends s.env _ _ _).grows

theorem netInput_grows (pkt : List Octet) : Grows s.env (s.netInput pkt).env := by
  unfold Stack.netInput
  split
  · exact .refl _
  case isFalse hvalid =>
    dsimp only
    split
    · exact (icmpInput_sends s.env (src_of_valid hvalid) _ _).grows
    split
    · exact udpInput_grows s _ _ _
    split
    · exact netTcpInput_grows s _ _ _
    · exact .refl _

theorem netTick_grows (nowMs : Word) : Grows s.env (s.netTick nowMs).env := by
  have hflow (s : Stack η) (i : Fin netMaxFlows) : Grows s.env (s.tickFlow i).env := by
    unfold Stack.tickFlow
    split
    · exact .refl _
    split
    · exact service_grows s udpTick_grows
    · exact service_grows s fun c ↦ (netTcpTick_outcome c).grows
  have hflows (flows : List (Fin netMaxFlows)) (s : Stack η) :
      Grows s.env (flows.foldl Stack.tickFlow s).env := by
    induction flows generalizing s with
    | nil => exact .refl _
    | cons i rest ih => exact (hflow s i).trans (ih _)
  unfold Stack.netTick
  split
  · exact .refl _
  · have hclock : Grows s.env { s.env with nowMs } := .of_same rfl rfl rfl
    exact hclock.trans (hflows _ { s with env := { s.env with nowMs } })

end Stack

/-- What was taken and what still waits are what was queued, and the guest accepts all of it. -/
structure Orderly (cfg : Config) (s : System η) : Prop where
  config : s.stack.env.cfg = cfg
  order : s.delivered ++ s.stack.env.out.contents netOutSlots = s.stack.env.queued
  good : ∀ d ∈ s.stack.env.queued, WellFormed cfg d

theorem Orderly.grows {cfg : Config} {s : System η} {stack : Stack η} (h : Orderly cfg s)
    (hgrows : Grows s.stack.env stack.env) : Orderly cfg { s with stack } := by
  obtain ⟨sent, hqueued, hout, hgood⟩ := hgrows.queue
  refine ⟨hgrows.cfg.trans h.config, ?_, ?_⟩
  · change s.delivered ++ stack.env.out.contents netOutSlots = stack.env.queued
    rw [hout, ← List.append_assoc, h.order, hqueued]
  · intro d hd
    change d ∈ stack.env.queued at hd
    rw [hqueued] at hd
    rcases List.mem_append.1 hd with hd | hd
    · exact h.good d hd
    · rw [← h.config]
      exact hgood d hd

theorem Orderly.step {cfg : Config} {s : System η} (h : Orderly cfg s) (op : Op) :
    Orderly cfg (s.step op) := by
  cases op with
  | input pkt => exact h.grows (netInput_grows s.stack pkt)
  | tick nowMs => exact h.grows (netTick_grows s.stack nowMs)
  | output cap =>
    unfold System.step Env.netOutput
    dsimp only
    split
    · rw [Option.toList_none, List.append_nil]
      exact h
    case h_2 d hpeek =>
      split
      · rw [Option.toList_none, List.append_nil]
        exact h
      · have hfront := (RingBuffer.contents_peek (by decide) hpeek).1
        refine ⟨h.config, ?_, h.good⟩
        rw [← h.order, hfront, Option.toList_some, List.append_assoc, List.singleton_append]

theorem Orderly.init (cfg : Config) (eg : Egress η) (host : η) :
    Orderly cfg (.init cfg eg host) := by
  refine ⟨rfl, ?_, ?_⟩
  · change [] ++ RingBuffer.contents _ _ = []
    rw [RingBuffer.contents_of_empty rfl, List.append_nil]
  · intro d hd
    cases hd

/-- In every run the guest is handed well-formed datagrams only, in the order in which they were
queued and as they were queued, and what it has not been handed still waits. -/
theorem delivered_of_run (cfg : Config) (eg : Egress η) (host : η) (ops : List Op) :
    let s := Run.run System.step (System.init cfg eg host) ops
    (∀ d ∈ s.delivered, WellFormed cfg d) ∧
      s.delivered ++ s.stack.env.out.contents netOutSlots = s.stack.env.queued := by
  have hstep : ∀ (s : System η) (op : Op), Orderly cfg s → Orderly cfg (s.step op) :=
    fun _ op h ↦ h.step op
  have horderly := Run.invariant hstep (Orderly.init cfg eg host) ops
  refine ⟨?_, horderly.order⟩
  intro d hd
  apply horderly.good
  rw [← horderly.order]
  exact List.mem_append_left _ hd

end S5LBox.Net
