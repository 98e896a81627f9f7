import S5LBox.Net.Delivery

/-!
# Histories of runs

A property of histories that every move of a tick keeps, and every segment that meets a condition,
holds of all histories of a run whose segments meet it. `FlowRule` lists what there is to check.
-/

namespace S5LBox.Net

/-- A segment that is not a reset and not a SYN, and acknowledges. -/
def Segment.acknowledges (seg : Segment) : Bool :=
  !hasFlag seg.flags flagRst && !hasFlag seg.flags flagSyn && hasFlag seg.flags flagAck

/-- The flow that a datagram of the guest is for, and the segment it brings, if it brings any. -/
def Stack.arrival {η : Type} (s : Stack η) (pkt : List Octet) : Option (Flow × Segment) :=
  let seg := Stack.datagramPayload pkt
  if Stack.validDatagram s.env.cfg pkt && octetAt pkt 9 == protoTcp &&
      Stack.validSegment (getBe32 pkt 12) (getBe32 pkt 16) seg then
    (s.netFlowFind protoTcp (getBe16 seg 0) (getBe32 pkt 16) (getBe16 seg 2)).map fun i ↦
      (s.flow i, readSegment seg)
  else none

/-- The acknowledging segments that an operation brings meet a condition on the flow and the
segment. -/
def Meets {η : Type} (safe : Flow → Segment → Prop) (s : System η) : Op → Prop
  | .input pkt => ∀ f seg, s.stack.arrival pkt = some (f, seg) → seg.acknowledges → safe f seg
  | .tick _ => True
  | .output _ => True

/-- The histories of a stack: those of the flows it released and those of the flows it has. -/
def Stack.histories {η : Type} (s : Stack η) : List (List FlowEvent) :=
  s.env.released ++ (List.finRange netMaxFlows).map fun i ↦ (s.flow i).history

/-- `good` holds of a TCP flow through whatever happens to it, given that the segments it gets are
`safe`, and `ended` then holds of its history when it is released. -/
structure FlowRule (good : Flow → Prop) (ended : List FlowEvent → Prop)
    (safe : Flow → Segment → Prop) : Prop where
  move : ∀ f f', good f → FlowMove f f' → good f'
  ending : ∀ f, good f → Over f → ended f.history
  unused : ended []
  opened : ∀ (f : Flow) seg iss, f.history = [] → f.txbuf = [] → f.rxbuf = [] → f.finSent = false →
    f.hostEof = false → good (f.synFlow seg iss)
  handled : ∀ f handle closeAt, good f → good { f with handle, closeAt }
  touched : ∀ f lastMs, good f → good { f with lastMs }
  safe_touched : ∀ f seg lastMs, safe f seg → safe { f with lastMs } seg
  reset : ∀ f, good f → good (f.note .reset)
  again : ∀ f queued, good f → f.state = .synRcvd →
    good (f.sent (flagSyn ||| flagAck) f.sndUna [] queued)
  acked : ∀ (f : Flow) nowMs seg, good f → safe f seg → (f.receiveAck nowMs seg).handshaking = true →
    good (f.receiveAck nowMs seg)
  rest : ∀ (f : Flow) nowMs seg, good f → safe f seg → (f.receiveAck nowMs seg).handshaking = false →
    good ((f.receiveAck nowMs seg).receiveRest nowMs seg)

/-- No TCP flow: a UDP flow or none. -/
def Idle (f : Flow) : Prop :=
  f.proto ≠ protoTcp ∧ f.history = [] ∧ (f.used = true → f.proto = protoUdp)

/-- A TCP flow is good; any other has no history. -/
def Settled (good : Flow → Prop) (f : Flow) : Prop := (f.proto = protoTcp ∧ good f) ∨ Idle f

/-- The flow that is serviced is settled and the released ones ended well. -/
structure Kept {η : Type} (good : Flow → Prop) (ended : List FlowEvent → Prop) (c : Conn η) :
    Prop where
  flow : Settled good c.flow
  released : ∀ history ∈ c.env.released, ended history

variable {η : Type} {good : Flow → Prop} {ended : List FlowEvent → Prop}
  {safe : Flow → Segment → Prop} {c d : Conn η}

theorem idle_blank : Idle .blank := by
  refine ⟨by decide, rfl, ?_⟩
  intro hused
  cases hused

theorem settled_blank : Settled good .blank := .inr idle_blank

theorem FlowMove.proto {f f' : Flow} (h : FlowMove f f') : f'.proto = f.proto := by
  cases h with
  | timers nowMs =>
    unfold Flow.tcpTimers
    split
    · split <;> rfl
    · rfl
  | commitFin =>
    unfold Flow.commitFin
    split <;> rfl
  | _ => rfl

theorem receiveAck_frame (f : Flow) (nowMs : Word) (seg : Segment) :
    (f.receiveAck nowMs seg).proto = f.proto ∧ (f.receiveAck nowMs seg).used = f.used := by
  unfold Flow.receiveAck Flow.tcpConsumeAck Flow.finAcked
  dsimp only
  split
  · exact ⟨rfl, rfl⟩
  split
  · split <;> exact ⟨rfl, rfl⟩
  · exact ⟨rfl, rfl⟩

theorem receiveRest_proto (f : Flow) (nowMs : Word) (seg : Segment) :
    (f.receiveRest nowMs seg).proto = f.proto := by
  have hestablish : (f.establish seg.ack).proto = f.proto := by
    unfold Flow.establish
    split <;> rfl
  have hdata (f : Flow) : (f.receiveData seg).proto = f.proto := by
    unfold Flow.receiveData
    split
    · split <;> rfl
    · rfl
  have hfin (f : Flow) : (f.receiveFin nowMs seg).proto = f.proto := by
    unfold Flow.receiveFin Flow.acceptFin
    split
    · split
      · rfl
      split
      · dsimp only
        split <;> rfl
      · rfl
    · rfl
  rw [Flow.receiveRest, hfin, hdata, hestablish]

theorem synFlow_proto (f : Flow) (seg : List Octet) (iss : Word) :
    (f.synFlow seg iss).proto = f.proto := rfl

theorem openFlow_eq (c : Conn η) (seg : List Octet) : c.openFlow seg = Conn.openHandle
      { env := { c.env with issWalk := c.env.issWalk + 0x9e3779b9 }
        flow := c.flow.synFlow seg (c.env.issWalk + 0x9e3779b9) } := by
  unfold Conn.openFlow
  rfl

namespace FlowRule

variable (rule : FlowRule good ended safe)

include rule

theorem free (hflow : good c.flow) (hover : Over c.flow) (hproto : c.flow.proto = protoTcp)
    (hreleased : ∀ history ∈ c.env.released, ended history) : Kept good ended c.netFlowFree := by
  unfold Conn.netFlowFree
  split
  · exact ⟨.inl ⟨hproto, hflow⟩, hreleased⟩
  · refine ⟨settled_blank, ?_⟩
    intro history hmem
    rcases List.mem_append.1 hmem with hmem | hmem
    · exact hreleased history hmem
    · obtain rfl := List.mem_singleton.1 hmem
      exact rule.ending c.flow hflow hover

section

variable (hproto : c.flow.proto = protoTcp)

include hproto

theorem reaches (hflow : good c.flow) (h : Reaches c d) :
    d.flow.proto = protoTcp ∧ good d.flow := by
  have hmoves (f : Flow) (h : Relation.ReflTransGen FlowMove c.flow f) :
      f.proto = protoTcp ∧ good f := by
    induction h with
    | refl => exact ⟨hproto, hflow⟩
    | tail _ hmove ih => exact ⟨hmove.proto.trans ih.1, rule.move _ _ ih.2 hmove⟩
  exact hmoves d.flow h.flow

theorem outcome (hflow : good c.flow) (hreleased : ∀ history ∈ c.env.released, ended history)
    (h : Outcome c d) : Kept good ended d := by
  rcases h with h | ⟨last, hlast, hover, rfl⟩
  · refine ⟨.inl (rule.reaches hproto hflow h), ?_⟩
    rw [h.released]
    exact hreleased
  · have hend := rule.reaches hproto hflow hlast
    apply rule.free hend.2 hover hend.1
    rw [hlast.released]
    exact hreleased

theorem respond (hused : c.flow.used = true) (hflow : good c.flow)
    (hreleased : ∀ history ∈ c.env.released, ended history) {seg : Segment}
    (hsafe : seg.acknowledges → safe c.flow seg) : Kept good ended (c.respond seg) := by
  unfold Conn.respond
  split
  · have hreset : wasReset (c.flow.note .reset).history = true := by
      change wasReset (c.flow.history ++ [.reset]) = true
      simp only [wasReset, List.any_append, List.any_cons, Bool.true_or, Bool.or_true]
    exact rule.free (c := c.setFlow _) (rule.reset c.flow hflow) (.inr (.inr hreset)) hproto hreleased
  case isFalse hrst =>
    split
    · unfold Conn.receiveSyn
      split
      case isTrue hstate =>
        split
        · refine ⟨.inl ⟨hproto, rule.again c.flow _ hflow (by simpa using hstate)⟩, ?_⟩
          rw [tcpOut_released]
          exact hreleased
        · exact ⟨.inl ⟨hproto, hflow⟩, hreleased⟩
      · exact rule.outcome hproto hflow hreleased (tcpAbort_outcome c)
    case isFalse hsyn =>
      split
      · exact ⟨.inl ⟨hproto, hflow⟩, hreleased⟩
      case isFalse hack =>
        have hacks : safe c.flow seg := by
          apply hsafe
          unfold Segment.acknowledges
          simp only [Bool.not_eq_true, Bool.not_eq_true', Bool.not_eq_false] at hrst hsyn hack
          rw [hrst, hsyn, hack]
          rfl
        have hframe := receiveAck_frame c.flow c.env.nowMs seg
        unfold Conn.receiveAck
        dsimp only
        rw [hframe.2, hused, Bool.not_true, Bool.false_or]
        split
        case isTrue hwait =>
          exact ⟨.inl ⟨hframe.1.trans hproto, rule.acked _ _ _ hflow hacks hwait⟩, hreleased⟩
        case isFalse hwait =>
          have hrest := rule.rest c.flow c.env.nowMs seg hflow hacks (by simpa using hwait)
          have hkind := (receiveRest_proto (c.flow.receiveAck c.env.nowMs seg) c.env.nowMs seg).trans
            (hframe.1.trans hproto)
          exact rule.outcome (c := c.setFlow _) hkind hrest hreleased (netTcpTick_outcome _)

theorem openHandle (hflow : good c.flow) (hreleased : ∀ history ∈ c.env.released, ended history) :
    Kept good ended c.openHandle := by
  unfold Conn.openHandle
  split
  split
  · refine rule.outcome ?_ ?_ ?_ (tcpAbort_outcome _)
    · exact hproto
    · exact rule.move _ _ (rule.handled c.flow _ c.flow.closeAt hflow) (.failed _)
    · exact hreleased
  · refine rule.outcome ?_ ?_ ?_ (netTcpTick_outcome _)
    · exact hproto
    · exact rule.handled c.flow _ _ hflow
    · exact hreleased

omit hproto in
theorem openHandle_walk {f : Flow} (iss : Word) (hproto : f.proto = protoTcp) (hflow : good f)
    (hreleased : ∀ history ∈ c.env.released, ended history) : Kept good ended
      (Conn.openHandle { env := { c.env with issWalk := iss }, flow := f }) :=
  rule.openHandle hproto hflow hreleased

theorem openFlow {seg : List Octet} (hflow : ∀ iss, good (c.flow.synFlow seg iss))
    (hreleased : ∀ history ∈ c.env.released, ended history) : Kept good ended (c.openFlow seg) := by
  rw [openFlow_eq]
  exact rule.openHandle_walk _ ((synFlow_proto ..).trans hproto) (hflow _) hreleased

end

theorem free_idle (hidle : Idle c.flow) (hreleased : ∀ history ∈ c.env.released, ended history) :
    Kept good ended c.netFlowFree := by
  unfold Conn.netFlowFree
  split
  · exact ⟨.inr hidle, hreleased⟩
  · refine ⟨settled_blank, ?_⟩
    intro history hmem
    rcases List.mem_append.1 hmem with hmem | hmem
    · exact hreleased history hmem
    · obtain rfl := List.mem_singleton.1 hmem
      rw [hidle.2.1]
      exact rule.unused

theorem udpSend (hidle : Idle c.flow) (hreleased : ∀ history ∈ c.env.released, ended history)
    (payload : List Octet) : Kept good ended (c.udpSend payload) := by
  unfold Conn.udpSend
  split
  · exact rule.free_idle (c := c.touch.setHost _) hidle hreleased
  · exact ⟨.inr hidle, hreleased⟩

theorem udpOpen (hidle : Idle c.flow) (hreleased : ∀ history ∈ c.env.released, ended history)
    (payload : List Octet) : Kept good ended (c.udpOpen payload) := by
  unfold Conn.udpOpen
  split
  split
  · exact rule.free_idle (c := c.setHost _) hidle hreleased
  · refine rule.udpSend ?_ ?_ payload
    · exact hidle
    · exact hreleased

theorem udpPoll {guard : ℕ} (hidle : Idle c.flow)
    (hreleased : ∀ history ∈ c.env.released, ended history) :
    Idle (c.udpPoll guard).flow ∧ ∀ history ∈ (c.udpPoll guard).env.released, ended history := by
  induction guard generalizing c with
  | zero => exact ⟨hidle, hreleased⟩
  | succ guard ih =>
    have hfree (host : η) : Idle (c.setHost host).netFlowFree.flow ∧
        ∀ history ∈ (c.setHost host).netFlowFree.env.released, ended history := by
      have hkept := rule.free_idle (c := c.setHost host) hidle hreleased
      refine ⟨?_, hkept.released⟩
      unfold Conn.netFlowFree
      split
      · exact hidle
      · exact idle_blank
    rw [Conn.udpPoll]
    split
    · exact ⟨hidle, hreleased⟩
    case h_2 host first rest _ =>
      have hsame : ((c.setHost host).relay (first :: rest)).1.env.released = c.env.released :=
        netEmit_released ..
      have hflow : ((c.setHost host).relay (first :: rest)).1.flow = c.flow := rfl
      split
      case h_1 relayed heq =>
        rw [heq] at hsame hflow
        dsimp only at hsame hflow
        rw [hsame, hflow]
        exact ⟨hidle, hreleased⟩
      case h_2 relayed heq =>
        rw [heq] at hsame hflow
        dsimp only at hsame hflow
        have hkeep : Idle relayed.flow := by rwa [hflow]
        exact ih (c := relayed.touch) hkeep (by
          change ∀ history ∈ relayed.env.released, ended history
          rwa [hsame])
    · exact hfree _
    · exact hfree _

theorem udpTick (hidle : Idle c.flow) (hreleased : ∀ history ∈ c.env.released, ended history) :
    Kept good ended c.udpTick := by
  have hdrop (c : Conn η) (hidle : Idle c.flow)
      (hreleased : ∀ history ∈ c.env.released, ended history) : Kept good ended c.dropIdle := by
    unfold Conn.dropIdle
    split
    · exact rule.free_idle hidle hreleased
    · exact ⟨.inr hidle, hreleased⟩
  unfold Conn.udpTick
  split
  · exact hdrop c hidle hreleased
  · have hpoll := @udpPoll _ _ _ _ _ rule 8 hidle hreleased
    exact hdrop _ hpoll.1 hpoll.2

end FlowRule

/-- All flows of the stack are settled and those it released ended well. -/
structure SettledStack (good : Flow → Prop) (ended : List FlowEvent → Prop) (s : Stack η) :
    Prop where
  flows : ∀ i, Settled good (s.flow i)
  released : ∀ history ∈ s.env.released, ended history

namespace SettledStack

variable {s : Stack η}

theorem of_env (h : SettledStack good ended s) {env : Env η}
    (hsame : env.released = s.env.released) : SettledStack good ended { s with env } := by
  refine ⟨h.flows, ?_⟩
  change ∀ history ∈ env.released, ended history
  rw [hsame]
  exact h.released

theorem service (h : SettledStack good ended s) {i : Fin netMaxFlows} {act : Conn η → Conn η}
    (hact : Kept good ended (act ⟨s.env, s.flow i⟩)) :
    SettledStack good ended (s.service i act) := by
  refine ⟨?_, hact.released⟩
  intro j
  unfold Stack.service
  dsimp only
  by_cases hsame : j = i
  · rw [hsame, Function.update_self]
    exact hact.flow
  · rw [Function.update_of_ne hsame]
    exact h.flows j

end SettledStack

theorem netFlowFind_spec {s : Stack η} {proto : Octet} {guestPort dstPort : Half} {dstIp : Word}
    {i : Fin netMaxFlows} (h : s.netFlowFind proto guestPort dstIp dstPort = some i) :
    (s.flow i).used = true ∧ (s.flow i).proto = proto := by
  have hfound := List.find?_some h
  simp only [Bool.and_eq_true, beq_iff_eq] at hfound
  exact ⟨hfound.1.1.1.1, hfound.1.1.1.2⟩

namespace FlowRule

variable (rule : FlowRule good ended safe) {s : Stack η}

include rule

theorem udpInput (h : SettledStack good ended s) (src dst : Word) (p : List Octet) :
    SettledStack good ended (s.udpInput src dst p) := by
  unfold Stack.udpInput
  dsimp only
  split
  · exact h
  split
  · exact h
  split
  · exact h
  split
  · exact h.of_env (dnsInput_sends ..).released
  split
  case h_1 i hfind =>
    have hspec := netFlowFind_spec hfind
    have hidle : Idle (s.flow i) := by
      rcases h.flows i with htcp | hidle
      · rw [hspec.2] at htcp
        exact absurd htcp.1 (by decide)
      · exact hidle
    exact h.service (rule.udpSend (c := ⟨s.env, s.flow i⟩) hidle h.released _)
  split
  · exact h
  · refine h.service (rule.udpOpen ?_ ?_ _)
    · refine ⟨?_, rfl, fun _ ↦ rfl⟩
      change protoUdp ≠ protoTcp
      decide
    · exact h.released

theorem netTcpInput (h : SettledStack good ended s) {src dst : Word} {seg : List Octet}
    (hsafe : Stack.validSegment src dst seg = true →
      ∀ i, s.netFlowFind protoTcp (getBe16 seg 0) dst (getBe16 seg 2) = some i →
        (readSegment seg).acknowledges → safe (s.flow i) (readSegment seg)) :
    SettledStack good ended (s.netTcpInput src dst seg) := by
  unfold Stack.netTcpInput
  dsimp only
  split
  · exact h
  case isFalse hvalid =>
    split
    case h_1 i hfind =>
      have hspec := netFlowFind_spec hfind
      have hgood : good (s.flow i) := by
        rcases h.flows i with htcp | hidle
        · exact htcp.2
        · exact absurd hspec.2 hidle.1
      refine h.service (rule.respond ?_ ?_ ?_ ?_ ?_)
      · exact hspec.2
      · exact hspec.1
      · exact rule.touched (s.flow i) _ hgood
      · exact h.released
      · intro hacks
        exact rule.safe_touched _ _ _ (hsafe (by simpa using hvalid) i hfind hacks)
    case h_2 hfind =>
      split
      · unfold Stack.tcpSyn
        split
        · exact h.of_env (tcpReject_sends ..).released
        · refine h.service (rule.openFlow ?_ ?_ ?_)
          · rfl
          · exact fun iss ↦ rule.opened _ seg iss rfl rfl rfl rfl rfl
          · exact h.released
      · exact h.of_env (tcpReject_sends ..).released

theorem netInput (h : SettledStack good ended s) {pkt : List Octet}
    (hsafe : ∀ f seg, s.arrival pkt = some (f, seg) → seg.acknowledges → safe f seg) :
    SettledStack good ended (s.netInput pkt) := by
  unfold Stack.netInput
  split
  · exact h
  case isFalse hvalid =>
    dsimp only
    split
    · exact h.of_env (icmpInput_sends _ (src_of_valid hvalid) _ _).released
    split
    · exact rule.udpInput h _ _ _
    split
    case isTrue htcp =>
      apply rule.netTcpInput h
      intro hsegment i hfind hacks
      refine hsafe _ _ ?_ hacks
      have hguard : (Stack.validDatagram s.env.cfg pkt && octetAt pkt 9 == protoTcp &&
          Stack.validSegment (getBe32 pkt 12) (getBe32 pkt 16) (Stack.datagramPayload pkt)) =
            true := by
        rw [hsegment, htcp]
        simpa using hvalid
      unfold Stack.arrival
      dsimp only
      rw [if_pos hguard, hfind]
      rfl
    · exact h

theorem netTick (h : SettledStack good ended s) (nowMs : Word) :
    SettledStack good ended (s.netTick nowMs) := by
  have hflow (s : Stack η) (h : SettledStack good ended s) (i : Fin netMaxFlows) :
      SettledStack good ended (s.tickFlow i) := by
    unfold Stack.tickFlow
    split
    · exact h
    case isFalse hused =>
      split
      case isTrue hudp =>
        refine h.service (rule.udpTick ?_ ?_)
        · rcases h.flows i with htcp | hidle
          · rw [hudp] at htcp
            exact absurd htcp.1 (by decide)
          · exact hidle
        · exact h.released
      case isFalse hudp =>
        rcases h.flows i with htcp | hidle
        · refine h.service (rule.outcome ?_ ?_ ?_ (netTcpTick_outcome _))
          · exact htcp.1
          · exact htcp.2
          · exact h.released
        · exact absurd (hidle.2.2 (by simpa using hused)) hudp
  have hflows (flows : List (Fin netMaxFlows)) (s : Stack η) (h : SettledStack good ended s) :
      SettledStack good ended (flows.foldl Stack.tickFlow s) := by
    induction flows generalizing s with
    | nil => exact h
    | cons i rest ih => exact ih _ (hflow s h i)
  unfold Stack.netTick
  split
  · exact h
  · exact hflows _ _ (h.of_env rfl)

theorem step {s : System η} (h : SettledStack good ended s.stack) {op : Op}
    (hmeets : Meets safe s op) : SettledStack good ended (s.step op).stack := by
  cases op with
  | input pkt => exact rule.netInput h hmeets
  | tick nowMs => exact rule.netTick h nowMs
  | output cap =>
    apply h.of_env
    unfold Env.netOutput
    split
    · rfl
    · split <;> rfl

theorem run {cfg : Config} {eg : Egress η} {host : η} {ops : List Op}
    (hwithin : Run.Within System.step (Meets safe) (System.init cfg eg host) ops) :
    SettledStack good ended (Run.run System.step (System.init cfg eg host) ops).stack := by
  have hstep : ∀ (s : System η) op, SettledStack good ended s.stack → Meets safe s op →
      SettledStack good ended (s.step op).stack := fun s op h hmeets ↦ rule.step h hmeets
  refine Run.invariant_of_within (fun s ↦ SettledStack good ended s.stack) hstep ?_ hwithin
  refine ⟨fun i ↦ settled_blank, ?_⟩
  intro history hmem
  cases hmem

end FlowRule

theorem SettledStack.histories {s : Stack η} (h : SettledStack good ended s)
    {lawful : List FlowEvent → Prop} (hgood : ∀ f, good f → lawful f.history)
    (hended : ∀ history, ended history → lawful history) (hnone : lawful []) :
    ∀ history ∈ s.histories, lawful history := by
  intro history hmem
  rcases List.mem_append.1 hmem with hmem | hmem
  · exact hended history (h.released history hmem)
  · obtain ⟨i, _, rfl⟩ := List.mem_map.1 hmem
    rcases h.flows i with htcp | hidle
    · exact hgood _ htcp.2
    · rw [hidle.2.1]
      exact hnone

end S5LBox.Net
