import S5LBox.Ppp.Line

/-!
# The RFC 1661 table

Section 4.1 of the RFC as a table of actions and next states, and the handlers of `ppp.c` against
it: the cells on which they agree are all but those of `Deviates`.
-/

namespace S5LBox.Ppp

open List

/-- The events of section 4.1 that the handlers answer. -/
inductive RfcEvent where
  | toPlus
  | toMinus
  | rcrPlus
  | rcrMinus
  | rca
  | rcn
  | rtr
  | rta
  | rxjMinus
  deriving DecidableEq, Repr

/-- The actions of section 4.1. -/
inductive Action where
  | tlu
  | tld
  | tlf
  | irc
  | zrc
  | scr
  | sca
  | scn
  | str
  | sta
  deriving DecidableEq, Repr

/-- The table of section 4.1; an event that cannot happen in a state has no entry. -/
def rfc1661 : RfcEvent → State → Option (List Action × State)
  | _, .initial | _, .starting => none
  | .toPlus, .closing => some ([.str], .closing)
  | .toPlus, .stopping => some ([.str], .stopping)
  | .toPlus, .reqSent => some ([.scr], .reqSent)
  | .toPlus, .ackRcvd => some ([.scr], .reqSent)
  | .toPlus, .ackSent => some ([.scr], .ackSent)
  | .toPlus, _ => none
  | .toMinus, .closing => some ([.tlf], .closed)
  | .toMinus, .stopping => some ([.tlf], .stopped)
  | .toMinus, .reqSent => some ([.tlf], .stopped)
  | .toMinus, .ackRcvd => some ([.tlf], .stopped)
  | .toMinus, .ackSent => some ([.tlf], .stopped)
  | .toMinus, _ => none
  | .rcrPlus, .closed => some ([.sta], .closed)
  | .rcrPlus, .stopped => some ([.irc, .scr, .sca], .ackSent)
  | .rcrPlus, .closing => some ([], .closing)
  | .rcrPlus, .stopping => some ([], .stopping)
  | .rcrPlus, .reqSent => some ([.sca], .ackSent)
  | .rcrPlus, .ackRcvd => some ([.sca, .tlu], .opened)
  | .rcrPlus, .ackSent => some ([.sca], .ackSent)
  | .rcrPlus, .opened => some ([.tld, .scr, .sca], .ackSent)
  | .rcrMinus, .closed => some ([.sta], .closed)
  | .rcrMinus, .stopped => some ([.irc, .scr, .scn], .reqSent)
  | .rcrMinus, .closing => some ([], .closing)
  | .rcrMinus, .stopping => some ([], .stopping)
  | .rcrMinus, .reqSent => some ([.scn], .reqSent)
  | .rcrMinus, .ackRcvd => some ([.scn], .ackRcvd)
  | .rcrMinus, .ackSent => some ([.scn], .reqSent)
  | .rcrMinus, .opened => some ([.tld, .scr, .scn], .reqSent)
  | .rca, .closed => some ([.sta], .closed)
  | .rca, .stopped => some ([.sta], .stopped)
  | .rca, .closing => some ([], .closing)
  | .rca, .stopping => some ([], .stopping)
  | .rca, .reqSent => some ([.irc], .ackRcvd)
  | .rca, .ackRcvd => some ([.scr], .reqSent)
  | .rca, .ackSent => some ([.irc, .tlu], .opened)
  | .rca, .opened => some ([.tld, .scr], .reqSent)
  | .rcn, .closed => some ([.sta], .closed)
  | .rcn, .stopped => some ([.sta], .stopped)
  | .rcn, .closing => some ([], .closing)
  | .rcn, .stopping => some ([], .stopping)
  | .rcn, .reqSent => some ([.irc, .scr], .reqSent)
  | .rcn, .ackRcvd => some ([.scr], .reqSent)
  | .rcn, .ackSent => some ([.irc, .scr], .ackSent)
  | .rcn, .opened => some ([.tld, .scr], .reqSent)
  | .rtr, .closed => some ([.sta], .closed)
  | .rtr, .stopped => some ([.sta], .stopped)
  | .rtr, .closing => some ([.sta], .closing)
  | .rtr, .stopping => some ([.sta], .stopping)
  | .rtr, .reqSent => some ([.sta], .reqSent)
  | .rtr, .ackRcvd => some ([.sta], .reqSent)
  | .rtr, .ackSent => some ([.sta], .reqSent)
  | .rtr, .opened => some ([.tld, .zrc, .sta], .stopping)
  | .rta, .closed => some ([], .closed)
  | .rta, .stopped => some ([], .stopped)
  | .rta, .closing => some ([.tlf], .closed)
  | .rta, .stopping => some ([.tlf], .stopped)
  | .rta, .reqSent => some ([], .reqSent)
  | .rta, .ackRcvd => some ([], .reqSent)
  | .rta, .ackSent => some ([], .ackSent)
  | .rta, .opened => some ([.tld, .scr], .reqSent)
  | .rxjMinus, .closed => some ([.tlf], .closed)
  | .rxjMinus, .stopped => some ([.tlf], .stopped)
  | .rxjMinus, .closing => some ([.tlf], .closed)
  | .rxjMinus, .stopping => some ([.tlf], .stopped)
  | .rxjMinus, .reqSent => some ([.tlf], .stopped)
  | .rxjMinus, .ackRcvd => some ([.tlf], .stopped)
  | .rxjMinus, .ackSent => some ([.tlf], .stopped)
  | .rxjMinus, .opened => some ([.tld, .irc, .str], .stopping)

/-- What the handlers are called with. -/
inductive Input where
  | configureRequest (id : Octet) (opts : List Octet)
  | configureAck (id : Octet)
  | configureNak (id : Octet)
  | terminateRequest (id : Octet)
  | terminateAck
  | reject
  | timeout
  deriving DecidableEq

/-- The handler of an input. -/
def Input.handle (p : Peer) (proto : Control) : Input → Peer
  | .configureRequest id opts => evRcr p proto id opts
  | .configureAck id => evRca p proto id
  | .configureNak id => evRcn p proto id
  | .terminateRequest id => evRtr p proto id
  | .terminateAck => evRta p proto
  | .reject => evRxj p proto
  | .timeout => restartTimeout p proto

/-- The identifier an answer copies. -/
def Input.id : Input → Octet
  | .configureRequest id _ => id
  | .configureAck id => id
  | .configureNak id => id
  | .terminateRequest id => id
  | _ => 0

/-- The event an input amounts to: a request whose options do not tile its length and an answer
with another identifier than the last request's are discarded, and are none. -/
def Input.event (p : Peer) (proto : Control) : Input → Option RfcEvent
  | .configureRequest _ opts =>
    match (classifyConfreq p proto opts).1 with
    | .invalid => none
    | .ack _ => some .rcrPlus
    | .nak _ => some .rcrMinus
    | .rej _ => some .rcrMinus
  | .configureAck id => if id = (p.fsmFor proto).lastReqId then some .rca else none
  | .configureNak id => if id = (p.fsmFor proto).lastReqId then some .rcn else none
  | .terminateRequest _ => some .rtr
  | .terminateAck => some .rta
  | .reject => some .rxjMinus
  | .timeout => some (if (p.fsmFor proto).restarts = 0 then .toMinus else .toPlus)

/-- The answer to a Configure-Request. -/
def Answer.packet (proto : Control) (id : Octet) : Answer → List Packet
  | .invalid => []
  | .ack resp => [⟨proto, confAck, id, resp⟩]
  | .nak resp => [⟨proto, confNak, id, resp⟩]
  | .rej resp => [⟨proto, confRej, id, resp⟩]

/-- A timeout repeats a request; everything else makes a new one. -/
def Input.fresh : Input → Bool
  | .timeout => false
  | _ => true

/-- The packets of an action; a retransmission keeps the identifier of the request. -/
def Action.packets (p : Peer) (proto : Control) (input : Input) : Action → List Packet
  | .tlu =>
    match proto with
    | .lcp => [⟨.ipcp, confReq, p.ipcp.nextId, [ipcpOptAddress, 6] ++ putBe32 p.cfg.localIp⟩]
    | .ipcp => []
  | .scr => [p.request proto input.fresh]
  | .sca | .scn =>
    match input with
    | .configureRequest id opts => (classifyConfreq p proto opts).1.packet proto id
    | _ => []
  | .str =>
    let f := p.fsmFor proto
    [⟨proto, termReq, if input.fresh then f.nextId else f.lastReqId, []⟩]
  | .sta => [⟨proto, termAck, input.id, []⟩]
  | _ => []

/-- A handler did what a cell of the table says: the next state, the packets in their order, and
the layer above taken down or brought up. -/
structure Performs (p : Peer) (proto : Control) (input : Input) (actions : List Action)
    (next : State) (q : Peer) : Prop where
  state : (q.fsmFor proto).state = next
  line : q.line = (p.send (actions.flatMap (Action.packets p proto input))).line
  down : .tld ∈ actions → q.assigned = false ∧ (proto = .lcp → q.ipcp.state = .initial)
  up : .tlu ∈ actions →
    match proto with
    | .lcp => q.ipcp.state = .reqSent
    | .ipcp => q.assigned = true

/-- The handler of an input follows the table. -/
def Conforms (p : Peer) (proto : Control) (input : Input) : Prop :=
  ∀ event, input.event p proto = some event →
    ∀ actions next, rfc1661 event (p.fsmFor proto).state = some (actions, next) →
      Performs p proto input actions next (input.handle p proto)

/-- The cells on which the handlers and the table part. -/
def Deviates (f : Fsm) : RfcEvent → Prop
  | .rcrPlus => f.state = .closing ∨ f.state = .stopping
  | .rcrMinus => f.state = .closing ∨ f.state = .stopping ∨
    f.failures = 0 ∧ (f.state = .reqSent ∨ f.state = .ackRcvd ∨ f.state = .ackSent)
  | .toPlus => f.state = .ackRcvd
  | .rxjMinus => f.state = .closed ∨ f.state = .closing ∨ f.state = .opened
  | _ => False

section Performs

variable {p q : Peer} {proto : Control} {input : Input} {actions : List Action} {next : State}

theorem Performs.stay (packets : List Packet)
    (hpackets : actions.flatMap (Action.packets p proto input) = packets)
    (hlayers : q.layers.state proto = next) (hline : q.line = (p.send packets).line)
    (hdown : .tld ∉ actions) (hup : .tlu ∉ actions) : Performs p proto input actions next q where
  state := by rw [fsmFor_state, hlayers]
  line := by rw [hpackets, hline]
  down h := absurd h hdown
  up h := absurd h hup

theorem Performs.leave (packets : List Packet)
    (hpackets : actions.flatMap (Action.packets p proto input) = packets)
    (hlayers : q.layers = (p.layers.down proto).set proto next)
    (hline : q.line = (p.send packets).line) (hup : .tlu ∉ actions) :
    Performs p proto input actions next q where
  state := by rw [fsmFor_state, hlayers, state_set]
  line := by rw [hpackets, hline]
  down _ := by
    have hassigned : q.layers.assigned = false := by rw [hlayers]; cases proto <;> rfl
    refine ⟨hassigned, ?_⟩
    rintro rfl
    exact congrArg Layers.ipcp hlayers
  up h := absurd h hup

theorem Performs.enter (packets : List Packet)
    (hpackets : actions.flatMap (Action.packets p proto input) = packets)
    (hlayers : q.layers = (p.layers.set proto .opened).up proto)
    (hline : q.line = (p.send packets).line) (hdown : .tld ∉ actions) :
    Performs p proto input actions .opened q where
  state := by rw [fsmFor_state, hlayers]; cases proto <;> rfl
  line := by rw [hpackets, hline]
  down h := absurd h hdown
  up _ := by
    cases proto with
    | lcp => exact congrArg Layers.ipcp hlayers
    | ipcp => exact congrArg Layers.assigned hlayers

end Performs

variable {r : Peer} {id code : Octet} {opts : List Octet} {event : RfcEvent}

theorem line_scr_of {p : Peer} (hline : r.line = p.line) (hasking : r.asking = p.asking)
    (proto : Control) (fresh : Bool) :
    (scr r proto fresh).line = (p.send [p.request proto fresh]).line := by
  rw [line_scr, request_congr hasking]
  exact line_send_congr hline _

/-- Coming up after some packets were sent. -/
theorem line_tlu_of {p : Peer} {packets : List Packet} (hline : r.line = (p.send packets).line)
    (hasking : r.asking = p.asking) (proto : Control) (input : Input) :
    (tlu r proto).line = (p.send (packets ++ Action.packets p proto input .tlu)).line := by
  rw [line_tlu, send_append]
  simp only [Peer.asking, Fsm.asking, Prod.mk.injEq] at hasking
  obtain ⟨-, ⟨-, hnext, -⟩, -, hip⟩ := hasking
  cases proto with
  | lcp =>
    simp only [Action.packets, hnext, hip]
    exact line_send_congr hline _
  | ipcp => exact hline

theorem packets_tlu (p : Peer) (proto : Control) (input : Input) :
    Action.packets p proto input .tlu ++ [] = Action.packets p proto input .tlu :=
  append_nil _

theorem performs_evRca {p : Peer} {proto : Control} {actions : List Action} {next : State}
    (hid : id = (p.fsmFor proto).lastReqId)
    (htable : rfc1661 .rca (p.fsmFor proto).state = some (actions, next)) :
    Performs p proto (.configureAck id) actions next (evRca p proto id) := by
  have hlayer : p.layers.state proto = (p.fsmFor proto).state := (fsmFor_state p proto).symm
  unfold evRca
  simp only
  rw [if_neg (not_not.2 hid)]
  cases hstate : (p.fsmFor proto).state <;> rw [hstate] at htable hlayer <;> dsimp only
  case initial | starting => cases htable
  all_goals obtain ⟨rfl, rfl⟩ := Prod.mk.inj (Option.some.inj htable)
  case closed | stopped =>
    exact .stay [⟨proto, termAck, id, []⟩] rfl (by simp [hlayer]) (line_sta p proto id) (by simp)
      (by simp)
  case closing | stopping => exact .stay [] rfl hlayer rfl (by simp) (by simp)
  case reqSent => exact .stay [] rfl (by simp) (by simp [Peer.send]) (by simp) (by simp)
  case ackRcvd =>
    refine .stay [p.request proto true] rfl (by simp) ?_ (by simp) (by simp)
    exact (line_setState ..).trans (line_scr p proto true)
  case ackSent =>
    let r := (restartStop (irc p proto maxConfigure) proto).setState proto .opened
    have hline : r.line = (p.send []).line := by simp [r, Peer.send]
    have hsent := line_tlu_of hline (by simp [r]) proto (.configureAck id)
    rw [nil_append] at hsent
    exact .enter (Action.packets p proto (.configureAck id) .tlu) (packets_tlu ..) (by simp) hsent
      (by simp)
  case opened =>
    refine .leave [p.request proto true] rfl (by simp) ?_ (by simp)
    exact (line_setState ..).trans (line_scr_of (by simp) (by simp) proto true)

theorem performs_evRcn {p : Peer} {proto : Control} {actions : List Action} {next : State}
    (hid : id = (p.fsmFor proto).lastReqId)
    (htable : rfc1661 .rcn (p.fsmFor proto).state = some (actions, next)) :
    Performs p proto (.configureNak id) actions next (evRcn p proto id) := by
  have hlayer : p.layers.state proto = (p.fsmFor proto).state := (fsmFor_state p proto).symm
  unfold evRcn
  simp only
  rw [if_neg (not_not.2 hid)]
  cases hstate : (p.fsmFor proto).state <;> rw [hstate] at htable hlayer <;> dsimp only
  case initial | starting => cases htable
  all_goals obtain ⟨rfl, rfl⟩ := Prod.mk.inj (Option.some.inj htable)
  case closed | stopped =>
    exact .stay [⟨proto, termAck, id, []⟩] rfl (by simp [hlayer]) (line_sta p proto id) (by simp)
      (by simp)
  case closing | stopping => exact .stay [] rfl hlayer rfl (by simp) (by simp)
  case reqSent | ackSent =>
    refine .stay [p.request proto true] rfl (by simp [hlayer]) ?_ (by simp) (by simp)
    exact line_scr_of (by simp) (by simp) proto true
  case ackRcvd =>
    refine .stay [p.request proto true] rfl (by simp) ?_ (by simp) (by simp)
    exact (line_setState ..).trans (line_scr p proto true)
  case opened =>
    refine .leave [p.request proto true] rfl (by simp) ?_ (by simp)
    exact (line_setState ..).trans (line_scr_of (by simp) (by simp) proto true)

theorem performs_evRtr {p : Peer} {proto : Control} {actions : List Action} {next : State}
    (htable : rfc1661 .rtr (p.fsmFor proto).state = some (actions, next)) :
    Performs p proto (.terminateRequest id) actions next (evRtr p proto id) := by
  have hlayer : p.layers.state proto = (p.fsmFor proto).state := (fsmFor_state p proto).symm
  have hanswer : (sta p proto id).line = (p.send [⟨proto, termAck, id, []⟩]).line :=
    line_sta p proto id
  unfold evRtr
  cases hstate : (p.fsmFor proto).state <;> rw [hstate] at htable hlayer <;> dsimp only
  case initial | starting => cases htable
  all_goals obtain ⟨rfl, rfl⟩ := Prod.mk.inj (Option.some.inj htable)
  case opened =>
    refine .leave [⟨proto, termAck, id, []⟩] rfl (by simp [layers_setFsm, fsmFor_state]) ?_
      (by simp)
    rw [line_restartStart, line_setState]
    exact line_sendCp_congr (by simp) ..
  case reqSent | ackRcvd | ackSent =>
    refine .stay [⟨proto, termAck, id, []⟩] rfl (by simp) ?_ (by simp) (by simp)
    rw [line_setState, hanswer]
  all_goals
    exact .stay [⟨proto, termAck, id, []⟩] rfl (by simp [hlayer]) hanswer (by simp) (by simp)

theorem performs_evRta {p : Peer} {proto : Control} {actions : List Action} {next : State}
    (htable : rfc1661 .rta (p.fsmFor proto).state = some (actions, next)) :
    Performs p proto .terminateAck actions next (evRta p proto) := by
  have hlayer : p.layers.state proto = (p.fsmFor proto).state := (fsmFor_state p proto).symm
  unfold evRta
  cases hstate : (p.fsmFor proto).state <;> rw [hstate] at htable hlayer <;> dsimp only
  case initial | starting => cases htable
  all_goals obtain ⟨rfl, rfl⟩ := Prod.mk.inj (Option.some.inj htable)
  case closing | stopping | ackRcvd =>
    exact .stay [] rfl (by simp) (by simp [Peer.send]) (by simp) (by simp)
  case opened =>
    refine .leave [p.request proto true] rfl (by simp) ?_ (by simp)
    exact (line_setState ..).trans (line_scr_of (by simp) (by simp) proto true)
  all_goals exact .stay [] rfl hlayer rfl (by simp) (by simp)

theorem performs_evRxj {p : Peer} {proto : Control} {actions : List Action} {next : State}
    (hkeeps : ¬Deviates (p.fsmFor proto) .rxjMinus)
    (htable : rfc1661 .rxjMinus (p.fsmFor proto).state = some (actions, next)) :
    Performs p proto .reject actions next (evRxj p proto) := by
  have hstopped : (evRxj p proto).layers.state proto = .stopped := by
    cases proto with
    | lcp => simp [evRxj]; rfl
    | ipcp => simp [evRxj]
  have hline : (evRxj p proto).line = p.line := by
    cases proto <;> simp [evRxj]
  unfold Deviates at hkeeps
  simp only [not_or] at hkeeps
  obtain ⟨hclosed, hclosing, hopened⟩ := hkeeps
  cases hstate : (p.fsmFor proto).state <;> rw [hstate] at htable
  case initial | starting => cases htable
  case closed => exact absurd hstate hclosed
  case closing => exact absurd hstate hclosing
  case opened => exact absurd hstate hopened
  all_goals
    obtain ⟨rfl, rfl⟩ := Prod.mk.inj (Option.some.inj htable)
    exact .stay [] rfl hstopped hline (by simp) (by simp)

theorem performs_expired {p : Peer} {proto : Control} {actions : List Action} {next : State}
    (hrestarts : (p.fsmFor proto).restarts = 0)
    (htable : rfc1661 .toMinus (p.fsmFor proto).state = some (actions, next)) :
    Performs p proto .timeout actions next (restartTimeout p proto) := by
  unfold restartTimeout
  simp only
  rw [if_pos hrestarts]
  cases hstate : (p.fsmFor proto).state <;> rw [hstate] at htable <;> dsimp only
  case initial | starting | closed | stopped | opened => cases htable
  all_goals
    obtain ⟨rfl, rfl⟩ := Prod.mk.inj (Option.some.inj htable)
    exact .stay [] rfl (by simp) (by simp [Peer.send]) (by simp) (by simp)

theorem performs_retransmission {p : Peer} {proto : Control} {actions : List Action}
    {next : State} (hrestarts : (p.fsmFor proto).restarts ≠ 0)
    (hkeeps : ¬Deviates (p.fsmFor proto) .toPlus)
    (htable : rfc1661 .toPlus (p.fsmFor proto).state = some (actions, next)) :
    Performs p proto .timeout actions next (restartTimeout p proto) := by
  have hlayer : p.layers.state proto = (p.fsmFor proto).state := (fsmFor_state p proto).symm
  unfold restartTimeout
  simp only
  rw [if_neg hrestarts]
  cases hstate : (p.fsmFor proto).state <;> rw [hstate] at htable hlayer <;> dsimp only
  case initial | starting | closed | stopped | opened => cases htable
  case ackRcvd => exact absurd hstate hkeeps
  all_goals obtain ⟨rfl, rfl⟩ := Prod.mk.inj (Option.some.inj htable)
  case closing | stopping =>
    refine .stay [⟨proto, termReq, (p.fsmFor proto).lastReqId, []⟩] rfl (by simp [hlayer]) ?_
      (by simp) (by simp)
    rw [line_restartStart, line_spendRestart]
    rfl
  case reqSent | ackSent =>
    exact .stay [p.request proto false] rfl (by simp [hlayer]) (line_scr p proto false) (by simp)
      (by simp)

theorem fsmFor_sendCp (p : Peer) (proto target : Control) (code id : Octet) (data : List Octet) :
    (sendCp p target code id data).fsmFor proto = p.fsmFor proto := by
  have hframe (number : Half) (info : List Octet) :
      (txFrame p number info).fsmFor proto = p.fsmFor proto := by
    unfold txFrame
    simp only
    split <;> cases proto <;> rfl
  unfold sendCp
  split
  · cases proto <;> rfl
  · exact hframe _ _

/-- What a negotiation step goes on from: the request has been reviewed and nothing else done. -/
structure Classified (p r : Peer) (proto : Control) : Prop where
  layers : r.layers = p.layers
  line : r.line = p.line
  asking : r.asking = p.asking
  fsm : r.fsmFor proto = p.fsmFor proto

theorem classified_classifyConfreq (p : Peer) (proto : Control) (opts : List Octet) :
    Classified p (classifyConfreq p proto opts).2 proto where
  layers := layers_classifyConfreq p proto opts
  line := line_classifyConfreq p proto opts
  asking := asking_classifyConfreq p proto opts
  fsm := view_classifyConfreq (fun p ↦ p.fsmFor proto) (fun _ _ ↦ by cases proto <;> rfl) p proto
    opts

/-- A request that starts negotiation anew is preceded by one of ours. -/
theorem line_rcrRestart {p : Peer} {proto : Control} (h : Classified p r proto) :
    (rcrRestart r proto .stopped).line = (p.send [p.request proto true]).line ∧
      (rcrRestart r proto .opened).line = (p.send [p.request proto true]).line :=
  ⟨line_scr_of (by simp [h.line]) (by simp [h.asking]) proto true,
    line_scr_of (by simp [h.line]) (by simp [h.asking]) proto true⟩

@[simp] theorem fsmFor_setFsm (p : Peer) (proto : Control) (f : Fsm) :
    (p.setFsm proto f).fsmFor proto = f := by
  cases proto <;> rfl

theorem failures_scr (p : Peer) (proto : Control) (fresh : Bool) :
    ((scr p proto fresh).fsmFor proto).failures = (p.fsmFor proto).failures := by
  have hspend (q : Peer) :
      ((spendRestart q proto).fsmFor proto).failures = (q.fsmFor proto).failures := by
    unfold spendRestart
    simp only
    split
    · rw [fsmFor_setFsm]
    · rfl
  cases fresh with
  | false => simp only [scr, restartStart, fsmFor_setFsm, hspend, fsmFor_sendCp]; rfl
  | true =>
    simp only [scr, restartStart, fsmFor_setFsm, hspend, fsmFor_sendCp, freshId, if_true]

/-- An answer after one of our own requests, or by itself. -/
theorem line_answer {p : Peer} {packets : List Packet} (h : r.line = (p.send packets).line)
    (proto : Control) (code id : Octet) (data : List Octet) : (sendCp r proto code id data).line =
      (p.send (packets ++ [⟨proto, code, id, data⟩])).line := by
  rw [send_append]
  exact line_sendCp_congr h ..

/-- The negotiation step of `ev_rcr` once the verdict on the options is known. -/
theorem performs_rcrTransition {p : Peer} {proto : Control} {resp : List Octet} {good : Bool}
    {actions : List Action} {next : State} (hr : Classified p r proto)
    (hanswer : (classifyConfreq p proto opts).1.packet proto id = [⟨proto, code, id, resp⟩])
    (hkeeps : ¬Deviates (p.fsmFor proto) (if good then .rcrPlus else .rcrMinus))
    (hclosed : (p.fsmFor proto).state ≠ .closed)
    (htable : rfc1661 (if good then .rcrPlus else .rcrMinus) (p.fsmFor proto).state =
      some (actions, next)) :
    Performs p proto (.configureRequest id opts) actions next
      (rcrTransition (sendCp (rcrRestart r proto (p.fsmFor proto).state) proto code id resp) proto
        (p.fsmFor proto).state good) := by
  have hlayer : p.layers.state proto = (p.fsmFor proto).state := (fsmFor_state p proto).symm
  obtain ⟨hstopped, hopened⟩ := line_rcrRestart hr
  have hempty : r.line = (p.send []).line := hr.line
  have halone : (sendCp r proto code id resp).line =
      (p.send [⟨proto, code, id, resp⟩]).line := line_answer hempty ..
  -- a restart sets the count of failures, otherwise it is what it was
  have hfresh (q : Peer) : ((scr (irc q proto maxConfigure) proto true).fsmFor proto).failures =
      maxFailure := by
    rw [failures_scr, irc, fsmFor_setFsm]
  have hgo (q : Peer) (hfailures : good = false → (q.fsmFor proto).failures ≠ 0) :
      ¬(!good && decide (((sendCp q proto code id resp).fsmFor proto).failures = 0)) = true := by
    rw [fsmFor_sendCp]
    cases good with
    | false => simpa using hfailures rfl
    | true => simp
  have hsca : Action.packets p proto (.configureRequest id opts) .sca = [⟨proto, code, id, resp⟩] :=
    hanswer
  have hscn : Action.packets p proto (.configureRequest id opts) .scn = [⟨proto, code, id, resp⟩] :=
    hanswer
  have hscr : Action.packets p proto (.configureRequest id opts) .scr = [p.request proto true] := rfl
  unfold rcrTransition
  cases hstate : (p.fsmFor proto).state <;> rw [hstate] at htable hlayer hclosed
  case initial | starting => cases good <;> cases htable
  case closed => exact absurd rfl hclosed
  case closing | stopping => cases good <;> exact absurd (by simp [Deviates, hstate]) hkeeps
  case stopped =>
    rw [if_neg (hgo _ fun _ ↦ by rw [rcrRestart, hfresh]; decide)]
    have hsent := line_answer hstopped proto code id resp
    cases good <;> obtain ⟨rfl, rfl⟩ := Prod.mk.inj (Option.some.inj htable)
    all_goals
      refine .stay ([p.request proto true] ++ [⟨proto, code, id, resp⟩]) ?_ (by simp) ?_ (by simp)
        (by simp)
      · simp only [flatMap_cons, flatMap_nil, hsca, hscn, hscr]
        rfl
      · simpa using hsent
  case opened =>
    rw [if_neg (hgo _ fun _ ↦ by rw [rcrRestart, hfresh]; decide)]
    have hsent := line_answer hopened proto code id resp
    cases good <;> obtain ⟨rfl, rfl⟩ := Prod.mk.inj (Option.some.inj htable)
    all_goals
      refine .leave ([p.request proto true] ++ [⟨proto, code, id, resp⟩]) ?_ ?_ ?_ (by simp)
      · simp only [flatMap_cons, flatMap_nil, hsca, hscn, hscr]
        rfl
      · simp [rcrRestart, hr.layers]
      · simpa using hsent
  case reqSent | ackSent =>
    have hfailures (h : good = false) : (r.fsmFor proto).failures ≠ 0 := by
      intro hzero
      rw [hr.fsm] at hzero
      subst h
      exact hkeeps (by simp [Deviates, hstate, hzero])
    split
    case isTrue hspent => exact absurd hspent (hgo _ hfailures)
    cases good <;> obtain ⟨rfl, rfl⟩ := Prod.mk.inj (Option.some.inj htable)
    all_goals
      refine .stay [⟨proto, code, id, resp⟩] ?_ (by simp) ?_ (by simp) (by simp)
      · simp only [flatMap_cons, flatMap_nil, hsca, hscn, append_nil]
      · simpa [rcrRestart] using halone
  case ackRcvd =>
    have hfailures (h : good = false) : (r.fsmFor proto).failures ≠ 0 := by
      intro hzero
      rw [hr.fsm] at hzero
      subst h
      exact hkeeps (by simp [Deviates, hstate, hzero])
    split
    case isTrue hspent => exact absurd hspent (hgo _ hfailures)
    cases good <;> obtain ⟨rfl, rfl⟩ := Prod.mk.inj (Option.some.inj htable)
    · refine .stay [⟨proto, code, id, resp⟩] ?_ (by simp [rcrRestart, hr.layers, hlayer]) ?_
        (by simp) (by simp)
      · simp only [flatMap_cons, flatMap_nil, hscn, append_nil]
      · simpa [rcrRestart] using halone
    · let tluPackets := Action.packets p proto (.configureRequest id opts) .tlu
      refine .enter ([⟨proto, code, id, resp⟩] ++ tluPackets) ?_ (by simp [rcrRestart, hr.layers])
        ?_ (by simp)
      · simp only [flatMap_cons, flatMap_nil, hsca, append_nil]
        rfl
      · exact line_tlu_of (by simpa [rcrRestart] using halone)
          (by simp [rcrRestart, hr.asking]) proto _

theorem exists_verdict {p : Peer} {proto : Control}
    (hevent : (Input.configureRequest id opts).event p proto = some event) :
    ∃ (good : Bool) (code : Octet) (resp : List Octet),
      event = (if good then .rcrPlus else .rcrMinus) ∧
      (classifyConfreq p proto opts).1.packet proto id = [⟨proto, code, id, resp⟩] ∧
      ((p.fsmFor proto).state ≠ .initial → (p.fsmFor proto).state ≠ .closed →
        evRcr p proto id opts =
          rcrTransition (sendCp (rcrRestart (classifyConfreq p proto opts).2 proto
            (p.fsmFor proto).state) proto code id resp) proto (p.fsmFor proto).state good) := by
  unfold Input.event at hevent
  unfold evRcr
  cases hverdict : classifyConfreq p proto opts with
  | mk answer r =>
    simp only [hverdict] at hevent ⊢
    cases answer with
    | invalid => cases hevent
    | ack resp =>
      cases hevent
      exact ⟨true, _, resp, rfl, rfl, fun hinitial hclosed ↦ if_neg (not_or.2 ⟨hinitial, hclosed⟩)⟩
    | nak resp | rej resp =>
      cases hevent
      exact ⟨false, _, resp, rfl, rfl, fun hinitial hclosed ↦ if_neg (not_or.2 ⟨hinitial, hclosed⟩)⟩

theorem performs_evRcr {p : Peer} {proto : Control} {actions : List Action} {next : State}
    (hevent : (Input.configureRequest id opts).event p proto = some event)
    (hkeeps : ¬Deviates (p.fsmFor proto) event)
    (htable : rfc1661 event (p.fsmFor proto).state = some (actions, next)) :
    Performs p proto (.configureRequest id opts) actions next (evRcr p proto id opts) := by
  obtain ⟨good, code, resp, rfl, hanswer, hstep⟩ := exists_verdict hevent
  have hlayer : p.layers.state proto = (p.fsmFor proto).state := (fsmFor_state p proto).symm
  by_cases hinitial : (p.fsmFor proto).state = .initial
  · rw [hinitial] at htable
    cases good <;> cases htable
  by_cases hclosed : (p.fsmFor proto).state = .closed
  · have hrefused : evRcr p proto id opts = sta p proto id := if_pos (Or.inr hclosed)
    rw [hclosed] at htable hlayer
    rw [hrefused]
    cases good <;> obtain ⟨rfl, rfl⟩ := Prod.mk.inj (Option.some.inj htable)
    all_goals
      exact .stay [⟨proto, termAck, id, []⟩] rfl (by simp [hlayer]) (line_sta p proto id)
        (by simp) (by simp)
  rw [hstep hinitial hclosed]
  exact performs_rcrTransition (classified_classifyConfreq p proto opts) hanswer hkeeps hclosed
    htable

theorem line_rcrTransition_closing (p : Peer) (proto : Control) {entry : State}
    (hentry : entry = .closing ∨ entry = .stopping) (good : Bool) :
    (rcrTransition p proto entry good).line = p.line := by
  have hspent : (if good then p else spendFailure p proto).line = p.line := by
    cases good <;> simp
  unfold rcrTransition
  split
  · simp
  · obtain rfl | rfl := hentry <;> exact hspent

theorem not_performs_closing {p : Peer} {proto : Control} {input : Input} {next : State}
    {data : List Octet} {entry : State} {good : Bool} (hline : r.line = p.line)
    (hentry : entry = .closing ∨ entry = .stopping) :
    ¬Performs p proto input [] next (rcrTransition (sendCp r proto code id data) proto entry good) := by
  intro h
  have hsame : (sendCp r proto code id data).line = p.line := by
    rw [← line_rcrTransition_closing _ proto hentry good]
    exact h.line
  have hcount : (sendCp r proto code id data).line.sent = p.line.sent + 1 := by
    rw [sent_sendCp, hline]
  rw [hsame] at hcount
  omega

theorem state_rcrTransition_exhausted {p : Peer} {proto : Control} (entry : State)
    (hfailures : (p.fsmFor proto).failures = 0) :
    ((rcrTransition p proto entry false).fsmFor proto).state = .stopped := by
  unfold rcrTransition
  rw [if_pos (by simp [hfailures])]
  simp [fsmFor_state]

theorem state_evRxj (p : Peer) (proto : Control) :
    ((evRxj p proto).fsmFor proto).state = .stopped := by
  rw [fsmFor_state]
  cases proto with
  | lcp => simp [evRxj]; rfl
  | ipcp => simp [evRxj]

theorem state_scr (p : Peer) (proto : Control) (fresh : Bool) :
    ((scr p proto fresh).fsmFor proto).state = (p.fsmFor proto).state := by
  rw [fsmFor_state, layers_scr, fsmFor_state]

theorem not_conforms_evRcr {p : Peer} {proto : Control}
    (hevent : (Input.configureRequest id opts).event p proto = some event)
    (hdeviates : Deviates (p.fsmFor proto) event) :
    ¬Conforms p proto (.configureRequest id opts) := by
  obtain ⟨good, code, resp, rfl, -, hstep⟩ := exists_verdict hevent
  intro hconforms
  have hr := classified_classifyConfreq p proto opts
  have hcell (actions : List Action) (next : State)
      (htable : rfc1661 (if good then .rcrPlus else .rcrMinus) (p.fsmFor proto).state =
        some (actions, next)) :
      Performs p proto (.configureRequest id opts) actions next (evRcr p proto id opts) :=
    hconforms _ hevent actions next htable
  have hopen : (p.fsmFor proto).state ≠ .initial := by
    intro h
    cases good <;> simp [Deviates, h] at hdeviates
  have hclosed : (p.fsmFor proto).state ≠ .closed := by
    intro h
    cases good <;> simp [Deviates, h] at hdeviates
  rw [hstep hopen hclosed] at hcell
  cases hstate : (p.fsmFor proto).state <;> rw [hstate] at hcell hopen hclosed
  case initial | closed | starting | stopped | opened =>
    cases good <;> simp [Deviates, hstate] at hdeviates
  case closing =>
    refine not_performs_closing hr.line (Or.inl rfl) (hcell [] .closing ?_)
    cases good <;> rfl
  case stopping =>
    refine not_performs_closing hr.line (Or.inr rfl) (hcell [] .stopping ?_)
    cases good <;> rfl
  case reqSent | ackRcvd | ackSent =>
    cases good with
    | true => simp [Deviates, hstate] at hdeviates
    | false =>
      have hfailures : (p.fsmFor proto).failures = 0 := by
        simpa [Deviates, hstate] using hdeviates
      have hspent : ((sendCp (classifyConfreq p proto opts).2 proto code id resp).fsmFor
          proto).failures = 0 := by
        rw [fsmFor_sendCp, hr.fsm, hfailures]
      have hstopped := state_rcrTransition_exhausted (p.fsmFor proto).state hspent
      rw [hstate] at hstopped
      exact absurd (hstopped.symm.trans (hcell _ _ rfl).state) (by decide)

theorem not_conforms_reject {p : Peer} {proto : Control}
    (hdeviates : Deviates (p.fsmFor proto) .rxjMinus) : ¬Conforms p proto .reject := by
  intro hconforms
  have hcell := hconforms .rxjMinus rfl
  have hstopped := state_evRxj p proto
  obtain hstate | hstate | hstate := hdeviates <;> rw [hstate] at hcell
  all_goals
    have hnext := (hcell _ _ rfl).state
    unfold Input.handle at hnext
    rw [hstopped] at hnext
    cases hnext

theorem not_conforms_timeout {p : Peer} {proto : Control}
    (hevent : Input.timeout.event p proto = some event)
    (hdeviates : Deviates (p.fsmFor proto) event) : ¬Conforms p proto .timeout := by
  intro hconforms
  have hcell := hconforms event hevent
  unfold Input.event at hevent
  by_cases hrestarts : (p.fsmFor proto).restarts = 0
  · rw [if_pos hrestarts] at hevent
    cases hevent
    exact hdeviates
  · rw [if_neg hrestarts] at hevent
    cases hevent
    have hstate : (p.fsmFor proto).state = .ackRcvd := hdeviates
    have hresent : Input.timeout.handle p proto = scr p proto false := by
      unfold Input.handle restartTimeout
      simp only
      rw [if_neg hrestarts, hstate]
    rw [hstate] at hcell
    have hnext := (hcell _ _ rfl).state
    rw [hresent, state_scr, hstate] at hnext
    cases hnext

/-- The handlers follow the table of RFC 1661 exactly where they do not part from it: in every
state of the peer and for every input. -/
theorem conforms_iff (p : Peer) (proto : Control) (input : Input) : Conforms p proto input ↔
      ∀ event, input.event p proto = some event → ¬Deviates (p.fsmFor proto) event := by
  constructor
  · intro hconforms event hevent hdeviates
    cases input with
    | configureRequest id opts => exact not_conforms_evRcr hevent hdeviates hconforms
    | reject =>
      cases hevent
      exact not_conforms_reject hdeviates hconforms
    | timeout => exact not_conforms_timeout hevent hdeviates hconforms
    | configureAck id | configureNak id =>
      simp only [Input.event] at hevent
      split at hevent
      · cases hevent
        exact hdeviates
      · cases hevent
    | terminateRequest | terminateAck =>
      cases hevent
      exact hdeviates
  · intro hkeeps event hevent actions next htable
    have hkept := hkeeps event hevent
    cases input with
    | configureRequest id opts => exact performs_evRcr hevent hkept htable
    | configureAck id =>
      simp only [Input.event] at hevent
      split at hevent
      case isTrue hid =>
        cases hevent
        exact performs_evRca hid htable
      case isFalse => cases hevent
    | configureNak id =>
      simp only [Input.event] at hevent
      split at hevent
      case isTrue hid =>
        cases hevent
        exact performs_evRcn hid htable
      case isFalse => cases hevent
    | terminateRequest id =>
      cases hevent
      exact performs_evRtr htable
    | terminateAck =>
      cases hevent
      exact performs_evRta htable
    | reject =>
      cases hevent
      exact performs_evRxj hkept htable
    | timeout =>
      unfold Input.event at hevent
      by_cases hrestarts : (p.fsmFor proto).restarts = 0
      · rw [if_pos hrestarts] at hevent
        cases hevent
        exact performs_expired hrestarts htable
      · rw [if_neg hrestarts] at hevent
        cases hevent
        exact performs_retransmission hrestarts hkept htable

theorem event_timeout {p : Peer} {proto : Control} (hrestarts : (p.fsmFor proto).restarts ≠ 0) :
    Input.timeout.event p proto = some .toPlus := congrArg some (if_neg hrestarts)

/-- LCP opened by us, our first request acknowledged, and no request of the guest yet. -/
def halfOpen : Peer := Run.run step (pppInit configDefault) (.open :: controlFrame .lcp confAck 1)

/-- The guest stays silent: the timeout repeats the request and LCP stays in Ack-Rcvd. -/
theorem not_conforms_halfOpen : ¬∀ (p : Peer) (proto : Control) (input : Input),
    Conforms p proto input := by
  intro h
  have hstate : (halfOpen.fsmFor .lcp).state = .ackRcvd := by decide +kernel
  have hrestarts : (halfOpen.fsmFor .lcp).restarts ≠ 0 := by decide +kernel
  exact not_conforms_timeout (event_timeout hrestarts) hstate (h halfOpen .lcp .timeout)

end S5LBox.Ppp
