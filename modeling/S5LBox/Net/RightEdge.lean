import S5LBox.Net.Bounds
import S5LBox.Net.GuestStream

/-!
# The right edge

A segment toward the guest offers it a right edge: its acknowledgement and its window. Sequence
numbers wrap, so edges are compared as positions, counted from the guest's first octet. The position
of an edge is what the egress has accepted, the guest's FIN and the whole buffer, none of which ever
gets less.
-/

namespace S5LBox.Net

/-- The addresses and ports of a flow. -/
structure Route where
  guestIp : Word
  dstIp : Word
  guestPort : Half
  dstPort : Half

def Flow.route (f : Flow) (guestIp : Word) : Route :=
  { guestIp, dstIp := f.dstIp, guestPort := f.guestPort, dstPort := f.dstPort }

/-- A segment toward the guest, as it is put behind the header of its datagram. -/
def Route.segment (route : Route) (flags : Octet) (seq ack : Word) (wnd : Half)
    (data : List Octet) : List Octet :=
  let syn := hasFlag flags flagSyn
  sealTcp route.dstIp route.guestIp
    (tcpHeader route.dstPort route.guestPort seq ack (if syn then 0x60 else 0x50) flags wnd ++
      (if syn then [2, 4] ++ putBe16 (BitVec.ofNat 16 netTcpMssMax) else []) ++ data)

/-- The acknowledgement of a segment plus its window field. -/
def rightEdge (seg : List Octet) : Word := getBe32 seg 8 + (getBe16 seg 14).setWidth 32

/-- The window when the events of a history have happened. -/
def advertised (history : List FlowEvent) : ℕ :=
  netTcpRxbuf - ((guestStream history).length - (deliveredStream history).length)

/-- The position of the right edge. -/
def offered (history : List FlowEvent) : ℕ := guestReach history + advertised history

def Route.offer (route : Route) (before : List FlowEvent) : FlowEvent → List (ℕ × List Octet)
  | .segment flags seq ack data true =>
    [(offered before, route.segment flags seq ack (BitVec.ofNat 16 (advertised before)) data)]
  | _ => []

/-- The segments of a history that were queued, each with the position of its right edge. -/
def Route.offers (route : Route) (history : List FlowEvent) : List (ℕ × List Octet) :=
  Trace.collect route.offer history

/-- The segments were queued in the order of the history, their right edges are the positions modulo
the sequence space, and the positions never get less. -/
structure NeverLeft (route : Route) (queued : List Datagram) (history : List FlowEvent) : Prop where
  sent : List.Sublist ((route.offers history).map Prod.snd) (queued.map (List.drop ipv4HdrLen))
  edge : ∀ iss irs, history.head? = some (.opened iss irs) → ∀ offer ∈ route.offers history,
    rightEdge offer.2 = irs + 1 + BitVec.ofNat 32 offer.1
  monotone : ((route.offers history).map Prod.fst).Pairwise (· ≤ ·)

theorem rightEdge_segment (route : Route) (flags : Octet) (seq ack : Word) (wnd : Half)
    (data : List Octet) :
    rightEdge (route.segment flags seq ack wnd data) = ack + wnd.setWidth 32 := by
  have hack := getBe32_putBe32 ack []
  have hwnd := getBe16_putBe16 wnd []
  unfold rightEdge
  exact congrArg₂ (fun (ack : Word) (wnd : Half) ↦ ack + wnd.setWidth 32) hack hwnd

theorem offers_append (route : Route) (history : List FlowEvent) (event : FlowEvent) :
    route.offers (history ++ [event]) = route.offers history ++ route.offer history event :=
  Trace.collect_append _ history event

theorem head?_of_append {history : List FlowEvent} {event first : FlowEvent} (hne : event ≠ first)
    (h : (history ++ [event]).head? = some first) : history.head? = some first := by
  cases history with
  | nil => exact absurd (Option.some.inj h) hne
  | cons => exact h

namespace NeverLeft

variable {route : Route} {queued : List Datagram} {history : List FlowEvent} {event : FlowEvent}

theorem nil (route : Route) (queued : List Datagram) : NeverLeft route queued [] :=
  ⟨List.nil_sublist _, fun _ _ hhead ↦ absurd hhead (by simp), List.Pairwise.nil⟩

theorem more (h : NeverLeft route queued history) (later : List Datagram) :
    NeverLeft route (queued ++ later) history := by
  refine ⟨?_, h.edge, h.monotone⟩
  rw [List.map_append]
  exact h.sent.trans (List.sublist_append_left _ _)

/-- An event that queues no segment. -/
theorem silent (h : NeverLeft route queued history) (hsilent : route.offer history event = [])
    (hopened : ∀ iss irs, event ≠ .opened iss irs) :
    NeverLeft route queued (history ++ [event]) := by
  have hsame : route.offers (history ++ [event]) = route.offers history := by
    rw [offers_append, hsilent, List.append_nil]
  refine ⟨hsame ▸ h.sent, ?_, hsame ▸ h.monotone⟩
  rw [hsame]
  exact fun iss irs hhead ↦ h.edge iss irs (head?_of_append (hopened iss irs) hhead)

theorem segment (h : NeverLeft route queued history) {header : List Octet} {flags : Octet}
    {seq ack : Word} {data : List Octet} (hheader : header.length = ipv4HdrLen)
    (hreached : ∀ offer ∈ route.offers history, offer.1 ≤ offered history)
    (hedge : ∀ iss irs, history.head? = some (.opened iss irs) →
      ack + (BitVec.ofNat 16 (advertised history)).setWidth 32 =
        irs + 1 + BitVec.ofNat 32 (offered history)) :
    NeverLeft route (queued ++ [header ++
        route.segment flags seq ack (BitVec.ofNat 16 (advertised history)) data])
      (history ++ [.segment flags seq ack data true]) := by
  let seg := route.segment flags seq ack (BitVec.ofNat 16 (advertised history)) data
  have hoffers : route.offers (history ++ [.segment flags seq ack data true]) =
      route.offers history ++ [(offered history, seg)] := offers_append ..
  refine ⟨?_, ?_, ?_⟩
  · rw [hoffers, List.map_append, List.map_append]
    refine h.sent.append ?_
    change List.Sublist [seg] [(header ++ seg).drop ipv4HdrLen]
    rw [← hheader, List.drop_left]
  · intro iss irs hhead offer hmem
    have hbefore := head?_of_append (by simp) hhead
    rw [hoffers] at hmem
    rcases List.mem_append.1 hmem with hmem | hmem
    · exact h.edge iss irs hbefore offer hmem
    · obtain rfl := List.mem_singleton.1 hmem
      exact (rightEdge_segment ..).trans (hedge iss irs hbefore)
  · rw [hoffers, List.map_append, List.pairwise_append]
    refine ⟨h.monotone, List.pairwise_singleton _ _, ?_⟩
    intro before hbefore last hlast
    obtain ⟨offer, hmem, rfl⟩ := List.mem_map.1 hbefore
    obtain rfl := List.mem_singleton.1 hlast
    exact hreached offer hmem

end NeverLeft

/-- What is buffered is what the egress has still to accept, and the next sequence number is the one
after what came. -/
structure Level (f : Flow) : Prop where
  held : (deliveredStream f.history).length + f.rxbuf.length = (guestStream f.history).length
  room : f.rxbuf.length ≤ netTcpRxbuf
  next : ∀ iss irs, f.history.head? = some (.opened iss irs) →
    f.rcvNxt = irs + 1 + BitVec.ofNat 32 (guestReach f.history)

/-- What the egress accepted, the FIN and the whole buffer. -/
def accommodated (history : List FlowEvent) : ℕ :=
  netTcpRxbuf + (deliveredStream history).length + history.count .finished

theorem accommodated_append (history : List FlowEvent) (event : FlowEvent) :
    accommodated history ≤ accommodated (history ++ [event]) := by
  unfold accommodated
  rw [deliveredStream_append, List.length_append, List.count_append]
  omega

namespace Level

variable {f f' : Flow}

theorem advertised_eq (h : Level f) : advertised f.history = netTcpRxbuf - f.rxbuf.length := by
  have hheld := h.held
  unfold advertised
  omega

theorem offered_eq (h : Level f) : offered f.history = accommodated f.history := by
  have hheld := h.held
  have hroom := h.room
  unfold offered accommodated
  rw [h.advertised_eq, guestReach]
  omega

/-- The window field is the window, and with the acknowledgement it makes the right edge. -/
theorem edge (h : Level f) {iss irs : Word} (hhead : f.history.head? = some (.opened iss irs)) :
    f.rcvNxt + (BitVec.ofNat 16 (advertised f.history)).setWidth 32 =
      irs + 1 + BitVec.ofNat 32 (offered f.history) := by
  have hle : advertised f.history ≤ 4096 := Nat.sub_le _ _
  have hwide : (BitVec.ofNat 16 (advertised f.history)).setWidth 32 =
      BitVec.ofNat 32 (advertised f.history) := by
    apply BitVec.eq_of_toNat_eq
    rw [BitVec.toNat_setWidth, BitVec.toNat_ofNat, BitVec.toNat_ofNat]
    omega
  rw [hwide, h.next iss irs hhead, offered, BitVec.ofNat_add, ← BitVec.add_assoc]

theorem of_aside (h : Level f) (haside : Aside f f') : Level f' := by
  obtain ⟨hheld, hroom, hnext⟩ := h
  rw [← haside.history, ← haside.rxbuf] at hheld
  rw [← haside.rxbuf] at hroom
  rw [← haside.history, ← haside.rcvNxt] at hnext
  exact ⟨hheld, hroom, hnext⟩

theorem note (h : Level f) {event : FlowEvent} (hguest : event.guestOctets = [])
    (hdelivered : event.deliveredOctets = []) (hfin : event ≠ .finished)
    (hopened : ∀ iss irs, event ≠ .opened iss irs) : Level (f.note event) := by
  have hstream : guestStream (f.history ++ [event]) = guestStream f.history := by
    rw [guestStream_append, hguest, List.append_nil]
  have hreach : guestReach (f.history ++ [event]) = guestReach f.history := by
    rw [guestReach_append, hguest, List.count_singleton, if_neg (by simpa using hfin)]
    rfl
  refine ⟨?_, h.room, ?_⟩
  · change (deliveredStream (f.history ++ [event])).length + f.rxbuf.length =
      (guestStream (f.history ++ [event])).length
    rw [hstream, deliveredStream_append, hdelivered, List.append_nil, h.held]
  · intro iss irs hhead
    change f.rcvNxt = irs + 1 + BitVec.ofNat 32 (guestReach (f.history ++ [event]))
    rw [hreach]
    exact h.next iss irs (head?_of_append (hopened iss irs) hhead)

theorem deliver (h : Level f) (count : ℕ) : Level (f.deliver count) := by
  have hreach : guestReach (f.history ++ [.delivered (f.rxbuf.take count)]) =
      guestReach f.history := guestReach_append ..
  refine ⟨?_, ?_, ?_⟩
  · change (deliveredStream (f.history ++ [_])).length + (f.rxbuf.drop count).length =
      (guestStream (f.history ++ [_])).length
    rw [deliveredStream_append, guestStream_append, List.length_append, List.length_append,
      ← h.held]
    change _ + (f.rxbuf.take count).length + _ = _ + 0
    rw [List.length_take, List.length_drop]
    omega
  · change (f.rxbuf.drop count).length ≤ netTcpRxbuf
    rw [List.length_drop]
    exact (Nat.sub_le _ _).trans h.room
  · intro iss irs hhead
    change f.rcvNxt = irs + 1 + BitVec.ofNat 32 (guestReach (f.history ++ [_]))
    rw [hreach]
    exact h.next iss irs (head?_of_append (by simp) hhead)

theorem takePayload (h : Level f) (seg : Segment) : Level (f.takePayload seg) := by
  have hroom := h.room
  unfold Flow.takePayload
  have hfits : ((seg.payload.drop (f.rcvNxt - seg.seq).toNat).take
      (netTcpRxbuf - f.rxbuf.length)).length ≤ netTcpRxbuf - f.rxbuf.length := List.length_take_le _ _
  generalize (seg.payload.drop (f.rcvNxt - seg.seq).toNat).take
    (netTcpRxbuf - f.rxbuf.length) = data at *
  dsimp only
  refine ⟨?_, ?_, ?_⟩
  · change (deliveredStream (f.history ++ [_])).length + (f.rxbuf ++ data).length =
      (guestStream (f.history ++ [_])).length
    rw [deliveredStream_append, guestStream_append, List.length_append, List.length_append,
      List.length_append, ← h.held]
    change _ + 0 + _ = _ + data.length
    omega
  · change (f.rxbuf ++ data).length ≤ netTcpRxbuf
    rw [List.length_append]
    omega
  · intro iss irs hhead
    have hnext := h.next iss irs (head?_of_append (by simp) hhead)
    change f.rcvNxt + BitVec.ofNat 32 data.length =
      irs + 1 + BitVec.ofNat 32 (guestReach (f.history ++ [_]))
    rw [guestReach_append, hnext, BitVec.ofNat_add, ← BitVec.add_assoc]
    rfl

theorem finish (h : Level f) : Level f.finish := by
  refine ⟨?_, h.room, ?_⟩
  · change (deliveredStream (f.history ++ [.finished])).length + f.rxbuf.length =
      (guestStream (f.history ++ [.finished])).length
    rw [deliveredStream_append, guestStream_append, List.length_append, List.length_append,
      ← h.held]
    change _ + 0 + _ = _ + 0
    omega
  · intro iss irs hhead
    have hnext := h.next iss irs (head?_of_append (by simp) hhead)
    have hreach : guestReach (f.history ++ [.finished]) = guestReach f.history + 1 :=
      guestReach_append f.history .finished
    unfold Flow.finish Flow.note
    dsimp only
    rw [hreach, hnext, BitVec.ofNat_add, ← BitVec.add_assoc]
    rfl

end Level

/-- The edges of the flow that is serviced never went left, and the next one will not be left of
them. -/
structure Edged {η : Type} (c : Conn η) : Prop where
  level : Level c.flow
  offering : NeverLeft (c.flow.route c.env.cfg.guestIp) c.env.queued c.flow.history
  reached : ∀ offer ∈ (c.flow.route c.env.cfg.guestIp).offers c.flow.history,
    offer.1 ≤ accommodated c.flow.history

variable {η : Type} {c d : Conn η}

namespace Edged

theorem of_aside (h : Edged c) {f : Flow} (haside : Aside c.flow f) : Edged (c.setFlow f) := by
  have hroute : f.route c.env.cfg.guestIp = c.flow.route c.env.cfg.guestIp := by
    unfold Flow.route
    rw [haside.guestPort, haside.dstIp, haside.dstPort]
  refine ⟨h.level.of_aside haside, ?_, ?_⟩
  · change NeverLeft (f.route c.env.cfg.guestIp) c.env.queued f.history
    rw [hroute, haside.history]
    exact h.offering
  · change ∀ offer ∈ (f.route c.env.cfg.guestIp).offers f.history, _ ≤ accommodated f.history
    rw [hroute, haside.history]
    exact h.reached

/-- An event that queues no segment. -/
theorem silent (h : Edged c) {f : Flow} {event : FlowEvent} (hlevel : Level f)
    (hroute : f.route c.env.cfg.guestIp = c.flow.route c.env.cfg.guestIp)
    (hhistory : f.history = c.flow.history ++ [event])
    (hsilent : (c.flow.route c.env.cfg.guestIp).offer c.flow.history event = [])
    (hopened : ∀ iss irs, event ≠ .opened iss irs) : Edged (c.setFlow f) := by
  refine ⟨hlevel, ?_, ?_⟩
  · change NeverLeft (f.route c.env.cfg.guestIp) c.env.queued f.history
    rw [hroute, hhistory]
    exact h.offering.silent hsilent hopened
  · change ∀ offer ∈ (f.route c.env.cfg.guestIp).offers f.history, _ ≤ accommodated f.history
    rw [hroute, hhistory, offers_append, hsilent, List.append_nil]
    exact fun offer hmem ↦ (h.reached offer hmem).trans (accommodated_append ..)

theorem flow (h : Edged c) {f : Flow} (hwork : FlowWork c.flow f) : Edged (c.setFlow f) := by
  cases hwork with
  | aside haside => exact h.of_aside haside
  | @note event hquiet =>
    have hopened (iss irs : Word) : event ≠ .opened iss irs := by
      rintro rfl
      cases hquiet
    refine h.silent ?_ rfl rfl ?_ hopened
    · cases event with
      | opened | segment | buffered | finished | delivered => cases hquiet
      | _ => exact h.level.note rfl rfl (by simp) (by simp)
    · cases event with
      | segment => cases hquiet
      | _ => rfl
  | deliver count => exact h.silent (h.level.deliver count) rfl rfl rfl (by simp)
  | take seg => exact h.silent (h.level.takePayload seg) rfl rfl rfl (by simp)
  | finish => exact h.silent h.level.finish rfl rfl rfl (by simp)

/-- The queue may get longer. -/
theorem of_env (h : Edged c) {env : Env η} (hcfg : env.cfg = c.env.cfg)
    (hqueued : ∃ more, env.queued = c.env.queued ++ more) : Edged ⟨env, c.flow⟩ := by
  obtain ⟨more, hmore⟩ := hqueued
  refine ⟨h.level, ?_, ?_⟩
  · rw [hcfg, hmore]
    exact h.offering.more more
  · rw [hcfg]
    exact h.reached

theorem segment_eq (h : Level c.flow) {flags : Octet} (hack : hasFlag flags flagAck = true)
    (seq : Word) (data : List Octet) :
    sealTcp c.flow.dstIp c.env.cfg.guestIp (c.flow.segment flags seq data) =
      (c.flow.route c.env.cfg.guestIp).segment flags seq c.flow.rcvNxt
        (BitVec.ofNat 16 (advertised c.flow.history)) data := by
  have hfield : c.flow.ackField flags = c.flow.rcvNxt := if_pos hack
  have hwindow : c.flow.window = advertised c.flow.history := by
    have hle : netTcpRxbuf - c.flow.rxbuf.length ≤ 4096 := Nat.sub_le _ _
    rw [h.advertised_eq]
    exact min_eq_left (hle.trans (by decide))
  rw [← hfield, ← hwindow]
  rfl

theorem level_sent {f : Flow} (h : Level f) (flags : Octet) (seq : Word) (data : List Octet)
    (queued : Bool) : Level (f.sent flags seq data queued) := by
  have haside : Aside f { f with needAck := f.needAck && !(queued && hasFlag flags flagAck) } := by
    constructor <;> rfl
  exact (h.of_aside haside).note rfl rfl (by simp) (by simp)

theorem segment (h : Edged c) {flags : Octet} (hack : hasFlag flags flagAck = true) (seq : Word)
    (data : List Octet) : Edged (c.tcpOut flags seq data) := by
  have hfield : c.flow.ackField flags = c.flow.rcvNxt := if_pos hack
  unfold Conn.tcpOut
  rw [segment_eq h.level hack]
  have hframe := netEmit_frame c.env c.flow.dstIp c.env.cfg.guestIp protoTcp
    ((c.flow.route c.env.cfg.guestIp).segment flags seq c.flow.rcvNxt
      (BitVec.ofNat 16 (advertised c.flow.history)) data)
  have hqueue := netEmit_queued c.env c.flow.dstIp c.env.cfg.guestIp protoTcp
    ((c.flow.route c.env.cfg.guestIp).segment flags seq c.flow.rcvNxt
      (BitVec.ofNat 16 (advertised c.flow.history)) data)
  generalize c.env.netEmit c.flow.dstIp c.env.cfg.guestIp protoTcp _ = emitted at *
  obtain ⟨env, queued⟩ := emitted
  dsimp only at hframe hqueue ⊢
  rcases hqueue with ⟨rfl, hqueued⟩ | ⟨rfl, header, hheader, hqueued⟩
  · have hsame := h.of_env hframe.1 ⟨[], by rw [hqueued, List.append_nil]⟩
    exact hsame.silent (level_sent h.level flags seq data false) rfl rfl rfl (by simp)
  · have hreached : ∀ offer ∈ (c.flow.route c.env.cfg.guestIp).offers c.flow.history,
        offer.1 ≤ offered c.flow.history := by
      rw [h.level.offered_eq]
      exact h.reached
    refine ⟨level_sent h.level flags seq data true, ?_, ?_⟩
    · change NeverLeft (c.flow.route env.cfg.guestIp) env.queued
        (c.flow.history ++ [.segment flags seq (c.flow.ackField flags) data true])
      rw [hframe.1, hqueued, hfield]
      exact h.offering.segment hheader hreached fun iss irs hhead ↦ h.level.edge hhead
    · change ∀ offer ∈ (c.flow.route env.cfg.guestIp).offers
          (c.flow.history ++ [.segment flags seq (c.flow.ackField flags) data true]),
        offer.1 ≤ accommodated
          (c.flow.history ++ [.segment flags seq (c.flow.ackField flags) data true])
      rw [hframe.1, offers_append]
      intro offer hmem
      refine le_trans ?_ (accommodated_append ..)
      rcases List.mem_append.1 hmem with hmem | hmem
      · exact h.reached offer hmem
      · obtain rfl := List.mem_singleton.1 hmem
        exact h.level.offered_eq.le

theorem work (h : Edged c) (hwork : Work c d) : Edged d := by
  cases hwork with
  | segment seq data hack => exact h.segment hack seq data
  | datagram payload => exact h.of_env (netEmit_frame ..).1 (netEmit_more ..)
  | flow hwork => exact h.flow hwork
  | call hheld hcall => exact ⟨h.level, h.offering, h.reached⟩

theorem works (h : Edged c) (hworks : Works c d) : Edged d := by
  induction hworks with
  | refl => exact h
  | tail _ hwork ih => exact ih.work hwork

end Edged

theorem edged_blank (env : Env η) : Edged ⟨env, .blank⟩ := by
  refine ⟨⟨rfl, Nat.zero_le _, ?_⟩, .nil _ _, ?_⟩
  · intro iss irs hhead
    cases hhead
  · intro offer hmem
    cases hmem

theorem edged_fresh {env : Env η} {f : Flow} (h : Fresh f) : Edged ⟨env, f⟩ := by
  rcases h.started with hnone | ⟨iss, irs, hopened, hnext⟩
  · refine ⟨⟨?_, ?_, ?_⟩, ?_, ?_⟩
    · rw [hnone, h.rxbuf]
      rfl
    · rw [h.rxbuf]
      exact Nat.zero_le _
    · rw [hnone]
      intro iss irs hhead
      cases hhead
    · rw [hnone]
      exact .nil _ _
    · rw [hnone]
      intro offer hmem
      cases hmem
  · have hoffers (route : Route) : route.offers [.opened iss irs] = [] := rfl
    refine ⟨⟨?_, ?_, ?_⟩, ?_, ?_⟩
    · rw [hopened, h.rxbuf]
      rfl
    · rw [h.rxbuf]
      exact Nat.zero_le _
    · rw [hopened, hnext]
      intro iss' irs' hhead
      obtain ⟨rfl, rfl⟩ := FlowEvent.opened.inj (Option.some.inj hhead)
      exact (BitVec.add_zero _).symm
    · rw [hopened]
      refine ⟨List.nil_sublist _, ?_, List.Pairwise.nil⟩
      intro iss' irs' _ offer hmem
      cases hmem
    · rw [hopened]
      intro offer hmem
      cases hmem

/-- No edge of any flow went left. -/
structure EdgedStack (s : Stack η) : Prop where
  flows : ∀ i, Edged ⟨s.env, s.flow i⟩
  released : ∀ history ∈ s.env.released, ∃ route : Route,
    route.guestIp = s.env.cfg.guestIp ∧ NeverLeft route s.env.queued history

namespace EdgedStack

variable {s s' : Stack η}

theorem beside (h : EdgedStack s) {env : Env η} (hcfg : env.cfg = s.env.cfg)
    (hreleased : env.released = s.env.released)
    (hqueued : ∃ more, env.queued = s.env.queued ++ more) : EdgedStack { s with env } := by
  refine ⟨fun i ↦ (h.flows i).of_env hcfg hqueued, ?_⟩
  obtain ⟨more, hmore⟩ := hqueued
  change ∀ history ∈ env.released, ∃ route : Route,
    route.guestIp = env.cfg.guestIp ∧ NeverLeft route env.queued history
  rw [hcfg, hreleased, hmore]
  intro history hmem
  obtain ⟨route, hroute, hleft⟩ := h.released history hmem
  exact ⟨route, hroute, hleft.more more⟩

theorem serviced (h : EdgedStack s) {i : Fin netMaxFlows} {env : Env η} {f : Flow}
    {act : Conn η → Conn η} (henv : env.cfg = s.env.cfg ∧ env.released = s.env.released ∧
      ∃ more, env.queued = s.env.queued ++ more)
    (hflow : Edged ⟨env, f⟩) (hserviced : Serviced ⟨env, f⟩ (act ⟨s.env, s.flow i⟩)) :
    EdgedStack (s.service i act) := by
  have hbefore := h.beside henv.1 henv.2.1 henv.2.2
  have hservice (d : Conn η) (hd : Edged d) (hstack : EdgedStack { s with env := d.env }) :
      EdgedStack ⟨d.env, Function.update s.flow i d.flow⟩ := by
    refine ⟨?_, hstack.released⟩
    intro j
    dsimp only
    by_cases hsame : j = i
    · rw [hsame, Function.update_self]
      exact hd
    · rw [Function.update_of_ne hsame]
      exact hstack.flows j
  rcases hserviced with hworks | ⟨last, hworks, hfreed⟩
  · have hframed := works_framed hworks
    exact hservice _ (hflow.works hworks)
      (hbefore.beside hframed.cfg hframed.released hframed.queued)
  · have hframed := works_framed hworks
    have hlast := hflow.works hworks
    have hstack := hbefore.beside hframed.cfg hframed.released hframed.queued
    unfold Stack.service
    rw [hfreed]
    by_cases hused : last.flow.used = true
    · rw [netFlowFree_of_used hused]
      refine hservice ⟨_, .blank⟩ (edged_blank _) ⟨?_, ?_⟩
      · exact fun j ↦ (hstack.flows j).of_env rfl ⟨[], (List.append_nil _).symm⟩
      · intro history hmem
        rcases List.mem_append.1 hmem with hmem | hmem
        · exact hstack.released history hmem
        · obtain rfl := List.mem_singleton.1 hmem
          exact ⟨_, rfl, hlast.offering⟩
    · unfold Conn.netFlowFree
      rw [if_pos (by simpa using hused)]
      exact hservice last hlast hstack

theorem work (h : EdgedStack s) (hwork : StackWork s s') : EdgedStack s' := by
  cases hwork with
  | beside hbeside => exact h.beside hbeside.cfg hbeside.released hbeside.queued
  | serve i act hused hserviced =>
    exact h.serviced ⟨rfl, rfl, [], (List.append_nil _).symm⟩ (h.flows i) hserviced
  | @opens i act env f hfree hnew henv hfresh hopening =>
    have hasked : Fresh (Conn.asked ⟨env, f⟩).flow := ⟨hfresh.used, hfresh.rxbuf, hfresh.started⟩
    have hedged : Edged (Conn.asked ⟨env, f⟩) := edged_fresh hasked
    have hbeside : (Conn.asked ⟨env, f⟩).env.cfg = s.env.cfg ∧
        (Conn.asked ⟨env, f⟩).env.released = s.env.released ∧
          ∃ more, (Conn.asked ⟨env, f⟩).env.queued = s.env.queued ++ more :=
      ⟨henv.cfg, henv.released, henv.queued⟩
    exact h.serviced hbeside hedged hopening.1

end EdgedStack

theorem edgedStack_netInit (cfg : Config) (eg : Egress η) (host : η) :
    EdgedStack (netInit cfg eg host) :=
  ⟨fun _ ↦ edged_blank _, fun _ hmem ↦ absurd hmem List.not_mem_nil⟩

/-- In every run of the stack over any egress, every TCP flow keeps within its buffers, has no more
outstanding than its buffer and one SYN or FIN, and never moves the right edge it offers to the
left; the flows that were released never did. -/
theorem tcpFlow_bounded (cfg : Config) (eg : Egress η) (host : η) (ops : List NetOp) :
    let s := (Run.run System.act (System.init cfg eg host) ops).stack
    (∀ i, (s.flow i).used = true → (s.flow i).proto = protoTcp →
      (s.flow i).txbuf.length ≤ netTcpTxbuf ∧ (s.flow i).rxbuf.length ≤ netTcpRxbuf ∧
        netSeqLe (s.flow i).sndUna (s.flow i).sndNxt = true ∧
        (s.flow i).outstanding ≤ (s.flow i).outstandingMax ∧
        Begun (s.flow i).history ∧
        NeverLeft ((s.flow i).route s.env.cfg.guestIp) s.env.queued (s.flow i).history) ∧
      ∀ history ∈ s.env.released, history = [] ∨ Begun history ∧ ∃ route : Route,
        route.guestIp = s.env.cfg.guestIp ∧ NeverLeft route s.env.queued history := by
  have hsettled := boundedRule.run_act cfg eg host ops
  have hedged : EdgedStack (Run.run System.act (System.init cfg eg host) ops).stack :=
    Stack.kept_run (fun _ _ _ _ h hwork ↦ h.work hwork) (edgedStack_netInit cfg eg host)
      (fun _ _ _ ↦ edgedStack_netInit cfg eg _) ops
  refine ⟨?_, ?_⟩
  · intro i hused hproto
    obtain ⟨hbounded, hbegun⟩ : Bounded _ ∧ Begun _ := by
      rcases hsettled.flows i with htcp | hidle
      · exact htcp.2
      · exact absurd hproto hidle.1
    exact ⟨hbounded.txbuf, hbounded.rxbuf, hbounded.netSeqLe, hbounded.outstanding, hbegun,
      (hedged.flows i).offering⟩
  · intro history hmem
    exact (hsettled.released history hmem).imp_right fun hbegun ↦
      ⟨hbegun, hedged.released history hmem⟩

end S5LBox.Net
