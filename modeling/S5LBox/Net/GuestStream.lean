import S5LBox.Net.HostStream

/-!
# The guest's stream

Octets of the guest are acknowledged when they are buffered and reach the egress later. What the
egress has accepted is always the beginning of the guest's stream; that all of it gets there before
the flow is released needs the buffer to be empty when the close completes, for TIME-WAIT and CLOSED
drain nothing.
-/

namespace S5LBox.Net

open BitVec
open BitVec (ofNat)

def FlowEvent.guestOctets : FlowEvent → List Octet
  | .buffered _ _ data => data
  | _ => []

def FlowEvent.deliveredOctets : FlowEvent → List Octet
  | .delivered data => data
  | _ => []

/-- The octets of the guest, in the order in which they were buffered. -/
def guestStream (history : List FlowEvent) : List Octet := history.flatMap FlowEvent.guestOctets

/-- What the egress has accepted. -/
def deliveredStream (history : List FlowEvent) : List Octet :=
  history.flatMap FlowEvent.deliveredOctets

/-- How far the guest's sequence numbers have come: its octets and its FIN. -/
def guestReach (history : List FlowEvent) : ℕ :=
  (guestStream history).length + history.count .finished

/-- Octets are buffered at their own place in the guest's sequence space. -/
def Places (before : List FlowEvent) : FlowEvent → Prop
  | .buffered seq payload data =>
    ∀ iss irs, before.head? = some (.opened iss irs) →
      ∃ skip, seq + ofNat 32 skip = irs + 1 + ofNat 32 (guestReach before) ∧
        data <+: payload.drop skip
  | _ => True

/-- A queued segment acknowledges just what came before it. -/
def Acknowledges (before : List FlowEvent) : FlowEvent → Prop
  | .segment flags _ ack _ true =>
    hasFlag flags flagAck = true → ∀ iss irs, before.head? = some (.opened iss irs) →
      ack = irs + 1 + ofNat 32 (guestReach before)
  | _ => True

/-- The octets that a queued segment acknowledges are among `accepted`. -/
def Within (accepted : List Octet) (before : List FlowEvent) : FlowEvent → Prop
  | .segment flags _ _ _ true => hasFlag flags flagAck = true → guestStream before <+: accepted
  | _ => True

/-- What the egress accepted is the beginning of the guest's stream, each octet of which came in a
segment at its own sequence number; acknowledgements cover no more than that stream. -/
structure InOrder (history : List FlowEvent) : Prop where
  delivered : deliveredStream history <+: guestStream history
  placed : Trace.Lawful Places history
  acknowledged : Trace.Lawful Acknowledges history

/-- Unless the flow was reset or the egress failed, the egress accepted every octet that was
acknowledged to the guest. -/
def NothingLost (history : List FlowEvent) : Prop :=
  wasReset history = false → .failed ∉ history →
    Trace.Lawful (Within (deliveredStream history)) history

/-- The acknowledgement is the one of our FIN. -/
def Flow.finAcknowledged (f : Flow) (ack : Word) : Bool := f.accepts ack && f.coversFin ack

/-- The segment has octets that are next in the guest's stream. -/
def Flow.carriesNew (f : Flow) (seg : Segment) : Bool :=
  seg.payload != [] && (netSeqLe seg.seq f.rcvNxt && netSeqLt f.rcvNxt (Flow.segmentEnd seg))

/-- The segment's FIN is next after its octets, which fit the buffer. -/
def Flow.finInTurn (f : Flow) (seg : Segment) : Bool :=
  hasFlag seg.flags flagFin &&
    if f.carriesNew seg then
      (Flow.segmentEnd seg - f.rcvNxt).toNat ≤ netTcpRxbuf - f.rxbuf.length
    else Flow.segmentEnd seg == f.rcvNxt

/-- The condition on an acknowledging segment: one that completes the close, by acknowledging our
FIN after the guest's or by bringing the guest's FIN after ours was acknowledged, finds the buffer
toward the host empty and brings no octets. -/
def DrainOrder (f : Flow) (seg : Segment) : Prop :=
  ((f.state = .closing ∨ f.state = .lastAck) → f.finAcknowledged seg.ack → f.rxbuf = []) ∧
    ((f.state = .finWait2 ∨ (f.state = .finWait1 ∧ f.finAcknowledged seg.ack)) →
      f.finInTurn seg → f.rxbuf = [] ∧ f.carriesNew seg = false)

theorem guestStream_append (history : List FlowEvent) (event : FlowEvent) :
    guestStream (history ++ [event]) = guestStream history ++ event.guestOctets := by
  unfold guestStream
  rw [List.flatMap_append, List.flatMap_singleton]

theorem deliveredStream_append (history : List FlowEvent) (event : FlowEvent) :
    deliveredStream (history ++ [event]) = deliveredStream history ++ event.deliveredOctets := by
  unfold deliveredStream
  rw [List.flatMap_append, List.flatMap_singleton]

theorem guestReach_append (history : List FlowEvent) (event : FlowEvent) :
    guestReach (history ++ [event]) =
      guestReach history + (event.guestOctets.length + [event].count .finished) := by
  unfold guestReach
  rw [guestStream_append, List.length_append, List.count_append]
  omega

theorem Within.mono {accepted accepted' : List Octet} (h : accepted <+: accepted')
    {before : List FlowEvent} {event : FlowEvent} (hwithin : Within accepted before event) :
    Within accepted' before event := by
  unfold Within at *
  split
  · exact fun hflag ↦ (hwithin hflag).trans h
  · trivial

theorem within_of_all {accepted : List Octet} {history : List FlowEvent}
    (h : accepted = guestStream history) : Trace.Lawful (Within accepted) history := by
  intro before event after hsplit
  unfold Within
  split
  · intro _
    rw [h, hsplit]
    unfold guestStream
    rw [List.flatMap_append]
    exact List.prefix_append _ _
  · trivial

structure Flowing (f : Flow) : Prop where
  placed : Trace.Lawful Places f.history
  acknowledged : Trace.Lawful Acknowledges f.history
  stream : deliveredStream f.history ++ f.rxbuf = guestStream f.history
  opened : ∃ iss irs, f.history.head? = some (.opened iss irs) ∧
    f.rcvNxt = irs + 1 + ofNat 32 (guestReach f.history)
  room : f.rxbuf.length ≤ netTcpRxbuf
  drained : f.state = .timeWait → f.rxbuf = []
  closed : f.state = .closed → wasReset f.history = false →
    Trace.Lawful (Within (deliveredStream f.history)) f.history

variable {f : Flow} {seg : Segment}

section

variable (h : Flowing f)

include h

theorem Flowing.inOrder : InOrder f.history := by
  refine ⟨?_, h.placed, h.acknowledged⟩
  rw [← h.stream]
  exact List.prefix_append _ _

theorem Flowing.of_same {f' : Flow} (hhistory : f'.history = f.history)
    (hrxbuf : f'.rxbuf = f.rxbuf) (hnext : f'.rcvNxt = f.rcvNxt)
    (htimeWait : f'.state = .timeWait → f.state = .timeWait)
    (hclosed : f'.state = .closed → f.state = .closed) : Flowing f' := by
  refine ⟨?_, ?_, ?_, ?_, ?_, ?_, ?_⟩
  · rw [hhistory]
    exact h.placed
  · rw [hhistory]
    exact h.acknowledged
  · rw [hhistory, hrxbuf]
    exact h.stream
  · rw [hhistory, hnext]
    exact h.opened
  · rw [hrxbuf]
    exact h.room
  · intro hstate
    rw [hrxbuf]
    exact h.drained (htimeWait hstate)
  · intro hstate
    rw [hhistory]
    exact h.closed (hclosed hstate)

omit h in
theorem wasReset_append (history : List FlowEvent) (event : FlowEvent) :
    wasReset (history ++ [event]) = (wasReset history || wasReset [event]) := List.any_append

omit h in
theorem Flowing.note {f : Flow} (h : Flowing f) {event : FlowEvent}
    (hguest : event.guestOctets = []) (hdelivered : event.deliveredOctets = [])
    (hfin : event ≠ .finished) (hplaces : Places f.history event)
    (hack : Acknowledges f.history event)
    (hwithin : f.state = .closed → wasReset (f.history ++ [event]) = false →
      Within (deliveredStream f.history) f.history event) : Flowing (f.note event) := by
  have hreach : guestReach (f.history ++ [event]) = guestReach f.history := by
    rw [guestReach_append, hguest]
    have hnone : [event].count .finished = 0 := by
      rw [List.count_singleton]
      exact if_neg (by simpa using hfin)
    rw [hnone]
    rfl
  have hstream : deliveredStream (f.history ++ [event]) = deliveredStream f.history := by
    rw [deliveredStream_append, hdelivered, List.append_nil]
  obtain ⟨iss, irs, hopened, hnext⟩ := h.opened
  refine ⟨Trace.lawful_append.2 ⟨h.placed, hplaces⟩, Trace.lawful_append.2 ⟨h.acknowledged, hack⟩,
    ?_, ⟨iss, irs, head?_append hopened event, ?_⟩, h.room, h.drained, ?_⟩
  · change deliveredStream (f.history ++ [event]) ++ f.rxbuf = guestStream (f.history ++ [event])
    rw [hstream, guestStream_append, hguest, List.append_nil, h.stream]
  · change f.rcvNxt = irs + 1 + ofNat 32 (guestReach (f.history ++ [event]))
    rw [hreach, hnext]
  · intro hstate hreset
    change Trace.Lawful (Within (deliveredStream (f.history ++ [event]))) (f.history ++ [event])
    rw [hstream]
    have hbefore : wasReset f.history = false := by
      change wasReset (f.history ++ [event]) = false at hreset
      rw [wasReset_append, Bool.or_eq_false_iff] at hreset
      exact hreset.1
    exact Trace.lawful_append.2 ⟨h.closed hstate hbefore, hwithin hstate hreset⟩

theorem Flowing.sent (flags : Octet) (seq : Word) (data : List Octet) (queued : Bool)
    (hlive : f.state ≠ .closed ∨ hasFlag flags flagRst = true) :
    Flowing (f.sent flags seq data queued) := by
  have hsame : Flowing { f with needAck := f.needAck && !(queued && hasFlag flags flagAck) } :=
    h.of_same rfl rfl rfl id id
  refine hsame.note rfl rfl (by simp) trivial ?_ ?_
  · cases queued
    · trivial
    · intro hflag iss irs hhead
      obtain ⟨iss', irs', hopened, hnext⟩ := h.opened
      obtain ⟨rfl, rfl⟩ := FlowEvent.opened.inj (Option.some.inj (hopened.symm.trans hhead))
      unfold Flow.ackField
      rw [if_pos hflag]
      exact hnext
  · intro hclosed hreset
    have hrst := hlive.resolve_left (absurd hclosed)
    rw [wasReset_append, Bool.or_eq_false_iff] at hreset
    have hevent : hasFlag flags flagRst = false := by simpa [wasReset] using hreset.2
    rw [hrst] at hevent
    cases hevent

theorem Flowing.advance (count : ℕ) : Flowing (f.advance count) :=
  h.of_same rfl rfl rfl id id

theorem Flowing.deliver (count : ℕ) : Flowing (f.deliver count) := by
  have hreach : guestReach (f.history ++ [.delivered (f.rxbuf.take count)]) =
      guestReach f.history := by
    rw [guestReach_append]
    rfl
  have hstream := deliveredStream_append f.history (.delivered (f.rxbuf.take count))
  obtain ⟨iss, irs, hopened, hnext⟩ := h.opened
  refine ⟨Trace.lawful_append.2 ⟨h.placed, trivial⟩,
    Trace.lawful_append.2 ⟨h.acknowledged, trivial⟩, ?_, ⟨iss, irs, head?_append hopened _, ?_⟩,
    ?_, ?_, ?_⟩
  · change deliveredStream (f.history ++ [_]) ++ f.rxbuf.drop count = guestStream (f.history ++ [_])
    rw [hstream, guestStream_append]
    change deliveredStream f.history ++ f.rxbuf.take count ++ f.rxbuf.drop count =
      guestStream f.history ++ []
    rw [List.append_assoc, List.take_append_drop, List.append_nil, h.stream]
  · change f.rcvNxt = irs + 1 + ofNat 32 (guestReach (f.history ++ [_]))
    rw [hreach, hnext]
  · change (f.rxbuf.drop count).length ≤ netTcpRxbuf
    rw [List.length_drop]
    exact (Nat.sub_le _ _).trans h.room
  · intro hstate
    change f.rxbuf.drop count = []
    rw [h.drained hstate, List.drop_nil]
  · intro hstate hreset
    change wasReset (f.history ++ [_]) = false at hreset
    rw [wasReset_append, Bool.or_eq_false_iff] at hreset
    change Trace.Lawful (Within (deliveredStream (f.history ++ [_]))) (f.history ++ [_])
    rw [hstream]
    have hmore : deliveredStream f.history <+:
        deliveredStream f.history ++ (FlowEvent.delivered (f.rxbuf.take count)).deliveredOctets :=
      List.prefix_append _ _
    exact Trace.lawful_append.2
      ⟨(h.closed hstate hreset.1).mono fun _ _ hwithin ↦ hwithin.mono hmore, trivial⟩

theorem Flowing.move {f' : Flow} (hmove : FlowMove f f') : Flowing f' := by
  cases hmove with
  | control queued hflags =>
    apply h.sent
    rcases hflags with ⟨_, hlive⟩ | rfl
    · exact .inl hlive
    · exact .inr hasFlag_rst
  | timers nowMs =>
    unfold Flow.tcpTimers
    split
    · split
      · exact h
      · exact h.of_same rfl rfl rfl id id
    · exact h.of_same rfl rfl rfl id id
  | failed => exact h.note rfl rfl (by simp) trivial trivial fun _ _ ↦ trivial
  | connected queued hstate hpending =>
    have hready : Flowing (f.note .ready) :=
      h.note rfl rfl (by simp) trivial trivial fun _ _ ↦ trivial
    have hlive : (f.note .ready).state ≠ .closed := by
      change f.state ≠ .closed
      rw [hstate]
      decide
    exact (hready.sent _ _ _ _ (.inl hlive)).advance 1
  | deliver count => exact h.deliver count
  | shutdown => exact h.of_same rfl rfl rfl id id
  | append hconnected hopen hroom =>
    refine Flowing.note ?_ rfl rfl (by simp) trivial trivial fun _ _ ↦ trivial
    exact h.of_same rfl rfl rfl id id
  | endStream =>
    refine Flowing.note ?_ rfl rfl (by simp) trivial trivial fun _ _ ↦ trivial
    exact h.of_same rfl rfl rfl id id
  | timeOut => exact h.of_same rfl rfl rfl id id
  | rewind => exact h.of_same rfl rfl rfl id id
  | data count queued hstate hlive hsent hmore =>
    exact (h.sent _ _ _ _ (.inl hlive)).advance _
  | commitFin =>
    unfold Flow.commitFin
    split
    · refine h.of_same rfl rfl rfl ?_ ?_
      · dsimp only
        split <;> simp
      · dsimp only
        split <;> simp
    · exact h
  | fin queued hdue =>
    have hlive : f.state ≠ .closed := by
      intro hstate
      unfold Flow.finDue at hdue
      rw [hstate] at hdue
      simp at hdue
    exact (h.sent _ _ _ _ (.inl hlive)).advance 1
  | probe queued hstate hlive hidle hmore => exact (h.sent _ _ _ _ (.inl hlive)).advance 1

omit h in
/-- An acknowledgement leaves the guest's side alone, and moves the state only when it is the one
of our FIN. -/
theorem receiveAck_guestSide (f : Flow) (nowMs : Word) (seg : Segment) :
    let g := f.receiveAck nowMs seg
    (g.history = f.history ∧ g.rxbuf = f.rxbuf ∧ g.rcvNxt = f.rcvNxt) ∧
      (g.state = f.state ∨ (f.finAcknowledged seg.ack = true ∧
        ((f.state = .finWait1 ∧ g.state = .finWait2) ∨ (f.state = .closing ∧ g.state = .timeWait) ∨
          (f.state = .lastAck ∧ g.state = .closed)))) := by
  have haccepts : { f with sndWnd := seg.wnd.setWidth 32 }.accepts seg.ack = f.accepts seg.ack := rfl
  have hcovers : { f with sndWnd := seg.wnd.setWidth 32 }.coversFin seg.ack =
      f.coversFin seg.ack := rfl
  dsimp only
  unfold Flow.receiveAck Flow.finAcknowledged
  rw [Flow.tcpConsumeAck_eq, haccepts, hcovers]
  split
  case isFalse => exact ⟨⟨rfl, rfl, rfl⟩, .inl rfl⟩
  case isTrue hack =>
    split
    case isFalse => exact ⟨⟨rfl, rfl, rfl⟩, .inl rfl⟩
    case isTrue hfin =>
      rw [hack, hfin]
      unfold Flow.finAcked
      split
      case h_1 hstate => exact ⟨⟨rfl, rfl, rfl⟩, .inr ⟨rfl, .inl ⟨hstate, rfl⟩⟩⟩
      case h_2 hstate => exact ⟨⟨rfl, rfl, rfl⟩, .inr ⟨rfl, .inr (.inl ⟨hstate, rfl⟩)⟩⟩
      case h_3 hstate => exact ⟨⟨rfl, rfl, rfl⟩, .inr ⟨rfl, .inr (.inr ⟨hstate, rfl⟩)⟩⟩
      case h_4 => exact ⟨⟨rfl, rfl, rfl⟩, .inl rfl⟩

theorem Flowing.of_drained {f' : Flow} (hhistory : f'.history = f.history)
    (hrxbuf : f'.rxbuf = f.rxbuf) (hnext : f'.rcvNxt = f.rcvNxt) (hdrained : f.rxbuf = []) :
    Flowing f' := by
  have hall : deliveredStream f.history = guestStream f.history := by
    rw [← h.stream, hdrained, List.append_nil]
  refine ⟨?_, ?_, ?_, ?_, ?_, ?_, ?_⟩
  · rw [hhistory]
    exact h.placed
  · rw [hhistory]
    exact h.acknowledged
  · rw [hhistory, hrxbuf]
    exact h.stream
  · rw [hhistory, hnext]
    exact h.opened
  · rw [hrxbuf]
    exact h.room
  · intro _
    rw [hrxbuf, hdrained]
  · intro _ _
    rw [hhistory]
    exact within_of_all hall

theorem Flowing.receiveAck (nowMs : Word) (horder : DrainOrder f seg) :
    Flowing (f.receiveAck nowMs seg) := by
  obtain ⟨⟨hhistory, hrxbuf, hnext⟩, hstate | ⟨hfin, hmoves⟩⟩ := receiveAck_guestSide f nowMs seg
  · apply h.of_same hhistory hrxbuf hnext
    · rw [hstate]
      exact id
    · rw [hstate]
      exact id
  · rcases hmoves with ⟨_, hstate⟩ | ⟨hbefore, hstate⟩ | ⟨hbefore, hstate⟩
    · apply h.of_same hhistory hrxbuf hnext
      · rw [hstate]
        intro hfalse
        cases hfalse
      · rw [hstate]
        intro hfalse
        cases hfalse
    · exact h.of_drained hhistory hrxbuf hnext (horder.1 (.inl hbefore) hfin)
    · exact h.of_drained hhistory hrxbuf hnext (horder.1 (.inr hbefore) hfin)

theorem Flowing.establish (ack : Word) : Flowing (f.establish ack) := by
  unfold Flow.establish
  split
  · refine Flowing.note ?_ rfl rfl (by simp) trivial trivial fun _ _ ↦ trivial
    refine h.of_same rfl rfl rfl ?_ ?_
    · intro hfalse
      cases hfalse
    · intro hfalse
      cases hfalse
  · exact h

theorem Flowing.takePayload (seg : Segment) (hstate : f.state ≠ .timeWait) :
    Flowing (f.takePayload seg) := by
  obtain ⟨iss, irs, hopened, hnext⟩ := h.opened
  unfold Flow.takePayload
  have hpart : (seg.payload.drop (f.rcvNxt - seg.seq).toNat).take (netTcpRxbuf - f.rxbuf.length) <+:
      seg.payload.drop (f.rcvNxt - seg.seq).toNat := List.take_prefix _ _
  have hfits : ((seg.payload.drop (f.rcvNxt - seg.seq).toNat).take
      (netTcpRxbuf - f.rxbuf.length)).length ≤ netTcpRxbuf - f.rxbuf.length := List.length_take_le _ _
  generalize (seg.payload.drop (f.rcvNxt - seg.seq).toNat).take
    (netTcpRxbuf - f.rxbuf.length) = data at *
  have hreach := guestReach_append f.history (.buffered seg.seq seg.payload data)
  have hdelivered := deliveredStream_append f.history (.buffered seg.seq seg.payload data)
  have hguest := guestStream_append f.history (.buffered seg.seq seg.payload data)
  have hroom := h.room
  dsimp only
  refine ⟨Trace.lawful_append.2 ⟨h.placed, ?_⟩, Trace.lawful_append.2 ⟨h.acknowledged, trivial⟩,
    ?_, ⟨iss, irs, head?_append hopened _, ?_⟩, ?_, fun hwait ↦ absurd hwait hstate, ?_⟩
  · intro iss' irs' hhead
    obtain ⟨rfl, rfl⟩ := FlowEvent.opened.inj (Option.some.inj (hopened.symm.trans hhead))
    refine ⟨(f.rcvNxt - seg.seq).toNat, ?_, hpart⟩
    rw [ofNat_sub_toNat]
    exact hnext
  · change deliveredStream (f.history ++ [_]) ++ (f.rxbuf ++ data) = guestStream (f.history ++ [_])
    rw [hdelivered, hguest, ← h.stream]
    change deliveredStream f.history ++ [] ++ (f.rxbuf ++ data) = _
    rw [List.append_nil, List.append_assoc]
    rfl
  · change f.rcvNxt + ofNat 32 data.length = irs + 1 + ofNat 32 (guestReach (f.history ++ [_]))
    rw [hreach, hnext, ofNat_add, ← BitVec.add_assoc]
    rfl
  · change (f.rxbuf ++ data).length ≤ netTcpRxbuf
    rw [List.length_append]
    omega
  · intro hclosed hreset
    change wasReset (f.history ++ [_]) = false at hreset
    rw [wasReset_append, Bool.or_eq_false_iff] at hreset
    change Trace.Lawful (Within (deliveredStream (f.history ++ [_]))) (f.history ++ [_])
    rw [hdelivered]
    change Trace.Lawful (Within (deliveredStream f.history ++ [])) _
    rw [List.append_nil]
    exact Trace.lawful_append.2 ⟨h.closed hclosed hreset.1, trivial⟩

theorem Flowing.receiveData (seg : Segment) : Flowing (f.receiveData seg) := by
  unfold Flow.receiveData
  split
  case isTrue hopen =>
    split
    · refine h.takePayload seg ?_
      intro hstate
      rw [hstate, Bool.and_eq_true] at hopen
      exact absurd hopen.2 (by decide)
    · exact h.of_same rfl rfl rfl id id
  · exact h

/-- The guest's FIN takes the next sequence number. -/
theorem Flowing.finish :
    Flowing ({ f with rcvNxt := f.rcvNxt + 1, needAck := true }.note .finished) := by
  obtain ⟨iss, irs, hopened, hnext⟩ := h.opened
  have hreach : guestReach (f.history ++ [.finished]) = guestReach f.history + 1 :=
    guestReach_append f.history .finished
  have hdelivered : deliveredStream (f.history ++ [.finished]) = deliveredStream f.history := by
    rw [deliveredStream_append]
    exact List.append_nil _
  refine ⟨Trace.lawful_append.2 ⟨h.placed, trivial⟩,
    Trace.lawful_append.2 ⟨h.acknowledged, trivial⟩, ?_, ⟨iss, irs, head?_append hopened _, ?_⟩,
    h.room, h.drained, ?_⟩
  · change deliveredStream (f.history ++ [.finished]) ++ f.rxbuf =
      guestStream (f.history ++ [.finished])
    rw [hdelivered, guestStream_append, h.stream]
    exact (List.append_nil _).symm
  · have hone : (1 : Word) = ofNat 32 1 := rfl
    unfold Flow.note
    dsimp only
    rw [hreach, hnext, hone, ofNat_add, ← BitVec.add_assoc, ← hone]
  · intro hclosed hreset
    change wasReset (f.history ++ [.finished]) = false at hreset
    rw [wasReset_append, Bool.or_eq_false_iff] at hreset
    change Trace.Lawful (Within (deliveredStream (f.history ++ [.finished])))
      (f.history ++ [.finished])
    rw [hdelivered]
    exact Trace.lawful_append.2 ⟨h.closed hclosed hreset.1, trivial⟩

theorem Flowing.receiveFin (nowMs : Word)
    (hdrained : f.state = .finWait2 → hasFlag seg.flags flagFin = true →
      Flow.segmentEnd seg = f.rcvNxt → f.rxbuf = []) : Flowing (f.receiveFin nowMs seg) := by
  unfold Flow.receiveFin
  split
  case isFalse => exact h
  case isTrue hflag =>
    split
    · exact h.of_same rfl rfl rfl id id
    split
    case isFalse => exact h
    case isTrue hturn =>
      have hfinish := h.finish
      unfold Flow.acceptFin
      dsimp only
      split
      · refine hfinish.of_same rfl rfl rfl ?_ ?_ <;> simp
      · refine hfinish.of_same rfl rfl rfl ?_ ?_ <;> simp
      case h_3 hstate =>
        exact hfinish.of_drained rfl rfl rfl (hdrained hstate hflag (by simpa using hturn))
      · exact hfinish

end

theorem finInTurn_of_receiveData (hstate : f.state = .finWait2)
    (hflag : hasFlag seg.flags flagFin = true)
    (hturn : Flow.segmentEnd seg = (f.receiveData seg).rcvNxt) : f.finInTurn seg = true := by
  have hopen : tcpGuestFinished f.state = false := by
    rw [hstate]
    rfl
  unfold Flow.receiveData at hturn
  rw [hopen, Bool.not_false, Bool.and_true] at hturn
  unfold Flow.finInTurn Flow.carriesNew
  rw [hflag, Bool.true_and]
  by_cases hpayload : (seg.payload != []) = true
  · rw [if_pos hpayload] at hturn
    rw [hpayload, Bool.true_and]
    split at hturn
    case isTrue hnew =>
      have hend : Flow.segmentEnd seg - f.rcvNxt = ofNat 32 ((seg.payload.drop
          (f.rcvNxt - seg.seq).toNat).take (netTcpRxbuf - f.rxbuf.length)).length := by
        rw [hturn]
        exact add_sub_cancel_left _ _
      have hfits : ((seg.payload.drop (f.rcvNxt - seg.seq).toNat).take
          (netTcpRxbuf - f.rxbuf.length)).length ≤ netTcpRxbuf - f.rxbuf.length :=
        List.length_take_le _ _
      rw [if_pos hnew, decide_eq_true_eq, hend, toNat_ofNat]
      exact (Nat.mod_le _ _).trans hfits
    case isFalse hold =>
      rw [if_neg hold]
      exact beq_iff_eq.2 hturn
  · rw [if_neg hpayload] at hturn
    rw [Bool.not_eq_true] at hpayload
    rw [hpayload, Bool.false_and]
    exact beq_iff_eq.2 hturn

theorem receiveData_of_old (hold : f.carriesNew seg = false) :
    (f.receiveData seg).rxbuf = f.rxbuf := by
  unfold Flow.receiveData
  split
  case isTrue hopen =>
    rw [Bool.and_eq_true] at hopen
    unfold Flow.carriesNew at hold
    rw [hopen.1, Bool.true_and] at hold
    rw [hold]
    rfl
  · rfl

theorem receiveData_state (f : Flow) (seg : Segment) : (f.receiveData seg).state = f.state := by
  unfold Flow.receiveData
  split
  · split <;> rfl
  · rfl

theorem drained_of_order {nowMs : Word} (horder : DrainOrder f seg)
    (hstate : ((f.receiveAck nowMs seg).establish seg.ack).state = .finWait2)
    (hflag : hasFlag seg.flags flagFin = true) (hturn : Flow.segmentEnd seg =
      (((f.receiveAck nowMs seg).establish seg.ack).receiveData seg).rcvNxt) :
    (((f.receiveAck nowMs seg).establish seg.ack).receiveData seg).rxbuf = [] := by
  obtain ⟨⟨_, hrxbuf, hnext⟩, hmoves⟩ := receiveAck_guestSide f nowMs seg
  have hsame : (f.receiveAck nowMs seg).establish seg.ack = f.receiveAck nowMs seg := by
    unfold Flow.establish at hstate ⊢
    split at hstate
    · cases hstate
    case isFalse hpast => rw [if_neg hpast]
  rw [hsame] at hstate hturn ⊢
  have hbefore : f.state = .finWait2 ∨ (f.state = .finWait1 ∧ f.finAcknowledged seg.ack) := by
    rcases hmoves with hmoves | ⟨hfin, hmoves⟩
    · exact .inl (hmoves ▸ hstate)
    · rcases hmoves with ⟨hwas, _⟩ | ⟨_, his⟩ | ⟨_, his⟩
      · exact .inr ⟨hwas, hfin⟩
      · rw [hstate] at his
        cases his
      · rw [hstate] at his
        cases his
  have hinTurn := finInTurn_of_receiveData hstate hflag hturn
  have hfields : (f.receiveAck nowMs seg).finInTurn seg = f.finInTurn seg ∧
      (f.receiveAck nowMs seg).carriesNew seg = f.carriesNew seg := by
    unfold Flow.finInTurn Flow.carriesNew
    rw [hrxbuf, hnext]
    exact ⟨rfl, rfl⟩
  rw [hfields.1] at hinTurn
  obtain ⟨hempty, hold⟩ := horder.2 hbefore hinTurn
  rw [← hfields.2] at hold
  rw [receiveData_of_old hold, hrxbuf, hempty]

theorem guestRule : FlowRule Flowing (fun h ↦ InOrder h ∧ NothingLost h) DrainOrder where
  move _ _ h hmove := h.move hmove
  ending f h hover := by
    refine ⟨h.inOrder, ?_⟩
    intro hreset _
    rcases hover with hstate | hstate | hwas
    · refine within_of_all ?_
      rw [← h.stream, h.drained hstate, List.append_nil]
    · exact h.closed hstate hreset
    · rw [hreset] at hwas
      cases hwas
  unused := ⟨⟨List.nil_prefix, Trace.lawful_nil, Trace.lawful_nil⟩, fun _ _ ↦ Trace.lawful_nil⟩
  opened f seg iss hhistory _ hrxbuf _ _ := by
    have hstart : (f.synFlow seg iss).history = [.opened iss (getBe32 seg 4)] := by
      change f.history ++ [_] = _
      rw [hhistory, List.nil_append]
    have hempty : (f.synFlow seg iss).rxbuf = [] := hrxbuf
    refine ⟨?_, ?_, ?_, ⟨iss, getBe32 seg 4, ?_, ?_⟩, ?_, fun _ ↦ hempty, ?_⟩
    · rw [hstart]
      exact Trace.lawful_append.2 ⟨Trace.lawful_nil, trivial⟩
    · rw [hstart]
      exact Trace.lawful_append.2 ⟨Trace.lawful_nil, trivial⟩
    · rw [hstart, hempty]
      rfl
    · rw [hstart]
      rfl
    · rw [hstart]
      exact (BitVec.add_zero _).symm
    · rw [hempty]
      exact Nat.zero_le _
    · intro hclosed
      cases hclosed
  handled _ _ _ h := h.of_same rfl rfl rfl id id
  touched _ _ h := h.of_same rfl rfl rfl id id
  safe_touched _ _ _ h := h
  reset _ h := h.note rfl rfl (by simp) trivial trivial fun _ _ ↦ trivial
  again f _ h hstate := h.sent _ _ _ _ (.inl (by rw [hstate]; decide))
  acked _ nowMs _ h horder _ := h.receiveAck nowMs horder
  rest f nowMs seg h horder _ := by
    have hdata := ((h.receiveAck nowMs horder).establish seg.ack).receiveData seg
    refine hdata.receiveFin nowMs ?_
    rw [receiveData_state]
    exact drained_of_order horder

/-- In every run whose segments complete a close only once the buffer toward the host is empty, what
the egress has accepted of a flow is at all times the beginning of the guest's stream, and a flow
that is released without a reset and without an error had all that was acknowledged accepted. -/
theorem guestStream_of_order {η : Type} (cfg : Config) (eg : Egress η) (host : η) (ops : List Op)
    (horder : Run.Within System.step (Meets DrainOrder) (System.init cfg eg host) ops) :
    (∀ history ∈ (Run.run System.step (System.init cfg eg host) ops).stack.histories,
        InOrder history) ∧
      ∀ history ∈ (Run.run System.step (System.init cfg eg host) ops).stack.env.released,
        NothingLost history := by
  have hsettled := guestRule.run horder
  refine ⟨?_, fun history hmem ↦ (hsettled.released history hmem).2⟩
  exact hsettled.histories (fun _ h ↦ h.inOrder) (fun _ h ↦ h.1) guestRule.unused.1

instance (f : Flow) (seg : Segment) : Decidable (DrainOrder f seg) := by
  unfold DrainOrder
  infer_instance

/-- The last octet comes with the guest's FIN in FIN-WAIT-2: it is acknowledged, and TIME-WAIT
ends without having drained it. -/
theorem guestStream_violated :
    ¬∀ history ∈ (exampleRun ⟨[], [.eof], []⟩ [guestSegment flagSyn 100 0 [],
        guestSegment flagAck 101 (exampleIss + 1) [], guestSegment flagAck 101 (exampleIss + 2) [],
        guestSegment (flagFin ||| flagAck) 101 (exampleIss + 2) [7],
        .tick 2000]).stack.env.released, NothingLost history := by
  intro hnothing
  have hreleased : [.opened exampleIss 100, .ready,
      .segment (flagSyn ||| flagAck) exampleIss 101 [] true,
      .established (exampleIss + 1) (exampleIss + 1), .eof,
      .segment (flagAck ||| flagFin) (exampleIss + 1) 101 [] true, .buffered 101 [7] [7], .finished,
      .segment flagAck (exampleIss + 2) 103 [] true] ∈
      (exampleRun ⟨[], [.eof], []⟩ [guestSegment flagSyn 100 0 [],
        guestSegment flagAck 101 (exampleIss + 1) [], guestSegment flagAck 101 (exampleIss + 2) [],
        guestSegment (flagFin ||| flagAck) 101 (exampleIss + 2) [7],
        .tick 2000]).stack.env.released := by
    decide +kernel
  have hwithin := hnothing _ hreleased (by decide) (by decide)
    [.opened exampleIss 100, .ready, .segment (flagSyn ||| flagAck) exampleIss 101 [] true,
      .established (exampleIss + 1) (exampleIss + 1), .eof,
      .segment (flagAck ||| flagFin) (exampleIss + 1) 101 [] true, .buffered 101 [7] [7], .finished]
    (.segment flagAck (exampleIss + 2) 103 [] true) [] rfl (by decide)
  exact absurd hwithin (by decide)

theorem guestStream_of_order_exchange : NothingLost [.opened exampleIss 100, .ready,
      .segment (flagSyn ||| flagAck) exampleIss 101 [] true,
      .established (exampleIss + 1) (exampleIss + 1), .buffered 101 [7] [7], .delivered [7], .eof,
      .segment (flagAck ||| flagFin) (exampleIss + 1) 102 [] true, .finished,
      .segment flagAck (exampleIss + 2) 103 [] true] :=
  (guestStream_of_order exampleConfig scripted ⟨[], [.eof], []⟩
    [guestSegment flagSyn 100 0 [], guestSegment flagAck 101 (exampleIss + 1) [7],
      guestSegment (flagFin ||| flagAck) 102 (exampleIss + 2) [], .tick 2000]
    (by decide +kernel)).2 _ (by decide +kernel)

end S5LBox.Net
