import S5LBox.Net.Handshake

/-!
# The host's stream

The octets that the egress returns go to the guest at the sequence numbers after the SYN, in order,
and the FIN goes right behind the last of them. The send buffer begins at `snd_una`; that goes wrong
when an acknowledgement moves `snd_una` without being one of buffered octets: the one of the SYN
when host data is already there, or one half the sequence space away.
-/

namespace S5LBox.Net

open BitVec
open BitVec (ofNat)

/-- What an event adds to the stream that the egress has returned. -/
def FlowEvent.hostOctets : FlowEvent → List Octet
  | .received data => data
  | _ => []

def hostStream (history : List FlowEvent) : List Octet := history.flatMap FlowEvent.hostOctets

/-- A segment that was queued carries octets of the host's stream, each at its own place, and a FIN
only at the end of the whole stream. -/
def SegmentExact (history : List FlowEvent) : FlowEvent → Prop
  | .segment flags seq _ data true =>
    ∀ iss irs, history.head? = some (.opened iss irs) →
      (data ≠ [] → ∃ k, seq = iss + 1 + ofNat 32 k ∧ data <+: (hostStream history).drop k) ∧
      (hasFlag flags flagFin = true →
        .eof ∈ history ∧ seq = iss + 1 + ofNat 32 (hostStream history).length)
  | _ => True

/-- Every octet was emitted where it belongs. -/
def StreamExact (history : List FlowEvent) : Prop := ∀ event ∈ history, SegmentExact history event

/-- The condition on an acknowledging segment: in SYN-RCVD it finds the SYN-ACK outstanding and
acknowledges no buffered octet; elsewhere it is not half the sequence space away from a flow that
has nothing outstanding. -/
def StreamOrder (f : Flow) (seg : Segment) : Prop :=
  if f.state = .synRcvd then
    f.sndNxt ≠ f.sndUna ∧ ¬(0 < f.reach seg.ack ∧ f.reach seg.ack ≤ f.txbuf.length)
  else
    ¬(f.txbuf = [] ∧ f.finSent = false ∧ f.sndNxt = f.sndUna ∧ f.reach seg.ack = 2 ^ 31)

theorem hostStream_append (history : List FlowEvent) (event : FlowEvent) :
    hostStream (history ++ [event]) = hostStream history ++ event.hostOctets := by
  unfold hostStream
  rw [List.flatMap_append, List.flatMap_singleton]

variable {history : List FlowEvent} {iss ack : Word} {host data : List Octet} {f f' : Flow}
  {flags : Octet} {queued : Bool} {seg : Segment}

/-- More of the stream does not move what was emitted of it; after its end there is no more. -/
theorem SegmentExact.append {first event next : FlowEvent} (hfirst : history.head? = some first)
    (h : SegmentExact history event) (hnext : next.hostOctets = [] ∨ .eof ∉ history) :
    SegmentExact (history ++ [next]) event := by
  unfold SegmentExact at *
  split
  case h_1 flags seq ack data =>
    intro iss irs hopened
    have hbefore : history.head? = some (.opened iss irs) := by
      rw [head?_append hfirst] at hopened
      rw [hfirst, hopened]
    obtain ⟨hdata, hfin⟩ := h iss irs hbefore
    rw [hostStream_append]
    constructor
    · intro hnonempty
      obtain ⟨k, hseq, hpart⟩ := hdata hnonempty
      refine ⟨k, hseq, hpart.trans ?_⟩
      rw [List.drop_append]
      exact List.prefix_append _ _
    · intro hflag
      obtain ⟨heof, hseq⟩ := hfin hflag
      have hnone := hnext.resolve_right fun hno ↦ hno heof
      rw [hnone, List.append_nil]
      exact ⟨List.mem_append_left _ heof, hseq⟩
  · trivial

theorem StreamExact.append {first next : FlowEvent} (hfirst : history.head? = some first)
    (h : StreamExact history) (hnext : next.hostOctets = [] ∨ .eof ∉ history)
    (hexact : SegmentExact history next) : StreamExact (history ++ [next]) := by
  intro event hmem
  rcases List.mem_append.1 hmem with hmem | hmem
  · exact (h event hmem).append hfirst hnext
  · obtain rfl := List.mem_singleton.1 hmem
    exact hexact.append hfirst hnext

/-- The send buffer is what the guest has not acknowledged, and begins at its place. -/
def Aligned (iss : Word) (host : List Octet) (f : Flow) : Prop :=
  ∃ acked ≤ host.length, f.txbuf = host.drop acked ∧
    f.sndUna = iss + 1 + ofNat 32 acked ∧ f.outstanding ≤ f.committed

/-- How the send side stands in each state. -/
def Phase (iss : Word) (host : List Octet) (f : Flow) : Prop :=
  match f.state with
  | .synRcvd =>
    f.sndUna = iss ∧ (f.sndNxt = iss ∨ f.sndNxt = iss + 1) ∧ f.txbuf = host ∧ f.finSent = false
  | .established | .closeWait => Aligned iss host f ∧ f.finSent = false
  | .finWait1 | .closing | .lastAck => Aligned iss host f ∧ f.finSent = true
  | .finWait2 | .timeWait | .closed => f.txbuf = [] ∧ f.finSent = true

structure InStream (f : Flow) : Prop where
  lawful : StreamExact f.history
  room : f.txbuf.length ≤ netTcpTxbuf
  opened : ∃ iss irs, f.history.head? = some (.opened iss irs) ∧ Phase iss (hostStream f.history) f
  eof : f.hostEof = true ↔ .eof ∈ f.history
  ended : f.finSent = true → f.hostEof = true

theorem phase_synRcvd (hstate : f.state = .synRcvd) :
    Phase iss host f ↔ f.sndUna = iss ∧ (f.sndNxt = iss ∨ f.sndNxt = iss + 1) ∧ f.txbuf = host ∧
      f.finSent = false := by
  unfold Phase
  rw [hstate]

theorem Phase.of_same (h : Phase iss host f) (hstate : f'.state = f.state)
    (htxbuf : f'.txbuf = f.txbuf) (huna : f'.sndUna = f.sndUna) (hnxt : f'.sndNxt = f.sndNxt)
    (hfin : f'.finSent = f.finSent) : Phase iss host f' := by
  unfold Phase Aligned Flow.outstanding Flow.committed at *
  rwa [hstate, htxbuf, huna, hnxt, hfin]

theorem InStream.of_same (h : InStream f) (hhistory : f'.history = f.history)
    (hstate : f'.state = f.state) (htxbuf : f'.txbuf = f.txbuf) (huna : f'.sndUna = f.sndUna)
    (hnxt : f'.sndNxt = f.sndNxt) (hfin : f'.finSent = f.finSent) (heof : f'.hostEof = f.hostEof) :
    InStream f' := by
  obtain ⟨iss, irs, hopened, hphase⟩ := h.opened
  refine ⟨?_, ?_, ⟨iss, irs, ?_, ?_⟩, ?_, ?_⟩
  · rw [hhistory]
    exact h.lawful
  · rw [htxbuf]
    exact h.room
  · rw [hhistory, hopened]
  · rw [hhistory]
    exact hphase.of_same hstate htxbuf huna hnxt hfin
  · rw [heof, hhistory]
    exact h.eof
  · rw [hfin, heof]
    exact h.ended

theorem InStream.note {f : Flow} (h : InStream f) {event : FlowEvent}
    (hnone : event.hostOctets = []) (heof : event ≠ .eof) (hexact : SegmentExact f.history event) :
    InStream (f.note event) := by
  obtain ⟨iss, irs, hopened, hphase⟩ := h.opened
  refine ⟨h.lawful.append hopened (.inl hnone) hexact, h.room,
    ⟨iss, irs, head?_append hopened event, ?_⟩, ?_, h.ended⟩
  · change Phase iss (hostStream (f.history ++ [event])) _
    rw [hostStream_append, hnone, List.append_nil]
    exact hphase.of_same rfl rfl rfl rfl rfl
  · change f.hostEof = true ↔ _ ∈ f.history ++ [event]
    rw [h.eof, List.mem_append, List.mem_singleton]
    exact ⟨.inl, fun hmem ↦ hmem.resolve_right fun hsame ↦ heof hsame.symm⟩

theorem InStream.sent (h : InStream f) {seq : Word}
    (hexact : SegmentExact f.history (.segment flags seq (f.ackField flags) data queued)) :
    InStream (f.sent flags seq data queued) := by
  have hsame : InStream { f with needAck := f.needAck && !(queued && hasFlag flags flagAck) } :=
    h.of_same rfl rfl rfl rfl rfl rfl rfl
  exact hsame.note rfl (by simp) hexact

theorem segmentExact_control {seq : Word} (hflags : hasFlag flags flagFin = false) :
    SegmentExact history (.segment flags seq ack [] queued) := by
  cases queued
  · trivial
  · intro iss irs _
    refine ⟨fun hnonempty ↦ absurd rfl hnonempty, ?_⟩
    rw [hflags]
    intro hfalse
    cases hfalse

theorem outstanding_advance {count : ℕ} (h : f.outstanding + count < 2 ^ 32) :
    (f.advance count).outstanding = f.outstanding + count := by
  have hshift : f.sndNxt + ofNat 32 count - f.sndUna = (f.sndNxt - f.sndUna) + ofNat 32 count := by
    rw [add_sub_right_comm]
  change (f.sndNxt + ofNat 32 count - f.sndUna).toNat = _
  rw [hshift, toNat_add, toNat_ofNat]
  change (f.outstanding + count % 2 ^ 32) % 2 ^ 32 = _
  omega

theorem Phase.aligned (h : Phase iss host f) (hstate : f.state ≠ .synRcvd) (hmore : f.txbuf ≠ []) :
    Aligned iss host f := by
  unfold Phase at h
  split at h
  case h_1 hsyn => exact absurd hsyn hstate
  case h_2 => exact h.1
  case h_3 => exact h.1
  case h_4 => exact h.1
  case h_5 => exact h.1
  case h_6 => exact h.1
  case h_7 => exact absurd h.1 hmore
  case h_8 => exact absurd h.1 hmore
  case h_9 => exact absurd h.1 hmore

theorem Phase.past {host' : List Octet} (h : Phase iss host f) (hpast : f.state ≠ .synRcvd)
    (hstate : f'.state = f.state) (hfin : f'.finSent = f.finSent)
    (hempty : f.txbuf = [] → f.finSent = true → f'.txbuf = [])
    (halign : Aligned iss host f → Aligned iss host' f') : Phase iss host' f' := by
  unfold Phase at *
  rw [hstate, hfin]
  cases hs : f.state <;> rw [hs] at h
  case synRcvd => exact absurd hs hpast
  case established => exact ⟨halign h.1, h.2⟩
  case closeWait => exact ⟨halign h.1, h.2⟩
  case finWait1 => exact ⟨halign h.1, h.2⟩
  case closing => exact ⟨halign h.1, h.2⟩
  case lastAck => exact ⟨halign h.1, h.2⟩
  case finWait2 => exact ⟨hempty h.1 h.2, h.2⟩
  case timeWait => exact ⟨hempty h.1 h.2, h.2⟩
  case closed => exact ⟨hempty h.1 h.2, h.2⟩

theorem InStream.committed_le (h : InStream f) : f.committed ≤ 4097 := by
  have hroom : f.txbuf.length ≤ 4096 := h.room
  unfold Flow.committed
  split <;> omega

theorem InStream.advance (h : InStream f) {count : ℕ} (hstate : f.state ≠ .synRcvd)
    (hcount : f.outstanding + count ≤ f.committed) : InStream (f.advance count) := by
  obtain ⟨iss, irs, hopened, hphase⟩ := h.opened
  have hbound := h.committed_le
  refine ⟨h.lawful, h.room, ⟨iss, irs, hopened, ?_⟩, h.eof, h.ended⟩
  refine hphase.past hstate ?_ ?_ (fun hempty _ ↦ hempty) ?_
  · rfl
  · rfl
  rintro ⟨acked, hle, htxbuf, huna, _⟩
  refine ⟨acked, hle, htxbuf, huna, ?_⟩
  rw [outstanding_advance (by omega)]
  exact hcount

theorem InStream.segmentExact_data (h : InStream f) {sent : ℕ} (hstate : f.state ≠ .synRcvd)
    (hmore : f.txbuf ≠ []) (hseq : f.sndNxt = f.sndUna + ofNat 32 sent)
    (hdata : data <+: f.txbuf.drop sent) (hflags : hasFlag flags flagFin = false) :
    SegmentExact f.history (.segment flags f.sndNxt ack data queued) := by
  cases queued
  · trivial
  · intro iss irs hhead
    obtain ⟨iss', irs', hopened, hphase⟩ := h.opened
    obtain ⟨rfl, rfl⟩ := FlowEvent.opened.inj (Option.some.inj (hopened.symm.trans hhead))
    obtain ⟨acked, hle, htxbuf, huna, _⟩ := hphase.aligned hstate hmore
    constructor
    · intro _
      refine ⟨acked + sent, ?_, ?_⟩
      · rw [hseq, huna, ofNat_add, BitVec.add_assoc (iss' + 1)]
      · rwa [htxbuf, List.drop_drop] at hdata
    · rw [hflags]
      intro hfalse
      cases hfalse

theorem InStream.append (h : InStream f) (hopen : f.hostEof = false)
    (hroom : f.txbuf.length + data.length ≤ netTcpTxbuf) : InStream (f.append data) := by
  obtain ⟨iss, irs, hopened, hphase⟩ := h.opened
  have hnotEnded : .eof ∉ f.history := by
    rw [← h.eof, hopen]
    decide
  have hnotFin : f.finSent = false := by
    cases hfin : f.finSent
    · rfl
    · rw [h.ended hfin] at hopen
      cases hopen
  have hstream : hostStream (f.append data).history = hostStream f.history ++ data :=
    hostStream_append f.history (.received data)
  refine ⟨h.lawful.append hopened (.inr hnotEnded) trivial, ?_,
    ⟨iss, irs, head?_append hopened _, ?_⟩, ?_, h.ended⟩
  · change (f.txbuf ++ data).length ≤ netTcpTxbuf
    rw [List.length_append]
    exact hroom
  · rw [hstream]
    by_cases hstate : f.state = .synRcvd
    · obtain ⟨huna, hnxt, htxbuf, hfin⟩ := (phase_synRcvd hstate).1 hphase
      refine (phase_synRcvd ?_).2 ⟨huna, hnxt, ?_, hfin⟩
      · exact hstate
      · change f.txbuf ++ data = _
        rw [htxbuf]
    · refine hphase.past hstate ?_ ?_ ?_ ?_
      · rfl
      · rfl
      · rw [hnotFin]
        intro _ hfin
        cases hfin
      · rintro ⟨acked, hle, htxbuf, huna, hcommitted⟩
        refine ⟨acked, ?_, ?_, huna, ?_⟩
        · rw [List.length_append]
          omega
        · change f.txbuf ++ data = _
          rw [htxbuf, List.drop_append_of_le_length hle]
        · refine hcommitted.trans ?_
          unfold Flow.committed
          change _ ≤ (f.txbuf ++ data).length + _
          rw [List.length_append]
          exact Nat.add_le_add_right (Nat.le_add_right _ _) _
  · change f.hostEof = true ↔ _ ∈ f.history ++ [.received data]
    rw [h.eof, List.mem_append, List.mem_singleton]
    exact ⟨.inl, fun hmem ↦ hmem.resolve_right (by simp)⟩

theorem InStream.commitFin (h : InStream f) : InStream f.commitFin := by
  unfold Flow.commitFin
  split
  case isTrue hcommit =>
    simp only [Bool.and_eq_true, Bool.not_eq_true', Bool.or_eq_true, beq_iff_eq] at hcommit
    obtain ⟨⟨heof, hfin⟩, hstate⟩ := hcommit
    obtain ⟨iss, irs, hopened, hphase⟩ := h.opened
    refine ⟨h.lawful, h.room, ⟨iss, irs, hopened, ?_⟩, h.eof, fun _ ↦ heof⟩
    have halign (f' : Flow) (hsame : f'.txbuf = f.txbuf ∧ f'.sndUna = f.sndUna ∧
        f'.sndNxt = f.sndNxt) (halign : Aligned iss (hostStream f.history) f) :
        Aligned iss (hostStream f.history) f' := by
      obtain ⟨acked, hle, htxbuf, huna, hcommitted⟩ := halign
      obtain ⟨hbuf, hold, hnext⟩ := hsame
      refine ⟨acked, hle, hbuf.trans htxbuf, hold.trans huna, ?_⟩
      unfold Flow.outstanding Flow.committed at *
      rw [hfin] at hcommitted
      rw [hbuf, hold, hnext]
      exact hcommitted.trans (Nat.le_add_right _ _)
    rcases hstate with hstate | hstate
    · unfold Phase at hphase
      rw [hstate] at hphase
      rw [hstate]
      exact ⟨halign _ ⟨rfl, rfl, rfl⟩ hphase.1, rfl⟩
    · unfold Phase at hphase
      rw [hstate] at hphase
      rw [hstate]
      exact ⟨halign _ ⟨rfl, rfl, rfl⟩ hphase.1, rfl⟩
  · exact h

theorem InStream.segmentExact_fin (h : InStream f) (hdue : f.finDue = true) :
    SegmentExact f.history (.segment flags f.sndNxt ack [] queued) := by
  unfold Flow.finDue at hdue
  simp only [Bool.and_eq_true, Bool.or_eq_true, beq_iff_eq] at hdue
  obtain ⟨⟨hfin, hnxt⟩, hstate⟩ := hdue
  cases queued
  · trivial
  · intro iss irs hhead
    obtain ⟨iss', irs', hopened, hphase⟩ := h.opened
    obtain ⟨rfl, rfl⟩ := FlowEvent.opened.inj (Option.some.inj (hopened.symm.trans hhead))
    refine ⟨fun hnonempty ↦ absurd rfl hnonempty, fun _ ↦ ⟨h.eof.1 (h.ended hfin), ?_⟩⟩
    have halign : Aligned iss' (hostStream f.history) f := by
      unfold Phase at hphase
      rcases hstate with (hstate | hstate) | hstate
      · rw [hstate] at hphase
        exact hphase.1
      · rw [hstate] at hphase
        exact hphase.1
      · rw [hstate] at hphase
        exact hphase.1
    obtain ⟨acked, hle, htxbuf, huna, _⟩ := halign
    have hlength : (hostStream f.history).length = acked + f.txbuf.length := by
      rw [htxbuf, List.length_drop]
      omega
    rw [hnxt, huna, hlength, ofNat_add, BitVec.add_assoc (iss' + 1)]

theorem InStream.move (h : InStream f) (hmove : FlowMove f f') : InStream f' := by
  cases hmove with
  | control queued hflags =>
    apply h.sent
    apply segmentExact_control
    rcases hflags with ⟨rfl, _⟩ | rfl
    · decide
    · decide
  | timers nowMs =>
    unfold Flow.tcpTimers
    split
    · split
      · exact h
      · exact h.of_same rfl rfl rfl rfl rfl rfl rfl
    · exact h.of_same rfl rfl rfl rfl rfl rfl rfl
  | failed => exact h.note rfl (by simp) trivial
  | connected queued hstate hpending =>
    have hready : InStream (f.note .ready) := h.note rfl (by simp) trivial
    have hsent : InStream ((f.note .ready).sent (flagSyn ||| flagAck) f.sndNxt [] queued) :=
      hready.sent (segmentExact_control (by decide))
    obtain ⟨iss, irs, hopened, hphase⟩ := hsent.opened
    refine ⟨hsent.lawful, hsent.room, ⟨iss, irs, hopened, ?_⟩, hsent.eof, hsent.ended⟩
    obtain ⟨huna, hnxt, htxbuf, hfin⟩ := (phase_synRcvd hstate).1 hphase
    refine (phase_synRcvd ?_).2 ⟨huna, .inr ?_, htxbuf, hfin⟩
    · exact hstate
    · change f.sndNxt + ofNat 32 1 = iss + 1
      change f.sndUna = iss at huna
      rw [hpending, huna]
      rfl
  | deliver count =>
    have hsame : InStream { f with rxbuf := f.rxbuf.drop count, needAck := true } :=
      h.of_same rfl rfl rfl rfl rfl rfl rfl
    exact hsame.note rfl (by simp) trivial
  | shutdown => exact h.of_same rfl rfl rfl rfl rfl rfl rfl
  | append hconnected hopen hroom => exact h.append hopen hroom
  | endStream =>
    obtain ⟨iss, irs, hopened, hphase⟩ := h.opened
    refine ⟨h.lawful.append hopened (.inl rfl) trivial, h.room,
      ⟨iss, irs, head?_append hopened _, ?_⟩, ?_, fun _ ↦ rfl⟩
    · change Phase iss (hostStream (f.history ++ [.eof])) _
      rw [hostStream_append]
      change Phase iss (hostStream f.history ++ []) _
      rw [List.append_nil]
      exact hphase.of_same rfl rfl rfl rfl rfl
    · exact ⟨fun _ ↦ List.mem_append_right _ (List.mem_singleton_self _), fun _ ↦ rfl⟩
  | timeOut => exact h.of_same rfl rfl rfl rfl rfl rfl rfl
  | rewind =>
    obtain ⟨iss, irs, hopened, hphase⟩ := h.opened
    refine ⟨h.lawful, h.room, ⟨iss, irs, hopened, ?_⟩, h.eof, h.ended⟩
    by_cases hstate : f.state = .synRcvd
    · obtain ⟨huna, hnxt, htxbuf, hfin⟩ := (phase_synRcvd hstate).1 hphase
      refine (phase_synRcvd ?_).2 ⟨huna, .inl huna, htxbuf, hfin⟩
      exact hstate
    · refine hphase.past hstate ?_ ?_ (fun hempty _ ↦ hempty) ?_
      · rfl
      · rfl
      rintro ⟨acked, hle, htxbuf, huna, _⟩
      refine ⟨acked, hle, htxbuf, huna, ?_⟩
      change (f.sndUna - f.sndUna).toNat ≤ _
      rw [sub_self]
      exact Nat.zero_le _
  | @data sent count queued hstate hlive hsent hmore =>
    have hroom : f.txbuf.length ≤ 4096 := h.room
    have hnonempty : f.txbuf ≠ [] := List.ne_nil_of_length_pos (by omega)
    have hexact : InStream (f.sent (flagAck ||| flagPsh) f.sndNxt (f.slice sent count) queued) :=
      h.sent (h.segmentExact_data hstate hnonempty hsent (List.take_prefix _ _) (by decide))
    apply hexact.advance hstate
    have hout : f.outstanding = sent := (sub_eq_iff _ _ _ (by omega)).2 hsent
    change f.outstanding + (f.slice sent count).length ≤ f.committed
    rw [hout]
    unfold Flow.slice Flow.committed
    rw [List.length_take, List.length_drop]
    omega
  | commitFin => exact h.commitFin
  | fin queued hdue =>
    have hexact : InStream (f.sent (flagAck ||| flagFin) f.sndNxt [] queued) :=
      h.sent (h.segmentExact_fin hdue)
    have hroom : f.txbuf.length ≤ 4096 := h.room
    unfold Flow.finDue at hdue
    simp only [Bool.and_eq_true, Bool.or_eq_true, beq_iff_eq] at hdue
    obtain ⟨⟨hfin, hnxt⟩, hstate⟩ := hdue
    apply hexact.advance
    · rintro hsyn
      change f.state = .synRcvd at hsyn
      simp [hsyn] at hstate
    · have hout : f.outstanding = f.txbuf.length := (sub_eq_iff _ _ _ (by omega)).2 hnxt
      change f.outstanding + 1 ≤ f.committed
      unfold Flow.committed
      rw [hout, hfin]
      rfl
  | probe queued hstate hlive hidle hmore =>
    have hplace : f.sndNxt = f.sndUna + ofNat 32 0 := by
      rw [hidle]
      exact (BitVec.add_zero _).symm
    have hexact : InStream (f.sent flagAck f.sndNxt (f.txbuf.take 1) queued) :=
      h.sent (h.segmentExact_data hstate hmore hplace (List.take_prefix _ _) (by decide))
    apply hexact.advance hstate
    have hout : f.outstanding = 0 := by
      unfold Flow.outstanding
      rw [hidle, sub_self]
      rfl
    have hpos := List.length_pos_of_ne_nil hmore
    change f.outstanding + 1 ≤ f.committed
    unfold Flow.committed
    omega

theorem Aligned.consumed (h : Aligned iss host f) (hbound : f.committed ≤ 4097)
    (hreach : f.reach ack ≤ f.committed) :
    if f.coversFin ack then (f.consumed ack).txbuf = [] else Aligned iss host (f.consumed ack) := by
  obtain ⟨acked, hle, htxbuf, huna, hcommitted⟩ := h
  have hlength : (f.txbuf.drop (f.reach ack)).length = f.txbuf.length - f.reach ack :=
    List.length_drop
  split
  case isTrue hcovers =>
    unfold Flow.coversFin at hcovers
    simp only [Bool.and_eq_true, decide_eq_true_eq] at hcovers
    apply List.eq_nil_of_length_eq_zero
    change (f.txbuf.drop (f.reach ack)).length = 0
    omega
  case isFalse hcovers =>
    have hwithin : f.reach ack ≤ f.txbuf.length := by
      unfold Flow.coversFin at hcovers
      unfold Flow.committed at hreach
      cases hfin : f.finSent
      · rw [hfin] at hreach
        exact hreach
      · simpa [hfin] using hcovers
    have hbuffer : f.txbuf.length = host.length - acked := by
      rw [htxbuf, List.length_drop]
    refine ⟨acked + f.reach ack, by omega, ?_, ?_, ?_⟩
    · change f.txbuf.drop (f.reach ack) = _
      rw [htxbuf, List.drop_drop]
    · have hplace := ofNat_sub_toNat ack f.sndUna
      change ack = _
      rw [ofNat_add, ← BitVec.add_assoc, ← huna]
      exact hplace.symm
    · rw [Flow.consumed_outstanding (by omega) (by omega)]
      change _ ≤ (f.txbuf.drop (f.reach ack)).length + (if f.finSent then 1 else 0)
      rw [hlength]
      unfold Flow.committed at hcommitted
      omega

theorem phase_finAcked (nowMs : Word)
    (hstate : f.state = .finWait1 ∨ f.state = .closing ∨ f.state = .lastAck)
    (htxbuf : f.txbuf = []) (hfin : f.finSent = true) : Phase iss host (f.finAcked nowMs) := by
  unfold Flow.finAcked
  rcases hstate with hstate | hstate | hstate
  · rw [hstate]
    exact ⟨htxbuf, hfin⟩
  · rw [hstate]
    exact ⟨htxbuf, hfin⟩
  · rw [hstate]
    exact ⟨htxbuf, hfin⟩

/-- After it, nothing that the guest acknowledges changes the phase. -/
theorem phase_consumed_ended (nowMs ack : Word)
    (hstate : f.state = .finWait2 ∨ f.state = .timeWait ∨ f.state = .closed)
    (htxbuf : f.txbuf = []) (hfin : f.finSent = true) :
    Phase iss host (if f.coversFin ack then (f.consumed ack).finAcked nowMs else f.consumed ack) := by
  have hconsumed : Phase iss host (f.consumed ack) := by
    have hempty : (f.consumed ack).txbuf = [] := by
      change f.txbuf.drop _ = []
      rw [htxbuf, List.drop_nil]
    unfold Phase
    rcases hstate with hstate | hstate | hstate
    · rw [show (f.consumed ack).state = .finWait2 from hstate]
      exact ⟨hempty, hfin⟩
    · rw [show (f.consumed ack).state = .timeWait from hstate]
      exact ⟨hempty, hfin⟩
    · rw [show (f.consumed ack).state = .closed from hstate]
      exact ⟨hempty, hfin⟩
  have hsame : (f.consumed ack).finAcked nowMs = f.consumed ack := by
    unfold Flow.finAcked
    rcases hstate with hstate | hstate | hstate
    · rw [show (f.consumed ack).state = .finWait2 from hstate]
    · rw [show (f.consumed ack).state = .timeWait from hstate]
    · rw [show (f.consumed ack).state = .closed from hstate]
  rw [hsame, ite_self]
  exact hconsumed

theorem Phase.consumed (h : Phase iss host f) (nowMs : Word) (hstate : f.state ≠ .synRcvd)
    (hbound : f.committed ≤ 4097) (hreach : Aligned iss host f → f.reach ack ≤ f.committed) :
    Phase iss host (if f.coversFin ack then (f.consumed ack).finAcked nowMs else f.consumed ack) := by
  have hopen (halign : Aligned iss host f) (hfin : f.finSent = false)
      (hstate : f.state = .established ∨ f.state = .closeWait) :
      Phase iss host
        (if f.coversFin ack then (f.consumed ack).finAcked nowMs else f.consumed ack) := by
    have hcovers : f.coversFin ack = false := by
      unfold Flow.coversFin
      rw [hfin, Bool.false_and]
    have hconsumed := halign.consumed hbound (hreach halign)
    rw [hcovers, if_neg Bool.false_ne_true] at hconsumed ⊢
    unfold Phase
    rcases hstate with hstate | hstate
    · rw [show (f.consumed ack).state = .established from hstate]
      exact ⟨hconsumed, hfin⟩
    · rw [show (f.consumed ack).state = .closeWait from hstate]
      exact ⟨hconsumed, hfin⟩
  have hclosing (halign : Aligned iss host f) (hfin : f.finSent = true)
      (hstate : f.state = .finWait1 ∨ f.state = .closing ∨ f.state = .lastAck) :
      Phase iss host
        (if f.coversFin ack then (f.consumed ack).finAcked nowMs else f.consumed ack) := by
    have hconsumed := halign.consumed hbound (hreach halign)
    split
    case isTrue hcovers =>
      rw [if_pos hcovers] at hconsumed
      exact phase_finAcked nowMs hstate hconsumed hfin
    case isFalse hcovers =>
      rw [if_neg hcovers] at hconsumed
      unfold Phase
      rcases hstate with hstate | hstate | hstate
      · rw [show (f.consumed ack).state = .finWait1 from hstate]
        exact ⟨hconsumed, hfin⟩
      · rw [show (f.consumed ack).state = .closing from hstate]
        exact ⟨hconsumed, hfin⟩
      · rw [show (f.consumed ack).state = .lastAck from hstate]
        exact ⟨hconsumed, hfin⟩
  unfold Phase at h
  cases hs : f.state <;> rw [hs] at h
  case synRcvd => exact absurd hs hstate
  case established => exact hopen h.1 h.2 (.inl hs)
  case closeWait => exact hopen h.1 h.2 (.inr hs)
  case finWait1 => exact hclosing h.1 h.2 (.inl hs)
  case closing => exact hclosing h.1 h.2 (.inr (.inl hs))
  case lastAck => exact hclosing h.1 h.2 (.inr (.inr hs))
  case finWait2 => exact phase_consumed_ended nowMs ack (.inl hs) h.1 h.2
  case timeWait => exact phase_consumed_ended nowMs ack (.inr (.inl hs)) h.1 h.2
  case closed => exact phase_consumed_ended nowMs ack (.inr (.inr hs)) h.1 h.2

/-- What an accepted acknowledgement leaves alone. -/
theorem consumed_frame (f : Flow) (nowMs ack : Word) :
    let g := if f.coversFin ack then (f.consumed ack).finAcked nowMs else f.consumed ack
    g.history = f.history ∧ g.hostEof = f.hostEof ∧ g.finSent = f.finSent ∧
      g.txbuf = f.txbuf.drop (f.reach ack) := by
  unfold Flow.finAcked
  dsimp only
  split
  · split
    · exact ⟨rfl, rfl, rfl, rfl⟩
    · exact ⟨rfl, rfl, rfl, rfl⟩
    · exact ⟨rfl, rfl, rfl, rfl⟩
    · exact ⟨rfl, rfl, rfl, rfl⟩
  · exact ⟨rfl, rfl, rfl, rfl⟩

/-- An acknowledgement past the handshake. -/
theorem InStream.receiveAck (h : InStream f) (hstate : f.state ≠ .synRcvd) (nowMs : Word)
    (horder : StreamOrder f seg) : InStream (f.receiveAck nowMs seg) := by
  have hwindow : InStream { f with sndWnd := seg.wnd.setWidth 32 } :=
    h.of_same rfl rfl rfl rfl rfl rfl rfl
  unfold Flow.receiveAck
  rw [Flow.tcpConsumeAck_eq]
  split
  case isFalse => exact hwindow
  case isTrue haccepts =>
    obtain ⟨iss, irs, hopened, hphase⟩ := hwindow.opened
    obtain ⟨hhistory, heof, hfin, htxbuf⟩ :=
      consumed_frame { f with sndWnd := seg.wnd.setWidth 32 } nowMs seg.ack
    have hbound := h.committed_le
    have hturn : ¬(f.txbuf = [] ∧ f.finSent = false ∧ f.sndNxt = f.sndUna ∧
        f.reach seg.ack = 2 ^ 31) := by
      unfold StreamOrder at horder
      rwa [if_neg hstate] at horder
    have hreach (halign : Aligned iss (hostStream f.history) f) :
        f.reach seg.ack ≤ f.committed := by
      obtain ⟨_, _, _, _, hcommitted⟩ := halign
      rcases (Flow.accepts_iff h.room (by omega) _).1 haccepts with hnear | ⟨hnone, hhalf⟩
      · omega
      · -- Nothing is outstanding: this is the number half the space away.
        have hempty : f.txbuf.length = 0 := by
          unfold Flow.committed at hnone
          omega
        have hnoFin : f.finSent = false := by
          cases hfin : f.finSent
          · rfl
          · unfold Flow.committed at hnone
            rw [hfin, if_pos rfl] at hnone
            omega
        have hsame : f.sndNxt = f.sndUna := by
          have hplace := ofNat_sub_toNat f.sndNxt f.sndUna
          change f.sndUna + ofNat 32 f.outstanding = f.sndNxt at hplace
          rw [← hplace, show f.outstanding = 0 by omega]
          exact BitVec.add_zero _
        exact absurd ⟨List.eq_nil_of_length_eq_zero hempty, hnoFin, hsame, hhalf⟩ hturn
    refine ⟨?_, ?_, ⟨iss, irs, ?_, ?_⟩, ?_, ?_⟩
    · rw [hhistory]
      exact h.lawful
    · rw [htxbuf, List.length_drop]
      exact (Nat.sub_le _ _).trans h.room
    · rw [hhistory]
      exact hopened
    · rw [hhistory]
      exact hphase.consumed nowMs hstate hbound hreach
    · rw [hhistory, heof]
      exact h.eof
    · rw [hfin, heof]
      exact h.ended

theorem receiveAck_of_noFin (hfin : f.finSent = false) (nowMs : Word) (seg : Segment) :
    f.receiveAck nowMs seg = if f.accepts seg.ack
      then { f with sndWnd := seg.wnd.setWidth 32 }.consumed seg.ack
      else { f with sndWnd := seg.wnd.setWidth 32 } := by
  have hcovers : { f with sndWnd := seg.wnd.setWidth 32 }.coversFin seg.ack = false := by
    unfold Flow.coversFin
    rw [hfin, Bool.false_and]
  unfold Flow.receiveAck
  rw [Flow.tcpConsumeAck_eq, hcovers]
  rfl

theorem InStream.outstanding_synRcvd (h : InStream f) (hstate : f.state = .synRcvd)
    (horder : StreamOrder f seg) :
    f.outstanding = 1 ∧ f.committed = f.txbuf.length ∧ f.finSent = false ∧
      ¬(0 < f.reach seg.ack ∧ f.reach seg.ack ≤ f.txbuf.length) := by
  obtain ⟨iss, irs, hopened, hphase⟩ := h.opened
  obtain ⟨huna, hnxt, htxbuf, hfin⟩ := (phase_synRcvd hstate).1 hphase
  unfold StreamOrder at horder
  rw [if_pos hstate] at horder
  refine ⟨?_, ?_, hfin, horder.2⟩
  · unfold Flow.outstanding
    rw [hnxt.resolve_left (huna ▸ horder.1), huna, add_sub_cancel_left]
    rfl
  · unfold Flow.committed
    rw [hfin]
    rfl

/-- The acknowledgement of the SYN, with no host data there. -/
theorem InStream.establish (h : InStream f) (nowMs : Word) (horder : StreamOrder f seg)
    (hdone : (f.receiveAck nowMs seg).handshaking = false) :
    InStream ((f.receiveAck nowMs seg).establish seg.ack) := by
  by_cases hstate : f.state = .synRcvd
  · obtain ⟨iss, irs, hopened, hphase⟩ := h.opened
    obtain ⟨huna, hnxt, htxbuf, hfin⟩ := (phase_synRcvd hstate).1 hphase
    obtain ⟨hout, hcommitted, _, hturn⟩ := h.outstanding_synRcvd hstate horder
    have hroom : f.txbuf.length ≤ 4096 := h.room
    have hreceive := receiveAck_of_noFin hfin nowMs seg
    have haccepted : f.accepts seg.ack = true := by
      by_contra hrejected
      rw [hreceive, if_neg hrejected] at hdone
      have hearlier : netSeqLt f.sndUna f.sndNxt = true := by
        rw [netSeqLt_iff]
        change 0 < f.outstanding ∧ f.outstanding ≤ 2 ^ 31
        omega
      unfold Flow.handshaking at hdone
      rw [hstate, hearlier] at hdone
      exact absurd hdone (by decide)
    have hreach := (Flow.accepts_iff h.room (by omega) seg.ack).1 haccepted
    have hone : f.reach seg.ack = 1 ∧ f.txbuf.length = 0 := by omega
    have hempty : f.txbuf = [] := List.eq_nil_of_length_eq_zero hone.2
    have hack : seg.ack = iss + 1 := by
      have hplace := ofNat_sub_toNat seg.ack f.sndUna
      change f.sndUna + ofNat 32 (f.reach seg.ack) = seg.ack at hplace
      rw [hone.1, huna] at hplace
      exact hplace.symm
    rw [hreceive, if_pos haccepted]
    unfold Flow.establish
    rw [if_pos (by simpa [Flow.consumed] using hstate)]
    have hdropped : f.txbuf.drop (f.reach seg.ack) = [] := by rw [hempty, List.drop_nil]
    refine ⟨h.lawful.append hopened (.inl rfl) trivial, ?_,
      ⟨iss, irs, head?_append hopened _, ?_⟩, ?_, ?_⟩
    · change (f.txbuf.drop (f.reach seg.ack)).length ≤ netTcpTxbuf
      rw [hdropped]
      exact Nat.zero_le _
    · change Phase iss (hostStream (f.history ++ [_])) _
      rw [hostStream_append, htxbuf.symm.trans hempty]
      refine ⟨⟨0, le_rfl, hdropped, ?_, ?_⟩, hfin⟩
      · change seg.ack = _
        rw [hack]
        exact (BitVec.add_zero _).symm
      · have hnone : (f.consumed seg.ack).outstanding = 0 := by
          rw [Flow.consumed_outstanding (by omega) (by omega)]
          omega
        change (f.consumed seg.ack).outstanding ≤ _
        rw [hnone]
        exact Nat.zero_le _
    · change f.hostEof = true ↔ _ ∈ f.history ++ [_]
      rw [h.eof, List.mem_append, List.mem_singleton]
      exact ⟨.inl, fun hmem ↦ hmem.resolve_right (by simp)⟩
    · exact h.ended
  · have hpast : (f.receiveAck nowMs seg).state ≠ .synRcvd := by
      unfold Flow.receiveAck
      rw [Flow.tcpConsumeAck_eq]
      split
      · split
        · obtain ⟨_, _, _, _, _, hsyn⟩ := finAcked_frame
            ({ f with sndWnd := seg.wnd.setWidth 32 }.consumed seg.ack) nowMs
          exact fun hsame ↦ hstate (hsyn.1 hsame)
        · exact hstate
      · exact hstate
    unfold Flow.establish
    rw [if_neg (by simpa using hpast)]
    exact h.receiveAck hstate nowMs horder

theorem InStream.receiveData (h : InStream f) (seg : Segment) : InStream (f.receiveData seg) := by
  unfold Flow.receiveData Flow.takePayload
  split
  · split
    · refine InStream.note ?_ rfl (by simp) trivial
      exact h.of_same rfl rfl rfl rfl rfl rfl rfl
    · exact h.of_same rfl rfl rfl rfl rfl rfl rfl
  · exact h

theorem InStream.receiveFin (h : InStream f) (nowMs : Word) (seg : Segment) :
    InStream (f.receiveFin nowMs seg) := by
  unfold Flow.receiveFin
  split
  · split
    · exact h.of_same rfl rfl rfl rfl rfl rfl rfl
    split
    · have hsame : InStream { f with rcvNxt := f.rcvNxt + 1, needAck := true } :=
        h.of_same rfl rfl rfl rfl rfl rfl rfl
      have hnoted := @InStream.note _ hsame .finished rfl (by simp) trivial
      obtain ⟨iss, irs, hopened, hphase⟩ := hnoted.opened
      unfold Phase at hphase
      unfold Flow.acceptFin
      dsimp only
      split
      case h_1 hstate =>
        rw [hstate] at hphase
        exact ⟨hnoted.lawful, hnoted.room, ⟨iss, irs, hopened, hphase⟩, hnoted.eof, hnoted.ended⟩
      case h_2 hstate =>
        rw [hstate] at hphase
        exact ⟨hnoted.lawful, hnoted.room, ⟨iss, irs, hopened, hphase⟩, hnoted.eof, hnoted.ended⟩
      case h_3 hstate =>
        rw [hstate] at hphase
        exact ⟨hnoted.lawful, hnoted.room, ⟨iss, irs, hopened, hphase⟩, hnoted.eof, hnoted.ended⟩
      case h_4 => exact hnoted
    · exact h
  · exact h

theorem streamRule : FlowRule InStream StreamExact StreamOrder where
  move _ _ h hmove := h.move hmove
  ending _ h _ := h.lawful
  unused := fun _ hmem ↦ by cases hmem
  opened f seg iss hhistory htxbuf _ hfin heof := by
    have hstart : (f.synFlow seg iss).history = [.opened iss (getBe32 seg 4)] := by
      change f.history ++ [_] = _
      rw [hhistory, List.nil_append]
    refine ⟨?_, ?_, ⟨iss, getBe32 seg 4, ?_, ?_⟩, ?_, ?_⟩
    · rw [hstart]
      intro event hmem
      obtain rfl := List.mem_singleton.1 hmem
      trivial
    · change f.txbuf.length ≤ netTcpTxbuf
      rw [htxbuf]
      exact Nat.zero_le _
    · rw [hstart]
      rfl
    · rw [hstart]
      exact ⟨rfl, .inl rfl, htxbuf, hfin⟩
    · rw [hstart]
      change f.hostEof = true ↔ _
      rw [heof]
      simp
    · change f.finSent = true → _
      rw [hfin]
      intro hfalse
      cases hfalse
  handled _ _ _ h := h.of_same rfl rfl rfl rfl rfl rfl rfl
  touched _ _ h := h.of_same rfl rfl rfl rfl rfl rfl rfl
  safe_touched _ _ _ h := h
  reset _ h := h.note rfl (by simp) trivial
  again _ _ h _ := h.sent (segmentExact_control (by decide))
  acked f nowMs seg h horder hwaits := by
    by_cases hstate : f.state = .synRcvd
    · obtain ⟨hout, hcommitted, hfin, _⟩ := h.outstanding_synRcvd hstate horder
      have hroom : f.txbuf.length ≤ 4096 := h.room
      rw [receiveAck_of_noFin hfin] at *
      split
      case isTrue haccepts =>
        -- An accepted number is no earlier than the next one sent, so it ends the handshake.
        rw [if_pos haccepts] at hwaits
        unfold Flow.handshaking at hwaits
        rw [Bool.and_eq_true, netSeqLt_iff] at hwaits
        change _ ∧ 0 < (f.consumed seg.ack).outstanding ∧ _ at hwaits
        have hreach := (Flow.accepts_iff h.room (by omega) _).1 haccepts
        rw [Flow.consumed_outstanding (by omega) (by omega)] at hwaits
        omega
      · exact h.of_same rfl rfl rfl rfl rfl rfl rfl
    · exact h.receiveAck hstate nowMs horder
  rest _ nowMs seg h horder hdone :=
    ((h.establish nowMs horder hdone).receiveData seg).receiveFin nowMs seg

/-- In every run whose acknowledging segments come in order, every segment that any flow emitted
carries the host's octets at their own places, and its FIN at the end of them. -/
theorem streamExact_of_order {η : Type} (cfg : Config) (eg : Egress η) (host : η) (ops : List Op)
    (horder : Run.Within System.step (Meets StreamOrder) (System.init cfg eg host) ops) :
    ∀ history ∈ (Run.run System.step (System.init cfg eg host) ops).stack.histories,
      StreamExact history :=
  (streamRule.run horder).histories (fun _ h ↦ h.lawful) (fun _ h ↦ h) streamRule.unused

instance (f : Flow) (seg : Segment) : Decidable (StreamOrder f seg) := by
  unfold StreamOrder
  infer_instance

/-- Two octets of the host are read before the guest acknowledges the SYN, and the acknowledgement
drops the first: the second goes out in its place. -/
theorem stream_violated :
    ¬∀ history ∈ (exampleRun ⟨[], [.octets [65, 66]], []⟩ [guestSegment flagSyn 100 0 [], .tick 1,
        guestSegment flagAck 101 (exampleIss + 1) []]).stack.histories, StreamExact history := by
  intro hexact
  have hhistory : [.opened exampleIss 100, .ready,
      .segment (flagSyn ||| flagAck) exampleIss 101 [] true, .received [65, 66],
      .established (exampleIss + 1) (exampleIss + 1),
      .segment (flagAck ||| flagPsh) (exampleIss + 1) 101 [66] true] ∈
      (exampleRun ⟨[], [.octets [65, 66]], []⟩ [guestSegment flagSyn 100 0 [], .tick 1,
        guestSegment flagAck 101 (exampleIss + 1) []]).stack.histories := by
    decide +kernel
  have hsegment := hexact _ hhistory (.segment (flagAck ||| flagPsh) (exampleIss + 1) 101 [66] true)
    (by simp) exampleIss 100 rfl
  obtain ⟨k, hseq, hpart⟩ := hsegment.1 (by simp)
  have hstream : hostStream [.opened exampleIss 100, .ready,
      .segment (flagSyn ||| flagAck) exampleIss 101 [] true, .received [65, 66],
      .established (exampleIss + 1) (exampleIss + 1),
      .segment (flagAck ||| flagPsh) (exampleIss + 1) 101 [66] true] = [65, 66] := rfl
  rw [hstream] at hpart
  have hlength := hpart.length_le
  have hzero : ofNat 32 k = 0 := by
    rw [eq_comm, add_eq_left] at hseq
    exact hseq
  rcases k with _ | _ | k
  · exact absurd hpart (by decide)
  · exact absurd hzero (by decide)
  · simp at hlength

theorem streamExact_of_order_exchange : StreamExact [.opened exampleIss 100, .ready,
      .segment (flagSyn ||| flagAck) exampleIss 101 [] true,
      .established (exampleIss + 1) (exampleIss + 1), .received [65, 66], .eof,
      .segment (flagAck ||| flagPsh) (exampleIss + 1) 101 [65, 66] true,
      .segment (flagAck ||| flagFin) (exampleIss + 3) 101 [] true] :=
  streamExact_of_order exampleConfig scripted ⟨[], [.octets [65, 66], .eof], []⟩
    [guestSegment flagSyn 100 0 [], guestSegment flagAck 101 (exampleIss + 1) [], .tick 5]
    (by decide +kernel) _ (by decide +kernel)

end S5LBox.Net
