import S5LBox.Library.Run
import S5LBox.Ppp.Peer

/-!
# The layering of LCP and IPCP

IPCP may be open only over an open LCP, and the guest has an address exactly while IPCP is
open. `Layers` is the part of the peer this is about, the sink's packets included; the actions of the automaton act on it
through the equations below, and each event of the automaton is then a case analysis on the
state it is taken in.
-/

namespace S5LBox.Ppp

/-- The two automaton states, the assignment flag and the packets the sink was given. -/
structure Layers where
  lcp : State
  ipcp : State
  assigned : Bool
  sunk : List (List Octet)
  deriving DecidableEq

variable {l l' : Layers} {proto : Control} {p : Peer}

namespace Layers

def state (l : Layers) : Control → State
  | .lcp => l.lcp
  | .ipcp => l.ipcp

def set (l : Layers) (proto : Control) (state : State) : Layers :=
  match proto with
  | .lcp => { l with lcp := state }
  | .ipcp => { l with ipcp := state }

/-- This-layer-up: LCP starts IPCP, IPCP assigns the address. -/
def up (l : Layers) : Control → Layers
  | .lcp => { l with ipcp := .reqSent }
  | .ipcp => { l with assigned := true }

/-- This-layer-down: LCP takes IPCP with it. -/
def down (l : Layers) : Control → Layers
  | .lcp => { l with ipcp := .initial, assigned := false }
  | .ipcp => { l with assigned := false }

/-- What the layering promises. -/
def Ordered (l : Layers) : Prop :=
  (l.ipcp = .opened → l.lcp = .opened) ∧ (l.assigned = true ↔ l.ipcp = .opened)

instance (l : Layers) : Decidable l.Ordered := by
  unfold Ordered
  infer_instance

/-- The invariant behind `Ordered`: while LCP is not open, IPCP has not even started. -/
structure Coherent (l : Layers) : Prop where
  idle : l.lcp ≠ .opened → l.ipcp = .initial
  assigned : l.assigned = true ↔ l.ipcp = .opened

theorem Coherent.ordered (h : l.Coherent) : l.Ordered := by
  refine ⟨fun hip ↦ ?_, h.assigned⟩
  by_contra hlcp
  rw [h.idle hlcp] at hip
  cases hip

theorem Coherent.assigned_false (h : l.Coherent) (hip : l.ipcp ≠ .opened) : l.assigned = false := by
  have := h.assigned
  cases ha : l.assigned <;> simp_all

/-- A layer that is not open may move between the states short of Opened: LCP at any time,
IPCP once LCP is open. -/
theorem Coherent.set (h : l.Coherent) {target : State} (hfrom : l.state proto ≠ .opened)
    (hto : target ≠ .opened) (hup : proto = .ipcp → l.lcp = .opened) :
    (l.set proto target).Coherent := by
  cases proto with
  | lcp => exact ⟨fun _ ↦ h.idle hfrom, h.assigned⟩
  | ipcp =>
    refine ⟨fun hlcp ↦ absurd (hup rfl) hlcp, ?_⟩
    have := h.assigned_false hfrom
    simp_all [Layers.set]

theorem Coherent.down_set (h : l.Coherent) {target : State} (hfrom : l.state proto = .opened)
    (hto : target ≠ .opened) : ((l.down proto).set proto target).Coherent := by
  cases proto with
  | lcp => exact ⟨fun _ ↦ rfl, by simp [Layers.down, Layers.set]⟩
  | ipcp =>
    have hlcp : l.lcp = .opened := h.ordered.1 hfrom
    exact ⟨fun hne ↦ absurd hlcp hne, by simp [Layers.down, Layers.set, hto]⟩

theorem Coherent.set_up (h : l.Coherent) (hfrom : l.state proto ≠ .opened)
    (hup : proto = .ipcp → l.lcp = .opened) : ((l.set proto .opened).up proto).Coherent := by
  cases proto with
  | lcp =>
    have hidle : l.ipcp = .initial := h.idle hfrom
    have := h.assigned_false (by rw [hidle]; decide)
    exact ⟨by simp [Layers.up, Layers.set], by simp [Layers.up, Layers.set, this]⟩
  | ipcp => exact ⟨fun hlcp ↦ absurd (hup rfl) hlcp, by simp [Layers.up, Layers.set]⟩

theorem Coherent.ipcp_up (h : l.Coherent) (hstate : l.state proto ≠ .initial) :
    proto = .ipcp → l.lcp = .opened := by
  rintro rfl
  by_contra hlcp
  exact hstate (h.idle hlcp)

end Layers

def Peer.layers (p : Peer) : Layers := ⟨p.lcp.state, p.ipcp.state, p.assigned, p.sunk⟩

theorem fsmFor_state (p : Peer) (proto : Control) :
    (p.fsmFor proto).state = p.layers.state proto := by
  cases proto <;> rfl

theorem layers_setFsm (p : Peer) (proto : Control) (f : Fsm) :
    (p.setFsm proto f).layers = p.layers.set proto f.state := by
  cases proto <;> rfl

@[simp] theorem layers_set_state (l : Layers) (proto : Control) :
    l.set proto (l.state proto) = l := by
  cases proto <;> rfl

@[simp] theorem state_set (l : Layers) (proto : Control) (state : State) :
    (l.set proto state).state proto = state := by
  cases proto <;> rfl

@[simp] theorem layers_setState (p : Peer) (proto : Control) (state : State) :
    (p.setState proto state).layers = p.layers.set proto state := by
  simp [Peer.setState, layers_setFsm]

@[simp] theorem layers_restartStart (p : Peer) (proto : Control) :
    (restartStart p proto).layers = p.layers := by
  simp [restartStart, layers_setFsm, fsmFor_state]

@[simp] theorem layers_restartStop (p : Peer) (proto : Control) :
    (restartStop p proto).layers = p.layers := by
  simp [restartStop, layers_setFsm, fsmFor_state]

@[simp] theorem layers_irc (p : Peer) (proto : Control) (count : Octet) :
    (irc p proto count).layers = p.layers := by
  simp [irc, layers_setFsm, fsmFor_state]

@[simp] theorem layers_spendRestart (p : Peer) (proto : Control) :
    (spendRestart p proto).layers = p.layers := by
  unfold spendRestart
  simp only
  split <;> simp [layers_setFsm, fsmFor_state]

@[simp] theorem layers_freshId (p : Peer) (proto : Control) :
    (freshId p proto).layers = p.layers := by
  simp [freshId, layers_setFsm, fsmFor_state]

@[simp] theorem layers_txFrame (p : Peer) (proto : Half) (info : List Octet) :
    (txFrame p proto info).layers = p.layers := by
  unfold txFrame
  simp only
  split <;> rfl

@[simp] theorem layers_sendCp (p : Peer) (proto : Control) (code id : Octet) (data : List Octet) :
    (sendCp p proto code id data).layers = p.layers := by
  unfold sendCp
  split
  · rfl
  · exact layers_txFrame _ _ _

@[simp] theorem layers_scr (p : Peer) (proto : Control) (fresh : Bool) :
    (scr p proto fresh).layers = p.layers := by
  unfold scr
  cases fresh <;> simp

@[simp] theorem layers_str (p : Peer) (proto : Control) : (str p proto).layers = p.layers := by
  simp [str]

@[simp] theorem layers_sta (p : Peer) (proto : Control) (id : Octet) :
    (sta p proto id).layers = p.layers := by
  simp [sta]

@[simp] theorem layers_tld (p : Peer) (proto : Control) :
    (tld p proto).layers = p.layers.down proto := by
  cases proto <;> rfl

@[simp] theorem layers_tlu (p : Peer) (proto : Control) :
    (tlu p proto).layers = p.layers.up proto := by
  cases proto with
  | lcp =>
    simp only [tlu, ipcpStart, layers_scr, layers_irc, layers_setFsm]
    rfl
  | ipcp => rfl

/-- The fields that the review of an option may assign. -/
structure Reviewed where
  peerMagic : Word
  peerMagicValid : Bool
  peerAsyncmap : Word
  peerMru : Half
  peerPcomp : Bool
  peerAccomp : Bool
  ipcpDnsRequests : ℕ
  ipcpDnsAcked : ℕ
  ipcpDnsNaked : ℕ

def Peer.withReviewed (p : Peer) (r : Reviewed) : Peer :=
  { p with
    peerMagic := r.peerMagic, peerMagicValid := r.peerMagicValid, peerAsyncmap := r.peerAsyncmap
    peerMru := r.peerMru, peerPcomp := r.peerPcomp, peerAccomp := r.peerAccomp
    stats := { p.stats with
      ipcpDnsRequests := r.ipcpDnsRequests, ipcpDnsAcked := r.ipcpDnsAcked
      ipcpDnsNaked := r.ipcpDnsNaked } }

def Peer.reviewed (p : Peer) : Reviewed where
  peerMagic := p.peerMagic
  peerMagicValid := p.peerMagicValid
  peerAsyncmap := p.peerAsyncmap
  peerMru := p.peerMru
  peerPcomp := p.peerPcomp
  peerAccomp := p.peerAccomp
  ipcpDnsRequests := p.stats.ipcpDnsRequests
  ipcpDnsAcked := p.stats.ipcpDnsAcked
  ipcpDnsNaked := p.stats.ipcpDnsNaked

theorem review_frame (p : Peer) (proto : Control) (option : List Octet) :
    (review p proto option).2 = p.withReviewed (review p proto option).2.reviewed := by
  let framed (x : Verdict × Peer) : Prop := x.2 = p.withReviewed x.2.reviewed
  have hsame (verdict : Verdict) : framed (verdict, p) := rfl
  have hite {P : Prop} [Decidable P] {x y : Verdict × Peer} (hx : framed x) (hy : framed y) :
      framed (if P then x else y) := iteInduction (fun _ ↦ hx) fun _ ↦ hy
  show framed (review p proto option)
  cases proto with
  | lcp =>
    show framed (lcpReview p option)
    refine hite ?_ ?_
    · refine hite (hsame _) ?_
      exact hite (hsame _) rfl
    refine hite ?_ ?_
    · exact hite (hsame _) rfl
    refine hite (hsame _) ?_
    refine hite (hsame _) ?_
    refine hite ?_ ?_
    · refine hite (hsame _) ?_
      exact hite (hsame _) rfl
    refine hite ?_ ?_
    · exact hite (hsame _) rfl
    refine hite ?_ (hsame _)
    exact hite (hsame _) rfl
  | ipcp =>
    show framed (ipcpReview p option)
    refine hite ?_ ?_
    · refine hite (hsame _) ?_
      exact hite (hsame _) (hsame _)
    refine hite (hsame _) ?_
    refine hite (hsame _) ?_
    refine hite ?_ (hsame _)
    refine hite (hsame _) ?_
    exact hite rfl rfl

theorem view_review {α : Type} {view : Peer → α}
    (hview : ∀ (p : Peer) (r : Reviewed), view (p.withReviewed r) = view p) (p : Peer)
    (proto : Control) (option : List Octet) : view (review p proto option).2 = view p := by
  rw [review_frame, hview]

theorem classifyOptions_keeps {α : Type} (view : Peer → α)
    (hreview : ∀ p option, view (review p proto option).2 = view p) (fuel : ℕ) (p : Peer)
    (opts rej nak : List Octet) : view (classifyOptions p proto fuel opts rej nak).2 = view p := by
  induction fuel generalizing p opts rej nak with
  | zero => rfl
  | succ fuel ih =>
    unfold classifyOptions
    split
    · rfl
    split
    · rfl
    · simp only
      split
      · rfl
      · rw [← hreview p (opts.take (octetAt opts 1).toNat)]
        rcases review p proto (opts.take (octetAt opts 1).toNat) with ⟨verdict, q⟩
        cases verdict <;> exact ih _ _ _ _

theorem classifyConfreq_keeps {α : Type} (view : Peer → α)
    (hreview : ∀ p option, view (review p proto option).2 = view p) (p : Peer) (opts : List Octet) :
    view (classifyConfreq p proto opts).2 = view p := by
  have h := classifyOptions_keeps view hreview opts.length p opts [] []
  unfold classifyConfreq
  split
  · simp_all
  · simp_all only
    split_ifs <;> exact h

theorem view_classifyConfreq {α : Type} (view : Peer → α)
    (hview : ∀ (p : Peer) (r : Reviewed), view (p.withReviewed r) = view p) (p : Peer)
    (proto : Control) (opts : List Octet) : view (classifyConfreq p proto opts).2 = view p :=
  classifyConfreq_keeps view (fun p option ↦ view_review hview p proto option) p opts

theorem layers_classifyConfreq (p : Peer) (proto : Control) (opts : List Octet) :
    (classifyConfreq p proto opts).2.layers = p.layers :=
  view_classifyConfreq Peer.layers (fun _ _ ↦ rfl) p proto opts

theorem layers_applyNak (p : Peer) (proto : Control) (opts : List Octet) :
    (applyNak p proto opts).layers = p.layers := by
  unfold applyNak
  generalize splitOptions opts.length opts = options
  induction options generalizing p with
  | nil => rfl
  | cons option rest ih =>
    rw [List.foldl_cons, ih]
    cases proto <;> simp only <;> split <;> rfl

theorem layers_dropRequest (p : Peer) (proto : Control) (bit : Octet) :
    (dropRequest p proto bit).layers = p.layers := by
  simp [dropRequest, layers_setFsm, fsmFor_state]

theorem layers_applyRej (p : Peer) (proto : Control) (opts : List Octet) :
    (applyRej p proto opts).layers = p.layers := by
  unfold applyRej
  generalize splitOptions opts.length opts = options
  induction options generalizing p with
  | nil => rfl
  | cons option rest ih =>
    rw [List.foldl_cons, ih]
    cases proto <;> simp only <;> split_ifs <;> simp [layers_dropRequest]

@[simp] theorem layers_spendFailure (p : Peer) (proto : Control) :
    (spendFailure p proto).layers = p.layers := by
  simp [spendFailure, layers_setFsm, fsmFor_state]

/-- What an event of the automaton may do to the layers of a coherent peer: nothing, move a
layer that is not open, take an open layer down, or bring a layer up. -/
inductive Layers.Moves (l : Layers) (proto : Control) : Layers → Prop
  | stay : Moves l proto l
  | set (target : State) : l.state proto ≠ .opened → target ≠ .opened →
      l.state proto ≠ .initial → Moves l proto (l.set proto target)
  | down (target : State) : l.state proto = .opened → target ≠ .opened →
      Moves l proto ((l.down proto).set proto target)
  | up : l.state proto ≠ .opened → l.state proto ≠ .initial →
      Moves l proto ((l.set proto .opened).up proto)

theorem Layers.Coherent.moves (h : l.Coherent) (hmoves : l.Moves proto l') : l'.Coherent := by
  cases hmoves with
  | stay => exact h
  | set target hfrom hto hinitial => exact h.set hfrom hto (h.ipcp_up hinitial)
  | down target hfrom hto => exact h.down_set hfrom hto
  | up hfrom hinitial => exact h.set_up hfrom (h.ipcp_up hinitial)

theorem layers_rcrTransition (p : Peer) (proto : Control) (entry : State) (good : Bool) :
    ((rcrTransition p proto entry good).layers = p.layers ∧ entry ≠ .opened) ∨ (∃ target ≠ .opened,
        (rcrTransition p proto entry good).layers = p.layers.set proto target) ∨
      entry = .ackRcvd ∧
        (rcrTransition p proto entry good).layers = (p.layers.set proto .opened).up proto := by
  unfold rcrTransition
  split
  · exact .inr (.inl ⟨.stopped, by decide, by simp⟩)
  · cases good <;> cases entry <;> simp <;> first | exact .inr ⟨_, by decide, rfl⟩ | exact ⟨_, by decide, rfl⟩

/-- A negotiation step of `ev_rcr`, whatever the verdict on the options was. -/
theorem moves_rcrTransition {entry : State} (hentry : l.state proto = entry)
    (hinitial : entry ≠ .initial) (hp : p.layers = if entry = .opened then l.down proto else l)
    (good : Bool) : l.Moves proto (rcrTransition p proto entry good).layers := by
  obtain ⟨hsame, hne⟩ | ⟨target, hto, hset⟩ | ⟨rfl, hup⟩ :=
    layers_rcrTransition p proto entry good
  · rw [hsame, hp, if_neg hne]
    exact .stay
  · rw [hset, hp]
    split
    · exact .down target (by simp_all) hto
    · exact .set target (by simp_all) hto (by simp_all)
  · rw [hup, hp, if_neg (by decide)]
    exact .up (by simp [hentry]) (by simp [hentry])

theorem layers_rcrRestart (p : Peer) (proto : Control) (entry : State) :
    (rcrRestart p proto entry).layers =
      if entry = .opened then p.layers.down proto else p.layers := by
  cases entry <;> simp [rcrRestart]

theorem moves_evRcr (p : Peer) (proto : Control) (id : Octet) (opts : List Octet) :
    p.layers.Moves proto (evRcr p proto id opts).layers := by
  unfold evRcr
  simp only
  split
  · simpa using .stay
  · rename_i hentry
    have hlayers := layers_classifyConfreq p proto opts
    have hinitial : (p.fsmFor proto).state ≠ .initial := fun h ↦ hentry (.inl h)
    split <;> rename_i hanswer <;> rw [hanswer] at hlayers
    · simpa [hlayers] using .stay
    all_goals
      refine moves_rcrTransition (fsmFor_state p proto).symm hinitial ?_ _
      rw [layers_sendCp, layers_rcrRestart, hlayers]

theorem moves_evRca (p : Peer) (proto : Control) (id : Octet) :
    p.layers.Moves proto (evRca p proto id).layers := by
  unfold evRca
  simp only
  split
  · exact .stay
  · split <;> rename_i hstate <;> simp only [fsmFor_state] at hstate
    · simpa using .stay
    · simpa using .stay
    · simpa using .set .ackRcvd (by simp [hstate]) (by decide) (by simp [hstate])
    · simpa using .set .reqSent (by simp [hstate]) (by decide) (by simp [hstate])
    · simpa using .up (by simp [hstate]) (by simp [hstate])
    · simpa using .down .reqSent hstate (by decide)
    · exact .stay

theorem moves_evRcn (p : Peer) (proto : Control) (id : Octet) :
    p.layers.Moves proto (evRcn p proto id).layers := by
  unfold evRcn
  simp only
  split
  · exact .stay
  · split <;> rename_i hstate <;> simp only [fsmFor_state] at hstate
    · simpa using .stay
    · simpa using .stay
    · simpa using .stay
    · simpa using .stay
    · simpa using .set .reqSent (by simp [hstate]) (by decide) (by simp [hstate])
    · simpa using .down .reqSent hstate (by decide)
    · exact .stay

theorem moves_evRtr (p : Peer) (proto : Control) (id : Octet) :
    p.layers.Moves proto (evRtr p proto id).layers := by
  unfold evRtr
  split <;> rename_i hstate <;> simp only [fsmFor_state] at hstate
  · simpa [layers_setFsm, fsmFor_state] using .down .stopping hstate (by decide)
  · simpa using .set .reqSent (by simp [hstate]) (by decide) (by simp [hstate])
  · simpa using .set .reqSent (by simp [hstate]) (by decide) (by simp [hstate])
  · simpa using .set .reqSent (by simp [hstate]) (by decide) (by simp [hstate])
  · simpa using .stay

theorem moves_evRta (p : Peer) (proto : Control) : p.layers.Moves proto (evRta p proto).layers := by
  unfold evRta
  split <;> rename_i hstate <;> simp only [fsmFor_state] at hstate
  · simpa using .set .closed (by simp [hstate]) (by decide) (by simp [hstate])
  · simpa using .set .stopped (by simp [hstate]) (by decide) (by simp [hstate])
  · simpa using .set .reqSent (by simp [hstate]) (by decide) (by simp [hstate])
  · simpa using .down .reqSent hstate (by decide)
  · exact .stay

theorem Layers.Moves.sunk (hmoves : l.Moves proto l') : l'.sunk = l.sunk := by
  cases hmoves <;> cases proto <;> rfl

/-- The code of the control packet a frame carries for a protocol. -/
def controlCode (proto : Control) (frame : List Octet) : Option Octet :=
  match decodeFrame frame with
  | .packet number info =>
    if number = proto.number then (controlPacket info).map fun packet ↦ packet.1 else none
  | _ => none

/-- The frame is a Code-Reject or Protocol-Reject of IPCP. -/
def RejectsIpcp (frame : List Octet) : Prop :=
  controlCode .ipcp frame = some codeRej ∨ controlCode .ipcp frame = some protoRej

instance (frame : List Octet) : Decidable (RejectsIpcp frame) := by
  unfold RejectsIpcp
  infer_instance

/-- A coherent peer stays coherent and tells the sink nothing. -/
def Layers.Keeps (l l' : Layers) : Prop := (l.Coherent → l'.Coherent) ∧ l'.sunk = l.sunk

theorem Layers.Keeps.refl (l : Layers) : l.Keeps l := ⟨id, rfl⟩

theorem Layers.Keeps.trans {m n : Layers} (h : l.Keeps m) (h' : m.Keeps n) : l.Keeps n :=
  ⟨h'.1 ∘ h.1, h'.2.trans h.2⟩

theorem Layers.Moves.keeps (hmoves : l.Moves proto l') :
    l.Keeps l' := ⟨fun h ↦ h.moves hmoves, hmoves.sunk⟩

theorem keeps_evRxj_lcp (p : Peer) : p.layers.Keeps (evRxj p .lcp).layers := by
  refine ⟨fun _ ↦ ?_, by simp [evRxj]; rfl⟩
  simp only [evRxj, ↓reduceIte, layers_tld, layers_restartStop, layers_setState]
  exact ⟨fun _ ↦ rfl, by simp [Layers.set, Layers.down]⟩

/-- A reject of IPCP stops IPCP and does nothing else; that is sound under an open LCP, and
only while IPCP is not open. -/
theorem keeps_evRxj_ipcp (p : Peer) (hlcp : p.lcp.state = .opened)
    (hipcp : p.ipcp.state ≠ .opened) : p.layers.Keeps (evRxj p .ipcp).layers := by
  have hlayers : (evRxj p .ipcp).layers = p.layers.set .ipcp .stopped := by simp [evRxj]
  rw [hlayers]
  exact ⟨fun h ↦ h.set hipcp (by decide) fun _ ↦ hlcp, rfl⟩

theorem layers_echoRequest (p : Peer) (proto : Control) (id : Octet) (data : List Octet) :
    (echoRequest p proto id data).layers = p.layers := by
  unfold echoRequest
  split
  · rfl
  · exact layers_sendCp _ _ _ _ _

theorem layers_unknownCode (p : Peer) (proto : Control) (packet : List Octet) (plen : ℕ) :
    (unknownCode p proto packet plen).layers = p.layers := by
  simp only [unknownCode, layers_sendCp, layers_setFsm, fsmFor_state]
  exact layers_set_state _ _

theorem keeps_cpInput (p : Peer) (proto : Control) (packet : List Octet)
    (hsafe : proto = .ipcp → ∀ code ∈ (controlPacket packet).map (·.1),
      code = codeRej ∨ code = protoRej → p.lcp.state = .opened ∧ p.ipcp.state ≠ .opened) :
    p.layers.Keeps (cpInput p proto packet).layers := by
  unfold cpInput
  split
  · exact .refl _
  · rename_i code id plen data hpacket
    split_ifs with hreq hack hnak hid hrej hid htreq htack hrxj
    · exact (moves_evRcr p proto id data).keeps
    · exact (moves_evRca p proto id).keeps
    · rw [← layers_applyNak p proto data]
      exact (moves_evRcn _ proto id).keeps
    · exact (moves_evRcn p proto id).keeps
    · rw [← layers_applyRej p proto data]
      exact (moves_evRcn _ proto id).keeps
    · exact (moves_evRcn p proto id).keeps
    · exact (moves_evRtr p proto id).keeps
    · exact (moves_evRta p proto).keeps
    · cases proto with
      | lcp => exact keeps_evRxj_lcp p
      | ipcp =>
        obtain ⟨hlcp, hipcp⟩ := hsafe rfl code (by simp [hpacket]) hrxj
        exact keeps_evRxj_ipcp p hlcp hipcp
    · rw [layers_echoRequest]
      exact .refl _
    · exact .refl _
    · rw [layers_unknownCode]
      exact .refl _

theorem layers_unknownProtocol (p : Peer) (proto : Half) (info : List Octet) :
    (unknownProtocol p proto info).layers = p.layers := by
  unfold unknownProtocol
  simp only
  split
  · simp only [layers_sendCp, layers_setFsm]
    rfl
  · rfl

theorem layers_ipInput (p : Peer) (info : List Octet) : (ipInput p info).layers = p.layers ∨
      p.ipcp.state = .opened ∧
        (ipInput p info).layers = { p.layers with sunk := p.sunk ++ [info] } := by
  unfold ipInput
  simp only
  split
  · rename_i h
    exact .inr ⟨h.2, rfl⟩
  · exact .inl rfl

/-- What taking an event does to the layers: it keeps them, or hands the sink one packet while
IPCP is open. -/
inductive Layers.Takes (l : Layers) : Layers → Prop
  | keeps {l' : Layers} : l.Keeps l' → Takes l l'
  | sink (packet : List Octet) : l.ipcp = .opened → Takes l { l with sunk := l.sunk ++ [packet] }

theorem Layers.Coherent.takes (h : l.Coherent) (htakes : l.Takes l') : l'.Coherent := by
  cases htakes with
  | keeps hkeeps => exact hkeeps.1 h
  | sink packet hopened => exact ⟨h.idle, h.assigned⟩

theorem Layers.Takes.sunk (h : l.Coherent) (htakes : l.Takes l') (hsunk : l'.sunk ≠ l.sunk) :
    l.lcp = .opened ∧ l.ipcp = .opened := by
  cases htakes with
  | keeps hkeeps => exact absurd hkeeps.2 hsunk
  | sink packet hopened => exact ⟨h.ordered.1 hopened, hopened⟩

theorem takes_dispatch (p : Peer) (number : Half) (info : List Octet)
    (hsafe : number = Control.ipcp.number → ∀ code ∈ (controlPacket info).map (·.1),
      code = codeRej ∨ code = protoRej → p.lcp.state = .opened ∧ p.ipcp.state ≠ .opened) :
    p.layers.Takes (dispatch p number info).layers := by
  unfold dispatch
  split_ifs with hlcp hipcp hip
  · exact .keeps (keeps_cpInput p .lcp info (by simp))
  · exact .keeps (keeps_cpInput p .ipcp info fun _ ↦ hsafe hipcp)
  · obtain hsame | ⟨hopened, hsunk⟩ := layers_ipInput p info
    · rw [hsame]
      exact .keeps (.refl _)
    · rw [hsunk]
      exact .sink info hopened
  · rw [layers_unknownProtocol]
    exact .keeps (.refl _)

theorem takes_frameInput {frame : List Octet}
    (hsafe : RejectsIpcp frame → p.lcp.state = .opened ∧ p.ipcp.state ≠ .opened) :
    p.layers.Takes (frameInput p frame).layers := by
  unfold frameInput
  split
  · exact .keeps (.refl _)
  · exact .keeps (.refl _)
  · rename_i number info hframe
    refine takes_dispatch { p with stats := { p.stats with framesIn := p.stats.framesIn + 1 } }
      number info fun hnumber code hcode hreject ↦ hsafe ?_
    have hcontrol : controlCode .ipcp frame = some code := by
      simpa [controlCode, hframe, hnumber] using hcode
    simpa [RejectsIpcp, hcontrol] using hreject

theorem takes_flagInput (hsafe : ∀ frame ∈ p.completed, RejectsIpcp frame →
      p.lcp.state = .opened ∧ p.ipcp.state ≠ .opened) :
    p.layers.Takes (flagInput p).layers := by
  unfold flagInput
  split
  · rename_i frame hframe
    exact takes_frameInput (hsafe frame hframe)
  · split_ifs <;> exact .keeps (.refl _)

/-- The octet `octet` does not complete a reject of IPCP, unless IPCP is negotiating. -/
def SafeOctet (p : Peer) (octet : Octet) : Prop :=
  octet = flag → ∀ frame ∈ p.completed, RejectsIpcp frame →
    p.lcp.state = .opened ∧ p.ipcp.state ≠ .opened

theorem takes_inputByte {octet : Octet} (hsafe : SafeOctet p octet) :
    p.layers.Takes (inputByte p octet).layers := by
  unfold inputByte
  simp only
  split_ifs with hflag <;> try exact .keeps (.refl _)
  exact takes_flagInput (p := { p with stats := { p.stats with rxBytes := p.stats.rxBytes + 1 } })
    (hsafe hflag)

theorem keeps_restartTimeout (p : Peer) (proto : Control) :
    p.layers.Keeps (restartTimeout p proto).layers := by
  unfold restartTimeout
  simp only
  split
  · split <;> rename_i hstate <;> simp only [fsmFor_state] at hstate
    case h_6 => simpa using .refl _
    all_goals
      simp only [layers_setState, layers_restartStop]
      exact (Layers.Moves.set _ (by simp [hstate]) (by decide)
        (by simp [hstate])).keeps
  · split <;> simpa using .refl _

theorem keeps_expire (p : Peer) (proto : Control) : p.layers.Keeps (expire p proto).layers := by
  unfold expire
  simp only
  split
  · exact keeps_restartTimeout p proto
  · exact .refl _

theorem keeps_pppTick (p : Peer) (now : Word) : p.layers.Keeps (pppTick p now).layers := by
  unfold pppTick
  split
  · exact .refl _
  · exact (keeps_expire { p with nowMs := now } .lcp).trans (keeps_expire _ .ipcp)

theorem keeps_pppOpen (p : Peer) (hsafe : p.opened = false → p.lcp.state ≠ .opened) :
    p.layers.Keeps (pppOpen p).layers := by
  unfold pppOpen
  split
  · exact .refl _
  · rename_i hopened
    simp only [layers_scr, layers_setState, layers_irc, layers_setFsm]
    have hlcp : p.layers.state .lcp ≠ .opened := hsafe (by simpa using hopened)
    exact ⟨fun h ↦ h.set hlcp (by decide) (by simp), rfl⟩

theorem keeps_pppClose (p : Peer) : p.layers.Keeps (pppClose p).layers := by
  -- Once LCP has been taken down, its state may move freely short of Opened.
  have hset (q : Peer) (target : State) (hdown : q.layers = if p.lcp.state = .opened then
      p.layers.down .lcp else p.layers) (hto : target ≠ .opened) :
      p.layers.Keeps (q.layers.set .lcp target) := by
    rw [hdown]
    split
    · rename_i hopened
      exact Layers.Moves.keeps (.down target hopened hto)
    · rename_i hopened
      exact ⟨fun h ↦ h.set hopened hto (by simp), rfl⟩
  unfold pppClose
  simp only
  set q := if p.lcp.state = .opened then tld { p with opened := false } .lcp
    else { p with opened := false } with hq
  have hlayers : q.layers = if p.lcp.state = .opened then p.layers.down .lcp else p.layers := by
    rw [hq]
    split
    · exact layers_tld _ _
    · rfl
  split
  · simpa using hset q .closed hlayers (by decide)
  · simpa using hset q .closing hlayers (by decide)

theorem layers_sendIp (p : Peer) (packet : List Octet) : (sendIp p packet).2.layers = p.layers := by
  unfold sendIp
  simp only
  split_ifs <;> first | rfl | exact layers_txFrame p protoIp packet

/-- The events that keep the layering: everything but a reject of IPCP outside negotiation and
an open call under an open LCP. -/
def LayerSafe (p : Peer) : Event → Prop
  | .receive octet => SafeOctet p octet
  | .open => p.opened = false → p.lcp.state ≠ .opened
  | _ => True

instance (p : Peer) (event : Event) : Decidable (LayerSafe p event) := by
  unfold LayerSafe SafeOctet
  split <;> infer_instance

theorem takes_step {event : Event} (hsafe : LayerSafe p event) :
    p.layers.Takes (step p event).layers := by
  cases event with
  | receive octet => exact takes_inputByte hsafe
  | tick now => exact .keeps (keeps_pppTick p now)
  | «open» => exact .keeps (keeps_pppOpen p hsafe)
  | close => exact .keeps (keeps_pppClose p)
  | ipSink installed => exact .keeps (.refl _)
  | sendIp packet =>
    rw [step, layers_sendIp]
    exact .keeps (.refl _)
  | takeOctet =>
    simp only [step, outputByte]
    split <;> exact .keeps (.refl _)

/-- A packet reaches the sink only while both layers are open. -/
def SinkLaw (p : Peer) (_ : Event) (p' : Peer) : Prop :=
  p'.sunk ≠ p.sunk → p.lcp.state = .opened ∧ p.ipcp.state = .opened

/-- The layering promise over a run: the order of the layers in every state of it, and the sink
law at every event of it. -/
def Layered (p : Peer) (events : List Event) : Prop :=
  Run.Throughout step (fun p ↦ p.layers.Ordered) SinkLaw p events

theorem coherent_pppInit (cfg : Config) : (pppInit cfg).layers.Coherent :=
  ⟨fun _ ↦ rfl, by simp [pppInit, Peer.layers]⟩

theorem layered_of_layerSafe (cfg : Config) (events : List Event)
    (hsafe : Run.Within step LayerSafe (pppInit cfg) events) : Layered (pppInit cfg) events :=
  Run.throughout_of_within (fun (p : Peer) (h : p.layers.Coherent) ↦ h.ordered) (fun _ _ h hsafe ↦ h.takes (takes_step hsafe))
    (fun _ _ h hsafe hsunk ↦ (takes_step hsafe).sunk h hsunk) (coherent_pppInit cfg) hsafe

/-- A guest that frames one control packet without options. -/
def controlFrame (proto : Control) (code id : Octet) : List Event :=
  (pppFrame proto.number [code, id, 0, 4] 0 (2 * maxFrame + 2)).map .receive

/-- The shortest negotiation: each side acknowledges an empty request on both layers. -/
def negotiation : List Event :=
  [.ipSink true, .open] ++ controlFrame .lcp confAck 1 ++ controlFrame .lcp confReq 1 ++
    controlFrame .ipcp confAck 1 ++ controlFrame .ipcp confReq 1

theorem layered_negotiation : Layered (pppInit configDefault)
    (negotiation ++ (pppFrame protoIp [0x45] 0 64).map .receive ++
      controlFrame .lcp termReq 2 ++ [.tick 9000, .close]) :=
  layered_of_layerSafe configDefault _ (by decide +kernel)

/-- A Code-Reject of IPCP after the negotiation stops IPCP and leaves the address assigned. -/
theorem not_layered_codeReject : ¬∀ (cfg : Config) (events : List Event),
    Layered (pppInit cfg) events := by
  intro h
  have hfinal := (h configDefault (negotiation ++ controlFrame .ipcp codeRej 1)).final
  exact absurd hfinal (by decide +kernel)

end S5LBox.Ppp
