import S5LBox.Ppp.Layering

/-!
# The negotiated parameters

What the guest asked for in its last acknowledged LCP request, and what the peer works with. The
review of a request writes the parameters option by option, before the verdict on the whole
list is known and without going back to the defaults; the two agree over a run exactly as long as
no request makes that visible.
-/

namespace S5LBox.Ppp

/-- The options of LCP that a request may set. -/
inductive Parameter where
  | mru
  | asyncmap
  | magic
  | pcomp
  | accomp
  deriving DecidableEq, Repr

namespace Parameter

instance : Fintype Parameter where
  elems := {mru, asyncmap, magic, pcomp, accomp}
  complete param := by cases param <;> decide

def code : Parameter → Octet
  | mru => lcpOptMru
  | asyncmap => lcpOptAsyncmap
  | magic => lcpOptMagic
  | pcomp => lcpOptPcomp
  | accomp => lcpOptAccomp

/-- The value an option carries; a compression is asked for by being there. -/
def read (option : List Octet) : Parameter → Word
  | mru => (getBe16 option 2).zeroExtend 32
  | asyncmap => getBe32 option 2
  | magic => getBe32 option 2
  | pcomp => 1
  | accomp => 1

/-- The values of a link that has negotiated nothing. -/
def default : Parameter → Word
  | mru => 1500
  | asyncmap => 0xffffffff
  | magic => 0
  | pcomp => 0
  | accomp => 0

end Parameter

/-- The parameters the peer works with. -/
def Peer.parameter (p : Peer) : Parameter → Word
  | .mru => p.peerMru.zeroExtend 32
  | .asyncmap => p.peerAsyncmap
  | .magic => p.peerMagic
  | .pcomp => if p.peerPcomp then 1 else 0
  | .accomp => if p.peerAccomp then 1 else 0

namespace Parameter

def length : Parameter → Octet
  | mru => 4
  | asyncmap => 6
  | magic => 6
  | pcomp => 2
  | accomp => 2

/-- The values this peer agrees to: no more than it can send, no magic number of its own. -/
def allows (ourMagic : Word) (option : List Octet) : Parameter → Bool
  | mru => (getBe16 option 2).toNat ≤ mruDefault
  | magic => getBe32 option 2 ≠ ourMagic
  | _ => true

end Parameter

/-- The option sets the parameter and is accepted. -/
def accepts (ourMagic : Word) (param : Parameter) (option : List Octet) : Bool :=
  octetAt option 0 = param.code && octetAt option 1 = param.length && param.allows ourMagic option

def Peer.store (p : Peer) (option : List Octet) : Parameter → Peer
  | .mru => { p with peerMru := getBe16 option 2 }
  | .asyncmap => { p with peerAsyncmap := getBe32 option 2 }
  | .magic => { p with peerMagic := getBe32 option 2, peerMagicValid := true }
  | .pcomp => { p with peerPcomp := true }
  | .accomp => { p with peerAccomp := true }

theorem parameter_store (p : Peer) (option : List Octet) (param other : Parameter) :
    (p.store option param).parameter other =
      if other = param then param.read option else p.parameter other := by
  cases param <;> cases other <;> rfl

variable {p q : Peer} {option opts : List Octet} {event : Event}

theorem lcpReview_of_accepts {param : Parameter} (h : accepts p.ourMagic param option = true) :
    lcpReview p option = (.ack, p.store option param) := by
  simp only [accepts, Bool.and_eq_true, decide_eq_true_eq] at h
  obtain ⟨⟨htype, hlength⟩, hallows⟩ := h
  unfold lcpReview
  simp only [htype, hlength]
  cases param with
  | mru =>
    have hfits : ¬mruDefault < (getBe16 option 2).toNat := by
      simpa [Parameter.allows] using hallows
    rw [if_pos (by decide), if_neg (by decide), if_neg hfits]
    rfl
  | asyncmap =>
    rw [if_neg (by decide), if_pos (by decide), if_neg (by decide)]
    rfl
  | magic =>
    have hother : getBe32 option 2 ≠ p.ourMagic := by simpa [Parameter.allows] using hallows
    rw [if_neg (by decide), if_neg (by decide), if_neg (by decide), if_neg (by decide),
      if_pos (by decide), if_neg (by decide), if_neg hother]
    rfl
  | pcomp =>
    rw [if_neg (by decide), if_neg (by decide), if_neg (by decide), if_neg (by decide),
      if_neg (by decide), if_pos (by decide), if_neg (by decide)]
    rfl
  | accomp =>
    rw [if_neg (by decide), if_neg (by decide), if_neg (by decide), if_neg (by decide),
      if_neg (by decide), if_neg (by decide), if_pos (by decide), if_neg (by decide)]
    rfl

/-- A verdict other than an Ack; a Nak names something, and something short. -/
def Verdict.Refuses : Verdict → Prop
  | .ack => False
  | .nak wanted => 0 < wanted.length ∧ wanted.length ≤ mruDefault
  | .rej => True

theorem lcpReview_of_refused (h : ∀ param, accepts p.ourMagic param option = false) :
    (lcpReview p option).1.Refuses ∧ (lcpReview p option).2 = p := by
  let refused (x : Verdict × Peer) : Prop := x.1.Refuses ∧ x.2 = p
  have hrej : refused (.rej, p) := ⟨trivial, rfl⟩
  have hnak (type olen : Octet) (value : List Octet) (hvalue : value.length ≤ 4) :
      refused (.nak ([type, olen] ++ value), p) := by
    refine ⟨⟨by simp, ?_⟩, rfl⟩
    simp only [List.length_append, List.length_cons, List.length_nil, mruDefault]
    omega
  -- an acceptable length and value of a known type would be accepted
  have hlength (param : Parameter) (htype : octetAt option 0 = param.code)
      (hlen : octetAt option 1 = param.length) : param.allows p.ourMagic option = false := by
    simpa [accepts, htype, hlen] using h param
  have hite {P : Prop} [Decidable P] {x y : Verdict × Peer} (hx : P → refused x)
      (hy : ¬P → refused y) : refused (if P then x else y) := iteInduction hx hy
  show refused (lcpReview p option)
  unfold lcpReview
  refine hite (fun htype ↦ ?_) fun _ ↦ ?_
  · refine hite (fun _ ↦ hrej) fun hlen ↦ ?_
    refine hite (fun _ ↦ hnak _ _ _ (by simp [putBe16])) fun hfits ↦ ?_
    have hallows := hlength .mru htype (not_not.1 hlen)
    simp [Parameter.allows] at hallows
    omega
  refine hite (fun htype ↦ ?_) fun _ ↦ ?_
  · refine hite (fun _ ↦ hrej) fun hlen ↦ ?_
    exact absurd (hlength .asyncmap htype (not_not.1 hlen)) (by simp [Parameter.allows])
  refine hite (fun _ ↦ hrej) fun _ ↦ ?_
  refine hite (fun _ ↦ hrej) fun _ ↦ ?_
  refine hite (fun htype ↦ ?_) fun _ ↦ ?_
  · refine hite (fun _ ↦ hrej) fun hlen ↦ ?_
    refine hite (fun _ ↦ hnak _ _ _ (by simp [putBe16, putBe32])) fun hother ↦ ?_
    have hallows := hlength .magic htype (not_not.1 hlen)
    exact absurd hallows (by simpa [Parameter.allows] using hother)
  refine hite (fun htype ↦ ?_) fun _ ↦ ?_
  · refine hite (fun _ ↦ hrej) fun hlen ↦ ?_
    exact absurd (hlength .pcomp htype (not_not.1 hlen)) (by simp [Parameter.allows])
  refine hite (fun htype ↦ ?_) fun _ ↦ hrej
  refine hite (fun _ ↦ hrej) fun hlen ↦ ?_
  exact absurd (hlength .accomp htype (not_not.1 hlen)) (by simp [Parameter.allows])

/-- The value of the last option of a list that passes the test of a parameter. -/
def lastValue (passes : Parameter → List Octet → Bool) (options : List (List Octet))
    (param : Parameter) : Option Word :=
  (options.filter (passes param)).getLast?.map fun option ↦ param.read option

/-- The values a request carries. -/
def carried (request : List Octet) : Parameter → Option Word :=
  lastValue (fun param option ↦ octetAt option 0 = param.code)
    (splitOptions request.length request)

/-- The values a request carries that the review accepts, up to the first option that does not
fit in the request. -/
def offered (ourMagic : Word) (request : List Octet) : Parameter → Option Word :=
  lastValue (accepts ourMagic) (splitOptions request.length request)

/-- What acknowledging a request agrees to: the values it carries, and the defaults for the
options absent from it. -/
def agreed (request : List Octet) (param : Parameter) : Word :=
  (carried request param).getD param.default

theorem classifyOptions_snd (fuel : ℕ) (p : Peer) (opts rej nak : List Octet) :
    (classifyOptions p .lcp fuel opts rej nak).2 =
      (splitOptions fuel opts).foldl (fun p option ↦ (lcpReview p option).2) p := by
  induction fuel generalizing p opts rej nak with
  | zero => rfl
  | succ fuel ih =>
    unfold classifyOptions splitOptions
    by_cases hshort : opts.length < 2
    · rw [if_pos (Or.inl hshort), if_pos hshort]
      split <;> rfl
    have hsome : opts.length ≠ 0 := by omega
    rw [if_neg hsome, if_neg hshort]
    by_cases hfits : (octetAt opts 1).toNat < 2 ∨ opts.length < (octetAt opts 1).toNat
    · simp only [if_pos hfits, if_pos (Or.inr hfits)]
      rfl
    have hfits' : ¬(opts.length < 2 ∨ (octetAt opts 1).toNat < 2 ∨
        opts.length < (octetAt opts 1).toNat) := by
      rintro (h | h)
      · exact hshort h
      · exact hfits h
    simp only [if_neg hfits, if_neg hfits', List.foldl_cons]
    show _ = (splitOptions fuel _).foldl _ (review p .lcp _).2
    rcases review p .lcp (opts.take (octetAt opts 1).toNat) with ⟨verdict, q⟩
    cases verdict <;> exact ih _ _ _ _

theorem Parameter.code_injective : Function.Injective Parameter.code := by
  intro param other
  cases param <;> cases other <;> decide

theorem accepts_unique {ourMagic : Word} {param other : Parameter}
    (h : accepts ourMagic param option = true) (h' : accepts ourMagic other option = true) :
    param = other := by
  simp only [accepts, Bool.and_eq_true, decide_eq_true_eq] at h h'
  exact Parameter.code_injective (h.1.1.symm.trans h'.1.1)

theorem parameter_lcpReview (p : Peer) (option : List Octet) (param : Parameter) :
    (lcpReview p option).2.parameter param =
      if accepts p.ourMagic param option then param.read option else p.parameter param := by
  by_cases hsome : ∃ other, accepts p.ourMagic other option = true
  · obtain ⟨other, hother⟩ := hsome
    rw [lcpReview_of_accepts hother, parameter_store]
    by_cases hsame : param = other
    · rw [if_pos hsame, hsame, if_pos hother]
    · rw [if_neg hsame, if_neg fun h ↦ hsame (accepts_unique h hother)]
  · have hnone (param : Parameter) : accepts p.ourMagic param option = false := by
      simpa using not_exists.1 hsome param
    rw [(lcpReview_of_refused hnone).2, if_neg (by simp [hnone])]

theorem ourMagic_lcpReview (p : Peer) (option : List Octet) :
    (lcpReview p option).2.ourMagic = p.ourMagic :=
  @view_review _ Peer.ourMagic (fun _ _ ↦ rfl) p .lcp option

theorem lastValue_cons (passes : Parameter → List Octet → Bool) (option : List Octet)
    (rest : List (List Octet)) (param : Parameter) : lastValue passes (option :: rest) param =
      (lastValue passes rest param).or
        (if passes param option then some (param.read option) else none) := by
  unfold lastValue
  rw [List.filter_cons]
  split
  · rw [List.getLast?_cons]
    cases (rest.filter (passes param)).getLast? <;> rfl
  · rw [Option.or_none]

theorem parameter_foldl_lcpReview (p : Peer) (options : List (List Octet)) (param : Parameter) :
    (options.foldl (fun p option ↦ (lcpReview p option).2) p).parameter param =
      (lastValue (accepts p.ourMagic) options param).getD (p.parameter param) := by
  induction options generalizing p with
  | nil => rfl
  | cons option rest ih =>
    rw [List.foldl_cons, ih, ourMagic_lcpReview, parameter_lcpReview, lastValue_cons]
    cases lastValue (accepts p.ourMagic) rest param with
    | some value => rfl
    | none => split <;> rfl

theorem parameter_classifyConfreq (p : Peer) (opts : List Octet) (param : Parameter) :
    (classifyConfreq p .lcp opts).2.parameter param =
      (offered p.ourMagic opts param).getD (p.parameter param) := by
  have hsnd := classifyOptions_snd opts.length p opts [] []
  have hanswer : (classifyConfreq p .lcp opts).2 =
      (classifyOptions p .lcp opts.length opts [] []).2 := by
    unfold classifyConfreq
    rcases classifyOptions p .lcp opts.length opts [] [] with ⟨_ | ⟨rej, nak⟩, q⟩
    · rfl
    · simp only
      split_ifs <;> rfl
  rw [hanswer, hsnd, parameter_foldl_lcpReview]
  rfl

/-- What is added to a list within its capacity leaves it nonempty, whether it still fits or
not. -/
theorem capped_append_ne_nil {kept added : List Octet} {n : ℕ} (hn : added.length = n)
    (hsome : 0 < n) (hcap : n ≤ mruDefault) :
    (if kept.length + n ≤ mruDefault then kept ++ added else kept) ≠ [] := by
  intro h
  split at h
  case isTrue =>
    have hlength := congrArg List.length h
    rw [List.length_append, List.length_nil] at hlength
    omega
  case isFalse hfull =>
    rw [h, List.length_nil] at hfull
    omega

/-- A list without refusals in the end never had one: what was refused is kept. -/
theorem accepts_of_classifyOptions {fuel : ℕ} {rej nak : List Octet}
    (h : classifyOptions p .lcp fuel opts rej nak = (some ([], []), q)) : (rej = [] ∧ nak = []) ∧
      ∀ option ∈ splitOptions fuel opts, ∃ param, accepts p.ourMagic param option = true := by
  induction fuel generalizing p opts rej nak with
  | zero =>
    cases h
    exact ⟨⟨rfl, rfl⟩, by simp [splitOptions]⟩
  | succ fuel ih =>
    unfold classifyOptions at h
    unfold splitOptions
    by_cases hempty : opts.length = 0
    · rw [if_pos hempty] at h
      cases h
      rw [if_pos (Or.inl (by omega))]
      exact ⟨⟨rfl, rfl⟩, by simp⟩
    rw [if_neg hempty] at h
    by_cases hshort : opts.length < 2
    · rw [if_pos hshort] at h
      cases h
    rw [if_neg hshort] at h
    by_cases hfits : (octetAt opts 1).toNat < 2 ∨ opts.length < (octetAt opts 1).toNat
    · simp only [if_pos hfits] at h
      cases h
    simp only [if_neg hfits] at h
    rw [if_neg (not_or.2 ⟨hshort, hfits⟩)]
    obtain ⟨hlong, hwithin⟩ := not_or.1 hfits
    have holen : (octetAt opts 1).toNat ≤ mruDefault :=
      (octetAt opts 1).isLt.le.trans (by decide)
    set option := opts.take (octetAt opts 1).toNat with hoption
    have hlength : option.length = (octetAt opts 1).toNat := by
      rw [hoption, List.length_take]
      omega
    by_cases hsome : ∃ param, accepts p.ourMagic param option = true
    · obtain ⟨param, hparam⟩ := hsome
      have hreview : review p .lcp option = (.ack, p.store option param) :=
        lcpReview_of_accepts hparam
      rw [hreview] at h
      have hmagic : (p.store option param).ourMagic = p.ourMagic := by cases param <;> rfl
      obtain ⟨hnone, hrest⟩ := ih h
      rw [hmagic] at hrest
      refine ⟨hnone, ?_⟩
      simp only [List.mem_cons, forall_eq_or_imp]
      exact ⟨⟨param, hparam⟩, hrest⟩
    · have hnone (param : Parameter) : accepts p.ourMagic param option = false := by
        simpa using not_exists.1 hsome param
      obtain ⟨hrefuses, -⟩ := lcpReview_of_refused hnone
      -- what is refused goes on a list, and the lists only grow
      exfalso
      change (lcpReview p option).1.Refuses at hrefuses
      have hreview : review p .lcp option = lcpReview p option := rfl
      rw [hreview] at h
      rcases hverdict : lcpReview p option with ⟨verdict, r⟩
      rw [hverdict] at h hrefuses
      simp only at h hrefuses
      cases verdict with
      | ack => exact hrefuses
      | nak wanted =>
        exact capped_append_ne_nil rfl hrefuses.1 hrefuses.2 (ih h).1.2
      | rej => exact capped_append_ne_nil hlength (by omega) holen (ih h).1.1

/-- An acknowledged request has no option this peer refuses. -/
theorem offered_of_ack {resp : List Octet} (h : (classifyConfreq p .lcp opts).1 = .ack resp) :
    offered p.ourMagic opts = carried opts := by
  have haccepts : ∀ option ∈ splitOptions opts.length opts,
      ∃ param, accepts p.ourMagic param option = true := by
    unfold classifyConfreq at h
    rcases hlists : classifyOptions p .lcp opts.length opts [] [] with ⟨_ | ⟨rej, nak⟩, q⟩
    · rw [hlists] at h
      cases h
    · rw [hlists] at h
      simp only at h
      split_ifs at h with hrej hnak
      have hrej' : rej = [] := List.length_eq_zero_iff.1 (not_not.1 hrej)
      have hnak' : nak = [] := List.length_eq_zero_iff.1 (not_not.1 hnak)
      rw [hrej', hnak'] at hlists
      exact (accepts_of_classifyOptions hlists).2
  funext param
  unfold offered carried lastValue
  refine congrArg (fun options ↦ (List.getLast? options).map _) (List.filter_congr ?_)
  intro option hoption
  obtain ⟨other, hother⟩ := haccepts option hoption
  by_cases hsame : param = other
  · rw [hsame, hother]
    simp only [accepts, Bool.and_eq_true, decide_eq_true_eq] at hother
    simp [hother.1.1]
  · have hrefused : accepts p.ourMagic param option = false := by
      by_contra h
      exact hsame (accepts_unique (by simpa using h) hother)
    have htype : octetAt option 0 ≠ param.code := by
      simp only [accepts, Bool.and_eq_true, decide_eq_true_eq] at hother
      intro h
      exact hsame (Parameter.code_injective (h.symm.trans hother.1.1))
    rw [hrefused]
    simp [htype]

@[simp] theorem parameter_setFsm (p : Peer) (proto : Control) (f : Fsm) :
    (p.setFsm proto f).parameter = p.parameter := by
  cases proto <;> rfl

@[simp] theorem parameter_setState (p : Peer) (proto : Control) (state : State) :
    (p.setState proto state).parameter = p.parameter := parameter_setFsm ..

@[simp] theorem parameter_restartStart (p : Peer) (proto : Control) :
    (restartStart p proto).parameter = p.parameter := parameter_setFsm ..

@[simp] theorem parameter_restartStop (p : Peer) (proto : Control) :
    (restartStop p proto).parameter = p.parameter := parameter_setFsm ..

@[simp] theorem parameter_irc (p : Peer) (proto : Control) (count : Octet) :
    (irc p proto count).parameter = p.parameter := parameter_setFsm ..

@[simp] theorem parameter_spendFailure (p : Peer) (proto : Control) :
    (spendFailure p proto).parameter = p.parameter := parameter_setFsm ..

@[simp] theorem parameter_spendRestart (p : Peer) (proto : Control) :
    (spendRestart p proto).parameter = p.parameter := by
  unfold spendRestart
  simp only
  split
  · exact parameter_setFsm ..
  · rfl

@[simp] theorem parameter_txFrame (p : Peer) (number : Half) (info : List Octet) :
    (txFrame p number info).parameter = p.parameter := by
  unfold txFrame
  simp only
  split <;> rfl

@[simp] theorem parameter_sendCp (p : Peer) (proto : Control) (code id : Octet)
    (data : List Octet) : (sendCp p proto code id data).parameter = p.parameter := by
  unfold sendCp
  split
  · rfl
  · exact parameter_txFrame ..

@[simp] theorem parameter_scr (p : Peer) (proto : Control) (fresh : Bool) :
    (scr p proto fresh).parameter = p.parameter := by
  cases fresh <;> simp [scr, freshId]

@[simp] theorem parameter_str (p : Peer) (proto : Control) :
    (str p proto).parameter = p.parameter := by
  simp [str, freshId]

@[simp] theorem parameter_sta (p : Peer) (proto : Control) (id : Octet) :
    (sta p proto id).parameter = p.parameter := parameter_sendCp ..

@[simp] theorem parameter_tld (p : Peer) (proto : Control) :
    (tld p proto).parameter = p.parameter := by
  cases proto <;> rfl

@[simp] theorem parameter_tlu (p : Peer) (proto : Control) :
    (tlu p proto).parameter = p.parameter := by
  cases proto with
  | lcp => simp [tlu, ipcpStart]
  | ipcp => rfl

@[simp] theorem parameter_rcrRestart (p : Peer) (proto : Control) (entry : State) :
    (rcrRestart p proto entry).parameter = p.parameter := by
  cases entry <;> simp [rcrRestart]

@[simp] theorem parameter_rcrTransition (p : Peer) (proto : Control) (entry : State)
    (good : Bool) : (rcrTransition p proto entry good).parameter = p.parameter := by
  unfold rcrTransition
  split
  · simp
  · cases good <;> cases entry <;> simp

/-- LCP is in a state that only an acknowledgement of ours leads to. -/
def Layers.Agreed (l : Layers) : Prop := l.lcp = .ackSent ∨ l.lcp = .opened

/-- What an event that acknowledges nothing does: the parameters stay, and LCP gets no closer
to Opened than an earlier acknowledgement allows. -/
structure Settles (p q : Peer) : Prop where
  parameter : q.parameter = p.parameter
  agreed : q.layers.Agreed → p.layers.Agreed

theorem Settles.refl (p : Peer) : Settles p p := ⟨rfl, id⟩

theorem Settles.trans {r : Peer} (h : Settles p q) (h' : Settles q r) : Settles p r :=
  ⟨h'.parameter.trans h.parameter, h.agreed ∘ h'.agreed⟩

theorem Settles.of_layers (hparameter : q.parameter = p.parameter) (hlayers : q.layers = p.layers) :
    Settles p q :=
  ⟨hparameter, by rw [hlayers]; exact id⟩

section Agreed

variable (l : Layers) (target : State)

@[simp] theorem Layers.agreed_set_lcp :
    (l.set .lcp target).Agreed ↔ target = .ackSent ∨ target = .opened := Iff.rfl

@[simp] theorem Layers.agreed_set_ipcp : (l.set .ipcp target).Agreed ↔ l.Agreed := Iff.rfl

@[simp] theorem Layers.agreed_up (proto : Control) : (l.up proto).Agreed ↔ l.Agreed := by
  cases proto <;> rfl

@[simp] theorem Layers.agreed_down (proto : Control) : (l.down proto).Agreed ↔ l.Agreed := by
  cases proto <;> rfl

end Agreed

/-- IPCP's events leave LCP where it is. -/
theorem Layers.Moves.agreed {l l' : Layers} (hmoves : l.Moves .ipcp l') : l'.Agreed → l.Agreed := by
  cases hmoves <;> simp

theorem agreed_layers (p : Peer) : p.layers.Agreed ↔
    (p.fsmFor .lcp).state = .ackSent ∨ (p.fsmFor .lcp).state = .opened := Iff.rfl

theorem settles_evRca (p : Peer) (proto : Control) (id : Octet) : Settles p (evRca p proto id) where
  parameter := by
    unfold evRca
    simp only
    split
    · rfl
    · split <;> simp
  agreed := by
    cases proto with
    | ipcp => exact (moves_evRca p .ipcp id).agreed
    | lcp =>
      have hagreed := agreed_layers p
      unfold evRca
      simp only
      split
      · exact fun h ↦ h
      · cases hstate : (p.fsmFor .lcp).state <;> rw [hstate] at hagreed <;> simp [hagreed]

theorem settles_evRcn (p : Peer) (proto : Control) (id : Octet) : Settles p (evRcn p proto id) where
  parameter := by
    unfold evRcn
    simp only
    split
    · rfl
    · split <;> simp
  agreed := by
    cases proto with
    | ipcp => exact (moves_evRcn p .ipcp id).agreed
    | lcp =>
      have hagreed := agreed_layers p
      unfold evRcn
      simp only
      split
      · exact fun h ↦ h
      · cases hstate : (p.fsmFor .lcp).state <;> rw [hstate] at hagreed <;> simp [hagreed]

theorem settles_evRtr (p : Peer) (proto : Control) (id : Octet) : Settles p (evRtr p proto id) where
  parameter := by
    unfold evRtr
    split <;> simp
  agreed := by
    cases proto with
    | ipcp => exact (moves_evRtr p .ipcp id).agreed
    | lcp =>
      have hagreed := agreed_layers p
      unfold evRtr
      cases hstate : (p.fsmFor .lcp).state <;> rw [hstate] at hagreed <;>
        simp [hagreed, layers_setFsm, fsmFor_state]

theorem settles_evRta (p : Peer) (proto : Control) : Settles p (evRta p proto) where
  parameter := by
    unfold evRta
    split <;> simp
  agreed := by
    cases proto with
    | ipcp => exact (moves_evRta p .ipcp).agreed
    | lcp =>
      have hagreed := agreed_layers p
      unfold evRta
      cases hstate : (p.fsmFor .lcp).state <;> rw [hstate] at hagreed <;> simp [hagreed]

theorem settles_evRxj (p : Peer) (proto : Control) : Settles p (evRxj p proto) where
  parameter := by
    cases proto <;> simp [evRxj]
  agreed := by
    cases proto <;> simp [evRxj]

theorem settles_restartTimeout (p : Peer) (proto : Control) :
    Settles p (restartTimeout p proto) where
  parameter := by
    unfold restartTimeout
    simp only
    split <;> split <;> simp
  agreed := by
    have hagreed := agreed_layers p
    unfold restartTimeout
    simp only
    cases proto with
    | lcp => split <;> cases hstate : (p.fsmFor .lcp).state <;> rw [hstate] at hagreed <;>
        simp [hagreed]
    | ipcp => split <;> split <;> simp

def Answer.isAck : Answer → Bool
  | .ack _ => true
  | _ => false

theorem verdict_congr (h : p.ourMagic = q.ourMagic) (option : List Octet) :
    (lcpReview p option).1 = (lcpReview q option).1 := by
  unfold lcpReview
  rw [h]
  simp only
  split_ifs <;> rfl

theorem classifyOptions_congr (h : p.ourMagic = q.ourMagic) (fuel : ℕ) (opts rej nak : List Octet) :
    (classifyOptions p .lcp fuel opts rej nak).1 = (classifyOptions q .lcp fuel opts rej nak).1 := by
  induction fuel generalizing p q opts rej nak with
  | zero => rfl
  | succ fuel ih =>
    unfold classifyOptions
    simp only [review]
    set option := opts.take (octetAt opts 1).toNat
    have hnext : (lcpReview p option).2.ourMagic = (lcpReview q option).2.ourMagic := by
      rw [ourMagic_lcpReview, ourMagic_lcpReview, h]
    rw [verdict_congr h option]
    split
    · rfl
    split
    · rfl
    split
    · rfl
    split <;> exact ih hnext _ _ _

theorem isAck_classifyConfreq_congr (h : p.ourMagic = q.ourMagic) (opts : List Octet) :
    (classifyConfreq p .lcp opts).1.isAck = (classifyConfreq q .lcp opts).1.isAck := by
  have hlists := classifyOptions_congr h opts.length opts [] []
  unfold classifyConfreq
  rcases hp : classifyOptions p .lcp opts.length opts [] [] with ⟨lists, r⟩
  rcases hq : classifyOptions q .lcp opts.length opts [] [] with ⟨lists', r'⟩
  rw [hp, hq] at hlists
  obtain rfl : lists = lists' := hlists
  rcases lists with _ | ⟨rej, nak⟩
  · rfl
  · simp only
    split_ifs <;> rfl

theorem parameter_classifyConfreq_ipcp (p : Peer) (opts : List Octet) :
    (classifyConfreq p .ipcp opts).2.parameter = p.parameter := by
  refine classifyConfreq_keeps Peer.parameter (fun q option ↦ ?_) p opts
  show (ipcpReview q option).2.parameter = q.parameter
  unfold ipcpReview
  simp only
  split_ifs <;> rfl

theorem parameter_evRcr (p : Peer) (proto : Control) (id : Octet) (opts : List Octet) :
    (evRcr p proto id opts).parameter =
      if (p.fsmFor proto).state = .initial ∨ (p.fsmFor proto).state = .closed then p.parameter
      else (classifyConfreq p proto opts).2.parameter := by
  unfold evRcr
  simp only
  split
  · exact parameter_sta ..
  · rcases classifyConfreq p proto opts with ⟨answer, q⟩
    cases answer <;> simp

/-- A refusal takes LCP no closer to Opened. -/
theorem agreed_rcrTransition {entry : State}
    (h : (rcrTransition p .lcp entry false).layers.Agreed) : p.layers.Agreed := by
  revert h
  unfold rcrTransition
  split
  · simp
  · cases entry <;> simp

theorem agreed_evRcr {id : Octet} (hanswer : (classifyConfreq p .lcp opts).1.isAck = false)
    (h : (evRcr p .lcp id opts).layers.Agreed) : p.layers.Agreed := by
  revert h
  have hlayers := layers_classifyConfreq p .lcp opts
  unfold evRcr
  simp only
  split
  · simp
  · rcases hclassified : classifyConfreq p .lcp opts with ⟨answer, q⟩
    rw [hclassified] at hlayers hanswer
    have hrestart (entry : State) (code : Octet) (resp : List Octet)
        (h : (sendCp (rcrRestart q .lcp entry) .lcp code id resp).layers.Agreed) :
        p.layers.Agreed := by
      have hq : q.layers = p.layers := hlayers
      rw [layers_sendCp, layers_rcrRestart, hq] at h
      split at h
      · simpa using h
      · exact h
    cases answer with
    | invalid => exact fun h ↦ hlayers ▸ h
    | ack => cases hanswer
    | nak resp | rej resp => exact fun h ↦ hrestart _ _ _ (agreed_rcrTransition h)

/-- The options of a control packet that is a Configure-Request. -/
def controlRequest (packet : List Octet) : Option (List Octet) :=
  match controlPacket packet with
  | some (code, _, _, data) => if code = confReq then some data else none
  | none => none

/-- The options of the Configure-Request of LCP that a frame carries. -/
def requestOf (frame : List Octet) : Option (List Octet) :=
  match decodeFrame frame with
  | .packet number info => if number = Control.lcp.number then controlRequest info else none
  | _ => none

/-- Before the Open a request is refused without a look at its options. -/
def Peer.admits (p : Peer) (request : Option (List Octet)) : Option (List Octet) :=
  if p.lcp.state = .initial ∨ p.lcp.state = .closed then none else request

/-- The request of the guest that an event has reviewed. -/
def reviewed (p : Peer) : Event → Option (List Octet)
  | .receive octet => if octet = flag then p.admits (p.completed.bind requestOf) else none
  | _ => none

/-- The request of the guest that an event has acknowledged. -/
def acknowledged (p : Peer) (event : Event) : Option (List Octet) :=
  (reviewed p event).filter fun request ↦ (classifyConfreq p .lcp request).1.isAck

/-- What an event does to the parameters, by the request it has reviewed. -/
structure Reviews (p : Peer) (request : List Octet) (q : Peer) : Prop where
  parameter : ∀ param,
    q.parameter param = (offered p.ourMagic request param).getD (p.parameter param)
  agreed : (classifyConfreq p .lcp request).1.isAck = false → q.layers.Agreed → p.layers.Agreed

/-- The two kinds of events. -/
def Answers (p : Peer) (request : Option (List Octet)) (q : Peer) : Prop :=
  match request with
  | none => Settles p q
  | some request => Reviews p request q

@[simp] theorem admits_none (p : Peer) : p.admits none = none := ite_self _

theorem answers_evRcr (p : Peer) (id : Octet) (opts : List Octet) :
    Answers p (p.admits (some opts)) (evRcr p .lcp id opts) := by
  have hparameter := parameter_evRcr p .lcp id opts
  by_cases hrefused : (p.fsmFor .lcp).state = .initial ∨ (p.fsmFor .lcp).state = .closed
  · have hnone : p.admits (some opts) = none := if_pos hrefused
    have hsta : evRcr p .lcp id opts = sta p .lcp id := if_pos hrefused
    rw [hnone, hsta]
    exact Settles.of_layers (parameter_sta ..) (layers_sta ..)
  · have hsome : p.admits (some opts) = some opts := if_neg hrefused
    rw [if_neg hrefused] at hparameter
    rw [hsome]
    refine ⟨fun param ↦ ?_, agreed_evRcr⟩
    rw [hparameter, parameter_classifyConfreq]

theorem settles_evRcr_ipcp (p : Peer) (id : Octet) (opts : List Octet) :
    Settles p (evRcr p .ipcp id opts) where
  parameter := by
    rw [parameter_evRcr, parameter_classifyConfreq_ipcp, ite_self]
  agreed := (moves_evRcr p .ipcp id opts).agreed

theorem settles_applyNak (p : Peer) (proto : Control) (opts : List Octet) :
    Settles p (applyNak p proto opts) := by
  refine .of_layers ?_ (layers_applyNak p proto opts)
  unfold applyNak
  generalize splitOptions opts.length opts = options
  induction options generalizing p with
  | nil => rfl
  | cons option rest ih =>
    rw [List.foldl_cons, ih]
    cases proto <;> simp only <;> split <;> rfl

theorem settles_applyRej (p : Peer) (proto : Control) (opts : List Octet) :
    Settles p (applyRej p proto opts) := by
  refine .of_layers ?_ (layers_applyRej p proto opts)
  unfold applyRej
  generalize splitOptions opts.length opts = options
  induction options generalizing p with
  | nil => rfl
  | cons option rest ih =>
    rw [List.foldl_cons, ih]
    cases proto <;> simp only <;> split_ifs <;> simp [dropRequest]

theorem settles_cpInput {proto : Control} {packet : List Octet}
    (hrequest : ∀ code id plen data, controlPacket packet = some (code, id, plen, data) →
      code = confReq → proto = .ipcp) : Settles p (cpInput p proto packet) := by
  unfold cpInput
  split
  · exact .refl p
  · rename_i code id plen data hpacket
    split_ifs with hreq hack hnak hid hrej hid htreq htack hrxj
    · obtain rfl := hrequest _ _ _ _ hpacket hreq
      exact settles_evRcr_ipcp p id data
    · exact settles_evRca p proto id
    · exact (settles_applyNak p proto data).trans (settles_evRcn _ proto id)
    · exact settles_evRcn p proto id
    · exact (settles_applyRej p proto data).trans (settles_evRcn _ proto id)
    · exact settles_evRcn p proto id
    · exact settles_evRtr p proto id
    · exact settles_evRta p proto
    · exact settles_evRxj p proto
    · refine .of_layers ?_ (layers_echoRequest p proto id data)
      unfold echoRequest
      split
      · rfl
      · exact parameter_sendCp ..
    · exact .refl p
    · refine .of_layers ?_ (layers_unknownCode p proto packet plen)
      simp only [unknownCode, parameter_sendCp, parameter_setFsm]
      rfl

theorem answers_cpInput (p : Peer) (packet : List Octet) :
    Answers p (p.admits (controlRequest packet)) (cpInput p .lcp packet) := by
  unfold controlRequest
  rcases hpacket : controlPacket packet with _ | ⟨code, id, plen, data⟩
  · rw [admits_none]
    exact settles_cpInput fun _ _ _ _ h ↦ by rw [hpacket] at h; cases h
  · by_cases hcode : code = confReq
    · have hstep : cpInput p .lcp packet = evRcr p .lcp id data := by
        unfold cpInput
        rw [hpacket]
        exact if_pos hcode
      simp only
      rw [hstep, if_pos hcode]
      exact answers_evRcr p id data
    · simp only
      rw [if_neg hcode, admits_none]
      refine settles_cpInput fun _ _ _ _ h hreq ↦ ?_
      rw [hpacket] at h
      cases h
      exact absurd hreq hcode

theorem settles_unknownProtocol (p : Peer) (number : Half) (info : List Octet) :
    Settles p (unknownProtocol p number info) := by
  refine .of_layers ?_ (layers_unknownProtocol p number info)
  unfold unknownProtocol
  simp only
  split
  · rw [parameter_sendCp, parameter_setFsm]
    rfl
  · rfl

theorem settles_ipInput (p : Peer) (info : List Octet) : Settles p (ipInput p info) := by
  unfold ipInput
  simp only
  split
  · exact ⟨rfl, fun h ↦ h⟩
  · exact .of_layers rfl rfl

theorem Answers.of_counted {r : Peer} {request : Option (List Octet)}
    (hparameter : r.parameter = p.parameter) (hlayers : r.layers = p.layers)
    (hmagic : r.ourMagic = p.ourMagic) (h : Answers r request q) : Answers p request q := by
  cases request with
  | none => exact (Settles.of_layers hparameter hlayers).trans h
  | some request =>
    refine ⟨fun param ↦ ?_, fun hanswer hagreed ↦ ?_⟩
    · rw [h.parameter, hmagic, hparameter]
    · rw [← hlayers]
      rw [← isAck_classifyConfreq_congr hmagic] at hanswer
      exact h.agreed hanswer hagreed

theorem answers_dispatch (p : Peer) (number : Half) (info : List Octet) :
    Answers p (p.admits (if number = Control.lcp.number then controlRequest info else none))
      (dispatch p number info) := by
  unfold dispatch
  split_ifs with hlcp hipcp hip
  · exact answers_cpInput p info
  · rw [admits_none]
    exact settles_cpInput fun _ _ _ _ _ _ ↦ rfl
  · rw [admits_none]
    exact settles_ipInput p info
  · rw [admits_none]
    exact settles_unknownProtocol p number info

theorem answers_frameInput (p : Peer) (frame : List Octet) :
    Answers p (p.admits (requestOf frame)) (frameInput p frame) := by
  unfold frameInput requestOf
  cases decodeFrame frame with
  | short | badFcs =>
    simp only
    rw [admits_none]
    exact Settles.of_layers rfl rfl
  | packet number info =>
    let counted := { p with stats := { p.stats with framesIn := p.stats.framesIn + 1 } }
    have hdispatch : Answers counted
        (p.admits (if number = Control.lcp.number then controlRequest info else none))
        (dispatch counted number info) := answers_dispatch counted number info
    exact Answers.of_counted (r := counted) rfl rfl rfl hdispatch

theorem answers_flagInput (p : Peer) :
    Answers p (p.admits (p.completed.bind requestOf)) (flagInput p) := by
  unfold flagInput
  cases p.completed with
  | some frame => exact answers_frameInput p frame
  | none =>
    simp only [Option.bind_none, admits_none]
    split_ifs <;> exact Settles.of_layers rfl rfl

/-- Clearing the reception buffer afterwards makes no difference either. -/
theorem Answers.then_same {r : Peer} {request : Option (List Octet)} (h : Answers p request q)
    (hparameter : r.parameter = q.parameter) (hlayers : r.layers = q.layers) :
    Answers p request r := by
  cases request with
  | none => exact Settles.trans h (.of_layers hparameter hlayers)
  | some request =>
    refine ⟨fun param ↦ ?_, fun hanswer hagreed ↦ ?_⟩
    · rw [hparameter, h.parameter]
    · rw [hlayers] at hagreed
      exact h.agreed hanswer hagreed

theorem answers_inputByte (p : Peer) (octet : Octet) :
    Answers p (reviewed p (.receive octet)) (inputByte p octet) := by
  let counted := { p with stats := { p.stats with rxBytes := p.stats.rxBytes + 1 } }
  unfold reviewed inputByte
  simp only
  by_cases hflag : octet = flag
  · rw [if_pos hflag, if_pos hflag]
    have hframe := answers_flagInput counted
    exact Answers.of_counted (r := counted) rfl rfl rfl (hframe.then_same rfl rfl)
  · rw [if_neg hflag, if_neg hflag]
    split_ifs <;> exact Settles.of_layers rfl rfl

theorem settles_expire (p : Peer) (proto : Control) : Settles p (expire p proto) := by
  unfold expire
  simp only
  split
  · exact settles_restartTimeout p proto
  · exact .refl p

theorem settles_pppTick (p : Peer) (now : Word) : Settles p (pppTick p now) := by
  unfold pppTick
  split
  · exact .refl p
  · have hclock : Settles p { p with nowMs := now } := .of_layers rfl rfl
    exact hclock.trans ((settles_expire _ .lcp).trans (settles_expire _ .ipcp))

theorem settles_pppOpen (p : Peer) : Settles p (pppOpen p) where
  parameter := by
    unfold pppOpen
    split
    · rfl
    · simp only [parameter_scr, parameter_setState, parameter_irc, parameter_setFsm]
      rfl
  agreed := by
    unfold pppOpen
    split
    · exact fun h ↦ h
    · simp

theorem settles_pppClose (p : Peer) : Settles p (pppClose p) where
  parameter := by
    unfold pppClose
    simp only
    split_ifs <;> simp <;> rfl
  agreed := by
    unfold pppClose
    simp only
    split_ifs <;> simp

theorem settles_sendIp (p : Peer) (packet : List Octet) : Settles p (sendIp p packet).2 := by
  refine .of_layers ?_ (layers_sendIp p packet)
  unfold sendIp
  simp only
  split_ifs
  · rfl
  · rfl
  · exact parameter_txFrame ..
  · exact parameter_txFrame p protoIp packet

theorem answers_step (p : Peer) (event : Event) : Answers p (reviewed p event) (step p event) := by
  cases event with
  | receive octet => exact answers_inputByte p octet
  | tick now => exact settles_pppTick p now
  | «open» => exact settles_pppOpen p
  | close => exact settles_pppClose p
  | ipSink installed => exact Settles.of_layers rfl rfl
  | sendIp packet => exact settles_sendIp p packet
  | takeOctet =>
    simp only [step, outputByte]
    split <;> exact Settles.of_layers rfl rfl

/-- The peer and the last request of the guest it acknowledged. -/
structure Link where
  peer : Peer
  acked : Option (List Octet) := none

def Link.step (l : Link) (event : Event) : Link where
  peer := Ppp.step l.peer event
  acked := (acknowledged l.peer event).or l.acked

/-- On an open link the parameters are those of the last acknowledged request. -/
def Link.Agrees (l : Link) : Prop :=
  l.peer.lcp.state = .opened →
    ∃ request, l.acked = some request ∧ ∀ param, l.peer.parameter param = agreed request param

/-- An event that acknowledges no request changes no parameter. -/
def AckLaw (l : Link) (event : Event) (l' : Link) : Prop :=
  acknowledged l.peer event = none → ∀ param, l'.peer.parameter param = l.peer.parameter param

/-- The promise of the negotiation over a run. -/
def Negotiated (cfg : Config) (events : List Event) : Prop :=
  Run.Throughout Link.step Link.Agrees AckLaw ⟨pppInit cfg, none⟩ events

/-- The requests that do not tell the review from a faithful one: an acknowledged request leaves
out only options whose parameters have their defaults, and what is acceptable in any other
request is in force already. -/
def Consistent (l : Link) (event : Event) : Prop :=
  ∀ request ∈ reviewed l.peer event,
    if (classifyConfreq l.peer .lcp request).1.isAck then
      ∀ param, carried request param = none → l.peer.parameter param = param.default
    else
      ∀ param, ∀ value ∈ offered l.peer.ourMagic request param, value = l.peer.parameter param

instance (l : Link) (event : Event) : Decidable (Consistent l event) := by
  unfold Consistent
  infer_instance

/-- The invariant behind `Negotiated`. A link without an acknowledged request has the defaults,
which is what an empty request agrees to. -/
structure Link.Coherent (l : Link) : Prop where
  parameter : ∀ param, l.peer.parameter param = agreed (l.acked.getD []) param
  agreed : l.peer.layers.Agreed → l.acked.isSome

theorem Link.Coherent.agrees {l : Link} (h : l.Coherent) : l.Agrees := by
  intro hopened
  obtain ⟨request, hrequest⟩ := Option.isSome_iff_exists.1 (h.agreed (Or.inr hopened))
  refine ⟨request, hrequest, fun param ↦ ?_⟩
  rw [h.parameter, hrequest]
  rfl

theorem acknowledged_of_reviewed {request : List Octet} (h : reviewed p event = some request) :
    acknowledged p event =
      if (classifyConfreq p .lcp request).1.isAck then some request else none := by
  unfold acknowledged
  rw [h, Option.filter_some]

theorem isAck_iff {answer : Answer} : answer.isAck = true ↔ ∃ resp, answer = .ack resp := by
  cases answer <;> simp [Answer.isAck]

theorem ackLaw_step {l : Link} (hconsistent : Consistent l event) :
    AckLaw l event (l.step event) := by
  intro hnone param
  have hanswers := answers_step l.peer event
  rcases hreviewed : reviewed l.peer event with _ | request
  · rw [hreviewed] at hanswers
    exact congrFun (Settles.parameter hanswers) param
  · rw [hreviewed] at hanswers
    have hreviews : Reviews l.peer request (Ppp.step l.peer event) := hanswers
    have hcondition := hconsistent request hreviewed
    rw [acknowledged_of_reviewed hreviewed] at hnone
    by_cases hanswer : (classifyConfreq l.peer .lcp request).1.isAck = true
    · rw [if_pos hanswer] at hnone
      cases hnone
    · rw [if_neg hanswer] at hcondition
      show (Ppp.step l.peer event).parameter param = l.peer.parameter param
      rw [hreviews.parameter param]
      cases hoffered : offered l.peer.ourMagic request param with
      | some value => exact hcondition param value hoffered
      | none => rfl

/-- Without an acknowledgement LCP gets no closer to Opened. -/
theorem agreed_of_unacknowledged (hnone : acknowledged p event = none)
    (hagreed : (step p event).layers.Agreed) : p.layers.Agreed := by
  have hanswers := answers_step p event
  rcases hreviewed : reviewed p event with _ | request
  · rw [hreviewed] at hanswers
    exact Settles.agreed hanswers hagreed
  · rw [hreviewed] at hanswers
    rw [acknowledged_of_reviewed hreviewed] at hnone
    refine Reviews.agreed hanswers ?_ hagreed
    by_contra hanswer
    rw [if_pos (by simpa using hanswer)] at hnone
    cases hnone

theorem parameter_of_acknowledged {l : Link} {request : List Octet}
    (hconsistent : Consistent l event) (hacked : acknowledged l.peer event = some request)
    (param : Parameter) : (step l.peer event).parameter param = agreed request param := by
  have hanswers := answers_step l.peer event
  obtain ⟨hreviewed, hanswer⟩ := Option.filter_eq_some_iff.1 hacked
  rw [hreviewed] at hanswers
  have hcondition := hconsistent request hreviewed
  rw [if_pos hanswer] at hcondition
  obtain ⟨resp, hresp⟩ := isAck_iff.1 hanswer
  have hparameter := Reviews.parameter hanswers param
  rw [offered_of_ack hresp] at hparameter
  rw [hparameter, agreed]
  cases hcarried : carried request param with
  | some value => rfl
  | none => exact hcondition param hcarried

theorem coherent_step {l : Link} (h : l.Coherent) (hconsistent : Consistent l event) :
    (l.step event).Coherent := by
  have hacked : (l.step event).acked = (acknowledged l.peer event).or l.acked := rfl
  rcases hrequest : acknowledged l.peer event with _ | request
  · rw [hrequest, Option.none_or] at hacked
    refine ⟨fun param ↦ ?_, fun hagreed ↦ ?_⟩
    · rw [hacked, ← h.parameter param]
      exact ackLaw_step hconsistent hrequest param
    · rw [hacked]
      exact h.agreed (agreed_of_unacknowledged hrequest hagreed)
  · rw [hrequest, Option.some_or] at hacked
    refine ⟨fun param ↦ ?_, fun _ ↦ by rw [hacked]; rfl⟩
    rw [hacked]
    exact parameter_of_acknowledged hconsistent hrequest param

theorem coherent_start (cfg : Config) : Link.Coherent ⟨pppInit cfg, none⟩ where
  parameter param := by cases param <;> rfl
  agreed h := by
    rcases h with h | h <;> cases h

/-- Over every run whose requests are consistent the parameters are what was agreed. -/
theorem negotiated_of_consistent (cfg : Config) (events : List Event)
    (hconsistent : Run.Within Link.step Consistent ⟨pppInit cfg, none⟩ events) :
    Negotiated cfg events :=
  Run.throughout_of_within (fun (l : Link) (h : l.Coherent) ↦ h.agrees)
    (fun _ _ h hcondition ↦ coherent_step h hcondition)
    (fun _ _ _ hcondition ↦ ackLaw_step hcondition) (coherent_start cfg) hconsistent

/-- A guest that asks for options in one Configure-Request of LCP. -/
def requestFrame (id : Octet) (opts : List Octet) : List Event :=
  (pppFrame Control.lcp.number ([confReq, id, 0, BitVec.ofNat 8 (opts.length + 4)] ++ opts) 0
    (2 * maxFrame + 2)).map .receive

/-- A link opened with an MRU of 1000 and Protocol-Field-Compression. -/
def opening : List Event :=
  .open :: controlFrame .lcp confAck 1 ++ requestFrame 1 [1, 4, 0x03, 0xe8, 7, 2]

/-- The guest asks for the same again after a timeout of its own. -/
theorem negotiated_repeated : Negotiated configDefault
    (opening ++ requestFrame 2 [7, 2, 1, 4, 0x03, 0xe8]) :=
  negotiated_of_consistent configDefault _ (by decide +kernel)

/-- The guest negotiates the link anew without options: both sides acknowledge, and the peer still
drops packets above the old MRU. -/
theorem not_negotiated_shrunk : ¬∀ (cfg : Config) (events : List Event), Negotiated cfg events := by
  intro h
  have hfinal := (h configDefault (opening ++ requestFrame 2 [] ++ controlFrame .lcp confAck 2)).final
  obtain ⟨request, hrequest, hparameter⟩ := hfinal (by decide +kernel)
  have hempty : (Run.run Link.step ⟨pppInit configDefault, none⟩
      (opening ++ requestFrame 2 [] ++ controlFrame .lcp confAck 2)).acked = some [] := by
    decide +kernel
  obtain rfl := Option.some.inj (hempty.symm.trans hrequest)
  exact absurd (hparameter .mru) (by decide +kernel)

end S5LBox.Ppp
