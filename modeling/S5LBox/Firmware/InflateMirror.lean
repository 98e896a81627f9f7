import S5LBox.Firmware.Inflate

/-!
# Two runs of the inflater

The decoder reads nothing of the state that its callbacks share. When two pairs of callbacks behave
alike, so do the decoders over them, up to the point where the first pair breaks off.
-/

namespace S5LBox.Firmware

open Attempt

variable {ω ω' α β : Type}

/-- The same decoder over another state of the callbacks. -/
def Inflater.over (st : Inflater ω) (world : ω') : Inflater ω' :=
  ⟨world, st.limit, st.produced, st.adlerA, st.adlerB, st.bitbuf, st.bitcnt, st.input, st.inEof,
    st.wpos, st.window, st.lengths, st.lencode, st.distcode, st.clcode, st.output⟩

/-- What the first pair of callbacks does the second does as well and keeps them related, or the
first one breaks off. -/
structure Alike (ep : Endpoints ω) (ep' : Endpoints ω') (R : ω → ω' → Prop)
    (Broken : Stop → ω → Prop) : Prop where
  source : ∀ w w', R w w' → (∀ v data, ep.source w inBuf = (v, some data) →
      ∃ v', ep'.source w' inBuf = (v', some data) ∧ R v v') ∧
    ∀ v, ep.source w inBuf = (v, none) → Broken (.error .read) v
  sink : ∀ w w' data, R w w' →
    (∀ v, ep.sink w data = (v, true) → ∃ v', ep'.sink w' data = (v', true) ∧ R v v') ∧
    ∀ v, ep.sink w data = (v, false) → Broken (.error .sink) v

/-- The second computation ends as the first one does, unless that one breaks off. -/
def Mirrors (R : ω → ω' → Prop) (Broken : Stop → ω → Prop) (p : Inflating ω α)
    (p' : Inflating ω' α) : Prop :=
  ∀ st w', R st.world w' → Ends
    (fun a t ↦ ∃ v', p' (st.over w') = (.ok a, t.over v') ∧ R t.world v')
    (fun e t ↦ Broken e t.world ∨ ∃ v', p' (st.over w') = (.error e, t.over v') ∧ R t.world v') p st

variable {ep : Endpoints ω} {ep' : Endpoints ω'} {R : ω → ω' → Prop} {Broken : Stop → ω → Prop}
  {p : Inflating ω α} {p' : Inflating ω' α}

theorem andThen_of_ok {ε σ : Type} {q : Attempt ε σ α} {f : α → Attempt ε σ β} {a : α} {s t : σ}
    (h : q s = (.ok a, t)) : (q >>= f) s = f a t := by
  change andThen q f s = _
  unfold andThen
  rw [h]

theorem andThen_of_error {ε σ : Type} {q : Attempt ε σ α} {f : α → Attempt ε σ β} {e : ε}
    {s t : σ} (h : q s = (.error e, t)) : (q >>= f) s = (.error e, t) := by
  change andThen q f s = _
  unfold andThen
  rw [h]

theorem mirrors_pure (a : α) : Mirrors R Broken (pure a) (pure a) := by
  intro st w' hworld
  exact ends_pure.2 ⟨w', rfl, hworld⟩

theorem mirrors_refuse (e : Stop) : Mirrors R Broken (refuse e : Inflating ω α) (refuse e) := by
  intro st w' hworld
  exact ends_refuse.2 (.inr ⟨w', rfl, hworld⟩)

theorem mirrors_require (condition : Prop) [Decidable condition] (e : Stop) :
    Mirrors R Broken (require condition e) (require condition e) := by
  unfold require
  split
  · exact mirrors_pure ()
  · exact mirrors_refuse e

theorem mirrors_expect (value : Option α) (e : Stop) :
    Mirrors R Broken (expect value e) (expect value e) := by
  cases value with
  | none => exact mirrors_refuse e
  | some a => exact mirrors_pure a

theorem mirrors_modify {f : Inflater ω → Inflater ω} {f' : Inflater ω' → Inflater ω'}
    (hworld : ∀ st, (f st).world = st.world) (h : ∀ st w', f' (st.over w') = (f st).over w') :
    Mirrors R Broken (modify f) (modify f') := by
  intro st w' hrel
  refine ends_modify.2 ⟨w', ?_, ?_⟩
  · rw [← h]
    rfl
  · rw [hworld]
    exact hrel

theorem Mirrors.bind {f : α → Inflating ω β} {f' : α → Inflating ω' β}
    (h : Mirrors R Broken p p') (next : ∀ a, Mirrors R Broken (f a) (f' a)) :
    Mirrors R Broken (p >>= f) (p' >>= f') := by
  intro st w' hrel
  apply ends_bind.2
  apply (h st w' hrel).mono
  · rintro a t ⟨v', hfirst, hworld⟩
    apply (next a t v' hworld).mono
    · rintro b u ⟨z', hsecond, hworld'⟩
      exact ⟨z', (andThen_of_ok hfirst).trans hsecond, hworld'⟩
    · rintro e u (hbroken | ⟨z', hsecond, hworld'⟩)
      · exact .inl hbroken
      · exact .inr ⟨z', (andThen_of_ok hfirst).trans hsecond, hworld'⟩
  · rintro e t (hbroken | ⟨v', hfirst, hworld⟩)
    · exact .inl hbroken
    · exact .inr ⟨v', andThen_of_error hfirst, hworld⟩

theorem Mirrors.seq {q : Inflating ω β} {q' : Inflating ω' β} (h : Mirrors R Broken p p')
    (next : Mirrors R Broken q q') :
    Mirrors R Broken (p >>= fun _ ↦ q) (p' >>= fun _ ↦ q') := h.bind fun _ ↦ next

theorem mirrors_get {f : Inflater ω → Inflating ω α} {f' : Inflater ω' → Inflating ω' α}
    (h : ∀ st w', Mirrors R Broken (f st) (f' (st.over w'))) :
    Mirrors R Broken (get >>= f) (get >>= f') := by
  intro st w' hrel
  rw [ends_bind, ends_get]
  exact h st w' st w' hrel

-- Unfolding it would run both computations.
attribute [irreducible] Mirrors

section

variable (hep : Alike ep ep' R Broken)

include hep

theorem windowFlush_mirrors : Mirrors R Broken (windowFlush ep) (windowFlush ep') := by
  unfold Mirrors
  intro st w' hrel
  rw [ends_iff]
  unfold windowFlush Inflater.over
  dsimp only
  split
  case isTrue =>
    constructor
    · intro a t hrun
      obtain ⟨-, rfl⟩ := Prod.mk.inj hrun
      exact ⟨w', rfl, hrel⟩
    · intro e t hrun
      cases (Prod.mk.inj hrun).1
  case isFalse =>
    cases hslice : st.window.slice 0 st.wpos with
    | none =>
      constructor
      · intro a t hrun
        cases (Prod.mk.inj hrun).1
      · intro e t hrun
        obtain ⟨he, rfl⟩ := Prod.mk.inj hrun
        cases he
        exact .inr ⟨w', rfl, hrel⟩
    | some data =>
      obtain ⟨htaken, hrefused⟩ := hep.sink st.world w' data hrel
      dsimp only
      rcases hsink : ep.sink st.world data with ⟨v, _ | _⟩
      · constructor
        · intro a t hrun
          cases (Prod.mk.inj hrun).1
        · intro e t hrun
          obtain ⟨he, rfl⟩ := Prod.mk.inj hrun
          cases he
          exact .inl (hrefused v hsink)
      · obtain ⟨v', hsink', hrel'⟩ := htaken v hsink
        rw [hsink']
        constructor
        · intro a t hrun
          obtain ⟨-, rfl⟩ := Prod.mk.inj hrun
          exact ⟨v', rfl, hrel'⟩
        · intro e t hrun
          cases (Prod.mk.inj hrun).1

theorem flushWhenFull_mirrors : Mirrors R Broken (flushWhenFull ep) (flushWhenFull ep') := by
  apply mirrors_get
  intro st w'
  change Mirrors R Broken (if st.wpos = windowSize then _ else _)
    (if st.wpos = windowSize then _ else _)
  split
  · exact windowFlush_mirrors hep
  · exact mirrors_pure ()

omit hep in
theorem emitted_mirrors (window : Buffer Octet windowSize) (data : List Octet) :
    Mirrors R Broken (modify fun st ↦ st.emitted window data)
      (modify fun st ↦ st.emitted window data) :=
  mirrors_modify (fun _ ↦ rfl) fun _ _ ↦ rfl

theorem emitByte_mirrors (octet : Octet) :
    Mirrors R Broken (emitByte ep octet) (emitByte ep' octet) := by
  apply mirrors_get
  intro st w'
  apply (mirrors_require _ _).seq
  apply (mirrors_expect _ _).bind
  intro window
  exact (emitted_mirrors window [octet]).seq (flushWhenFull_mirrors hep)

theorem emitRun_mirrors (turns : ℕ) (data : List Octet) :
    Mirrors R Broken (emitRun ep turns data) (emitRun ep' turns data) := by
  induction turns generalizing data with
  | zero => exact mirrors_require _ _
  | succ turns ih =>
    unfold emitRun
    split
    · exact mirrors_pure ()
    · apply mirrors_get
      intro st w'
      apply (mirrors_require _ _).seq
      apply (mirrors_expect _ _).bind
      intro window
      exact (emitted_mirrors window _).seq ((flushWhenFull_mirrors hep).seq (ih _))

theorem copyLoop_mirrors (length start : ℕ) :
    Mirrors R Broken (copyLoop ep length start) (copyLoop ep' length start) := by
  induction length generalizing start with
  | zero => exact mirrors_pure ()
  | succ length ih =>
    apply mirrors_get
    intro st w'
    apply (mirrors_expect _ _).bind
    intro octet
    exact (emitByte_mirrors hep octet).seq (ih _)

theorem emitMatch_mirrors (length distance : ℕ) :
    Mirrors R Broken (emitMatch ep length distance) (emitMatch ep' length distance) := by
  apply mirrors_get
  intro st w'
  exact (mirrors_require _ _).seq (copyLoop_mirrors hep _ _)

theorem nextByte_mirrors : Mirrors R Broken (nextByte ep) (nextByte ep') := by
  unfold Mirrors
  intro st w' hrel
  rw [ends_iff]
  unfold nextByte Inflater.over
  dsimp only
  cases hinput : st.input with
  | cons octet rest =>
    constructor
    · intro a t hrun
      obtain ⟨ha, rfl⟩ := Prod.mk.inj hrun
      cases ha
      exact ⟨w', rfl, hrel⟩
    · intro e t hrun
      cases (Prod.mk.inj hrun).1
  | nil =>
    dsimp only
    split
    case isTrue =>
      constructor
      · intro a t hrun
        cases (Prod.mk.inj hrun).1
      · intro e t hrun
        obtain ⟨he, rfl⟩ := Prod.mk.inj hrun
        cases he
        exact .inr ⟨w', by rw [hinput], hrel⟩
    case isFalse =>
      obtain ⟨hgiven, hfailed⟩ := hep.source st.world w' hrel
      rcases hsource : ep.source st.world inBuf with ⟨v, _ | data⟩
      · constructor
        · intro a t hrun
          cases (Prod.mk.inj hrun).1
        · intro e t hrun
          obtain ⟨he, rfl⟩ := Prod.mk.inj hrun
          cases he
          exact .inl (hfailed v hsource)
      · obtain ⟨v', hsource', hrel'⟩ := hgiven v data hsource
        rw [hsource']
        dsimp only
        split
        · constructor
          · intro a t hrun
            cases (Prod.mk.inj hrun).1
          · intro e t hrun
            obtain ⟨he, rfl⟩ := Prod.mk.inj hrun
            cases he
            exact .inr ⟨v', rfl, hrel'⟩
        · cases data with
          | nil =>
            constructor
            · intro a t hrun
              cases (Prod.mk.inj hrun).1
            · intro e t hrun
              obtain ⟨he, rfl⟩ := Prod.mk.inj hrun
              cases he
              exact .inr ⟨v', rfl, hrel'⟩
          | cons octet rest =>
            constructor
            · intro a t hrun
              obtain ⟨ha, rfl⟩ := Prod.mk.inj hrun
              cases ha
              exact ⟨v', rfl, hrel'⟩
            · intro e t hrun
              cases (Prod.mk.inj hrun).1

theorem needBitsLoop_mirrors (n turns : ℕ) :
    Mirrors R Broken (needBitsLoop ep n turns) (needBitsLoop ep' n turns) := by
  induction turns with
  | zero => exact mirrors_pure ()
  | succ turns ih =>
    apply mirrors_get
    intro st w'
    change Mirrors R Broken (if n ≤ st.bitcnt then _ else _) (if n ≤ st.bitcnt then _ else _)
    split
    · exact mirrors_pure ()
    · apply (nextByte_mirrors hep).bind
      intro octet
      refine Mirrors.seq ?_ ih
      exact mirrors_modify (fun _ ↦ rfl) fun _ _ ↦ rfl

omit hep in
theorem takeBits_mirrors (n : ℕ) :
    Mirrors R Broken (takeBits n : Inflating ω Word) (takeBits n) := by
  unfold Mirrors
  intro st w' hrel
  rw [ends_iff]
  constructor
  · intro a t hrun
    obtain ⟨ha, rfl⟩ := Prod.mk.inj hrun
    cases ha
    exact ⟨w', rfl, hrel⟩
  · intro e t hrun
    cases (Prod.mk.inj hrun).1

theorem getBits_mirrors (n : ℕ) : Mirrors R Broken (getBits ep n) (getBits ep' n) :=
  (needBitsLoop_mirrors hep n n).seq (takeBits_mirrors n)

omit hep in
theorem alignToByte_mirrors : Mirrors R Broken (alignToByte : Inflating ω Unit) alignToByte := by
  apply mirrors_get
  intro st w'
  exact (takeBits_mirrors _).bind fun _ ↦ mirrors_pure ()

theorem alignedByte_mirrors : Mirrors R Broken (alignedByte ep) (alignedByte ep') := by
  apply mirrors_get
  intro st w'
  change Mirrors R Broken (if 8 ≤ st.bitcnt then _ else _) (if 8 ≤ st.bitcnt then _ else _)
  split
  · exact (takeBits_mirrors 8).bind fun _ ↦ mirrors_pure _
  · exact nextByte_mirrors hep

theorem decodeLoop_mirrors (h : Huff) (turns len code first index : ℕ) :
    Mirrors R Broken (decodeLoop ep h turns len code first index)
      (decodeLoop ep' h turns len code first index) := by
  induction turns generalizing len code first index with
  | zero => exact mirrors_refuse _
  | succ turns ih =>
    apply (needBitsLoop_mirrors hep 1 1).seq
    apply (takeBits_mirrors 1).bind
    intro bit
    dsimp only
    split
    · exact mirrors_expect _ _
    · exact ih _ _ _ _

theorem huffDecode_mirrors (h : Huff) : Mirrors R Broken (huffDecode ep h) (huffDecode ep' h) := by
  unfold huffDecode
  split
  · exact mirrors_refuse _
  · exact decodeLoop_mirrors hep h _ _ _ _ _

omit hep in
theorem setLengths_mirrors (start : ℕ) (lengths : List ℕ) :
    Mirrors R Broken (setLengths start lengths : Inflating ω Unit) (setLengths start lengths) := by
  apply mirrors_get
  intro st w'
  apply (mirrors_expect _ _).bind
  intro table
  exact mirrors_modify (fun _ ↦ rfl) fun _ _ ↦ rfl

omit hep in
theorem buildCode_mirrors {old : Inflater ω → Huff} {old' : Inflater ω' → Huff}
    (hold : ∀ st w', old' (st.over w') = old st) (start n : ℕ) (allowIncomplete : Bool) :
    Mirrors R Broken (buildCode old start n allowIncomplete)
      (buildCode old' start n allowIncomplete) := by
  apply mirrors_get
  intro st w'
  apply (mirrors_expect _ _).bind
  intro lengths
  rw [hold]
  cases huffBuild (old st).symbol lengths allowIncomplete with
  | error e => exact mirrors_refuse e
  | ok h => exact mirrors_pure h

omit hep in
theorem buildLencode_mirrors (n : ℕ) :
    Mirrors R Broken (buildLencode n : Inflating ω Unit) (buildLencode n) :=
  (buildCode_mirrors (fun _ _ ↦ rfl) 0 n false).bind fun _ ↦
    mirrors_modify (fun _ ↦ rfl) fun _ _ ↦ rfl

omit hep in
theorem buildDistcode_mirrors (start n : ℕ) (allowIncomplete : Bool) :
    Mirrors R Broken (buildDistcode start n allowIncomplete : Inflating ω Unit)
      (buildDistcode start n allowIncomplete) :=
  (buildCode_mirrors (fun _ _ ↦ rfl) start n allowIncomplete).bind fun _ ↦
    mirrors_modify (fun _ ↦ rfl) fun _ _ ↦ rfl

omit hep in
theorem buildClcode_mirrors : Mirrors R Broken (buildClcode : Inflating ω Unit) buildClcode :=
  (buildCode_mirrors (fun _ _ ↦ rfl) 0 maxClen false).bind fun _ ↦
    mirrors_modify (fun _ ↦ rfl) fun _ _ ↦ rfl

omit hep in
theorem buildFixed_mirrors : Mirrors R Broken (buildFixed : Inflating ω Unit) buildFixed :=
  (setLengths_mirrors 0 _).seq ((buildLencode_mirrors 288).seq
    ((setLengths_mirrors 0 _).seq (buildDistcode_mirrors 0 32 false)))

theorem readClens_mirrors (symbols : List ℕ) :
    Mirrors R Broken (readClens ep symbols) (readClens ep' symbols) := by
  induction symbols with
  | nil => exact mirrors_pure ()
  | cons symbol rest ih =>
    apply (getBits_mirrors hep 3).bind
    intro v
    exact (setLengths_mirrors symbol _).seq ih

theorem readRepeat_mirrors (i sym : ℕ) :
    Mirrors R Broken (readRepeat ep i sym) (readRepeat ep' i sym) := by
  unfold readRepeat
  split
  · apply (mirrors_require _ _).seq
    apply mirrors_get
    intro st w'
    apply (mirrors_expect _ _).bind
    intro value
    exact (getBits_mirrors hep 2).bind fun _ ↦ mirrors_pure _
  · split
    · exact (getBits_mirrors hep 3).bind fun _ ↦ mirrors_pure _
    · exact (getBits_mirrors hep 7).bind fun _ ↦ mirrors_pure _

theorem readLengths_mirrors (total turns i : ℕ) :
    Mirrors R Broken (readLengths ep total turns i) (readLengths ep' total turns i) := by
  induction turns generalizing i with
  | zero => exact mirrors_require _ _
  | succ turns ih =>
    unfold readLengths
    split
    · exact mirrors_pure ()
    · apply mirrors_get
      intro st w'
      apply (huffDecode_mirrors hep st.clcode).bind
      intro sym
      split
      · exact (setLengths_mirrors i _).seq (ih _)
      · apply (readRepeat_mirrors hep i sym).bind
        intro run
        exact (mirrors_require _ _).seq ((setLengths_mirrors i _).seq (ih _))

theorem readDynamic_mirrors : Mirrors R Broken (readDynamic ep) (readDynamic ep') := by
  apply (getBits_mirrors hep 5).bind
  intro hlit
  apply (getBits_mirrors hep 5).bind
  intro hdist
  apply (getBits_mirrors hep 4).bind
  intro hclen
  exact (mirrors_require _ _).seq ((setLengths_mirrors 0 _).seq ((readClens_mirrors hep _).seq
    (buildClcode_mirrors.seq ((readLengths_mirrors hep _ _ _).seq
      ((buildLencode_mirrors _).seq (buildDistcode_mirrors _ _ true))))))

theorem storedBits_mirrors (remaining : ℕ) :
    Mirrors R Broken (storedBits ep remaining) (storedBits ep' remaining) := by
  induction remaining with
  | zero => exact mirrors_pure 0
  | succ remaining ih =>
    apply mirrors_get
    intro st w'
    change Mirrors R Broken (if 8 ≤ st.bitcnt then _ else _) (if 8 ≤ st.bitcnt then _ else _)
    split
    · apply (takeBits_mirrors 8).bind
      intro bits
      exact (emitByte_mirrors hep _).seq ih
    · exact mirrors_pure _

theorem storedBytes_mirrors (turns remaining : ℕ) :
    Mirrors R Broken (storedBytes ep turns remaining) (storedBytes ep' turns remaining) := by
  induction turns generalizing remaining with
  | zero => exact mirrors_require _ _
  | succ turns ih =>
    unfold storedBytes
    split
    · exact mirrors_pure ()
    · apply mirrors_get
      intro st w'
      change Mirrors R Broken (if st.input = [] then _ else _) (if st.input = [] then _ else _)
      split
      · apply (nextByte_mirrors hep).bind
        intro octet
        exact (emitByte_mirrors hep octet).seq (ih _)
      · apply (emitRun_mirrors hep _ _).seq
        refine Mirrors.seq ?_ (ih _)
        exact mirrors_modify (fun _ ↦ rfl) fun _ _ ↦ rfl

theorem storedBlock_mirrors : Mirrors R Broken (storedBlock ep) (storedBlock ep') := by
  apply alignToByte_mirrors.seq
  apply (getBits_mirrors hep 16).bind
  intro len
  apply (getBits_mirrors hep 16).bind
  intro nlen
  apply (mirrors_require _ _).seq
  apply (storedBits_mirrors hep _).bind
  intro remaining
  exact storedBytes_mirrors hep remaining remaining

theorem readExtra_mirrors (base extra : List ℕ) (sym : ℕ) :
    Mirrors R Broken (readExtra ep base extra sym) (readExtra ep' base extra sym) :=
  (getBits_mirrors hep _).bind fun _ ↦ mirrors_pure _

theorem codedBlock_mirrors (fuel : ℕ) :
    Mirrors R Broken (codedBlock ep fuel) (codedBlock ep' fuel) := by
  induction fuel with
  | zero => exact mirrors_refuse _
  | succ fuel ih =>
    apply mirrors_get
    intro st w'
    apply (huffDecode_mirrors hep st.lencode).bind
    intro sym
    split
    · exact (emitByte_mirrors hep _).seq ih
    · split
      · exact mirrors_pure ()
      · apply (mirrors_require _ _).seq
        apply (readExtra_mirrors hep _ _ _).bind
        intro length
        apply mirrors_get
        intro st w'
        apply (huffDecode_mirrors hep st.distcode).bind
        intro dsym
        apply (mirrors_require _ _).seq
        apply (readExtra_mirrors hep _ _ _).bind
        intro distance
        exact (emitMatch_mirrors hep length distance).seq ih

theorem inflateBlock_mirrors (fuel kind : ℕ) :
    Mirrors R Broken (inflateBlock ep fuel kind) (inflateBlock ep' fuel kind) := by
  unfold inflateBlock
  split
  · exact storedBlock_mirrors hep
  · exact buildFixed_mirrors.seq (codedBlock_mirrors hep fuel)
  · exact (readDynamic_mirrors hep).seq (codedBlock_mirrors hep fuel)
  · exact mirrors_refuse _

theorem inflateBlocks_mirrors (fuel : ℕ) :
    Mirrors R Broken (inflateBlocks ep fuel) (inflateBlocks ep' fuel) := by
  induction fuel with
  | zero => exact mirrors_refuse _
  | succ fuel ih =>
    apply (getBits_mirrors hep 1).bind
    intro final
    apply (getBits_mirrors hep 2).bind
    intro kind
    apply (inflateBlock_mirrors hep fuel _).seq
    split
    · exact mirrors_pure ()
    · exact ih

theorem zlibHeader_mirrors : Mirrors R Broken (zlibHeader ep) (zlibHeader ep') := by
  apply (nextByte_mirrors hep).bind
  intro cmf
  apply (nextByte_mirrors hep).bind
  intro flg
  exact mirrors_require _ _

theorem readTrailer_mirrors (turns : ℕ) (want : Word) :
    Mirrors R Broken (readTrailer ep turns want) (readTrailer ep' turns want) := by
  induction turns generalizing want with
  | zero => exact mirrors_pure want
  | succ turns ih =>
    apply (alignedByte_mirrors hep).bind
    intro octet
    exact ih _

theorem zlibTrailer_mirrors : Mirrors R Broken (zlibTrailer ep) (zlibTrailer ep') := by
  apply alignToByte_mirrors.seq
  apply (readTrailer_mirrors hep 4 0).bind
  intro want
  apply mirrors_get
  intro st w'
  exact mirrors_require _ _

omit hep in
theorem wrapped_mirrors (zlibWrapped : Bool) {p : Inflating ω Unit} {p' : Inflating ω' Unit}
    (h : Mirrors R Broken p p') :
    Mirrors R Broken (wrapped zlibWrapped p) (wrapped zlibWrapped p') := by
  unfold wrapped
  split
  · exact h
  · exact mirrors_pure ()

theorem inflateRun_mirrors (fuel : ℕ) (zlibWrapped : Bool) :
    Mirrors R Broken (inflateRun ep fuel zlibWrapped) (inflateRun ep' fuel zlibWrapped) := by
  apply (wrapped_mirrors zlibWrapped (zlibHeader_mirrors hep)).seq
  apply (inflateBlocks_mirrors hep fuel).seq
  apply (windowFlush_mirrors hep).seq
  apply (wrapped_mirrors zlibWrapped (zlibTrailer_mirrors hep)).seq
  apply mirrors_get
  intro st w'
  exact mirrors_require _ _

end

/-- The decoder over the second pair of callbacks ends as the one over the first, unless that one
breaks off. -/
theorem inflateEntry_mirrors (hep : Alike ep ep' R Broken) (fuel : ℕ) (expectOut : DWord)
    (zlibWrapped : Bool) {world : ω} {world' : ω'} (hrel : R world world') :
    (∀ t, inflateEntry ep fuel world expectOut zlibWrapped = (.ok (), t) →
      ∃ v', inflateEntry ep' fuel world' expectOut zlibWrapped = (.ok (), t.over v') ∧
        R t.world v') ∧
    ∀ e t, inflateEntry ep fuel world expectOut zlibWrapped = (.error e, t) → Broken e t.world ∨
        ∃ v', inflateEntry ep' fuel world' expectOut zlibWrapped = (.error e, t.over v') ∧
          R t.world v' := by
  have hrun := inflateRun_mirrors hep fuel zlibWrapped
  unfold Mirrors at hrun
  have hends := hrun (.start world expectOut) world' hrel
  rw [ends_iff] at hends
  exact ⟨fun t ↦ hends.1 () t, hends.2⟩

end S5LBox.Firmware
