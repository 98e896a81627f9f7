import S5LBox.Arm.Execution
import S5LBox.Arm.StaticEngine

/-!
# The signed engine never runs stale code

An entry of the cache is sound when its block is the decoding of its own witness, or when
decoding refuses the one instruction it remembers. Every operation of the engine keeps that,
whatever the guest and the host do in between, and a witness that still matches memory carries
it over to the octets a block is about to run from.
-/

namespace S5LBox.Arm

open List S5LBox.Soc Nat
open BitVec (ofNat toNat_add toNat_ofNat)

variable {σ : Type} {decoder : InsnDecoder} {bus : Bus σ} {runner : Runner σ}
  {features : Features} {bytes : ℕ → Octet} {thumb priv : Bool} {pc : Word} {block : Block}
  {m : S5l8900 σ} {state : StaticState}

variable {count insns : ℕ} {entry : StaticEntry} {h : Caches} {host : HostPtr}

theorem decodeAllowed_fields
    (h : decodeAllowed decoder features bytes count thumb pc = some block) :
    block.insnCount = count ∧ 0 < count ∧ count ≤ a64StaticMaxInsns := by
  have hfields := decodeMemoryHits_fields (Option.filter_eq_some_iff.mp h).1
  exact ⟨hfields.1, hfields.2.2.2⟩

theorem decodeAllowed_congr {bytes' : ℕ → Octet}
    (h : ∀ i < count * insnWidth thumb, bytes i = bytes' i) :
    decodeAllowed decoder features bytes count thumb pc =
      decodeAllowed decoder features bytes' count thumb pc := by
  rw [decodeAllowed, decodeAllowed, decodeMemoryHits_congr h]

theorem decodeLongest_some (h : decodeLongest decoder features bytes thumb pc count = some block) :
    decodeAllowed decoder features bytes block.insnCount thumb pc = some block ∧
      block.insnCount ≤ count := by
  induction count with
  | zero => contradiction
  | succ count ih =>
    rw [decodeLongest] at h
    cases hfirst : decodeAllowed decoder features bytes (count + 1) thumb pc with
    | some out =>
      rw [hfirst, Option.some.injEq] at h
      subst h
      rw [(decodeAllowed_fields hfirst).1]
      exact ⟨hfirst, le_rfl⟩
    | none =>
      rw [hfirst] at h
      obtain ⟨hdecoded, hle⟩ := ih h
      exact ⟨hdecoded, le_succ_of_le hle⟩

/-- Where nothing decodes, the first instruction alone does not. -/
theorem decodeLongest_none (hcount : 0 < count)
    (h : decodeLongest decoder features bytes thumb pc count = none) :
    decodeAllowed decoder features bytes 1 thumb pc = none := by
  induction count with
  | zero => contradiction
  | succ count ih =>
    rw [decodeLongest] at h
    cases hfirst : decodeAllowed decoder features bytes (count + 1) thumb pc with
    | some out => simp [hfirst] at h
    | none =>
      rw [hfirst] at h
      rcases Nat.eq_zero_or_pos count with rfl | hpos
      · exact hfirst
      · exact ih hpos h

/-- The octets of a witness. -/
def octets (raw : List Octet) : ℕ → Octet := fun i ↦ raw.getD i 0

theorem octets_of_witnessed {raw : List Octet} (h : witnessed raw bytes = true) :
    ∀ i < raw.length, octets raw i = bytes i := by
  intro i hi
  have hraw : raw = (List.range raw.length).map bytes := by simpa [witnessed] using h
  rw [octets, hraw]
  simp [List.getD, hi]

theorem octets_map_range (length : ℕ) :
    ∀ i < length, octets ((List.range length).map bytes) i = bytes i := by
  intro i hi
  simp [octets, List.getD, hi]

/-- What a valid entry says about its own witness. -/
structure EntrySound (decoder : InsnDecoder) (features : Features) (entry : StaticEntry) : Prop where
  decodes : entry.valid = true → entry.supported = true →
    decodeAllowed decoder features (octets entry.raw) entry.block.insnCount entry.thumb entry.pc =
        some entry.block ∧
      entry.raw.length = entry.block.insnCount * insnWidth entry.thumb
  refuses : entry.valid = true → entry.supported = false →
    decodeAllowed decoder features (octets entry.raw) 1 entry.thumb entry.pc = none ∧
      entry.raw.length = insnWidth entry.thumb

theorem entrySound_invalid (h : entry.valid = false) : EntrySound decoder features entry where
  decodes := by simp [h]
  refuses := by simp [h]

/-- A block that may run from here on: it decodes from the octets in memory and stays within the
instructions asked for. -/
def Decodes (decoder : InsnDecoder) (features : Features) (bytes : ℕ → Octet) (thumb : Bool)
    (pc : Word) (insns : ℕ) (block : Block) : Prop :=
  decodeAllowed decoder features bytes block.insnCount thumb pc = some block ∧
    block.insnCount ≤ insns

theorem insnWidth_pos (thumb : Bool) : 0 < insnWidth thumb := by cases thumb <;> decide

theorem decodeEntry_sound (hinsns : 0 < insns) : EntrySound decoder features
      (decodeEntry decoder features h bytes pc thumb priv insns (insns * insnWidth thumb)) := by
  cases hlongest : decodeLongest decoder features bytes thumb pc insns with
  | some block =>
    obtain ⟨hdecoded, hle⟩ := decodeLongest_some hlongest
    have hfits : ¬insns * insnWidth thumb < block.insnCount * insnWidth thumb :=
      Nat.not_lt.mpr (Nat.mul_le_mul_right _ hle)
    constructor
    · intro _ _
      simp only [decodeEntry, hlongest, if_neg hfits]
      rw [decodeAllowed_congr (octets_map_range _)]
      exact ⟨hdecoded, by simp⟩
    · simp [decodeEntry, hlongest, hfits]
  | none =>
    have hfits : ¬insns * insnWidth thumb < insnWidth thumb :=
      Nat.not_lt.mpr (Nat.le_mul_of_pos_left _ hinsns)
    constructor
    · simp [decodeEntry, hlongest, hfits]
    · intro _ _
      simp only [decodeEntry, hlongest, if_neg hfits]
      have hone : ∀ i < 1 * insnWidth thumb,
          octets ((List.range (insnWidth thumb)).map bytes) i = bytes i := by
        rw [one_mul]
        exact octets_map_range _
      rw [decodeAllowed_congr hone]
      exact ⟨decodeLongest_none hinsns hlongest, by simp⟩

theorem decodeEntry_block {available : ℕ}
    (hsupported : (decodeEntry decoder features h bytes pc thumb priv insns available).supported =
      true) :
    Decodes decoder features bytes thumb pc insns
      (decodeEntry decoder features h bytes pc thumb priv insns available).block := by
  cases hlongest : decodeLongest decoder features bytes thumb pc insns with
  | some block =>
    have hblock : (decodeEntry decoder features h bytes pc thumb priv insns available).block =
        block := by
      simp only [decodeEntry, hlongest]
      split <;> rfl
    rw [hblock]
    exact decodeLongest_some hlongest
  | none =>
    simp only [decodeEntry, hlongest] at hsupported
    split at hsupported <;> contradiction

theorem entryMatches_spec {available : ℕ}
    (hmatches : entryMatches entry h bytes pc thumb priv available = true) :
    entry.valid = true ∧ entry.pc = pc ∧ entry.thumb = thumb ∧ entry.raw.length ≤ available ∧
      ∀ i < entry.raw.length, octets entry.raw i = bytes i := by
  simp only [entryMatches, Bool.and_eq_true, decide_eq_true_eq] at hmatches
  exact ⟨hmatches.1.1.1.1.1.1.1.1, hmatches.1.1.1.1.1.1.2, hmatches.1.1.1.2, hmatches.1.2,
    octets_of_witnessed hmatches.2⟩

theorem entry_current (hsound : EntrySound decoder features entry)
    (hmatches : entryMatches entry h bytes pc thumb priv (insns * insnWidth thumb) = true) :
    (entry.supported = true → Decodes decoder features bytes thumb pc insns entry.block) ∧
      (entry.supported = false → decodeAllowed decoder features bytes 1 thumb pc = none) := by
  obtain ⟨hvalid, rfl, rfl, hlength, hbytes⟩ := entryMatches_spec hmatches
  constructor
  · intro hsupported
    obtain ⟨hdecoded, hraw⟩ := hsound.decodes hvalid hsupported
    rw [hraw] at hbytes hlength
    rw [decodeAllowed_congr hbytes] at hdecoded
    exact ⟨hdecoded, Nat.le_of_mul_le_mul_right hlength (insnWidth_pos _)⟩
  · intro hsupported
    obtain ⟨hrefused, hraw⟩ := hsound.refuses hvalid hsupported
    rw [hraw, ← one_mul (insnWidth _)] at hbytes
    rwa [decodeAllowed_congr hbytes] at hrefused

/-- Every entry of the cache is sound for the features in force. -/
def CacheSound (decoder : InsnDecoder) (state : StaticState) : Prop :=
  ∀ index, EntrySound decoder state.features (state.cache index)

theorem CacheSound.setEntry (hsound : CacheSound decoder state) {index : BitVec 10}
    {entry : StaticEntry} (hentry : EntrySound decoder state.features entry) :
    CacheSound decoder (state.setEntry index entry) := by
  intro other
  by_cases hother : other = index
  · subst hother
    simpa [StaticState.setEntry] using hentry
  · simpa [StaticState.setEntry, hother] using hsound other

theorem CacheSound.invalidateEntry (hsound : CacheSound decoder state) (index : BitVec 10) :
    CacheSound decoder (state.invalidateEntry index) :=
  hsound.setEntry (entrySound_invalid rfl)

theorem cacheSound_empty (hcache : state.cache = fun _ ↦ {}) : CacheSound decoder state := by
  intro index
  rw [hcache]
  exact entrySound_invalid rfl

/-- The offset of an address in its fetch block. -/
def blockOffset (pc : Word) : ℕ := (pc - (pc &&& ~~~0x3ff)).toNat

theorem capLoop_spec {hook : PreStep} {width candidate left i : ℕ} (hi : 0 < i)
    (hleft : i + left = candidate) : capLoop hook pc width candidate left i ≤ candidate ∧
      ∀ j, i ≤ j → j < capLoop hook pc width candidate left i →
        hook.targetMatches (pc + ofNat 32 (j * width)) = false := by
  induction left generalizing i with
  | zero =>
    refine ⟨le_rfl, ?_⟩
    intro j hj hlt
    rw [capLoop] at hlt
    omega
  | succ left ih =>
    rw [capLoop]
    by_cases hmatch : hook.targetMatches (pc + ofNat 32 (i * width)) = true
    · rw [if_pos hmatch]
      exact ⟨by omega, fun j hj hlt ↦ absurd hlt (by omega)⟩
    · rw [if_neg hmatch]
      obtain ⟨hle, hfree⟩ := ih (succ_pos i) (by omega)
      refine ⟨hle, ?_⟩
      intro j hj hlt
      rcases Nat.eq_or_lt_of_le hj with rfl | hlater
      · simpa using hmatch
      · exact hfree j hlater hlt

theorem capBeforePreStepTarget_spec {hook : PreStep} {width candidate : ℕ} :
    capBeforePreStepTarget hook pc width candidate ≤ candidate ∧
      ∀ j, 0 < j → j < capBeforePreStepTarget hook pc width candidate →
        hook.targetMatches (pc + ofNat 32 (j * width)) = false := by
  rw [capBeforePreStepTarget]
  rcases Nat.eq_zero_or_pos candidate with rfl | hpos
  · exact ⟨le_rfl, fun j _ hlt ↦ absurd hlt (Nat.not_lt_zero j)⟩
  · exact capLoop_spec Nat.one_pos (by omega)

theorem blockOffset_eq (pc : Word) : blockOffset pc = pc.toNat % 0x400 := by
  rw [blockOffset, sub_block, BitVec.toNat_and]
  exact and_two_pow_sub_one_eq_mod pc.toNat 10

theorem clear_eq_sub (pc : Word) : pc &&& ~~~0x3ff = pc - (pc &&& 0x3ff) := by
  have h := and_clear_add_and pc 0x3ff
  calc pc &&& ~~~0x3ff
      = (pc &&& ~~~0x3ff) + (pc &&& 0x3ff) - (pc &&& 0x3ff) := by rw [BitVec.add_sub_cancel]
    _ = pc - (pc &&& 0x3ff) := by rw [h]

theorem block_step {n : ℕ} (h : blockOffset pc + n < 0x400) :
    (pc + ofNat 32 n) &&& ~~~0x3ff = pc &&& ~~~0x3ff ∧
      blockOffset (pc + ofNat 32 n) = blockOffset pc + n := by
  have hoffset : blockOffset (pc + ofNat 32 n) = blockOffset pc + n := by
    rw [blockOffset_eq] at h
    rw [blockOffset_eq, blockOffset_eq, toNat_add, toNat_ofNat]
    omega
  have hlow : (pc + ofNat 32 n) &&& 0x3ff = (pc &&& 0x3ff) + ofNat 32 n := by
    rw [blockOffset, sub_block, blockOffset, sub_block] at hoffset
    rw [blockOffset, sub_block] at h
    apply BitVec.eq_of_toNat_eq
    rw [hoffset, toNat_add, toNat_ofNat]
    omega
  refine ⟨?_, hoffset⟩
  rw [clear_eq_sub, clear_eq_sub pc, hlow]
  bv_omega

theorem candidateInsns_le : blockOffset pc + candidateInsns thumb pc * insnWidth thumb ≤ 0x400 := by
  have hoffset : blockOffset pc < 0x400 := by
    rw [blockOffset_eq]
    exact mod_lt _ (by decide)
  have hmul : (0x400 - blockOffset pc) / insnWidth thumb * insnWidth thumb ≤
      0x400 - blockOffset pc := div_mul_le_self _ _
  have hmin : candidateInsns thumb pc * insnWidth thumb ≤
      (0x400 - blockOffset pc) / insnWidth thumb * insnWidth thumb :=
    Nat.mul_le_mul_right _ (min_le_left _ _)
  omega

/-- A block as it starts: the features admit it as the decoding of the octets behind the program
counter, the interpreter would fetch those same instructions one by one, none of them is a hook
target and all of them lie in the fetch block. -/
structure Fresh (decoder : InsnDecoder) (bus : Bus σ) (hook : PreStep) (features : Features)
    (start : Started σ) : Prop where
  current : ∃ host, fetchHit start.cpu.caches (start.cpu.core.r 15) start.cpu.core.isPriv =
      some host ∧
    decodeAllowed decoder features (fetchBytes bus start.ctx host (start.cpu.core.r 15))
      start.block.insnCount start.cpu.core.thumb (start.cpu.core.r 15) = some start.block ∧
    ∀ i < start.block.insnCount, ∀ stamp, (busFetch bus stamp
        (start.cpu.core.r 15 + ofNat 32 (i * insnWidth start.cpu.core.thumb))
        start.cpu.core.isPriv start.cpu.core.thumb start.cpu.caches start.ctx).1 =
      .ok (insnAt (fetchBytes bus start.ctx host (start.cpu.core.r 15)) start.cpu.core.thumb i)
  untargeted : ∀ i < start.block.insnCount, hook.targetMatches
    (start.cpu.core.r 15 + ofNat 32 (i * insnWidth start.cpu.core.thumb)) = false
  within : blockOffset (start.cpu.core.r 15) +
    start.block.insnCount * insnWidth start.cpu.core.thumb ≤ 0x400

theorem hostRead_fetchBytes (ctx : σ) (host : HostPtr) (i : ℕ) :
    hostRead bus ctx (host + (blockOffset pc + i * insnWidth thumb)) (fetchWidth thumb).bytes =
      insnAt (fetchBytes bus ctx host pc) thumb i := by
  cases thumb with
  | true =>
    simp only [fetchWidth, Width.bytes, insnWidth, insnAt, if_true, hostRead, readLe16, fetchBytes,
      blockOffset, Nat.add_assoc]
    ext j hj
    simp
    grind
  | false =>
    simp only [fetchWidth, Width.bytes, insnWidth, insnAt, Bool.false_eq_true, if_false, hostRead,
      readLe32, fetchBytes, blockOffset, Nat.add_assoc]
    simp

theorem busFetch_within (hhit : fetchHit h pc priv = some host) {i : ℕ}
    (hi : blockOffset pc + i * insnWidth thumb < 0x400) (stamp : TlbStamp) (ctx : σ) :
    (busFetch bus stamp (pc + ofNat 32 (i * insnWidth thumb)) priv thumb h ctx).1 =
      .ok (insnAt (fetchBytes bus ctx host pc) thumb i) := by
  obtain ⟨hblock, hoffset⟩ := block_step hi
  have hsame : fetchHit h (pc + ofNat 32 (i * insnWidth thumb)) priv = some host := by
    rw [fetchHit, hblock]
    exact hhit
  rw [busFetch, hsame]
  rw [blockOffset] at hoffset
  simp only [hoffset]
  rw [hostRead_fetchBytes]

theorem headHost_some (h : headHost m pc = some host) : m.preStep.targetMatches pc = false ∧
      fetchHit m.cpu.caches pc m.cpu.core.isPriv = some host := by
  rw [headHost] at h
  by_cases hstop : (!mayRun m.cpu.core || !insnAligned m.cpu.core.thumb pc ||
      m.preStep.targetMatches pc) = true
  · rw [if_pos hstop] at h
    contradiction
  · rw [if_neg hstop] at h
    simp only [Bool.or_eq_true, not_or, Bool.not_eq_true] at hstop
    exact ⟨hstop.2, h⟩

theorem lookupEntry_spec (hsound : CacheSound decoder state) {host : HostPtr} {insns : ℕ}
    (hinsns : 0 < insns) :
    EntrySound decoder state.features (lookupEntry decoder bus m state host pc insns) ∧
      ((lookupEntry decoder bus m state host pc insns).supported = true →
        Decodes decoder state.features (fetchBytes bus m.ctx host pc) m.cpu.core.thumb pc insns
          (lookupEntry decoder bus m state host pc insns).block) := by
  simp only [lookupEntry]
  split
  · next hmatches => exact ⟨hsound _, (entry_current (hsound _) hmatches).1⟩
  · exact ⟨decodeEntry_sound hinsns, decodeEntry_block⟩

theorem fresh_of_decodes (hhost : headHost m (m.cpu.core.r 15) = some host)
    (hinsns : insns ≤ capBeforePreStepTarget m.preStep (m.cpu.core.r 15)
      (insnWidth m.cpu.core.thumb) (candidateInsns m.cpu.core.thumb (m.cpu.core.r 15)))
    (hdecodes : Decodes decoder features (fetchBytes bus m.ctx host (m.cpu.core.r 15))
      m.cpu.core.thumb (m.cpu.core.r 15) insns block) :
    Fresh decoder bus m.preStep features ⟨m.cpu, m.ctx, block⟩ := by
  obtain ⟨huntargeted, hhit⟩ := headHost_some hhost
  obtain ⟨hdecoded, hle⟩ := hdecodes
  obtain ⟨hcap, hfree⟩ := @capBeforePreStepTarget_spec (m.cpu.core.r 15) m.preStep
    (insnWidth m.cpu.core.thumb) (candidateInsns m.cpu.core.thumb (m.cpu.core.r 15))
  have hcount : block.insnCount ≤ candidateInsns m.cpu.core.thumb (m.cpu.core.r 15) := by omega
  have hwithin : blockOffset (m.cpu.core.r 15) + block.insnCount * insnWidth m.cpu.core.thumb ≤
      0x400 :=
    le_trans (Nat.add_le_add_left (Nat.mul_le_mul_right _ hcount) _) candidateInsns_le
  refine ⟨⟨host, hhit, hdecoded, ?_⟩, ?_, hwithin⟩
  · intro i (hi : i < block.insnCount) stamp
    apply busFetch_within hhit
    change blockOffset (m.cpu.core.r 15) + i * insnWidth m.cpu.core.thumb < 0x400
    have hstep : (i + 1) * insnWidth m.cpu.core.thumb ≤
        block.insnCount * insnWidth m.cpu.core.thumb := Nat.mul_le_mul_right _ hi
    have hpos := insnWidth_pos m.cpu.core.thumb
    rw [Nat.add_mul] at hstep
    omega
  · intro i (hi : i < block.insnCount)
    rcases Nat.eq_zero_or_pos i with rfl | hpos
    · simpa using huntargeted
    · exact hfree i hpos (by omega)

theorem selectBlock_spec (hsound : CacheSound decoder state) {remaining : ℕ} :
    CacheSound decoder (selectBlock decoder bus m state (m.cpu.core.r 15) remaining).2 ∧
      (selectBlock decoder bus m state (m.cpu.core.r 15) remaining).2.features = state.features ∧
      ∀ block, (selectBlock decoder bus m state (m.cpu.core.r 15) remaining).1 = some block →
        Fresh decoder bus m.preStep state.features ⟨m.cpu, m.ctx, block⟩ ∧
          block.insnCount ≤ remaining := by
  cases hhost : headHost m (m.cpu.core.r 15) with
  | none =>
    rw [selectBlock, hhost]
    exact ⟨hsound, rfl, by simp⟩
  | some host =>
    simp only [selectBlock, hhost]
    split
    · simp [hsound]
    · next hinsns =>
      obtain ⟨hentry, hblock⟩ := @lookupEntry_spec σ decoder bus (m.cpu.core.r 15) m state hsound
        host _ (Nat.pos_of_ne_zero hinsns)
      have hset := @CacheSound.setEntry _ _ hsound
        (cacheIndex (m.cpu.core.r 15) m.cpu.core.thumb m.cpu.caches.fetchGen) _ hentry
      split
      · exact ⟨hset, rfl, by simp⟩
      · next hsupported =>
        have hdecodes := hblock (by simpa using hsupported)
        split
        · next hfits =>
          refine ⟨hset, rfl, ?_⟩
          intro block heq
          rw [Option.some.injEq] at heq
          subst heq
          exact ⟨fresh_of_decodes hhost le_rfl hdecodes, hfits⟩
        · next hlong =>
          refine ⟨hset, rfl, ?_⟩
          intro block heq
          have hbounded := decodeLongest_some heq
          have hle := hdecodes.2
          exact ⟨fresh_of_decodes hhost (by omega) hbounded, hbounded.2⟩

/-- What a mode of the engine may leave: a sound cache, and blocks that were fresh when they
started and together fit the instructions it was given. -/
structure RanFresh (decoder : InsnDecoder) (bus : Bus σ) (hook : PreStep) (features : Features)
    (budget : ℕ) (ran : Ran σ) : Prop where
  sound : CacheSound decoder ran.state
  features_eq : ran.state.features = features
  fresh : ∀ start ∈ ran.started, Fresh decoder bus hook features start
  total : (ran.started.map fun start ↦ start.block.insnCount).sum ≤ budget
  retired_le : ran.retired ≤ budget

theorem ranFresh_stop (hsound : CacheSound decoder state) {hook : PreStep} {budget : ℕ} {cpu : Cpu}
    {ctx : σ} : RanFresh decoder bus hook state.features budget ⟨0, cpu, ctx, state, []⟩ where
  sound := hsound
  features_eq := rfl
  fresh := by simp
  total := by simp
  retired_le := Nat.zero_le budget

theorem runMemoryHitsDecoded_le {session : Bool} {completed : ℕ} {guest : Cpu × σ}
    (h : runMemoryHitsDecoded runner m block session = some (completed, guest)) :
    completed ≤ block.insnCount := by
  simp only [runMemoryHitsDecoded] at h
  split at h
  · contradiction
  · split at h
    · contradiction
    · next hresult =>
      simp only [Option.some.injEq, Prod.mk.injEq] at h
      rw [← h.1]
      split <;> omega

theorem plainLoop_fresh (rounds : ℕ) (hsound : CacheSound decoder state) (remaining : ℕ) :
    RanFresh decoder bus m.preStep state.features remaining
      (plainLoop decoder bus runner rounds m state remaining) := by
  induction rounds generalizing m state remaining with
  | zero => exact ranFresh_stop hsound
  | succ rounds ih =>
    obtain ⟨hselected, hfeatures, hblock⟩ :=
      @selectBlock_spec σ decoder bus m state hsound remaining
    rw [plainLoop]
    split
    · exact ranFresh_stop hsound
    · simp only
      generalize selectBlock decoder bus m state (m.cpu.core.r 15) remaining = choice at *
      obtain ⟨selected, next⟩ := choice
      simp only at hselected hfeatures hblock ⊢
      cases selected with
      | none =>
        rw [← hfeatures]
        exact ranFresh_stop hselected
      | some block =>
        obtain ⟨hfresh, hcount⟩ := hblock block rfl
        simp only
        cases hrun : runMemoryHitsDecoded runner m block next.vfpFpSession with
        | none =>
          rw [← hfeatures]
          exact ranFresh_stop (hselected.invalidateEntry _)
        | some outcome =>
          obtain ⟨completed, cpu, ctx⟩ := outcome
          have hle := runMemoryHitsDecoded_le hrun
          simp only
          split
          · exact ⟨hselected, hfeatures, by simpa using hfresh, by simpa using hcount,
              le_trans hle hcount⟩
          · next hfull =>
            have hrest := @ih { m with cpu, ctx } next hselected (remaining - completed)
            rw [hfeatures] at hrest
            refine ⟨hrest.sound, hrest.features_eq, ?_, ?_, ?_⟩
            · intro start hstart
              rcases mem_cons.mp hstart with rfl | hlater
              · exact hfresh
              · exact hrest.fresh start hlater
            · have htotal := hrest.total
              simp only [map_cons, sum_cons]
              omega
            · have hretired := hrest.retired_le
              change completed + _ ≤ remaining
              omega

theorem chainLoop_fresh (rounds : ℕ) (hsound : CacheSound decoder state) {budget completed : ℕ}
    (fetchBlock : Word) (hfresh : Fresh decoder bus m.preStep state.features ⟨m.cpu, m.ctx, block⟩)
    (hcount : completed + block.insnCount ≤ budget) :
    RanFresh decoder bus m.preStep state.features budget
        (chainLoop decoder bus runner budget fetchBlock rounds m state completed block) ∧
      completed + ((chainLoop decoder bus runner budget fetchBlock rounds m state completed
        block).started.map fun start ↦ start.block.insnCount).sum ≤ budget := by
  induction rounds generalizing m state completed block with
  | zero => exact ⟨⟨hsound, rfl, by simp [chainLoop], by simp [chainLoop],
      by simp only [chainLoop]; omega⟩, by simp only [chainLoop, map_nil, sum_nil]; omega⟩
  | succ rounds ih =>
    rw [chainLoop]
    generalize runner state.vfpFpSession block (m.cpu, m.ctx) = outcome
    obtain ⟨result, cpu, ctx⟩ := outcome
    have hstop : ∀ (retired : ℕ) (next : StaticState), retired ≤ budget →
        CacheSound decoder next → next.features = state.features →
        RanFresh decoder bus m.preStep state.features budget
            ⟨retired, cpu, ctx, next, [⟨m.cpu, m.ctx, block⟩]⟩ ∧
          completed + ([(⟨m.cpu, m.ctx, block⟩ : Started σ)].map fun start ↦
            start.block.insnCount).sum ≤ budget := by
      intro retired next hretired hnext hfeatures
      simp only [map_cons, map_nil, sum_cons, sum_nil]
      refine ⟨⟨hnext, hfeatures, ?_, ?_, hretired⟩, by omega⟩
      · simpa using hfresh
      · simp only [map_cons, map_nil, sum_cons, sum_nil]
        omega
    simp only
    split
    · split
      · exact hstop _ _ (by omega) hsound rfl
      · exact hstop _ _ (by omega) hsound rfl
    · split
      · exact hstop _ _ (by omega) hsound rfl
      · split
        · exact hstop _ _ hcount hsound rfl
        · obtain ⟨hselected, hfeatures, hblock⟩ :=
            @selectBlock_spec σ decoder bus { m with cpu, ctx } state hsound
              (budget - (completed + block.insnCount))
          simp only at hselected hfeatures hblock
          generalize selectBlock decoder bus { m with cpu, ctx } state (cpu.core.r 15)
            (budget - (completed + block.insnCount)) = choice at *
          obtain ⟨selected, next⟩ := choice
          simp only at hselected hfeatures hblock ⊢
          cases selected with
          | none => exact hstop _ _ hcount hselected hfeatures
          | some nextBlock =>
            obtain ⟨hnext, hfits⟩ := hblock nextBlock rfl
            simp only
            split
            · exact hstop _ _ hcount hselected hfeatures
            · rw [← hfeatures] at hnext
              obtain ⟨hrest, htotal⟩ := @ih nextBlock { m with cpu, ctx } next hselected
                (completed + block.insnCount) hnext (by omega)
              rw [hfeatures] at hrest
              simp only [map_cons, sum_cons]
              refine ⟨⟨hrest.sound, hrest.features_eq, ?_, ?_, hrest.retired_le⟩, by omega⟩
              · intro start hstart
                rcases mem_cons.mp hstart with rfl | hlater
                · exact hfresh
                · exact hrest.fresh start hlater
              · simp only [map_cons, sum_cons]
                omega

theorem tryPersistent_fresh (hsound : CacheSound decoder state) (budget : ℕ) :
    RanFresh decoder bus m.preStep state.features budget
      (tryPersistent decoder bus runner m state budget) := by
  obtain ⟨hselected, hfeatures, hblock⟩ := @selectBlock_spec σ decoder bus m state hsound budget
  rw [tryPersistent]
  simp only
  generalize selectBlock decoder bus m state (m.cpu.core.r 15) budget = choice at *
  obtain ⟨selected, next⟩ := choice
  simp only at hselected hfeatures hblock ⊢
  have hrefuse := @ranFresh_stop σ decoder bus _
    (hselected.invalidateEntry
      (cacheIndex (m.cpu.core.r 15) m.cpu.core.thumb m.cpu.caches.fetchGen)) m.preStep budget
    m.cpu m.ctx
  change RanFresh decoder bus m.preStep next.features budget _ at hrefuse
  rw [hfeatures] at hrefuse
  cases selected with
  | none =>
    rw [← hfeatures]
    exact ranFresh_stop hselected
  | some first =>
    obtain ⟨hfresh, hcount⟩ := hblock first rfl
    simp only
    split
    · exact hrefuse
    · split
      · exact hrefuse
      · rw [← hfeatures] at hfresh
        have hchain := (@chainLoop_fresh σ decoder bus runner first m next budget hselected budget 0
          (m.cpu.core.r 15 &&& ~~~0x3ff) hfresh (by omega)).1
        rwa [hfeatures] at hchain

/-- The engine of a machine, when it has one, has a sound cache. -/
def EngineSound (decoder : InsnDecoder) (m : S5l8900 σ) : Prop :=
  ∀ state, m.staticState = some state → CacheSound decoder state

/-- Decoding refuses the instruction a machine is about to execute. -/
def RefusesCurrent (decoder : InsnDecoder) (bus : Bus σ) (m : S5l8900 σ) : Prop :=
  ∃ state host, m.staticState = some state ∧
    fetchHit m.cpu.caches (m.cpu.core.r 15) m.cpu.core.isPriv = some host ∧
    decodeAllowed decoder state.features (fetchBytes bus m.ctx host (m.cpu.core.r 15)) 1
      m.cpu.core.thumb (m.cpu.core.r 15) = none

theorem refillFetch_spec (hsound : CacheSound decoder state) :
    CacheSound decoder (refillFetch bus m state).2 ∧
      (refillFetch bus m state).2.features = state.features ∧
      ∀ ready, (refillFetch bus m state).1 = some ready → ready.preStep = m.preStep := by
  have hallows : ∀ pc gen thumb priv,
      (refillPredictorAllows state pc gen thumb priv).2.cache = state.cache ∧
        (refillPredictorAllows state pc gen thumb priv).2.features = state.features := by
    intro pc gen thumb priv
    rw [refillPredictorAllows]
    split <;> exact ⟨rfl, rfl⟩
  rw [refillFetch]
  split
  · exact ⟨hsound, rfl, by rintro ready ⟨⟩; rfl⟩
  · obtain ⟨hcache, hfeatures⟩ := hallows (m.cpu.core.r 15) m.cpu.caches.tlbGen m.cpu.core.thumb
      m.cpu.core.isPriv
    simp only
    generalize refillPredictorAllows state (m.cpu.core.r 15) m.cpu.caches.tlbGen m.cpu.core.thumb
      m.cpu.core.isPriv = answer at *
    obtain ⟨allowed, next⟩ := answer
    have hnext : CacheSound decoder next := by
      intro index
      simp only at hcache hfeatures
      rw [hcache, hfeatures]
      exact hsound index
    simp only
    split
    · exact ⟨hnext, hfeatures, by simp⟩
    · refine ⟨hnext, hfeatures, ?_⟩
      intro ready hready
      simp only at hready
      split at hready
      · rw [Option.some.injEq] at hready
        rw [← hready]
      · contradiction

theorem currentCachedUnsupported_refuses (hstate : m.staticState = some state)
    (hsound : CacheSound decoder state) (h : currentCachedUnsupported bus m state = true) :
    RefusesCurrent decoder bus m := by
  rw [currentCachedUnsupported] at h
  simp only at h
  split at h
  · contradiction
  · cases hhit : fetchHit m.cpu.caches (m.cpu.core.r 15) m.cpu.core.isPriv with
    | none =>
      rw [hhit] at h
      contradiction
    | some host =>
      simp only [hhit, Bool.and_eq_true, Bool.not_eq_true'] at h
      exact ⟨state, host, hstate, hhit, (entry_current (hsound _) h.1.2).2 h.2⟩

/-- What one call does: every block it begins is fresh, they fit the budget together, and it
reports a known negative only where decoding refuses the instruction it stopped at. -/
structure TryFresh (decoder : InsnDecoder) (bus : Bus σ) (m : S5l8900 σ) (maxInsns : ℕ)
    (result : TryResult σ) : Prop where
  fresh : ∀ start ∈ result.started, ∃ state, m.staticState = some state ∧
    Fresh decoder bus m.preStep state.features start
  total : (result.started.map fun start ↦ start.block.insnCount).sum ≤ maxInsns
  retired_le : result.retired ≤ maxInsns
  negative : result.knownNegative = true → RefusesCurrent decoder bus result.machine

theorem tryFresh_idle {maxInsns : ℕ} {after : S5l8900 σ} :
    TryFresh decoder bus m maxInsns { machine := after } where
  fresh := by simp
  total := by simp
  retired_le := Nat.zero_le maxInsns
  negative := by simp

section

variable (hsound : EngineSound decoder m)

include hsound

theorem s5l8900StaticA64Try_fresh (maxInsns : ℕ) :
    TryFresh decoder bus m maxInsns (s5l8900StaticA64Try decoder bus runner m maxInsns) ∧
      EngineSound decoder (s5l8900StaticA64Try decoder bus runner m maxInsns).machine := by
  rw [s5l8900StaticA64Try]
  cases hstate : m.staticState with
  | none => exact ⟨tryFresh_idle, hsound⟩
  | some state =>
    simp only
    split
    · exact ⟨tryFresh_idle, hsound⟩
    · obtain ⟨hrefill, hfeatures, hready⟩ := @refillFetch_spec σ decoder bus m state
        (hsound state hstate)
      generalize hanswer : refillFetch bus m state = answer at *
      obtain ⟨ready, next⟩ := answer
      simp only at hrefill hfeatures hready
      cases ready with
      | none =>
        refine ⟨tryFresh_idle, ?_⟩
        intro after hafter
        simp only [Option.some.injEq] at hafter
        rwa [← hafter]
      | some ready =>
        have hpre := hready ready rfl
        set limit := min maxInsns next.chainLimit
        have hran : RanFresh decoder bus m.preStep state.features limit
            (if next.persistent then
              tryPersistent decoder bus runner ready next limit
            else plainLoop decoder bus runner limit ready next
              limit) := by
          rw [← hpre, ← hfeatures]
          split
          · exact tryPersistent_fresh hrefill _
          · exact plainLoop_fresh _ hrefill _
        simp only
        generalize (if next.persistent then
            tryPersistent decoder bus runner ready next limit
          else plainLoop decoder bus runner limit ready next
            limit) = ran at *
        have hkept : CacheSound decoder (if needsRefill m next then
            refillPredictorRecord ran.state (m.cpu.core.r 15) m.cpu.caches.tlbGen m.cpu.core.thumb
              m.cpu.core.isPriv ran.retired limit
          else ran.state) := by
          split
          · exact hran.sound
          · exact hran.sound
        refine ⟨⟨?_, ?_, ?_, ?_⟩, ?_⟩
        · exact fun start hstart ↦ ⟨state, hstate, hran.fresh start hstart⟩
        · exact le_trans hran.total (min_le_left _ _)
        · exact le_trans hran.retired_le (min_le_left _ _)
        · intro hnegative
          simp only [Bool.and_eq_true] at hnegative
          exact currentCachedUnsupported_refuses rfl hkept hnegative.2
        · intro after hafter
          simp only [Option.some.injEq] at hafter
          rwa [← hafter]

theorem engineSound_map {change : StaticState → StaticState}
    (hchange : ∀ state, CacheSound decoder state → CacheSound decoder (change state)) :
    EngineSound decoder { m with staticState := m.staticState.map change } := by
  intro after hafter
  obtain ⟨state, hstate, rfl⟩ := Option.map_eq_some_iff.mp hafter
  exact hchange state (hsound state hstate)

theorem engineSound_changeEnabled {change : StaticState → StaticState}
    (hchange : ∀ state, CacheSound decoder state → CacheSound decoder (change state)) :
    EngineSound decoder (changeEnabled m change).2 := by
  rw [changeEnabled]
  cases hstate : m.staticState with
  | none => exact hsound
  | some state =>
    simp only
    split
    · intro after hafter
      simp only [Option.some.injEq] at hafter
      rw [← hafter]
      exact hchange state (hsound state hstate)
    · exact hsound

theorem engineSound_setStaticFeature (feature : Feature) (enabled : Bool) :
    EngineSound decoder (setStaticFeature m feature enabled).2 := by
  apply engineSound_changeEnabled hsound
  intro state hstate
  split
  · exact hstate
  · exact cacheSound_empty rfl

theorem engineSound_setMachineHook (fn : Bool) (targets : List Word) :
    EngineSound decoder (setMachineHook m fn targets).2 := by
  rw [setMachineHook]
  split
  · intro after hafter
    obtain ⟨state, hstate, rfl⟩ := Option.map_eq_some_iff.mp hafter
    exact cacheSound_empty rfl
  · exact hsound

end

/-- Nothing that happens to a machine leaves an unsound entry in its cache. -/
theorem engineSound_step (event : EngineEvent σ) (hsound : EngineSound decoder m) :
    EngineSound decoder (engineStep decoder bus runner m event) := by
  cases event with
  | attempt maxInsns => exact (s5l8900StaticA64Try_fresh hsound maxInsns).2
  | guest cpu ctx => exact hsound
  | hook fn targets => exact engineSound_setMachineHook hsound fn targets
  | enabled on =>
    cases on with
    | true =>
      intro after hafter
      simp only [engineStep, setStaticEnabled, if_true, Option.some.injEq] at hafter
      rw [← hafter]
      cases hstate : m.staticState with
      | none => exact cacheSound_empty rfl
      | some state => exact hsound state hstate
    | false => exact engineSound_map hsound fun _ h ↦ h
  | persistent on =>
    cases on with
    | true => exact engineSound_changeEnabled hsound fun _ h ↦ h
    | false => exact engineSound_map hsound fun _ h ↦ h
  | feature feature on => exact engineSound_setStaticFeature hsound feature on
  | vfpFpSession on => exact engineSound_changeEnabled hsound fun _ h ↦ h
  | fetchRefill on => exact engineSound_changeEnabled hsound fun _ h ↦ h
  | knownNegativeBypass on => exact engineSound_changeEnabled hsound fun _ h ↦ h
  | chainLimit maxInsns =>
    simp only [engineStep, setStaticChainLimit]
    split
    · exact hsound
    · exact engineSound_changeEnabled hsound fun _ h ↦ h
  | invalidateDerived => exact engineSound_map hsound fun _ _ ↦ cacheSound_empty rfl

theorem engineSound_run (cpu : Cpu) (ctx : σ) (ramSize : ℕ) (events : List (EngineEvent σ)) :
    EngineSound decoder
      (Run.run (engineStep decoder bus runner) { cpu, ctx, ramSize } events) :=
  Run.invariant (fun _ event h ↦ engineSound_step event h) (fun _ h ↦ by contradiction) events

/-- After any history, a call begins only blocks that are the decoding, under the features in
force, of the octets in memory at the program counter as each of them begins: the instructions
the interpreter would fetch there, none of them a hook target and all in one fetch block. Their
counts fit the caller's budget together, and a bypass of the engine is reported and taken only
where decoding refuses the current instruction. -/
theorem static_blocks_fresh (decoder : InsnDecoder) (bus : Bus σ) (runner : Runner σ) (cpu : Cpu)
    (ctx : σ) (ramSize : ℕ) (events : List (EngineEvent σ)) (maxInsns : ℕ) :
    let m := Run.run (engineStep decoder bus runner) { cpu, ctx, ramSize } events
    TryFresh decoder bus m maxInsns (s5l8900StaticA64Try decoder bus runner m maxInsns) ∧
      (commitKnownNegativeBypass bus m = true → RefusesCurrent decoder bus m) := by
  intro m
  have hsound : EngineSound decoder m := engineSound_run cpu ctx ramSize events
  refine ⟨(s5l8900StaticA64Try_fresh hsound maxInsns).1, ?_⟩
  intro hcommit
  rw [commitKnownNegativeBypass] at hcommit
  cases hstate : m.staticState with
  | none => simp [hstate] at hcommit
  | some state =>
    rw [hstate] at hcommit
    exact currentCachedUnsupported_refuses hstate (hsound state hstate) hcommit

/-- A budget of twenty over instructions that all decode: a full block, then what is left. -/
example :
    let decoder : InsnDecoder := ⟨fun _ _ _ _ ↦ some [{ handler := 1 }], fun _ _ _ _ ↦ none⟩
    let runner : Runner Unit := fun _ block guest ↦
      (0, { guest.1 with core := guest.1.core.setR 15 block.exitPc }, guest.2)
    let caches : Caches :=
      { cachesReset {} with fetchHost := some 0, fetchGen := 1, fetchPriv := true }
    let m : S5l8900 Unit :=
      { cpu := ⟨coreReset .v6Arm1176, caches⟩, ctx := (), ramSize := 4096
        staticState := some { chainLimit := 64 } }
    (s5l8900StaticA64Try decoder (constantBus 0) runner m 20).started.map
      (fun start ↦ start.block.insnCount) = [16, 4] := by
  decide +kernel

end S5LBox.Arm
