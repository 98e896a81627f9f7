import S5LBox.Arm.Execution
import S5LBox.Arm.Reference

/-!
# Coherence of the host-pointer caches

A valid entry of the fetch, read and write caches points at the octets that the walk of its block
would reach, with the permission checked. A request over coherent caches is answered as the
reference memory answers it, and leaves them coherent.
-/

namespace S5LBox.Arm

variable {σ : Type} {bus : Bus σ} {p : TlbStamp} {base ctx : σ} {va va' : Word} {acc : Access}
  {priv : Bool} {host : HostPtr}

theorem blockMask_clear (pa : Word) {low : Word} :
    ((pa &&& ~~~0x3ff) ||| (low &&& 0x3ff)) &&& ~~~0x3ff = pa &&& ~~~0x3ff := by
  rw [or_and_of_disjoint _ (and_and_disjoint (by decide)), and_and_self]

theorem block_add (pa low : Word) :
    (pa &&& ~~~0x3ff) ||| (low &&& 0x3ff) = (pa &&& ~~~0x3ff) + (low &&& 0x3ff) := by
  rw [BitVec.add_eq_or_of_and_eq_zero]
  ext i hi
  simp only [BitVec.getElem_and, BitVec.getElem_not, BitVec.getElem_zero]
  cases pa[i] <;> cases (0x3ff : Word)[i] <;> simp

variable {pa value pagePa : Word} {hostRam : Option (Word → ℕ → Option HostPtr)} {h : Caches}
  {t : Walked σ}

theorem result_of_block {verdict : Verdict} (hblocks : verdict.Blocks) (h : SameBlock va va')
    (hresult : ∀ pa₀, verdict.result va pa₀ = (0, pa)) (pa₀ : Word) :
    verdict.result va' pa₀ = (0, (pa &&& ~~~0x3ff) ||| (va' &&& 0x3ff)) := by
  cases verdict with
  | fault fsr => exact absurd (congrArg Prod.fst (hresult 0)) hblocks
  | frame base mask =>
    have hpa : base ||| (va &&& mask) = pa := congrArg Prod.snd (hresult 0)
    rw [← hpa, frame_of_block hblocks.1 hblocks.2 h]
    rfl

/-- The pointer exposes the block of host memory behind an access that the walk permits. -/
def Covers (bus : Bus σ) (hostRam : Option (Word → ℕ → Option HostPtr)) (p : TlbStamp) (base : σ)
    (va : Word) (acc : Access) (priv : Bool) (host : HostPtr) : Prop :=
  ∃ pa expose, (∀ pa₀, (walkVerdict bus p base va acc priv).1.result va pa₀ = (0, pa)) ∧
    hostRam = some expose ∧ expose (pa &&& ~~~0x3ff) 0x400 = some host

theorem Covers.block (h : Covers bus hostRam p base va acc priv host) (hblock : SameBlock va va') :
    Covers bus hostRam p base va' acc priv host := by
  obtain ⟨pa, expose, hresult, hram, hhost⟩ := h
  refine ⟨(pa &&& ~~~0x3ff) ||| (va' &&& 0x3ff), expose, ?_, hram, ?_⟩
  · rw [← walkVerdict_congr hblock]
    exact result_of_block blocks_walkVerdict hblock hresult
  · rwa [blockMask_clear]

theorem Covers.offset (h : Covers bus hostRam p base va acc priv host)
    (hwords : walkWords bus p base va = walkWords bus p ctx va) :
    ∃ pa expose, (∀ pa₀, (mmuWalk bus p ctx va acc priv pa₀).1 = (0, pa)) ∧
      hostRam = some expose ∧ expose (pa &&& ~~~0x3ff) 0x400 = some host ∧
      ∀ i, (pa &&& ~~~0x3ff) + BitVec.ofNat 32 ((va &&& 0x3ff).toNat + i) =
        pa + BitVec.ofNat 32 i := by
  obtain ⟨pa, expose, hresult, hram, hhost⟩ := h
  have hself := result_of_block blocks_walkVerdict (rfl : SameBlock va va) hresult
  have hpa : pa = (pa &&& ~~~0x3ff) + (va &&& 0x3ff) := by
    have heq := (hresult 0).symm.trans (hself 0)
    rw [← block_add]
    exact congrArg Prod.snd heq
  refine ⟨pa, expose, fun pa₀ ↦ ?_, hram, hhost, fun i ↦ ?_⟩
  · rw [walkVerdict_of_words hwords] at hresult
    exact hresult pa₀
  · rw [BitVec.ofNat_add, BitVec.ofNat_toNat, BitVec.setWidth_eq, ← BitVec.add_assoc, ← hpa]

theorem hostRead_eq (count : ℕ) :
    hostRead bus ctx host count = littleEndian (fun i ↦ bus.hostLoad ctx (host + i)) count := by
  induction count with
  | zero => rfl
  | succ count ih => rw [hostRead, littleEndian, ih]

theorem hostWrite_eq (value : Word) (count : ℕ) : hostWrite bus ctx host value count =
      storeOctets (fun ctx i octet ↦ bus.hostStore ctx (host + i) octet) ctx value count := by
  induction count with
  | zero => rfl
  | succ count ih => rw [hostWrite, storeOctets, ih]

theorem littleEndian_congr {f g : ℕ → Octet} {count : ℕ} (h : ∀ i < count, f i = g i) :
    littleEndian f count = littleEndian g count := by
  induction count with
  | zero => rfl
  | succ count ih =>
    rw [littleEndian, littleEndian, h count (Nat.lt_succ_self _),
      ih fun i hi ↦ h i (Nat.lt_succ_of_lt hi)]

theorem storeOctets_congr {f g : σ → ℕ → Octet → σ} {count : ℕ}
    (h : ∀ ctx octet, ∀ i < count, f ctx i octet = g ctx i octet) :
    storeOctets f ctx value count = storeOctets g ctx value count := by
  induction count with
  | zero => rfl
  | succ count ih =>
    rw [storeOctets, storeOctets, h _ _ count (Nat.lt_succ_self _),
      ih fun ctx octet i hi ↦ h ctx octet i (Nat.lt_succ_of_lt hi)]

theorem inBlock_iff {n : ℕ} : inBlock va n = true ↔ (va &&& 0x3ff).toNat + n ≤ 0x400 := by
  simp [inBlock]

theorem hostRead_of_covers (hram : RamBus bus) {width : Width}
    (h : Covers bus bus.hostRam p base va acc priv host)
    (hwords : walkWords bus p base va = walkWords bus p ctx va)
    (hin : (va &&& 0x3ff).toNat + width.bytes ≤ 0x400) :
    ∃ pa, (∀ pa₀, (mmuWalk bus p ctx va acc priv pa₀).1 = (0, pa)) ∧
      hostRead bus ctx (host + (va &&& 0x3ff).toNat) width.bytes =
        (busRead bus width ctx pa).1 := by
  obtain ⟨pa, expose, hwalk, hexpose, hhost, hoffset⟩ := h.offset hwords
  refine ⟨pa, hwalk, ?_⟩
  rw [hostRead_eq, hram.read]
  refine littleEndian_congr fun i hi ↦ ?_
  rw [Nat.add_assoc, hram.load expose hexpose _ _ host hhost ctx _ (by omega), hoffset]

theorem hostWrite_of_covers (hram : RamBus bus) {width : Width} (value : Word)
    (h : Covers bus bus.hostRamWrite p base va acc priv host)
    (hwords : walkWords bus p base va = walkWords bus p ctx va)
    (hin : (va &&& 0x3ff).toNat + width.bytes ≤ 0x400) :
    ∃ pa, (∀ pa₀, (mmuWalk bus p ctx va acc priv pa₀).1 = (0, pa)) ∧
      hostWrite bus ctx (host + (va &&& 0x3ff).toNat) value width.bytes =
        busWrite bus width ctx pa value := by
  obtain ⟨pa, expose, hwalk, hexpose, hhost, hoffset⟩ := h.offset hwords
  refine ⟨pa, hwalk, ?_⟩
  rw [hostWrite_eq, hram.write]
  refine storeOctets_congr fun ctx octet i hi ↦ ?_
  rw [Nat.add_assoc, hram.store expose hexpose _ _ host hhost ctx octet _ (by omega), hoffset]

/-- An entry of the read or write cache points at every block it is tagged for. -/
def BlockEntry.Stands (bus : Bus σ) (hostRam : Option (Word → ℕ → Option HostPtr)) (acc : Access)
    (p : TlbStamp) (base : σ) (entry : BlockEntry) : Prop :=
  ∀ va priv host, entry.host = some host → entry.tag = dreadTag va priv →
    Covers bus hostRam p base va acc priv host

theorem sameBlock_of_clear (h : va &&& ~~~0x3ff = va' &&& ~~~0x3ff) : SameBlock va va' := by
  have hshift (v : Word) : (v &&& ~~~0x3ff) >>> 10 = v >>> 10 := by
    ext i hi
    simp only [BitVec.getElem_ushiftRight, BitVec.getLsbD_and]
    by_cases hlt : 10 + i < 32
    · have hmask : (~~~0x3ff : Word).getLsbD (10 + i) = true := by
        have hbit := blockMask_bit ⟨10 + i, hlt⟩
        rw [BitVec.getLsbD_eq_getElem hlt, BitVec.getElem_not]
        simpa using hbit
      rw [hmask, Bool.and_true]
    · rw [BitVec.getLsbD_of_ge _ _ (by omega), Bool.false_and]
  rw [SameBlock, ← hshift va, h, hshift]

theorem dreadTag_inj {priv' : Bool} (h : dreadTag va priv = dreadTag va' priv') :
    SameBlock va va' ∧ priv = priv' := by
  have hblock (v : Word) (b : Bool) : dreadTag v b &&& ~~~0x3ff = v &&& ~~~0x3ff := by
    unfold dreadTag
    rw [or_and_of_disjoint _ (by cases b <;> decide), and_and_self]
  have hlow (v : Word) (b : Bool) : dreadTag v b &&& (1 : Word) = if b then 1 else 0 := by
    unfold dreadTag
    rw [BitVec.or_comm, or_and_of_disjoint _ (and_and_disjoint (by decide))]
    cases b <;> decide
  have hclear := congrArg (· &&& ~~~(0x3ff : Word)) h
  have hpriv := congrArg (· &&& (1 : Word)) h
  simp only [hblock] at hclear
  simp only [hlow] at hpriv
  refine ⟨sameBlock_of_clear hclear, ?_⟩
  revert hpriv
  cases priv <;> cases priv' <;> decide

theorem stands_fill {gen : Word} (h : Covers bus hostRam p base va acc priv host) :
    BlockEntry.Stands bus hostRam acc p base
      { host := some host, tag := dreadTag va priv, gen := gen } := by
  rintro va' priv' host' hhost htag
  obtain rfl := Option.some.inj hhost
  obtain ⟨hblock, rfl⟩ := dreadTag_inj htag
  exact h.block hblock

/-- Every valid entry of every cache is right for the registers in force, over the memory of the
last flush. -/
structure Coherent (bus : Bus σ) (p : TlbStamp) (base : σ) (h : Caches) : Prop where
  tlb : h.TlbSound bus base
  dread : Generation.Live BlockEntry.gen (BlockEntry.Stands bus bus.hostRam .read p base) h.tlbGen
    h.dread
  dwrite : Generation.Live BlockEntry.gen (BlockEntry.Stands bus bus.hostRamWrite .write p base)
    h.tlbGen h.dwrite
  fetch : ∀ host, h.fetchHost = some host → h.fetchGen = h.tlbGen →
    ∀ va, va &&& ~~~0x3ff = h.fetchBlk → Covers bus bus.hostRam p base va .fetch h.fetchPriv host

theorem coherent_reset (stamp : TlbStamp) : Coherent bus p base (cachesReset stamp) where
  tlb := tlbSound_reset stamp
  dread := .clear rfl (show (1 : Word) ≠ 0 by decide)
  dwrite := .clear rfl (show (1 : Word) ≠ 0 by decide)
  fetch _ h := nomatch h

theorem Coherent.flush {p' : TlbStamp} {base' : σ} (hc : Coherent bus p base h) :
    Coherent bus p' base' (armMmuTlbFlush h) := by
  have hlive {good good' : BlockEntry → Prop} {table : BitVec 6 → BlockEntry}
      (hl : Generation.Live BlockEntry.gen good h.tlbGen table) (hwrap : h.tlbGen + 1 ≠ 0) :
      Generation.Live BlockEntry.gen good' (h.tlbGen + 1) table := hl.next hwrap
  have htlb : (armMmuTlbFlush h).TlbSound bus base' := tlbSound_flush hc.tlb
  have hfetch : (armMmuTlbFlush h).fetchHost = none := by
    unfold armMmuTlbFlush
    simp only
    split <;> rfl
  refine ⟨htlb, ?_, ?_, fun host hhost ↦ ?_⟩
  · unfold armMmuTlbFlush
    simp only
    split
    · exact .clear rfl (show (1 : Word) ≠ 0 by decide)
    · exact hlive hc.dread ‹_›
  · unfold armMmuTlbFlush
    simp only
    split
    · exact .clear rfl (show (1 : Word) ≠ 0 by decide)
    · exact hlive hc.dwrite ‹_›
  · rw [hfetch] at hhost
    cases hhost

theorem Coherent.restamp (hc : Coherent bus p base h) : Coherent bus p base (tlbRestamp p h) := by
  have hgen : (if h.tlbGen = 0 then { h with tlbGen := 1 } else h) = h := if_neg hc.tlb.current
  have htlb := tlbSound_tlbRestamp (p := p) hc.tlb
  have hflush : Coherent bus p base (armMmuTlbFlush h) := hc.flush
  refine ⟨htlb, ?_, ?_, ?_⟩
  all_goals
    unfold tlbRestamp
    simp only [hgen]
    split
  · exact hflush.dread
  · exact hc.dread
  · exact hflush.dwrite
  · exact hc.dwrite
  · exact hflush.fetch
  · exact hc.fetch

theorem walk_ctx (hram : RamBus bus) : (walkVerdict bus p ctx va acc priv).2 = ctx := by
  let same (x : Verdict × σ) : Prop := x.2 = ctx
  have hread : (bus.read32 ctx (l1Address p va)).2 = ctx := hram.read32 ..
  show same (walkVerdict bus p ctx va acc priv)
  refine iteInduction (motive := same) (fun _ ↦ rfl) fun _ ↦ ?_
  refine iteInduction (motive := same) (fun _ ↦ rfl) fun _ ↦ ?_
  refine iteInduction (motive := same) (fun _ ↦ hread) fun _ ↦ ?_
  refine iteInduction (motive := same) (fun _ ↦ hread) fun _ ↦ ?_
  exact (hram.read32 ..).trans hread

theorem translate_coherent (hram : RamBus bus) (hc : Coherent bus p base h)
    (hwords : walkWords bus p base va = walkWords bus p ctx va) (acc : Access) (priv : Bool)
    (pa : Word) : ∃ h', armMmuTranslate bus p h ctx va acc priv pa =
      ((mmuWalk bus p ctx va acc priv pa).1, h', ctx) ∧ Coherent bus p base h' := by
  obtain ⟨hresult, htlb⟩ : (armMmuTranslate bus p h ctx va acc priv pa).1 =
      (mmuWalk bus p ctx va acc priv pa).1 ∧
      (armMmuTranslate bus p h ctx va acc priv pa).2.1.TlbSound bus base :=
    armMmuTranslate_sound hc.tlb hwords pa
  have hctx : (armMmuTranslate bus p h ctx va acc priv pa).2.2 = ctx := by
    unfold armMmuTranslate
    simp only
    split
    · rfl
    split
    · rfl
    · exact walk_ctx hram
  refine ⟨(armMmuTranslate bus p h ctx va acc priv pa).2.1, ?_, htlb, ?_, ?_, ?_⟩
  · rw [← hresult]
    exact Prod.ext rfl (Prod.ext rfl hctx)
  all_goals
    unfold armMmuTranslate
    simp only
    split
  · exact hc.dread
  · split <;> exact hc.restamp.dread
  · exact hc.dwrite
  · split <;> exact hc.restamp.dwrite
  · exact hc.fetch
  · split <;> exact hc.restamp.fetch

/-- A request over the caches and one over the reference memory: the same answer, the same memory,
and coherent caches. -/
structure Matches {α : Type} (bus : Bus σ) (p : TlbStamp) (x : α × Caches × σ)
    (y : α × Walked σ) : Prop where
  answer : x.1 = y.1
  ctx : x.2.2 = y.2.ctx
  coherent : Coherent bus p y.2.flushed x.2.1

theorem crossing_coherent (hram : RamBus bus) {page : Prop} [Decidable page]
    {x : (Word × Word) × Walked σ}
    (hx : (if page then refTranslate bus.slow p t va acc priv pagePa else ((0, pagePa), t)) = x)
    (hc : Coherent bus p t.flushed h) (hkept : x.2.kept = true) :
    x.2.ctx = t.ctx ∧ ∃ h', Coherent bus p x.2.flushed h' ∧
      (if page then armMmuTranslate bus p h t.ctx va acc priv pagePa
        else ((0, pagePa), h, t.ctx)) = (x.1, h', t.ctx) := by
  subst hx
  by_cases hpage : page
  · simp only [if_pos hpage] at hkept ⊢
    obtain ⟨h', hresult, hc'⟩ := translate_coherent hram hc (kept_refTranslate hkept).2 acc priv pagePa
    exact ⟨rfl, h', hc', hresult⟩
  · simp only [if_neg hpage] at hkept ⊢
    exact ⟨trivial, h, hc, rfl⟩

theorem matches_readCrossing (hram : RamBus bus) {offsets : List ℕ}
    (hc : Coherent bus p t.flushed h)
    (hkept : (refReadCrossing bus.slow p va priv offsets pagePa value t).2.kept = true) :
    Matches bus p (memReadCrossing bus p va priv offsets pagePa value h t.ctx)
      (refReadCrossing bus.slow p va priv offsets pagePa value t) := by
  induction offsets generalizing pagePa value h t with
  | nil => exact ⟨rfl, rfl, hc⟩
  | cons i rest ih =>
    rw [refReadCrossing] at hkept ⊢
    rw [memReadCrossing]
    simp only at hkept ⊢
    generalize hx : (if i = 0 ∨ (va + BitVec.ofNat 32 i) &&& 0xfff = 0 then
      refTranslate bus.slow p t (va + BitVec.ofNat 32 i) .read priv pagePa
      else ((0, pagePa), t)) = x at hkept ⊢
    have hstep : x.2.kept = true := by
      split at hkept
      · exact hkept
      · exact kept_refReadCrossing hkept
    obtain ⟨hctx, h', hc', htranslate⟩ := crossing_coherent hram hx hc hstep
    rw [htranslate]
    by_cases hfault : x.1.1 ≠ 0
    · simp only [if_pos hfault]
      exact ⟨rfl, hctx.symm, hc'⟩
    · simp only [if_neg hfault] at hkept ⊢
      have hrest := ih hc' hkept
      rw [hctx] at hrest
      show Matches bus p (memReadCrossing bus p va priv rest _ _ h' (bus.read8 t.ctx _).2) _
      rw [hram.read8]
      exact hctx ▸ hrest

theorem matches_writeCrossing (hram : RamBus bus) {offsets : List ℕ}
    (hc : Coherent bus p t.flushed h)
    (hkept : (refWriteCrossing bus.slow p va value priv offsets pagePa t).2.kept = true) :
    Matches bus p (memWriteCrossing bus p va value priv offsets pagePa h t.ctx)
      (refWriteCrossing bus.slow p va value priv offsets pagePa t) := by
  induction offsets generalizing pagePa h t with
  | nil => exact ⟨rfl, rfl, hc⟩
  | cons i rest ih =>
    rw [refWriteCrossing] at hkept ⊢
    rw [memWriteCrossing]
    simp only at hkept ⊢
    generalize hx : (if i = 0 ∨ (va + BitVec.ofNat 32 i) &&& 0xfff = 0 then
      refTranslate bus.slow p t (va + BitVec.ofNat 32 i) .write priv pagePa
      else ((0, pagePa), t)) = x at hkept ⊢
    have hstep : x.2.kept = true := by
      split at hkept
      · exact hkept
      · exact (kept_refWriteCrossing hkept :)
    obtain ⟨hctx, h', hc', htranslate⟩ := crossing_coherent hram hx hc hstep
    rw [htranslate]
    by_cases hfault : x.1.1 ≠ 0
    · simp only [if_pos hfault]
      exact ⟨rfl, hctx.symm, hc'⟩
    · simp only [if_neg hfault] at hkept ⊢
      rw [← hctx]
      exact ih (t := { x.2 with ctx := _ }) hc' hkept

/-- A walk that permits the access answers the same whatever the caller's address holds. -/
theorem result_of_walk (h : (mmuWalk bus p ctx va acc priv pa).1.1 = 0)
    (hwords : walkWords bus p base va = walkWords bus p ctx va) (pa₀ : Word) :
    (walkVerdict bus p base va acc priv).1.result va pa₀ =
      (0, (mmuWalk bus p ctx va acc priv pa).1.2) := by
  have hblocks : (walkVerdict bus p ctx va acc priv).1.Blocks := blocks_walkVerdict
  have hstatus : ((walkVerdict bus p ctx va acc priv).1.result va pa).1 = 0 := h
  rw [walkVerdict_of_words hwords]
  show _ = (0, ((walkVerdict bus p ctx va acc priv).1.result va pa).2)
  cases hverdict : (walkVerdict bus p ctx va acc priv).1 with
  | fault fsr =>
    rw [hverdict] at hblocks hstatus
    exact absurd hstatus hblocks
  | frame base mask => rfl

theorem covers_of_hit {table : BitVec 6 → BlockEntry} {slot : BitVec 6} {now : Word} {n : ℕ}
    (hlive : Generation.Live BlockEntry.gen (BlockEntry.Stands bus hostRam acc p base) now table)
    (hlookup : (if inBlock va n then (table slot).hit now va priv else none) = some host) :
    ∃ blk, host = blk + (va &&& 0x3ff).toNat ∧ (va &&& 0x3ff).toNat + n ≤ 0x400 ∧
      Covers bus hostRam p base va acc priv blk := by
  split at hlookup
  case isFalse => cases hlookup
  rename_i hin
  unfold BlockEntry.hit at hlookup
  split at hlookup
  · rename_i hvalid
    obtain ⟨blk, hblk, rfl⟩ := Option.map_eq_some_iff.1 hlookup
    exact ⟨blk, rfl, inBlock_iff.1 hin, hlive.valid slot hvalid.2 va priv blk hblk hvalid.1⟩
  · cases hlookup

theorem Coherent.dreadHit (hc : Coherent bus p base h) (va : Word) (priv : Bool) (n : ℕ) :
    Coherent bus p base (dreadHit h va n priv).2 ∧
      ∀ host, (Arm.dreadHit h va n priv).1 = some host →
        ∃ blk, host = blk + (va &&& 0x3ff).toNat ∧ (va &&& 0x3ff).toNat + n ≤ 0x400 ∧
          Covers bus bus.hostRam p base va .read priv blk := by
  unfold Arm.dreadHit
  cases hlookup : if inBlock va n then (h.dread (dreadSlot va priv)).hit h.tlbGen va priv
    else none with
  | none => exact ⟨⟨hc.tlb, hc.dread, hc.dwrite, hc.fetch⟩, fun _ hnone ↦ nomatch hnone⟩
  | some host =>
    refine ⟨⟨hc.tlb, hc.dread, hc.dwrite, hc.fetch⟩, fun host' heq ↦ ?_⟩
    obtain rfl := Option.some.inj heq
    exact covers_of_hit hc.dread hlookup

theorem Coherent.dwriteHit (hc : Coherent bus p base h) (va : Word) (priv : Bool) (n : ℕ) :
    Coherent bus p base (dwriteHit bus h va n priv).2 ∧
      ∀ host, (Arm.dwriteHit bus h va n priv).1 = some host →
        ∃ blk, host = blk + (va &&& 0x3ff).toNat ∧ (va &&& 0x3ff).toNat + n ≤ 0x400 ∧
          Covers bus bus.hostRamWrite p base va .write priv blk := by
  unfold Arm.dwriteHit
  split
  · exact ⟨hc, fun _ hnone ↦ nomatch hnone⟩
  cases hlookup : if inBlock va n then (h.dwrite (dreadSlot va priv)).hit h.tlbGen va priv
    else none with
  | none => exact ⟨⟨hc.tlb, hc.dread, hc.dwrite, hc.fetch⟩, fun _ hnone ↦ nomatch hnone⟩
  | some host =>
    refine ⟨⟨hc.tlb, hc.dread, hc.dwrite, hc.fetch⟩, fun host' heq ↦ ?_⟩
    obtain rfl := Option.some.inj heq
    exact covers_of_hit hc.dwrite hlookup

theorem covers_of_bind
    (hresult : ∀ pa₀, (walkVerdict bus p base va acc priv).1.result va pa₀ = (0, pa))
    (hhost : (hostRam.bind fun expose ↦ expose (pa &&& ~~~0x3ff) 0x400) = some host) :
    Covers bus hostRam p base va acc priv host := by
  obtain ⟨expose, hram, hexpose⟩ := Option.bind_eq_some_iff.1 hhost
  exact ⟨pa, expose, hresult, hram, hexpose⟩

theorem Coherent.dreadFill (hc : Coherent bus p base h)
    (hresult : ∀ pa₀, (walkVerdict bus p base va .read priv).1.result va pa₀ = (0, pa)) :
    Coherent bus p base (dreadFill bus h va pa priv) := by
  unfold Arm.dreadFill
  split
  · exact hc
  · rename_i blk hblk
    have hcovers := covers_of_bind hresult hblk
    exact ⟨hc.tlb, hc.dread.set _ rfl (stands_fill hcovers), hc.dwrite, hc.fetch⟩

theorem Coherent.dwriteFill (hc : Coherent bus p base h)
    (hresult : ∀ pa₀, (walkVerdict bus p base va .write priv).1.result va pa₀ = (0, pa)) :
    Coherent bus p base (dwriteFill bus h va pa priv) := by
  unfold Arm.dwriteFill
  split
  · exact hc
  · rename_i blk hblk
    have hcovers := covers_of_bind hresult hblk
    exact ⟨hc.tlb, hc.dread, hc.dwrite.set _ rfl (stands_fill hcovers), hc.fetch⟩

/-- The result of a reference translation that keeps the record, with what it leaves alone. -/
theorem refTranslate_kept {t' : Walked σ} {fsr pa' : Word}
    (h : refTranslate bus.slow p t va acc priv pa = ((fsr, pa'), t')) (hkept : t'.kept = true) :
    (mmuWalk bus p t.ctx va acc priv pa).1 = (fsr, pa') ∧ t'.ctx = t.ctx ∧
      t'.flushed = t.flushed ∧ walkWords bus p t.flushed va = walkWords bus p t.ctx va := by
  obtain ⟨hresult, rfl⟩ := Prod.mk.inj h
  exact ⟨hresult, rfl, rfl, (kept_refTranslate hkept).2⟩

theorem matches_load (hram : RamBus bus) (width : Width) (hc : Coherent bus p t.flushed h)
    (hkept : (refLoad bus.slow width p va priv t).2.kept = true) :
    Matches bus p (busLoad bus width p va priv h t.ctx) (refLoad bus.slow width p va priv t) := by
  unfold refLoad at hkept ⊢
  unfold busLoad
  by_cases hcross : memCrossesPage va width.bytes = true
  · simp only [if_pos hcross] at hkept ⊢
    exact matches_readCrossing hram hc hkept
  simp only [if_neg hcross] at hkept ⊢
  obtain ⟨⟨⟨fsr, pa⟩, t'⟩, htr⟩ : ∃ x, refTranslate bus.slow p t va .read priv 0 = x := ⟨_, rfl⟩
  rw [htr] at hkept ⊢
  have hkept' : t'.kept = true := by
    simp only at hkept
    split at hkept <;> exact hkept
  obtain ⟨hwalk, hctx, hflushed, hwords⟩ := refTranslate_kept htr hkept'
  obtain ⟨hlooked, hhit⟩ := hc.dreadHit va priv width.bytes
  cases hlookup : dreadHit h va width.bytes priv with
  | mk found h' =>
    rw [hlookup] at hlooked hhit
    cases found with
    | some host =>
      obtain ⟨blk, rfl, hin, hcovers⟩ := hhit host rfl
      obtain ⟨pa', hwalk', hread⟩ := hostRead_of_covers hram hcovers hwords hin
      obtain ⟨rfl, rfl⟩ := Prod.mk.inj (hwalk.symm.trans (hwalk' 0))
      rw [if_neg (not_not.2 rfl), hctx]
      exact ⟨congrArg Except.ok hread, hctx.symm, hflushed ▸ hlooked⟩
    | none =>
      obtain ⟨h'', htranslate, hc''⟩ :=
        translate_coherent hram hlooked hwords .read priv 0
      simp only [htranslate, hwalk, hctx]
      split
      · exact ⟨rfl, hctx.symm, hflushed ▸ hc''⟩
      · rename_i hok
        obtain rfl : fsr = 0 := not_not.1 hok
        have hresult := result_of_walk (congrArg Prod.fst hwalk) hwords
        rw [hwalk] at hresult
        have hctx' : (busRead bus width t.ctx pa).2 = t'.ctx := by
          rw [hram.read, hctx]
        exact ⟨rfl, hctx', hflushed ▸ hc''.dreadFill hresult⟩

theorem matches_store (hram : RamBus bus) (width : Width) (value : Word)
    (hc : Coherent bus p t.flushed h)
    (hkept : (refStore bus.slow width p va value priv t).2.kept = true) :
    Matches bus p (busStore bus width p va value priv h t.ctx)
      (refStore bus.slow width p va value priv t) := by
  unfold refStore at hkept ⊢
  unfold busStore
  by_cases hcross : memCrossesPage va width.bytes = true
  · simp only [if_pos hcross] at hkept ⊢
    exact matches_writeCrossing hram hc hkept
  simp only [if_neg hcross] at hkept ⊢
  obtain ⟨⟨⟨fsr, pa⟩, t'⟩, htr⟩ : ∃ x, refTranslate bus.slow p t va .write priv 0 = x := ⟨_, rfl⟩
  rw [htr] at hkept ⊢
  have hkept' : t'.kept = true := by
    simp only at hkept
    split at hkept <;> exact hkept
  obtain ⟨hwalk, hctx, hflushed, hwords⟩ := refTranslate_kept htr hkept'
  have hsame (pa : Word) : busWrite bus.slow width t.ctx pa value =
      busWrite bus width t.ctx pa value := by
    cases width <;> rfl
  obtain ⟨hlooked, hhit⟩ := hc.dwriteHit va priv width.bytes
  cases hlookup : dwriteHit bus h va width.bytes priv with
  | mk found h' =>
    rw [hlookup] at hlooked hhit
    cases found with
    | some host =>
      obtain ⟨blk, rfl, hin, hcovers⟩ := hhit host rfl
      obtain ⟨pa', hwalk', hwrite⟩ := hostWrite_of_covers hram value hcovers hwords hin
      obtain ⟨rfl, rfl⟩ := Prod.mk.inj (hwalk.symm.trans (hwalk' 0))
      rw [if_neg (not_not.2 rfl), hctx, hsame]
      exact ⟨rfl, hwrite, hflushed ▸ hlooked⟩
    | none =>
      obtain ⟨h'', htranslate, hc''⟩ :=
        translate_coherent hram hlooked hwords .write priv 0
      simp only [htranslate, hwalk, hctx, hsame]
      split
      · exact ⟨rfl, hctx.symm, hflushed ▸ hc''⟩
      · rename_i hok
        obtain rfl : fsr = 0 := not_not.1 hok
        have hresult := result_of_walk (congrArg Prod.fst hwalk) hwords
        rw [hwalk] at hresult
        exact ⟨rfl, rfl, hflushed ▸ hc''.dwriteFill hresult⟩

theorem matches_fetch (hram : RamBus bus) (thumb : Bool)
    (hin : (va - (va &&& ~~~0x3ff)).toNat + (fetchWidth thumb).bytes ≤ 0x400)
    (hc : Coherent bus p t.flushed h)
    (hkept : (refFetch bus.slow p va priv thumb t).2.kept = true) :
    Matches bus p (busFetch bus p va priv thumb h t.ctx) (refFetch bus.slow p va priv thumb t) := by
  unfold refFetch at hkept ⊢
  unfold busFetch
  simp only [sub_block] at hin hkept ⊢
  obtain ⟨⟨⟨fsr, pa⟩, t'⟩, htr⟩ : ∃ x, refTranslate bus.slow p t va .fetch priv 0 = x := ⟨_, rfl⟩
  rw [htr] at hkept ⊢
  have hkept' : t'.kept = true := by
    simp only at hkept
    split at hkept <;> exact hkept
  obtain ⟨hwalk, hctx, hflushed, hwords⟩ := refTranslate_kept htr hkept'
  have hsame (pa : Word) : busRead bus.slow (fetchWidth thumb) t.ctx pa =
      busRead bus (fetchWidth thumb) t.ctx pa := by
    cases thumb <;> rfl
  -- what a pointer to the block gives is what the walk leads to
  have hthrough {blk : HostPtr} (hcovers : Covers bus bus.hostRam p t.flushed va .fetch priv blk) :
      fsr = 0 ∧ hostRead bus t.ctx (blk + (va &&& 0x3ff).toNat) (fetchWidth thumb).bytes =
        (busRead bus (fetchWidth thumb) t.ctx pa).1 := by
    obtain ⟨pa', hwalk', hread⟩ := hostRead_of_covers hram hcovers hwords hin
    obtain ⟨rfl, rfl⟩ := Prod.mk.inj (hwalk.symm.trans (hwalk' 0))
    exact ⟨rfl, hread⟩
  cases hhit : fetchHit h va priv with
  | some host =>
    unfold fetchHit at hhit
    split at hhit
    · rename_i hvalid
      obtain ⟨hblk, hgen, rfl⟩ := hvalid
      obtain ⟨rfl, hread⟩ := hthrough (hc.fetch host hhit hgen va hblk.symm)
      rw [if_neg (not_not.2 rfl), hctx, hsame]
      exact ⟨congrArg Except.ok hread, hctx.symm, hflushed ▸ hc⟩
    · cases hhit
  | none =>
    obtain ⟨h', htranslate, hc'⟩ :=
      translate_coherent hram hc hwords .fetch priv 0
    simp only [htranslate, hwalk, hctx, hsame]
    split
    · exact ⟨rfl, hctx.symm, hflushed ▸ hc'⟩
    · rename_i hok
      obtain rfl : fsr = 0 := not_not.1 hok
      have hresult := result_of_walk (congrArg Prod.fst hwalk) hwords
      rw [hwalk] at hresult
      split
      · rename_i host hhost
        have hcovers := covers_of_bind hresult hhost
        refine ⟨congrArg Except.ok (hthrough hcovers).2, hctx.symm, hflushed ▸ ?_⟩
        refine ⟨hc'.tlb, hc'.dread, hc'.dwrite, fun host' heq _ va' hblk ↦ ?_⟩
        obtain rfl := Option.some.inj heq
        exact hcovers.block (sameBlock_of_clear hblk.symm)
      · have hctx' : (busRead bus (fetchWidth thumb) t.ctx pa).2 = t'.ctx := by
          rw [hram.read, hctx]
        exact ⟨rfl, hctx', hflushed ▸ hc'⟩

theorem walk_of_refillBlock (hc : Coherent bus p base h) {paBlock : Word}
    (hblock : refillBlock p h va priv = some paBlock) :
    ∃ pa, (∀ pa₀, (walkVerdict bus p base va .fetch priv).1.result va pa₀ = (0, pa)) ∧
      paBlock = pa &&& ~~~0x3ff := by
  unfold refillBlock at hblock
  split at hblock
  · rename_i hM
    obtain rfl := Option.some.inj hblock
    exact ⟨va, fun pa₀ ↦ walk_of_disabled (by simpa using hM) pa₀, rfl⟩
  simp only at hblock
  split at hblock
  · cases hblock
  rename_i hvalid
  simp only [not_or, not_not] at hvalid
  obtain ⟨-, hstamp, hgen, htag, hfsr⟩ := hvalid
  obtain rfl := Option.some.inj hblock
  have hstands := hc.tlb.valid _ hgen
  rw [hstamp] at hstands
  have hanswer (va' : Word) (hsame : SameBlock va va') (pa₀ : Word) :
      ((0 : Word), (h.tlb (mmuTlbSlot va .fetch)).pa ||| (va' &&& 0x3ff)) =
        (walkVerdict bus p base va' .fetch priv).1.result va' pa₀ := by
    have htag' : mmuTlbTag va .fetch priv = mmuTlbTag va' .fetch priv := by
      unfold mmuTlbTag
      rw [hsame]
    rw [← hstands va' .fetch priv (htag.trans htag') pa₀, TlbEntry.answer, if_pos hfsr, hfsr]
  refine ⟨_, fun pa₀ ↦ (hanswer va rfl pa₀).symm, ?_⟩
  -- the entry holds what the walk finds for the first address of the block
  have hfirst : SameBlock va (va &&& ~~~0x3ff) := sameBlock_of_clear (and_and_self ..).symm
  have hzero : (va &&& ~~~0x3ff) &&& (0x3ff : Word) = 0 := and_and_disjoint (by decide)
  have hfound := result_of_block blocks_walkVerdict hfirst
    (fun pa₀ ↦ (hanswer va rfl pa₀).symm) 0
  rw [walkVerdict_congr hfirst, ← hanswer _ hfirst 0, hzero] at hfound
  simpa using congrArg Prod.snd hfound

theorem Coherent.refill (hc : Coherent bus p base h) :
    Coherent bus p base (armFetchCacheTryRefill bus p h va priv).2 := by
  unfold armFetchCacheTryRefill
  split
  · exact hc
  split
  · exact hc
  split
  · exact hc
  · rename_i host hhost
    obtain ⟨paBlock, hblock, hexpose⟩ := Option.bind_eq_some_iff.1 hhost
    obtain ⟨pa, hresult, rfl⟩ := walk_of_refillBlock hc hblock
    have hcovers := covers_of_bind hresult hexpose
    refine ⟨hc.tlb, hc.dread, hc.dwrite, fun host' heq _ va' hsame ↦ ?_⟩
    obtain rfl := Option.some.inj heq
    exact hcovers.block (sameBlock_of_clear hsame.symm)

end S5LBox.Arm
