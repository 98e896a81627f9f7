import S5LBox.Library.Generation
import S5LBox.Library.Run
import S5LBox.Arm.Frame

/-!
# Transparency of the translation cache

A cached verdict stands for the walk of every address of its 1 KB block, because a walk looks at
an address above that granularity only. So the cache answers as the walk would, as long as the
words the walks read are those of the last flush.
-/

namespace S5LBox.Arm

open BitVec

variable {σ : Type} {bus : Bus σ} {p : TlbStamp} {ctx : σ} {va va' : Word} {acc : Access}
  {priv : Bool}

/-- Two addresses of one 1 KB block. -/
def SameBlock (va va' : Word) : Prop := va >>> 10 = va' >>> 10

section

variable (h : SameBlock va va')

include h

theorem SameBlock.shift (k : ℕ) : va >>> (10 + k) = va' >>> (10 + k) := by
  rw [shiftRight_add, shiftRight_add, h]

theorem usesTtbr0_congr : usesTtbr0 p va = usesTtbr0 p va' := by
  have hn : (p.ttbcr &&& 7).toNat ≤ 7 := by
    rw [toNat_and]
    exact Nat.and_le_right
  have hshift : va >>> (32 - (p.ttbcr &&& 7).toNat) = va' >>> (32 - (p.ttbcr &&& 7).toNat) := by
    have hk : 32 - (p.ttbcr &&& 7).toNat = 10 + (22 - (p.ttbcr &&& 7).toNat) := by omega
    rw [hk]
    exact h.shift _
  unfold usesTtbr0
  simp only [hshift]

theorem l1Address_congr : l1Address p va = l1Address p va' := by
  have hshift : va >>> 20 = va' >>> 20 := h.shift 10
  unfold l1Address
  rw [usesTtbr0_congr h, hshift]

theorem l2Address_congr (l1 : Word) : l2Address va l1 = l2Address va' l1 := by
  have hshift : va >>> 12 = va' >>> 12 := h.shift 2
  rw [l2Address, l2Address, hshift]

theorem pagePermissions_congr (l2 : Word) : pagePermissions p va l2 = pagePermissions p va' l2 := by
  have hlarge : va >>> 14 = va' >>> 14 := h.shift 4
  have hsmall : va >>> 10 = va' >>> 10 := h
  rw [pagePermissions, pagePermissions, hlarge, hsmall]

omit h in
/-- The words a walk reads, each with its address: the first-level descriptor, and the
second-level one where the first names a page table. -/
def walkWords (bus : Bus σ) (p : TlbStamp) (ctx : σ) (va : Word) : List (Word × Word) :=
  if !p.flag sctlrM then []
  else if p.ttbcr &&& (if usesTtbr0 p va then 0x10 else 0x20) ≠ 0 then []
  else
    let (l1, ctx) := bus.read32 ctx (l1Address p va)
    if l1 &&& 3 = 0 ∨ l1 &&& 3 = 3 ∨ l1 &&& 3 = 2 then [(l1Address p va, l1)]
    else [(l1Address p va, l1), (l2Address va l1, (bus.read32 ctx (l2Address va l1)).1)]

theorem pageVerdict_congr (domain dac l2 : Word) :
    pageVerdict p va acc priv domain dac l2 = pageVerdict p va' acc priv domain dac l2 := by
  unfold pageVerdict
  rw [pagePermissions_congr h]

theorem walkVerdict_congr :
    walkVerdict bus p ctx va acc priv = walkVerdict bus p ctx va' acc priv := by
  unfold walkVerdict
  simp only [usesTtbr0_congr h, l1Address_congr h, l2Address_congr h, pageVerdict_congr h]

end

theorem walkVerdict_of_words {ctx' : σ} (h : walkWords bus p ctx va = walkWords bus p ctx' va) :
    (walkVerdict bus p ctx va acc priv).1 = (walkVerdict bus p ctx' va acc priv).1 := by
  unfold walkWords at h
  unfold walkVerdict
  by_cases hM : (!p.flag sctlrM) = true
  · rw [if_pos hM, if_pos hM]
  rw [if_neg hM, if_neg hM] at h ⊢
  by_cases hoff : p.ttbcr &&& (if usesTtbr0 p va then 0x10 else 0x20) ≠ 0
  · rw [if_pos hoff, if_pos hoff]
  rw [if_neg hoff, if_neg hoff] at h ⊢
  generalize bus.read32 ctx (l1Address p va) = first at h ⊢
  generalize bus.read32 ctx' (l1Address p va) = first' at h ⊢
  obtain ⟨l1, c⟩ := first
  obtain ⟨l1', c'⟩ := first'
  have hl1 : l1 = l1' := by
    simp only at h
    split at h <;> split at h <;> simp_all
  subst hl1
  simp only at h ⊢
  by_cases hfault : l1 &&& 3 = 0 ∨ l1 &&& 3 = 3
  · rw [if_pos hfault, if_pos hfault]
  rw [if_neg hfault, if_neg hfault]
  by_cases hsection : l1 &&& 3 = 2
  · rw [if_pos hsection, if_pos hsection]
  rw [if_neg hsection, if_neg hsection]
  have hpage : ¬(l1 &&& 3 = 0 ∨ l1 &&& 3 = 3 ∨ l1 &&& 3 = 2) := by tauto
  rw [if_neg hpage, if_neg hpage] at h
  have hl2 : (bus.read32 c (l2Address va l1)).1 = (bus.read32 c' (l2Address va l1)).1 := by
    simpa using h
  rw [hl2]

/-- A fault has a nonzero status, and a frame covers whole 1 KB blocks. -/
def Verdict.Blocks : Verdict → Prop
  | .fault fsr => fsr ≠ 0
  | .frame base mask => base &&& 0x3ff = 0 ∧ mask &&& 0x3ff = 0x3ff

theorem fsrMake_ne_zero {status : Word} (h : status &&& 0xf ≠ 0) (domain : Word) (write : Bool) :
    fsrMake status domain write ≠ 0 := by
  intro hzero
  have hdomain : ((domain &&& 0xf) <<< 4) &&& (0xf : Word) = 0 := by
    rw [shiftLeft_and_distrib]
    exact and_and_disjoint (by decide)
  have hlow : fsrMake status domain write &&& 0xf = status &&& 0xf := by
    unfold fsrMake
    rw [or_and_of_disjoint _ (by cases write <;> decide), or_and_of_disjoint _ hdomain,
      and_and_self]
  rw [hzero] at hlow
  exact h hlow.symm

theorem checkAccess_ne_zero {domain dac ap accessFlag domainFault permission fsr : Word}
    {apx xn : Bool} (haccess : accessFlag &&& 0xf ≠ 0) (hdomain : domainFault &&& 0xf ≠ 0)
    (hpermission : permission &&& 0xf ≠ 0)
    (h : checkAccess p acc priv domain dac ap apx xn accessFlag domainFault permission = some fsr) :
    fsr ≠ 0 := by
  unfold checkAccess at h
  simp only at h
  split at h
  · obtain rfl := Option.some.inj h
    exact fsrMake_ne_zero haccess _ _
  split at h
  · obtain rfl := Option.some.inj h
    exact fsrMake_ne_zero hdomain _ _
  split at h
  · obtain rfl := Option.some.inj h
    exact fsrMake_ne_zero hpermission _ _
  split at h
  · obtain rfl := Option.some.inj h
    exact fsrMake_ne_zero hpermission _ _
  · cases h

theorem blocks_sectionVerdict (domain dac l1 : Word) (supersection : Bool) :
    (sectionVerdict p acc priv domain dac l1 supersection).Blocks := by
  unfold sectionVerdict
  simp only
  split
  · rename_i hfault
    refine checkAccess_ne_zero ?_ ?_ ?_ hfault <;> decide
  split
  · exact ⟨and_and_disjoint (by decide), by decide⟩
  · exact ⟨and_and_disjoint (by decide), by decide⟩

theorem blocks_pageVerdict (domain dac l2 : Word) :
    (pageVerdict p va acc priv domain dac l2).Blocks := by
  unfold pageVerdict
  simp only
  split
  · refine fsrMake_ne_zero ?_ _ _
    decide
  split
  · rename_i hfault
    refine checkAccess_ne_zero ?_ ?_ ?_ hfault <;> decide
  split
  · exact ⟨and_and_disjoint (by decide), by decide⟩
  · exact ⟨and_and_disjoint (by decide), by decide⟩

theorem blocks_walkVerdict : (walkVerdict bus p ctx va acc priv).1.Blocks := by
  let blocks (x : Verdict × σ) : Prop := x.1.Blocks
  have hfault (x : σ) : blocks (.fault (fsrMake fsrSectionTranslation 0 (acc = .write)), x) := by
    refine fsrMake_ne_zero ?_ _ _
    decide
  show blocks (walkVerdict bus p ctx va acc priv)
  refine iteInduction (motive := blocks) (fun _ ↦ ⟨by decide, by decide⟩) fun _ ↦ ?_
  refine iteInduction (motive := blocks) (fun _ ↦ hfault _) fun _ ↦ ?_
  refine iteInduction (motive := blocks) (fun _ ↦ hfault _) fun _ ↦ ?_
  refine iteInduction (motive := blocks) (fun _ ↦ ?_) fun _ ↦ ?_
  · exact blocks_sectionVerdict ..
  · exact blocks_pageVerdict ..

theorem blockMask_bit : ∀ i : Fin 32, (0x3ff : Word)[i] = decide (i.val < 10) := by decide

theorem tagMask_bit : ∀ i : Fin 32, (7 : Word)[i] = decide (i.val < 3) := by decide

theorem frame_of_block {base mask : Word} (hbase : base &&& 0x3ff = 0)
    (hmask : mask &&& 0x3ff = 0x3ff) (h : SameBlock va va') :
    ((base ||| (va &&& mask)) &&& ~~~0x3ff) ||| (va' &&& 0x3ff) = base ||| (va' &&& mask) := by
  ext i hi
  have hb := congrArg (fun w : Word ↦ w[i]) hbase
  have hm := congrArg (fun w : Word ↦ w[i]) hmask
  have hlow : (0x3ff : Word)[i] = decide (i < 10) := blockMask_bit ⟨i, hi⟩
  simp only [getElem_and, getElem_or, getElem_not, hlow] at hb hm ⊢
  by_cases h10 : i < 10
  · simp only [h10, decide_true, Bool.and_true] at hb hm ⊢
    simp [hb, hm]
  · have hbit : va[i] = va'[i] := by
      have := congrArg (fun w : Word ↦ w.getLsbD (i - 10)) h
      simp only [getLsbD_ushiftRight] at this
      rwa [show 10 + (i - 10) = i by omega, getLsbD_eq_getElem hi, getLsbD_eq_getElem hi] at this
    simp [h10, hbit]

/-- What an entry answers for an address it covers. -/
def TlbEntry.answer (entry : TlbEntry) (va pa : Word) : Word × Word :=
  (entry.fsr, if entry.fsr = 0 then entry.pa ||| (va &&& 0x3ff) else pa)

/-- An entry stands for a walk when it answers as the walk does, for all it is tagged for. -/
def TlbEntry.Stands (bus : Bus σ) (p : TlbStamp) (ctx : σ) (entry : TlbEntry) : Prop :=
  ∀ va acc priv, entry.tag = mmuTlbTag va acc priv → ∀ pa,
    entry.answer va pa = (walkVerdict bus p ctx va acc priv).1.result va pa

theorem mmuTlbTag_shift (va : Word) (acc : Access) (priv : Bool) :
    mmuTlbTag va acc priv >>> 3 = va >>> 10 := by
  have hlow : (acc.code <<< 1 ||| if priv then 1 else 0 : Word) >>> 3 = 0 := by
    cases acc <;> cases priv <;> decide
  have hhigh : va >>> 10 <<< 3 >>> 3 = va >>> 10 := by
    ext i hi
    simp only [getElem_ushiftRight, getLsbD_shiftLeft, getLsbD_ushiftRight]
    by_cases h : 3 + i < 32
    · simp [h]
    · have : 32 ≤ 10 + i := by omega
      simp [h, getLsbD_of_ge _ _ this]
  unfold mmuTlbTag
  rw [BitVec.or_assoc, ushiftRight_or_distrib, hlow, hhigh]
  exact or_zero

theorem mmuTlbTag_low (va : Word) (acc : Access) (priv : Bool) :
    mmuTlbTag va acc priv &&& (7 : Word) = (acc.code <<< 1) ||| (if priv then 1 else 0) := by
  have hhigh : va >>> 10 <<< 3 &&& (7 : Word) = 0 := by
    ext i hi
    have hseven : (7 : Word)[i] = decide (i < 3) := tagMask_bit ⟨i, hi⟩
    simp only [getElem_and, getElem_shiftLeft, hseven]
    by_cases h : i < 3 <;> simp [h]
  unfold mmuTlbTag
  rw [BitVec.or_assoc, BitVec.or_comm, or_and_of_disjoint _ hhigh]
  cases acc <;> cases priv <;> decide

theorem mmuTlbTag_inj {acc' : Access} {priv' : Bool}
    (h : mmuTlbTag va acc priv = mmuTlbTag va' acc' priv') :
    SameBlock va va' ∧ acc = acc' ∧ priv = priv' := by
  have hshift : va >>> 10 = va' >>> 10 := by
    rw [← mmuTlbTag_shift va acc priv, h, mmuTlbTag_shift]
  have hlow := congrArg (· &&& (7 : Word)) h
  simp only [mmuTlbTag_low] at hlow
  refine ⟨hshift, ?_⟩
  revert hlow
  cases acc <;> cases acc' <;> cases priv <;> cases priv' <;> decide

/-- The entry a miss fills in. -/
def filledEntry (gen tag : Word) (walked : Word × Word) : TlbEntry where
  gen := gen
  tag := tag
  fsr := walked.1
  pa := if walked.1 = 0 then walked.2 &&& ~~~0x3ff else 0

theorem stands_filledEntry {base : σ} (gen pa : Word)
    (hwords : walkWords bus p base va = walkWords bus p ctx va) :
    (filledEntry gen (mmuTlbTag va acc priv)
      ((walkVerdict bus p ctx va acc priv).1.result va pa)).Stands bus p base := by
  intro va' acc' priv' htag pa'
  obtain ⟨hblock, rfl, rfl⟩ := mmuTlbTag_inj htag
  have hblocks : (walkVerdict bus p base va acc priv).1.Blocks := blocks_walkVerdict
  rw [← walkVerdict_congr hblock, ← walkVerdict_of_words hwords]
  generalize (walkVerdict bus p base va acc priv).1 = verdict at hblocks ⊢
  cases verdict with
  | fault fsr =>
    have hfsr : (filledEntry gen (mmuTlbTag va acc priv) ((Verdict.fault fsr).result va pa)).fsr ≠
        0 := hblocks
    rw [TlbEntry.answer, if_neg hfsr]
    rfl
  | frame base mask =>
    obtain ⟨hbase, hmask⟩ := hblocks
    simp only [TlbEntry.answer, filledEntry, Verdict.result, if_true]
    rw [frame_of_block hbase hmask hblock]

/-- Every valid entry stands for a walk with the stamped registers, over the memory `base`. -/
def Caches.TlbSound (bus : Bus σ) (base : σ) (h : Caches) : Prop :=
  Generation.Live TlbEntry.gen (TlbEntry.Stands bus h.tlbStamp base) h.tlbGen h.tlb

theorem tlbSound_reset (stamp : TlbStamp) : (cachesReset stamp).TlbSound bus ctx :=
  .clear rfl (show (1 : Word) ≠ 0 by decide)

theorem live_flush {good : TlbEntry → Prop} {h : Caches}
    (hlive : Generation.Live TlbEntry.gen good h.tlbGen h.tlb) (good' : TlbEntry → Prop) :
    Generation.Live TlbEntry.gen good' (armMmuTlbFlush h).tlbGen (armMmuTlbFlush h).tlb := by
  unfold armMmuTlbFlush
  simp only
  split
  · exact .clear rfl (show (1 : Word) ≠ 0 by decide)
  · rename_i hwrap
    exact hlive.next hwrap

theorem tlbSound_flush {base base' : σ} {h : Caches} (hsound : h.TlbSound bus base) :
    (armMmuTlbFlush h).TlbSound bus base' := live_flush hsound _

theorem stamp_tlbRestamp (p : TlbStamp) (h : Caches) : (tlbRestamp p h).tlbStamp = p := by
  unfold tlbRestamp
  generalize (if h.tlbGen = 0 then { h with tlbGen := 1 } else h) = h
  simp only
  split
  · rfl
  · rename_i hsame
    exact not_not.1 hsame

theorem tlbSound_tlbRestamp {base : σ} {h : Caches} (hsound : h.TlbSound bus base) :
    (tlbRestamp p h).TlbSound bus base := by
  have hgen : (if h.tlbGen = 0 then { h with tlbGen := 1 } else h) = h :=
    if_neg hsound.current
  unfold tlbRestamp
  simp only [hgen]
  split
  · exact live_flush hsound _
  · exact hsound

theorem walk_of_disabled (hM : p.flag sctlrM = false) (pa : Word) :
    (mmuWalk bus p ctx va acc priv pa).1 = (0, va) := by
  have hall : va &&& (0xffffffff : Word) = va := and_allOnes
  have hzero : (0 : Word) ||| va = va := zero_or
  have hverdict : walkVerdict bus p ctx va acc priv = (.frame 0 0xffffffff, ctx) := by
    rw [walkVerdict, if_pos (by simp [hM])]
  rw [mmuWalk, hverdict]
  simp only [Verdict.result, hall, hzero]

theorem armMmuTranslate_sound {base : σ} {h : Caches} (hsound : h.TlbSound bus base)
    (hwords : walkWords bus p base va = walkWords bus p ctx va) (pa : Word) :
    (armMmuTranslate bus p h ctx va acc priv pa).1 = (mmuWalk bus p ctx va acc priv pa).1 ∧
      (armMmuTranslate bus p h ctx va acc priv pa).2.1.TlbSound bus base := by
  unfold armMmuTranslate
  by_cases hM : (!p.flag sctlrM) = true
  · rw [if_pos hM]
    exact ⟨(walk_of_disabled (by simpa using hM) pa).symm, hsound⟩
  rw [if_neg hM]
  have hrestamped : (tlbRestamp p h).TlbSound bus base := tlbSound_tlbRestamp hsound
  have hstamp := stamp_tlbRestamp p h
  generalize tlbRestamp p h = h at hrestamped hstamp ⊢
  have hwalk : (mmuWalk bus p ctx va acc priv pa).1 =
      (walkVerdict bus p ctx va acc priv).1.result va pa := rfl
  simp only
  split
  · rename_i hhit
    refine ⟨?_, hrestamped⟩
    have hstands := hrestamped.valid _ hhit.1 va acc priv hhit.2 pa
    rw [hstamp, walkVerdict_of_words hwords] at hstands
    rw [hwalk, ← hstands]
    rfl
  · refine ⟨rfl, ?_⟩
    refine hrestamped.set _ rfl ?_
    rw [hstamp]
    exact stands_filledEntry h.tlbGen pa hwords

/-- The registers, the cache and the memory a translation depends on, with the memory as it was at
the last flush. -/
structure Session (σ : Type) where
  cp15 : Cp15
  caches : Caches
  ctx : σ
  flushed : σ

/-- What can happen between two translations. -/
inductive SessionEvent (σ : Type) where
  | translate (va : Word) (acc : Access) (priv : Bool) (pa : Word)
  | cp15 (crn crm : BitVec 4) (opc2 : BitVec 3) (value : Word)
  | direct (regs : TlbStamp)
  | flush
  | memory (ctx : σ)

/-- Direct writes to the six stamped registers. -/
def Cp15.withStamp (p : Cp15) (regs : TlbStamp) : Cp15 :=
  { p with
    sctlr := regs.sctlr
    ttbr0 := regs.ttbr0
    ttbr1 := regs.ttbr1
    ttbcr := regs.ttbcr
    dacr := regs.dacr
    contextId := regs.contextId }

def SessionEvent.apply (bus : Bus σ) (s : Session σ) : SessionEvent σ → Session σ
  | .translate va acc priv pa =>
    let (_, h, ctx) := armMmuTranslate bus s.cp15.stamp s.caches s.ctx va acc priv pa
    { s with caches := h, ctx := ctx }
  | .cp15 crn crm opc2 value =>
    match cp15Write s.cp15 crn crm opc2 value with
    | (p, false) => { s with cp15 := p }
    | (p, true) => { s with cp15 := p, caches := armMmuTlbFlush s.caches, flushed := s.ctx }
  | .direct regs => { s with cp15 := s.cp15.withStamp regs }
  | .flush => { s with caches := armMmuTlbFlush s.caches, flushed := s.ctx }
  | .memory ctx => { s with ctx := ctx }

/-- The page-table words are those of the last flush: every walk reads the same ones. -/
def Session.TablesKept (bus : Bus σ) (s : Session σ) : Prop :=
  ∀ va, walkWords bus s.cp15.stamp s.flushed va = walkWords bus s.cp15.stamp s.ctx va

/-- Changed page-table words are followed by a flush before the next translation. -/
def Flushed (bus : Bus σ) (s : Session σ) : SessionEvent σ → Prop
  | .translate .. => s.TablesKept bus
  | _ => True

def Session.start (cpu : Cpu) (ctx : σ) : Session σ where
  cp15 := (armReset cpu).core.cp15
  caches := (armReset cpu).caches
  ctx := ctx
  flushed := ctx

theorem tlbSound_apply (s : Session σ) (event : SessionEvent σ)
    (hsound : s.caches.TlbSound bus s.flushed) (hflushed : Flushed bus s event) :
    (event.apply bus s).caches.TlbSound bus (event.apply bus s).flushed := by
  cases event with
  | translate va acc priv pa => exact (armMmuTranslate_sound hsound (hflushed va) pa).2
  | cp15 crn crm opc2 value =>
    unfold SessionEvent.apply
    simp only
    split
    · exact hsound
    · exact tlbSound_flush hsound
  | direct regs => exact hsound
  | flush => exact tlbSound_flush hsound
  | memory ctx => exact hsound

theorem mmuWalk_fault {pa : Word} (hfault : (mmuWalk bus p ctx va acc priv pa).1.1 ≠ 0) :
    (mmuWalk bus p ctx va acc priv pa).1.2 = pa := by
  have hresult : (mmuWalk bus p ctx va acc priv pa).1 =
      (walkVerdict bus p ctx va acc priv).1.result va pa := rfl
  rw [hresult] at hfault ⊢
  cases hverdict : (walkVerdict bus p ctx va acc priv).1 with
  | fault fsr => rfl
  | frame base mask =>
    rw [hverdict] at hfault
    exact absurd rfl hfault

/-- After any session from reset in which changed page tables are flushed before they are used, a
translation returns what the walk returns, writes the walk's address, and on a fault leaves `*pa`
as it was. -/
theorem translate_transparent (bus : Bus σ) (cpu : Cpu) (ctx : σ) (events : List (SessionEvent σ))
    (va : Word) (acc : Access) (priv : Bool) (pa : Word)
    (hflushed : Run.Within (SessionEvent.apply bus) (Flushed bus) (Session.start cpu ctx)
      (events ++ [.translate va acc priv pa])) :
    let s := Run.run (SessionEvent.apply bus) (Session.start cpu ctx) events
    let result := (armMmuTranslate bus s.cp15.stamp s.caches s.ctx va acc priv pa).1
    result = (mmuWalk bus s.cp15.stamp s.ctx va acc priv pa).1 ∧ (result.1 ≠ 0 → result.2 = pa) := by
  intro s result
  obtain ⟨hbefore, hnow, -⟩ := (Run.within_append ..).1 hflushed
  have hsound : s.caches.TlbSound bus s.flushed :=
    Run.invariant_of_within (fun s : Session σ ↦ s.caches.TlbSound bus s.flushed) tlbSound_apply
      (tlbSound_reset _) hbefore
  have hresult : result = (mmuWalk bus s.cp15.stamp s.ctx va acc priv pa).1 :=
    (armMmuTranslate_sound hsound (hnow va) pa).1
  refine ⟨hresult, fun hfault ↦ ?_⟩
  rw [hresult] at hfault ⊢
  exact mmuWalk_fault hfault

/-- Memory in which every word is a section descriptor of domain 0. -/
def sectionBus : Bus Unit where
  read32 _ _ := (0x00000c02, ())
  read16 _ _ := (0, ())
  read8 _ _ := (0, ())
  write32 _ _ _ := ()
  write16 _ _ _ := ()
  write8 _ _ _ := ()
  hostRam := none
  hostRamWrite := none
  hostLoad _ _ := 0
  hostStore _ _ _ := ()
  waitForInterrupt := none
  privilegedSvcHandler := none

/-- The second translation of a block, after the MMU is switched on by a direct write. -/
theorem translate_transparent_hit :
    let cpu : Cpu := ⟨coreReset .v6Arm1176, {}⟩
    let s := Run.run (SessionEvent.apply sectionBus) (Session.start cpu ())
      [.direct { sctlr := sctlrM, dacr := 1 }, .translate 0x1004 .read false 0]
    (armMmuTranslate sectionBus s.cp15.stamp s.caches s.ctx 0x1008 .read false 0).1 =
      (mmuWalk sectionBus s.cp15.stamp s.ctx 0x1008 .read false 0).1 :=
  (translate_transparent sectionBus ⟨coreReset .v6Arm1176, {}⟩ ()
    [.direct { sctlr := sctlrM, dacr := 1 }, .translate 0x1004 .read false 0] 0x1008 .read false 0
    ⟨trivial, fun _ ↦ rfl, fun _ ↦ rfl, trivial⟩).1

end S5LBox.Arm
