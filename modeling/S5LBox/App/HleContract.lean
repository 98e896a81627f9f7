import S5LBox.App.HleDirect
import S5LBox.App.FirmwareRun

/-!
# The contract of a native routine

A call that is refused leaves the core and guest memory alone. A call that is taken returns through
the link register, by a plain copy: it is the return of the routine it replaces when the link
register names an ARM instruction and the call was in ARM state. What it publishes stays within its
destination, and a rectangle is the one drawn directly, where the tables that the call goes through
lie in the memory and apart from the destination, and no octet of the destination is read at
another address.
-/

namespace S5LBox.Hle

open Function BitVec S5LBox.Arm S5LBox.Soc
open BitVec (ofNat)
open Function (update)

variable {σ : Type} {fpu : HostFpu} {bus : Bus σ} {dram : Dram} {host : HostPtr} {p : TlbStamp}

/-- The core after `BX lr`. -/
def returned (c : Core) : Core :=
  (interwork c (c.r 14)).1.setR 15 (interwork c (c.r 14)).2

theorem and_not_eq_self_iff (w mask : Word) : w &&& ~~~mask = w ↔ w &&& mask = 0 := by
  constructor
  · intro h
    rw [← h, BitVec.and_assoc, BitVec.and_comm (~~~mask), BitVec.and_not_self]
    exact and_zero
  · intro h
    ext i hi
    have hbit := congrArg (fun w : Word ↦ w.getLsbD i) h
    rw [getLsbD_and, getLsbD_eq_getElem hi, getLsbD_eq_getElem hi] at hbit
    have hzero : (0 : Word).getLsbD i = false := getLsbD_zero
    rw [getElem_and, getElem_not]
    rw [hzero] at hbit
    cases hw : w[i] with
    | false => rfl
    | true =>
      rw [hw, Bool.true_and] at hbit
      rw [hbit]
      rfl

/-- The plain copy of the link register is the return where that is aligned for ARM state and the
call was in it. -/
theorem setR_eq_returned_iff (c : Core) :
    c.setR 15 (c.r 14) = returned c ↔ c.r 14 &&& 3 = 0 ∧ c.cpsr &&& cpsrT = 0 := by
  have hpc (c' : Core) (value : Word) : (c'.setR 15 value).r 15 = value := Core.setR_self ..
  have hcpsr (c' : Core) (value : Word) : (c'.setR 15 value).cpsr = c'.cpsr := rfl
  rw [returned, interwork]
  cases hbit : bit (c.r 14) 0 with
  | true =>
    have hodd : c.r 14 &&& 1 ≠ 0 := by
      intro hzero
      have hget := congrArg (fun w : Word ↦ w.getLsbD 0) hzero
      rw [bit] at hbit
      simp only [getLsbD_and, hbit] at hget
      contradiction
    refine iff_of_false (fun h ↦ ?_) fun h ↦ ?_
    · have hlr := congrArg (fun c : Core ↦ c.r 15) h
      simp only [if_true, hpc] at hlr
      exact hodd ((and_not_eq_self_iff _ _).1 hlr.symm)
    · apply hodd
      rw [show (1 : Word) = 3 &&& 1 by decide, ← BitVec.and_assoc, h.1]
      rfl
  | false =>
    simp only [Bool.false_eq_true, if_false]
    constructor
    · intro h
      have hlr := congrArg (fun c : Core ↦ c.r 15) h
      have hstate := congrArg Core.cpsr h
      simp only [hpc, hcpsr] at hlr hstate
      exact ⟨(and_not_eq_self_iff _ _).1 hlr.symm, (and_not_eq_self_iff _ _).1 hstate.symm⟩
    · rintro ⟨hlr, hstate⟩
      rw [(and_not_eq_self_iff _ _).2 hlr, Core.clearT, (and_not_eq_self_iff _ _).2 hstate]

variable {t : Caches × σ}

section

variable (hbus : HleBus bus dram host)

include hbus

theorem hostLoad_walkVerdict (ctx : σ) (va : Word) (acc : Access) (priv : Bool) (place : HostPtr) :
    bus.hostLoad (walkVerdict bus p ctx va acc priv).2 place = bus.hostLoad ctx place := by
  have hfirst := hbus.readLoad ctx (l1Address p va) place
  unfold walkVerdict
  by_cases hM : (!p.flag sctlrM) = true
  · rw [if_pos hM]
  rw [if_neg hM]
  by_cases hoff : p.ttbcr &&& (if usesTtbr0 p va then 0x10 else 0x20) ≠ 0
  · rw [if_pos hoff]
  rw [if_neg hoff]
  generalize bus.read32 ctx (l1Address p va) = first at *
  obtain ⟨l1, after⟩ := first
  simp only at hfirst ⊢
  split
  · exact hfirst
  split
  · exact hfirst
  · exact (hbus.readLoad after _ place).trans hfirst

theorem hostLoad_translate (va : Word) (acc : Access) (pa : Word) (place : HostPtr) :
    bus.hostLoad (armMmuTranslate bus p t.1 t.2 va acc false pa).2.2 place =
      bus.hostLoad t.2 place := by
  have hwalk := hostLoad_walkVerdict (p := p) hbus t.2 va acc false place
  unfold armMmuTranslate
  split
  · rfl
  simp only
  split
  · rfl
  · exact hwalk

theorem hostLoad_hleTranslate (acc : Access) (va : Word) (chunk : ℕ) (place : HostPtr) :
    bus.hostLoad (hleTranslate bus dram p acc va chunk t).2.2 place = bus.hostLoad t.2 place := by
  have htranslate := hostLoad_translate (p := p) (t := t) hbus va acc 0 place
  simp only [hleTranslate]
  split
  · exact htranslate
  split
  · exact htranslate
  · exact htranslate

theorem hostLoad_run {α : Type} (program : Program hleInterface α) (place : HostPtr) :
    bus.hostLoad (Program.run (hleRead bus dram p) program t).2.2 place = bus.hostLoad t.2 place :=
  hleRun_keeps (f := fun t : Caches × σ ↦ bus.hostLoad t.2 place)
    (fun va chunk _ ↦ hostLoad_hleTranslate hbus .read va chunk place) program t

theorem hostLoad_hleValidate (va : Word) (pieces : List (ℕ × ℕ)) (place : HostPtr) :
    bus.hostLoad (hleValidate bus dram p va pieces t).2.2 place = bus.hostLoad t.2 place := by
  induction pieces generalizing t with
  | nil => rfl
  | cons piece rest ih =>
    have hsame := hostLoad_hleTranslate (p := p) (t := t) hbus .write
      (va + ofNat 32 piece.1) piece.2 place
    rw [hleValidate]
    generalize hleTranslate bus dram p .write (va + ofNat 32 piece.1) piece.2 t = answer at *
    obtain ⟨_ | offset, after⟩ := answer
    · exact hsame
    · exact ih.trans hsame

theorem hostLoad_hleValidateSpans (spans : List Span) (place : HostPtr) :
    bus.hostLoad (hleValidateSpans bus dram p spans t).2.2 place = bus.hostLoad t.2 place := by
  induction spans generalizing t with
  | nil => rfl
  | cons span rest ih =>
    have hsame := hostLoad_hleValidate (p := p) (t := t) hbus span.va
      (hlePieces span.va span.src.length span.src.length 0) place
    rw [hleValidateSpans]
    split
    · rfl
    generalize hleValidate bus dram p span.va
      (hlePieces span.va span.src.length span.src.length 0) t = answer at *
    obtain ⟨_ | _, after⟩ := answer
    · exact hsame
    · exact ih.trans hsame

omit hbus in
theorem hostLoad_of_refused (hbus : HleBus bus dram host) {spans : List Span}
    (h : (hlePublishSpans bus dram p spans t).1 = false) (place : HostPtr) :
    bus.hostLoad (hlePublishSpans bus dram p spans t).2.2 place = bus.hostLoad t.2 place := by
  have hsame := hostLoad_hleValidateSpans (p := p) (t := t) hbus spans place
  rw [hlePublishSpans] at h ⊢
  split at h
  · contradiction
  next hsome =>
  rw [if_neg hsome]
  rw [hleWritev] at h ⊢
  cases hhost : dram.host with
  | none => rfl
  | some host' =>
    simp only [hhost] at h ⊢
    split at h
    · next hcount => rw [if_pos hcount]
    · next hcount =>
      rw [if_neg hcount]
      generalize hleValidateSpans bus dram p spans t = answer at *
      obtain ⟨_ | _, after⟩ := answer
      · exact hsame
      · contradiction

variable {native : Native} {ctx : σ}

theorem runNative_refused {cpu : Cpu}
    (h : (runNative fpu bus dram native cpu ctx).1 = false) (place : HostPtr) :
    bus.hostLoad (runNative fpu bus dram native cpu ctx).2.2 place = bus.hostLoad ctx place := by
  have hread := hostLoad_run (p := cpu.core.cp15.stamp) (t := (cpu.caches, ctx)) hbus
    (native.routine fpu cpu.core.r).run place
  simp only [runNative] at h ⊢
  generalize Program.run (hleRead bus dram cpu.core.cp15.stamp)
    (native.routine fpu cpu.core.r).run (cpu.caches, ctx) = answer at *
  obtain ⟨_ | spans, t⟩ := answer
  · exact hread
  · have hrefused := @hostLoad_of_refused _ _ _ _ cpu.core.cp15.stamp t hbus spans
    simp only at h ⊢
    generalize hlePublishSpans bus dram cpu.core.cp15.stamp spans t = published at *
    obtain ⟨_ | _, after⟩ := published
    · exact (hrefused rfl place).trans hread
    · contradiction

omit hbus in
/-- The native routine a step of the hook comes to, and the processor and memory it is entered
with. -/
def nativeEntry (bus : Bus σ) (dram : Dram) (hle : HleState) (m : S5l8900 σ) :
    Option (Native × Cpu × σ) :=
  if !hle.active ∨ m.cpu.core.isPriv then none
  else
    let pc := m.cpu.core.r 15 &&& ~~~1
    match siteAtPc pc with
    | none => none
    | some site =>
      match hleRearm bus dram hle site m.cpu m.ctx with
      | (false, _) => none
      | (true, hle, cpu, ctx) =>
        match sites.find? fun site ↦ hle.armed.contains site.va && site.va = pc with
        | none => none
        | some site =>
          if hle.ttbr0 ≠ 0 ∧ ttbr0Base m.cpu.core.cp15 ≠ hle.ttbr0 then none
          else
            match site.mode with
            | .replace native => some (native, cpu, ctx)
            | _ => none

theorem hostLoad_hleRearm (hle : HleState) (site : Site) (cpu : Cpu) (ctx : σ) (place : HostPtr) :
    bus.hostLoad (hleRearm bus dram hle site cpu ctx).2.2.2 place = bus.hostLoad ctx place := by
  have harm (space : Word) : bus.hostLoad (ios3HleArm bus dram cpu.core.cp15.stamp space hle
      (cpu.caches, ctx)).2.2 place = bus.hostLoad ctx place :=
    hostLoad_run (t := (cpu.caches, ctx)) hbus (armSites sites) place
  rw [hleRearm]
  simp only
  split
  · split
    · exact harm (ttbr0Base cpu.core.cp15)
    · exact harm (ttbr0Base cpu.core.cp15)
  · split
    · exact harm hle.space
    · rfl

end

/-- A step of the hook is the routine it comes to, or nothing. -/
def Enters (fpu : HostFpu) (bus : Bus σ) (dram : Dram) (m : S5l8900 σ)
    (after : Bool × HleState × Cpu × σ) : Option (Native × Cpu × σ) → Prop
  | none => after.1 = false ∧ ∀ place, bus.hostLoad after.2.2.2 place = bus.hostLoad m.ctx place
  | some (native, cpu, ctx) => cpu.core = m.cpu.core ∧
      (∀ place, bus.hostLoad ctx place = bus.hostLoad m.ctx place) ∧
      after.1 = (runNative fpu bus dram native cpu ctx).1 ∧
      after.2.2.2 = (runNative fpu bus dram native cpu ctx).2.2

theorem enters_hlePreStep {ramBase : Word} {hle : HleState} {m : S5l8900 σ}
    (hbus : HleBus bus ⟨ramBase, some host, m.ramSize⟩ host) :
    Enters fpu bus ⟨ramBase, some host, m.ramSize⟩ m
      (hlePreStep fpu bus ramBase (some host) hle m)
      (nativeEntry bus ⟨ramBase, some host, m.ramSize⟩ hle m) := by
  rw [hlePreStep, nativeEntry]
  by_cases hpassed : !hle.active ∨ m.cpu.core.isPriv
  · rw [if_pos hpassed, if_pos hpassed]
    exact ⟨rfl, fun _ ↦ rfl⟩
  rw [if_neg hpassed, if_neg hpassed]
  simp only
  cases siteAtPc (m.cpu.core.r 15 &&& ~~~1) with
  | none => exact ⟨rfl, fun _ ↦ rfl⟩
  | some site =>
    have hcore := @hleRearm_core σ bus ⟨ramBase, some host, m.ramSize⟩ hle site m.cpu m.ctx
    have hload := hostLoad_hleRearm hbus hle site m.cpu m.ctx
    simp only
    generalize hleRearm bus ⟨ramBase, some host, m.ramSize⟩ hle site m.cpu m.ctx = rearmed at *
    obtain ⟨_ | _, armed, cpu, ctx⟩ := rearmed
    · exact ⟨rfl, hload⟩
    · simp only [ios3HleStep]
      cases sites.find? fun site ↦
          armed.armed.contains site.va && decide (site.va = m.cpu.core.r 15 &&& ~~~1) with
      | none => exact ⟨rfl, hload⟩
      | some site =>
        simp only
        by_cases hspace : armed.ttbr0 ≠ 0 ∧ ttbr0Base m.cpu.core.cp15 ≠ armed.ttbr0
        · rw [if_pos hspace, if_pos hspace]
          exact ⟨rfl, hload⟩
        · rw [if_neg hspace, if_neg hspace]
          cases site.mode with
          | observe => exact ⟨rfl, hload⟩
          | trace => exact ⟨rfl, hload⟩
          | replace native => exact ⟨hcore, hload, rfl, rfl⟩

/-- The accesses of a call do not disturb each other: their tables lie in the memory and the cached
translations agree with them, and the destination is no part of a table and has no second
address. -/
structure Undisturbed (fpu : HostFpu) (bus : Bus σ) (dram : Dram) (native : Native) (cpu : Cpu)
    (ctx : σ) (uses : Word → Access → Prop) : Prop where
  steady : Steady bus dram cpu.core.cp15.stamp uses (cpu.caches, ctx)
  asks : Program.Asks (hleRead bus dram cpu.core.cp15.stamp) (Reads uses)
    (native.routine fpu cpu.core.r).run (cpu.caches, ctx)
  alone : ∀ spans, (Program.run (hleRead bus dram cpu.core.cp15.stamp)
    (native.routine fpu cpu.core.r).run (cpu.caches, ctx)).1 = some spans →
      Alone bus dram cpu.core.cp15.stamp ctx uses (Covered spans)

/-- A place of the memory that a call's destination includes. -/
def Destination (fpu : HostFpu) (bus : Bus σ) (dram : Dram) (host : HostPtr) (native : Native)
    (cpu : Cpu) (ctx : σ) (other : HostPtr) : Prop :=
  ∃ spans va, (Program.run (hleRead bus dram cpu.core.cp15.stamp)
      (native.routine fpu cpu.core.r).run (cpu.caches, ctx)).1 = some spans ∧
    Covered spans va ∧ other = host + place bus dram cpu.core.cp15.stamp ctx va

theorem asks_of_forall {τ α : Type} {handler : Program.Handler hleInterface τ} {good : ReadOp → Prop}
    (h : ∀ op, good op) (program : Program hleInterface α) (s : τ) :
    Program.Asks handler good program s := by
  induction program generalizing s with
  | done value => trivial
  | request op next ih => exact ⟨h op, ih _ _⟩

theorem blank_tlbRestamp {caches : Caches} (h : ∀ slot, (caches.tlb slot).gen = 0)
    (slot : BitVec 12) : ((tlbRestamp p caches).tlb slot).gen = 0 := by
  have hfirst : ∀ slot, ((if caches.tlbGen = 0 then { caches with tlbGen := 1 }
      else caches).tlb slot).gen = 0 := by
    split
    · exact h
    · exact h
  unfold tlbRestamp
  generalize (if caches.tlbGen = 0 then { caches with tlbGen := 1 } else caches) = caches at *
  simp only
  split
  · unfold armMmuTlbFlush
    simp only
    split
    · rfl
    · exact hfirst slot
  · exact hfirst slot

theorem userOffset_off (hoff : p.flag sctlrM = false) (acc : Access) (va : Word) :
    userOffset bus dram p ctx acc va =
      if va.toNat < dram.base.toNat ∨ dram.size < va.toNat - dram.base.toNat + 1 then none
      else some (va.toNat - dram.base.toNat) := by
  have hall : va &&& (0xffffffff : Word) = va := and_allOnes
  have hzero : (0 : Word) ||| va = va := zero_or
  have hverdict : (walkVerdict bus p ctx va acc false).1 = .frame 0 0xffffffff := by
    rw [walkVerdict, if_pos (by simp [hoff])]
  rw [userOffset, hverdict, Verdict.offset, hall, hzero]

theorem undisturbed_off {cpu : Cpu} (hoff : cpu.core.cp15.stamp.flag sctlrM = false)
    (hblank : ∀ slot, (cpu.caches.tlb slot).gen = 0) :
    Undisturbed fpu bus dram native cpu ctx fun _ _ ↦ True := by
  have hwords (va : Word) : walkWords bus cpu.core.cp15.stamp ctx va = [] := by
    rw [walkWords, if_pos (by simp [hoff])]
  refine ⟨⟨fun va acc _ w hw ↦ ?_, fun va acc _ hgen ↦ ?_⟩, asks_of_forall (fun op i _ ↦ trivial) _ _,
    fun spans _ ↦ ⟨fun _ _ _ _ ↦ trivial, fun va offset _ _ va' acc _ w hw ↦ ?_, ?_⟩⟩
  · rw [hwords] at hw
    contradiction
  · rw [blank_tlbRestamp hblank] at hgen
    exact absurd hgen.symm (tlbGen_tlbRestamp _ _)
  · rw [hwords] at hw
    contradiction
  · intro va other offset _ _ hread hwrite
    rw [userOffset_off hoff] at hread hwrite
    split at hread
    · contradiction
    split at hwrite
    · contradiction
    rw [Option.some.injEq] at hread hwrite
    apply eq_of_toNat_eq
    omega

/-- What an undisturbed call that is taken publishes: its spans, each octet at its place. -/
theorem runNative_lays (hbus : HleBus bus dram host) (hhost : dram.host = some host) {cpu : Cpu}
    {uses : Word → Access → Prop} (h : Undisturbed fpu bus dram native cpu ctx uses)
    (htaken : (runNative fpu bus dram native cpu ctx).1 = true) :
    ∃ spans t', Program.run (hleRead bus dram cpu.core.cp15.stamp)
        (native.routine fpu cpu.core.r).run (cpu.caches, ctx) = (some spans, t') ∧
      (∀ span ∈ spans, Lands (Covered spans) span) ∧
      Setting bus dram host cpu.core.cp15.stamp ctx uses (Covered spans) ∧
      (runNative fpu bus dram native cpu ctx).2.2 =
        laySpans bus dram host cpu.core.cp15.stamp ctx spans ctx := by
  obtain ⟨-, caches, hstate, hsteady⟩ := run_steady hbus hhost _ h.steady h.steady rfl h.asks
  have halone := h.alone
  simp only [runNative] at htaken ⊢
  generalize Program.run (hleRead bus dram cpu.core.cp15.stamp)
    (native.routine fpu cpu.core.r).run (cpu.caches, ctx) = answer at *
  obtain ⟨_ | spans, t'⟩ := answer
  · contradiction
  have hstate : t' = (caches, ctx) := hstate
  subst hstate
  have halone := halone spans rfl
  simp only at htaken ⊢
  have hpublished : (hlePublishSpans bus dram cpu.core.cp15.stamp spans (caches, ctx)).1 = true := by
    generalize hlePublishSpans bus dram cpu.core.cp15.stamp spans (caches, ctx) = published at *
    obtain ⟨_ | _, after⟩ := published
    · contradiction
    · rfl
  have hcovered (span : Span) (hspan : span ∈ spans) (i : ℕ) (hi : i < span.src.length) :
      Covered spans (span.va + ofNat 32 i) := ⟨span, hspan, i, hi, rfl⟩
  obtain ⟨hlength, hgranted⟩ := granted_of_publishSpans hbus hsteady
    (fun span hspan i hi ↦ halone.used _ _ (hcovered span hspan i hi) (by decide)) hpublished
  have hrange (span : Span) (hspan : span ∈ spans) : span.src.length ≠ 0 ∧ span.va ≠ 0 ∧
      span.va.toNat + span.src.length ≤ 2 ^ 32 := by
    have hrange := (hgranted span hspan).1
    simp only [hleRange, Bool.and_eq_true, decide_eq_true_eq] at hrange
    exact ⟨hrange.1.1, hrange.1.2, hrange.2⟩
  have hlands : ∀ span ∈ spans, Lands (Covered spans) span := fun span hspan ↦
    ⟨fun _ ↦ (hrange span hspan).2.1, (hrange span hspan).2.2, hcovered span hspan⟩
  have hopen : Open bus dram cpu.core.cp15.stamp ctx (Covered spans) := by
    rintro va ⟨span, hspan, i, hi, rfl⟩
    exact (hgranted span hspan).2 i hi
  obtain ⟨after, hpublish, -⟩ := hlePublishSpans_lays hbus hhost halone hopen spans hsteady.kept
    hlength hlands fun span hspan hnil ↦ (hrange span hspan).1 (List.length_eq_zero_iff.2 hnil)
  refine ⟨spans, (caches, ctx), rfl, hlands, ⟨hbus, hhost, halone, hopen⟩, ?_⟩
  rw [hpublish]

/-- A memory of octets from an address on, with nothing else on the bus. -/
def memoryBus (base : Word) : Bus (ℕ → Octet) where
  read32 ctx pa :=
    let i := (pa - base).toNat
    (ctx (i + 3) ++ ctx (i + 2) ++ ctx (i + 1) ++ ctx i, ctx)
  read16 ctx pa :=
    let i := (pa - base).toNat
    (ctx (i + 1) ++ ctx i, ctx)
  read8 ctx pa := (ctx (pa - base).toNat, ctx)
  write32 ctx pa value :=
    (leOctets value).zipIdx.foldl (fun ctx (octet, k) ↦
      update ctx ((pa - base).toNat + k) octet) ctx
  write16 ctx pa value :=
    [value.extractLsb' 0 8, value.extractLsb' 8 8].zipIdx.foldl (fun ctx (octet, k) ↦
      update ctx ((pa - base).toNat + k) octet) ctx
  write8 ctx pa value := update ctx (pa - base).toNat value
  hostRam := none
  hostRamWrite := none
  hostLoad ctx place := ctx place
  hostStore ctx place octet := update ctx place octet
  waitForInterrupt := none
  privilegedSvcHandler := none

theorem hleBus_memoryBus (base : Word) (size : ℕ) :
    HleBus (memoryBus base) ⟨base, some 0, size⟩ 0 where
  readLoad _ _ _ := rfl
  readDram _ _ _ := rfl
  storeLoad ctx place octet other := update_apply ctx place octet other
  storeRead ctx offset octet pa _ _ hapart := by
    have hother (k : ℕ) (hk : k < 4) :
        update ctx (0 + offset) octet ((pa - base).toNat + k) = ctx ((pa - base).toNat + k) := by
      apply update_of_ne
      simp only at hapart
      omega
    simp only [memoryBus]
    have hzero := hother 0 (by decide)
    rw [Nat.add_zero] at hzero
    rw [hother 3 (by decide), hother 2 (by decide), hother 1 (by decide), hzero]

/-- The halves the arithmetic of the call meets, and the bounds its geometry is compared with: each
with its pattern as a `float` and as a `double`. -/
def halves : List (ℤ × Word × DWord) :=
  [(0, 0, 0), (1, 0x3f000000, 0x3fe0000000000000), (2, 0x3f800000, 0x3ff0000000000000),
    (3, 0x3fc00000, 0x3ff8000000000000), (-1, 0xbf000000, 0xbfe0000000000000),
    (65536, 0x47000000, 0x40e0000000000000), (-65536, 0xc7000000, 0xc0e0000000000000)]

def half32 (w : Word) : ℤ := ((halves.find? fun entry ↦ entry.2.1 = w).map (·.1)).getD 0
def half64 (d : DWord) : ℤ := ((halves.find? fun entry ↦ entry.2.2 = d).map (·.1)).getD 0
def toHalf32 (k : ℤ) : Word := ((halves.find? fun entry ↦ entry.1 = k).map (·.2.1)).getD 0
def toHalf64 (k : ℤ) : DWord := ((halves.find? fun entry ↦ entry.1 = k).map (·.2.2)).getD 0

/-- An operation on numbers of halves. -/
def halfOp : FpOp → ℤ → ℤ → ℤ
  | .add, a, b => a + b
  | .sub, a, b => a - b
  | .mul, a, b => a * b / 2
  | _, _, _ => 0

/-- Arithmetic on the halves. -/
def halfFpu : HostFpu where
  f32 _ op a b := (toHalf32 (halfOp op (half32 a) (half32 b)), 0)
  f64 _ op a b := (toHalf64 (halfOp op (half64 a) (half64 b)), 0)
  lt32 a b := half32 a < half32 b
  eq32 a b := half32 a = half32 b
  lt64 a b := half64 a < half64 b
  eq64 a b := half64 a = half64 b
  narrow _ d := (toHalf32 (half64 d), 0)
  widen w := (toHalf64 (half32 w), 0)
  ofInt32 w := toHalf64 (2 * w.toInt)
  ofUint32 w := toHalf64 (2 * w.toNat)
  toInt32 d := BitVec.ofInt 32 ((half64 d).tdiv 2)
  toUint32 d := BitVec.ofInt 32 ((half64 d).tdiv 2)
  round _ _ d := d
  refuses _ := false

/-- The words of a memory that describe a rectangle of one pixel, of one colour. -/
def onePixelWord (va : Word) : Word :=
  if va = 0x1000 then 1
  else if va = 0x1004 then 1
  else if va = 0x1008 then 0x3122d180
  else if va = 0x100c then 0x1100
  else if va = 0x1100 then 0x1200
  else if va = 0x1164 then 0x11223344
  else if va = 0x1204 then 0x1400
  else if va = 0x12fc then 0x1800
  else if va = 0x1304 then 4
  else if va = 0x130c then 4
  else if va = 0x1314 then 1
  else if va = 0x131c then 1
  else if va = 0x143c then 2
  else if va = 0x1a00 then 0x000b0004
  else if va = 0x1a10 then fone
  else if va = 0x1a3c then fone
  else if va = 0x1a48 then fone
  else if va = 0x1a74 then fone
  else if va = 0x1a78 then fone
  else if va = 0x1a80 then fone
  else if va = 0x1ab0 then fone
  else if va = 0x1ab8 then fone
  else 0

/-- A user's call of `ogl_poly_scan` for that rectangle, with the hook installed. -/
def onePixel (lr : Word) : S5l8900 (ℕ → Octet) :=
  (vmFirmwareHleEnable
    { cpu := ⟨{ userCpu.core with
        r := fun n ↦ if n = 0 then 0x1a00 else if n = 13 then 0x1000 else if n = 14 then lr
          else if n = 15 then 0x311e2100 else 0
        cp15 := { ttbr0 := 0x4000 } }, {}⟩
      ctx := fun place ↦
        octetAt (leOctets (onePixelWord (0x1000 + ofNat 32 (place / 4 * 4)))) (place % 4)
      ramSize := 0x1000 }).2.1

def onePixelHle : HleState where
  active := true
  space := 0x4000
  pending := true
  armed := [0x311e2100]
  ttbr0 := 0x4000

/-- The step of the hook at that call. -/
abbrev onePixelStep (lr : Word) : Bool × HleState × Cpu × (ℕ → Octet) :=
  hlePreStep halfFpu (memoryBus 0x1000) 0x1000 (some 0) onePixelHle (onePixel lr)

end S5LBox.Hle
