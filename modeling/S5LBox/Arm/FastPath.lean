import S5LBox.Arm.Coherence

/-!
# The fast path

A step with the host-pointer caches live against the same step through the translation and the bus
callbacks only. Both are compared with the reference memory, request by request.
-/

namespace S5LBox.Arm

open BitVec Program
open BitVec (ofNat)

variable {σ : Type} {fpu : HostFpu} {bus : Bus σ} {p : TlbStamp} {base : σ} {c : Core}
  {h : Caches} {t : Walked σ}

/-- The caches and the memory of a machine beside those of the reference. -/
structure Beside (bus : Bus σ) (regs : TlbStamp) (s : Caches × σ) (t : Walked σ) : Prop where
  ctx : s.2 = t.ctx
  coherent : Coherent bus regs t.flushed s.1

theorem Matches.beside {α : Type} {x : α × Caches × σ} {y : α × Walked σ}
    (hmatch : Matches bus p x y) : Beside bus p x.2 y.2 := ⟨hmatch.ctx, hmatch.coherent⟩

theorem agree_busHandler (hram : RamBus bus) (op : ArmOp) (regs : TlbStamp) (s : Caches × σ)
    (t : Walked σ) (hbeside : Beside bus regs s t)
    (hallowed : (armContract True false).allowed regs op)
    (hkept : (refHandler bus.slow op t).2.kept = true) :
    (busHandler bus op s).1 = (refHandler bus.slow op t).1 ∧
      (armContract True false).answers regs op (refHandler bus.slow op t).1 ∧
        Beside bus ((armContract True false).after regs op) (busHandler bus op s).2
          (refHandler bus.slow op t).2 := by
  obtain ⟨h, ctx⟩ := s
  obtain ⟨rfl, hc⟩ := hbeside
  cases op with
  | load width p va priv =>
    obtain rfl : p = regs := hallowed
    have hmatch := matches_load hram width hc hkept
    exact ⟨hmatch.answer, trivial, hmatch.beside⟩
  | store width p va value priv =>
    obtain rfl : p = regs := hallowed
    have hmatch := matches_store hram width value hc hkept
    exact ⟨hmatch.answer, trivial, hmatch.beside⟩
  | translate p va acc priv =>
    obtain rfl : p = regs := hallowed
    obtain ⟨h', htranslate, hc'⟩ :=
      translate_coherent hram hc (kept_refTranslate hkept).2 acc priv 0
    refine ⟨?_, trivial, ?_, ?_⟩ <;> simp only [busHandler, htranslate]
    · rfl
    · rfl
    · exact hc'
  | fetch p pc priv thumb =>
    obtain ⟨rfl, hblock⟩ : p = regs ∧ _ := hallowed
    have hmatch := matches_fetch hram thumb (hblock rfl) hc hkept
    exact ⟨hmatch.answer, trivial, hmatch.beside⟩
  | flush p => exact ⟨rfl, trivial, rfl, hc.flush⟩
  | waitForInterrupt =>
    cases hwait : bus.waitForInterrupt with
    | none => simpa [busHandler, hwait, refHandler] using ⟨trivial, rfl, hc⟩
    | some wait =>
      have hsame := hram.wait wait hwait t.ctx
      refine ⟨rfl, trivial, ?_, ?_⟩ <;> simp only [busHandler, hwait]
      · exact hsame
      · exact hc
  | privilegedSvc c pc encoding =>
    have hnone : (busHandler bus (.privilegedSvc c pc encoding) (h, t.ctx)) = (none, h, t.ctx) := by
      simp only [busHandler, hram.noSvc]
    rw [hnone]
    refine ⟨rfl, fun _ hserved ↦ ?_, rfl, hc⟩
    cases hserved

/-- `arm_step` over the reference memory. -/
def refStep (fpu : HostFpu) (bus : Bus σ) (c : Core) (t : Walked σ) : Status × Core × Walked σ :=
  let ((status, core), t) := Program.run (refHandler bus.slow) (armStep fpu c) t
  (status, core, t)

/-- A machine in step with the reference. -/
structure InStep (bus : Bus σ) (cpu : Cpu) (ctx : σ) (c : Core) (t : Walked σ) : Prop where
  core : cpu.core = c
  ctx : ctx = t.ctx
  coherent : Coherent bus c.cp15.stamp t.flushed cpu.caches
  wellFormed : WellFormed c

theorem inStep_cpuStep (hram : RamBus bus) {cpu : Cpu} {ctx : σ} (hin : InStep bus cpu ctx c t)
    (hkept : (refStep fpu bus c t).2.2.kept = true) :
    (cpuStep fpu bus cpu ctx).1 = (refStep fpu bus c t).1 ∧
      InStep bus (cpuStep fpu bus cpu ctx).2.1 (cpuStep fpu bus cpu ctx).2.2
        (refStep fpu bus c t).2.1 (refStep fpu bus c t).2.2 := by
  obtain ⟨core, caches⟩ := cpu
  obtain ⟨rfl, rfl, hc, hwf⟩ := hin
  have hmeets : StepSoundProg True True false core (armStep fpu core) :=
    stepSound_armStep (fun _ ↦ hwf) (fun _ ↦ rfl) (.inl trivial) fun _ ↦ trivial
  obtain ⟨hresult, regs, hsound, hbeside⟩ :=
    hmeets.simulates (fun t : Walked σ ↦ t.kept = true) kept_refHandler (agree_busHandler hram)
      (s := (caches, t.ctx)) ⟨rfl, hc⟩ hkept
  obtain rfl := hsound.stamped trivial
  exact ⟨congrArg Prod.fst hresult, congrArg Prod.snd hresult, hbeside.ctx, hbeside.coherent,
    hsound.wellFormed trivial⟩

/-- The caches without host pointers. -/
def Caches.bare (h : Caches) : Caches :=
  { h with fetchHost := none, dread := fun _ ↦ {}, dwrite := fun _ ↦ {} }

/-- `arm_step` through the translation and the bus callbacks only: there are no host pointers in
the caches, and the bus hands none out. -/
def slowStep (fpu : HostFpu) (bus : Bus σ) (cpu : Cpu) (ctx : σ) : Status × Cpu × σ :=
  cpuStep fpu bus.slow ⟨cpu.core, cpu.caches.bare⟩ ctx

theorem coherent_bare (hc : Coherent bus p base h) : Coherent bus.slow p base h.bare where
  tlb := hc.tlb
  dread := .clear rfl hc.tlb.current
  dwrite := .clear rfl hc.tlb.current
  fetch _ hnone := nomatch hnone

theorem cpuStep_eq_slowStep (hram : RamBus bus) {cpu : Cpu} {ctx : σ}
    (hin : InStep bus cpu ctx c t) (hkept : (refStep fpu bus c t).2.2.kept = true) :
    (cpuStep fpu bus cpu ctx).1 = (slowStep fpu bus cpu ctx).1 ∧
      (cpuStep fpu bus cpu ctx).2.1.core = (slowStep fpu bus cpu ctx).2.1.core ∧
        (cpuStep fpu bus cpu ctx).2.2 = (slowStep fpu bus cpu ctx).2.2 := by
  obtain ⟨hstatus, hlive⟩ := inStep_cpuStep hram hin hkept
  have hslowIn : InStep bus.slow ⟨cpu.core, cpu.caches.bare⟩ ctx c t :=
    ⟨hin.core, hin.ctx, coherent_bare hin.coherent, hin.wellFormed⟩
  have hkept' : (refStep fpu bus.slow c t).2.2.kept = true := hkept
  obtain ⟨hstatus', hslow⟩ := inStep_cpuStep hram.slow hslowIn hkept'
  exact ⟨hstatus.trans hstatus'.symm, hlive.core.trans hslow.core.symm,
    hlive.ctx.trans hslow.ctx.symm⟩

/-- What an event does to the reference. -/
def Event.reference (fpu : HostFpu) (bus : Bus σ) : Core × Walked σ → Event σ → Core × Walked σ
  | (c, t), .step => (refStep fpu bus c t).2
  | (c, t), .lines irq fiq => ({ c with irqLine := irq, fiqLine := fiq }, t)
  | (c, t), .devices ctx => (c, { t with ctx := ctx })
  | (c, t), .refill _ _ => (c, t)

/-- The reference after a run from reset. -/
def referenceRun (fpu : HostFpu) (bus : Bus σ) (arch : Arch) (ctx : σ) (events : List (Event σ)) :
    Core × Walked σ :=
  Run.run (Event.reference fpu bus) (coreReset arch, ⟨ctx, ctx, true⟩) events

theorem kept_refStep (hkept : (refStep fpu bus c t).2.2.kept = true) : t.kept = true := by
  by_contra hlost
  exact run_invariant (fun t : Walked σ ↦ ¬t.kept = true)
    (fun op t hlost h ↦ hlost (kept_refHandler op t h)) (armStep fpu c) hlost hkept

/-- A machine is in step with the reference as long as the reference keeps its record. -/
def Tracks (bus : Bus σ) (state : Cpu × σ) (s : Core × Walked σ) : Prop :=
  s.2.kept = true → InStep bus state.1 state.2 s.1 s.2

theorem tracks_apply (hram : RamBus bus) (state : Cpu × σ) (s : Core × Walked σ)
    (event : Event σ) (h : Tracks bus state s) :
    Tracks bus (event.apply fpu bus state) (Event.reference fpu bus s event) := by
  obtain ⟨⟨core, caches⟩, ctx⟩ := state
  intro hkept
  cases event with
  | step => exact (inStep_cpuStep hram (h (kept_refStep hkept)) hkept).2
  | lines irq fiq =>
    obtain ⟨rfl, rfl, hc, hwf⟩ := h hkept
    exact ⟨rfl, rfl, hc, hwf.mode, hwf.aligned⟩
  | devices ctx =>
    obtain ⟨rfl, rfl, hc, hwf⟩ := h hkept
    exact ⟨rfl, rfl, hc, hwf⟩
  | refill va priv =>
    obtain ⟨rfl, rfl, hc, hwf⟩ := h hkept
    exact ⟨rfl, rfl, hc.refill, hwf⟩

/-- From reset over plain memory, whatever mix of steps, interrupts, device writes and refills
came before: a step with the caches of host pointers live leaves the same core and memory as one
that goes through the translation and the bus, as long as page tables change under a flush. -/
theorem cpuStep_eq_slowStep_of_run (fpu : HostFpu) (bus : Bus σ) (cpu : Cpu) (ctx : σ)
    (events : List (Event σ)) (hram : RamBus bus)
    (hkept : (referenceRun fpu bus cpu.core.arch ctx (events ++ [.step])).2.kept = true) :
    let state := Run.run (fun state event ↦ Event.apply fpu bus state event)
      (armReset cpu, ctx) events
    let live := cpuStep fpu bus state.1 state.2
    let slow := slowStep fpu bus state.1 state.2
    live.1 = slow.1 ∧ live.2.1.core = slow.2.1.core ∧ live.2.2 = slow.2.2 := by
  intro state live slow
  rw [referenceRun, Run.run_append] at hkept
  have hstart : Tracks bus (armReset cpu, ctx) (coreReset cpu.core.arch, ⟨ctx, ctx, true⟩) :=
    fun _ ↦ ⟨rfl, rfl, coherent_reset _, wellFormed_coreReset _⟩
  have htracks : Tracks bus state (referenceRun fpu bus cpu.core.arch ctx events) :=
    Run.simulates (Tracks bus) (tracks_apply hram) hstart events
  exact cpuStep_eq_slowStep hram (htracks (kept_refStep hkept)) hkept

/-- Memory of octets, exposed at its own addresses. -/
def flatBus : Bus (Word → Octet) where
  read32 m pa := (littleEndian (fun i ↦ m (pa + ofNat 32 i)) 4, m)
  read16 m pa := ((littleEndian (fun i ↦ m (pa + ofNat 32 i)) 2).setWidth 16, m)
  read8 m pa := (m pa, m)
  write32 m pa value :=
    storeOctets (fun m i octet ↦ Function.update m (pa + ofNat 32 i) octet) m value 4
  write16 m pa value :=
    storeOctets (fun m i octet ↦ Function.update m (pa + ofNat 32 i) octet) m
      (value.setWidth 32) 2
  write8 m pa value := Function.update m pa value
  hostRam := some fun pa _ ↦ some pa.toNat
  hostRamWrite := some fun pa _ ↦ some pa.toNat
  hostLoad m host := m (ofNat 32 host)
  hostStore m host octet := Function.update m (ofNat 32 host) octet
  waitForInterrupt := none
  privilegedSvcHandler := none

theorem littleEndian_two (f : ℕ → Octet) :
    ((littleEndian f 2).setWidth 16).setWidth 32 = littleEndian f 2 := by
  ext i hi
  simp only [littleEndian, getElem_setWidth, getLsbD_setWidth, getElem_or,
    getLsbD_or, getElem_shiftLeft, getLsbD_shiftLeft]
  by_cases h : i < 16
  · have hlt : i - 8 < 32 := by omega
    simp [h, hi, hlt]
  · have hhigh : (f 0).getLsbD i = false := getLsbD_of_ge _ _ (by omega)
    have hhigh' : (f 1).getLsbD (i - 8) = false := getLsbD_of_ge _ _ (by omega)
    simp [h, hhigh, hhigh']

theorem octetOf_half (value : Word) {i : ℕ} (h : i < 2) :
    octetOf ((value.setWidth 16).setWidth 32) i = octetOf value i := by
  unfold octetOf
  ext j hj
  have hhalf : 8 * i + j < 16 := by omega
  have hword : 8 * i + j < 32 := by omega
  simp [*]

theorem flat_address (pa : Word) (i : ℕ) : ofNat 32 (pa.toNat + i) = pa + ofNat 32 i := by
  rw [ofNat_add, ofNat_toNat, setWidth_eq]

theorem ramBus_flatBus : RamBus flatBus where
  read width m pa := by
    cases width with
    | byte => simp [busRead, flatBus, littleEndian, Width.bytes]
    | half => exact congrArg (·, m) (littleEndian_two _)
    | word => rfl
  write width m pa value := by
    cases width with
    | byte => simp [busWrite, flatBus, storeOctets, octetOf, Width.bytes]
    | half =>
      have hstore (put : (Word → Octet) → ℕ → Octet → Word → Octet) :
          storeOctets put m ((value.setWidth 16).setWidth 32) 2 = storeOctets put m value 2 := by
        simp only [storeOctets, octetOf_half value (show 0 < 2 by decide),
          octetOf_half value (show 1 < 2 by decide)]
      simp only [busWrite, flatBus]
      exact hstore _
    | word => rfl
  load _ hexpose pa n host hhost m i _ := by
    obtain rfl := Option.some.inj hexpose
    obtain rfl := Option.some.inj hhost
    exact congrArg m (flat_address pa i)
  store _ hexpose pa n host hhost m octet i _ := by
    obtain rfl := Option.some.inj hexpose
    obtain rfl := Option.some.inj hhost
    exact congrArg (Function.update m · octet) (flat_address pa i)
  wait _ hnone := nomatch hnone
  noSvc := rfl

/-- A loop that loads a word, stores it beside itself and loads it again. -/
def loopMemory (a : Word) : Octet :=
  octetOf ([0xe3a01040, 0xe5912000, 0xe5812004, 0xe5913004, 0xeafffffb].getD (a.toNat / 4) 0)
    (a.toNat % 4)

/-- A store of the second round of the loop, through the pointer of the first. -/
theorem cpuStep_eq_slowStep_of_loop :
    let cpu : Cpu := ⟨coreReset .v6Arm1176, {}⟩
    let state := Run.run (fun state event ↦ Event.apply idleFpu flatBus state event)
      (armReset cpu, loopMemory) (List.replicate 6 .step)
    let live := cpuStep idleFpu flatBus state.1 state.2
    let slow := slowStep idleFpu flatBus state.1 state.2
    live.1 = slow.1 ∧ live.2.1.core = slow.2.1.core ∧ live.2.2 = slow.2.2 :=
  cpuStep_eq_slowStep_of_run idleFpu flatBus ⟨coreReset .v6Arm1176, {}⟩ loopMemory
    (List.replicate 6 .step) ramBus_flatBus (by decide +kernel)

end S5LBox.Arm
