import S5LBox.Arm.SoundStep
import S5LBox.Library.Run

/-!
# Execution of the core

A step over a bus, and runs of steps. From the soundness of a step: what User mode cannot reach,
what a data abort restores, and that the core stays well formed.
-/

namespace S5LBox.Arm

open Program

variable {σ : Type} {fpu : HostFpu} {bus : Bus σ} {cpu : Cpu} {ctx : σ}

/-- A privileged-SVC handler that leaves the abort latch alone and enters no exception. -/
def SvcKeepsLatch (bus : Bus σ) : Prop :=
  ∀ handler, bus.privilegedSvcHandler = some handler → ∀ ctx c pc encoding,
    (handler ctx c pc encoding).1.2.abortPending = c.abortPending ∧
      (handler ctx c pc encoding).1.2.taken = c.taken

theorem keeps_of_noCall (bus : Bus σ) (hook : Bool) :
    Keeps (busHandler bus) (armContract False hook) fun _ _ ↦ True := by
  intro op _ _ _ hallowed
  cases op with
  | privilegedSvc c pc encoding => exact hallowed.elim
  | _ => exact ⟨trivial, trivial⟩

theorem busHandler_privilegedSvc (bus : Bus σ) (c : Core) (pc encoding : Word)
    (state : Caches × σ) : (busHandler bus (.privilegedSvc c pc encoding) state).1 =
      bus.privilegedSvcHandler.map fun handler ↦ (handler state.2 c pc encoding).1 := by
  obtain ⟨h, ctx⟩ := state
  cases hhandler : bus.privilegedSvcHandler with
  | none => simp [busHandler, hhandler]
  | some handler => simp [busHandler, hhandler]

theorem keeps_of_latch (h : SvcKeepsLatch bus) :
    Keeps (busHandler bus) (armContract True true) fun _ _ ↦ True := by
  intro op _ state _ _
  cases op with
  | privilegedSvc c pc encoding =>
    refine ⟨fun served hserved ↦ ⟨rfl, ?_⟩, trivial⟩
    rw [busHandler_privilegedSvc] at hserved
    obtain ⟨handler, hhandler, rfl⟩ := Option.map_eq_some_iff.1 hserved
    exact h handler hhandler ..
  | _ => exact ⟨trivial, trivial⟩

theorem keeps_of_none (h : bus.privilegedSvcHandler = none) :
    Keeps (busHandler bus) (armContract True false) fun _ _ ↦ True := by
  intro op _ state _ _
  cases op with
  | privilegedSvc c pc encoding =>
    refine ⟨fun served hserved ↦ ?_, trivial⟩
    rw [busHandler_privilegedSvc, h] at hserved
    cases hserved
  | _ => exact ⟨trivial, trivial⟩

theorem stepSound_cpuStep (wf : Prop) {mayCall : Prop} {hook : Bool} (hwf : wf → WellFormed cpu.core)
    (hhook : wf → hook = false) (hcall : mayCall ∨ cpu.core.isPriv = false)
    (keeps : Keeps (busHandler bus) (armContract mayCall hook) fun _ _ ↦ True)
    (hfetch : hook = false → wf) :
    ∃ regs, StepSound wf cpu.core regs (cpuStep fpu bus cpu ctx).2.1.core := by
  have hstep : StepSoundProg wf mayCall hook cpu.core (armStep fpu cpu.core) :=
    stepSound_armStep hwf hhook hcall hfetch
  obtain ⟨regs, hsound, -⟩ := hstep.run keeps (trivial : (fun _ : Caches × σ ↦ True) (cpu.caches, ctx))
  exact ⟨regs, hsound⟩

/-- Memory that reads as one instruction everywhere. -/
def constantBus (insn : Word) : Bus Unit where
  read32 _ _ := (insn, ())
  read16 _ _ := (insn.setWidth 16, ())
  read8 _ _ := (insn.setWidth 8, ())
  write32 _ _ _ := ()
  write16 _ _ _ := ()
  write8 _ _ _ := ()
  hostRam := none
  hostRamWrite := none
  hostLoad _ _ := 0
  hostStore _ _ _ := ()
  waitForInterrupt := none
  privilegedSvcHandler := none

/-- Arithmetic of a host that is not called upon. -/
def idleFpu : HostFpu where
  f32 _ _ _ _ := (0, 0)
  f64 _ _ _ _ := (0, 0)
  lt32 _ _ := false
  eq32 _ _ := false
  lt64 _ _ := false
  eq64 _ _ := false
  narrow _ _ := (0, 0)
  widen _ := (0, 0)
  ofInt32 _ := 0
  ofUint32 _ := 0
  toInt32 _ := 0
  toUint32 _ := 0
  round _ _ _ := 0
  refuses _ := false

/-- The state of other modes, of the coprocessors and of the control bits is the same. -/
structure Confined (c c' : Core) : Prop where
  mode : c'.cpsr &&& cpsrModeMask = modeUsr
  masks : c'.cpsr &&& (cpsrI ||| cpsrF ||| cpsrA) = c.cpsr &&& (cpsrI ||| cpsrF ||| cpsrA)
  spsr : c'.spsr = c.spsr
  bankR13 : c'.bankR13 = c.bankR13
  bankR14 : c'.bankR14 = c.bankR14
  fiqR8_12 : c'.fiqR8_12 = c.fiqR8_12
  usrR8_12 : c'.usrR8_12 = c.usrR8_12
  fpexc : c'.vfpFpexc = c.vfpFpexc
  cp15 : { c'.cp15 with tpidrurw := c.cp15.tpidrurw } = c.cp15

/-- A step in User mode that takes no exception is confined to what User mode owns, whatever it
fetches and loads. -/
theorem confined_of_user (fpu : HostFpu) (bus : Bus σ) (cpu : Cpu) (ctx : σ)
    (huser : cpu.core.cpsr &&& cpsrModeMask = modeUsr)
    (hnone : (cpuStep fpu bus cpu ctx).2.1.core.taken = cpu.core.taken) :
    Confined cpu.core (cpuStep fpu bus cpu ctx).2.1.core := by
  have hpriv : cpu.core.isPriv = false := by simpa [Core.isPriv] using huser
  obtain ⟨regs, hsound⟩ : ∃ regs, StepSound False cpu.core regs (cpuStep fpu bus cpu ctx).2.1.core :=
    stepSound_cpuStep False False.elim False.elim (.inr hpriv) (keeps_of_noCall bus true)
      Bool.false_ne_true.symm
  have h := hsound.confined hpriv hnone
  have hcpsr : (cpuStep fpu bus cpu ctx).2.1.core.cpsr &&& userMask = cpu.core.cpsr &&& userMask :=
    congrArg Core.cpsr h
  have hcp15 : { (cpuStep fpu bus cpu ctx).2.1.core.cp15 with tpidrurw := 0 } =
      { cpu.core.cp15 with tpidrurw := 0 } := (congrArg Core.cp15 h :)
  exact
    { mode := (and_eq_of_and_eq hcpsr (by decide)).trans huser
      masks := and_eq_of_and_eq hcpsr (by decide)
      spsr := (congrArg Core.spsr h :)
      bankR13 := (congrArg Core.bankR13 h :)
      bankR14 := (congrArg Core.bankR14 h :)
      fiqR8_12 := (congrArg Core.fiqR8_12 h :)
      usrR8_12 := (congrArg Core.usrR8_12 h :)
      fpexc := (congrArg Core.vfpFpexc h :)
      cp15 := congrArg (fun p : Cp15 ↦ { p with tpidrurw := cpu.core.cp15.tpidrurw }) hcp15 }

/-- A core in User mode. -/
def userCpu : Cpu := ⟨{ coreReset .v6Arm1176 with cpsr := modeUsr }, {}⟩

/-- An MSR of the whole CPSR, in User mode. -/
theorem confined_of_user_msr : Confined userCpu.core
    (cpuStep idleFpu (constantBus 0xe129f000) userCpu ()).2.1.core :=
  confined_of_user idleFpu (constantBus 0xe129f000) userCpu () (by decide) (by decide +kernel)

/-- What can happen to a core: a step, a change of its interrupt lines, anything the devices
behind the bus do in between, and a refill of the fetch cache from outside a step. -/
inductive Event (σ : Type) where
  | step
  | lines (irq fiq : Bool)
  | devices (ctx : σ)
  | refill (va : Word) (priv : Bool)

/-- The core and the bus after an event. -/
def Event.apply (fpu : HostFpu) (bus : Bus σ) : Cpu × σ → Event σ → Cpu × σ
  | (cpu, ctx), .step => (cpuStep fpu bus cpu ctx).2
  | (cpu, ctx), .lines irq fiq =>
    ({ cpu with core := { cpu.core with irqLine := irq, fiqLine := fiq } }, ctx)
  | (cpu, _), .devices ctx => (cpu, ctx)
  | (cpu, ctx), .refill va priv =>
    ({ cpu with
      caches := (armFetchCacheTryRefill bus cpu.core.cp15.stamp cpu.caches va priv).2 }, ctx)

theorem wellFormed_coreReset (arch : Arch) : WellFormed (coreReset arch) :=
  ⟨by cases arch <;> decide, by cases arch <;> decide⟩

theorem wellFormed_apply (hsvc : bus.privilegedSvcHandler = none) (state : Cpu × σ)
    (event : Event σ) (h : WellFormed state.1.core) :
    WellFormed (event.apply fpu bus state).1.core := by
  cases event with
  | step =>
    obtain ⟨regs, hsound⟩ : ∃ regs, StepSound True state.1.core regs
        (cpuStep fpu bus state.1 state.2).2.1.core :=
      stepSound_cpuStep True (fun _ ↦ h) (fun _ ↦ rfl) (.inl trivial) (keeps_of_none hsvc)
        fun _ ↦ trivial
    exact hsound.wellFormed trivial
  | lines irq fiq => exact ⟨h.mode, h.aligned⟩
  | devices ctx => exact h
  | refill va priv => exact h

theorem wellFormed_run (hsvc : bus.privilegedSvcHandler = none) (cpu : Cpu) (ctx : σ)
    (events : List (Event σ)) :
    WellFormed (Run.run (fun state event ↦ event.apply fpu bus state) (armReset cpu, ctx)
      events).1.core :=
  Run.invariant (fun state event h ↦ wellFormed_apply hsvc state event h)
    (wellFormed_coreReset cpu.core.arch) events

theorem hostRead_congr {other : σ → HostPtr → Octet} {host : HostPtr} {count : ℕ}
    (h : ∀ i < count, other ctx (host + i) = bus.hostLoad ctx (host + i)) :
    hostRead { bus with hostLoad := other } ctx host count = hostRead bus ctx host count := by
  induction count with
  | zero => rfl
  | succ count ih =>
    have hlast := h count (Nat.lt_succ_self count)
    have hrest := ih fun i hi ↦ h i (Nat.lt_succ_of_lt hi)
    rw [hostRead, hostRead, hrest]
    simp only [hlast]

/-- From reset, whatever the memory holds and the interrupt lines do, the mode is one of the seven
and the program counter is aligned; so a fetch through a pointer to its 1 KB block reads octets of
the block only. -/
theorem run_wellFormed (fpu : HostFpu) (bus : Bus σ) (cpu : Cpu) (ctx : σ)
    (events : List (Event σ)) (hsvc : bus.privilegedSvcHandler = none) :
    let c := (Run.run (fun state event ↦ Event.apply fpu bus state event) (armReset cpu, ctx)
      events).1.core
    let offset := (c.r 15 - (c.r 15 &&& ~~~0x3ff)).toNat
    let width := (fetchWidth (c.getFlag cpsrT)).bytes
    c.cpsr &&& cpsrModeMask ∈ [modeUsr, modeFiq, modeIrq, modeSvc, modeAbt, modeUnd, modeSys] ∧
      (c.getFlag cpsrT = false → c.r 15 &&& 3 = 0) ∧
      (c.getFlag cpsrT = true → c.r 15 &&& 1 = 0) ∧
      offset + width ≤ 0x400 ∧
      ∀ (host : HostPtr) (ctx : σ) (other : σ → HostPtr → Octet),
        (∀ i < 0x400, other ctx (host + i) = bus.hostLoad ctx (host + i)) →
        hostRead { bus with hostLoad := other } ctx (host + offset) width =
          hostRead bus ctx (host + offset) width := by
  intro c offset width
  have h : WellFormed c := wellFormed_run hsvc cpu ctx events
  have hmode := h.mode
  have haligned := h.aligned
  have hblock : offset + width ≤ 0x400 := fetch_within_block haligned
  unfold Aligned at haligned
  refine ⟨by simpa [armModeIsValid] using hmode, fun hT ↦ ?_, fun hT ↦ ?_, hblock, ?_⟩
  · have hclear : c.cpsr &&& cpsrT = 0 := by simpa [Core.getFlag] using hT
    rwa [if_pos hclear] at haligned
  · have hset : ¬c.cpsr &&& cpsrT = 0 := by simpa [Core.getFlag] using hT
    rwa [if_neg hset] at haligned
  · intro host ctx other hsame
    refine hostRead_congr fun i hi ↦ ?_
    have hin : offset + i < 0x400 := by omega
    rw [Nat.add_assoc]
    exact hsame (offset + i) hin

/-- A core that takes an IRQ once its MSR has unmasked it. -/
theorem run_wellFormed_irq :
    let c := (Run.run (fun state event ↦ Event.apply idleFpu (constantBus 0xe129f000) state event)
      (armReset userCpu, ()) [.step, .lines true false, .step, .devices (), .step]).1.core
    c.cpsr &&& cpsrModeMask ∈ [modeUsr, modeFiq, modeIrq, modeSvc, modeAbt, modeUnd, modeSys] :=
  (run_wellFormed idleFpu (constantBus 0xe129f000) userCpu ()
    [.step, .lines true false, .step, .devices (), .step] rfl).1

end S5LBox.Arm
