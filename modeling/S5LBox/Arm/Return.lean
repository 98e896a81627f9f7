import S5LBox.Arm.Abort
import S5LBox.Arm.Restart

/-!
# Return from an exception

An interrupt, a prefetch abort or a data abort, and then the one instruction its handler returns
with: the interrupted program finds its registers, its CPSR and its place as they were. Entry is
put in one form for the four exceptions, and the return is computed from that form.
-/

namespace S5LBox.Arm

open Program

variable {σ : Type} {fpu : HostFpu} {bus : Bus σ} {cpu : Cpu} {ctx : σ} {c c' : Core}
  {pc insn next : Word}

/-- The exceptions that return to the instruction they interrupted. -/
inductive Interruption where
  | irq
  | fiq
  | prefetchAbort
  | dataAbort
  deriving DecidableEq, Repr

namespace Interruption

def vector : Interruption → Word
  | irq => vecIrq
  | fiq => vecFiq
  | prefetchAbort => vecPrefetch
  | dataAbort => vecDataAbort

def mode : Interruption → Word
  | irq => modeIrq
  | fiq => modeFiq
  | prefetchAbort => modeAbt
  | dataAbort => modeAbt

def maskFiq (kind : Interruption) : Bool := kind = fiq

/-- How far the link register is past the interrupted instruction. -/
def offset : Interruption → Word
  | dataAbort => 8
  | _ => 4

/-- SUBS pc, lr, #4, or #8 for a data abort. -/
def subs : Interruption → Word
  | dataAbort => 0xe25ef008
  | _ => 0xe25ef004

theorem valid_mode (kind : Interruption) : armModeIsValid kind.mode = true := by
  cases kind <;> decide

theorem bank_ne_usr (kind : Interruption) : armBankOfMode kind.mode ≠ .usr := by
  cases kind <;> decide

end Interruption

/-- Erases what an instruction that faults may have changed, and the fault registers. -/
def Core.paused (c : Core) : Core :=
  { c.restorable with cp15 := { c.cp15 with dfsr := 0, dfar := 0, ifsr := 0, ifar := 0 } }

/-- The exception was entered from a core that differs from `c` in bookkeeping only; after a data
abort also in the VFP data registers. -/
def EnteredFrom (kind : Interruption) (c c' : Core) : Prop :=
  ∃ q : Core, q.paused = c.paused ∧ q.abortPending = false ∧ (kind ≠ .dataAbort → q.vfpS = c.vfpS) ∧
    c' = enterException q kind.vector kind.mode (c.r 15 + kind.offset) kind.maskFiq

/-- The exceptions an instruction itself ends in. -/
def Synchronous (c : Core) (x : StepResult) : Prop :=
  ∀ vector, x.2.taken = vector :: c.taken → vector ∈ [vecUndefined, vecSwi, vecDataAbort]

theorem Synchronous.of_vector {x : StepResult} {taken : List Word} {vector : Word}
    (hvector : vector ∈ [vecUndefined, vecSwi, vecDataAbort]) (h : x.2.taken = vector :: taken) :
    Synchronous c x := by
  intro vector' h'
  rw [h] at h'
  rwa [← (List.cons.inj h').1]

theorem Synchronous.of_recorded {x : StepResult}
    (h : x.2.taken = c.taken ∨ x.2.taken = vecSwi :: c.taken) : Synchronous c x := by
  obtain hsame | hswi := h
  · intro vector h'
    rw [hsame] at h'
    exact absurd h'.symm (List.cons_ne_self _ _)
  · exact .of_vector (by decide) hswi

theorem synchronous_takePendingDataAbort (q : Core) (pc : Word) (status : Status) :
    Synchronous c (status, takePendingDataAbort q pc) :=
  .of_vector (by decide) (excepted_enterException ..).taken

section Steps

variable {o : Outcome}

section

variable (h : o.core.taken = c.taken ∨ o.core.taken = vecSwi :: c.taken)

include h

theorem synchronous_commit : Synchronous c (commit o) := by
  unfold commit
  split
  · exact .of_recorded h
  · exact .of_recorded h

theorem synchronous_commitArm : Synchronous c (commitArm pc insn o) := by
  apply commitArm_cases
  · rintro q - - (htaken | ⟨htaken, -⟩)
    · exact .of_vector (by decide) htaken
    · exact .of_vector (by decide) htaken
  · exact fun _ _ ↦ .of_recorded h
  · exact fun _ ↦ .of_recorded h

theorem synchronous_commitThumb : Synchronous c (commitThumb pc o) := by
  unfold commitThumb
  split_ifs
  · exact .of_recorded h
  · apply synchronous_takePendingDataAbort
  · exact synchronous_commit h

theorem synchronous_commitStacked : Synchronous c (commitStacked pc o) := by
  unfold commitStacked
  split_ifs
  · apply synchronous_takePendingDataAbort
  · exact synchronous_commit h

end

end Steps

/-- The programs of a step, as far as the exceptions they end in go. -/
def SynchronousProg (c : Core) (p : Prog StepResult) : Prop :=
  Meets (armContract True true) (fun _ x ↦ Synchronous c x) c.cp15.stamp p

theorem SynchronousProg.ite {p : Prop} [Decidable p] {a b : Prog StepResult}
    (ha : p → SynchronousProg c a) (hb : ¬p → SynchronousProg c b) :
    SynchronousProg c (if p then a else b) := iteInduction ha hb

theorem SynchronousProg.commit {o : Outcome} (h : Untouched Core.still c o) :
    SynchronousProg c (pure (commit o)) :=
  synchronous_commit (.inl (taken_of_guard (congrArg Prod.fst h)))

theorem synchronous_execUnconditional : SynchronousProg c (execUnconditional c pc insn next) := by
  unfold execUnconditional
  refine .ite (fun _ ↦ ?_) fun _ ↦ .ite (fun _ ↦ .commit rfl) fun _ ↦ ?_
  · exact synchronous_commit (.inl rfl)
  refine .ite (fun _ ↦ .commit untouched_execCps) fun _ ↦ ?_
  refine .ite (fun _ ↦ .commit untouched_execBlxImmediate) fun _ ↦ ?_
  refine .ite (fun _ ↦ ?_) fun _ ↦ .ite (fun _ ↦ ?_) fun _ ↦ ?_
  · have hsound : SoundProg False True true c (execSrs c insn next) := sound_execSrs False.elim
    exact hsound.map fun _ _ h ↦ synchronous_commitStacked h.recorded
  · have hsound : SoundProg False True true c (execRfe c insn next) := sound_execRfe False.elim
    exact hsound.map fun _ _ h ↦ synchronous_commitStacked h.recorded
  refine .ite (fun _ ↦ .commit ?_) fun _ ↦ ?_
  · split
    · rfl
    · rfl
  · have hundefined : Synchronous c (undefinedInstruction c pc insn) := by
      unfold undefinedInstruction
      split
      · exact .of_vector (by decide) (excepted_enterException ..).taken
      · exact .of_recorded (.inl rfl)
    exact hundefined

theorem synchronous_stepArm (hT : c.cpsr &&& cpsrT = 0) :
    SynchronousProg c (stepArm fpu c pc insn) := by
  set q : Core := { c with cycles := c.cycles + 1 } with hq
  have hsound : SoundProg False True true q (execArm fpu q pc insn (pc + 4)) :=
    sound_execArm hT (.inl trivial) False.elim False.elim
  have hunconditional : SynchronousProg q (execUnconditional q pc insn (pc + 4)) :=
    synchronous_execUnconditional
  unfold stepArm
  dsimp only
  refine .ite (fun _ ↦ hunconditional) fun _ ↦ .ite (fun _ ↦ ?_) fun _ ↦ ?_
  · exact synchronous_commit (.inl rfl)
  · exact hsound.map fun _ _ h ↦ synchronous_commitArm h.recorded

theorem synchronous_stepThumb {insn : Half} (hT : ¬c.cpsr &&& cpsrT = 0) :
    SynchronousProg c (stepThumb c pc insn) := by
  set q : Core := { c with cycles := c.cycles + 1 } with hq
  have hsound : SoundProg False True true q (thumbStep q pc insn (pc + 2)) :=
    sound_thumbStep hT False.elim (.inl trivial) False.elim False.elim
  exact hsound.map fun _ _ h ↦ synchronous_commitThumb h.recorded

theorem paused_of_restorable {q : Core} (h : q.restorable = c.restorable) : q.paused = c.paused :=
  congrArg (fun c : Core ↦
    { c with cp15 := { c.cp15 with dfsr := 0, dfar := 0, ifsr := 0, ifar := 0 } }) h

theorem enteredFrom_cpuStep (kind : Interruption) (hsvc : SvcKeepsLatch bus)
    (hclear : cpu.core.abortPending = false)
    (htaken : (cpuStep fpu bus cpu ctx).2.1.core.taken = kind.vector :: cpu.core.taken) :
    EnteredFrom kind cpu.core (cpuStep fpu bus cpu ctx).2.1.core := by
  by_cases hkind : kind = .dataAbort
  · subst hkind
    obtain ⟨regs, hsound⟩ : ∃ regs, StepSound False cpu.core regs
        (cpuStep fpu bus cpu ctx).2.1.core :=
      stepSound_cpuStep False False.elim False.elim (.inl trivial) (keeps_of_latch hsvc) nofun
    obtain ⟨q, hq, hresult⟩ := hsound.aborted hclear htaken
    have hpaused : q.paused = cpu.core.paused := paused_of_restorable hq
    exact ⟨{ q with
        abortPending := false
        cp15 := { q.cp15 with dfsr := q.abortFsr, dfar := q.abortFar } },
      hpaused, rfl, fun h ↦ absurd rfl h, hresult⟩
  have hsync {x : StepResult} (h : Synchronous cpu.core x)
      (htaken : x.2.taken = kind.vector :: cpu.core.taken) :
      EnteredFrom kind cpu.core x.2 := by
    have hmem := h kind.vector htaken
    exfalso
    revert hmem hkind
    cases kind <;> decide
  have hkeeps := keeps_of_latch hsvc
  revert htaken
  apply cpuStep_cases (P := fun _ x ↦ x.2.taken = kind.vector :: cpu.core.taken →
    EnteredFrom kind cpu.core x.2)
  · exact fun h ↦ absurd h.symm (List.cons_ne_self _ _)
  · intro htaken
    have hvector : vecFiq = kind.vector :=
      (List.cons.inj ((excepted_enterException ..).taken.symm.trans htaken)).1
    obtain rfl : kind = .fiq := by
      revert hvector
      cases kind <;> decide
    exact ⟨{ cpu.core with cycles := cpu.core.cycles + 1 }, rfl, hclear, fun _ ↦ rfl, rfl⟩
  · intro htaken
    have hvector : vecIrq = kind.vector :=
      (List.cons.inj ((excepted_enterException ..).taken.symm.trans htaken)).1
    obtain rfl : kind = .irq := by
      revert hvector
      cases kind <;> decide
    exact ⟨{ cpu.core with cycles := cpu.core.cycles + 1 }, rfl, hclear, fun _ ↦ rfl, rfl⟩
  · intro fsr htaken
    have hvector : vecPrefetch = kind.vector :=
      (List.cons.inj ((excepted_enterException ..).taken.symm.trans htaken)).1
    obtain rfl : kind = .prefetchAbort := by
      revert hvector
      cases kind <;> decide
    exact ⟨{ cpu.core with
        cycles := cpu.core.cycles + 1
        cp15 := { cpu.core.cp15 with ifsr := fsr, ifar := cpu.core.r 15 } },
      rfl, hclear, fun _ ↦ rfl, rfl⟩
  · intro hthumb insn state
    have hprog : SynchronousProg cpu.core (stepThumb cpu.core (cpu.core.r 15) insn) :=
      synchronous_stepThumb (of_decide_eq_true hthumb)
    obtain ⟨_, hsynchronous, -⟩ := @Meets.run _ _ _ _ _ _ _ _ _ _ hprog hkeeps state trivial
    exact hsync hsynchronous
  · intro _ insn state hskip
    rw [stepArm_skipped hskip]
    exact fun h ↦ absurd h.symm (List.cons_ne_self _ _)
  · intro hthumb insn state
    have hprog : SynchronousProg cpu.core (stepArm fpu cpu.core (cpu.core.r 15) insn) :=
      synchronous_stepArm (by simpa [Core.getFlag] using hthumb)
    obtain ⟨_, hsynchronous, -⟩ := @Meets.run _ _ _ _ _ _ _ _ _ _ hprog hkeeps state trivial
    exact hsync hsynchronous

/-- Erases what the banks hold, the CPSR, the interrupt lines and the record of exceptions. -/
def Core.unbanked (c : Core) : Core :=
  { c with
    r := fun _ ↦ 0
    cpsr := 0
    spsr := fun _ ↦ 0
    bankR13 := fun _ ↦ 0
    bankR14 := fun _ ↦ 0
    fiqR8_12 := fun _ ↦ 0
    usrR8_12 := fun _ ↦ 0
    irqLine := false
    fiqLine := false
    taken := [] }

/-- What an exception and the return from it have no business with. -/
def Core.aside (c : Core) : Core := c.paused.unbanked

theorem aside_of_paused (h : c'.paused = c.paused) : c'.aside = c.aside :=
  congrArg Core.unbanked h

theorem aside_armSetMode (c : Core) (mode : Word) : (armSetMode c mode).aside = c.aside := by
  unfold armSetMode switchBank
  dsimp only
  split_ifs
  all_goals rfl

theorem aside_restoreCpsr (c : Core) (s : Word) : (restoreCpsr c s).aside = c.aside :=
  aside_armSetMode c s

theorem aside_enterException (c : Core) (vector mode ret : Word) (maskFiq : Bool) :
    (enterException c vector mode ret maskFiq).aside = c.aside := by
  have hmode := aside_armSetMode c mode
  have heq := maskInterrupts_eq (linked c mode ret) vector maskFiq
  rw [enterException_eq, takeException_eq]
  unfold entered
  rw [heq]
  exact hmode

theorem banked_restoreCpsr (c : Core) (s : Word) (bank : Bank) (n : Reg) :
    (restoreCpsr c s).banked bank n = c.banked bank n := by
  refine Eq.trans ?_ (banked_armSetMode c s bank n)
  apply banked_of_cpsr
  apply merge_and_clear

theorem cpsr_restoreCpsr (c : Core) {s : Word} (h : armModeIsValid s = true) :
    (restoreCpsr c s).cpsr = s := by
  have hmode : (armSetMode c s).cpsr &&& cpsrModeMask = s &&& cpsrModeMask := by
    rw [cpsr_armSetMode, if_pos h, merge_and_mask]
  have hcpsr : (restoreCpsr c s).cpsr =
      ((armSetMode c s).cpsr &&& cpsrModeMask) ||| (s &&& ~~~cpsrModeMask) := rfl
  rw [hcpsr, hmode]
  ext i hi
  simp only [BitVec.getElem_or, BitVec.getElem_and, BitVec.getElem_not]
  cases s[i] <;> simp

theorem and_pcMask {target : Word} (h : Aligned c.cpsr target) : target &&& pcMask c = target := by
  have hclear {low : Word} (hlow : target &&& low = 0) : target &&& ~~~low = target := by
    ext i hi
    have hi' := congrArg (fun w : Word ↦ w[i]) hlow
    simp only [BitVec.getElem_and, BitVec.getElem_not] at hi' ⊢
    cases ht : target[i] <;> simp_all
  unfold Aligned at h
  unfold pcMask Core.getFlag
  by_cases hthumb : c.cpsr &&& cpsrT = 0
  · rw [if_pos hthumb] at h
    rw [if_neg (by simp [hthumb])]
    exact hclear h
  · rw [if_neg hthumb] at h
    rw [if_pos (decide_eq_true hthumb)]
    exact hclear h

theorem aluSub_fst (c : Core) (a b : Word) (set : Bool) : (aluSub c a b true set).1 = a - b := by
  have hvalue : (aluSub c a b true set).1 =
      (a.setWidth 33 + (~~~b).setWidth 33 + 1).setWidth 32 := rfl
  rw [hvalue, BitVec.setWidth_add _ _ (by decide), BitVec.setWidth_add _ _ (by decide),
    BitVec.setWidth_setWidth_of_le _ (by decide), BitVec.setWidth_setWidth_of_le _ (by decide),
    BitVec.setWidth_eq, BitVec.setWidth_eq, BitVec.sub_eq_add_neg, BitVec.neg_eq_not_add,
    BitVec.add_assoc]
  rfl

theorem aluAdd_eq (c : Core) (a b : Word) (cin set : Bool) :
    (aluAdd c a b cin set).2 = { c with cpsr := (aluAdd c a b cin set).2.cpsr } := by
  cases set <;> rfl

theorem quiet_of_aluSub (c : Core) (a b : Word) :
    (aluSub c a b true true).2.cpsr &&& cpsrModeMask = c.cpsr &&& cpsrModeMask :=
  Core.mode_of_steady (Core.steady_of_quiet (quiet_aluSub c a b true true))

theorem execDataProcessing_subs (kind : Interruption) (c : Core) (pc next : Word)
    (hbank : armBankOfMode c.cpsr ≠ .usr)
    (hvalid : armModeIsValid (c.spsr (armBankOfMode c.cpsr)) = true) :
    ∃ cpsr, cpsr &&& cpsrModeMask = c.cpsr &&& cpsrModeMask ∧
      execDataProcessing c pc kind.subs next =
        writePc (Core.setR { c with cpsr := cpsr } 15 (c.r 14 - kind.offset))
          (c.r 14 - kind.offset) true := by
  refine ⟨(aluSub c (c.r 14) kind.offset true true).2.cpsr, quiet_of_aluSub .., ?_⟩
  have hopcode : field4 kind.subs 21 = 2 := by cases kind <;> decide
  have hset : bit kind.subs 20 = true := by cases kind <;> decide
  have hrn : field4 kind.subs 16 = 14 := by cases kind <;> decide
  have hrd : field4 kind.subs 12 = 15 := by cases kind <;> decide
  have himm : bit kind.subs 25 = true := by cases kind <;> decide
  have hwide : kind.subs &&& 0x0fb00000 ≠ 0x03000000 := by cases kind <;> decide
  have hop2 : ror32 (kind.subs &&& 0xff) ((field4 kind.subs 8).toNat * 2) = kind.offset := by
    cases kind <;> decide
  have hresult (carry : Bool) : dpResult c 2 (c.regRead pc 14) kind.offset carry true =
      aluSub c (c.r 14) kind.offset true true := rfl
  unfold execDataProcessing
  dsimp only
  rw [hopcode, hset, hrn, hrd, himm, if_neg fun h ↦ hwide h.2, if_neg (by decide),
    if_neg (by simp), if_neg (by simp [hbank, hvalid])]
  unfold dpOperand2
  rw [himm, if_pos rfl]
  dsimp only
  rw [hop2, hresult, if_neg (by decide), if_pos rfl, aluSub_fst, aluSub, aluAdd_eq]

/-- The program found its state again, but for the link register and the SPSR of the handler. -/
structure Returned (kind : Interruption) (c c' : Core) : Prop where
  registers : ∀ n, n ≠ 15 → c'.r n = c.r n
  place : c'.r 15 = c.r 15
  cpsr : c'.cpsr = c.cpsr
  banked : ∀ bank n, n ≠ 15 → ¬(bank = armBankOfMode kind.mode ∧ n = 14) →
    c'.banked bank n = c.banked bank n
  spsr : ∀ bank, bank ≠ armBankOfMode kind.mode → c'.spsr bank = c.spsr bank
  rest : c'.aside = c.aside

/-- What the handler of an exception holds of the program it interrupted. -/
structure Handling (kind : Interruption) (c c' : Core) : Prop where
  bank : armBankOfMode c'.cpsr = armBankOfMode kind.mode
  latch : c'.abortPending = false
  saved : c'.spsr (armBankOfMode kind.mode) = c.cpsr
  link : c'.r 14 = c.r 15 + kind.offset
  banked : ∀ bank n, n ≠ 15 → ¬(bank = armBankOfMode kind.mode ∧ n = 14) →
    c'.banked bank n = c.banked bank n
  spsr : ∀ bank, bank ≠ armBankOfMode kind.mode → c'.spsr bank = c.spsr bank
  rest : c'.aside = c.aside

theorem EnteredFrom.handling {kind : Interruption} (h : EnteredFrom kind c c') :
    Handling kind c c' := by
  obtain ⟨q, hq, hlatch, -, rfl⟩ := h
  have hbanked (bank : Bank) (n : Reg) : q.banked bank n = c.banked bank n :=
    (congrArg (fun c : Core ↦ c.banked bank n) hq :)
  have hspsr : q.spsr = c.spsr := (congrArg Core.spsr hq :)
  have hcpsr : q.cpsr = c.cpsr := (congrArg Core.cpsr hq :)
  have hvalid := kind.valid_mode
  have hexc := excepted_enterException q kind.vector kind.mode (c.r 15 + kind.offset) kind.maskFiq
  have hbank := armBankOfMode_congr (hexc.mode hvalid)
  refine ⟨hbank, hexc.latch.trans hlatch, ?_, ?_, fun bank n h15 hlink ↦ ?_, fun bank hne ↦ ?_, ?_⟩
  · rw [spsr_enterException, Function.update_self, hcpsr]
  · rw [← banked_live, hbank, banked_enterException q hvalid (by decide), if_pos ⟨rfl, rfl⟩]
  · rw [banked_enterException q hvalid h15, if_neg fun h ↦ hlink h.symm, hbanked]
  · rw [spsr_enterException, Function.update_of_ne hne, hspsr]
  · rw [aside_enterException, aside_of_paused hq]

theorem commitArm_ok {o : Outcome} (hstatus : o.status = .ok) (hlatch : o.core.abortPending = false) :
    commitArm pc insn o = (.ok, o.core.setR 15 o.next) := by
  unfold commitArm commit
  rw [if_neg (by simp [hstatus]), if_neg (by simp [hlatch]), if_neg (by simp [hstatus]),
    if_neg (by simp [hstatus]), if_pos hstatus]

theorem Handling.returns {kind : Interruption} (h : Handling kind c c') (hwf : WellFormed c)
    (hbank : armBankOfMode c.cpsr ≠ armBankOfMode kind.mode) :
    (commitArm pc insn (execDataProcessing c' pc kind.subs next)).1 = .ok ∧
      Returned kind c (commitArm pc insn (execDataProcessing c' pc kind.subs next)).2 ∧
      (commitArm pc insn (execDataProcessing c' pc kind.subs next)).2.vfpS = c'.vfpS := by
  obtain ⟨cpsr, hmode, hexec⟩ := execDataProcessing_subs kind c' pc next
    (by rw [h.bank]; exact kind.bank_ne_usr) (by rw [h.bank, h.saved]; exact hwf.mode)
  have hplace : c'.r 14 - kind.offset = c.r 15 := by
    rw [h.link, BitVec.add_sub_cancel]
  rw [hplace] at hexec
  set q : Core := Core.setR { c' with cpsr := cpsr } 15 (c.r 15) with hq
  have hqbank : armBankOfMode q.cpsr = armBankOfMode kind.mode :=
    (armBankOfMode_congr hmode).trans h.bank
  have hwrite : writePc q (c.r 15) true =
      (restoreCpsr q c.cpsr).done (c.r 15 &&& pcMask (restoreCpsr q c.cpsr)) := by
    have hsaved : q.spsr (armBankOfMode kind.mode) = c.cpsr := h.saved
    have hrestore : true = true ∧ armBankOfMode q.cpsr ≠ .usr := by
      rw [hqbank]
      exact ⟨rfl, kind.bank_ne_usr⟩
    unfold writePc
    dsimp only
    rw [if_pos hrestore, hqbank, hsaved]
  have hcpsr := cpsr_restoreCpsr q hwf.mode
  have hmask : c.r 15 &&& pcMask (restoreCpsr q c.cpsr) = c.r 15 :=
    and_pcMask (by rw [hcpsr]; exact hwf.aligned)
  obtain ⟨hlatch, -, -⟩ := rest_restoreCpsr q c.cpsr
  have hspsr : (restoreCpsr q c.cpsr).spsr = c'.spsr := (rest_armSetMode q c.cpsr).2.2.1
  rw [hexec, hwrite, hmask, commitArm_ok rfl (hlatch.trans h.latch)]
  have hbanked (bank : Bank) (n : Reg) (h15 : n ≠ 15)
      (hlink : ¬(bank = armBankOfMode kind.mode ∧ n = 14)) :
      ((restoreCpsr q c.cpsr).setR 15 (c.r 15)).banked bank n = c.banked bank n := by
    rw [banked_setR _ _ (.inl h15), banked_restoreCpsr, hq, banked_setR _ _ (.inl h15),
      banked_of_cpsr c' hmode, h.banked bank n h15 hlink]
  refine ⟨rfl, ⟨fun n h15 ↦ ?_, Core.setR_self .., hcpsr, hbanked, fun bank hne ↦ ?_, ?_⟩, ?_⟩
  · have hlive := banked_live ((restoreCpsr q c.cpsr).setR 15 (c.r 15)) n
    have hcpsr' : ((restoreCpsr q c.cpsr).setR 15 (c.r 15)).cpsr = c.cpsr := hcpsr
    rw [hcpsr', hbanked _ n h15 fun hlink ↦ hbank hlink.1, banked_live] at hlive
    exact hlive.symm
  · exact (congrFun hspsr bank).trans (h.spsr bank hne)
  · exact (aside_restoreCpsr q c.cpsr).trans h.rest
  · exact congrArg Prod.snd (still_restoreCpsr q c.cpsr)

theorem stepArm_subs (kind : Interruption) (fpu : HostFpu) (c : Core) (pc : Word) :
    stepArm fpu c pc kind.subs = pure (commitArm pc kind.subs
      (execDataProcessing { c with cycles := c.cycles + 1 } pc kind.subs (pc + 4))) := by
  have halways : field4 kind.subs 28 = 0xe := by cases kind <;> decide
  have hspace : kind.subs &&& 0x0c000000 = 0 ∧ kind.subs &&& 0x01900000 ≠ 0x01000000 ∧
      ¬(kind.subs &&& 0x0e000000 = 0 ∧ kind.subs &&& 0x00000090 = 0x00000090) := by
    cases kind <;> decide
  unfold stepArm execArm
  dsimp only
  rw [halways, if_neg (by decide), if_neg fun h ↦ h.1 rfl, if_pos hspace]
  rfl

/-- The cores of the same program while its handler runs, whatever the interrupt lines do. -/
def Core.withLines (c : Core) (irq fiq : Bool) : Core := { c with irqLine := irq, fiqLine := fiq }

/-- An exception and the return from it leave the program as it was. After a data abort of a VFP
load of several registers some of these may hold what it had loaded. -/
theorem exception_return (fpu : HostFpu) (bus : Bus σ) (kind : Interruption) (cpu : Cpu) (ctx : σ)
    (hwf : WellFormed cpu.core) (hclear : cpu.core.abortPending = false)
    (hsvc : SvcKeepsLatch bus) (hbank : armBankOfMode cpu.core.cpsr ≠ armBankOfMode kind.mode)
    (htaken : (cpuStep fpu bus cpu ctx).2.1.core.taken = kind.vector :: cpu.core.taken)
    (irq fiq : Bool) (caches : Caches) (ctx' : σ)
    (hissued : issued bus (⟨(cpuStep fpu bus cpu ctx).2.1.core.withLines irq fiq, caches⟩, ctx') =
      some kind.subs) :
    let x := cpuStep fpu bus ⟨(cpuStep fpu bus cpu ctx).2.1.core.withLines irq fiq, caches⟩ ctx'
    x.1 = .ok ∧ Returned kind cpu.core x.2.1.core ∧
      (x.2.1.core.vfpS = cpu.core.vfpS ∨ kind = .dataAbort ∧
        ∃ insn, issued bus (cpu, ctx) = some insn ∧ isVfpLoadMultiple insn = true) := by
  have hentered := enteredFrom_cpuStep kind hsvc hclear htaken
  have hvfp : (cpuStep fpu bus cpu ctx).2.1.core.vfpS = cpu.core.vfpS ∨ kind = .dataAbort ∧
      ∃ insn, issued bus (cpu, ctx) = some insn ∧ isVfpLoadMultiple insn = true := by
    by_cases hkind : kind = .dataAbort
    · subst hkind
      exact (vfpS_of_dataAbort fpu hsvc hclear htaken).imp_right fun h ↦ ⟨rfl, h⟩
    · obtain ⟨q, -, -, hq, hresult⟩ := hentered
      rw [hresult, vfpS_enterException]
      exact .inl (hq hkind)
  generalize (cpuStep fpu bus cpu ctx).2.1.core = entered at *
  have hreturns (cycles : DWord) (pc : Word) :
      let y := commitArm pc kind.subs (execDataProcessing
        { entered.withLines irq fiq with cycles := cycles } pc kind.subs (pc + 4))
      y.1 = .ok ∧ Returned kind cpu.core y.2 ∧ y.2.vfpS = entered.vfpS := by
    obtain ⟨hbank', hlatch, hsaved, hlink, hbanked, hspsr, hrest⟩ := hentered.handling
    exact Handling.returns ⟨hbank', hlatch, hsaved, hlink, hbanked, hspsr, hrest⟩ hwf hbank
  revert hissued
  apply cpuStep_cases (P := fun issue y ↦ issue = some kind.subs →
    y.1 = .ok ∧ Returned kind cpu.core y.2 ∧ (y.2.vfpS = cpu.core.vfpS ∨ kind = .dataAbort ∧
      ∃ insn, issued bus (cpu, ctx) = some insn ∧ isVfpLoadMultiple insn = true))
  · exact nofun
  · exact nofun
  · exact nofun
  · exact nofun
  · exact nofun
  · exact nofun
  · intro _ insn state hinsn
    obtain rfl := Option.some.inj hinsn
    rw [stepArm_subs, run_pure]
    obtain ⟨hok, hreturned, hsame⟩ := hreturns (entered.cycles + 1) (entered.r 15)
    refine ⟨hok, hreturned, ?_⟩
    rw [← hsame] at hvfp
    exact hvfp

/-- A core just out of reset with interrupts enabled and one raised. -/
def interruptedCpu : Cpu :=
  let c := coreReset .v6Arm1176
  ⟨{ c with cpsr := modeSvc, irqLine := true }, {}⟩

/-- Memory full of SUBS pc, lr, #4: an interrupt returns at once. -/
theorem exception_return_irq :
    let cpu := interruptedCpu
    let bus := constantBus Interruption.irq.subs
    let entered := (cpuStep idleFpu bus cpu ()).2.1.core.withLines false false
    Returned .irq cpu.core (cpuStep idleFpu bus ⟨entered, {}⟩ ()).2.1.core :=
  (exception_return idleFpu (constantBus Interruption.irq.subs) .irq interruptedCpu ()
    ⟨by decide +kernel, by decide +kernel⟩ rfl (fun _ h ↦ nomatch h) (by decide +kernel)
    (by decide +kernel) false false {} () (by decide +kernel)).2.1

/-- Memory with one mapped megabyte, VLDMIA r1, {s0, s1} at zero and the return at the data abort
vector. -/
def edgeBus : Bus Unit :=
  { constantBus 0 with
    read32 := fun _ pa ↦
      (if pa = 0 then 0xec910a02 else if pa = 0x10 then Interruption.dataAbort.subs
        else if pa = 0x4000 then 0x00000c02 else if pa = 0xffffc then 0x12345678 else 0, ()) }

/-- A core whose r1 points at the last word of that megabyte. -/
def edgeCpu : Cpu :=
  let c := (coreReset .v6Arm1176).setR 1 0xffffc
  ⟨{ c with
      vfpFpexc := fpexcEn
      cp15 := { c.cp15 with sctlr := sctlrM, ttbr0 := 0x4000, dacr := 1, cpacr := 0x00f00000 } }, {}⟩

/-- The load of s0 outlives the data abort of s1 and the return from it. -/
theorem vfpS_of_partialLoad :
    let entered := (cpuStep idleFpu edgeBus edgeCpu ()).2.1
    let returned := (cpuStep idleFpu edgeBus entered ()).2.1.core
    WellFormed edgeCpu.core ∧ edgeCpu.core.abortPending = false ∧
      armBankOfMode edgeCpu.core.cpsr ≠ armBankOfMode modeAbt ∧
      entered.core.taken = vecDataAbort :: edgeCpu.core.taken ∧
      issued edgeBus (entered, ()) = some Interruption.dataAbort.subs ∧
      edgeCpu.core.vfpS 0 = 0 ∧ returned.vfpS 0 = 0x12345678 :=
  ⟨⟨by decide +kernel, by decide +kernel⟩, rfl, by decide +kernel, by decide +kernel,
    by decide +kernel, by decide +kernel, by decide +kernel⟩

end S5LBox.Arm
