import S5LBox.Arm.Banks
import S5LBox.Arm.Execution

/-!
# Data aborts

The architecture's view of the banked registers, which mode changes keep, and what a step that
ends in a data abort has restored.
-/

namespace S5LBox.Arm

open Program

variable {σ : Type} {c c' : Core}

/-- Register `n` as the modes of `bank` see it: in the register file while such a mode is in
force, parked otherwise. -/
def Core.banked (c : Core) (bank : Bank) (n : Reg) : Word :=
  let cur := armBankOfMode c.cpsr
  if n = 13 then if bank = cur then c.r 13 else c.bankR13 bank
  else if n = 14 then if bank = cur then c.r 14 else c.bankR14 bank
  else
    match parked n with
    | none => c.r n
    | some i =>
      if bank = .fiq then if cur = .fiq then c.r n else c.fiqR8_12 i
      else if cur = .fiq then c.usrR8_12 i else c.r n

theorem banked_eq_bankView (c : Core) (bank : Bank) (n : Reg) :
    c.banked bank n = bankView c (armBankOfMode c.cpsr) bank n := by
  unfold Core.banked
  generalize armBankOfMode c.cpsr = cur
  by_cases hsp : n = 13
  · subst hsp
    by_cases hbank : bank = cur
    · rw [if_pos rfl, if_pos hbank, hbank, bankView_self]
    · rw [if_pos rfl, if_neg hbank, bankView_sp c hbank]
  by_cases hlr : n = 14
  · subst hlr
    by_cases hbank : bank = cur
    · rw [if_neg hsp, if_pos rfl, if_pos hbank, hbank, bankView_self]
    · rw [if_neg hsp, if_pos rfl, if_neg hbank, bankView_lr c hbank]
  rw [if_neg hsp, if_neg hlr]
  cases hparked : parked n with
  | none => exact (bankView_common c cur bank hsp hlr hparked).symm
  | some i => exact (bankView_parked c cur bank hparked).symm

theorem banked_live (c : Core) (n : Reg) : c.banked (armBankOfMode c.cpsr) n = c.r n := by
  rw [banked_eq_bankView, bankView_self]

theorem banked_link (c : Core) (bank : Bank) :
    c.banked bank 14 = if bank = armBankOfMode c.cpsr then c.r 14 else c.bankR14 bank := by
  rw [Core.banked, if_neg (by decide), if_pos rfl]

theorem banked_of_cpsr (c : Core) {cpsr : Word}
    (h : cpsr &&& cpsrModeMask = c.cpsr &&& cpsrModeMask) (bank : Bank) (n : Reg) :
    Core.banked { c with cpsr := cpsr } bank n = c.banked bank n := by
  unfold Core.banked
  simp only [armBankOfMode_congr h]

theorem banked_armSetMode (c : Core) (mode : Word) (bank : Bank) (n : Reg) :
    (armSetMode c mode).banked bank n = c.banked bank n := by
  rw [banked_eq_bankView, banked_eq_bankView]
  apply bankView_armSetMode

/-- The view of a register an assignment does not reach. -/
theorem banked_setR (c : Core) {m : Reg} (value : Word) {bank : Bank} {n : Reg}
    (h : n ≠ m ∨ (m = 14 ∧ bank ≠ armBankOfMode c.cpsr)) :
    (c.setR m value).banked bank n = c.banked bank n := by
  have hcpsr : (c.setR m value).cpsr = c.cpsr := rfl
  by_cases hn : n = m
  · obtain ⟨rfl, hbank⟩ : m = 14 ∧ bank ≠ armBankOfMode c.cpsr :=
      h.resolve_left (not_not.2 hn)
    subst hn
    rw [banked_link, banked_link, hcpsr, if_neg hbank, if_neg hbank]
    rfl
  · unfold Core.banked
    simp only [hcpsr]
    have hsame : (c.setR m value).r n = c.r n := Core.setR_of_ne c value hn
    by_cases h13 : n = 13
    · subst h13
      rw [if_pos rfl, if_pos rfl, hsame]
      rfl
    by_cases h14 : n = 14
    · subst h14
      rw [if_neg h13, if_pos rfl, if_neg h13, if_pos rfl, hsame]
      rfl
    rw [if_neg h13, if_neg h14, if_neg h13, if_neg h14, hsame]
    rfl

theorem banked_enterException (c : Core) {vector mode ret : Word} {maskFiq : Bool}
    (hmode : armModeIsValid mode = true) {bank : Bank} {n : Reg} (h15 : n ≠ 15) :
    (enterException c vector mode ret maskFiq).banked bank n =
      if n = 14 ∧ bank = armBankOfMode mode then ret else c.banked bank n := by
  have hmasked : (enterException c vector mode ret maskFiq).banked bank n =
      (linked c mode ret).banked bank n := by
    rw [enterException_eq, banked_setR _ _ (.inl h15), takeException_eq]
    have heq := maskInterrupts_eq (linked c mode ret) vector maskFiq
    show (entered c vector mode ret maskFiq).banked bank n = _
    unfold entered
    rw [heq]
    exact banked_of_cpsr _ (mode_maskInterrupts ..) bank n
  have hbank : armBankOfMode (armSetMode c mode).cpsr = armBankOfMode mode := by
    rw [cpsr_armSetMode, if_pos hmode]
    exact armBankOfMode_congr (merge_and_mask ..)
  rw [hmasked]
  split
  · rename_i h
    obtain ⟨rfl, rfl⟩ := h
    have hlinked : (linked c mode ret).cpsr = (armSetMode c mode).cpsr := rfl
    rw [banked_link, hlinked, if_pos hbank.symm]
    exact Core.setR_self ..
  · rename_i h
    refine (banked_setR _ ret ?_).trans (banked_armSetMode c mode bank n)
    by_cases h14 : n = 14
    · refine .inr ⟨rfl, ?_⟩
      rw [hbank]
      exact fun hb ↦ h ⟨h14, hb⟩
    · exact .inl h14

theorem spsr_enterException (c : Core) (vector mode ret : Word) (maskFiq : Bool) :
    (enterException c vector mode ret maskFiq).spsr =
      Function.update c.spsr (armBankOfMode mode) c.cpsr := by
  obtain ⟨-, -, hspsr, -⟩ := rest_armSetMode c mode
  have heq := maskInterrupts_eq (linked c mode ret) vector maskFiq
  have hlinked : (linked c mode ret).spsr = Function.update c.spsr (armBankOfMode mode) c.cpsr := by
    rw [← hspsr]
    rfl
  rw [enterException_eq, takeException_eq, ← hlinked]
  unfold entered
  rw [heq]
  rfl

/-- A data abort of the instruction at `pc` left everything as it was before the instruction, but
for what the abort itself reports. -/
structure BaseRestored (c c' : Core) : Prop where
  registers : ∀ bank n, n ≠ 15 → ¬(bank = .abt ∧ n = 14) → c'.banked bank n = c.banked bank n
  spsr : ∀ bank, bank ≠ .abt → c'.spsr bank = c.spsr bank
  fpexc : c'.vfpFpexc = c.vfpFpexc
  fpscr : c'.vfpFpscr = c.vfpFpscr
  cp15 : { c'.cp15 with dfsr := c.cp15.dfsr, dfar := c.cp15.dfar } = c.cp15
  savedCpsr : c'.spsr .abt = c.cpsr
  link : c'.banked .abt 14 = c.r 15 + 8

theorem rest_enterException (c : Core) (vector mode ret : Word) (maskFiq : Bool) :
    (enterException c vector mode ret maskFiq).vfpFpexc = c.vfpFpexc ∧
      (enterException c vector mode ret maskFiq).vfpFpscr = c.vfpFpscr := by
  have hmode : (armSetMode c mode).vfpFpexc = c.vfpFpexc ∧
      (armSetMode c mode).vfpFpscr = c.vfpFpscr := by
    unfold armSetMode switchBank
    simp only
    split_ifs <;> exact ⟨rfl, rfl⟩
  have heq := maskInterrupts_eq (linked c mode ret) vector maskFiq
  rw [enterException_eq, takeException_eq]
  unfold entered
  rw [heq]
  exact hmode

theorem baseRestored_takePendingDataAbort {q : Core} (h : q.restorable = c.restorable) :
    BaseRestored c (takePendingDataAbort q (c.r 15)) := by
  have hbanked (bank : Bank) (n : Reg) : q.banked bank n = c.banked bank n :=
    (congrArg (fun c : Core ↦ c.banked bank n) h :)
  have hcpsr : q.cpsr = c.cpsr := (congrArg Core.cpsr h :)
  have hspsr : q.spsr = c.spsr := (congrArg Core.spsr h :)
  have hcp15 : q.cp15 = c.cp15 := (congrArg Core.cp15 h :)
  have hbank : armBankOfMode modeAbt = .abt := by decide
  unfold takePendingDataAbort
  set p : Core := { q with
    abortPending := false
    cp15 := { q.cp15 with dfsr := q.abortFsr, dfar := q.abortFar } } with hp
  have hview (bank : Bank) (n : Reg) : p.banked bank n = c.banked bank n := hbanked bank n
  obtain ⟨hfpexc, hfpscr⟩ := rest_enterException p vecDataAbort modeAbt (c.r 15 + 8) false
  have hexc := excepted_enterException p vecDataAbort modeAbt (c.r 15 + 8) false
  refine
    { registers := fun bank n h15 hlink ↦ ?_
      spsr := fun bank hne ↦ ?_
      fpexc := hfpexc.trans (congrArg Core.vfpFpexc h :)
      fpscr := hfpscr.trans (congrArg Core.vfpFpscr h :)
      cp15 := ?_
      savedCpsr := ?_
      link := ?_ }
  · rw [banked_enterException p (by decide) h15, hbank, if_neg fun hb ↦ hlink hb.symm]
    exact hview bank n
  · rw [spsr_enterException, hbank, Function.update_of_ne hne]
    exact congrFun hspsr bank
  · rw [hexc.cp15, ← hcp15]
  · rw [spsr_enterException, hbank, Function.update_self]
    exact hcpsr
  · rw [banked_enterException p (by decide) (by decide), hbank, if_pos ⟨rfl, rfl⟩]

/-- From a state without a pending abort (which reset establishes and every step restores), a step
that ends in a data abort leaves the registers and modes as they were before the instruction. -/
theorem baseRestored_of_dataAbort (fpu : HostFpu) (bus : Bus σ) (cpu : Cpu) (ctx : σ)
    (hsvc : SvcKeepsLatch bus) (hclear : cpu.core.abortPending = false) :
    let c' := (cpuStep fpu bus cpu ctx).2.1.core
    c'.abortPending = false ∧
      (c'.taken = vecDataAbort :: cpu.core.taken → BaseRestored cpu.core c') := by
  obtain ⟨regs, hsound⟩ : ∃ regs, StepSound False cpu.core regs (cpuStep fpu bus cpu ctx).2.1.core :=
    stepSound_cpuStep False False.elim False.elim (.inl trivial) (keeps_of_latch hsvc) nofun
  refine ⟨hsound.clear hclear, fun htaken ↦ ?_⟩
  obtain ⟨q, hq, hresult⟩ := hsound.aborted hclear htaken
  rw [hresult]
  exact baseRestored_takePendingDataAbort hq

/-- A core just out of reset that checks alignment, with an odd base register. -/
def checkingCpu : Cpu :=
  let c := (coreReset .v6Arm1176).setR 1 1
  ⟨{ c with cp15 := { c.cp15 with sctlr := sctlrA } }, {}⟩

/-- A load from an odd address. -/
theorem baseRestored_unalignedLoad : BaseRestored checkingCpu.core
    (cpuStep idleFpu (constantBus 0xe5910000) checkingCpu ()).2.1.core :=
  (baseRestored_of_dataAbort idleFpu (constantBus 0xe5910000) checkingCpu ()
    (fun _ h ↦ nomatch h) rfl).2 (by decide +kernel)

/-- A core just out of reset, but with an abort pending. -/
def latchedCpu : Cpu := ⟨{ coreReset .v6Arm1176 with abortPending := true }, {}⟩

/-- An abort that was pending before a STREX is taken after it, when its status register is
written already. -/
theorem not_baseRestored_latchedStrex :
    let c' := (cpuStep idleFpu (constantBus 0xe1820f91) latchedCpu ()).2.1.core
    c'.taken = vecDataAbort :: latchedCpu.core.taken ∧ ¬BaseRestored latchedCpu.core c' := by
  refine ⟨by decide +kernel, fun h ↦ ?_⟩
  have hsame := h.registers .usr 0 (by decide) (by decide)
  revert hsame
  decide +kernel

end S5LBox.Arm
