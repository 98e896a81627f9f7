import S5LBox.Arm.SoundThumb
import S5LBox.Arm.SoundVfp

/-!
# Soundness of a step

The coprocessor transfers, the unconditional space and the decode chain, and from them what any
step keeps, whatever it fetches.
-/

namespace S5LBox.Arm

open BitVec Program

variable {wf mayCall : Prop} {hook : Bool} {c : Core} {pc insn next : Word} {fpu : HostFpu}

/-- A write that asks for no flush leaves the stamped registers alone. -/
def FlushesFor (p : Cp15) (x : Cp15 × Bool) : Prop := x.2 = false → x.1.stamp = p.stamp

theorem flushesFor_cp15Write (p : Cp15) (crn crm : BitVec 4) (opc2 : BitVec 3) (value : Word) :
    FlushesFor p (cp15Write p crn crm opc2 value) := by
  have hsame (b : Bool) : FlushesFor p (p, b) := fun _ ↦ rfl
  have hflush (p' : Cp15) : FlushesFor p (p', true) := nofun
  have hquiet {p' : Cp15} (h : p'.stamp = p.stamp) : FlushesFor p (p', false) := fun _ ↦ h
  have hite {q : Prop} [Decidable q] {a b : Cp15} (ha : a.stamp = p.stamp)
      (hb : b.stamp = p.stamp) : (if q then a else b).stamp = p.stamp := by split <;> assumption
  unfold cp15Write
  repeat' apply iteInduction (motive := FlushesFor p) <;> intro _
  all_goals first
    | exact hflush _
    | exact hsame _
    | exact hquiet rfl
    | exact hquiet (hite rfl rfl)

theorem user_cp15Write (p : Cp15) {crn crm : BitVec 4} {opc2 : BitVec 3} (value : Word)
    (h : cp15UserAllowed crn crm opc2 false = true) : (cp15Write p crn crm opc2 value).2 = false ∧
      { (cp15Write p crn crm opc2 value).1 with tpidrurw := 0 } = { p with tpidrurw := 0 } := by
  have hcases : crn = 7 ∨ crn = 13 ∧ opc2 = 2 := by
    simp only [cp15UserAllowed, Bool.or_eq_true, Bool.and_eq_true, decide_eq_true_eq] at h
    tauto
  obtain rfl | ⟨rfl, rfl⟩ := hcases
  · exact ⟨rfl, rfl⟩
  · exact ⟨rfl, rfl⟩

theorem sound_execCp15 (hnext : wf → Aligned c.cpsr next) :
    SoundProg wf mayCall hook c (execCp15 c pc insn next) := by
  unfold execCp15
  refine .ite (fun _ ↦ .ite (fun _ ↦ .refuse ..) fun _ ↦ ?_) fun _ ↦ ?_
  · exact ⟨trivial, fun _ _ ↦ Sound.of_quiet rfl hnext⟩
  refine .ite (fun _ ↦ .refuse ..) fun huser ↦ .ite (fun _ ↦ Sound.of_quiet rfl hnext) fun hload ↦ ?_
  have hallowed (h : c.isPriv = false) :
      cp15UserAllowed (field4 insn 16) (field4 insn 0) (insn.extractLsb' 5 3) false = true := by
    have hfalse : bit insn 20 = false := by simpa using hload
    by_contra hnot
    exact huser ⟨by simp [h], by simpa [hfalse] using hnot⟩
  generalize hvalue : c.regRead pc (field4 insn 12) = value
  split
  · rename_i p hwrite
    have hstamp : p.stamp = c.cp15.stamp := by
      have h := flushesFor_cp15Write c.cp15 (field4 insn 16) (field4 insn 0)
        (insn.extractLsb' 5 3) value
      rw [hwrite] at h
      exact h rfl
    refine ⟨fun h ↦ absurd rfl h, fun _ h ↦ h, fun hwf _ ↦ hnext hwf, fun _ ↦ hstamp, ?_, ?_,
      .inl rfl⟩
    · intro hpriv _
      have hrest := (user_cp15Write c.cp15 value (hallowed hpriv)).2
      rw [hwrite] at hrest
      show Core.confined { c with cp15 := p } = c.confined
      unfold Core.confined
      simp only [Core.quiet]
      rw [hrest]
    · intro hclear hset
      exact absurd hset (by simp [Core.done, hclear])
  · rename_i p hwrite
    have hpriv : c.isPriv = true := by
      by_contra hnot
      have hquiet := (user_cp15Write c.cp15 value
        (hallowed (by simpa using hnot))).1
      rw [hwrite] at hquiet
      cases hquiet
    exact ⟨trivial, fun _ _ ↦ Sound.of_priv hpriv rfl rfl (fun _ ↦ rfl) (fun _ h ↦ h) hnext⟩

theorem sound_execCoprocessor (hnext : wf → Aligned c.cpsr next) :
    SoundProg wf mayCall hook c (execCoprocessor fpu c pc insn next) := by
  refine .ite (fun _ ↦ .ite (fun _ ↦ .refuse ..) fun _ ↦ Sound.of_quiet ?_ hnext) fun _ ↦ ?_
  · split <;> rfl
  refine .ite (fun _ ↦ sound_vfpExecute hnext) fun _ ↦ ?_
  exact .ite (fun _ ↦ .refuse ..) fun _ ↦ sound_execCp15 hnext

theorem sound_execCps (hnext : wf → next &&& 3 = 0) :
    Sound wf hook c c.cp15.stamp (execCps c insn next) := by
  have hnext' (cpsr : Word) : wf → Aligned cpsr next :=
    fun hwf ↦ aligned_of_word (hnext hwf) cpsr
  refine .ite (fun _ ↦ .of_quiet rfl (hnext' _)) fun hpriv ↦ .ite (fun _ ↦ .refuse ..) fun _ ↦ ?_
  have hpriv' : c.isPriv = true := by simpa using hpriv
  -- The masks first; then the mode, which keeps what `sound_masks` asks for.
  have hmasks : ∃ q : Core, (if bit insn 19 = true then
        cpsMasks c (insn &&& cpsrA ≠ 0) (insn &&& cpsrI ≠ 0) (insn &&& cpsrF ≠ 0) (bit insn 18)
      else c) = q ∧ { q with cpsr := c.cpsr } = c ∧
        q.cpsr &&& (cpsrModeMask ||| cpsrT) = c.cpsr &&& (cpsrModeMask ||| cpsrT) := by
    split
    · exact ⟨_, rfl, cpsMasks_spec ..⟩
    · exact ⟨_, rfl, rfl, rfl⟩
  obtain ⟨q, hq, hrest, hmode⟩ := hmasks
  have hcps : Sound wf hook c c.cp15.stamp
      ((if bit insn 17 = true then armSetMode q (insn &&& cpsrModeMask) else q).done next) := by
    split
    · obtain ⟨hlatch, hcp15, -, htaken⟩ := rest_armSetMode q (insn &&& cpsrModeMask)
      refine .of_priv hpriv' (hlatch.trans (congrArg Core.abortPending hrest :))
        (htaken.trans (congrArg Core.taken hrest :)) (fun _ ↦ ?_) (fun _ hvalid ↦ ?_) (hnext' _)
      · rw [hcp15]
        exact congrArg Cp15.stamp (congrArg Core.cp15 hrest :)
      · refine valid_armSetMode q _ ?_
        rwa [armModeIsValid_congr (and_eq_of_and_eq hmode (by decide))]
    · exact sound_masks hpriv' hrest hmode (hnext' _)
  rw [← hq] at hcps
  simpa [cpsMasks] using hcps

theorem sound_execBlxImmediate : Sound wf hook c c.cp15.stamp (execBlxImmediate c pc insn) :=
  .of_steady (Core.steady_setT rfl) fun _ ↦ aligned_setT _ _

theorem sound_execSrs (hnext : wf → Aligned c.cpsr next) :
    SoundProg wf mayCall hook c (execSrs c insn next) := by
  unfold execSrs
  refine .ite (fun _ ↦ .refuse ..) fun hmode ↦ .prepare hnext fun base ↦ ?_
  have hpriv : c.isPriv = true := by
    by_contra h
    exact hmode (.inl (by simpa [Core.isPriv] using h))
  refine .write hnext ?_
  refine .write hnext ?_
  refine .ite (fun _ ↦ ?_) fun _ ↦ Sound.of_quiet rfl hnext
  refine Assigned.sound ?_ hpriv hnext
  split
  · exact (Assigned.refl c).setR _ _
  · exact ⟨rfl, rfl, rfl, rfl⟩

theorem sound_execRfe (hnext : wf → Aligned c.cpsr next) :
    SoundProg wf mayCall hook c (execRfe c insn next) := by
  unfold execRfe
  refine .ite (fun _ ↦ .refuse ..) fun hmode ↦ .prepare hnext fun base ↦ ?_
  have hpriv : c.isPriv = true := by
    by_contra h
    exact hmode (.inl (by simpa using h))
  refine .read (fun _ _ ↦ rfl) hnext fun newPc ↦ ?_
  refine .read (fun _ _ ↦ rfl) hnext fun newCpsr ↦ ?_
  refine .ite (fun _ ↦ .refuse ..) fun _ ↦ ?_
  have hback : Assigned c (if bit insn 21 = true then
      c.setR (field4 insn 16) (stackedWriteback insn (c.r (field4 insn 16))) else c) := by
    split
    · exact (Assigned.refl c).setR _ _
    · exact .refl c
  set q := if bit insn 21 = true then
    c.setR (field4 insn 16) (stackedWriteback insn (c.r (field4 insn 16))) else c
  obtain ⟨hlatch, hcp15, htaken⟩ := rest_restoreCpsr q newCpsr
  refine Sound.of_priv hpriv (hlatch.trans hback.latch) (htaken.trans hback.taken) (fun _ ↦ ?_)
    (fun _ hvalid ↦ ?_) fun _ ↦ aligned_pcMask _ _
  · rw [hcp15, hback.cp15]
  · refine valid_restoreCpsr q _ ?_
    rwa [hback.cpsr]

theorem sound_execArm (hT : c.cpsr &&& cpsrT = 0) (hcall : mayCall ∨ c.isPriv = false)
    (hhook : wf → hook = false) (hnext : wf → next &&& 3 = 0) :
    SoundProg wf mayCall hook c (execArm fpu c pc insn next) := by
  have hnext' : wf → Aligned c.cpsr next := fun hwf ↦ aligned_of_word (hnext hwf) _
  refine .ite (fun _ ↦ sound_execDataProcessing hT hnext) fun _ ↦ ?_
  refine .ite (fun _ ↦ sound_execBranch hT) fun _ ↦ ?_
  refine .ite (fun _ ↦ sound_execMultiply hnext') fun _ ↦ ?_
  refine .ite (fun _ ↦ sound_execMultiplyLong hnext') fun _ ↦ ?_
  refine .ite (fun _ ↦ sound_execDspMultiply hnext') fun _ ↦ ?_
  refine .ite (fun _ ↦ sound_execMedia hnext') fun _ ↦ ?_
  refine .ite (fun _ ↦ sound_execSingleTransfer hnext) fun _ ↦ ?_
  refine .ite (fun _ ↦ sound_execBlockTransfer hnext') fun _ ↦ ?_
  refine .ite (fun _ ↦ sound_execExtraTransfer hnext') fun _ ↦ ?_
  refine .ite (fun _ ↦ sound_execSynchronization hnext') fun _ ↦ ?_
  refine .ite (fun _ ↦ sound_execCoprocessor hnext') fun _ ↦ ?_
  refine .ite (fun _ ↦ sound_vfpExecute hnext') fun _ ↦ ?_
  refine .ite (fun _ ↦ sound_execSvc hcall hhook) fun _ ↦ ?_
  exact .ite (fun _ ↦ sound_execDataProcessing hT hnext) fun _ ↦ .refuse ..

/-- The mode is implemented and the program counter is aligned for the instruction set. -/
structure WellFormed (c : Core) : Prop where
  mode : armModeIsValid c.cpsr = true
  aligned : Aligned c.cpsr (c.r 15)

/-- What any step from `c` keeps, when the translations after it use `regs`. -/
structure StepSound (wf : Prop) (c : Core) (regs : TlbStamp) (c' : Core) : Prop where
  wellFormed : wf → WellFormed c'
  stamped : wf → c'.cp15.stamp = regs
  confined : c.isPriv = false → c'.taken = c.taken → c'.confined = c.confined
  clear : c.abortPending = false → c'.abortPending = false
  aborted : c.abortPending = false → c'.taken = vecDataAbort :: c.taken →
    ∃ q : Core, q.restorable = c.restorable ∧ c' = takePendingDataAbort q (c.r 15)

variable {regs : TlbStamp} {o : Outcome}

theorem StepSound.of_cycles {c' : Core} {cycles : DWord}
    (h : StepSound wf { c with cycles := cycles } regs c') : StepSound wf c regs c' :=
  ⟨h.wellFormed, h.stamped, h.confined, h.clear, h.aborted⟩

theorem wellFormed_enterException (c : Core) {vector mode : Word} (ret : Word) (maskFiq : Bool)
    (hmode : armModeIsValid mode = true) (hvector : vector &&& 3 = 0) :
    WellFormed (enterException c vector mode ret maskFiq) := by
  have h := excepted_enterException c vector mode ret maskFiq
  refine ⟨?_, aligned_of_word (enterException_pc c mode ret maskFiq hvector) _⟩
  rwa [armModeIsValid_congr (h.mode hmode)]

theorem StepSound.of_exception {q : Core} {vector mode ret : Word} {maskFiq : Bool}
    (hmode : armModeIsValid mode = true) (hvector : vector &&& 3 = 0)
    (hne : vector ≠ vecDataAbort) (hstamp : wf → q.cp15.stamp = regs)
    (hlatch : c.abortPending = false → q.abortPending = false)
    (htaken : q.taken = c.taken ∨ q.taken = vecSwi :: c.taken) :
    StepSound wf c regs (enterException q vector mode ret maskFiq) := by
  have h := excepted_enterException q vector mode ret maskFiq
  refine ⟨fun _ ↦ wellFormed_enterException q ret maskFiq hmode hvector, fun hwf ↦ ?_, ?_, ?_, ?_⟩
  · rw [h.cp15]
    exact hstamp hwf
  · intro _ hsame
    rw [h.taken] at hsame
    have hlength := congrArg List.length hsame
    obtain heq | heq := htaken <;> simp [heq] at hlength
    omega
  · intro hclear
    rw [h.latch]
    exact hlatch hclear
  · intro _ habort
    rw [h.taken] at habort
    exact absurd (List.cons.inj habort).1 hne

section

variable (h : Sound wf hook c regs o)

include h

/-- The end of an instruction that did not fault. -/
theorem stepSound_commit (hwf : wf → WellFormed c) (hhook : wf → hook = false)
    (hclear : c.abortPending = false → o.core.abortPending = false) :
    StepSound wf c regs (commit o).2 := by
  have hnever : o.core.taken ≠ vecDataAbort :: c.taken := by
    intro habort
    obtain heq | heq := h.recorded
    · rw [heq] at habort
      exact List.cons_ne_self _ _ habort.symm
    · rw [heq] at habort
      exact absurd (List.cons.inj habort).1 (by decide)
  unfold commit
  by_cases hstatus : o.status = .ok
  · rw [if_pos hstatus]
    refine ⟨fun hw ↦ ⟨h.valid hw (hwf hw).mode, ?_⟩, h.stamped, h.confined, hclear, ?_⟩
    · rw [Core.setR_self]
      exact h.aligned hw hstatus
    · exact fun _ habort ↦ absurd habort hnever
  · rw [if_neg hstatus]
    refine ⟨fun hw ↦ ?_, h.stamped, h.confined, hclear, fun _ habort ↦ absurd habort hnever⟩
    obtain heq | ⟨hset, -⟩ := h.refused hstatus
    · show WellFormed o.core
      rw [heq]
      exact hwf hw
    · rw [hhook hw] at hset
      cases hset

/-- The end of an instruction whose access faulted. -/
theorem stepSound_takePendingDataAbort (hset : o.core.abortPending = true) :
    StepSound wf c regs (takePendingDataAbort o.core (c.r 15)) := by
  have hexc := excepted_enterException
    { o.core with
      abortPending := false
      cp15 := { o.core.cp15 with dfsr := o.core.abortFsr, dfar := o.core.abortFar } }
    vecDataAbort modeAbt (c.r 15 + 8) false
  refine ⟨fun _ ↦ wellFormed_enterException _ _ _ (by decide) (by decide), fun hwf ↦ ?_, ?_,
    fun _ ↦ hexc.latch, fun hclear _ ↦ ⟨o.core, h.latched hclear hset, rfl⟩⟩
  · have hstamp : (takePendingDataAbort o.core (c.r 15)).cp15.stamp = o.core.cp15.stamp :=
      (congrArg Cp15.stamp hexc.cp15 :)
    rw [hstamp]
    exact h.stamped hwf
  · intro _ hsame
    have htaken : (takePendingDataAbort o.core (c.r 15)).taken = vecDataAbort :: o.core.taken :=
      hexc.taken
    rw [htaken] at hsame
    have hlength := congrArg List.length hsame
    obtain heq | heq := h.recorded <;> simp [heq] at hlength
    omega

theorem Sound.clear_of_refused (hstatus : o.status ≠ .ok) (hclear : c.abortPending = false) :
    o.core.abortPending = false := by
  obtain heq | ⟨-, heq⟩ := h.refused hstatus
  · rwa [heq]
  · rwa [heq]

theorem stepSound_refused (hwf : wf → WellFormed c) (hhook : wf → hook = false)
    (hstatus : o.status ≠ .ok) : StepSound wf c regs o.core := by
  have hcommit := stepSound_commit h hwf hhook (h.clear_of_refused hstatus)
  rwa [commit, if_neg hstatus] at hcommit

omit h in
theorem stepSound_undefinedInstruction (pc insn : Word) (h : Sound wf hook c regs o)
    (hwf : wf → WellFormed c) (hhook : wf → hook = false) (hstatus : o.status ≠ .ok) :
    StepSound wf c regs (undefinedInstruction o.core pc insn).2 := by
  unfold undefinedInstruction
  split
  · exact .of_exception (by decide) (by decide) (by decide) h.stamped
      (h.clear_of_refused hstatus) h.recorded
  · exact stepSound_refused h hwf hhook hstatus

theorem stepSound_commitStacked (hwf : wf → WellFormed c) (hhook : wf → hook = false) :
    StepSound wf c regs (commitStacked (c.r 15) o).2 := by
  unfold commitStacked
  by_cases hset : o.status = .ok ∧ o.core.abortPending = true
  · rw [if_pos hset]
    exact stepSound_takePendingDataAbort h hset.2
  · rw [if_neg hset]
    refine stepSound_commit h hwf hhook fun hclear ↦ ?_
    by_cases hstatus : o.status = .ok
    · simpa using fun hlatch ↦ hset ⟨hstatus, hlatch⟩
    · exact h.clear_of_refused hstatus hclear

theorem stepSound_commitThumb (hwf : wf → WellFormed c) (hhook : wf → hook = false) :
    StepSound wf c regs (commitThumb (c.r 15) o).2 := by
  unfold commitThumb
  split
  · rename_i hhalt
    exact stepSound_refused h hwf hhook (by simp [hhalt])
  split
  · exact stepSound_takePendingDataAbort h ‹_›
  · exact stepSound_commit h hwf hhook fun _ ↦ by simpa using ‹¬o.core.abortPending = true›

theorem stepSound_commitArm (hwf : wf → WellFormed c) (hhook : wf → hook = false) :
    StepSound wf c regs (commitArm (c.r 15) insn o).2 := by
  unfold commitArm
  split
  · rename_i hhalt
    exact stepSound_refused h hwf hhook (by simp [hhalt])
  split
  · exact stepSound_takePendingDataAbort h ‹_›
  rename_i hlatch
  have hclear : c.abortPending = false → o.core.abortPending = false :=
    fun _ ↦ by simpa using hlatch
  split
  · exact .of_exception (by decide) (by decide) (by decide) h.stamped hclear h.recorded
  split
  · rename_i hundefined
    exact stepSound_undefinedInstruction _ _ h hwf hhook (by simp [hundefined])
  · exact stepSound_commit h hwf hhook hclear

end

/-- A step that is sound against the contract. -/
def StepSoundProg (wf mayCall : Prop) (hook : Bool) (c : Core) (p : Prog StepResult) : Prop :=
  Meets (armContract mayCall hook) (fun regs x ↦ StepSound wf c regs x.2) c.cp15.stamp p

theorem StepSoundProg.ite {p : Prop} [Decidable p] {a b : Prog StepResult}
    (ha : p → StepSoundProg wf mayCall hook c a) (hb : ¬p → StepSoundProg wf mayCall hook c b) :
    StepSoundProg wf mayCall hook c (if p then a else b) := iteInduction ha hb

theorem StepSoundProg.commit (h : Sound wf hook c c.cp15.stamp o) (hwf : wf → WellFormed c)
    (hhook : wf → hook = false) (hlatch : o.core.abortPending = c.abortPending) :
    StepSoundProg wf mayCall hook c (pure (commit o)) :=
  stepSound_commit h hwf hhook fun hclear ↦ by rwa [hlatch]

theorem latch_execCps (c : Core) (insn next : Word) :
    (execCps c insn next).core.abortPending = c.abortPending := by
  have hite (p : Prop) [Decidable p] (q : Core) (flag : Word) (on : Bool) :
      (if p then q.setFlag flag on else q).abortPending = q.abortPending := by split <;> rfl
  unfold execCps
  split
  · rfl
  split
  · rfl
  simp only [Core.done]
  have hmask (q : Core) (h : q.abortPending = c.abortPending) :
      (if bit insn 17 = true then armSetMode q (insn &&& cpsrModeMask) else q).abortPending =
        c.abortPending := by
    split
    · exact (rest_armSetMode q _).1.trans h
    · exact h
  refine hmask _ ?_
  split
  · rw [hite, hite, hite]
  · rfl

theorem stepSound_execUnconditional (hwf : wf → WellFormed c) (hhook : wf → hook = false)
    (hnext : wf → next &&& 3 = 0) :
    StepSoundProg wf mayCall hook c (execUnconditional c (c.r 15) insn next) := by
  have hnext' : wf → Aligned c.cpsr next := fun hw ↦ aligned_of_word (hnext hw) _
  refine .ite (fun _ ↦ .commit (.of_quiet rfl hnext') hwf hhook rfl) fun _ ↦ ?_
  refine .ite (fun _ ↦ .commit (.of_quiet rfl hnext') hwf hhook rfl) fun _ ↦ ?_
  refine .ite (fun _ ↦ .commit (sound_execCps hnext) hwf hhook (latch_execCps ..)) fun _ ↦ ?_
  refine .ite (fun _ ↦ .commit sound_execBlxImmediate hwf hhook rfl) fun _ ↦ ?_
  refine .ite (fun _ ↦ ?_) fun _ ↦ .ite (fun _ ↦ ?_) fun _ ↦ ?_
  · exact (sound_execSrs hnext').map fun _ _ h ↦ stepSound_commitStacked h hwf hhook
  · exact (sound_execRfe hnext').map fun _ _ h ↦ stepSound_commitStacked h hwf hhook
  refine .ite (fun _ ↦ ?_) fun _ ↦ ?_
  · cases bit insn 9
    · exact .commit (.of_quiet rfl hnext') hwf hhook rfl
    · exact .commit (.refuse ..) hwf hhook rfl
  · have hrefuse : Sound wf hook c c.cp15.stamp (c.refuse next) := .refuse ..
    have hstep := stepSound_undefinedInstruction (c.r 15) insn hrefuse hwf hhook nofun
    exact hstep

theorem stepSound_stepArm (hwf : wf → WellFormed c) (hhook : wf → hook = false)
    (hcall : mayCall ∨ c.isPriv = false) (hT : c.cpsr &&& cpsrT = 0) :
    StepSoundProg wf mayCall hook c (stepArm fpu c (c.r 15) insn) := by
  have hpc : wf → c.r 15 &&& 3 = 0 := fun hw ↦ by
    have h := (hwf hw).aligned
    rwa [Aligned, if_pos hT] at h
  have hnext : wf → (c.r 15 + 4) &&& 3 = 0 := fun hw ↦ add_four_and_three (hpc hw)
  set q : Core := { c with cycles := c.cycles + 1 }
  have hwfq : wf → WellFormed q := fun hw ↦ ⟨(hwf hw).mode, (hwf hw).aligned⟩
  have hstep : StepSoundProg wf mayCall hook q (stepArm fpu c (c.r 15) insn) := by
    refine .ite (fun _ ↦ ?_) fun _ ↦ .ite (fun _ ↦ ?_) fun _ ↦ ?_
    · exact stepSound_execUnconditional hwfq hhook hnext
    · exact .commit (.of_quiet rfl fun hw ↦ aligned_of_word (hnext hw) _) hwfq hhook rfl
    · exact (sound_execArm (c := q) hT hcall hhook hnext).map
        fun _ _ h ↦ stepSound_commitArm h hwfq hhook
  exact hstep.mono fun _ _ h ↦ h.of_cycles

theorem stepSound_stepThumb {insn : Half} (hwf : wf → WellFormed c) (hhook : wf → hook = false)
    (hcall : mayCall ∨ c.isPriv = false) (hT : ¬c.cpsr &&& cpsrT = 0) :
    StepSoundProg wf mayCall hook c (stepThumb c (c.r 15) insn) := by
  have hpc : wf → c.r 15 &&& 1 = 0 := fun hw ↦ by
    have h := (hwf hw).aligned
    rwa [Aligned, if_neg hT] at h
  have hnext : wf → Aligned c.cpsr (c.r 15 + 2) := fun hw ↦
    aligned_of_even hT (even_add (hpc hw) (by decide))
  set q : Core := { c with cycles := c.cycles + 1 }
  have hwfq : wf → WellFormed q := fun hw ↦ ⟨(hwf hw).mode, (hwf hw).aligned⟩
  have hstep : StepSoundProg wf mayCall hook q (stepThumb c (c.r 15) insn) :=
    (sound_thumbStep (c := q) hT hpc hcall hhook hnext).map
      fun _ _ h ↦ stepSound_commitThumb h hwfq hhook
  exact hstep.mono fun _ _ h ↦ h.of_cycles

theorem and_clear_add_and (pc mask : Word) : (pc &&& ~~~mask) + (pc &&& mask) = pc := by
  rw [add_eq_or_of_and_eq_zero]
  · ext i hi
    simp only [getElem_or, getElem_and, getElem_not]
    cases pc[i] <;> cases mask[i] <;> rfl
  · ext i hi
    simp only [getElem_and, getElem_not, getElem_zero]
    cases pc[i] <;> cases mask[i] <;> rfl

theorem sub_block (pc : Word) : pc - (pc &&& ~~~0x3ff) = pc &&& 0x3ff := by
  have h := and_clear_add_and pc 0x3ff
  calc pc - (pc &&& ~~~0x3ff)
      = (pc &&& ~~~0x3ff) + (pc &&& 0x3ff) - (pc &&& ~~~0x3ff) := by rw [h]
    _ = pc &&& 0x3ff := by rw [BitVec.add_comm, BitVec.add_sub_cancel]

theorem fetch_within_block {pc : Word} (h : Aligned c.cpsr pc) :
    (pc - (pc &&& ~~~0x3ff)).toNat + (fetchWidth (c.getFlag cpsrT)).bytes ≤ 0x400 := by
  have hoffset : (pc &&& 0x3ff).toNat = pc.toNat % 0x400 := by
    rw [toNat_and]
    exact Nat.and_two_pow_sub_one_eq_mod pc.toNat 10
  rw [sub_block, hoffset]
  by_cases hT : c.cpsr &&& cpsrT = 0
  · have hflag : c.getFlag cpsrT = false := by simp [Core.getFlag, hT]
    rw [Aligned, if_pos hT, and_three_eq_zero_iff] at h
    rw [hflag, show (fetchWidth false).bytes = 4 from rfl]
    omega
  · have hflag : c.getFlag cpsrT = true := decide_eq_true hT
    rw [Aligned, if_neg hT, and_one_eq_zero_iff] at h
    rw [hflag, show (fetchWidth true).bytes = 2 from rfl]
    omega

theorem stepSound_armStep (hwf : wf → WellFormed c) (hhook : wf → hook = false)
    (hcall : mayCall ∨ c.isPriv = false) (hfetch : hook = false → wf) :
    StepSoundProg wf mayCall hook c (armStep fpu c) := by
  have hentry (vector mode ret : Word) (maskFiq : Bool) (hmode : armModeIsValid mode = true)
      (hvector : vector &&& 3 = 0) (hne : vector ≠ vecDataAbort) :
      StepSound wf c c.cp15.stamp
        (enterException { c with cycles := c.cycles + 1 } vector mode ret maskFiq) :=
    .of_exception hmode hvector hne (fun _ ↦ rfl) id (.inl rfl)
  refine .ite (fun hinvalid ↦ ?_) fun _ ↦ .ite (fun _ ↦ ?_) fun _ ↦ .ite (fun _ ↦ ?_) fun _ ↦ ?_
  · exact ⟨hwf, fun _ ↦ rfl, fun _ _ ↦ rfl, id, fun _ h ↦ absurd h.symm (List.cons_ne_self _ _)⟩
  · exact hentry _ _ _ _ (by decide) (by decide) (by decide)
  · exact hentry _ _ _ _ (by decide) (by decide) (by decide)
  refine ⟨⟨rfl, fun hnone ↦ fetch_within_block (hwf (hfetch hnone)).aligned⟩, fun answer _ ↦ ?_⟩
  cases answer with
  | error fsr =>
    exact StepSound.of_exception (by decide) (by decide) (by decide) (fun _ ↦ rfl) id (.inl rfl)
  | ok insn =>
    refine StepSoundProg.ite (fun hthumb ↦ ?_) fun hthumb ↦ ?_
    · exact stepSound_stepThumb hwf hhook hcall (of_decide_eq_true hthumb)
    · exact stepSound_stepArm hwf hhook hcall (by simpa [Core.getFlag] using hthumb)

end S5LBox.Arm
