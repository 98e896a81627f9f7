import S5LBox.Arm.Sound

/-!
# Soundness of the register instructions

Data processing, branches, multiplies, media instructions, the VFP's arithmetic and register
transfers, and the Thumb counterparts: none of them makes a request.
-/

namespace S5LBox.Arm

open BitVec

variable {wf : Prop} {hook : Bool} {c : Core} {pc insn next : Word}

theorem cpsr_switchBank (c : Core) (ob nb : Bank) : (switchBank c ob nb).cpsr = c.cpsr := by
  unfold switchBank
  simp only
  split_ifs <;> rfl

theorem cpsr_armSetMode (c : Core) (mode : Word) : (armSetMode c mode).cpsr =
      if armModeIsValid mode then (c.cpsr &&& ~~~cpsrModeMask) ||| (mode &&& cpsrModeMask)
      else c.cpsr := by
  unfold armSetMode
  split
  · simp only
    split <;> simp [cpsr_switchBank]
  · rfl

/-- Setting a mode touches registers, banks and the CPSR only. -/
theorem rest_armSetMode (c : Core) (mode : Word) :
    (armSetMode c mode).abortPending = c.abortPending ∧ (armSetMode c mode).cp15 = c.cp15 ∧
      (armSetMode c mode).spsr = c.spsr ∧ (armSetMode c mode).taken = c.taken := by
  unfold armSetMode switchBank
  simp only
  split_ifs <;> exact ⟨rfl, rfl, rfl, rfl⟩

theorem merge_and_mask (a b mask : Word) : ((a &&& ~~~mask) ||| (b &&& mask)) &&& mask = b &&& mask
    := by
  ext i hi
  simp only [getElem_and, getElem_or, getElem_not]
  cases a[i] <;> cases b[i] <;> cases mask[i] <;> rfl

theorem merge_and_clear (a b mask : Word) :
    ((a &&& mask) ||| (b &&& ~~~mask)) &&& mask = a &&& mask := by
  ext i hi
  simp only [getElem_and, getElem_or, getElem_not]
  cases a[i] <;> cases b[i] <;> cases mask[i] <;> rfl

theorem armModeIsValid_congr {a b : Word} (h : a &&& cpsrModeMask = b &&& cpsrModeMask) :
    armModeIsValid a = armModeIsValid b := by
  rw [armModeIsValid, armModeIsValid, h]

theorem valid_armSetMode (c : Core) (mode : Word) (h : armModeIsValid c.cpsr = true) :
    armModeIsValid (armSetMode c mode).cpsr = true := by
  rw [cpsr_armSetMode]
  split
  · rwa [armModeIsValid_congr (merge_and_mask _ _ _)]
  · exact h

theorem valid_restoreCpsr (c : Core) (s : Word) (h : armModeIsValid c.cpsr = true) :
    armModeIsValid (restoreCpsr c s).cpsr = true := by
  unfold restoreCpsr
  rw [armModeIsValid_congr (merge_and_clear _ _ _)]
  exact valid_armSetMode c s h

theorem rest_restoreCpsr (c : Core) (s : Word) :
    (restoreCpsr c s).abortPending = c.abortPending ∧ (restoreCpsr c s).cp15 = c.cp15 ∧
      (restoreCpsr c s).taken = c.taken := by
  obtain ⟨hlatch, hcp15, -, htaken⟩ := rest_armSetMode c s
  exact ⟨hlatch, hcp15, htaken⟩

/-- A target taken through `pcMask` suits the instruction set. -/
theorem aligned_pcMask (c : Core) (target : Word) : Aligned c.cpsr (target &&& pcMask c) := by
  by_cases h : c.cpsr &&& cpsrT = 0
  · rw [Aligned, if_pos h, pcMask, if_neg (by simp [Core.getFlag, h])]
    exact clear_three_and_three target
  · have hflag : c.getFlag cpsrT = true := decide_eq_true h
    rw [Aligned, if_neg h, pcMask, if_pos hflag]
    exact clear_one_and_one target

theorem bank_eq_usr_of_not_priv (h : c.isPriv = false) : armBankOfMode c.cpsr = .usr := by
  have hmode : c.cpsr &&& cpsrModeMask = modeUsr := by simpa [Core.isPriv] using h
  rw [armBankOfMode]
  simp only [hmode]
  decide

theorem sound_execSaturating (hnext : wf → Aligned c.cpsr next) :
    Sound wf hook c c.cp15.stamp (execSaturating c pc insn next) :=
  .of_quiet (by simp) hnext

theorem sound_execMrs (hnext : wf → Aligned c.cpsr next) :
    Sound wf hook c c.cp15.stamp (execMrs c insn next) := by
  unfold execMrs
  simp only
  split
  · exact .refuse ..
  · exact .of_quiet rfl hnext

theorem msrMask_user_disjoint (mask : Word) : mask &&& 0xff000000 &&& controlMask = 0 :=
  and_and_disjoint (by decide)

theorem merge_control {a value mask : Word} (h : mask &&& controlMask = 0) :
    ((a &&& ~~~mask) ||| (value &&& mask)) &&& controlMask = a &&& controlMask := by
  rw [or_and_of_disjoint _ (and_and_disjoint h), clear_and_of_disjoint _ h]

theorem sound_execMsr (hnext : wf → next &&& 3 = 0) :
    Sound wf hook c c.cp15.stamp (execMsr c pc insn next) := by
  have hnext' (cpsr : Word) : wf → Aligned cpsr next :=
    fun hwf ↦ aligned_of_word (hnext hwf) cpsr
  unfold execMsr
  simp only
  generalize (if bit insn 25 = true then ror32 (insn &&& 0xff) ((field4 insn 8).toNat * 2)
    else c.regRead pc (field4 insn 0)) = value
  by_cases hpriv : c.isPriv = true
  · have huser : ¬c.cpsr &&& cpsrModeMask = modeUsr := by simpa [Core.isPriv] using hpriv
    rw [if_neg huser]
    have hset (c' : Core) (hlatch : c'.abortPending = c.abortPending) (hcp15 : c'.cp15 = c.cp15)
        (htaken : c'.taken = c.taken) (hvalid : armModeIsValid c.cpsr = true → armModeIsValid c'.cpsr = true) :
        Sound wf hook c c.cp15.stamp (c'.done next) :=
      .of_priv hpriv hlatch htaken (fun _ ↦ congrArg Cp15.stamp hcp15) (fun _ ↦ hvalid) (hnext' _)
    split
    · split
      · exact .refuse ..
      · exact hset _ rfl rfl rfl id
    · split
      · exact .refuse ..
      · rename_i hrefuse
        split
        · obtain ⟨hlatch, hcp15, htaken⟩ := rest_restoreCpsr c
            ((c.cpsr &&& ~~~msrMask insn) ||| (value &&& msrMask insn))
          exact hset _ hlatch hcp15 htaken (valid_restoreCpsr c _)
        · refine hset _ rfl rfl rfl fun hvalid ↦ ?_
          -- Either the mask has no mode bits, or the new mode was checked.
          by_cases hmask : msrMask insn &&& cpsrModeMask = 0
          · rwa [armModeIsValid_congr]
            rw [or_and_of_disjoint _ (and_and_disjoint hmask), clear_and_of_disjoint _ hmask]
          · by_contra hinvalid
            exact hrefuse ⟨hmask, by simpa using hinvalid⟩
  · have huser : c.cpsr &&& cpsrModeMask = modeUsr := by simpa [Core.isPriv] using hpriv
    have hbank := bank_eq_usr_of_not_priv (by simpa using hpriv)
    rw [if_pos huser, hbank]
    have hmode : msrMask insn &&& 0xff000000 &&& cpsrModeMask = 0 := and_and_disjoint (by decide)
    simp only [hmode]
    split
    · exact .refuse ..
    · refine .of_quiet ?_ (hnext' _)
      exact Core.quiet_of_cpsr _ rfl (merge_control (msrMask_user_disjoint _))

theorem bit_zero_of_ne_two {t : Word} (h : ¬t &&& 3 = 2) (hbit : bit t 0 = false) : t &&& 3 = 0 := by
  have hthree : t &&& 3 = BitVec.ofNat 32 (t.toNat % 4) := by
    rw [← toNat_inj, toNat_and, toNat_ofNat]
    have := Nat.and_two_pow_sub_one_eq_mod t.toNat 2
    have h4 : t.toNat % 4 < 2 ^ 32 := by omega
    rw [Nat.mod_eq_of_lt h4]
    exact this
  have heven : t.toNat % 2 = 0 := by
    have : t.toNat.testBit 0 = false := hbit
    simpa [Nat.testBit_zero] using this
  have hne : t.toNat % 4 ≠ 2 := by
    intro h2
    rw [hthree, h2] at h
    exact h rfl
  rw [and_three_eq_zero_iff]
  omega

theorem clear_one_of_word {t : Word} (h : t &&& 3 = 0) : t &&& ~~~1 &&& 3 = 0 := by
  have hswap : t &&& ~~~1 &&& 3 = t &&& 3 &&& ~~~1 := by
    rw [BitVec.and_assoc, BitVec.and_assoc, BitVec.and_comm (~~~1 : Word)]
  rw [hswap, h]
  exact zero_and

theorem setT_ne_zero (c : Core) : ¬c.setT.cpsr &&& cpsrT = 0 := by
  intro h
  have hbit := congrArg (fun w : Word ↦ w.getLsbD 5) h
  simp [Core.setT, cpsrT] at hbit

theorem clearT_eq_zero (c : Core) : c.clearT.cpsr &&& cpsrT = 0 := by
  rw [Core.clearT, BitVec.and_assoc]
  exact and_zero

/-- Branching with exchange: the new T goes with the target's bit 0. -/
theorem aligned_setT (c : Core) (t : Word) : Aligned c.setT.cpsr (t &&& ~~~1) := by
  rw [Aligned, if_neg (setT_ne_zero c)]
  exact clear_one_and_one t

theorem sound_execBx {link : Bool} (hT : c.cpsr &&& cpsrT = 0) :
    Sound wf hook c c.cp15.stamp (execBx c pc insn next link) := by
  unfold execBx
  simp only
  split
  · exact .refuse ..
  split
  · exact .refuse ..
  rename_i htarget
  generalize c.regRead pc (field4 insn 0) = t at *
  set q := if link = true then c.setR 14 (pc + 4) else c with hq
  have hquiet : q.quiet = c.quiet := by simp [hq]
  split
  · exact .of_steady (Core.steady_setT hquiet) fun _ ↦ aligned_setT q t
  · rename_i hbit
    refine .of_quiet hquiet fun _ ↦ ?_
    rw [Aligned, if_pos hT]
    exact clear_one_of_word (bit_zero_of_ne_two htarget (by simpa using hbit))

theorem sound_execMiscellaneous (hT : c.cpsr &&& cpsrT = 0) (hnext : wf → next &&& 3 = 0) :
    Sound wf hook c c.cp15.stamp (execMiscellaneous c pc insn next) := by
  have hnext' : wf → Aligned c.cpsr next := fun hwf ↦ aligned_of_word (hnext hwf) _
  unfold execMiscellaneous
  split
  · exact sound_execBx hT
  split
  · exact sound_execBx hT
  split
  · exact .of_quiet rfl hnext'
  split
  · exact sound_execSaturating hnext'
  split
  · exact sound_execMrs hnext'
  split
  · exact sound_execMsr hnext
  · exact .refuse ..

theorem dpResult_cases {P : Word × Core → Prop} (opcode : BitVec 4) (a op2 : Word)
    (carry set : Bool) (hlogic : ∀ res set, P (res, aluLogicFlags c res carry set))
    (hadd : ∀ x y cin set, P (aluAdd c x y cin set)) : P (dpResult c opcode a op2 carry set) := by
  unfold dpResult
  repeat' apply iteInduction (motive := P) <;> intro _
  all_goals first | exact hlogic .. | exact hadd ..

@[simp] theorem quiet_dpResult (c : Core) (opcode : BitVec 4) (a op2 : Word) (carry set : Bool) :
    (dpResult c opcode a op2 carry set).2.quiet = c.quiet :=
  dpResult_cases (P := fun x ↦ x.2.quiet = c.quiet) opcode a op2 carry set
    (fun _ _ ↦ quiet_aluLogicFlags ..) fun _ _ _ _ ↦ quiet_aluAdd ..

theorem sound_writePc {q : Core} {res : Word} {set : Bool} (hquiet : q.quiet = c.quiet) :
    Sound wf hook c c.cp15.stamp (writePc q res set) := by
  unfold writePc
  simp only
  have hvalid : armModeIsValid c.cpsr = true → armModeIsValid q.cpsr = true := fun h ↦ by
    rwa [armModeIsValid_congr (Core.mode_of_steady (Core.steady_of_quiet hquiet))]
  split
  · rename_i hrestore
    have hpriv : c.isPriv = true := by
      rw [← Core.isPriv_of_quiet hquiet]
      by_contra h
      exact hrestore.2 (bank_eq_usr_of_not_priv (by simpa using h))
    obtain ⟨hlatch, hcp15, htaken⟩ := rest_restoreCpsr q (q.spsr (armBankOfMode q.cpsr))
    refine .of_priv hpriv (hlatch.trans (congrArg Core.abortPending hquiet :))
      (htaken.trans (congrArg Core.taken hquiet :)) (fun _ ↦ ?_)
      (fun _ h ↦ valid_restoreCpsr q _ (hvalid h)) (fun _ ↦ aligned_pcMask _ _)
    rw [hcp15]
    exact congrArg Cp15.stamp (congrArg Core.cp15 hquiet :)
  · refine .of_quiet hquiet fun _ ↦ (aligned_pcMask q res).congr ?_
    exact (and_eq_of_and_eq (congrArg Core.cpsr hquiet :) (by decide)).symm

theorem sound_execDataProcessing (hT : c.cpsr &&& cpsrT = 0) (hnext : wf → next &&& 3 = 0) :
    Sound wf hook c c.cp15.stamp (execDataProcessing c pc insn next) := by
  have hnext' : wf → Aligned c.cpsr next := fun hwf ↦ aligned_of_word (hnext hwf) _
  unfold execDataProcessing
  simp only
  split
  · split
    · exact .refuse ..
    · split <;> exact .of_quiet rfl hnext'
  split
  · exact sound_execMiscellaneous hT hnext
  split
  · exact .refuse ..
  split
  · exact .refuse ..
  split
  · exact .of_quiet (by simp) hnext'
  split
  · exact sound_writePc (by simp)
  · exact .of_quiet (by simp) hnext'

theorem sound_execBranch (hT : c.cpsr &&& cpsrT = 0) :
    Sound wf hook c c.cp15.stamp (execBranch c pc insn) := by
  refine .of_quiet (by simp) fun _ ↦ ?_
  rw [Aligned, if_pos hT]
  exact clear_three_and_three _

section

variable (hnext : wf → Aligned c.cpsr next)

include hnext

theorem sound_execMultiply : Sound wf hook c c.cp15.stamp (execMultiply c pc insn next) :=
  .of_quiet (by simp) hnext

theorem sound_execMultiplyLong :
    Sound wf hook c c.cp15.stamp (execMultiplyLong c pc insn next) := by
  have hflags (q : Core) (n z : Bool) (h : q.quiet = c.quiet) :
      ((q.setFlag cpsrN n).setFlag cpsrZ z).quiet = c.quiet :=
    (Core.quiet_setFlag (by decide) _).trans ((Core.quiet_setFlag (by decide) _).trans h)
  unfold execMultiplyLong
  simp only
  split
  · exact .refuse ..
  · refine .of_quiet ?_ hnext
    split
    · exact hflags _ _ _ rfl
    · rfl

omit hnext in
@[simp] theorem quiet_dspAccumulateWord (c : Core) (product : ℤ) (accumulator : Word) :
    (dspAccumulateWord c product accumulator).2.quiet = c.quiet := by
  simp [dspAccumulateWord]

theorem sound_execDspMultiply : Sound wf hook c c.cp15.stamp (execDspMultiply c insn next) := by
  unfold execDspMultiply
  simp only
  split_ifs <;> first | exact .refuse .. | exact .of_quiet (by simp) hnext

omit hnext in
theorem Sound.ite_refuse {p : Prop} [Decidable p] {q : Core} (hquiet : q.quiet = c.quiet)
    (hnext : wf → Aligned c.cpsr next) :
    Sound wf hook c c.cp15.stamp (if p then c.refuse next else q.done next) := by
  split
  · exact .refuse ..
  · exact .of_quiet hquiet hnext

omit hnext in
theorem sound_execReverse (f : Word → Word) (hnext : wf → Aligned c.cpsr next) :
    Sound wf hook c c.cp15.stamp (execReverse f c pc insn next) := by
  unfold execReverse
  simp only
  split
  · exact .refuse ..
  · exact .of_quiet rfl hnext

theorem sound_execExtend : Sound wf hook c c.cp15.stamp (execExtend c pc insn next) := by
  unfold execExtend
  simp only
  split
  · exact .refuse ..
  split
  · exact .of_quiet rfl hnext
  split
  · exact .refuse ..
  · exact .of_quiet rfl hnext

theorem sound_execParallel : Sound wf hook c c.cp15.stamp (execParallel c pc insn next) := by
  unfold execParallel
  simp only
  split
  · exact .refuse ..
  · refine .of_quiet ?_ hnext
    split
    · refine Core.quiet_of_cpsr _ rfl ?_
      have hge (ge : Word) : (ge &&& 0xf) <<< 16 &&& controlMask = 0 := by
        rw [shiftLeft_and_distrib]
        exact and_and_disjoint (by decide)
      rw [or_and_of_disjoint _ (hge _), clear_and_of_disjoint _ (by decide)]
      rfl
    · rfl

theorem sound_execDualWord : Sound wf hook c c.cp15.stamp (execDualWord c pc insn next) := by
  have hquiet (p : Prop) [Decidable p] (rd : Reg) (value : Word) :
      ((if p then c.setQ else c).setR rd value).quiet = c.quiet := by simp
  exact .ite_refuse (hquiet _ _ _) hnext

theorem sound_execMedia : Sound wf hook c c.cp15.stamp (execMedia c pc insn next) := by
  refine .ite (fun _ ↦ sound_execExtend hnext) fun _ ↦ ?_
  refine .ite (fun _ ↦ sound_execReverse _ hnext) fun _ ↦ ?_
  refine .ite (fun _ ↦ sound_execReverse _ hnext) fun _ ↦ ?_
  refine .ite (fun _ ↦ sound_execReverse _ hnext) fun _ ↦ ?_
  refine .ite (fun _ ↦ sound_execParallel hnext) fun _ ↦ ?_
  refine .ite (fun _ ↦ .ite_refuse rfl hnext) fun _ ↦ ?_
  refine .ite (fun _ ↦ .ite_refuse rfl hnext) fun _ ↦ ?_
  refine .ite (fun _ ↦ .ite_refuse rfl hnext) fun _ ↦ ?_
  refine .ite (fun _ ↦ sound_execDualWord hnext) fun _ ↦ ?_
  refine .ite (fun _ ↦ .ite_refuse rfl hnext) fun _ ↦ ?_
  refine .ite (fun _ ↦ .ite_refuse rfl hnext) fun _ ↦ ?_
  refine .ite (fun _ ↦ .ite_refuse rfl hnext) fun _ ↦ ?_
  exact .refuse ..

end

end S5LBox.Arm
