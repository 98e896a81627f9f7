import S5LBox.Arm.SoundRegister

/-!
# Soundness of the VFP

Its arithmetic and register transfers make no requests. Its loads and stores keep what a fault
leaves behind within the data registers, which is all an aborted VLDM may have changed.
-/

namespace S5LBox.Arm

open Program

variable {wf mayCall : Prop} {hook : Bool} {c : Core} {pc insn next : Word} {fpu : HostFpu}

section

variable (hnext : wf → Aligned c.cpsr next)

include hnext

theorem sound_vfpXfer32 : Sound wf hook c c.cp15.stamp (vfpXfer32 c insn next) := by
  have hmove (n : BitVec 5) : Sound wf hook c c.cp15.stamp
      (if insn &&& 0x6f ≠ 0 ∨ field4 insn 12 = 15 then c.refuse next
        else if bit insn 20 then (c.setR (field4 insn 12) (c.vfpS n)).done next
        else (c.setS n (c.r (field4 insn 12))).done next) :=
    .ite (fun _ ↦ .refuse ..) fun _ ↦ .ite (fun _ ↦ .of_quiet rfl hnext) fun _ ↦
      .of_quiet rfl hnext
  have hread (value : Word) : Sound wf hook c c.cp15.stamp
      (if field4 insn 12 = 15 then
          { c with cpsr := (c.cpsr &&& 0x0fffffff) ||| (value &&& 0xf0000000) }.done next
        else (c.setR (field4 insn 12) value).done next) := by
    refine .ite (fun _ ↦ .of_quiet (Core.quiet_of_cpsr _ rfl ?_) hnext) fun _ ↦ .of_quiet rfl hnext
    rw [or_and_of_disjoint _ (and_and_disjoint (by decide)), BitVec.and_assoc]
    rfl
  refine .ite (fun _ ↦ hmove _) fun _ ↦ ?_
  refine .ite (fun _ ↦ .ite (fun _ ↦ .refuse ..) fun _ ↦ hmove _) fun _ ↦ ?_
  refine .ite (fun _ ↦ .refuse ..) fun _ ↦ ?_
  refine .ite (fun _ ↦ .of_status _ (by decide)) fun hexc ↦ ?_
  refine .ite (fun _ ↦ .of_status _ (by decide)) fun _ ↦ ?_
  refine .ite (fun _ ↦ ?_) fun _ ↦ ?_
  · refine .ite (fun _ ↦ .refuse ..) fun _ ↦ ?_
    refine .ite (fun _ ↦ hread _) fun _ ↦ ?_
    refine .ite (fun _ ↦ hread _) fun _ ↦ ?_
    exact .ite (fun _ ↦ hread _) fun _ ↦ .refuse ..
  · refine .ite (fun _ ↦ .refuse ..) fun _ ↦ ?_
    refine .ite (fun _ ↦ .of_quiet rfl hnext) fun _ ↦ ?_
    refine .ite (fun hvn ↦ ?_) fun _ ↦ .refuse ..
    -- FPEXC is written by privileged modes only.
    have hpriv : c.isPriv = true := by
      by_contra h
      exact hexc ⟨hvn, by simpa using h⟩
    exact .of_priv hpriv rfl rfl (fun _ ↦ rfl) (fun _ h ↦ h) hnext

theorem sound_vfpXfer64 : Sound wf hook c c.cp15.stamp (vfpXfer64 c insn next) := by
  refine .ite (fun _ ↦ .refuse ..) fun _ ↦ .ite (fun _ ↦ ?_) fun _ ↦ ?_
  · refine .ite (fun _ ↦ .refuse ..) fun _ ↦ ?_
    exact .ite (fun _ ↦ .of_quiet rfl hnext) fun _ ↦ .of_quiet rfl hnext
  · refine .ite (fun _ ↦ .refuse ..) fun _ ↦ ?_
    exact .ite (fun _ ↦ .of_quiet rfl hnext) fun _ ↦ .of_quiet rfl hnext

/-- The end of an operation with a doubleword result: only an ambiguous result is refused. -/
theorem sound_retireD {p : Prop} [Decidable p] {n : BitVec 4} {x : DWord × Word} :
    Sound wf hook c c.cp15.stamp
      (if p then c.refuse next else ((c.setD n x.1).raise x.2).done next) :=
  .ite_refuse ((Core.quiet_raise ..).trans (Core.quiet_setD ..)) hnext

theorem sound_retireS {p : Prop} [Decidable p] {n : BitVec 5} {x : Word × Word} :
    Sound wf hook c c.cp15.stamp
      (if p then c.refuse next else ((c.setS n x.1).raise x.2).done next) :=
  .ite_refuse ((Core.quiet_raise ..).trans (Core.quiet_setS ..)) hnext

theorem sound_vfpDpArith {op : BitVec 3} :
    Sound wf hook c c.cp15.stamp (vfpDpArith fpu c insn next op) := by
  unfold vfpDpArith
  split
  · exact .refuse ..
  · refine .ite (fun _ ↦ .refuse ..) fun _ ↦ .ite (fun _ ↦ ?_) fun _ ↦ ?_
    · refine .ite (fun _ ↦ .refuse ..) fun _ ↦ ?_
      exact sound_retireD hnext
    · exact sound_retireS hnext

theorem sound_vfpMoveSqrt : Sound wf hook c c.cp15.stamp (vfpMoveSqrt fpu c insn next) := by
  unfold vfpMoveSqrt
  refine .ite (fun _ ↦ .refuse ..) fun _ ↦ .ite (fun _ ↦ ?_) fun _ ↦ ?_
  · refine .ite (fun _ ↦ .refuse ..) fun _ ↦ ?_
    exact sound_retireD hnext
  · exact sound_retireS hnext

theorem sound_vfpCompare : Sound wf hook c c.cp15.stamp (vfpCompare fpu c insn next) := by
  refine .ite (fun _ ↦ .refuse ..) fun _ ↦ .ite (fun _ ↦ ?_) fun _ ↦ .of_quiet rfl hnext
  exact .ite (fun _ ↦ .refuse ..) fun _ ↦ .of_quiet rfl hnext

theorem sound_vfpConvert : Sound wf hook c c.cp15.stamp (vfpConvert fpu c insn next) := by
  unfold vfpConvert
  refine .ite (fun _ ↦ .refuse ..) fun _ ↦ .ite (fun _ ↦ ?_) fun _ ↦ ?_
  · refine .ite (fun _ ↦ .refuse ..) fun _ ↦ ?_
    exact .ite_refuse ((Core.quiet_raise ..).trans (Core.quiet_setS ..)) hnext
  · refine .ite (fun _ ↦ .refuse ..) fun _ ↦ ?_
    exact .of_quiet ((Core.quiet_raise ..).trans (Core.quiet_setD ..)) hnext

theorem sound_vfpFromInt : Sound wf hook c c.cp15.stamp (vfpFromInt fpu c insn next) :=
  .ite (fun _ ↦ .refuse ..) fun _ ↦ .ite (fun _ ↦ .ite_refuse rfl hnext) fun _ ↦
    .of_quiet rfl hnext

theorem sound_vfpToInt : Sound wf hook c c.cp15.stamp (vfpToInt fpu c insn next) :=
  .ite (fun _ ↦ .refuse ..) fun _ ↦ .ite (fun _ ↦ .refuse ..) fun _ ↦ .of_quiet rfl hnext

theorem sound_vfpDp : Sound wf hook c c.cp15.stamp (vfpDp fpu c insn next) := by
  refine .ite (fun _ ↦ .ite (fun _ ↦ ?_) fun _ ↦ .refuse ..) fun _ ↦ sound_vfpDpArith hnext
  refine .ite (fun _ ↦ sound_vfpMoveSqrt hnext) fun _ ↦ ?_
  refine .ite (fun _ ↦ sound_vfpCompare hnext) fun _ ↦ ?_
  refine .ite (fun _ ↦ sound_vfpConvert hnext) fun _ ↦ ?_
  refine .ite (fun _ ↦ sound_vfpFromInt hnext) fun _ ↦ ?_
  exact .ite (fun _ ↦ sound_vfpToInt hnext) fun _ ↦ .refuse ..

end

/-- What a transfer may leave: nothing but data registers and a noted fault. -/
structure Transferred (c c' : Core) : Prop where
  restorable : c'.restorable = c.restorable
  quiet : ¬c'.abortPending = true → c'.quiet = c.quiet

namespace Transferred

theorem refl (c : Core) : Transferred c c := ⟨rfl, fun _ ↦ rfl⟩

theorem of_noted {c c' : Core} (h : Noted c c') : Transferred c c' :=
  ⟨h.restorable, fun hlatch ↦ by rw [h.eq hlatch]⟩

theorem setS {c c' : Core} (h : Transferred c c') (n : BitVec 5) (value : Word) :
    Transferred c (c'.setS n value) := ⟨h.restorable, h.quiet⟩

theorem setD {c c' : Core} (h : Transferred c c') (n : BitVec 4) (value : DWord) :
    Transferred c (c'.setD n value) := ⟨h.restorable, h.quiet⟩

theorem stamp {c c' : Core} (h : Transferred c c') : c'.cp15.stamp = c.cp15.stamp :=
  congrArg Cp15.stamp (congrArg Core.cp15 h.restorable :)

/-- A second transfer, after a first one that noted no fault. -/
theorem trans {c c' c'' : Core} (h : Transferred c c') (hlatch : ¬c'.abortPending = true)
    (h' : Transferred c' c'') : Transferred c c'' :=
  ⟨h'.restorable.trans h.restorable, fun h2 ↦ (h'.quiet h2).trans (h.quiet hlatch)⟩

theorem sound {c c' : Core} (h : Transferred c c') (hnext : wf → Aligned c.cpsr next) :
    Sound wf hook c c.cp15.stamp (c'.done next) := .of_restorable h.restorable hnext

end Transferred

/-- A program of the VFP transfers, seen from the core it starts in. -/
def Transfers (mayCall : Prop) (hook : Bool) (c : Core) (p : Prog Core) : Prop :=
  Meets (armContract mayCall hook) (fun regs c' ↦ regs = c.cp15.stamp ∧ Transferred c c')
    c.cp15.stamp p

theorem meets_vfpMemR32 (c : Core) (va : Word) :
    Meets (armContract mayCall hook) (fun regs x ↦ regs = c.cp15.stamp ∧ Noted c x.2)
      c.cp15.stamp (vfpMemR32 c va) := by
  unfold vfpMemR32
  split
  · rename_i c' h
    have hnoted := (noted_prepareMultiwordAddress c va 4 false).1
    rw [h] at hnoted
    exact ⟨rfl, hnoted⟩
  · rename_i va' c' h
    have hsame := (noted_prepareMultiwordAddress c va 4 false).2
    rw [h] at hsame
    obtain rfl : c' = c := hsame rfl
    exact meets_memReadAs ..

theorem meets_vfpMemW32 (c : Core) (va value : Word) :
    Meets (armContract mayCall hook) (fun regs c' ↦ regs = c.cp15.stamp ∧ Noted c c')
      c.cp15.stamp (vfpMemW32 c va value) := by
  unfold vfpMemW32
  split
  · rename_i c' h
    have hnoted := (noted_prepareMultiwordAddress c va 4 true).1
    rw [h] at hnoted
    exact ⟨rfl, hnoted⟩
  · rename_i va' c' h
    have hsame := (noted_prepareMultiwordAddress c va 4 true).2
    rw [h] at hsame
    obtain rfl : c' = c := hsame rfl
    exact meets_memWriteAs ..

theorem transfers_vfpLoadD (c : Core) (addr : Word) (n : BitVec 4) :
    Transfers mayCall hook c (vfpLoadD c addr n) := by
  refine (meets_vfpMemR32 c addr).bind ?_
  rintro _ ⟨lo, c'⟩ ⟨rfl, hlo⟩
  by_cases hlatch : c'.abortPending = true
  · simp only [hlatch, if_true]
    exact ⟨rfl, .of_noted hlo⟩
  · obtain rfl := hlo.eq hlatch
    simp only [hlatch]
    refine (meets_vfpMemR32 _ (addr + 4)).bind ?_
    rintro _ ⟨hi, c'⟩ ⟨rfl, hhi⟩
    refine ⟨rfl, ?_⟩
    split
    · exact .of_noted hhi
    · exact (Transferred.of_noted hhi).setD _ _

theorem transfers_vfpLoadS (c : Core) (addr : Word) (n : BitVec 5) :
    Transfers mayCall hook c (vfpLoadS c addr n) := by
  refine (meets_vfpMemR32 c addr).bind ?_
  rintro _ ⟨value, c'⟩ ⟨rfl, hvalue⟩
  refine ⟨rfl, ?_⟩
  split
  · exact .of_noted hvalue
  · exact (Transferred.of_noted hvalue).setS _ _

theorem transfers_vfpMemW32 (c : Core) (va value : Word) :
    Transfers mayCall hook c (vfpMemW32 c va value) :=
  (meets_vfpMemW32 c va value).mono fun _ _ h ↦ ⟨h.1, .of_noted h.2⟩

theorem transfers_vfpStoreD (c : Core) (addr : Word) (n : BitVec 4) :
    Transfers mayCall hook c (vfpStoreD c addr n) := by
  refine (meets_vfpMemW32 c addr _).bind ?_
  rintro _ c' ⟨rfl, hlo⟩
  by_cases hlatch : c'.abortPending = true
  · simp only [hlatch, if_true]
    exact ⟨rfl, .of_noted hlo⟩
  · obtain rfl := hlo.eq hlatch
    simp only [hlatch]
    exact transfers_vfpMemW32 ..

theorem transfers_vfpTransfer (dbl load : Bool) (c : Core) (addr : Word) (n : ℕ) :
    Transfers mayCall hook c (vfpTransfer dbl load c addr n) := by
  cases dbl <;> cases load
  · exact transfers_vfpMemW32 ..
  · exact transfers_vfpLoadS ..
  · exact transfers_vfpStoreD ..
  · exact transfers_vfpLoadD ..

theorem transfers_vfpBlock (dbl load : Bool) (addr : Word) (first : ℕ) (regs : List ℕ)
    (c : Core) : Transfers mayCall hook c (vfpBlock dbl load addr first regs c) := by
  induction regs generalizing c with
  | nil => exact ⟨rfl, .refl c⟩
  | cons i rest ih =>
    refine (transfers_vfpTransfer dbl load c _ _).bind ?_
    rintro _ c' ⟨rfl, hfirst⟩
    by_cases hlatch : c'.abortPending = true
    · simp only [hlatch, if_true]
      exact ⟨rfl, hfirst⟩
    · simp only [hlatch]
      have hrest := ih c'
      unfold Transfers at hrest
      rw [hfirst.stamp] at hrest
      exact hrest.mono fun _ _ h ↦ ⟨h.1, hfirst.trans hlatch h.2⟩

theorem transfers_vfpBlockTail (load : Bool) (addr : Word) (c : Core) :
    Transfers mayCall hook c (vfpBlockTail load addr c) := by
  cases load
  · exact transfers_vfpMemW32 ..
  · refine (meets_vfpMemR32 c addr).bind ?_
    rintro _ ⟨value, c'⟩ ⟨rfl, hvalue⟩
    exact ⟨rfl, .of_noted hvalue⟩

/-- The end of VLDM and VSTM. -/
theorem Transferred.sound_writeback {c' : Core} {w : Prop} [Decidable w] {rn : Reg} {base : Word}
    (h : Transferred c c') (hnext : wf → Aligned c.cpsr next) :
    SoundProg wf mayCall hook c (if c'.abortPending then pure (c'.done next)
      else if w then pure ((c'.setR rn base).done next) else pure (c'.done next)) := by
  refine .ite (fun _ ↦ h.sound hnext) fun hlatch ↦ ?_
  exact .ite (fun _ ↦ Sound.of_quiet (h.quiet hlatch) hnext) fun _ ↦ h.sound hnext

theorem sound_vfpLdst (hnext : wf → Aligned c.cpsr next) :
    SoundProg wf mayCall hook c (vfpLdst c pc insn next) := by
  refine .ite (fun _ ↦ .refuse ..) fun _ ↦ .ite (fun _ ↦ ?_) fun _ ↦ ?_
  · refine (transfers_vfpTransfer ..).bind ?_
    rintro _ c' ⟨rfl, h⟩
    exact h.sound hnext
  refine .ite (fun _ ↦ .refuse ..) fun _ ↦ (transfers_vfpBlock ..).bind ?_
  rintro _ c' ⟨rfl, h⟩
  refine SoundProg.ite (fun _ ↦ h.sound hnext) fun hlatch ↦ .ite (fun _ ↦ ?_) fun _ ↦ ?_
  · -- The odd word comes after the transfers.
    have htail (addr : Word) : Transfers mayCall hook c' (vfpBlockTail (bit insn 20) addr c') :=
      transfers_vfpBlockTail ..
    unfold Transfers at htail
    rw [h.stamp] at htail
    refine (htail _).bind ?_
    rintro _ c'' ⟨rfl, h'⟩
    exact (h.trans hlatch h').sound_writeback hnext
  · exact h.sound_writeback hnext

theorem sound_vfpExecute (hnext : wf → Aligned c.cpsr next) :
    SoundProg wf mayCall hook c (vfpExecute fpu c pc insn next) := by
  refine .ite (fun _ ↦ .refuse ..) fun _ ↦ ?_
  refine .ite (fun _ ↦ .refuse ..) fun _ ↦ ?_
  refine .ite (fun _ ↦ .refuse ..) fun _ ↦ ?_
  refine .ite (fun _ ↦ sound_vfpXfer32 hnext) fun _ ↦ ?_
  refine .ite (fun _ ↦ sound_vfpDp hnext) fun _ ↦ ?_
  refine .ite (fun _ ↦ sound_vfpXfer64 hnext) fun _ ↦ ?_
  exact .ite (fun _ ↦ sound_vfpLdst hnext) fun _ ↦ .refuse ..

end S5LBox.Arm
