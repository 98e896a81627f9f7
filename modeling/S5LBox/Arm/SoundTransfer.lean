import S5LBox.Arm.SoundRegister

/-!
# Soundness of the loads and stores

Every access is followed by the check of the latch, so an instruction gets past one only with
the core it started in. What it commits after the last access is ordinary.
-/

namespace S5LBox.Arm

open Program

variable {wf mayCall : Prop} {hook : Bool} {c : Core} {pc insn next : Word}

theorem aligned_clearT (c : Core) (t : Word) : Aligned c.clearT.cpsr (t &&& ~~~3) := by
  rw [Aligned, if_pos (clearT_eq_zero c)]
  exact clear_three_and_three t

/-- A branch that may exchange the instruction set ends aligned. -/
theorem interwork_spec {q : Core} (hquiet : q.quiet = c.quiet) (value : Word) :
    (interwork q value).1.steady = c.steady ∧
      Aligned (interwork q value).1.cpsr (interwork q value).2 := by
  unfold interwork
  split
  · exact ⟨Core.steady_setT hquiet, aligned_setT q value⟩
  · exact ⟨Core.steady_clearT hquiet, aligned_clearT q value⟩

theorem steady_setR {q : Core} (h : q.steady = c.steady) (n : Reg) (value : Word) :
    (q.setR n value).steady = c.steady := h

theorem sound_execSingleTransfer (hnext : wf → next &&& 3 = 0) :
    SoundProg wf mayCall hook c (execSingleTransfer c pc insn next) := by
  have hnext' : wf → Aligned c.cpsr next := fun hwf ↦ aligned_of_word (hnext hwf) _
  unfold execSingleTransfer
  refine .ite (fun _ ↦ .refuse ..) fun _ ↦ .ite (fun _ ↦ .ite (fun _ ↦ ?_) fun _ ↦ ?_) fun _ ↦ ?_
  · exact .ite (fun _ ↦ Sound.of_noted (.noteAlignmentAbort ..) hnext') fun _ ↦ .refuse ..
  · refine .read (fun _ _ ↦ rfl) hnext' fun value ↦ ?_
    refine .ite (fun _ ↦ .refuse ..) fun _ ↦ ?_
    -- The loaded register, then the base.
    have hload : (commitLoad c (field4 insn 12) value next).1.steady = c.steady ∧
        (wf → Aligned (commitLoad c (field4 insn 12) value next).1.cpsr
          (commitLoad c (field4 insn 12) value next).2) := by
      unfold commitLoad
      split
      · obtain ⟨hsteady, haligned⟩ :=
          interwork_spec (Core.quiet_setR c (field4 insn 12) value) value
        exact ⟨hsteady, fun _ ↦ haligned⟩
      · exact ⟨Core.steady_of_quiet rfl, hnext'⟩
    refine Sound.of_steady ?_ ?_
    · split
      · exact steady_setR hload.1 _ _
      · exact hload.1
    · split <;> exact hload.2
  · refine .write hnext' (Sound.of_quiet ?_ hnext')
    split <;> rfl

/-- The two accesses of LDRD and STRD. -/
theorem sound_execDoubleword {rd : Reg} {addr : Word} {store : Bool} {finish : Core → Outcome}
    (hnext : wf → Aligned c.cpsr next)
    (hfinish : ∀ q : Core, q.quiet = c.quiet → Sound wf hook c c.cp15.stamp (finish q)) :
    SoundProg wf mayCall hook c (execDoubleword c pc rd addr next store finish) := by
  refine .prepare hnext fun va ↦ .ite (fun _ ↦ ?_) fun _ ↦ ?_
  · refine .write hnext ?_
    refine .write hnext ?_
    exact hfinish c rfl
  · refine .read (fun _ _ ↦ rfl) hnext fun lo ↦ ?_
    refine .read (fun _ _ ↦ rfl) hnext fun hi ↦ ?_
    exact hfinish _ rfl

theorem sound_execExtraTransfer (hnext : wf → Aligned c.cpsr next) :
    SoundProg wf mayCall hook c (execExtraTransfer c pc insn next) := by
  have hfinish (w : Prop) [Decidable w] (n : Reg) (value : Word) (q : Core)
      (hquiet : q.quiet = c.quiet) :
      Sound wf hook c c.cp15.stamp ((if w then q.setR n value else q).done next) := by
    refine .of_quiet ?_ hnext
    split <;> exact hquiet
  unfold execExtraTransfer
  refine .ite (fun _ ↦ .refuse ..) fun _ ↦ .ite (fun _ ↦ .refuse ..) fun _ ↦ ?_
  refine .ite (fun _ ↦ sound_execDoubleword hnext (hfinish _ _ _)) fun _ ↦ ?_
  refine .ite (fun _ ↦ .ite (fun _ ↦ .refuse ..) fun _ ↦ ?_) fun _ ↦ ?_
  · refine .read (fun _ _ ↦ rfl) hnext fun value ↦ ?_
    exact hfinish _ _ _ _ rfl
  · refine .write hnext ?_
    exact hfinish _ _ _ _ rfl

/-- Loads into registers, which faults leave alone. -/
theorem meets_blockLoad (c : Core) (addr : Word) (regs : List Reg) :
    Meets (armContract mayCall hook)
      (fun stamp x ↦ stamp = c.cp15.stamp ∧ Noted c x.2 ∧ (x.1.isSome → x.2 = c))
      c.cp15.stamp (blockLoad c addr regs) := by
  induction regs generalizing addr with
  | nil => exact ⟨rfl, .refl c, fun _ ↦ rfl⟩
  | cons i rest ih =>
    refine (meets_memReadAs .word c addr c.isPriv).bind ?_
    rintro _ ⟨value, c'⟩ ⟨rfl, hnoted⟩
    refine iteInduction (fun _ ↦ ⟨rfl, hnoted, fun h ↦ nomatch h⟩) fun hlatch ↦ ?_
    obtain rfl := hnoted.eq hlatch
    refine (ih (addr + 4)).bind ?_
    rintro _ ⟨loaded, c''⟩ ⟨rfl, hnoted', hsame⟩
    exact ⟨rfl, hnoted', fun h ↦ hsame (by simpa using h)⟩

theorem meets_blockStore (c : Core) (addr : Word) (values : List Word) :
    Meets (armContract mayCall hook) (fun stamp c' ↦ stamp = c.cp15.stamp ∧ Noted c c')
      c.cp15.stamp (blockStore c addr values) := by
  induction values generalizing addr with
  | nil => exact ⟨rfl, .refl c⟩
  | cons value rest ih =>
    refine (meets_memWriteAs .word c addr value c.isPriv).bind ?_
    rintro _ c' ⟨rfl, hnoted⟩
    refine iteInduction (fun _ ↦ ⟨rfl, hnoted⟩) fun hlatch ↦ ?_
    obtain rfl := hnoted.eq hlatch
    exact ih (addr + 4)

namespace SoundProg

theorem blockLoad {addr : Word} {regs : List Reg}
    {f : Option (List (Reg × Word)) × Core → Prog Outcome}
    (hfault : ∀ c', f (none, c') = pure (c'.done next)) (hnext : wf → Aligned c.cpsr next)
    (hok : ∀ loaded, SoundProg wf mayCall hook c (f (some loaded, c))) :
    SoundProg wf mayCall hook c (blockLoad c addr regs >>= f) := by
  refine (meets_blockLoad c addr regs).bind ?_
  rintro _ ⟨_ | loaded, c'⟩ ⟨rfl, hnoted, hsame⟩
  · rw [hfault]
    exact Sound.of_noted hnoted hnext
  · obtain rfl : c' = c := hsame rfl
    exact hok loaded

theorem blockStore {addr : Word} {values : List Word} {f : Core → Prog Outcome}
    (hnext : wf → Aligned c.cpsr next) (hok : SoundProg wf mayCall hook c (f c)) :
    SoundProg wf mayCall hook c (blockStore c addr values >>= fun c' ↦
      if c'.abortPending then pure (c'.done next) else f c') := by
  refine (meets_blockStore c addr values).bind ?_
  rintro _ c' ⟨rfl, hnoted⟩
  refine iteInduction (fun _ ↦ Sound.of_noted hnoted hnext) fun hlatch ↦ ?_
  obtain rfl := hnoted.eq hlatch
  exact hok

end SoundProg

theorem quiet_commitBlock (c : Core) (loaded : List (Reg × Word)) :
    (commitBlock c false loaded).quiet = c.quiet := by
  induction loaded generalizing c with
  | nil => rfl
  | cons entry rest ih => exact ih (c.setR entry.1 entry.2)

/-- What a privileged register assignment leaves alone. -/
structure Assigned (c c' : Core) : Prop where
  cpsr : c'.cpsr = c.cpsr
  cp15 : c'.cp15 = c.cp15
  latch : c'.abortPending = c.abortPending
  taken : c'.taken = c.taken

theorem Assigned.refl (c : Core) : Assigned c c := ⟨rfl, rfl, rfl, rfl⟩

variable {c' : Core} {alignment : Word}

theorem Assigned.setR (h : Assigned c c') (n : Reg) (value : Word) :
    Assigned c (c'.setR n value) := ⟨h.cpsr, h.cp15, h.latch, h.taken⟩

theorem Assigned.trans {c'' : Core} (h : Assigned c c') (h' : Assigned c' c'') : Assigned c c'' :=
  ⟨h'.cpsr.trans h.cpsr, h'.cp15.trans h.cp15, h'.latch.trans h.latch, h'.taken.trans h.taken⟩

theorem assigned_regWriteUser (c : Core) (n : Reg) (value : Word) :
    Assigned c (regWriteUser c n value) := by
  have hsetR := (Assigned.refl c).setR n value
  unfold regWriteUser
  simp only
  split
  · exact hsetR
  split
  · exact ⟨rfl, rfl, rfl, rfl⟩
  split
  · exact ⟨rfl, rfl, rfl, rfl⟩
  split
  · split
    · exact ⟨rfl, rfl, rfl, rfl⟩
    · exact hsetR
  · exact hsetR

theorem assigned_commitBlock (c : Core) (userBank : Bool) (loaded : List (Reg × Word)) :
    Assigned c (commitBlock c userBank loaded) := by
  induction loaded generalizing c with
  | nil => exact .refl c
  | cons entry rest ih =>
    have hhead : Assigned c (if userBank = true then regWriteUser c entry.1 entry.2
        else c.setR entry.1 entry.2) := by
      split
      · exact assigned_regWriteUser ..
      · exact (Assigned.refl c).setR _ _
    exact hhead.trans (ih _)

theorem Assigned.sound (h : Assigned c c') (hpriv : c.isPriv = true)
    (hnext : wf → Aligned c.cpsr next) : Sound wf hook c c.cp15.stamp (c'.done next) := by
  refine .of_priv hpriv h.latch h.taken (fun _ ↦ congrArg Cp15.stamp h.cp15) (fun _ hvalid ↦ ?_)
    fun hwf ↦ ?_
  · rwa [h.cpsr]
  · rw [h.cpsr]
    exact hnext hwf

theorem Assigned.sound_interwork {q : Core} {f : Core → Core} (h : Assigned c q)
    (hpriv : c.isPriv = true) (target : Word) (hf : ∀ q : Core, Assigned q (f q)) :
    Sound wf hook c c.cp15.stamp ((f (interwork q target).1).done (interwork q target).2) := by
  have hspec := interwork_spec (c := q) rfl target
  have hback := hf (interwork q target).1
  have hlatch : (interwork q target).1.abortPending = q.abortPending :=
    (congrArg Core.abortPending hspec.1 :)
  have hcp15 : (interwork q target).1.cp15 = q.cp15 := (congrArg Core.cp15 hspec.1 :)
  have htaken : (interwork q target).1.taken = q.taken := (congrArg Core.taken hspec.1 :)
  refine .of_priv hpriv (hback.latch.trans (hlatch.trans h.latch))
    (hback.taken.trans (htaken.trans h.taken)) (fun _ ↦ ?_) (fun _ hvalid ↦ ?_) fun _ ↦ ?_
  · rw [hback.cp15, hcp15, h.cp15]
  · rw [hback.cpsr, armModeIsValid_congr (Core.mode_of_steady hspec.1), h.cpsr]
    exact hvalid
  · rw [hback.cpsr]
    exact hspec.2

section

variable (hnext : wf → Aligned c.cpsr next)

include hnext

/-- The end of an LDM. The forms with the S bit are privileged. -/
theorem sound_finishBlockLoad {loaded : List (Reg × Word)} {restore userBank : Bool} {w : Prop}
    [Decidable w] {rn : Reg} {wb : Word}
    (hpriv : restore = true ∨ userBank = true → c.isPriv = true) :
    Sound wf hook c c.cp15.stamp (finishBlockLoad c loaded restore userBank
      (fun c ↦ if w then c.setR rn wb else c) next) := by
  have hwriteAssigned (q : Core) : Assigned q (if w then q.setR rn wb else q) := by
    split
    · exact (Assigned.refl q).setR _ _
    · exact .refl q
  have hassigned := assigned_commitBlock c userBank loaded
  unfold finishBlockLoad
  split
  · have hback := hassigned.trans (hwriteAssigned _)
    cases userBank with
    | true => exact hback.sound (hpriv (.inr rfl)) hnext
    | false =>
      have hquiet := quiet_commitBlock c loaded
      refine .of_quiet ?_ hnext
      split <;> exact hquiet
  rename_i target _
  refine .ite (fun _ ↦ .refuse ..) fun _ ↦ .ite (fun _ ↦ .refuse ..) fun _ ↦
    .ite (fun hrestore ↦ ?_) fun _ ↦ ?_
  · have hback := hassigned.trans (hwriteAssigned _)
    set q := if w then (commitBlock c userBank loaded).setR rn wb
      else commitBlock c userBank loaded
    obtain ⟨hlatch, hcp15, htaken⟩ := rest_restoreCpsr q (q.spsr (armBankOfMode q.cpsr))
    refine .of_priv (hpriv (.inl hrestore)) (hlatch.trans hback.latch)
      (htaken.trans hback.taken) (fun _ ↦ ?_)
      (fun _ hvalid ↦ ?_) fun _ ↦ aligned_pcMask _ _
    · rw [hcp15, hback.cp15]
    · refine valid_restoreCpsr q _ ?_
      rwa [hback.cpsr]
  · cases userBank with
    | true =>
      exact hassigned.sound_interwork (f := fun q ↦ if w then q.setR rn wb else q)
        (hpriv (.inr rfl)) target hwriteAssigned
    | false =>
      obtain ⟨hsteady, haligned⟩ := interwork_spec (quiet_commitBlock c loaded) target
      refine .of_steady ?_ fun _ ↦ ?_
      · split <;> exact hsteady
      · split <;> exact haligned

omit hnext in
theorem isPriv_of_bank (h : armBankOfMode c.cpsr ≠ .usr) : c.isPriv = true := by
  by_contra hnot
  exact h (bank_eq_usr_of_not_priv (by simpa using hnot))

theorem sound_execBlockTransfer :
    SoundProg wf mayCall hook c (execBlockTransfer c pc insn next) := by
  unfold execBlockTransfer
  refine .ite (fun _ ↦ .refuse ..) fun _ ↦ .ite (fun _ ↦ .refuse ..) fun hrestore ↦ ?_
  refine .ite (fun _ ↦ .refuse ..) fun huser ↦ .ite (fun _ ↦ .refuse ..) fun _ ↦ ?_
  refine .ite (fun _ ↦ .refuse ..) fun _ ↦ .prepare hnext fun addr ↦ ?_
  have hpriv : (bit insn 22 && bit insn 20 && bit insn 15) = true ∨
      (bit insn 22 && !(bit insn 22 && bit insn 20 && bit insn 15)) = true →
      c.isPriv = true := by
    rintro (h | h)
    · exact isPriv_of_bank fun hbank ↦ hrestore ⟨h, .inl hbank⟩
    · by_contra hnot
      exact huser ⟨h, .inl (by simpa [Core.isPriv] using hnot)⟩
  refine .ite (fun _ ↦ ?_) fun _ ↦ ?_
  · refine .blockLoad (fun _ ↦ rfl) hnext fun loaded ↦ ?_
    exact sound_finishBlockLoad hnext hpriv
  · refine .blockStore hnext ?_
    refine Sound.of_quiet ?_ hnext
    split <;> rfl

theorem SoundProg.sync {va : Word} {store : Bool} {p : Prog Outcome}
    (hok : SoundProg wf mayCall hook c p) :
    SoundProg wf mayCall hook c (match prepareSyncAddress c va alignment store with
      | some (status, c') => pure ⟨status, c', next⟩
      | none => p) :=
  prepareSyncAddress_cases (Sound.of_noted (.noteAlignmentAbort ..) hnext)
    (Sound.of_status _ (by decide)) hok

theorem sound_execLoadExclusive {width : Width} :
    SoundProg wf mayCall hook c (execLoadExclusive width alignment c insn next) := by
  refine .ite (fun _ ↦ .refuse ..) fun _ ↦ .sync hnext ?_
  refine .read (fun _ _ ↦ rfl) hnext fun value ↦ ?_
  exact Sound.of_quiet rfl hnext

theorem sound_execLoadExclusiveDouble :
    SoundProg wf mayCall hook c (execLoadExclusiveDouble c insn next) := by
  refine .ite (fun _ ↦ .refuse ..) fun _ ↦ .sync hnext ?_
  refine .read (fun _ _ ↦ rfl) hnext fun lo ↦ ?_
  refine .read (fun _ _ ↦ rfl) hnext fun hi ↦ ?_
  exact Sound.of_quiet rfl hnext

omit hnext in
theorem sound_finishExclusive {rd : Reg} (h : Noted c c') (hnext : wf → Aligned c.cpsr next) :
    Sound wf hook c c.cp15.stamp
      ({ (if c'.abortPending then c' else c'.setR rd 0) with exclValid := false }.done next) := by
  by_cases hlatch : c'.abortPending = true
  · rw [if_pos hlatch]
    exact .of_restorable h.restorable hnext
  · obtain rfl := h.eq hlatch
    rw [if_neg hlatch]
    exact .of_quiet rfl hnext

theorem sound_execStoreExclusive {width : Width} {probe : Bool} :
    SoundProg wf mayCall hook c (execStoreExclusive width alignment probe c insn next) := by
  have hgo (fsr : Word) : SoundProg wf mayCall hook c (storeProbed width c insn next fsr) := by
    refine .ite (fun _ ↦ ?_) fun _ ↦ .ite (fun _ ↦ ?_) fun _ ↦ Sound.of_quiet rfl hnext
    · exact Sound.of_restorable (Core.restorable_noteAbort c fsr _) hnext
    · refine (meets_memWriteAs ..).bind ?_
      rintro _ c' ⟨rfl, hnoted⟩
      exact sound_finishExclusive hnoted hnext
  refine .ite (fun _ ↦ .refuse ..) fun _ ↦ .sync hnext ?_
  cases probe with
  | true => exact ⟨rfl, fun fsr _ ↦ hgo fsr⟩
  | false => exact hgo 0

theorem sound_execStoreExclusiveDouble :
    SoundProg wf mayCall hook c (execStoreExclusiveDouble c insn next) := by
  refine .ite (fun _ ↦ .refuse ..) fun _ ↦ .sync hnext ?_
  refine .ite (fun _ ↦ ?_) fun _ ↦ Sound.of_quiet rfl hnext
  refine (meets_memWriteAs ..).bind ?_
  rintro _ c' ⟨rfl, hnoted⟩
  refine SoundProg.ite (fun _ ↦ Sound.of_restorable hnoted.restorable hnext) fun hlatch ↦ ?_
  obtain rfl := hnoted.eq hlatch
  refine (meets_memWriteAs ..).bind ?_
  rintro _ c' ⟨rfl, hnoted⟩
  exact sound_finishExclusive hnoted hnext

theorem sound_execSwap : SoundProg wf mayCall hook c (execSwap c insn next) := by
  refine .ite (fun _ ↦ .refuse ..) fun _ ↦ .ite (fun _ ↦ ?_) fun _ ↦ ?_
  · exact Sound.of_noted (.noteAlignmentAbort ..) hnext
  · refine .read (fun _ _ ↦ rfl) hnext fun old ↦ ?_
    refine .write hnext ?_
    exact Sound.of_quiet rfl hnext

theorem sound_execSynchronization :
    SoundProg wf mayCall hook c (execSynchronization c insn next) := by
  refine .ite (fun _ ↦ sound_execLoadExclusive hnext) fun _ ↦ ?_
  refine .ite (fun _ ↦ sound_execStoreExclusive hnext) fun _ ↦ ?_
  refine .ite (fun _ ↦ sound_execLoadExclusiveDouble hnext) fun _ ↦ ?_
  refine .ite (fun _ ↦ sound_execStoreExclusiveDouble hnext) fun _ ↦ ?_
  refine .ite (fun _ ↦ sound_execLoadExclusive hnext) fun _ ↦ ?_
  refine .ite (fun _ ↦ sound_execStoreExclusive hnext) fun _ ↦ ?_
  refine .ite (fun _ ↦ sound_execLoadExclusive hnext) fun _ ↦ ?_
  refine .ite (fun _ ↦ sound_execStoreExclusive hnext) fun _ ↦ ?_
  exact .ite (fun _ ↦ sound_execSwap hnext) fun _ ↦ .refuse ..

end

end S5LBox.Arm
