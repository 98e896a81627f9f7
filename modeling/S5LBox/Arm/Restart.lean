import S5LBox.Arm.Exclusive

/-!
# The VFP data registers on a data abort

An instruction that ends in a data abort has left the VFP data registers alone, with one
exception: a VFP load of several registers keeps those it has loaded before the fault.
-/

namespace S5LBox.Arm

open Program

variable {σ : Type} {fpu : HostFpu} {bus : Bus σ} {cpu : Cpu} {ctx : σ} {c c' : Core}
  {pc insn next : Word}

/-- VLDM. -/
def isVfpLoadMultiple (insn : Word) : Bool :=
  insn &&& 0x0e000e00 = 0x0c000a00 && bit insn 20 && !(bit insn 24 && !bit insn 21)

/-- The exceptions entered so far and the VFP data registers. -/
def Core.data (c : Core) : List Word × (BitVec 5 → Word) := (c.taken, c.vfpS)

theorem Core.data_of_still (h : c'.still = c.still) : c'.data = c.data :=
  congrArg (fun x : (Bool × Word × List Word) × (BitVec 5 → Word) ↦ (x.1.2.2, x.2)) h

instance : IgnoresFaults Core.data :=
  ⟨fun c fsr far ↦ Core.data_of_still (c.still_noteAbort fsr far)⟩

/-- An outcome that is no data abort yet, and from which one may be taken. -/
structure Restartable (c : Core) (o : Outcome) : Prop where
  taken : o.core.taken ≠ vecDataAbort :: c.taken
  vfpS : o.core.abortPending = true → o.core.vfpS = c.vfpS

namespace Restartable

variable {o : Outcome}

theorem of_data (h : o.core.data = c.data) : Restartable c o := by
  have htaken : o.core.taken = c.taken := congrArg Prod.fst h
  refine ⟨?_, fun _ ↦ congrArg Prod.snd h⟩
  rw [htaken]
  exact (List.cons_ne_self _ _).symm

/-- Without an abort the VFP data registers may change. -/
theorem of_clear (htaken : o.core.taken = c.taken) (hlatch : o.core.abortPending = false) :
    Restartable c o := by
  refine ⟨?_, fun h ↦ ?_⟩
  · rw [htaken]
    exact (List.cons_ne_self _ _).symm
  · rw [hlatch] at h
    cases h

theorem of_guard (hguard : o.core.guard = c.guard)
    (hfault : o.core.abortPending = true → o.core.vfpS = c.vfpS) : Restartable c o := by
  refine ⟨?_, hfault⟩
  rw [taken_of_guard hguard]
  exact (List.cons_ne_self _ _).symm

end Restartable

/-- Leaves the monitor alone, and the VFP data registers unless it completes. -/
def Restarts (c c' : Core) : Prop :=
  c'.guard = c.guard ∧ (c'.abortPending = true → c'.vfpS = c.vfpS)

theorem restarts_of_still (h : c'.still = c.still) : Restarts c c' :=
  ⟨congrArg Prod.fst h, fun _ ↦ congrArg Prod.snd h⟩

/-- A read of a VFP load; only past it are registers written. -/
theorem restarts_vfpMemR32 {va : Word} {f : Word × Core → Prog Core}
    (hf : ∀ value c', c'.still = c.still →
      Meets (.free armInterface) (fun _ ↦ Restarts c) () (f (value, c'))) :
    Meets (.free armInterface) (fun _ ↦ Restarts c) () (vfpMemR32 c va >>= f) := by
  apply (noted_vfpMemR32 c va).bind
  rintro _ ⟨value, c'⟩ hnoted
  exact hf value c' hnoted.still

theorem restarts_vfpTransfer {dbl load : Bool} {addr : Word} {n : ℕ} :
    Meets (.free armInterface) (fun _ ↦ Restarts c) () (vfpTransfer dbl load c addr n) := by
  have hset (q q' : Core) (hq : q.still = c.still) (hguard : q'.guard = q.guard)
      (hlatch : q'.abortPending = q.abortPending) :
      Restarts c (if q.abortPending then q else q') := by
    refine iteInduction (fun _ ↦ restarts_of_still hq) fun hclear ↦ ?_
    refine ⟨hguard.trans (congrArg Prod.fst hq), fun h ↦ ?_⟩
    rw [hlatch] at h
    exact absurd h hclear
  cases load
  · have hstore : CoreProg Core.still c (vfpTransfer dbl false c addr n) := CoreProg.store
    exact hstore.mono fun _ _ ↦ restarts_of_still
  cases dbl
  · apply restarts_vfpMemR32
    exact fun value c' hstill ↦ hset _ _ hstill rfl rfl
  · apply restarts_vfpMemR32
    intro lo c' hstill
    refine iteInduction (fun _ ↦ restarts_of_still hstill) fun _ ↦ ?_
    apply (noted_vfpMemR32 c' _).bind
    rintro _ ⟨hi, c''⟩ hnoted
    exact hset _ _ (hnoted.still.trans hstill) rfl rfl

theorem restartable_vfpLdst (hmultiple : ¬(bit insn 20 ∧ ¬(bit insn 24 ∧ !bit insn 21))) :
    Meets (.free armInterface) (fun _ ↦ Restartable c) () (vfpLdst c pc insn next) := by
  by_cases hload : bit insn 20 = true
  · have hsingle : bit insn 24 ∧ !bit insn 21 := by
      by_contra h
      exact hmultiple ⟨hload, h⟩
    unfold vfpLdst
    dsimp only
    refine iteInduction (fun _ ↦ Restartable.of_data rfl) fun _ ↦ ?_
    rw [if_pos hsingle]
    apply restarts_vfpTransfer.bind
    rintro _ c' ⟨hguard, hfault⟩
    exact Restartable.of_guard hguard hfault
  · have hstore : bit insn 20 = false := by simpa using hload
    have hstill : StillProg c (vfpLdst c pc insn next) := by
      apply FrameProg.vfpLdst
      · rw [hstore]
        exact fun _ _ _ ↦ CoreProg.store
      · exact fun _ _ _ ↦ rfl
    exact hstill.mono fun _ _ h ↦ .of_data (Core.data_of_still h)

theorem restartable_vfpExecute (hclear : c.abortPending = false)
    (hmultiple : isVfpLoadMultiple insn = false) :
    Meets (.free armInterface) (fun _ ↦ Restartable c) () (vfpExecute fpu c pc insn next) := by
  have hrefuse : Meets (.free armInterface) (fun _ ↦ Restartable c) ()
      (pure (c.refuse next) : Prog Outcome) := Restartable.of_data rfl
  have hcalm {o : Outcome} (h : Untouched Core.calm c o) :
      Meets (.free armInterface) (fun _ ↦ Restartable c) () (pure o : Prog Outcome) := by
    have hlatch : o.core.abortPending = c.abortPending := congrArg Prod.snd h
    exact Restartable.of_clear (taken_of_guard (congrArg Prod.fst h)) (hlatch.trans hclear)
  unfold vfpExecute vfpExecuteInner
  refine iteInduction (fun _ ↦ hrefuse) fun _ ↦ iteInduction (fun _ ↦ hrefuse) fun _ ↦ ?_
  refine iteInduction (fun _ ↦ hrefuse) fun _ ↦ ?_
  refine iteInduction (fun _ ↦ hcalm untouched_vfpXfer32) fun _ ↦ ?_
  refine iteInduction (fun _ ↦ hcalm untouched_vfpDp) fun _ ↦ ?_
  refine iteInduction (fun _ ↦ hcalm untouched_vfpXfer64) fun _ ↦ ?_
  refine iteInduction (fun hspace ↦ ?_) fun _ ↦ hrefuse
  apply restartable_vfpLdst
  unfold isVfpLoadMultiple at hmultiple
  rw [hspace] at hmultiple
  simpa using hmultiple

theorem data_prepareSyncAddress {va alignment : Word} {store : Bool} {p : Prog Outcome}
    (hok : FrameProg Core.data c p) :
    FrameProg Core.data c (match prepareSyncAddress c va alignment store with
      | some (status, c') => pure ⟨status, c', next⟩
      | none => p) :=
  prepareSyncAddress_cases (.of_untouched (IgnoresFaults.noteAbort ..)) (.of_untouched rfl) hok

theorem data_finishStore {width : Width} {va value : Word} {rd : Reg} : FrameProg Core.data c (do
      let c ← memWrite width c va value
      let c := if c.abortPending then c else c.setR rd 0
      pure ({ c with exclValid := false }.done next)) := by
  apply (noted_memWriteAs width c va value c.isPriv).bind
  intro _ c' hnoted
  apply FrameProg.of_untouched
  have hframe : c'.data = c.data := hnoted.frame
  have hset : (if c'.abortPending then c' else c'.setR rd 0).data = c'.data :=
    iteInduction (motive := fun q : Core ↦ q.data = c'.data) (fun _ ↦ rfl) fun _ ↦ rfl
  exact hset.trans hframe

theorem data_execSynchronization : FrameProg Core.data c (execSynchronization c insn next) := by
  have hload {width : Width} {alignment : Word} :
      FrameProg Core.data c (execLoadExclusive width alignment c insn next) := by
    unfold execLoadExclusive
    refine .ite (fun _ ↦ .refuse _ _) fun _ ↦ data_prepareSyncAddress ?_
    apply FrameProg.read (fun _ _ ↦ rfl)
    exact fun value ↦ .of_untouched rfl
  have hstore {width : Width} {alignment : Word} {probe : Bool} :
      FrameProg Core.data c (execStoreExclusive width alignment probe c insn next) := by
    unfold execStoreExclusive
    refine .ite (fun _ ↦ .refuse _ _) fun _ ↦ data_prepareSyncAddress ?_
    have hgo (fsr : Word) : FrameProg Core.data c (storeProbed width c insn next fsr) := by
      refine .ite (fun _ ↦ .of_untouched ?_) fun _ ↦ .ite (fun _ ↦ data_finishStore) fun _ ↦ ?_
      · have hframe : (c.noteAbort fsr (c.r (field4 insn 16))).data = c.data :=
          IgnoresFaults.noteAbort ..
        exact hframe
      · exact .of_untouched rfl
    cases probe with
    | true => exact ⟨trivial, fun fsr _ ↦ hgo fsr⟩
    | false => exact hgo 0
  unfold execSynchronization
  refine .ite (fun _ ↦ hload) fun _ ↦ .ite (fun _ ↦ hstore) fun _ ↦ .ite (fun _ ↦ ?_) fun _ ↦ ?_
  · unfold execLoadExclusiveDouble
    refine .ite (fun _ ↦ .refuse _ _) fun _ ↦ data_prepareSyncAddress ?_
    apply FrameProg.read (fun _ _ ↦ rfl)
    intro lo
    apply FrameProg.read (fun _ _ ↦ rfl)
    exact fun hi ↦ .of_untouched rfl
  refine .ite (fun _ ↦ ?_) fun _ ↦ .ite (fun _ ↦ hload) fun _ ↦ .ite (fun _ ↦ hstore) fun _ ↦ ?_
  · unfold execStoreExclusiveDouble
    refine .ite (fun _ ↦ .refuse _ _) fun _ ↦ data_prepareSyncAddress ?_
    refine .ite (fun _ ↦ ?_) fun _ ↦ .of_untouched rfl
    apply (noted_memWriteAs ..).bind
    intro _ c' hnoted
    have hframe : c'.data = c.data := hnoted.frame
    refine iteInduction (fun _ ↦ hframe) fun hlatch ↦ ?_
    obtain rfl := hnoted.eq hlatch
    apply data_finishStore
  refine .ite (fun _ ↦ hload) fun _ ↦ .ite (fun _ ↦ hstore) fun _ ↦ .ite (fun _ ↦ ?_) fun _ ↦ ?_
  · exact still_execSwap.mono fun _ _ h ↦ Core.data_of_still h
  · exact .refuse _ _

/-- A service leaves the abort latch alone and enters no exception. -/
def latchContract : Contract armInterface Unit where
  allowed _ _ := True
  answers _
    | .privilegedSvc c _ _, answer => ∀ served, answer = some served →
      served.2.abortPending = c.abortPending ∧ served.2.taken = c.taken
    | _, _ => True
  after _ _ := ()

theorem keeps_latchContract (hsvc : SvcKeepsLatch bus) :
    Keeps (busHandler bus) latchContract fun _ _ ↦ True := by
  intro op _ state _ _
  cases op with
  | privilegedSvc c pc encoding =>
    refine ⟨fun served hserved ↦ ?_, trivial⟩
    rw [busHandler_privilegedSvc] at hserved
    obtain ⟨handler, hhandler, rfl⟩ := Option.map_eq_some_iff.1 hserved
    exact hsvc handler hhandler ..
  | _ => exact ⟨trivial, trivial⟩

/-- A program that ends without a data abort, or restartable. -/
def RestartProg (c : Core) (p : Prog Outcome) : Prop :=
  Meets latchContract (fun _ ↦ Restartable c) () p

theorem RestartProg.of_free {p : Prog Outcome}
    (h : Meets (.free armInterface) (fun _ ↦ Restartable c) () p) : RestartProg c p :=
  Meets.of_free h (fun _ _ ↦ trivial) ()

theorem RestartProg.of_data {p : Prog Outcome} (h : FrameProg Core.data c p) : RestartProg c p :=
  .of_free (h.mono fun _ _ h ↦ .of_data h)

theorem RestartProg.of_still {p : Prog Outcome} (h : StillProg c p) : RestartProg c p :=
  .of_data (h.mono fun _ _ h ↦ Core.data_of_still h)

theorem restart_execSvc (hclear : c.abortPending = false) :
    RestartProg c (execSvc c pc insn next) := by
  have hunhandled : Restartable c ((takeException c vecSwi modeSvc next false).1.done
      (takeException c vecSwi modeSvc next false).2) := by
    have hexc := excepted_takeException c vecSwi modeSvc next false
    refine ⟨?_, fun h ↦ absurd ((hexc.latch.trans hclear).symm.trans h) (by decide)⟩
    rw [Core.done, hexc.taken]
    exact fun h ↦ absurd (List.cons.inj h).1 (by decide)
  unfold execSvc privilegedSvcResult
  by_cases hpriv : (!c.isPriv) = true
  · rw [if_pos hpriv]
    exact hunhandled
  · rw [if_neg hpriv]
    refine ⟨trivial, fun answer hanswer ↦ ?_⟩
    cases answer with
    | none => exact hunhandled
    | some served =>
      obtain ⟨hlatch, htaken⟩ := hanswer served rfl
      obtain ⟨result, c'⟩ := served
      cases result with
      | unhandled => exact hunhandled
      | handled => exact Restartable.of_clear htaken (hlatch.trans hclear)
      | redirected => exact Restartable.of_clear htaken (hlatch.trans hclear)
      | error => exact Restartable.of_data rfl

/-- A data abort leaves the VFP data registers alone. -/
def AbortKeepsVfp (c : Core) (x : StepResult) : Prop :=
  x.2.taken = vecDataAbort :: c.taken → x.2.vfpS = c.vfpS

section Ends

variable {o : Outcome}

theorem abortKeepsVfp_commit (h : Restartable c o) : AbortKeepsVfp c (commit o) := by
  intro htaken
  unfold commit at htaken
  split_ifs at htaken
  · exact absurd htaken h.taken
  · exact absurd htaken h.taken

theorem abortKeepsVfp_commitArm (h : Restartable c o) : AbortKeepsVfp c (commitArm pc insn o) := by
  apply commitArm_cases
  · rintro q - hvfpS (htaken | ⟨-, hlatch⟩) htaken'
    · have hvector := htaken.symm.trans htaken'
      exact absurd (List.cons.inj hvector).1 (by decide)
    · exact hvfpS.trans (h.vfpS hlatch)
  · exact fun _ _ htaken ↦ absurd htaken h.taken
  · exact fun _ htaken ↦ absurd htaken h.taken

theorem abortKeepsVfp_commitThumb (h : Restartable c o) : AbortKeepsVfp c (commitThumb pc o) := by
  unfold commitThumb
  split_ifs with hhalt hlatch
  · exact fun htaken ↦ absurd htaken h.taken
  · exact fun _ ↦ (vfpS_enterException ..).trans (h.vfpS hlatch)
  · exact abortKeepsVfp_commit h

theorem abortKeepsVfp_commitStacked (h : Restartable c o) :
    AbortKeepsVfp c (commitStacked pc o) := by
  unfold commitStacked
  split_ifs with hlatch
  · exact fun _ ↦ (vfpS_enterException ..).trans (h.vfpS hlatch.2)
  · exact abortKeepsVfp_commit h

end Ends

/-- The steps that keep the VFP data registers when they end in a data abort. -/
def AbortProg (c : Core) (p : Prog StepResult) : Prop :=
  Meets latchContract (fun _ ↦ AbortKeepsVfp c) () p

theorem AbortProg.ite {p : Prop} [Decidable p] {a b : Prog StepResult} (ha : p → AbortProg c a)
    (hb : ¬p → AbortProg c b) : AbortProg c (if p then a else b) := iteInduction ha hb

theorem abort_execUnconditional : AbortProg c (execUnconditional c pc insn next) := by
  have hcommit {o : Outcome} (h : Untouched Core.still c o) : AbortProg c (pure (commit o)) :=
    abortKeepsVfp_commit (.of_data (Core.data_of_still h))
  unfold execUnconditional
  refine .ite (fun _ ↦ abortKeepsVfp_commit (.of_data rfl)) fun _ ↦ ?_
  refine .ite (fun _ ↦ hcommit rfl) fun _ ↦ .ite (fun _ ↦ hcommit untouched_execCps) fun _ ↦ ?_
  refine .ite (fun _ ↦ hcommit untouched_execBlxImmediate) fun _ ↦ ?_
  refine .ite (fun _ ↦ ?_) fun _ ↦ .ite (fun _ ↦ ?_) fun _ ↦ .ite (fun _ ↦ hcommit ?_) fun _ ↦ ?_
  · exact (RestartProg.of_still still_execSrs).map fun _ _ ↦ abortKeepsVfp_commitStacked
  · exact (RestartProg.of_still still_execRfe).map fun _ _ ↦ abortKeepsVfp_commitStacked
  · split
    · rfl
    · rfl
  · have hundefined : AbortKeepsVfp c (undefinedInstruction c pc insn) := by
      unfold undefinedInstruction
      split
      · exact fun _ ↦ vfpS_enterException ..
      · exact fun _ ↦ rfl
    exact hundefined

theorem abort_stepArm (hclear : c.abortPending = false) (hmultiple : isVfpLoadMultiple insn = false) :
    AbortProg c (stepArm fpu c pc insn) := by
  have hexec : RestartProg { c with cycles := c.cycles + 1 }
      (execArm fpu { c with cycles := c.cycles + 1 } pc insn (pc + 4)) := by
    apply execArm_cases
    · exact fun p h ↦ .of_still h
    · exact .of_data data_execSynchronization
    · exact .of_free (restartable_vfpExecute hclear hmultiple)
    · exact restart_execSvc hclear
  unfold stepArm
  dsimp only
  refine .ite (fun _ ↦ ?_) fun _ ↦ .ite (fun _ ↦ ?_) fun _ ↦ ?_
  · exact abort_execUnconditional (c := { c with cycles := c.cycles + 1 })
  · exact abortKeepsVfp_commit (.of_data rfl)
  · exact hexec.map fun _ _ ↦ abortKeepsVfp_commitArm

theorem abort_stepThumb {insn : Half} (hclear : c.abortPending = false) :
    AbortProg c (stepThumb c pc insn) := by
  have hexec : RestartProg { c with cycles := c.cycles + 1 }
      (thumbStep { c with cycles := c.cycles + 1 } pc insn (pc + 2)) := by
    apply thumbStep_cases
    · exact fun p h ↦ .of_still h
    · exact fun _ ↦ restart_execSvc hclear
  exact hexec.map fun _ _ ↦ abortKeepsVfp_commitThumb

theorem vfpS_of_dataAbort (fpu : HostFpu) (hsvc : SvcKeepsLatch bus)
    (hclear : cpu.core.abortPending = false)
    (htaken : (cpuStep fpu bus cpu ctx).2.1.core.taken = vecDataAbort :: cpu.core.taken) :
    (cpuStep fpu bus cpu ctx).2.1.core.vfpS = cpu.core.vfpS ∨
      ∃ insn, issued bus (cpu, ctx) = some insn ∧ isVfpLoadMultiple insn = true := by
  have hkeeps := keeps_latchContract hsvc
  revert htaken
  apply cpuStep_cases (P := fun issue x ↦ x.2.taken = vecDataAbort :: cpu.core.taken →
    x.2.vfpS = cpu.core.vfpS ∨ ∃ insn, issue = some insn ∧ isVfpLoadMultiple insn = true)
  · exact fun _ ↦ .inl rfl
  · exact fun _ ↦ .inl (vfpS_enterException ..)
  · exact fun _ ↦ .inl (vfpS_enterException ..)
  · exact fun _ _ ↦ .inl (vfpS_enterException ..)
  · intro _ insn state htaken
    have hprog : AbortProg cpu.core (stepThumb cpu.core (cpu.core.r 15) insn) :=
      abort_stepThumb hclear
    obtain ⟨_, hkept, -⟩ := @Meets.run _ _ _ _ _ _ _ _ _ _ hprog hkeeps state trivial
    exact .inl (hkept htaken)
  · intro _ insn state hskip _
    rw [stepArm_skipped hskip]
    exact .inl rfl
  · intro _ insn state htaken
    by_cases hmultiple : isVfpLoadMultiple insn = true
    · exact .inr ⟨insn, rfl, hmultiple⟩
    · have hprog : AbortProg cpu.core (stepArm fpu cpu.core (cpu.core.r 15) insn) :=
        abort_stepArm hclear (by simpa using hmultiple)
      obtain ⟨_, hkept, -⟩ := @Meets.run _ _ _ _ _ _ _ _ _ _ hprog hkeeps state trivial
      exact .inl (hkept htaken)

end S5LBox.Arm
