import S5LBox.Arm.Exception
import S5LBox.Arm.SoundTransfer

/-!
# Soundness of the Thumb instructions

The Thumb set, and the SVC of both sets. A branch target has bit 0 clear while T stays set, and
is a word address where an instruction clears T.
-/

namespace S5LBox.Arm

open Program

variable {wf mayCall : Prop} {hook : Bool} {c : Core} {pc next : Word} {insn : Half}

theorem aligned_of_even {cpsr pc : Word} (hT : ¬cpsr &&& cpsrT = 0) (h : pc &&& 1 = 0) :
    Aligned cpsr pc := by
  rwa [Aligned, if_neg hT]

theorem quiet_pick {p : Prop} [Decidable p] {x y : Word × Core} (hx : x.2.quiet = c.quiet)
    (hy : y.2.quiet = c.quiet) : (if p then x else y).2.quiet = c.quiet := by
  split
  · exact hx
  · exact hy

section

variable (hnext : wf → Aligned c.cpsr next)

include hnext

theorem sound_thumbShiftAdd : Sound wf hook c c.cp15.stamp (thumbShiftAdd c insn next) := by
  refine .ite (fun _ ↦ .of_quiet ?_ hnext) fun _ ↦ .of_quiet (quiet_aluLogicFlags ..) hnext
  exact quiet_pick (quiet_aluSub ..) (quiet_aluAdd ..)

theorem sound_thumbImmediate : Sound wf hook c c.cp15.stamp (thumbImmediate c insn next) := by
  refine .ite (fun _ ↦ .of_quiet (quiet_aluLogicFlags ..) hnext) fun _ ↦ ?_
  refine .ite (fun _ ↦ .of_quiet (quiet_aluSub ..) hnext) fun _ ↦ .of_quiet ?_ hnext
  exact quiet_pick (quiet_aluAdd ..) (quiet_aluSub ..)

theorem sound_thumbAlu : Sound wf hook c c.cp15.stamp (thumbAlu c insn next) := by
  have hlogic (rd : Reg) (res : Word) (carry : Bool) : Sound wf hook c c.cp15.stamp
      ((aluLogicFlags (c.setR rd res) res carry true).done next) :=
    .of_quiet (quiet_aluLogicFlags ..) hnext
  have harith (rd : Reg) (x : Word × Core) (h : x.2.quiet = c.quiet) :
      Sound wf hook c c.cp15.stamp ((x.2.setR rd x.1).done next) := .of_quiet h hnext
  unfold thumbAlu
  refine .ite (fun _ ↦ hlogic ..) fun _ ↦ ?_
  refine .ite (fun _ ↦ hlogic ..) fun _ ↦ ?_
  refine .ite (fun _ ↦ hlogic ..) fun _ ↦ ?_
  refine .ite (fun _ ↦ hlogic ..) fun _ ↦ ?_
  refine .ite (fun _ ↦ hlogic ..) fun _ ↦ ?_
  refine .ite (fun _ ↦ harith _ _ (quiet_aluAdd ..)) fun _ ↦ ?_
  refine .ite (fun _ ↦ harith _ _ (quiet_aluSub ..)) fun _ ↦ ?_
  refine .ite (fun _ ↦ hlogic ..) fun _ ↦ ?_
  refine .ite (fun _ ↦ .of_quiet (quiet_aluLogicFlags ..) hnext) fun _ ↦ ?_
  refine .ite (fun _ ↦ harith _ _ (quiet_aluSub ..)) fun _ ↦ ?_
  refine .ite (fun _ ↦ .of_quiet (quiet_aluSub ..) hnext) fun _ ↦ ?_
  refine .ite (fun _ ↦ .of_quiet (quiet_aluAdd ..) hnext) fun _ ↦ ?_
  refine .ite (fun _ ↦ hlogic ..) fun _ ↦ ?_
  refine .ite (fun _ ↦ .of_quiet (Core.quiet_setNz ..) hnext) fun _ ↦ ?_
  exact .ite (fun _ ↦ hlogic ..) fun _ ↦ hlogic ..

omit hnext in
theorem sound_thumbHighRegister (hT : ¬c.cpsr &&& cpsrT = 0) (hnext : wf → Aligned c.cpsr next) :
    Sound wf hook c c.cp15.stamp (thumbHighRegister c pc insn next) := by
  have hbranch (target : Word) : Sound wf hook c c.cp15.stamp (c.done (target &&& ~~~1)) :=
    .of_quiet rfl fun _ ↦ aligned_of_even hT (clear_one_and_one target)
  unfold thumbHighRegister
  refine .ite (fun _ ↦ .ite (fun _ ↦ hbranch _) fun _ ↦ .of_quiet rfl hnext) fun _ ↦ ?_
  refine .ite (fun _ ↦ .of_quiet (quiet_aluSub ..) hnext) fun _ ↦ ?_
  refine .ite (fun _ ↦ .ite (fun _ ↦ hbranch _) fun _ ↦ .of_quiet rfl hnext) fun _ ↦ ?_
  refine .ite (fun _ ↦ .refuse ..) fun htarget ↦ ?_
  simp only
  generalize (if (BitVec.ofBool (tbit insn 6) ++ insn.extractLsb' 3 3 : Reg) = 15 then pc + 4
    else c.r (BitVec.ofBool (tbit insn 6) ++ insn.extractLsb' 3 3)) = target at *
  set q := if tbit insn 7 = true then c.setR 14 ((pc + 2) ||| 1) else c with hq
  have hquiet : q.quiet = c.quiet := by simp [hq]
  split
  · -- Bit 0 is clear: on to ARM state.
    rename_i hbit
    have hword : target &&& 3 = 0 :=
      bit_zero_of_ne_two (fun h ↦ htarget (.inr h)) (by simpa using hbit)
    exact .of_steady (Core.steady_clearT hquiet) fun _ ↦ aligned_of_word (clear_one_of_word hword) _
  · refine .of_quiet hquiet fun _ ↦ aligned_of_even hT (clear_one_and_one target)

theorem sound_thumbExtend :
    Sound wf hook c c.cp15.stamp (thumbExtend c insn next) := .of_quiet rfl hnext

theorem sound_thumbReverse :
    Sound wf hook c c.cp15.stamp (thumbReverse c insn next) := .ite_refuse rfl hnext

omit hnext in
theorem sound_masks {q : Core} (hpriv : c.isPriv = true) (hrest : { q with cpsr := c.cpsr } = c)
    (hmode : q.cpsr &&& (cpsrModeMask ||| cpsrT) = c.cpsr &&& (cpsrModeMask ||| cpsrT))
    (hnext : wf → Aligned c.cpsr next) : Sound wf hook c c.cp15.stamp (q.done next) := by
  have hlatch : q.abortPending = c.abortPending := (congrArg Core.abortPending hrest :)
  have hcp15 : q.cp15 = c.cp15 := (congrArg Core.cp15 hrest :)
  have htaken : q.taken = c.taken := (congrArg Core.taken hrest :)
  refine .of_priv hpriv hlatch htaken (fun _ ↦ congrArg Cp15.stamp hcp15) (fun _ hvalid ↦ ?_)
    fun hwf ↦ (hnext hwf).congr (and_eq_of_and_eq hmode (by decide))
  rwa [armModeIsValid_congr (and_eq_of_and_eq hmode (by decide))]

omit hnext in
/-- The interrupt masks CPS sets, each under its own bit. -/
def cpsMasks (c : Core) (a i f disable : Bool) : Core :=
  let c := if a then c.setFlag cpsrA disable else c
  let c := if i then c.setFlag cpsrI disable else c
  if f then c.setFlag cpsrF disable else c

omit hnext in
theorem cpsMasks_spec (c : Core) (a i f disable : Bool) :
    { cpsMasks c a i f disable with cpsr := c.cpsr } = c ∧
      (cpsMasks c a i f disable).cpsr &&& (cpsrModeMask ||| cpsrT) =
        c.cpsr &&& (cpsrModeMask ||| cpsrT) := by
  have hA := cpsr_setFlag_and (show cpsrA &&& (cpsrModeMask ||| cpsrT) = 0 by decide)
  have hI := cpsr_setFlag_and (show cpsrI &&& (cpsrModeMask ||| cpsrT) = 0 by decide)
  have hF := cpsr_setFlag_and (show cpsrF &&& (cpsrModeMask ||| cpsrT) = 0 by decide)
  cases a <;> cases i <;> cases f <;> refine ⟨rfl, ?_⟩ <;> simp [cpsMasks, hA, hI, hF]

theorem sound_thumbCps : Sound wf hook c c.cp15.stamp (thumbCps c insn next) := by
  refine .ite (fun _ ↦ .of_quiet rfl hnext) fun hpriv ↦ ?_
  obtain ⟨hrest, hmode⟩ :=
    cpsMasks_spec c (tbit insn 2) (tbit insn 1) (tbit insn 0) (tbit insn 4)
  exact sound_masks (by simpa using hpriv) hrest hmode hnext

theorem sound_thumbLoad {width : Width} {extend : Word → Word} {rd : Reg} {addr : Word} :
    SoundProg wf mayCall hook c (thumbLoad width extend c rd addr next) := by
  refine (meets_memReadAs width c addr c.isPriv).bind ?_
  rintro _ ⟨value, c'⟩ ⟨rfl, hnoted⟩
  refine Sound.ite (fun _ ↦ .of_noted hnoted hnext) fun hlatch ↦ ?_
  obtain rfl := hnoted.eq hlatch
  exact .of_quiet rfl hnext

theorem sound_thumbStore {width : Width} {rd : Reg} {addr : Word} :
    SoundProg wf mayCall hook c (thumbStore width c rd addr next) := by
  refine (meets_memWriteAs width c addr (c.r rd) c.isPriv).bind ?_
  rintro _ c' ⟨rfl, hnoted⟩
  exact .of_noted hnoted hnext

theorem sound_thumbTransferRegister :
    SoundProg wf mayCall hook c (thumbTransferRegister c insn next) := by
  refine .ite (fun _ ↦ .ite (fun _ ↦ .refuse ..) fun _ ↦ ?_) fun _ ↦ ?_
  · refine .ite (fun _ ↦ sound_thumbStore hnext) fun _ ↦ ?_
    refine .ite (fun _ ↦ sound_thumbLoad hnext) fun _ ↦ ?_
    exact .ite (fun _ ↦ sound_thumbLoad hnext) fun _ ↦ sound_thumbLoad hnext
  · exact .ite (fun _ ↦ sound_thumbLoad hnext) fun _ ↦ sound_thumbStore hnext

theorem sound_thumbTransferImmediate :
    SoundProg wf mayCall hook c (thumbTransferImmediate c insn next) :=
  .ite (fun _ ↦ sound_thumbLoad hnext) fun _ ↦ sound_thumbStore hnext

theorem sound_thumbTransferHalf : SoundProg wf mayCall hook c (thumbTransferHalf c insn next) :=
  .ite (fun _ ↦ .refuse ..) fun _ ↦ .ite (fun _ ↦ sound_thumbLoad hnext) fun _ ↦
    sound_thumbStore hnext

theorem sound_thumbTransferSp : SoundProg wf mayCall hook c (thumbTransferSp c insn next) :=
  .ite (fun _ ↦ sound_thumbLoad hnext) fun _ ↦ sound_thumbStore hnext

omit hnext in
theorem sound_thumbPop (hT : ¬c.cpsr &&& cpsrT = 0) (hnext : wf → Aligned c.cpsr next) :
    SoundProg wf mayCall hook c (thumbPop c insn next) := by
  unfold thumbPop
  refine .prepare hnext fun addr ↦ ?_
  refine .blockLoad (fun _ ↦ rfl) hnext fun loaded ↦ ?_
  have hquiet (sp : Word) : ((commitBlock c false loaded).setR 13 sp).quiet = c.quiet :=
    quiet_commitBlock c loaded
  refine .ite (fun _ ↦ ?_) fun _ ↦ Sound.of_quiet (hquiet _) hnext
  refine .read (fun _ _ ↦ rfl) hnext fun target ↦ ?_
  refine .ite (fun _ ↦ .refuse ..) fun htarget ↦ ?_
  simp only
  split
  · rename_i hbit
    have hword : target &&& 3 = 0 := bit_zero_of_ne_two htarget (by simpa using hbit)
    exact Sound.of_steady (Core.steady_clearT (hquiet _)) fun _ ↦
      aligned_of_word (clear_one_of_word hword) _
  · exact Sound.of_quiet (hquiet _) fun _ ↦ aligned_of_even hT (clear_one_and_one target)

theorem sound_thumbPush : SoundProg wf mayCall hook c (thumbPush c insn next) := by
  unfold thumbPush
  refine .prepare hnext fun addr ↦ (meets_blockStore c addr _).bind ?_
  rintro _ c' ⟨rfl, hnoted⟩
  refine Sound.ite (fun _ ↦ .of_noted hnoted hnext) fun hlatch ↦ ?_
  obtain rfl := hnoted.eq hlatch
  exact .of_quiet rfl hnext

theorem sound_thumbBlock : SoundProg wf mayCall hook c (thumbBlock c insn next) := by
  unfold thumbBlock
  refine .ite (fun _ ↦ .refuse ..) fun _ ↦ .prepare hnext fun addr ↦ ?_
  refine .ite (fun _ ↦ ?_) fun _ ↦ (meets_blockStore c addr _).bind ?_
  · refine .blockLoad (fun _ ↦ rfl) hnext fun loaded ↦ ?_
    refine Sound.of_quiet ?_ hnext
    have hquiet := quiet_commitBlock c loaded
    split <;> exact hquiet
  · rintro _ c' ⟨rfl, hnoted⟩
    refine Sound.ite (fun _ ↦ .of_noted hnoted hnext) fun hlatch ↦ ?_
    obtain rfl := hnoted.eq hlatch
    exact .of_quiet rfl hnext

end

theorem sound_thumbMiscellaneous (hT : ¬c.cpsr &&& cpsrT = 0) (hnext : wf → Aligned c.cpsr next) :
    SoundProg wf mayCall hook c (thumbMiscellaneous c insn next) := by
  refine .ite (fun _ ↦ Sound.of_quiet rfl hnext) fun _ ↦ ?_
  refine .ite (fun _ ↦ .ite (fun _ ↦ .refuse ..) fun _ ↦ ?_) fun _ ↦ ?_
  · exact .ite (fun _ ↦ sound_thumbPop hT hnext) fun _ ↦ sound_thumbPush hnext
  refine .ite (fun _ ↦ sound_thumbExtend hnext) fun _ ↦ ?_
  refine .ite (fun _ ↦ sound_thumbReverse hnext) fun _ ↦ ?_
  refine .ite (fun _ ↦ sound_thumbCps hnext) fun _ ↦ ?_
  exact .ite (fun _ ↦ Sound.ite_refuse rfl hnext) fun _ ↦ .refuse ..

/-- What the privileged-SVC interface may leave. -/
structure Served (hook : Bool) (c : Core) (result : SvcResult) (c' : Core) : Prop where
  unhandled : result = .unhandled → c' = c
  error : result = .error → hook = true ∧ c' = { c with cycles := c.cycles - 1 }
  served : result = .handled ∨ result = .redirected →
    c.isPriv = true ∧ hook = true ∧ c'.abortPending = c.abortPending ∧ c'.taken = c.taken

theorem meets_privilegedSvcResult (hcall : mayCall ∨ c.isPriv = false) (encoding : Word) :
    Meets (armContract mayCall hook)
      (fun regs x ↦ regs = c.cp15.stamp ∧ Served hook c x.1 x.2)
      c.cp15.stamp (privilegedSvcResult c pc encoding) := by
  have hself : Served hook c .unhandled c := ⟨fun _ ↦ rfl, nofun, by simp⟩
  unfold privilegedSvcResult
  by_cases hpriv : c.isPriv = true
  · have hmay : mayCall := hcall.resolve_right (by simp [hpriv])
    rw [if_neg (by simp [hpriv])]
    refine ⟨hmay, fun answer hanswer ↦ ?_⟩
    cases answer with
    | none => exact ⟨rfl, hself⟩
    | some served =>
      obtain ⟨hhook, hlatch, htaken⟩ := hanswer served rfl
      obtain ⟨result, c'⟩ := served
      cases result with
      | unhandled => exact ⟨rfl, hself⟩
      | handled => exact ⟨rfl, nofun, nofun, fun _ ↦ ⟨hpriv, hhook, hlatch, htaken⟩⟩
      | redirected => exact ⟨rfl, nofun, nofun, fun _ ↦ ⟨hpriv, hhook, hlatch, htaken⟩⟩
      | error => exact ⟨rfl, nofun, fun _ ↦ ⟨hhook, rfl⟩, by simp⟩
  · rw [if_pos (by simpa using hpriv)]
    exact ⟨rfl, hself⟩

theorem sound_takeSvc : Sound wf hook c c.cp15.stamp
    ((takeException c vecSwi modeSvc next false).1.done
      (takeException c vecSwi modeSvc next false).2) := by
  have h := excepted_takeException c vecSwi modeSvc next false
  have hmode := h.mode (by decide)
  refine ⟨fun hstatus ↦ absurd rfl hstatus, fun _ _ ↦ ?_, fun _ _ ↦ ?_, fun _ ↦ ?_, ?_, ?_,
    .inr h.taken⟩
  · rw [Core.done, armModeIsValid_congr (b := modeSvc) (by rw [hmode])]
    decide
  · exact aligned_of_word (takeException_next c modeSvc next false (by decide)) _
  · rw [Core.done, h.cp15]
  · intro _ htaken
    rw [Core.done, h.taken] at htaken
    exact (List.cons_ne_self _ _ htaken).elim
  · intro hclear hset
    rw [Core.done, h.latch, hclear] at hset
    cases hset

theorem sound_execSvc {encoding : Word} (hcall : mayCall ∨ c.isPriv = false)
    (hhook : wf → hook = false) : SoundProg wf mayCall hook c (execSvc c pc encoding next) := by
  refine (meets_privilegedSvcResult hcall encoding).bind ?_
  rintro _ ⟨result, c'⟩ ⟨rfl, hserved⟩
  -- A service that ran rules out a well-formed start, and User mode.
  have hran (c' : Core) (target : Word)
      (h : c.isPriv = true ∧ hook = true ∧ c'.abortPending = c.abortPending ∧ c'.taken = c.taken) :
      Sound wf hook c c.cp15.stamp (c'.done target) := by
    have hnot : ¬wf := fun hwf ↦ by simp [hhook hwf] at h
    exact .of_priv h.1 h.2.2.1 h.2.2.2 (fun hwf ↦ absurd hwf hnot) (fun hwf ↦ absurd hwf hnot)
      fun hwf ↦ absurd hwf hnot
  cases result with
  | error =>
    obtain ⟨hhook', rfl⟩ := hserved.error rfl
    exact ⟨fun _ ↦ .inr ⟨hhook', rfl⟩, fun _ h ↦ h, fun _ h ↦ (nomatch h), fun _ ↦ rfl,
      fun _ _ ↦ rfl, fun hclear hset ↦ absurd hset (by simp [hclear]), .inl rfl⟩
  | redirected => exact hran _ _ (hserved.served (.inr rfl))
  | handled => exact hran _ _ (hserved.served (.inl rfl))
  | unhandled =>
    obtain rfl := hserved.unhandled rfl
    exact sound_takeSvc

theorem even_add_four {pc : Word} (h : pc &&& 1 = 0) : (pc + 4) &&& 1 = 0 :=
  even_add h (by decide)

theorem sound_thumbBranchSvc (hT : ¬c.cpsr &&& cpsrT = 0) (hpc : wf → pc &&& 1 = 0)
    (hcall : mayCall ∨ c.isPriv = false) (hhook : wf → hook = false)
    (hnext : wf → Aligned c.cpsr next) :
    SoundProg wf mayCall hook c (thumbBranchSvc c pc insn next) := by
  refine .ite (fun _ ↦ sound_execSvc hcall hhook) fun _ ↦ .ite (fun _ ↦ .refuse ..) fun _ ↦ ?_
  refine .ite (fun _ ↦ Sound.of_quiet rfl fun hwf ↦ ?_) fun _ ↦ Sound.of_quiet rfl hnext
  exact aligned_of_even hT (even_add (even_add_four (hpc hwf)) (even_shiftLeft _ (by decide)))

theorem sound_thumbBranch (hT : ¬c.cpsr &&& cpsrT = 0) (hpc : wf → pc &&& 1 = 0) :
    Sound wf hook c c.cp15.stamp (thumbBranch c pc insn) := by
  refine .ite (fun _ ↦ ?_) fun _ ↦ .of_quiet rfl fun hwf ↦ ?_
  · exact .of_steady (Core.steady_clearT rfl) fun _ ↦ aligned_clearT _ _
  · exact aligned_of_even hT
      (even_add (even_add_four (hpc hwf)) (even_shiftLeft _ (by decide)))

theorem sound_thumbBranchLink (hT : ¬c.cpsr &&& cpsrT = 0) (hnext : wf → Aligned c.cpsr next) :
    Sound wf hook c c.cp15.stamp (thumbBranchLink c pc insn next) := by
  refine .ite (fun _ ↦ .of_quiet rfl hnext) fun _ ↦ .of_quiet rfl fun _ ↦ ?_
  exact aligned_of_even hT (clear_one_and_one _)

theorem sound_thumbStep (hT : ¬c.cpsr &&& cpsrT = 0) (hpc : wf → pc &&& 1 = 0)
    (hcall : mayCall ∨ c.isPriv = false) (hhook : wf → hook = false)
    (hnext : wf → Aligned c.cpsr next) :
    SoundProg wf mayCall hook c (thumbStep c pc insn next) := by
  refine .ite (fun _ ↦ sound_thumbShiftAdd hnext) fun _ ↦ ?_
  refine .ite (fun _ ↦ sound_thumbImmediate hnext) fun _ ↦ ?_
  refine .ite (fun _ ↦ .ite (fun _ ↦ sound_thumbAlu hnext) fun _ ↦ ?_) fun _ ↦ ?_
  · exact .ite (fun _ ↦ sound_thumbHighRegister hT hnext) fun _ ↦ sound_thumbLoad hnext
  refine .ite (fun _ ↦ sound_thumbTransferRegister hnext) fun _ ↦ ?_
  refine .ite (fun _ ↦ sound_thumbTransferImmediate hnext) fun _ ↦ ?_
  refine .ite (fun _ ↦ sound_thumbTransferHalf hnext) fun _ ↦ ?_
  refine .ite (fun _ ↦ sound_thumbTransferSp hnext) fun _ ↦ ?_
  refine .ite (fun _ ↦ Sound.of_quiet rfl hnext) fun _ ↦ ?_
  refine .ite (fun _ ↦ sound_thumbMiscellaneous hT hnext) fun _ ↦ ?_
  refine .ite (fun _ ↦ sound_thumbBlock hnext) fun _ ↦ ?_
  refine .ite (fun _ ↦ sound_thumbBranchSvc hT hpc hcall hhook hnext) fun _ ↦ ?_
  exact .ite (fun _ ↦ sound_thumbBranch hT hpc) fun _ ↦ sound_thumbBranchLink hT hnext

end S5LBox.Arm
