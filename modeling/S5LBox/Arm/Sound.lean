import S5LBox.Arm.Frame

/-!
# What every instruction keeps

`Sound` collects what holds of the outcome of any instruction: where it leaves the core when it
refuses or faults, that the mode stays valid and the next address aligned, and that User mode
keeps to its own state. Each instruction is shown sound against the contract of its requests.
-/

namespace S5LBox.Arm

open Program

/-- Translations use the registers in force, which a flush replaces. `mayCall` says whether the
program may call the privileged-SVC handler, and `hook` whether one may be installed; an
installed handler leaves the abort latch alone, and takes no exceptions itself. Without one a
fetch stays in its 1 KB block. -/
def armContract (mayCall : Prop) (hook : Bool) : Contract armInterface TlbStamp where
  allowed regs
    | .load _ p _ _ => p = regs
    | .store _ p _ _ _ => p = regs
    | .translate p _ _ _ => p = regs
    | .fetch p pc _ thumb => p = regs ∧
      (hook = false → (pc - (pc &&& ~~~0x3ff)).toNat + (fetchWidth thumb).bytes ≤ 0x400)
    | .flush _ => True
    | .waitForInterrupt => True
    | .privilegedSvc .. => mayCall
  answers _
    | .privilegedSvc c _ _, answer => ∀ served, answer = some served →
      hook = true ∧ served.2.abortPending = c.abortPending ∧ served.2.taken = c.taken
    | _, _ => True
  after regs
    | .flush p => p
    | _ => regs

variable {mayCall : Prop} {hook : Bool}

/-- An access left the core as it was, or noted a fault. -/
def Noted (c c' : Core) : Prop := c' = c ∨ ∃ fsr far, c' = c.noteAbort fsr far

theorem Noted.refl (c : Core) : Noted c c := .inl rfl

theorem Noted.noteAlignmentAbort (c : Core) (va : Word) (write : Bool) :
    Noted c (noteAlignmentAbort c va write) := .inr ⟨_, _, rfl⟩

theorem Noted.restorable {c c' : Core} (h : Noted c c') : c'.restorable = c.restorable := by
  obtain rfl | ⟨fsr, far, rfl⟩ := h
  · rfl
  · exact Core.restorable_noteAbort ..

theorem Noted.eq {c c' : Core} (h : Noted c c') (hlatch : ¬c'.abortPending = true) : c' = c := by
  obtain rfl | ⟨fsr, far, rfl⟩ := h
  · rfl
  · unfold Core.noteAbort at *
    split at hlatch <;> simp_all

theorem meets_memReadAs (width : Width) (c : Core) (va : Word) (priv : Bool) :
    Meets (armContract mayCall hook) (fun regs x ↦ regs = c.cp15.stamp ∧ Noted c x.2)
      c.cp15.stamp (memReadAs width c va priv) := by
  unfold memReadAs
  split
  · exact ⟨rfl, .noteAlignmentAbort ..⟩
  · refine ⟨rfl, fun answer _ ↦ ?_⟩
    cases answer with
    | error fault => exact ⟨rfl, .inr ⟨_, _, rfl⟩⟩
    | ok value => exact ⟨rfl, .refl c⟩

theorem meets_memWriteAs (width : Width) (c : Core) (va value : Word) (priv : Bool) :
    Meets (armContract mayCall hook) (fun regs c' ↦ regs = c.cp15.stamp ∧ Noted c c')
      c.cp15.stamp (memWriteAs width c va value priv) := by
  unfold memWriteAs
  split
  · exact ⟨rfl, .noteAlignmentAbort ..⟩
  · refine ⟨rfl, fun answer _ ↦ ?_⟩
    cases answer with
    | some fault => exact ⟨rfl, .inr ⟨_, _, rfl⟩⟩
    | none => exact ⟨rfl, .refl c⟩

theorem noted_prepareMultiwordAddress (c : Core) (va alignment : Word) (write : Bool) :
    Noted c (prepareMultiwordAddress c va alignment write).2 ∧
      ((prepareMultiwordAddress c va alignment write).1.isSome →
        (prepareMultiwordAddress c va alignment write).2 = c) := by
  unfold prepareMultiwordAddress
  simp only
  split
  · exact ⟨.refl c, fun _ ↦ rfl⟩
  split
  · exact ⟨.noteAlignmentAbort .., by simp⟩
  · exact ⟨.refl c, fun _ ↦ rfl⟩

/-- What holds of the outcome of an instruction that started in `c`, when the translations after
it use `regs`. `wf` stands for a well-formed start without a privileged-SVC handler. -/
structure Sound (wf : Prop) (hook : Bool) (c : Core) (regs : TlbStamp) (o : Outcome) : Prop where
  refused : o.status ≠ .ok → o.core = c ∨ hook = true ∧ o.core = { c with cycles := c.cycles - 1 }
  valid : wf → armModeIsValid c.cpsr = true → armModeIsValid o.core.cpsr = true
  aligned : wf → o.status = .ok → Aligned o.core.cpsr o.next
  stamped : wf → o.core.cp15.stamp = regs
  confined : c.isPriv = false → o.core.taken = c.taken → o.core.confined = c.confined
  latched : c.abortPending = false → o.core.abortPending = true → o.core.restorable = c.restorable
  recorded : o.core.taken = c.taken ∨ o.core.taken = vecSwi :: c.taken

namespace Sound

variable {wf : Prop} {c c' : Core} {next : Word}

theorem of_status (status : Status) : status ≠ .ok → Sound wf hook c c.cp15.stamp ⟨status, c, next⟩ :=
  fun hstatus ↦
  { refused := fun _ ↦ .inl rfl
    valid := fun _ h ↦ h
    aligned := fun _ h ↦ absurd h hstatus
    stamped := fun _ ↦ rfl
    confined := fun _ _ ↦ rfl
    latched := fun _ _ ↦ rfl
    recorded := .inl rfl }

theorem refuse (c : Core) (next : Word) : Sound wf hook c c.cp15.stamp (c.refuse next) :=
  of_status .undefined (by decide)

/-- One branch of a dispatch. -/
theorem ite {p : Prop} [Decidable p] {regs : TlbStamp} {a b : Outcome}
    (ha : p → Sound wf hook c regs a) (hb : ¬p → Sound wf hook c regs b) :
    Sound wf hook c regs (if p then a else b) := iteInduction ha hb

/-- Changes to registers, flags and T, with a target that is aligned for the new T. -/
theorem of_steady (h : c'.steady = c.steady) (hnext : wf → Aligned c'.cpsr next) :
    Sound wf hook c c.cp15.stamp (c'.done next) where
  refused hstatus := absurd rfl hstatus
  valid _ hvalid := by
    have hmode := Core.mode_of_steady h
    rwa [Core.done, armModeIsValid, hmode]
  aligned hwf _ := hnext hwf
  stamped _ := congrArg Cp15.stamp (congrArg Core.cp15 h :)
  confined _ _ := Core.confined_of_steady h
  latched hlatch hlatch' := by
    have : c'.abortPending = c.abortPending := (congrArg Core.abortPending h :)
    simp_all [Core.done]
  recorded := .inl (congrArg Core.taken h :)

/-- Changes to registers and flags. -/
theorem of_quiet (h : c'.quiet = c.quiet) (hnext : wf → Aligned c.cpsr next) :
    Sound wf hook c c.cp15.stamp (c'.done next) :=
  of_steady (Core.steady_of_quiet h)
    fun hwf ↦ (hnext hwf).congr (and_eq_of_and_eq (congrArg Core.cpsr h :) (by decide))

/-- A fault, or nothing but the monitor and the VFP data registers. -/
theorem of_restorable (h : c'.restorable = c.restorable) (hnext : wf → Aligned c.cpsr next) :
    Sound wf hook c c.cp15.stamp (c'.done next) where
  refused hstatus := absurd rfl hstatus
  valid _ hvalid := by
    have hcpsr : c'.cpsr = c.cpsr := (congrArg Core.cpsr h :)
    rwa [Core.done, hcpsr]
  aligned hwf _ := by
    have hcpsr : c'.cpsr = c.cpsr := (congrArg Core.cpsr h :)
    rw [Core.done, hcpsr]
    exact hnext hwf
  stamped _ := congrArg Cp15.stamp (congrArg Core.cp15 h :)
  confined _ _ := (congrArg Core.confined h :)
  latched _ _ := h
  recorded := .inl (congrArg Core.taken h :)

theorem of_noted (h : Noted c c') (hnext : wf → Aligned c.cpsr next) :
    Sound wf hook c c.cp15.stamp (c'.done next) := of_restorable h.restorable hnext

/-- Anything a privileged instruction does, as long as it leaves the latch alone. -/
theorem of_priv {regs : TlbStamp} (hpriv : c.isPriv = true)
    (hlatch : c'.abortPending = c.abortPending) (htaken : c'.taken = c.taken)
    (hstamp : wf → c'.cp15.stamp = regs)
    (hvalid : wf → armModeIsValid c.cpsr = true → armModeIsValid c'.cpsr = true)
    (hnext : wf → Aligned c'.cpsr next) : Sound wf hook c regs (c'.done next) where
  refused hstatus := absurd rfl hstatus
  valid := hvalid
  aligned hwf _ := hnext hwf
  stamped := hstamp
  confined hconfined := absurd hpriv (by simp [hconfined])
  latched hclear hset := by simp_all [Core.done]
  recorded := .inl htaken

end Sound

/-- An instruction that keeps the contract, with sound outcomes only. -/
def SoundProg (wf mayCall : Prop) (hook : Bool) (c : Core) (p : Prog Outcome) : Prop :=
  Meets (armContract mayCall hook) (Sound wf hook c) c.cp15.stamp p

namespace SoundProg

variable {wf : Prop} {c : Core} {next : Word}

theorem refuse (c : Core) (next : Word) : SoundProg wf mayCall hook c (pure (c.refuse next)) :=
  Sound.refuse ..

theorem ite {p : Prop} [Decidable p] {a b : Prog Outcome}
    (ha : p → SoundProg wf mayCall hook c a) (hb : ¬p → SoundProg wf mayCall hook c b) :
    SoundProg wf mayCall hook c (if p then a else b) := iteInduction ha hb

theorem read {width : Width} {va : Word} {priv : Bool} {f : Word × Core → Prog Outcome}
    {g : Word → Core → Prog Outcome}
    (hf : ∀ value c', f (value, c') = if c'.abortPending then pure (c'.done next) else g value c')
    (hnext : wf → Aligned c.cpsr next) (hok : ∀ value, SoundProg wf mayCall hook c (g value c)) :
    SoundProg wf mayCall hook c (memReadAs width c va priv >>= f) := by
  refine (meets_memReadAs width c va priv).bind ?_
  rintro _ ⟨value, c'⟩ ⟨rfl, hnoted⟩
  rw [hf]
  refine iteInduction (fun _ ↦ Sound.of_noted hnoted hnext) fun hlatch ↦ ?_
  obtain rfl := hnoted.eq hlatch
  exact hok value

theorem write {width : Width} {va value : Word} {priv : Bool} {f : Core → Prog Outcome}
    (hnext : wf → Aligned c.cpsr next) (hok : SoundProg wf mayCall hook c (f c)) :
    SoundProg wf mayCall hook c (do
      let c' ← memWriteAs width c va value priv
      if c'.abortPending then pure (c'.done next) else f c') := by
  refine (meets_memWriteAs width c va value priv).bind ?_
  rintro _ c' ⟨rfl, hnoted⟩
  refine iteInduction (fun _ ↦ Sound.of_noted hnoted hnext) fun hlatch ↦ ?_
  obtain rfl := hnoted.eq hlatch
  exact hok

theorem prepare {va alignment : Word} {store : Bool} {f : Word → Core → Prog Outcome}
    (hnext : wf → Aligned c.cpsr next) (hok : ∀ va', SoundProg wf mayCall hook c (f va' c)) :
    SoundProg wf mayCall hook c (match prepareMultiwordAddress c va alignment store with
      | (none, c') => pure (c'.done next)
      | (some va', c') => f va' c') := by
  obtain ⟨hnoted, hsame⟩ := noted_prepareMultiwordAddress c va alignment store
  split
  · rename_i c' h
    rw [h] at hnoted
    exact Sound.of_noted hnoted hnext
  · rename_i va' c' h
    rw [h] at hsame
    obtain rfl : c' = c := hsame rfl
    exact hok va'

end SoundProg

end S5LBox.Arm
