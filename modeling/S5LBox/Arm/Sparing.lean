import S5LBox.Arm.Monitor

/-!
# Instructions that spare the monitor

The instructions that make requests and are no exclusives: what the monitor guards after one of
them it guarded before, without an exception in between. A fault leaves the monitor to the
exception it is taken as.
-/

namespace S5LBox.Arm

open Program

variable {c c' c'' : Core} {pc insn next : Word} {fpu : HostFpu}

/-- The address the monitor guards, while it is armed. -/
def Core.reserved (c : Core) : Option Word := if c.exclValid then some c.exclAddr else none

/-- What the monitor still guards it guarded before, and no exception was entered since. -/
def Spares (c c' : Core) : Prop :=
  ∀ a, c'.reserved = some a → c.reserved = some a ∧ c'.taken = c.taken

theorem reserved_of_guard (h : c'.guard = c.guard) : c'.reserved = c.reserved := by
  have hvalid : c'.exclValid = c.exclValid := congrArg Prod.fst h
  have haddr : c'.exclAddr = c.exclAddr := congrArg (fun x ↦ x.2.1) h
  unfold Core.reserved
  rw [hvalid, haddr]

theorem taken_of_guard (h : c'.guard = c.guard) : c'.taken = c.taken :=
  congrArg (fun x ↦ x.2.2) h

theorem Spares.of_guard (h : c'.guard = c.guard) : Spares c c' := by
  intro a ha
  rw [reserved_of_guard h] at ha
  exact ⟨ha, taken_of_guard h⟩

theorem Spares.of_none (h : c'.reserved = none) : Spares c c' := by
  intro a ha
  rw [h] at ha
  cases ha

theorem reserved_takeException (c : Core) (vector mode ret : Word) (maskFiq : Bool) :
    (takeException c vector mode ret maskFiq).1.reserved = none := rfl

theorem reserved_enterException (c : Core) (vector mode ret : Word) (maskFiq : Bool) :
    (enterException c vector mode ret maskFiq).reserved = none := rfl

theorem vfpS_enterException (c : Core) (vector mode ret : Word) (maskFiq : Bool) :
    (enterException c vector mode ret maskFiq).vfpS = c.vfpS := by
  have hmode : (armSetMode c mode).vfpS = c.vfpS := congrArg Prod.snd (still_armSetMode c mode)
  unfold enterException takeException
  dsimp only
  split_ifs
  all_goals exact hmode

/-- A frame that a fault does not change. -/
class IgnoresFaults {β : Type} (frame : Core → β) : Prop where
  noteAbort : ∀ c fsr far, frame (c.noteAbort fsr far) = frame c

instance : IgnoresFaults Core.still := ⟨Core.still_noteAbort⟩

instance : IgnoresFaults Core.guard :=
  ⟨fun c fsr far ↦ congrArg Prod.fst (c.still_noteAbort fsr far)⟩

theorem Noted.frame {β : Type} {frame : Core → β} [IgnoresFaults frame] (h : Noted c c') :
    frame c' = frame c := by
  obtain rfl | ⟨fsr, far, rfl⟩ := h
  · rfl
  · apply IgnoresFaults.noteAbort

theorem Noted.still (h : Noted c c') : c'.still = c.still := h.frame

theorem noted_memReadAs (width : Width) (c : Core) (va : Word) (priv : Bool) :
    Meets (.free armInterface) (fun _ x ↦ Noted c x.2) () (memReadAs width c va priv) := by
  unfold memReadAs
  split
  · apply Noted.noteAlignmentAbort
  · refine ⟨trivial, fun answer _ ↦ ?_⟩
    cases answer with
    | error fault => exact .inr ⟨_, _, rfl⟩
    | ok value => exact .refl c

theorem noted_memWriteAs (width : Width) (c : Core) (va value : Word) (priv : Bool) :
    Meets (.free armInterface) (fun _ c' ↦ Noted c c') () (memWriteAs width c va value priv) := by
  unfold memWriteAs
  split
  · apply Noted.noteAlignmentAbort
  · refine ⟨trivial, fun answer _ ↦ ?_⟩
    cases answer with
    | some fault => exact .inr ⟨_, _, rfl⟩
    | none => exact .refl c

/-- A program that leaves a frame alone, whatever its requests are answered. -/
def FrameProg {β : Type} (frame : Core → β) (c : Core) (p : Prog Outcome) : Prop :=
  Meets (.free armInterface) (fun _ o ↦ Untouched frame c o) () p

/-- A program that leaves the monitor and the VFP data registers alone. -/
abbrev StillProg (c : Core) (p : Prog Outcome) : Prop := FrameProg Core.still c p

namespace FrameProg

variable {β : Type} {frame : Core → β}

theorem of_untouched {o : Outcome} (h : Untouched frame c o) : FrameProg frame c (pure o) := h

theorem refuse (c : Core) (next : Word) : FrameProg frame c (pure (c.refuse next)) :=
  of_untouched rfl

theorem ite {p : Prop} [Decidable p] {a b : Prog Outcome} (ha : p → FrameProg frame c a)
    (hb : ¬p → FrameProg frame c b) : FrameProg frame c (if p then a else b) := iteInduction ha hb

variable [IgnoresFaults frame]

variable {width : Width} {va addr : Word} {f : Core → Prog Outcome}

theorem read {priv : Bool} {f : Word × Core → Prog Outcome} {g : Word → Core → Prog Outcome}
    (hf : ∀ value c', f (value, c') = if c'.abortPending then pure (c'.done next) else g value c')
    (hok : ∀ value, FrameProg frame c (g value c)) :
    FrameProg frame c (memReadAs width c va priv >>= f) := by
  apply (noted_memReadAs width c va priv).bind
  rintro _ ⟨value, c'⟩ hnoted
  rw [hf]
  refine iteInduction (fun _ ↦ hnoted.frame) fun hlatch ↦ ?_
  obtain rfl := hnoted.eq hlatch
  exact hok value

theorem write {value : Word} {priv : Bool} (hok : FrameProg frame c (f c)) : FrameProg frame c (do
      let c' ← memWriteAs width c va value priv
      if c'.abortPending then pure (c'.done next) else f c') := by
  apply (noted_memWriteAs width c va value priv).bind
  intro _ c' hnoted
  refine iteInduction (fun _ ↦ hnoted.frame) fun hlatch ↦ ?_
  obtain rfl := hnoted.eq hlatch
  exact hok

theorem prepare {alignment : Word} {store : Bool} {f : Word → Core → Prog Outcome}
    (hok : ∀ va', FrameProg frame c (f va' c)) :
    FrameProg frame c (match prepareMultiwordAddress c va alignment store with
      | (none, c') => pure (c'.done next)
      | (some va', c') => f va' c') := by
  obtain ⟨hnoted, hsame⟩ := noted_prepareMultiwordAddress c va alignment store
  split
  · rename_i c' h
    rw [h] at hnoted
    exact of_untouched hnoted.frame
  · rename_i va' c' h
    rw [h] at hsame
    obtain rfl : c' = c := hsame rfl
    exact hok va'

end FrameProg

theorem still_execSingleTransfer : StillProg c (execSingleTransfer c pc insn next) := by
  unfold execSingleTransfer
  refine .ite (fun _ ↦ .refuse _ _) fun _ ↦ .ite (fun _ ↦ .ite (fun _ ↦ ?_) fun _ ↦ ?_) fun _ ↦ ?_
  · refine .ite (fun _ ↦ ?_) fun _ ↦ .refuse _ _
    exact .of_untouched (Core.still_noteAbort ..)
  · apply FrameProg.read (fun _ _ ↦ rfl)
    intro value
    refine .ite (fun _ ↦ .refuse _ _) fun _ ↦ .of_untouched ?_
    have hload : (commitLoad c (field4 insn 12) value next).1.still = c.still := by
      unfold commitLoad
      split
      · apply still_interwork
      · rfl
    refine (Core.still_ite ..).trans ?_
    split
    · exact hload
    · exact hload
  · apply FrameProg.write
    apply FrameProg.of_untouched
    simp [Untouched, Core.done]

theorem still_execDoubleword {rd : Reg} {store : Bool} {finish : Core → Outcome}
    (hfinish : ∀ q : Core, q.still = c.still → Untouched Core.still c (finish q)) :
    StillProg c (execDoubleword c pc rd addr next store finish) := by
  refine .prepare fun va ↦ .ite (fun _ ↦ ?_) fun _ ↦ ?_
  · apply FrameProg.write
    apply FrameProg.write
    exact .of_untouched (hfinish c rfl)
  · apply FrameProg.read (fun _ _ ↦ rfl)
    intro lo
    apply FrameProg.read (fun _ _ ↦ rfl)
    intro hi
    exact .of_untouched (hfinish _ rfl)

theorem still_execExtraTransfer : StillProg c (execExtraTransfer c pc insn next) := by
  have hfinish (w : Prop) [Decidable w] (n : Reg) (value : Word) (q : Core)
      (h : q.still = c.still) : Untouched Core.still c ((if w then q.setR n value else q).done next) := by
    simp [Untouched, Core.done, h]
  unfold execExtraTransfer
  refine .ite (fun _ ↦ .refuse _ _) fun _ ↦ .ite (fun _ ↦ .refuse _ _) fun _ ↦ ?_
  refine .ite (fun _ ↦ still_execDoubleword (hfinish _ _ _)) fun _ ↦ ?_
  refine .ite (fun _ ↦ .ite (fun _ ↦ .refuse _ _) fun _ ↦ ?_) fun _ ↦ ?_
  · apply FrameProg.read (fun _ _ ↦ rfl)
    intro value
    exact .of_untouched (hfinish _ _ _ _ rfl)
  · apply FrameProg.write
    exact .of_untouched (hfinish _ _ _ _ rfl)

theorem noted_blockLoad (c : Core) (addr : Word) (regs : List Reg) :
    Meets (.free armInterface) (fun _ x ↦ Noted c x.2 ∧ (x.1.isSome → x.2 = c)) ()
      (blockLoad c addr regs) := by
  induction regs generalizing addr with
  | nil => exact ⟨.refl c, fun _ ↦ rfl⟩
  | cons i rest ih =>
    apply (noted_memReadAs .word c addr c.isPriv).bind
    rintro _ ⟨value, c'⟩ hnoted
    refine iteInduction (fun _ ↦ ⟨hnoted, fun h ↦ nomatch h⟩) fun hlatch ↦ ?_
    obtain rfl := hnoted.eq hlatch
    apply (ih (addr + 4)).bind
    rintro _ ⟨loaded, c''⟩ ⟨hnoted', hsame⟩
    exact ⟨hnoted', fun h ↦ hsame (by simpa using h)⟩

theorem noted_blockStore (c : Core) (addr : Word) (values : List Word) :
    Meets (.free armInterface) (fun _ c' ↦ Noted c c') () (blockStore c addr values) := by
  induction values generalizing addr with
  | nil => exact .refl c
  | cons value rest ih =>
    apply (noted_memWriteAs .word c addr value c.isPriv).bind
    intro _ c' hnoted
    refine iteInduction (fun _ ↦ hnoted) fun hlatch ↦ ?_
    obtain rfl := hnoted.eq hlatch
    exact ih (addr + 4)

theorem FrameProg.blockLoad {β : Type} {frame : Core → β} [IgnoresFaults frame] {regs : List Reg}
    {f : Option (List (Reg × Word)) × Core → Prog Outcome}
    (hfault : ∀ c', f (none, c') = pure (c'.done next))
    (hok : ∀ loaded, FrameProg frame c (f (some loaded, c))) :
    FrameProg frame c (blockLoad c addr regs >>= f) := by
  apply (noted_blockLoad c addr regs).bind
  rintro _ ⟨_ | loaded, c'⟩ ⟨hnoted, hsame⟩
  · rw [hfault]
    exact hnoted.frame
  · obtain rfl : c' = c := hsame rfl
    exact hok loaded

theorem FrameProg.blockStore {β : Type} {frame : Core → β} {values : List Word}
    (hok : ∀ c', Noted c c' → FrameProg frame c (f c')) :
    FrameProg frame c (blockStore c addr values >>= f) := by
  apply (noted_blockStore c addr values).bind
  exact fun _ c' hnoted ↦ hok c' hnoted

theorem untouched_finishBlockLoad {loaded : List (Reg × Word)} {restore userBank : Bool} {w : Prop}
    [Decidable w] {rn : Reg} {wb : Word} :
    Untouched Core.still c (finishBlockLoad c loaded restore userBank
      (fun c ↦ if w then c.setR rn wb else c) next) := by
  unfold finishBlockLoad
  dsimp only
  split
  · simp [Untouched, Core.done]
  · refine .ite (fun _ ↦ .refuse _ _) fun _ ↦ .ite (fun _ ↦ .refuse _ _) fun _ ↦ ?_
    refine .ite (fun _ ↦ ?_) fun _ ↦ ?_
    · simp [Untouched, Core.done]
    · simp [Untouched, Core.done]

theorem still_execBlockTransfer : StillProg c (execBlockTransfer c pc insn next) := by
  unfold execBlockTransfer
  refine .ite (fun _ ↦ .refuse _ _) fun _ ↦ .ite (fun _ ↦ .refuse _ _) fun _ ↦ ?_
  refine .ite (fun _ ↦ .refuse _ _) fun _ ↦ .ite (fun _ ↦ .refuse _ _) fun _ ↦ ?_
  refine .ite (fun _ ↦ .refuse _ _) fun _ ↦ .prepare fun addr ↦ .ite (fun _ ↦ ?_) fun _ ↦ ?_
  · apply FrameProg.blockLoad (fun _ ↦ rfl)
    intro loaded
    exact .of_untouched untouched_finishBlockLoad
  · apply FrameProg.blockStore
    intro c' hnoted
    refine .ite (fun _ ↦ .of_untouched hnoted.frame) fun _ ↦ .of_untouched ?_
    simp [Untouched, Core.done, hnoted.frame]

theorem still_execSwap : StillProg c (execSwap c insn next) := by
  unfold execSwap
  refine .ite (fun _ ↦ .refuse _ _) fun _ ↦ .ite (fun _ ↦ ?_) fun _ ↦ ?_
  · exact .of_untouched (Core.still_noteAbort ..)
  · apply FrameProg.read (fun _ _ ↦ rfl)
    intro old
    apply FrameProg.write
    exact .of_untouched rfl

/-- A transfer of the VFP that leaves a frame alone. -/
def CoreProg {β : Type} (frame : Core → β) (c : Core) (p : Prog Core) : Prop :=
  Meets (.free armInterface) (fun _ c' ↦ frame c' = frame c) () p

theorem noted_vfpMemR32 (c : Core) (va : Word) :
    Meets (.free armInterface) (fun _ x ↦ Noted c x.2) () (vfpMemR32 c va) := by
  obtain ⟨hnoted, hsame⟩ := noted_prepareMultiwordAddress c va 4 false
  unfold vfpMemR32
  split
  · rename_i c' h
    rw [h] at hnoted
    exact hnoted
  · rename_i va' c' h
    rw [h] at hsame
    obtain rfl : c' = c := hsame rfl
    apply noted_memReadAs

theorem noted_vfpMemW32 (c : Core) (va value : Word) :
    Meets (.free armInterface) (fun _ c' ↦ Noted c c') () (vfpMemW32 c va value) := by
  obtain ⟨hnoted, hsame⟩ := noted_prepareMultiwordAddress c va 4 true
  unfold vfpMemW32
  split
  · rename_i c' h
    rw [h] at hnoted
    exact hnoted
  · rename_i va' c' h
    rw [h] at hsame
    obtain rfl : c' = c := hsame rfl
    apply noted_memWriteAs

namespace CoreProg

variable {β : Type} {frame : Core → β}

/-- The end of an instruction after its transfers. -/
theorem ends {p : Prog Core} (h : CoreProg frame c p) (hf : ∀ c', FrameProg frame c' (f c')) :
    FrameProg frame c (p >>= f) := by
  apply h.bind
  intro _ c' hframe
  apply (hf c').mono
  exact fun _ _ h' ↦ h'.trans hframe

/-- One transfer after another, unless the first one faulted. -/
theorem andThen {p : Prog Core} {f : Core → Prog Core} (h : CoreProg frame c p)
    (hf : ∀ c', CoreProg frame c' (f c')) :
    CoreProg frame c (p >>= fun c' ↦ if c'.abortPending then pure c' else f c') := by
  apply h.bind
  intro _ c' hframe
  refine iteInduction (fun _ ↦ hframe) fun _ ↦ ?_
  apply (hf c').mono
  exact fun _ _ h' ↦ h'.trans hframe

variable [IgnoresFaults frame]

theorem read {f : Word × Core → Prog Core} (hf : ∀ value c', CoreProg frame c' (f (value, c'))) :
    CoreProg frame c (vfpMemR32 c va >>= f) := by
  apply (noted_vfpMemR32 c va).bind
  rintro _ ⟨value, c'⟩ hnoted
  apply (hf value c').mono
  exact fun _ _ h' ↦ h'.trans hnoted.frame

theorem write {value : Word} : CoreProg frame c (vfpMemW32 c va value) :=
  (noted_vfpMemW32 c va value).mono fun _ _ hnoted ↦ hnoted.frame

theorem store {dbl : Bool} {n : ℕ} : CoreProg frame c (vfpTransfer dbl false c addr n) := by
  cases dbl
  · apply CoreProg.write
  · apply CoreProg.andThen CoreProg.write
    exact fun c' ↦ CoreProg.write

end CoreProg

theorem guard_vfpTransfer {dbl load : Bool} {n : ℕ} :
    CoreProg Core.guard c (vfpTransfer dbl load c addr n) := by
  have hset (p : Prop) [Decidable p] (c c' : Core) (h : c'.guard = c.guard) :
      CoreProg Core.guard c (pure (if p then c else c')) :=
    iteInduction (motive := fun q ↦ CoreProg Core.guard c (pure q)) (fun _ ↦ rfl) fun _ ↦ h
  cases load
  · apply CoreProg.store
  cases dbl
  · apply CoreProg.read
    exact fun value c' ↦ hset _ _ _ rfl
  · apply CoreProg.read
    intro lo c'
    refine iteInduction (fun _ ↦ rfl) fun _ ↦ ?_
    apply CoreProg.read
    exact fun hi c'' ↦ hset _ _ _ rfl

/-- Loads and stores of the VFP leave alone what their single transfers leave alone. -/
theorem FrameProg.vfpLdst {β : Type} {frame : Core → β} [IgnoresFaults frame]
    (htransfer : ∀ (c : Core) (addr : Word) (n : ℕ),
      CoreProg frame c (vfpTransfer (bit insn 8) (bit insn 20) c addr n))
    (hsetR : ∀ (c : Core) (n : Reg) (value : Word), frame (c.setR n value) = frame c) :
    FrameProg frame c (vfpLdst c pc insn next) := by
  have hblock (addr : Word) (first : ℕ) (regs : List ℕ) (c : Core) :
      CoreProg frame c (vfpBlock (bit insn 8) (bit insn 20) addr first regs c) := by
    induction regs generalizing c with
    | nil => rfl
    | cons i rest ih =>
      apply CoreProg.andThen (htransfer _ _ _)
      exact fun c' ↦ ih c'
  have htail (load : Bool) (addr : Word) (c : Core) :
      CoreProg frame c (vfpBlockTail load addr c) := by
    cases load
    · apply CoreProg.write
    · apply CoreProg.read
      exact fun _ _ ↦ rfl
  have hback (c' : Core) (w : Prop) [Decidable w] (rn : Reg) (base : Word) :
      FrameProg frame c' (if c'.abortPending then pure (c'.done next)
        else if w then pure ((c'.setR rn base).done next) else pure (c'.done next)) :=
    .ite (fun _ ↦ .of_untouched rfl) fun _ ↦ .ite (fun _ ↦ .of_untouched (hsetR ..)) fun _ ↦
      .of_untouched rfl
  unfold Arm.vfpLdst
  refine .ite (fun _ ↦ .refuse _ _) fun _ ↦ .ite (fun _ ↦ ?_) fun _ ↦ ?_
  · apply CoreProg.ends (htransfer _ _ _)
    exact fun c' ↦ .of_untouched rfl
  refine .ite (fun _ ↦ .refuse _ _) fun _ ↦ CoreProg.ends (hblock _ _ _ _) fun c' ↦ ?_
  refine .ite (fun _ ↦ .of_untouched rfl) fun _ ↦ .ite (fun _ ↦ ?_) fun _ ↦ hback c' _ _ _
  apply CoreProg.ends (htail _ _ _)
  exact fun c'' ↦ hback c'' _ _ _

theorem guard_vfpExecute : FrameProg Core.guard c (vfpExecute fpu c pc insn next) := by
  have hcalm {o : Outcome} (h : Untouched Core.calm c o) : FrameProg Core.guard c (pure o) :=
    congrArg Prod.fst h
  unfold vfpExecute vfpExecuteInner
  refine .ite (fun _ ↦ .refuse _ _) fun _ ↦ .ite (fun _ ↦ .refuse _ _) fun _ ↦ ?_
  refine .ite (fun _ ↦ .refuse _ _) fun _ ↦ ?_
  refine .ite (fun _ ↦ hcalm untouched_vfpXfer32) fun _ ↦ ?_
  refine .ite (fun _ ↦ hcalm untouched_vfpDp) fun _ ↦ ?_
  refine .ite (fun _ ↦ hcalm untouched_vfpXfer64) fun _ ↦ ?_
  refine .ite (fun _ ↦ ?_) fun _ ↦ .refuse _ _
  exact FrameProg.vfpLdst (fun _ _ _ ↦ guard_vfpTransfer) fun _ _ _ ↦ rfl

theorem still_execCp15 : StillProg c (execCp15 c pc insn next) := by
  unfold execCp15
  refine .ite (fun _ ↦ .ite (fun _ ↦ .refuse _ _) fun _ ↦ ⟨trivial, fun _ _ ↦ rfl⟩) fun _ ↦ ?_
  refine .ite (fun _ ↦ .refuse _ _) fun _ ↦ .ite (fun _ ↦ .of_untouched rfl) fun _ ↦ ?_
  split
  · exact .of_untouched rfl
  · exact ⟨trivial, fun _ _ ↦ rfl⟩

theorem execCoprocessor_cases {P : Prog Outcome → Prop} (still : ∀ p, StillProg c p → P p)
    (vfp : P (vfpExecute fpu c pc insn next)) : P (execCoprocessor fpu c pc insn next) := by
  have hcp14 (c' : Core) (h : c'.still = c.still) : Untouched Core.still c (c'.done next) := h
  unfold execCoprocessor
  apply iteInduction (motive := P)
  · intro _
    apply iteInduction (motive := P)
    · exact fun _ ↦ still _ (.refuse _ _)
    · refine fun _ ↦ still _ (.of_untouched (hcp14 _ ?_))
      split
      · rfl
      · rfl
  intro _
  apply iteInduction (motive := P)
  · exact fun _ ↦ vfp
  intro _
  apply iteInduction (motive := P)
  · exact fun _ ↦ still _ (.refuse _ _)
  · exact fun _ ↦ still _ still_execCp15

/-- What an instruction may count on: a service treats the monitor as an instruction does. The
state of the protocol tells whether anything but reads was asked for. -/
def monitorContract : Contract armInterface Bool where
  allowed _ _ := True
  answers _
    | .privilegedSvc c _ _, answer => ∀ served, answer = some served → Spares c served.2
    | _, _ => True
  after wrote
    | .store .. => true
    | .waitForInterrupt => true
    | .privilegedSvc .. => true
    | _ => wrote

/-- A program that spares the monitor, whatever it asked for before. -/
def SparesProg (c : Core) (p : Prog Outcome) : Prop :=
  ∀ wrote, Meets monitorContract (fun _ o ↦ Spares c o.core) wrote p

/-- What holds whatever the answers are, as far as the monitor goes. -/
theorem monitored {α : Type} {goal : α → Prop} {p : Prog α}
    (h : Meets (.free armInterface) (fun _ a ↦ goal a) () p) (wrote : Bool) :
    Meets monitorContract (fun _ a ↦ goal a) wrote p := h.of_free (fun _ _ ↦ trivial) wrote

namespace SparesProg

theorem of_guard {p : Prog Outcome} (h : FrameProg Core.guard c p) : SparesProg c p :=
  monitored (h.mono fun _ _ h ↦ Spares.of_guard h)

theorem of_still {p : Prog Outcome} (h : StillProg c p) : SparesProg c p :=
  of_guard (h.mono fun _ _ h ↦ congrArg Prod.fst h)

theorem ite {p : Prop} [Decidable p] {a b : Prog Outcome} (ha : p → SparesProg c a)
    (hb : ¬p → SparesProg c b) : SparesProg c (if p then a else b) := iteInduction ha hb

end SparesProg

/-- A service keeps the monitor as the contract has it, and the exception clears it. -/
theorem spares_execSvc {encoding : Word} : SparesProg c (execSvc c pc encoding next) := by
  have hunhandled (c : Core) : Spares c (takeException c vecSwi modeSvc next false).1 :=
    .of_none (reserved_takeException ..)
  intro wrote
  unfold execSvc privilegedSvcResult
  by_cases hpriv : (!c.isPriv) = true
  · rw [if_pos hpriv]
    apply hunhandled
  · rw [if_neg hpriv]
    refine ⟨trivial, fun answer hanswer ↦ ?_⟩
    cases answer with
    | none => apply hunhandled
    | some served =>
      have hserved := hanswer served rfl
      obtain ⟨result, c'⟩ := served
      cases result with
      | unhandled => apply hunhandled
      | handled => exact hserved
      | redirected => exact hserved
      | error => exact Spares.of_guard rfl

section Thumb

variable {insn : Half}

theorem still_thumbLoad {extend : Word → Word} {rd : Reg} :
    StillProg c (thumbLoad width extend c rd addr next) := by
  apply (noted_memReadAs width c addr c.isPriv).bind
  rintro _ ⟨value, c'⟩ hnoted
  apply FrameProg.of_untouched
  unfold Untouched
  split
  · exact hnoted.still
  · exact hnoted.still

theorem still_thumbStore {rd : Reg} : StillProg c (thumbStore width c rd addr next) := by
  apply (noted_memWriteAs width c addr (c.r rd) c.isPriv).bind
  exact fun _ c' hnoted ↦ hnoted.frame

theorem still_thumbTransferRegister : StillProg c (thumbTransferRegister c insn next) := by
  unfold thumbTransferRegister
  refine .ite (fun _ ↦ .ite (fun _ ↦ .refuse _ _) fun _ ↦ ?_) fun _ ↦ ?_
  · refine .ite (fun _ ↦ still_thumbStore) fun _ ↦ .ite (fun _ ↦ still_thumbLoad) fun _ ↦ ?_
    exact .ite (fun _ ↦ still_thumbLoad) fun _ ↦ still_thumbLoad
  · exact .ite (fun _ ↦ still_thumbLoad) fun _ ↦ still_thumbStore

theorem still_thumbPop : StillProg c (thumbPop c insn next) := by
  unfold thumbPop
  refine .prepare fun addr ↦ ?_
  apply FrameProg.blockLoad (fun _ ↦ rfl)
  intro loaded
  refine .ite (fun _ ↦ ?_) fun _ ↦ .of_untouched (still_commitBlock ..)
  apply FrameProg.read (fun _ _ ↦ rfl)
  intro target
  refine .ite (fun _ ↦ .refuse _ _) fun _ ↦ .of_untouched ?_
  simp [Untouched, Core.done]

theorem still_thumbPush : StillProg c (thumbPush c insn next) := by
  unfold thumbPush
  refine .prepare fun addr ↦ ?_
  apply FrameProg.blockStore
  intro c' hnoted
  apply FrameProg.of_untouched
  unfold Untouched
  split
  · exact hnoted.still
  · exact hnoted.still

theorem still_thumbBlock : StillProg c (thumbBlock c insn next) := by
  unfold thumbBlock
  refine .ite (fun _ ↦ .refuse _ _) fun _ ↦ .prepare fun addr ↦ .ite (fun _ ↦ ?_) fun _ ↦ ?_
  · apply FrameProg.blockLoad (fun _ ↦ rfl)
    intro loaded
    apply FrameProg.of_untouched
    simp [Untouched, Core.done]
  · apply FrameProg.blockStore
    intro c' hnoted
    apply FrameProg.of_untouched
    unfold Untouched
    split
    · exact hnoted.still
    · exact hnoted.still

theorem still_thumbMiscellaneous : StillProg c (thumbMiscellaneous c insn next) := by
  unfold thumbMiscellaneous
  refine .ite (fun _ ↦ .of_untouched rfl) fun _ ↦ .ite (fun _ ↦ ?_) fun _ ↦ ?_
  · refine .ite (fun _ ↦ .refuse _ _) fun _ ↦ ?_
    exact .ite (fun _ ↦ still_thumbPop) fun _ ↦ still_thumbPush
  refine .ite (fun _ ↦ .of_untouched rfl) fun _ ↦ ?_
  refine .ite (fun _ ↦ .of_untouched (.ite_refuse rfl)) fun _ ↦ ?_
  refine .ite (fun _ ↦ .of_untouched ?_) fun _ ↦ .ite (fun _ ↦ .of_untouched ?_) fun _ ↦ .refuse _ _
  · unfold thumbCps
    refine .ite (fun _ ↦ rfl) fun _ ↦ ?_
    simp [Untouched, Core.done]
  · split
    · rfl
    · rfl

theorem thumbStep_cases {P : Prog Outcome → Prop} (still : ∀ p, StillProg c p → P p)
    (svc : ∀ encoding, P (execSvc c pc encoding next)) : P (thumbStep c pc insn next) := by
  have ite {p : Prop} [Decidable p] {a b : Prog Outcome} (ha : P a) (hb : P b) :
      P (if p then a else b) := iteInduction (fun _ ↦ ha) fun _ ↦ hb
  have hload {width : Width} {extend : Word → Word} {rd : Reg} {addr : Word} :
      P (thumbLoad width extend c rd addr next) := still _ still_thumbLoad
  have hstore {width : Width} {rd : Reg} {addr : Word} :
      P (thumbStore width c rd addr next) := still _ still_thumbStore
  have hpure {o : Outcome} (h : Untouched Core.still c o) : P (pure o) := still _ h
  have hdone (q : Core) (next : Word) (h : q.still = c.still) : P (pure (q.done next)) := hpure h
  unfold thumbStep
  apply ite (hpure untouched_thumbShiftAdd)
  apply ite (hpure untouched_thumbImmediate)
  apply ite
  · exact ite (hpure untouched_thumbAlu) (ite (hpure untouched_thumbHighRegister) hload)
  apply ite (still _ still_thumbTransferRegister)
  apply ite (ite hload hstore)
  apply ite (ite (hpure (.refuse _ _)) (ite hload hstore))
  apply ite (ite hload hstore)
  refine ite (hdone (c.setR _ _) next rfl) ?_
  apply ite (still _ still_thumbMiscellaneous)
  apply ite (still _ still_thumbBlock)
  apply ite
  · exact ite (svc _) (ite (hpure (.refuse _ _)) (ite (hdone _ _ rfl) (hdone _ _ rfl)))
  exact ite (hpure untouched_thumbBranch) (hpure untouched_thumbBranchLink)

end Thumb

theorem still_execSrs : StillProg c (execSrs c insn next) := by
  unfold execSrs
  refine .ite (fun _ ↦ .refuse _ _) fun _ ↦ .prepare fun base ↦ ?_
  apply FrameProg.write
  apply FrameProg.write
  refine .ite (fun _ ↦ .of_untouched ?_) fun _ ↦ .of_untouched rfl
  unfold Untouched
  split
  · rfl
  · rfl

theorem still_execRfe : StillProg c (execRfe c insn next) := by
  unfold execRfe
  refine .ite (fun _ ↦ .refuse _ _) fun _ ↦ .prepare fun base ↦ ?_
  apply FrameProg.read (fun _ _ ↦ rfl)
  intro newPc
  apply FrameProg.read (fun _ _ ↦ rfl)
  intro newCpsr
  refine .ite (fun _ ↦ .refuse _ _) fun _ ↦ .of_untouched ?_
  simp [Untouched, Core.done]

end S5LBox.Arm
