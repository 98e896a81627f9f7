import S5LBox.Arm.SoundStep

/-!
# Who touches the exclusive monitor

The monitor is written by the exclusives, by CLREX and by exception entry. The instructions that
only compute are shown to leave it alone, together with the record of the exceptions taken: those
of the core also the VFP data registers, those of the VFP the abort latch.
-/

namespace S5LBox.Arm

open Program

variable {c c' : Core} {pc insn next : Word} {fpu : HostFpu}

/-- The monitor, and the exceptions entered so far. -/
def Core.guard (c : Core) : Bool × Word × List Word := (c.exclValid, c.exclAddr, c.taken)

/-- The guarded fields with the VFP data registers, for the instructions of the core. -/
def Core.still (c : Core) : (Bool × Word × List Word) × (BitVec 5 → Word) := (c.guard, c.vfpS)

/-- The guarded fields with the abort latch, for the arithmetic of the VFP. -/
def Core.calm (c : Core) : (Bool × Word × List Word) × Bool := (c.guard, c.abortPending)

namespace Core

@[simp] theorem still_setR (c : Core) (n : Reg) (value : Word) :
    (c.setR n value).still = c.still := rfl

@[simp] theorem still_setFlag (c : Core) (flag : Word) (on : Bool) :
    (c.setFlag flag on).still = c.still := rfl

@[simp] theorem still_setQ (c : Core) : c.setQ.still = c.still := rfl

@[simp] theorem still_setT (c : Core) : c.setT.still = c.still := rfl

@[simp] theorem still_clearT (c : Core) : c.clearT.still = c.still := rfl

@[simp] theorem still_setNz (c : Core) (r : Word) : (c.setNz r).still = c.still := rfl

@[simp] theorem still_setPair (c : Core) (lo hi : Reg) (value : DWord) :
    (c.setPair lo hi value).still = c.still := rfl

@[simp] theorem still_ite (p : Prop) [Decidable p] (a b : Core) :
    (if p then a else b).still = if p then a.still else b.still := apply_ite ..

@[simp] theorem still_noteAbort (c : Core) (fsr far : Word) :
    (c.noteAbort fsr far).still = c.still := by
  unfold noteAbort
  split <;> rfl

end Core

@[simp] theorem still_aluAdd (c : Core) (a b : Word) (cin set : Bool) :
    (aluAdd c a b cin set).2.still = c.still := by
  cases set <;> rfl

@[simp] theorem still_aluSub (c : Core) (a b : Word) (cin set : Bool) :
    (aluSub c a b cin set).2.still = c.still := still_aluAdd ..

@[simp] theorem still_aluLogicFlags (c : Core) (r : Word) (carry set : Bool) :
    (aluLogicFlags c r carry set).still = c.still := by
  cases set <;> rfl

@[simp] theorem still_dpResult (c : Core) (opcode : BitVec 4) (a op2 : Word) (carry set : Bool) :
    (dpResult c opcode a op2 carry set).2.still = c.still :=
  dpResult_cases (P := fun x ↦ x.2.still = c.still) opcode a op2 carry set
    (fun _ _ ↦ still_aluLogicFlags ..) fun _ _ _ _ ↦ still_aluAdd ..

@[simp] theorem still_dspAccumulateWord (c : Core) (product : ℤ) (accumulator : Word) :
    (dspAccumulateWord c product accumulator).2.still = c.still := by
  simp [dspAccumulateWord]

theorem still_switchBank (c : Core) (ob nb : Bank) : (switchBank c ob nb).still = c.still := by
  unfold switchBank
  dsimp only
  split_ifs <;> rfl

@[simp] theorem still_armSetMode (c : Core) (mode : Word) :
    (armSetMode c mode).still = c.still := by
  unfold armSetMode
  split
  · dsimp only
    split
    · exact still_switchBank ..
    · rfl
  · rfl

@[simp] theorem still_restoreCpsr (c : Core) (s : Word) : (restoreCpsr c s).still = c.still :=
  still_armSetMode c s

@[simp] theorem still_regWriteUser (c : Core) (n : Reg) (value : Word) :
    (regWriteUser c n value).still = c.still := by
  unfold regWriteUser
  dsimp only
  repeat' split
  all_goals rfl

@[simp] theorem still_commitBlock (c : Core) (userBank : Bool) (loaded : List (Reg × Word)) :
    (commitBlock c userBank loaded).still = c.still := by
  induction loaded generalizing c with
  | nil => rfl
  | cons entry rest ih =>
    refine (ih _).trans ?_
    split
    · exact still_regWriteUser ..
    · rfl

@[simp] theorem still_interwork (c : Core) (value : Word) : (interwork c value).1.still = c.still := by
  unfold interwork
  split <;> rfl

/-- An outcome that leaves a frame alone. -/
def Untouched {β : Type} (frame : Core → β) (c : Core) (o : Outcome) : Prop :=
  frame o.core = frame c

namespace Untouched

variable {β : Type} {frame : Core → β}

theorem refuse (c : Core) (next : Word) : Untouched frame c (c.refuse next) := rfl

theorem ite {p : Prop} [Decidable p] {a b : Outcome} (ha : p → Untouched frame c a)
    (hb : ¬p → Untouched frame c b) : Untouched frame c (if p then a else b) :=
  iteInduction ha hb

theorem ite_refuse {p : Prop} [Decidable p] (h : frame c' = frame c) :
    Untouched frame c (if p then c.refuse next else c'.done next) :=
  .ite (fun _ ↦ .refuse ..) fun _ ↦ h

end Untouched

theorem untouched_execBx {link : Bool} : Untouched Core.still c (execBx c pc insn next link) := by
  unfold execBx
  refine .ite (fun _ ↦ .refuse ..) fun _ ↦ .ite (fun _ ↦ .refuse ..) fun _ ↦ ?_
  simp [Untouched, Core.done]

theorem untouched_execSaturating : Untouched Core.still c (execSaturating c pc insn next) := by
  simp [Untouched, Core.done, execSaturating]

theorem untouched_execMsr : Untouched Core.still c (execMsr c pc insn next) := by
  unfold execMsr
  refine .ite (fun _ ↦ .ite (fun _ ↦ .refuse ..) fun _ ↦ rfl) fun _ ↦ ?_
  refine .ite (fun _ ↦ .refuse ..) fun _ ↦ .ite (fun _ ↦ ?_) fun _ ↦ rfl
  apply still_restoreCpsr

theorem untouched_execMiscellaneous : Untouched Core.still c (execMiscellaneous c pc insn next) := by
  unfold execMiscellaneous
  refine .ite (fun _ ↦ untouched_execBx) fun _ ↦ .ite (fun _ ↦ untouched_execBx) fun _ ↦ ?_
  refine .ite (fun _ ↦ rfl) fun _ ↦ .ite (fun _ ↦ untouched_execSaturating) fun _ ↦ ?_
  refine .ite (fun _ ↦ .ite_refuse rfl) fun _ ↦ ?_
  exact .ite (fun _ ↦ untouched_execMsr) fun _ ↦ .refuse ..

theorem untouched_writePc {res : Word} {set : Bool} (h : c'.still = c.still) :
    Untouched Core.still c (writePc c' res set) := by
  simp [Untouched, Core.done, writePc, h]

theorem untouched_execDataProcessing : Untouched Core.still c (execDataProcessing c pc insn next) := by
  unfold execDataProcessing
  refine .ite (fun _ ↦ .ite (fun _ ↦ .refuse ..) fun _ ↦ .ite (fun _ ↦ rfl) fun _ ↦ rfl) fun _ ↦ ?_
  refine .ite (fun _ ↦ untouched_execMiscellaneous) fun _ ↦ ?_
  refine .ite (fun _ ↦ .refuse ..) fun _ ↦ .ite (fun _ ↦ .refuse ..) fun _ ↦ ?_
  refine .ite (fun _ ↦ still_dpResult ..) fun _ ↦ .ite (fun _ ↦ ?_) fun _ ↦ still_dpResult ..
  apply untouched_writePc
  apply still_dpResult

theorem untouched_execBranch : Untouched Core.still c (execBranch c pc insn) := by
  simp [Untouched, Core.done, execBranch]

theorem untouched_execMultiply : Untouched Core.still c (execMultiply c pc insn next) := by
  simp [Untouched, Core.done, execMultiply]

theorem untouched_execMultiplyLong : Untouched Core.still c (execMultiplyLong c pc insn next) := by
  unfold execMultiplyLong
  apply Untouched.ite_refuse
  simp

theorem untouched_execDspMultiply : Untouched Core.still c (execDspMultiply c insn next) := by
  unfold execDspMultiply
  refine .ite (fun _ ↦ .ite_refuse (by simp)) fun _ ↦ ?_
  refine .ite (fun _ ↦ .ite_refuse (by simp)) fun _ ↦ ?_
  refine .ite (fun _ ↦ .ite_refuse rfl) fun _ ↦ .ite (fun _ ↦ .ite_refuse rfl) fun _ ↦ ?_
  exact .ite (fun _ ↦ .ite_refuse rfl) fun _ ↦ .refuse ..

theorem untouched_execExtend : Untouched Core.still c (execExtend c pc insn next) := by
  unfold execExtend
  refine .ite (fun _ ↦ .refuse ..) fun _ ↦ .ite (fun _ ↦ rfl) fun _ ↦ ?_
  dsimp only
  split
  · exact .refuse ..
  · rfl

theorem untouched_execParallel : Untouched Core.still c (execParallel c pc insn next) := by
  unfold execParallel
  apply Untouched.ite_refuse
  split <;> rfl

theorem untouched_execMedia : Untouched Core.still c (execMedia c pc insn next) := by
  unfold execMedia
  refine .ite (fun _ ↦ untouched_execExtend) fun _ ↦ .ite (fun _ ↦ .ite_refuse rfl) fun _ ↦ ?_
  refine .ite (fun _ ↦ .ite_refuse rfl) fun _ ↦ .ite (fun _ ↦ .ite_refuse rfl) fun _ ↦ ?_
  refine .ite (fun _ ↦ untouched_execParallel) fun _ ↦ .ite (fun _ ↦ .ite_refuse rfl) fun _ ↦ ?_
  refine .ite (fun _ ↦ .ite_refuse rfl) fun _ ↦ .ite (fun _ ↦ .ite_refuse rfl) fun _ ↦ ?_
  refine .ite (fun _ ↦ .ite_refuse ?_) fun _ ↦ .ite (fun _ ↦ .ite_refuse rfl) fun _ ↦ ?_
  · simp
  refine .ite (fun _ ↦ .ite_refuse rfl) fun _ ↦ .ite (fun _ ↦ .ite_refuse rfl) fun _ ↦ ?_
  exact .refuse ..

theorem untouched_vfpXfer32 : Untouched Core.calm c (vfpXfer32 c insn next) := by
  have hmove (n : BitVec 5) : Untouched Core.calm c
      (if insn &&& 0x6f ≠ 0 ∨ field4 insn 12 = 15 then c.refuse next
        else if bit insn 20 then (c.setR (field4 insn 12) (c.vfpS n)).done next
        else (c.setS n (c.r (field4 insn 12))).done next) :=
    .ite (fun _ ↦ .refuse ..) fun _ ↦ .ite (fun _ ↦ rfl) fun _ ↦ rfl
  have hread (value : Word) : Untouched Core.calm c
      (if field4 insn 12 = 15 then
          { c with cpsr := (c.cpsr &&& 0x0fffffff) ||| (value &&& 0xf0000000) }.done next
        else (c.setR (field4 insn 12) value).done next) := .ite (fun _ ↦ rfl) fun _ ↦ rfl
  unfold vfpXfer32
  refine .ite (fun _ ↦ hmove _) fun _ ↦ ?_
  refine .ite (fun _ ↦ .ite (fun _ ↦ .refuse ..) fun _ ↦ hmove _) fun _ ↦ ?_
  refine .ite (fun _ ↦ .refuse ..) fun _ ↦ .ite (fun _ ↦ rfl) fun _ ↦ .ite (fun _ ↦ rfl) fun _ ↦ ?_
  refine .ite (fun _ ↦ .ite (fun _ ↦ .refuse ..) fun _ ↦ ?_) fun _ ↦ ?_
  · refine .ite (fun _ ↦ hread _) fun _ ↦ .ite (fun _ ↦ hread _) fun _ ↦ ?_
    exact .ite (fun _ ↦ hread _) fun _ ↦ .refuse ..
  · refine .ite (fun _ ↦ .refuse ..) fun _ ↦ .ite (fun _ ↦ rfl) fun _ ↦ ?_
    exact .ite (fun _ ↦ rfl) fun _ ↦ .refuse ..

theorem untouched_vfpXfer64 : Untouched Core.calm c (vfpXfer64 c insn next) := by
  unfold vfpXfer64
  refine .ite (fun _ ↦ .refuse ..) fun _ ↦ .ite (fun _ ↦ .ite (fun _ ↦ .refuse ..) fun _ ↦ ?_) fun _ ↦
    .ite (fun _ ↦ .refuse ..) fun _ ↦ ?_
  · exact .ite (fun _ ↦ rfl) fun _ ↦ rfl
  · exact .ite (fun _ ↦ rfl) fun _ ↦ rfl

theorem untouched_vfpDpArith {op : BitVec 3} : Untouched Core.calm c (vfpDpArith fpu c insn next op) := by
  unfold vfpDpArith
  dsimp only
  split
  · exact .refuse ..
  · refine .ite (fun _ ↦ .refuse ..) fun _ ↦ .ite (fun _ ↦ ?_) fun _ ↦ .ite_refuse rfl
    exact .ite (fun _ ↦ .refuse ..) fun _ ↦ .ite_refuse rfl

theorem untouched_vfpDpOther : Untouched Core.calm c (vfpDpOther fpu c insn next) := by
  have hmove : Untouched Core.calm c (vfpMoveSqrt fpu c insn next) := by
    unfold vfpMoveSqrt
    refine .ite (fun _ ↦ .refuse ..) fun _ ↦ .ite (fun _ ↦ ?_) fun _ ↦ .ite_refuse rfl
    exact .ite (fun _ ↦ .refuse ..) fun _ ↦ .ite_refuse rfl
  have hcompare : Untouched Core.calm c (vfpCompare fpu c insn next) := by
    unfold vfpCompare
    refine .ite (fun _ ↦ .refuse ..) fun _ ↦ .ite (fun _ ↦ .ite (fun _ ↦ .refuse ..) fun _ ↦ ?_)
      fun _ ↦ ?_
    · rfl
    · rfl
  have hconvert : Untouched Core.calm c (vfpConvert fpu c insn next) := by
    unfold vfpConvert
    refine .ite (fun _ ↦ .refuse ..) fun _ ↦ .ite (fun _ ↦ ?_) fun _ ↦ .ite_refuse rfl
    exact .ite (fun _ ↦ .refuse ..) fun _ ↦ .ite_refuse rfl
  have hfromInt : Untouched Core.calm c (vfpFromInt fpu c insn next) := by
    unfold vfpFromInt
    exact .ite (fun _ ↦ .refuse ..) fun _ ↦ .ite (fun _ ↦ .ite_refuse rfl) fun _ ↦ rfl
  have htoInt : Untouched Core.calm c (vfpToInt fpu c insn next) := by
    unfold vfpToInt
    exact .ite (fun _ ↦ .refuse ..) fun _ ↦ .ite_refuse rfl
  unfold vfpDpOther
  refine .ite (fun _ ↦ hmove) fun _ ↦ .ite (fun _ ↦ hcompare) fun _ ↦ ?_
  refine .ite (fun _ ↦ hconvert) fun _ ↦ .ite (fun _ ↦ hfromInt) fun _ ↦ ?_
  exact .ite (fun _ ↦ htoInt) fun _ ↦ .refuse ..

theorem untouched_vfpDp : Untouched Core.calm c (vfpDp fpu c insn next) := by
  unfold vfpDp
  refine .ite (fun _ ↦ .ite (fun _ ↦ untouched_vfpDpOther) fun _ ↦ .refuse ..) fun _ ↦ ?_
  exact untouched_vfpDpArith

theorem untouched_thumbShiftAdd {insn : Half} : Untouched Core.still c (thumbShiftAdd c insn next) := by
  unfold thumbShiftAdd
  refine .ite (fun _ ↦ ?_) fun _ ↦ still_aluLogicFlags ..
  dsimp only
  split <;> simp [Untouched, Core.done]

theorem untouched_thumbImmediate {insn : Half} : Untouched Core.still c (thumbImmediate c insn next) := by
  unfold thumbImmediate
  refine .ite (fun _ ↦ still_aluLogicFlags ..) fun _ ↦ .ite (fun _ ↦ still_aluSub ..) fun _ ↦ ?_
  dsimp only
  split <;> simp [Untouched, Core.done]

theorem untouched_thumbAlu {insn : Half} : Untouched Core.still c (thumbAlu c insn next) := by
  have hlogic (res : Word) (carry : Bool) : Untouched Core.still c
      ((aluLogicFlags (c.setR (tb insn 0) res) res carry true).done next) := still_aluLogicFlags ..
  have hshift (x : Word × Bool) : Untouched Core.still c
      ((aluLogicFlags (c.setR (tb insn 0) x.1) x.1 x.2 true).done next) := still_aluLogicFlags ..
  have hadd (a b : Word) (cin : Bool) : Untouched Core.still c
      (((aluAdd c a b cin true).2.setR (tb insn 0) (aluAdd c a b cin true).1).done next) :=
    still_aluAdd ..
  have hcompare (a b : Word) (cin : Bool) : Untouched Core.still c ((aluAdd c a b cin true).2.done next) :=
    still_aluAdd ..
  have htest (res : Word) (carry : Bool) : Untouched Core.still c
      ((aluLogicFlags c res carry true).done next) := still_aluLogicFlags ..
  unfold thumbAlu
  refine .ite (fun _ ↦ hlogic _ _) fun _ ↦ .ite (fun _ ↦ hlogic _ _) fun _ ↦ ?_
  refine .ite (fun _ ↦ hshift _) fun _ ↦ .ite (fun _ ↦ hshift _) fun _ ↦ ?_
  refine .ite (fun _ ↦ hshift _) fun _ ↦ .ite (fun _ ↦ hadd _ _ _) fun _ ↦ ?_
  refine .ite (fun _ ↦ hadd _ _ _) fun _ ↦ .ite (fun _ ↦ hshift _) fun _ ↦ ?_
  refine .ite (fun _ ↦ htest _ _) fun _ ↦ .ite (fun _ ↦ hadd _ _ _) fun _ ↦ ?_
  refine .ite (fun _ ↦ hcompare _ _ _) fun _ ↦ .ite (fun _ ↦ hcompare _ _ _) fun _ ↦ ?_
  refine .ite (fun _ ↦ hlogic _ _) fun _ ↦ .ite (fun _ ↦ rfl) fun _ ↦ ?_
  exact .ite (fun _ ↦ hlogic _ _) fun _ ↦ hlogic _ _

theorem untouched_thumbHighRegister {insn : Half} :
    Untouched Core.still c (thumbHighRegister c pc insn next) := by
  unfold thumbHighRegister
  refine .ite (fun _ ↦ .ite (fun _ ↦ rfl) fun _ ↦ rfl) fun _ ↦ .ite (fun _ ↦ rfl) fun _ ↦ ?_
  refine .ite (fun _ ↦ .ite (fun _ ↦ rfl) fun _ ↦ rfl) fun _ ↦ .ite (fun _ ↦ .refuse ..) fun _ ↦ ?_
  simp [Untouched, Core.done]

theorem untouched_thumbBranch {insn : Half} : Untouched Core.still c (thumbBranch c pc insn) := by
  unfold thumbBranch
  exact .ite (fun _ ↦ rfl) fun _ ↦ rfl

theorem untouched_thumbBranchLink {insn : Half} :
    Untouched Core.still c (thumbBranchLink c pc insn next) := by
  unfold thumbBranchLink
  exact .ite (fun _ ↦ rfl) fun _ ↦ rfl

theorem untouched_execCps : Untouched Core.still c (execCps c insn next) := by
  unfold execCps
  refine .ite (fun _ ↦ rfl) fun _ ↦ .ite (fun _ ↦ .refuse ..) fun _ ↦ ?_
  simp [Untouched, Core.done]

theorem untouched_execBlxImmediate : Untouched Core.still c (execBlxImmediate c pc insn) := rfl

end S5LBox.Arm
