import S5LBox.Arm.SoundRegister

/-!
# Exception entry

What `take_exception` does to the core, whatever the vector: the mode, T and the banks it
changes, and the fields it leaves alone.
-/

namespace S5LBox.Arm

variable {c : Core} {vector mode ret : Word} {maskFiq : Bool}

theorem cpsr_setFlag_and {flag mask : Word} (h : flag &&& mask = 0) (c : Core) (on : Bool) :
    (c.setFlag flag on).cpsr &&& mask = c.cpsr &&& mask := by
  cases on
  · exact clear_and_of_disjoint _ h
  · exact or_and_of_disjoint _ h

/-- The CPSR changes of an exception entry, after the mode is set. -/
def maskInterrupts (c : Core) (vector : Word) (maskFiq : Bool) : Core :=
  let c := c.setFlag cpsrI true
  let c := if maskFiq then c.setFlag cpsrF true else c
  let c :=
    if vector = vecPrefetch ∨ vector = vecDataAbort ∨ vector = vecIrq ∨ vector = vecFiq then
      c.setFlag cpsrA true
    else c
  (c.setFlag cpsrT false).setFlag cpsrE (c.cp15.sctlr &&& sctlrEe ≠ 0)

theorem maskInterrupts_eq (c : Core) (vector : Word) (maskFiq : Bool) :
    maskInterrupts c vector maskFiq =
      { c with cpsr := (maskInterrupts c vector maskFiq).cpsr } := by
  unfold maskInterrupts
  simp only
  split <;> split <;> rfl

theorem mode_maskInterrupts (c : Core) (vector : Word) (maskFiq : Bool) :
    (maskInterrupts c vector maskFiq).cpsr &&& cpsrModeMask = c.cpsr &&& cpsrModeMask := by
  unfold maskInterrupts
  simp only
  rw [cpsr_setFlag_and (by decide), cpsr_setFlag_and (by decide)]
  split <;> split <;> simp only [cpsr_setFlag_and (show cpsrA &&& cpsrModeMask = 0 by decide),
    cpsr_setFlag_and (show cpsrF &&& cpsrModeMask = 0 by decide),
    cpsr_setFlag_and (show cpsrI &&& cpsrModeMask = 0 by decide)]

theorem thumb_maskInterrupts (c : Core) (vector : Word) (maskFiq : Bool) :
    (maskInterrupts c vector maskFiq).cpsr &&& cpsrT = 0 := by
  unfold maskInterrupts
  simp only
  rw [cpsr_setFlag_and (by decide)]
  exact clearT_eq_zero _

/-- The vector table is at one of two word addresses. -/
def vectorAddress (c : Core) (vector : Word) : Word :=
  (if c.cp15.sctlr &&& sctlrV ≠ 0 then 0xffff0000 else 0) + vector

theorem vectorAddress_and_three (c : Core) (h : vector &&& 3 = 0) :
    vectorAddress c vector &&& 3 = 0 := by
  have hbase : ((0xffff0000 : Word) + vector) &&& 3 = 0 := by
    rw [and_three_eq_zero_iff] at *
    have hvalue : (0xffff0000 : Word).toNat = 0xffff0000 := rfl
    rw [BitVec.toNat_add, hvalue]
    omega
  unfold vectorAddress
  split
  · exact hbase
  · have hzero : (0 : Word) + vector = vector := BitVec.zero_add vector
    rwa [hzero]

/-- The core an exception enters its mode with: the mode set, SPSR and LR written. -/
def linked (c : Core) (mode ret : Word) : Core :=
  let saved := c.cpsr
  let c := armSetMode c mode
  let c := { c with spsr := Function.update c.spsr (armBankOfMode mode) saved }
  c.setR 14 ret

/-- The core after the CPSR is masked. -/
def entered (c : Core) (vector mode ret : Word) (maskFiq : Bool) : Core :=
  maskInterrupts (linked c mode ret) vector maskFiq

theorem takeException_eq (c : Core) (vector mode ret : Word) (maskFiq : Bool) :
    takeException c vector mode ret maskFiq =
      ({ entered c vector mode ret maskFiq with
          exclValid := false
          taken := vector :: (entered c vector mode ret maskFiq).taken },
        vectorAddress (entered c vector mode ret maskFiq) vector) := rfl

/-- What an exception leaves alone or sets, whatever its vector. -/
structure Excepted (vector mode : Word) (c c' : Core) : Prop where
  latch : c'.abortPending = c.abortPending
  cp15 : c'.cp15 = c.cp15
  taken : c'.taken = vector :: c.taken
  mode : armModeIsValid mode = true → c'.cpsr &&& cpsrModeMask = mode &&& cpsrModeMask
  thumb : c'.cpsr &&& cpsrT = 0

theorem excepted_takeException (c : Core) (vector mode ret : Word) (maskFiq : Bool) :
    Excepted vector mode c (takeException c vector mode ret maskFiq).1 := by
  obtain ⟨hlatch, hcp15, -, htaken⟩ := rest_armSetMode c mode
  have heq := maskInterrupts_eq (linked c mode ret) vector maskFiq
  rw [takeException_eq]
  unfold entered
  refine ⟨?_, ?_, ?_, fun hvalid ↦ ?_, thumb_maskInterrupts ..⟩
  · rw [heq]
    exact hlatch
  · rw [heq]
    exact hcp15
  · rw [heq]
    exact congrArg (vector :: ·) htaken
  · have hlinked : (linked c mode ret).cpsr = (armSetMode c mode).cpsr := rfl
    refine (mode_maskInterrupts ..).trans ?_
    rw [hlinked, cpsr_armSetMode, if_pos hvalid]
    exact merge_and_mask ..

theorem takeException_next (c : Core) {vector : Word} (mode ret : Word) (maskFiq : Bool)
    (h : vector &&& 3 = 0) : (takeException c vector mode ret maskFiq).2 &&& 3 = 0 :=
  vectorAddress_and_three _ h

theorem enterException_eq (c : Core) (vector mode ret : Word) (maskFiq : Bool) :
    enterException c vector mode ret maskFiq = (takeException c vector mode ret maskFiq).1.setR 15
        (takeException c vector mode ret maskFiq).2 := rfl

theorem excepted_enterException (c : Core) (vector mode ret : Word) (maskFiq : Bool) :
    Excepted vector mode c (enterException c vector mode ret maskFiq) :=
  have h := excepted_takeException c vector mode ret maskFiq
  ⟨h.latch, h.cp15, h.taken, h.mode, h.thumb⟩

theorem enterException_pc (c : Core) {vector : Word} (mode ret : Word) (maskFiq : Bool)
    (h : vector &&& 3 = 0) : (enterException c vector mode ret maskFiq).r 15 &&& 3 = 0 := by
  rw [enterException_eq, Core.setR_self]
  exact takeException_next _ _ _ _ h

end S5LBox.Arm
