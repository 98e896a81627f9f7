import S5LBox.Arm.Encoding
import S5LBox.Arm.Execution

/-!
# Thumb instructions as ARM instructions

The architecture gives the Thumb instructions that compute, extend, reverse and transfer one
register by the ARM instructions that do the same: `armEquivalent` is that table. `thumb_step` does
them by itself and not through the functions of the ARM set. Where the PC is read, it reads as
four past the Thumb instruction, which is what an ARM instruction four below it would read.
-/

namespace S5LBox.Arm

open Words

/-- The register of the formats with an octet. -/
def tb8 (insn : Half) : Reg := (insn.extractLsb' 8 3).setWidth 4

/-- `MOVS rd, rm` shifted by an immediate, and additions and subtractions with three operands. -/
def armShiftAdd (insn : Half) : Word :=
  let rd := tb insn 0
  let rs := tb insn 3
  if insn &&& 0xf800 = 0x1800 then
    let opcode : BitVec 4 := if tbit insn 9 then 0b0010 else 0b0100
    if tbit insn 10 then
      armDp true opcode true rs rd (operandImm ((insn.extractLsb' 6 3).setWidth 8))
    else armDp false opcode true rs rd (operandShift (tb insn 6) 0 0)
  else
    armDp false 0b1101 true 0 rd
      (operandShift rs (insn.extractLsb' 11 2) (insn.extractLsb' 6 5))

/-- MOVS, CMP, ADDS and SUBS with an octet. -/
def armImmediate (insn : Half) : Word :=
  let r := tb8 insn
  let imm := operandImm (insn.extractLsb' 0 8)
  let op := insn.extractLsb' 11 2
  if op = 0 then armDp true 0b1101 true 0 r imm
  else if op = 1 then armDp true 0b1010 true r 0 imm
  else if op = 2 then armDp true 0b0100 true r r imm
  else armDp true 0b0010 true r r imm

/-- The operations on two registers: the first operand is the destination, except that NEG is a
reverse subtraction from zero, and MVN and the shifts are moves. -/
def armAlu (insn : Half) : Word :=
  let rd := tb insn 0
  let rm := tb insn 3
  let plain (opcode : BitVec 4) : Word := armDp false opcode true rd rd (operandShift rm 0 0)
  let compare (opcode : BitVec 4) : Word := armDp false opcode true rd 0 (operandShift rm 0 0)
  let shift (type : BitVec 2) : Word := armDp false 0b1101 true 0 rd (operandShiftReg rd type rm)
  let op := insn.extractLsb' 6 4
  if op = 0x0 then plain 0b0000
  else if op = 0x1 then plain 0b0001
  else if op = 0x2 then shift 0
  else if op = 0x3 then shift 1
  else if op = 0x4 then shift 2
  else if op = 0x5 then plain 0b0101
  else if op = 0x6 then plain 0b0110
  else if op = 0x7 then shift 3
  else if op = 0x8 then compare 0b1000
  else if op = 0x9 then armDp true 0b0011 true rm rd (operandImm 0)
  else if op = 0xa then compare 0b1010
  else if op = 0xb then compare 0b1011
  else if op = 0xc then plain 0b1100
  else if op = 0xd then armMuls rd rm rd
  else if op = 0xe then plain 0b1110
  else armDp false 0b1111 true 0 rd (operandShift rm 0 0)

/-- ADD, CMP and MOV of high registers; only the comparison sets flags. The forms that write the
PC are branches, and BX and BLX are no data processing. -/
def armHighRegister (insn : Half) : Option Word :=
  let rd : Reg := BitVec.ofBool (tbit insn 7) ++ insn.extractLsb' 0 3
  let rs : Reg := BitVec.ofBool (tbit insn 6) ++ insn.extractLsb' 3 3
  let op := insn.extractLsb' 8 2
  if op = 0 then if rd = 15 then none else some (armDp false 0b0100 false rd rd (operandShift rs 0 0))
  else if op = 1 then some (armDp false 0b1010 true rd 0 (operandShift rs 0 0))
  else if op = 2 then
    if rd = 15 then none else some (armDp false 0b1101 false 0 rd (operandShift rs 0 0))
  else none

/-- Transfers at the sum of two registers. -/
def armTransferRegister (insn : Half) : Word :=
  let rd := tb insn 0
  let rn := tb insn 3
  let rm := tb insn 6
  let op := insn.extractLsb' 10 2
  if tbit insn 9 then
    if op = 0 then armExtra false false rn rd 0 0b01 rm
    else if op = 1 then armExtra false true rn rd 0 0b10 rm
    else if op = 2 then armExtra false true rn rd 0 0b01 rm
    else armExtra false true rn rd 0 0b11 rm
  else armSingle true (tbit insn 10) (tbit insn 11) rn rd (operandShift rm 0 0)

/-- Transfers at an immediate offset, in units of what is transferred. -/
def armTransferImmediate (insn : Half) : Word :=
  let imm5 := insn.extractLsb' 6 5
  let offset : BitVec 12 := if tbit insn 12 then imm5.setWidth 12 else imm5.setWidth 12 <<< 2
  armSingle false (tbit insn 12) (tbit insn 11) (tb insn 3) (tb insn 0) offset

def armTransferHalf (insn : Half) : Word :=
  let offset : Octet := (insn.extractLsb' 6 5).setWidth 8 <<< 1
  armExtra true (tbit insn 11) (tb insn 3) (tb insn 0) (offset.extractLsb' 4 4) 0b01
    (offset.extractLsb' 0 4)

def armTransferSp (insn : Half) : Word :=
  armSingle false false (tbit insn 11) 13 (tb8 insn) ((insn.extractLsb' 0 8).setWidth 12 <<< 2)

/-- SXTH, SXTB, UXTH and UXTB. -/
def armExtendWord (insn : Half) : Word :=
  let op := insn.extractLsb' 6 2
  let code : BitVec 4 := if op = 0 then 0b1011 else if op = 1 then 0b1010
    else if op = 2 then 0b1111 else 0b1110
  armExtend code (tb insn 0) (tb insn 3)

/-- REV, REV16 and REVSH; the encoding between them is undefined. -/
def armReverseWord (insn : Half) : Option Word :=
  let op := insn.extractLsb' 6 2
  if op = 0 then some (armReverse 0b1011 0b0011 (tb insn 0) (tb insn 3))
  else if op = 1 then some (armReverse 0b1011 0b1011 (tb insn 0) (tb insn 3))
  else if op = 2 then none
  else some (armReverse 0b1111 0b1011 (tb insn 0) (tb insn 3))

/-- The ARM instruction the architecture defines as the equivalent of a Thumb instruction of the
groups that have one. -/
def armEquivalent (insn : Half) : Option Word :=
  let op := insn.extractLsb' 12 4
  if op = 0x0 ∨ op = 0x1 then some (armShiftAdd insn)
  else if op = 0x2 ∨ op = 0x3 then some (armImmediate insn)
  else if insn &&& 0xfc00 = 0x4000 then some (armAlu insn)
  else if insn &&& 0xfc00 = 0x4400 then armHighRegister insn
  else if op = 0x5 then some (armTransferRegister insn)
  else if op = 0x6 ∨ op = 0x7 then some (armTransferImmediate insn)
  else if op = 0x8 then some (armTransferHalf insn)
  else if op = 0x9 then some (armTransferSp insn)
  else if insn &&& 0xff00 = 0xb200 then some (armExtendWord insn)
  else if insn &&& 0xff00 = 0xba00 then armReverseWord insn
  else none

variable {fpu : HostFpu} {c : Core} {pc next : Word}

variable {set carry : Bool} {opcode : BitVec 4} {rn rd rm : Reg} {type : BitVec 2}

theorem execArm_armDp {imm : Bool} {operand2 : BitVec 12}
    (hset : set = true ∨ comparesOnly opcode = false)
    (hplain : imm = true ∨ operand2.getLsbD 4 = false ∨ operand2.getLsbD 7 = false) :
    execArm fpu c pc (armDp imm opcode set rn rd operand2) next =
      pure (execDataProcessing c pc (armDp imm opcode set rn rd operand2) next) := by
  have hbits : bit (armDp imm opcode set rn rd operand2) 23 = opcode.getLsbD 2 ∧
      bit (armDp imm opcode set rn rd operand2) 24 = opcode.getLsbD 3 := by
    simp (disch := omega) only [bit, armDp, getLsbD_append_of_lt, getLsbD_append_of_le]
    simp
  obtain ⟨-, himm, hs, -, -⟩ := @armDp_fields imm set opcode rn rd operand2
  have hclass := @armDp_masks imm set opcode rn rd operand2
  have hmisc : armDp imm opcode set rn rd operand2 &&& 0x01900000 ≠ 0x01000000 := by
    obtain rfl | hcompare := hset
    · exact ne_of_bit (k := 20) rfl (by rw [hs]; decide)
    · have hcases : ∀ opcode : BitVec 4, comparesOnly opcode = false →
          opcode.getLsbD 3 = false ∨ opcode.getLsbD 2 = true := by decide
      obtain hlow | hhigh := hcases opcode hcompare
      · exact ne_of_bit (k := 24) rfl (by rw [hbits.2, hlow]; decide)
      · exact ne_of_bit (k := 23) rfl (by rw [hbits.1, hhigh]; decide)
  have hextension : ¬(armDp imm opcode set rn rd operand2 &&& 0x0e000000 = 0 ∧
      armDp imm opcode set rn rd operand2 &&& 0x00000090 = 0x00000090) := by
    rintro ⟨hzero, hninety⟩
    obtain rfl | hfour | hseven := hplain
    · exact ne_of_bit (k := 25) rfl (by rw [himm]; decide) hzero
    · exact ne_of_bit (k := 4) rfl (by rw [armDp_bit (by decide), hfour]; decide) hninety
    · exact ne_of_bit (k := 7) rfl (by rw [armDp_bit (by decide), hseven]; decide) hninety
  rw [execArm]
  simp only [hclass, hmisc, hextension, ne_eq, not_false_eq_true, and_self, if_true]

theorem execDataProcessing_armDp {imm : Bool} {operand2 : BitVec 12} (hrd : rd ≠ 15)
    (hset : set = true ∨ (imm = false ∧ comparesOnly opcode = false))
    (hregs : imm = true ∨ operand2.getLsbD 4 = false ∨
      (rn ≠ 15 ∧ operand2.extractLsb' 0 4 ≠ 15 ∧ operand2.extractLsb' 8 4 ≠ 15)) :
    execDataProcessing c pc (armDp imm opcode set rn rd operand2) next =
      let op2 := dpOperand2 c pc (armDp imm opcode set rn rd operand2) (c.getFlag cpsrC)
      let res := dpResult c opcode (c.regRead pc rn) op2.1 op2.2 set
      (if comparesOnly opcode then res.2 else res.2.setR rd res.1).done next := by
  obtain ⟨hopcode, himm, hs, hrn, hrd'⟩ := @armDp_fields imm set opcode rn rd operand2
  have hwide : ¬(c.arch = .v7Swift ∧
      armDp imm opcode set rn rd operand2 &&& 0x0fb00000 = 0x03000000) := by
    rintro ⟨-, hwide⟩
    obtain rfl | ⟨rfl, -⟩ := hset
    · exact ne_of_bit (k := 20) rfl (by rw [hs]; decide) hwide
    · exact ne_of_bit (k := 25) rfl (by rw [himm]; decide) hwide
  have hmisc : ¬(comparesOnly opcode = true ∧ (!set) = true) := by
    rintro ⟨hcompare, hclear⟩
    obtain rfl | ⟨-, hnot⟩ := hset
    · exact absurd hclear (by decide)
    · rw [hnot] at hcompare
      exact absurd hcompare (by decide)
  have hshift : ¬((!imm) = true ∧ bit (armDp imm opcode set rn rd operand2) 4 = true ∧
      (rd = 15 ∨ rn = 15 ∨ field4 (armDp imm opcode set rn rd operand2) 0 = 15 ∨
        field4 (armDp imm opcode set rn rd operand2) 8 = 15)) := by
    rw [field4, field4, armDp_low (by decide), armDp_low (by decide), armDp_bit (by decide)]
    rintro ⟨hreg, hfour, hbad⟩
    obtain rfl | hclear | ⟨hrn', hrm, hrs⟩ := hregs
    · exact absurd hreg (by decide)
    · rw [hclear] at hfour
      exact absurd hfour (by decide)
    · tauto
  rw [execDataProcessing]
  simp only [hopcode, himm, hs, hrn, hrd']
  rw [if_neg hwide, if_neg hmisc, if_neg hshift, if_neg (fun h ↦ hrd h.2.1)]
  split <;> simp_all

theorem dpOperand2_imm (imm : Octet) :
    dpOperand2 c pc (armDp true opcode set rn rd (operandImm imm)) carry =
      (imm.setWidth 32, carry) := by
  have hrot : field4 (armDp true opcode set rn rd (operandImm imm)) 8 = 0 := by
    rw [field4, armDp_low (by decide), operandImm, BitVec.extractLsb'_append_eq_of_le (by decide)]
    rfl
  have hlow : armDp true opcode set rn rd (operandImm imm) &&& 0xff = imm.setWidth 32 := by
    have hoctet : (armDp true opcode set rn rd (operandImm imm)).setWidth 8 = imm := by
      apply BitVec.eq_of_getLsbD_eq
      intro k hk
      have hset := @armDp_bit true set opcode rn rd (operandImm imm) k (by omega)
      rw [bit, operandImm, getLsbD_append_of_lt hk] at hset
      rw [BitVec.getLsbD_setWidth, operandImm, hset, decide_eq_true hk, Bool.true_and]
    rw [@and_eq_setWidth 32 8 0xff (by decide), hoctet]
  rw [dpOperand2, if_pos (armDp_fields.2.1), hrot, hlow]
  rfl

theorem dpOperand2_shift {amount : BitVec 5} :
    dpOperand2 c pc (armDp false opcode set rn rd (operandShift rm type amount)) carry =
      barrelShift (c.regRead pc rm) type amount.toNat false carry := by
  obtain ⟨hrm, htype, hamount, hfour⟩ := @operandShift_fields type rm amount
  rw [dpOperand2, armDp_fields.2.1, armDp_bit (by decide), field4, field4, armDp_low (by decide),
    armDp_low (by decide), armDp_low (by decide), armDp_low (by decide), hrm, htype, hamount, hfour]
  rfl

theorem dpOperand2_shiftReg {rs : Reg} :
    dpOperand2 c pc (armDp false opcode set rn rd (operandShiftReg rm type rs)) carry =
      barrelShift (c.regRead pc rm) type (c.regRead pc rs &&& 0xff).toNat true carry := by
  obtain ⟨hrm, htype, hrs, hfour, -⟩ := @operandShiftReg_fields type rm rs
  rw [dpOperand2, armDp_fields.2.1, armDp_bit (by decide), field4, field4, armDp_low (by decide),
    armDp_low (by decide), armDp_low (by decide), armDp_low (by decide), hrm, htype, hrs, hfour]
  rfl

/-- Data processing with its operands read. -/
def dpDone (c : Core) (opcode : BitVec 4) (rd : Reg) (a : Word) (op2 : Word × Bool) (set : Bool)
    (next : Word) : Outcome :=
  let res := dpResult c opcode a op2.1 op2.2 set
  (if comparesOnly opcode then res.2 else res.2.setR rd res.1).done next

theorem execArm_imm {imm : Octet} (hrd : rd ≠ 15) :
    execArm fpu c pc (armDp true opcode true rn rd (operandImm imm)) next =
      pure (dpDone c opcode rd (c.regRead pc rn) (imm.setWidth 32, c.getFlag cpsrC) true next) := by
  rw [execArm_armDp (.inl rfl) (.inl rfl), execDataProcessing_armDp hrd (.inl rfl) (.inl rfl),
    dpOperand2_imm]
  rfl

theorem execArm_shift {amount : BitVec 5} (hrd : rd ≠ 15)
    (hset : set = true ∨ comparesOnly opcode = false) :
    execArm fpu c pc (armDp false opcode set rn rd (operandShift rm type amount)) next =
      pure (dpDone c opcode rd (c.regRead pc rn)
        (barrelShift (c.regRead pc rm) type amount.toNat false (c.getFlag cpsrC)) set next) := by
  have hfour := (@operandShift_fields type rm amount).2.2.2
  rw [execArm_armDp hset (.inr (.inl hfour)),
    execDataProcessing_armDp hrd (hset.imp_right fun h ↦ ⟨rfl, h⟩) (.inr (.inl hfour)),
    dpOperand2_shift]
  rfl

theorem execArm_shiftReg {rs : Reg} (hrd : rd ≠ 15) (hrn : rn ≠ 15) (hrm : rm ≠ 15)
    (hrs : rs ≠ 15) :
    execArm fpu c pc (armDp false opcode true rn rd (operandShiftReg rm type rs)) next =
      pure (dpDone c opcode rd (c.regRead pc rn)
        (barrelShift (c.regRead pc rm) type (c.regRead pc rs &&& 0xff).toNat true
          (c.getFlag cpsrC)) true next) := by
  obtain ⟨hrm', -, hrs', -, hseven⟩ := @operandShiftReg_fields type rm rs
  rw [execArm_armDp (.inl rfl) (.inr (.inr hseven)),
    execDataProcessing_armDp hrd (.inl rfl) (.inr (.inr ⟨hrn, by rwa [hrm'], by rwa [hrs']⟩)),
    dpOperand2_shiftReg]
  rfl

theorem execArm_armMuls {rs : Reg} : execArm fpu c pc (armMuls rd rm rs) next =
      pure (((c.setR rd (c.regRead pc rm * c.regRead pc rs)).setNz
        (c.regRead pc rm * c.regRead pc rs)).done next) := by
  obtain ⟨hrd, hrm, hrs, hs, hacc⟩ := @armMuls_fields rd rm rs
  obtain ⟨hzero, hninety, hmultiply⟩ := @armMuls_masks rd rm rs
  have hbranch : armMuls rd rm rs &&& 0x0f000000 ≠ 0x0a000000 :=
    ne_of_and_eq hzero (k := 27) rfl rfl (by decide)
  have hlink : armMuls rd rm rs &&& 0x0f000000 ≠ 0x0b000000 :=
    ne_of_and_eq hzero (k := 27) rfl rfl (by decide)
  rw [execArm]
  simp only [hzero, hninety, hbranch, hlink, hmultiply, and_self, not_true_eq_false, and_false,
    or_self, if_false, if_true]
  rw [execMultiply, hrd, hrm, hrs, hs, hacc]
  rfl

theorem execArm_armSingle {reg byte load : Bool} {rn rd rm : Reg} {offset : BitVec 12}
    (hrd : rd ≠ 15) (hrm : reg = true → offset = operandShift rm 0 0 ∧ rm ≠ 15) :
    let addr := c.regRead pc rn + if reg then c.regRead pc rm else offset.setWidth 32
    let width : Width := if byte then .byte else .word
    execArm fpu c pc (armSingle reg byte load rn rd offset) next =
      if load then thumbLoad width id c rd addr next else thumbStore width c rd addr next := by
  obtain ⟨hrn', hrd', hreg, hp, hu, hb, hw, hl⟩ := @armSingle_fields reg byte load rn rd offset
  have hclass := @armSingle_masks reg byte load rn rd offset
  have hlow : field4 (armSingle reg byte load rn rd offset) 0 = offset.extractLsb' 0 4 := by
    rw [field4, armSingle_low (by decide)]
  have htype : (armSingle reg byte load rn rd offset).extractLsb' 5 2 = offset.extractLsb' 5 2 :=
    armSingle_low (by decide)
  have hamount : (armSingle reg byte load rn rd offset).extractLsb' 7 5 = offset.extractLsb' 7 5 :=
    armSingle_low (by decide)
  have hfour : bit (armSingle reg byte load rn rd offset) 4 = offset.getLsbD 4 := by
    rw [bit, armSingle, getLsbD_append_of_lt (by decide)]
  have himm : armSingle reg byte load rn rd offset &&& 0xfff = offset.setWidth 32 := by
    rw [@and_eq_setWidth 32 12 0xfff (by decide), armSingle, BitVec.setWidth_append_eq_right]
  generalize armSingle reg byte load rn rd offset = insn at *
  have hdata : ¬insn &&& 0x0c000000 = 0 := by
    rw [hclass]
    decide
  have hbranch : insn &&& 0x0f000000 ≠ 0x0a000000 := ne_of_and_eq hclass (k := 26) rfl rfl (by decide)
  have hlink : insn &&& 0x0f000000 ≠ 0x0b000000 := ne_of_and_eq hclass (k := 26) rfl rfl (by decide)
  have hmultiply : insn &&& 0x0fc000f0 ≠ 0x00000090 :=
    ne_of_and_eq hclass (k := 26) rfl rfl (by decide)
  have hlong : insn &&& 0x0f8000f0 ≠ 0x00800090 :=
    ne_of_and_eq hclass (k := 26) rfl rfl (by decide)
  have hdsp : insn &&& 0x0f900090 ≠ 0x01000080 := ne_of_and_eq hclass (k := 26) rfl rfl (by decide)
  have hmedia : ¬(insn &&& 0x0e000000 = 0x06000000 ∧ bit insn 4 = true) := by
    rintro ⟨hmedia, hset⟩
    cases reg with
    | false => exact ne_of_bit (k := 25) rfl (by rw [hreg]; decide) hmedia
    | true =>
      rw [hfour, (hrm rfl).1, operandShift_fields.2.2.2] at hset
      cases hset
  intro addr width
  have hexec : execArm fpu c pc insn next = execSingleTransfer c pc insn next := by
    rw [execArm, if_neg (fun h ↦ hdata h.1), if_neg (not_or.2 ⟨hbranch, hlink⟩),
      if_neg hmultiply, if_neg hlong, if_neg hdsp, if_neg hmedia, if_pos hclass]
  have hoffset : (if reg then (barrelShift (c.regRead pc (offset.extractLsb' 0 4))
      (offset.extractLsb' 5 2) (offset.extractLsb' 7 5).toNat false (c.getFlag cpsrC)).1
      else insn &&& 0xfff) = if reg then c.regRead pc rm else offset.setWidth 32 := by
    cases reg with
    | false => exact himm
    | true =>
      obtain ⟨hrm', htype', hamount', -⟩ := @operandShift_fields 0 rm 0
      rw [(hrm rfl).1, hrm', htype', hamount']
      rfl
  have hlegal : ¬(reg = true ∧ offset.extractLsb' 0 4 = 15) := by
    rintro ⟨rfl, hpc⟩
    rw [(hrm rfl).1, operandShift_fields.1] at hpc
    exact (hrm rfl).2 hpc
  rw [hexec, execSingleTransfer]
  simp only [hrn', hrd', hreg, hp, hu, hb, hw, hl, hlow, htype, hamount, hoffset, hlegal, hrd,
    Bool.not_true, Bool.or_self, Bool.false_and, false_and, and_false, or_self, if_false, if_true,
    Bool.false_eq_true, Bool.not_true, commitLoad]
  cases load with
  | true =>
    rw [thumbLoad, if_pos rfl, if_pos rfl]
    refine congrArg _ (funext fun read ↦ ?_)
    split <;> simp_all
  | false =>
    rw [if_neg Bool.false_ne_true, if_neg Bool.false_ne_true, thumbStore]
    refine congrArg _ (funext fun c ↦ ?_)
    split <;> rfl

theorem execArm_armSingle_imm {byte load : Bool} {offset : BitVec 12} (hrd : rd ≠ 15) :
    let addr := c.regRead pc rn + offset.setWidth 32
    let width : Width := if byte then .byte else .word
    execArm fpu c pc (armSingle false byte load rn rd offset) next =
      if load then thumbLoad width id c rd addr next else thumbStore width c rd addr next :=
  @execArm_armSingle fpu c pc next false byte load rn rd 0 offset hrd
    fun h ↦ absurd h Bool.false_ne_true

theorem execArm_armExtra {imm load : Bool} {high low : BitVec 4} {sh : BitVec 2} (hrd : rd ≠ 15)
    (hsh : sh = 1 ∨ (load = true ∧ sh = 2) ∨ (load = true ∧ sh = 3))
    (hreg : imm = false → high = 0 ∧ low ≠ 15) :
    let addr := c.regRead pc rn + if imm then (high ++ low).setWidth 32 else c.regRead pc low
    execArm fpu c pc (armExtra imm load rn rd high sh low) next =
      if sh ≠ 2 ∧ legacyHalfwordUnpredictable c addr then pure (c.refuse next)
      else if load then
        if sh = 1 then thumbLoad .half id c rd addr next
        else if sh = 2 then thumbLoad .byte signByte c rd addr next
        else thumbLoad .half signHalf c rd addr next
      else thumbStore .half c rd addr next := by
  obtain ⟨hrn', hrd', hhigh, hlow, hsh', hp, hu, hi, hw, hl⟩ :=
    @armExtra_fields imm load high low sh rn rd
  obtain ⟨hzero, hninety⟩ := @armExtra_masks imm load high low sh rn rd
  generalize armExtra imm load rn rd high sh low = insn at *
  have hdata : ¬(insn &&& 0x0c000000 = 0 ∧ insn &&& 0x01900000 ≠ 0x01000000 ∧
      ¬(insn &&& 0x0e000000 = 0 ∧ insn &&& 0x00000090 = 0x00000090)) :=
    fun h ↦ h.2.2 ⟨hzero, hninety⟩
  have hbranch : insn &&& 0x0f000000 ≠ 0x0a000000 := ne_of_and_eq hzero (k := 27) rfl rfl (by decide)
  have hlink : insn &&& 0x0f000000 ≠ 0x0b000000 := ne_of_and_eq hzero (k := 27) rfl rfl (by decide)
  have hmultiply : insn &&& 0x0fc000f0 ≠ 0x00000090 := ne_of_bit (k := 24) rfl (by rw [hp]; decide)
  have hlong : insn &&& 0x0f8000f0 ≠ 0x00800090 := ne_of_bit (k := 24) rfl (by rw [hp]; decide)
  have hdsp : insn &&& 0x0f900090 ≠ 0x01000080 := ne_of_bit (k := 23) rfl (by rw [hu]; decide)
  have hmedia : ¬(insn &&& 0x0e000000 = 0x06000000 ∧ bit insn 4 = true) :=
    fun h ↦ ne_of_and_eq hzero (k := 26) rfl rfl (by decide) h.1
  have hsingle : insn &&& 0x0c000000 ≠ 0x04000000 := ne_of_and_eq hzero (k := 26) rfl rfl (by decide)
  have hblock : insn &&& 0x0e000000 ≠ 0x08000000 := ne_of_and_eq hzero (k := 27) rfl rfl (by decide)
  have hextra : insn &&& 0x00000060 ≠ 0 := by
    intro hnone
    have hfive : insn.getLsbD 5 = false := bit_of_and_eq hnone (k := 5) rfl
    have hsix : insn.getLsbD 6 = false := bit_of_and_eq hnone (k := 6) rfl
    have hsh0 : sh = 0 := by
      rw [← hsh']
      apply BitVec.eq_of_getLsbD_eq
      intro k hk
      interval_cases k
      · simpa using hfive
      · simpa using hsix
    obtain h | ⟨-, h⟩ | ⟨-, h⟩ := hsh <;>
      exact absurd (h.symm.trans hsh0) (by decide)
  intro addr
  have hexec : execArm fpu c pc insn next = execExtraTransfer c pc insn next := by
    rw [execArm, if_neg hdata, if_neg (not_or.2 ⟨hbranch, hlink⟩), if_neg hmultiply, if_neg hlong,
      if_neg hdsp, if_neg hmedia, if_neg hsingle, if_neg hblock,
      if_pos ⟨⟨hzero, hninety⟩, hextra⟩]
  have hlegal : ¬((!imm) = true ∧ (high ≠ 0 ∨ low = 15)) := by
    rintro ⟨himm, hbad⟩
    obtain ⟨h, h'⟩ := hreg (by simpa using himm)
    tauto
  have hdouble : (!load && decide (sh ≠ 1)) = false := by
    obtain rfl | ⟨rfl, -⟩ | ⟨rfl, -⟩ := hsh
    · simp
    · rfl
    · rfl
  have haddr : c.regRead pc rn + (if imm = true then (high ++ low).setWidth 32 else c.regRead pc low) =
      addr := rfl
  clear_value addr
  rw [hexec, execExtraTransfer]
  simp only [hrn', hrd', hi, hp, hu, hw, hl, hhigh, hlow, hsh', hlegal, hdouble, hrd, haddr,
    Bool.not_true, Bool.or_self, false_and, and_false, or_self, if_false, if_true,
    Bool.false_eq_true]
  have hread : c.regRead pc rd = c.r rd := if_neg hrd
  obtain rfl | ⟨rfl, rfl⟩ | ⟨rfl, rfl⟩ := hsh
  · by_cases hlegacy : legacyHalfwordUnpredictable c addr = true
    · simp [hlegacy]
    · cases load <;> simp [hlegacy, hread, thumbLoad, thumbStore, apply_ite]
  · simp [thumbLoad, signByte, apply_ite]
  · by_cases hlegacy : legacyHalfwordUnpredictable c addr = true
    · simp [hlegacy]
    · simp [hlegacy, thumbLoad, signHalf, apply_ite]

theorem signByte_eq (value : Word) : signByte value = signExtend8 value := by
  have hlow : value &&& 0xff = (value.setWidth 8).setWidth 32 := and_eq_setWidth (by decide) value
  rw [signByte, signExtend8, hlow]
  exact (@xor_sub_eq_signExtend 32 8 0x80 0xffffff80 _ (by decide) (by decide) (by decide)).symm

theorem signHalf_eq (value : Word) : signHalf value = signExtend16 value := by
  have hlow : value &&& 0xffff = (value.setWidth 16).setWidth 32 := and_eq_setWidth (by decide) value
  rw [signHalf, signExtend16, hlow]
  exact (@xor_sub_eq_signExtend 32 16 0x8000 0xffff8000 _ (by decide) (by decide) (by decide)).symm

theorem execArm_media {insn : Word} (h : insn &&& 0x0e000000 = 0x06000000)
    (hfour : bit insn 4 = true) : execArm fpu c pc insn next = pure (execMedia c pc insn next) := by
  have hdata : insn &&& 0x0c000000 ≠ 0 := ne_of_and_eq h (k := 26) rfl rfl (by decide)
  have hbranch : insn &&& 0x0f000000 ≠ 0x0a000000 := ne_of_and_eq h (k := 27) rfl rfl (by decide)
  have hlink : insn &&& 0x0f000000 ≠ 0x0b000000 := ne_of_and_eq h (k := 27) rfl rfl (by decide)
  have hmultiply : insn &&& 0x0fc000f0 ≠ 0x00000090 := ne_of_and_eq h (k := 26) rfl rfl (by decide)
  have hlong : insn &&& 0x0f8000f0 ≠ 0x00800090 := ne_of_and_eq h (k := 26) rfl rfl (by decide)
  have hdsp : insn &&& 0x0f900090 ≠ 0x01000080 := ne_of_and_eq h (k := 26) rfl rfl (by decide)
  rw [execArm, if_neg fun h ↦ hdata h.1, if_neg (not_or.2 ⟨hbranch, hlink⟩), if_neg hmultiply,
    if_neg hlong, if_neg hdsp, if_pos ⟨h, hfour⟩]

/-- The extension an operation code of the extend family stands for. -/
def extendAs (op : BitVec 4) (value : Word) : Word :=
  if op = 0xa then signByte value
  else if op = 0xb then signHalf value
  else if op = 0xe then value &&& 0xff
  else value &&& 0xffff

theorem execArm_armExtend {op : BitVec 4} {rd rm : Reg} (hrd : rd ≠ 15) (hrm : rm ≠ 15)
    (hop : op = 0xa ∨ op = 0xb ∨ op = 0xe ∨ op = 0xf) : execArm fpu c pc (armExtend op rd rm) next =
      pure ((c.setR rd (extendAs op (c.r rm))).done next) := by
  have hhigh : op.getLsbD 3 = true := by
    obtain rfl | rfl | rfl | rfl := hop <;> rfl
  obtain ⟨hop', hrn', hrd', hrm', hrotate⟩ := @armExtend_fields op rd rm
  obtain ⟨hmedia, hextend⟩ := @armExtend_masks op rd rm hhigh
  have hread : c.regRead pc rm = c.r rm := if_neg hrm
  have hror : ror32 (c.r rm) ((0 : BitVec 2).toNat * 8) = c.r rm := rfl
  rw [execArm_media hmedia (bit_of_and_eq hextend (k := 4) rfl), execMedia, if_pos hextend,
    execExtend]
  simp only [hop', hrn', hrd', hrm', hrotate, hread, hror, hrd, hrm, or_self, if_false]
  obtain rfl | rfl | rfl | rfl := hop
  · rw [← signByte_eq (c.r rm)]
    rfl
  · rw [← signHalf_eq (c.r rm)]
    rfl
  · rfl
  · rfl

theorem execArm_armReverse {op select : BitVec 4} {f : Word → Word} (hrd : rd ≠ 15)
    (hrm : rm ≠ 15) (hf : (op = 0b1011 ∧ select = 0b0011 ∧ f = reverseBytes) ∨
      (op = 0b1011 ∧ select = 0b1011 ∧ f = reverseHalves) ∨
      (op = 0b1111 ∧ select = 0b1011 ∧ f = reverseSigned)) :
    execArm fpu c pc (armReverse op select rd rm) next =
      pure ((c.setR rd (f (c.r rm))).done next) := by
  obtain ⟨hrd', hrm'⟩ := @armReverse_fields op select rd rm
  obtain ⟨hmedia, hrev, hrev16, hrevsh⟩ := @armReverse_masks op select rd rm
  have hdo (f : Word → Word) : execReverse f c pc (armReverse op select rd rm) next =
      (c.setR rd (f (c.r rm))).done next := by
    have hread : c.regRead pc rm = c.r rm := if_neg hrm
    rw [execReverse]
    simp only [hrd', hrm', hrd, hrm, hread, or_self, if_false]
  obtain ⟨rfl, rfl, rfl⟩ | ⟨rfl, rfl, rfl⟩ | ⟨rfl, rfl, rfl⟩ := hf
  · rw [execArm_media hmedia (bit_of_and_eq hrev (k := 4) rfl), execMedia,
      if_neg (ne_of_and_eq hrev (k := 8) rfl rfl (by decide)), if_pos hrev, hdo]
  · rw [execArm_media hmedia (bit_of_and_eq hrev16 (k := 4) rfl), execMedia,
      if_neg (ne_of_and_eq hrev16 (k := 8) rfl rfl (by decide)),
      if_neg (ne_of_and_eq hrev16 (k := 7) rfl rfl (by decide)), if_pos hrev16, hdo]
  · rw [execArm_media hmedia (bit_of_and_eq hrevsh (k := 4) rfl), execMedia,
      if_neg (ne_of_and_eq hrevsh (k := 8) rfl rfl (by decide)),
      if_neg (ne_of_and_eq hrevsh (k := 7) rfl rfl (by decide)),
      if_neg (ne_of_and_eq hrevsh (k := 22) rfl rfl (by decide)), if_pos hrevsh, hdo]

theorem low_ne (code : BitVec 3) : (code.setWidth 4 : Reg) ≠ 15 := by
  revert code
  decide

theorem tb_ne (insn : Half) (start : ℕ) : tb insn start ≠ 15 := low_ne _

theorem tb8_ne (insn : Half) : tb8 insn ≠ 15 := low_ne _

theorem regRead_tb (insn : Half) (start : ℕ) : c.regRead pc (tb insn start) = c.r (tb insn start) :=
  if_neg (tb_ne insn start)

theorem regRead_tb8 (insn : Half) : c.regRead pc (tb8 insn) = c.r (tb8 insn) := if_neg (tb8_ne _)

theorem barrelShift_none (value : Word) (carry : Bool) :
    barrelShift value 0 (0 : BitVec 5).toNat false carry = (value, carry) := rfl

variable (insn : Half)

theorem armShiftAdd_spec :
    execArm fpu c pc (armShiftAdd insn) next = pure (thumbShiftAdd c insn next) := by
  have hamount : (timm5 insn).toNat = (insn.extractLsb' 6 5).toNat := by
    rw [timm5, BitVec.toNat_setWidth]
    omega
  have himm : ((insn.extractLsb' 6 3).setWidth 8).setWidth 32 =
      (insn.extractLsb' 6 3).setWidth 32 := setWidth_setWidth _ (by decide)
  rw [armShiftAdd, thumbShiftAdd]
  by_cases hadd : insn &&& 0xf800 = 0x1800
  · simp only [hadd, if_true]
    cases tbit insn 10 <;> cases tbit insn 9 <;>
      simp only [Bool.false_eq_true, if_false, if_true, execArm_imm (tb_ne insn 0),
        execArm_shift (tb_ne insn 0) (.inl rfl), regRead_tb, barrelShift_none, himm] <;> rfl
  · simp only [hadd, if_false, execArm_shift (tb_ne insn 0) (.inl rfl), regRead_tb, hamount]
    rfl

theorem armImmediate_spec :
    execArm fpu c pc (armImmediate insn) next = pure (thumbImmediate c insn next) := by
  have hzero : (0 : Reg) ≠ 15 := by decide
  have hcases : ∀ op : BitVec 2, op = 0 ∨ op = 1 ∨ op = 2 ∨ op = 3 := by decide
  rw [armImmediate, thumbImmediate]
  simp only
  obtain h | h | h | h := hcases (insn.extractLsb' 11 2) <;> rw [h]
  · rw [if_pos rfl, if_pos rfl, execArm_imm (tb8_ne insn)]
    rfl
  · rw [if_neg (by decide), if_pos rfl, execArm_imm hzero, regRead_tb8]
    rfl
  · rw [if_neg (by decide), if_neg (by decide), if_pos rfl, execArm_imm (tb8_ne insn), regRead_tb8]
    rfl
  · rw [if_neg (by decide), if_neg (by decide), if_neg (by decide), execArm_imm (tb8_ne insn),
      regRead_tb8]
    rfl

theorem armAlu_spec : execArm fpu c pc (armAlu insn) next = pure (thumbAlu c insn next) := by
  have hzero : (0 : Reg) ≠ 15 := by decide
  have hd := tb_ne insn 0
  have hs := tb_ne insn 3
  have hplain (opcode : BitVec 4) : execArm fpu c pc
      (armDp false opcode true (tb insn 0) (tb insn 0) (operandShift (tb insn 3) 0 0)) next =
      pure (dpDone c opcode (tb insn 0) (c.r (tb insn 0)) (c.r (tb insn 3), c.getFlag cpsrC) true
        next) := by
    rw [execArm_shift hd (.inl rfl), regRead_tb, regRead_tb, barrelShift_none]
  have hcompare (opcode : BitVec 4) : execArm fpu c pc
      (armDp false opcode true (tb insn 0) 0 (operandShift (tb insn 3) 0 0)) next =
      pure (dpDone c opcode 0 (c.r (tb insn 0)) (c.r (tb insn 3), c.getFlag cpsrC) true next) := by
    rw [execArm_shift hzero (.inl rfl), regRead_tb, regRead_tb, barrelShift_none]
  have hshift (type : BitVec 2) : execArm fpu c pc
      (armDp false 0b1101 true 0 (tb insn 0) (operandShiftReg (tb insn 0) type (tb insn 3))) next =
      pure (dpDone c 0b1101 (tb insn 0) (c.regRead pc 0)
        (barrelShift (c.r (tb insn 0)) type (c.r (tb insn 3) &&& 0xff).toNat true
          (c.getFlag cpsrC)) true next) := by
    rw [execArm_shiftReg hd hzero hd hs, regRead_tb, regRead_tb]
  have hcases : ∀ op : BitVec 4, op = 0x0 ∨ op = 0x1 ∨ op = 0x2 ∨ op = 0x3 ∨ op = 0x4 ∨ op = 0x5 ∨
      op = 0x6 ∨ op = 0x7 ∨ op = 0x8 ∨ op = 0x9 ∨ op = 0xa ∨ op = 0xb ∨ op = 0xc ∨ op = 0xd ∨
      op = 0xe ∨ op = 0xf := by decide
  rw [armAlu, thumbAlu]
  simp only
  generalize insn.extractLsb' 6 4 = op
  obtain rfl | rfl | rfl | rfl | rfl | rfl | rfl | rfl | rfl | rfl | rfl | rfl | rfl | rfl | rfl |
    rfl := hcases op
  · exact hplain 0b0000
  · exact hplain 0b0001
  · exact hshift 0
  · exact hshift 1
  · exact hshift 2
  · exact hplain 0b0101
  · exact hplain 0b0110
  · exact hshift 3
  · exact hcompare 0b1000
  · exact (execArm_imm hd).trans (by rw [regRead_tb]; rfl)
  · exact hcompare 0b1010
  · exact hcompare 0b1011
  · exact hplain 0b1100
  · exact execArm_armMuls.trans (by rw [regRead_tb, regRead_tb, BitVec.mul_comm]; rfl)
  · exact hplain 0b1110
  · exact (execArm_shift hd (.inl rfl)).trans (by rw [regRead_tb, barrelShift_none]; rfl)

theorem regRead_sub (n : Reg) : c.regRead (pc - 4) n = if n = 15 then pc + 4 else c.r n := by
  have hpc : pc - 4 + 8 = pc + 4 := by bv_omega
  rw [Core.regRead, hpc]

theorem aluAdd_sum (c : Core) (a b : Word) : (aluAdd c a b false false).1 = a + b := by
  apply BitVec.eq_of_toNat_eq
  simp [aluAdd, BitVec.toNat_add]

theorem armHighRegister_spec {arm : Word} (h : armHighRegister insn = some arm) :
    execArm fpu c (pc - 4) arm next = pure (thumbHighRegister c pc insn next) := by
  have hzero : (0 : Reg) ≠ 15 := by decide
  have hcases : ∀ op : BitVec 2, op = 0 ∨ op = 1 ∨ op = 2 ∨ op = 3 := by decide
  rw [armHighRegister] at h
  rw [thumbHighRegister]
  simp only at h ⊢
  generalize (BitVec.ofBool (tbit insn 7) ++ insn.extractLsb' 0 3 : Reg) = rd at h ⊢
  generalize (BitVec.ofBool (tbit insn 6) ++ insn.extractLsb' 3 3 : Reg) = rs at h ⊢
  generalize insn.extractLsb' 8 2 = op at h ⊢
  obtain rfl | rfl | rfl | rfl := hcases op
  · rw [if_pos rfl] at h ⊢
    by_cases hrd : rd = 15
    · rw [if_pos hrd] at h
      cases h
    · rw [if_neg hrd] at h ⊢
      cases h
      rw [execArm_shift hrd (.inr rfl), regRead_sub, regRead_sub, if_neg hrd, barrelShift_none,
        ← aluAdd_sum c (c.r rd)]
      rfl
  · rw [if_neg (by decide), if_pos rfl] at h ⊢
    cases h
    rw [execArm_shift hzero (.inl rfl), regRead_sub, regRead_sub, barrelShift_none]
    rfl
  · rw [if_neg (by decide), if_neg (by decide), if_pos rfl] at h ⊢
    by_cases hrd : rd = 15
    · rw [if_pos hrd] at h
      cases h
    · rw [if_neg hrd] at h ⊢
      cases h
      rw [execArm_shift hrd (.inr rfl), regRead_sub rs, barrelShift_none]
      rfl
  · cases h

theorem armTransferRegister_spec :
    execArm fpu c pc (armTransferRegister insn) next = thumbTransferRegister c insn next := by
  have hd := tb_ne insn 0
  have hm := tb_ne insn 6
  have hcases : ∀ op : BitVec 2, op = 0 ∨ op = 1 ∨ op = 2 ∨ op = 3 := by decide
  rw [armTransferRegister, thumbTransferRegister]
  simp only
  by_cases hextra : tbit insn 9 = true
  · rw [if_pos hextra, if_pos hextra]
    obtain h | h | h | h := hcases (insn.extractLsb' 10 2) <;> rw [h]
    · refine (execArm_armExtra hd (.inl rfl) fun _ ↦ ⟨rfl, hm⟩).trans ?_
      simp [regRead_tb]
    · refine (execArm_armExtra hd (.inr (.inl ⟨rfl, rfl⟩)) fun _ ↦ ⟨rfl, hm⟩).trans ?_
      simp [regRead_tb]
    · refine (execArm_armExtra hd (.inl rfl) fun _ ↦ ⟨rfl, hm⟩).trans ?_
      simp [regRead_tb]
    · refine (execArm_armExtra hd (.inr (.inr ⟨rfl, rfl⟩)) fun _ ↦ ⟨rfl, hm⟩).trans ?_
      simp [regRead_tb]
  · rw [if_neg hextra, if_neg hextra]
    refine (execArm_armSingle hd fun _ ↦ ⟨rfl, hm⟩).trans ?_
    simp only [regRead_tb]
    rfl

theorem armTransferImmediate_spec :
    execArm fpu c pc (armTransferImmediate insn) next = thumbTransferImmediate c insn next := by
  have hbyte : ((insn.extractLsb' 6 5).setWidth 12).setWidth 32 = timm5 insn :=
    setWidth_setWidth _ (by decide)
  have hword : ((insn.extractLsb' 6 5).setWidth 12 <<< 2).setWidth 32 = timm5 insn <<< 2 :=
    setWidth_shiftLeft _ 2 (by decide) (by decide)
  refine (execArm_armSingle_imm (tb_ne insn 0)).trans ?_
  rw [thumbTransferImmediate]
  cases tbit insn 12 <;> simp [regRead_tb, hbyte, hword]

theorem armTransferHalf_spec :
    execArm fpu c pc (armTransferHalf insn) next = thumbTransferHalf c insn next := by
  have hjoin : ∀ offset : Octet, offset.extractLsb' 4 4 ++ offset.extractLsb' 0 4 = offset := by
    decide
  have hhalves : ((((insn.extractLsb' 6 5).setWidth 8 <<< 1 : Octet).extractLsb' 4 4 ++
      ((insn.extractLsb' 6 5).setWidth 8 <<< 1 : Octet).extractLsb' 0 4) : BitVec 8).setWidth 32 =
        timm5 insn <<< 1 := by
    rw [hjoin]
    exact setWidth_shiftLeft _ 1 (by decide) (by decide)
  refine (execArm_armExtra (tb_ne insn 0) (.inl rfl) fun h ↦ absurd h.symm Bool.false_ne_true).trans ?_
  rw [thumbTransferHalf]
  simp [regRead_tb, hhalves]

theorem armTransferSp_spec :
    execArm fpu c pc (armTransferSp insn) next = thumbTransferSp c insn next := by
  have hword : ((insn.extractLsb' 0 8).setWidth 12 <<< 2 : BitVec 12).setWidth 32 =
      timm8 insn <<< 2 := setWidth_shiftLeft _ 2 (by decide) (by decide)
  have hsp : c.regRead pc 13 = c.r 13 := rfl
  refine (execArm_armSingle_imm (tb8_ne insn)).trans ?_
  rw [thumbTransferSp, hsp, hword]
  rfl

theorem armExtendWord_spec :
    execArm fpu c pc (armExtendWord insn) next = pure (thumbExtend c insn next) := by
  have hcases : ∀ op : BitVec 2, op = 0 ∨ op = 1 ∨ op = 2 ∨ op = 3 := by decide
  have hd := tb_ne insn 0
  have hs := tb_ne insn 3
  rw [armExtendWord, thumbExtend]
  generalize insn.extractLsb' 6 2 = op
  obtain rfl | rfl | rfl | rfl := hcases op
  · refine (@execArm_armExtend fpu c pc next 0b1011 _ _ hd hs (by decide)).trans ?_
    simp [extendAs]
  · refine (@execArm_armExtend fpu c pc next 0b1010 _ _ hd hs (by decide)).trans ?_
    simp [extendAs]
  · refine (@execArm_armExtend fpu c pc next 0b1111 _ _ hd hs (by decide)).trans ?_
    simp [extendAs]
  · refine (@execArm_armExtend fpu c pc next 0b1110 _ _ hd hs (by decide)).trans ?_
    simp [extendAs]

theorem armReverseWord_spec {arm : Word} (h : armReverseWord insn = some arm) :
    execArm fpu c pc arm next = pure (thumbReverse c insn next) := by
  have hcases : ∀ op : BitVec 2, op = 0 ∨ op = 1 ∨ op = 2 ∨ op = 3 := by decide
  have hd := tb_ne insn 0
  have hs := tb_ne insn 3
  rw [armReverseWord] at h
  rw [thumbReverse]
  simp only at h ⊢
  generalize insn.extractLsb' 6 2 = op at h ⊢
  obtain rfl | rfl | rfl | rfl := hcases op
  · cases h
    exact execArm_armReverse hd hs (.inl ⟨rfl, rfl, rfl⟩)
  · cases h
    exact execArm_armReverse hd hs (.inr (.inl ⟨rfl, rfl, rfl⟩))
  · cases h
  · cases h
    refine (execArm_armReverse hd hs (.inr (.inr ⟨rfl, rfl, rfl⟩))).trans ?_
    rw [reverseSigned, ← signHalf_eq]
    rfl

/-- The masks of the table that are narrower than its first four bits lie in one of its rows. -/
theorem row_of_mask {insn mask value : Half} (h : insn &&& mask = value)
    (hmask : mask.extractLsb' 12 4 = 0xf) : insn.extractLsb' 12 4 = value.extractLsb' 12 4 := by
  rw [← h, BitVec.extractLsb'_and, hmask, show (0xf : BitVec 4) = BitVec.allOnes 4 from rfl,
    BitVec.and_allOnes]

theorem thumbMiscellaneous_extend (h : insn &&& 0xff00 = 0xb200) :
    thumbMiscellaneous c insn next = pure (thumbExtend c insn next) := by
  have hpush : insn &&& 0xf600 ≠ 0xb400 := by
    have hmask : insn &&& 0xf600 = (insn &&& 0xff00) &&& 0xf600 := by
      rw [BitVec.and_assoc]
      rfl
    rw [hmask, h]
    decide
  rw [thumbMiscellaneous, if_neg (by rw [h]; decide), if_neg hpush, if_pos h]

theorem thumbMiscellaneous_reverse (h : insn &&& 0xff00 = 0xba00) :
    thumbMiscellaneous c insn next = pure (thumbReverse c insn next) := by
  have hpush : insn &&& 0xf600 ≠ 0xb400 := by
    have hmask : insn &&& 0xf600 = (insn &&& 0xff00) &&& 0xf600 := by
      rw [BitVec.and_assoc]
      rfl
    rw [hmask, h]
    decide
  rw [thumbMiscellaneous, if_neg (by rw [h]; decide), if_neg hpush, if_neg (by rw [h]; decide),
    if_pos h]

/-- A Thumb instruction with an ARM equivalent is the same program: the same requests to memory in
the same order and, whatever the answers are, the same registers, flags, abort state and status. -/
theorem thumbStep_eq_execArm (fpu : HostFpu) (c : Core) (pc : Word) (insn : Half) (next : Word)
    {arm : Word} (h : armEquivalent insn = some arm) :
    thumbStep c pc insn next = execArm fpu c (pc - 4) arm next := by
  rw [armEquivalent] at h
  rw [thumbStep]
  simp only at h ⊢
  by_cases h01 : insn.extractLsb' 12 4 = 0x0 ∨ insn.extractLsb' 12 4 = 0x1
  · rw [if_pos h01] at h ⊢
    cases h
    exact (armShiftAdd_spec insn).symm
  rw [if_neg h01] at h ⊢
  by_cases h23 : insn.extractLsb' 12 4 = 0x2 ∨ insn.extractLsb' 12 4 = 0x3
  · rw [if_pos h23] at h ⊢
    cases h
    exact (armImmediate_spec insn).symm
  rw [if_neg h23] at h ⊢
  by_cases halu : insn &&& 0xfc00 = 0x4000
  · rw [if_pos halu] at h
    cases h
    have hrow : insn.extractLsb' 12 4 = 0x4 := row_of_mask halu rfl
    rw [if_pos hrow, if_pos halu]
    exact (armAlu_spec insn).symm
  rw [if_neg halu] at h
  by_cases hhigh : insn &&& 0xfc00 = 0x4400
  · rw [if_pos hhigh] at h
    have hrow : insn.extractLsb' 12 4 = 0x4 := row_of_mask hhigh rfl
    rw [if_pos hrow, if_neg halu, if_pos hhigh]
    exact (armHighRegister_spec insn h).symm
  rw [if_neg hhigh] at h
  by_cases h5 : insn.extractLsb' 12 4 = 0x5
  · rw [if_pos h5] at h
    cases h
    rw [if_neg (by rw [h5]; decide), if_pos h5]
    exact (armTransferRegister_spec insn).symm
  rw [if_neg h5] at h
  by_cases h67 : insn.extractLsb' 12 4 = 0x6 ∨ insn.extractLsb' 12 4 = 0x7
  · rw [if_pos h67] at h
    cases h
    rw [if_neg (by rintro h4; rw [h4] at h67; revert h67; decide), if_neg h5, if_pos h67]
    exact (armTransferImmediate_spec insn).symm
  rw [if_neg h67] at h
  by_cases h8 : insn.extractLsb' 12 4 = 0x8
  · rw [if_pos h8] at h
    cases h
    rw [if_neg (by rw [h8]; decide), if_neg h5, if_neg h67, if_pos h8]
    exact (armTransferHalf_spec insn).symm
  rw [if_neg h8] at h
  by_cases h9 : insn.extractLsb' 12 4 = 0x9
  · rw [if_pos h9] at h
    cases h
    rw [if_neg (by rw [h9]; decide), if_neg h5, if_neg h67, if_neg h8, if_pos h9]
    exact (armTransferSp_spec insn).symm
  rw [if_neg h9] at h
  by_cases hextend : insn &&& 0xff00 = 0xb200
  · have hrow : insn.extractLsb' 12 4 = 0xb := row_of_mask hextend rfl
    rw [if_pos hextend] at h
    cases h
    rw [if_neg (by rw [hrow]; decide), if_neg h5, if_neg h67, if_neg h8, if_neg h9,
      if_neg (by rw [hrow]; decide), if_pos hrow, thumbMiscellaneous_extend insn hextend]
    exact (armExtendWord_spec insn).symm
  rw [if_neg hextend] at h
  by_cases hreverse : insn &&& 0xff00 = 0xba00
  · have hrow : insn.extractLsb' 12 4 = 0xb := row_of_mask hreverse rfl
    rw [if_pos hreverse] at h
    rw [if_neg (by rw [hrow]; decide), if_neg h5, if_neg h67, if_neg h8, if_neg h9,
      if_neg (by rw [hrow]; decide), if_pos hrow, thumbMiscellaneous_reverse insn hreverse]
    exact (armReverseWord_spec insn h).symm
  · rw [if_neg hreverse] at h
    cases h

/-- MUL r0, r1 is MULS r0, r1, r0. -/
theorem thumbStep_eq_execArm_muls : thumbStep (coreReset .v6Arm1176) 0x8000 0x4348 0x8002 =
      execArm idleFpu (coreReset .v6Arm1176) (0x8000 - 4) 0xe0100091 0x8002 :=
  thumbStep_eq_execArm idleFpu (coreReset .v6Arm1176) 0x8000 0x4348 0x8002 rfl

end S5LBox.Arm
