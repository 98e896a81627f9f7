import S5LBox.Library.Words
import S5LBox.Arm.Transfer
import S5LBox.Arm.Media

/-!
# Instruction words of the ARM set

The words of the unconditional ARM instructions, put together from their fields, and what the
interpreter reads of them. A word is told from the others by single bits: two masks that share a
bit on which their values differ do not both match.
-/

namespace S5LBox.Arm

open BitVec Words

variable {insn mask value : Word}

theorem bit_of_and_eq (h : insn &&& mask = value) {k : ℕ} (hmask : bit mask k = true) :
    bit insn k = bit value k := by
  rw [← h, bit, bit, getLsbD_and, show mask.getLsbD k = true from hmask, Bool.and_true]

theorem ne_of_bit {k : ℕ} (hmask : bit mask k = true) (hbit : bit insn k ≠ bit value k) :
    insn &&& mask ≠ value :=
  fun h ↦ hbit (bit_of_and_eq h hmask)

theorem ne_of_and_eq {mask' value' : Word} (h : insn &&& mask = value) {k : ℕ}
    (hmask : bit mask k = true) (hmask' : bit mask' k = true)
    (hvalue : bit value k ≠ bit value' k) : insn &&& mask' ≠ value' :=
  ne_of_bit hmask' fun hbit ↦ hvalue ((bit_of_and_eq h hmask).symm.trans hbit)

theorem and_eq_of_bits (h : ∀ k < 32, (bit insn k && bit mask k) = bit value k) :
    insn &&& mask = value := by
  apply eq_of_getLsbD_eq
  intro k hk
  rw [getLsbD_and]
  exact h k hk

/-- A data-processing instruction. -/
def armDp (imm : Bool) (opcode : BitVec 4) (set : Bool) (rn rd : Reg) (operand2 : BitVec 12) :
    Word :=
  (0b1110 : BitVec 4) ++ (0b00 : BitVec 2) ++ BitVec.ofBool imm ++ opcode ++ BitVec.ofBool set ++
    rn ++ rd ++ operand2

/-- An octet as the second operand. -/
def operandImm (imm : Octet) : BitVec 12 := (0 : BitVec 4) ++ imm

/-- A register shifted by an immediate. -/
def operandShift (rm : Reg) (type : BitVec 2) (amount : BitVec 5) : BitVec 12 :=
  amount ++ type ++ (0 : BitVec 1) ++ rm

/-- A register shifted by a register. -/
def operandShiftReg (rm : Reg) (type : BitVec 2) (rs : Reg) : BitVec 12 :=
  rs ++ (0 : BitVec 1) ++ type ++ (1 : BitVec 1) ++ rm

/-- MULS. -/
def armMuls (rd rm rs : Reg) : Word :=
  (0b1110 : BitVec 4) ++ (0b0000000 : BitVec 7) ++ (1 : BitVec 1) ++ rd ++ (0 : BitVec 4) ++ rs ++
    (0b1001 : BitVec 4) ++ rm

/-- LDR, STR, LDRB and STRB at an offset that is added, with no writeback. -/
def armSingle (reg byte load : Bool) (rn rd : Reg) (offset : BitVec 12) : Word :=
  (0b1110 : BitVec 4) ++ (0b01 : BitVec 2) ++ BitVec.ofBool reg ++ (0b11 : BitVec 2) ++
    BitVec.ofBool byte ++ (0 : BitVec 1) ++ BitVec.ofBool load ++ rn ++ rd ++ offset

/-- The halfword and signed transfers at an offset that is added, with no writeback. -/
def armExtra (imm load : Bool) (rn rd : Reg) (high : BitVec 4) (sh : BitVec 2) (low : BitVec 4) :
    Word :=
  (0b1110 : BitVec 4) ++ (0b00011 : BitVec 5) ++ BitVec.ofBool imm ++ (0 : BitVec 1) ++
    BitVec.ofBool load ++ rn ++ rd ++ high ++ (1 : BitVec 1) ++ sh ++ (1 : BitVec 1) ++ low

/-- SXTB, SXTH, UXTB and UXTH, with no rotation. -/
def armExtend (op : BitVec 4) (rd rm : Reg) : Word :=
  (0b1110 : BitVec 4) ++ (0b0110 : BitVec 4) ++ op ++ (0b1111 : BitVec 4) ++ rd ++
    (0b0000 : BitVec 4) ++ (0b0111 : BitVec 4) ++ rm

/-- REV, REV16 and REVSH. -/
def armReverse (op select : BitVec 4) (rd rm : Reg) : Word :=
  (0b1110 : BitVec 4) ++ (0b0110 : BitVec 4) ++ op ++ (0b1111 : BitVec 4) ++ rd ++
    (0b1111 : BitVec 4) ++ select ++ rm

section Fields

variable {imm set reg byte load : Bool} {opcode op high low select : BitVec 4}
  {sh type : BitVec 2} {rn rd rm rs : Reg} {operand2 offset : BitVec 12} {amount : BitVec 5}

theorem armDp_fields : field4 (armDp imm opcode set rn rd operand2) 21 = opcode ∧
      bit (armDp imm opcode set rn rd operand2) 25 = imm ∧
      bit (armDp imm opcode set rn rd operand2) 20 = set ∧
      field4 (armDp imm opcode set rn rd operand2) 16 = rn ∧
      field4 (armDp imm opcode set rn rd operand2) 12 = rd := by
  simp (disch := omega) only [field4, bit, armDp, extractLsb'_append_eq_of_le,
    extractLsb'_append_eq_of_add_le, getLsbD_append_of_lt, getLsbD_append_of_le]
  simp

theorem armDp_low {start len : ℕ} (h : start + len ≤ 12) :
    (armDp imm opcode set rn rd operand2).extractLsb' start len = operand2.extractLsb' start len := by
  rw [armDp, extractLsb'_append_eq_of_add_le h]

theorem armDp_bit {k : ℕ} (h : k < 12) :
    bit (armDp imm opcode set rn rd operand2) k = operand2.getLsbD k := by
  rw [bit, armDp, getLsbD_append_of_lt h]

theorem operandShift_fields : (operandShift rm type amount).extractLsb' 0 4 = rm ∧
      (operandShift rm type amount).extractLsb' 5 2 = type ∧
      (operandShift rm type amount).extractLsb' 7 5 = amount ∧
      (operandShift rm type amount).getLsbD 4 = false := by
  simp (disch := omega) only [operandShift, extractLsb'_append_eq_of_le,
    extractLsb'_append_eq_of_add_le, getLsbD_append_of_lt, getLsbD_append_of_le]
  simp

theorem operandShiftReg_fields : (operandShiftReg rm type rs).extractLsb' 0 4 = rm ∧
      (operandShiftReg rm type rs).extractLsb' 5 2 = type ∧
      (operandShiftReg rm type rs).extractLsb' 8 4 = rs ∧
      (operandShiftReg rm type rs).getLsbD 4 = true ∧
      (operandShiftReg rm type rs).getLsbD 7 = false := by
  simp (disch := omega) only [operandShiftReg, extractLsb'_append_eq_of_le,
    extractLsb'_append_eq_of_add_le, getLsbD_append_of_lt, getLsbD_append_of_le]
  simp

theorem armMuls_fields : field4 (armMuls rd rm rs) 16 = rd ∧ field4 (armMuls rd rm rs) 0 = rm ∧
      field4 (armMuls rd rm rs) 8 = rs ∧ bit (armMuls rd rm rs) 20 = true ∧
      bit (armMuls rd rm rs) 21 = false := by
  simp (disch := omega) only [field4, bit, armMuls, extractLsb'_append_eq_of_le,
    extractLsb'_append_eq_of_add_le, getLsbD_append_of_lt, getLsbD_append_of_le]
  simp

theorem armSingle_fields : field4 (armSingle reg byte load rn rd offset) 16 = rn ∧
      field4 (armSingle reg byte load rn rd offset) 12 = rd ∧
      bit (armSingle reg byte load rn rd offset) 25 = reg ∧
      bit (armSingle reg byte load rn rd offset) 24 = true ∧
      bit (armSingle reg byte load rn rd offset) 23 = true ∧
      bit (armSingle reg byte load rn rd offset) 22 = byte ∧
      bit (armSingle reg byte load rn rd offset) 21 = false ∧
      bit (armSingle reg byte load rn rd offset) 20 = load := by
  simp (disch := omega) only [field4, bit, armSingle, extractLsb'_append_eq_of_le,
    extractLsb'_append_eq_of_add_le, getLsbD_append_of_lt, getLsbD_append_of_le]
  simp

theorem armSingle_low {start len : ℕ} (h : start + len ≤ 12) :
    (armSingle reg byte load rn rd offset).extractLsb' start len = offset.extractLsb' start len := by
  rw [armSingle, extractLsb'_append_eq_of_add_le h]

theorem armExtra_fields : field4 (armExtra imm load rn rd high sh low) 16 = rn ∧
      field4 (armExtra imm load rn rd high sh low) 12 = rd ∧
      field4 (armExtra imm load rn rd high sh low) 8 = high ∧
      field4 (armExtra imm load rn rd high sh low) 0 = low ∧
      (armExtra imm load rn rd high sh low).extractLsb' 5 2 = sh ∧
      bit (armExtra imm load rn rd high sh low) 24 = true ∧
      bit (armExtra imm load rn rd high sh low) 23 = true ∧
      bit (armExtra imm load rn rd high sh low) 22 = imm ∧
      bit (armExtra imm load rn rd high sh low) 21 = false ∧
      bit (armExtra imm load rn rd high sh low) 20 = load := by
  simp (disch := omega) only [field4, bit, armExtra, extractLsb'_append_eq_of_le,
    extractLsb'_append_eq_of_add_le, getLsbD_append_of_lt, getLsbD_append_of_le]
  simp

theorem armExtend_fields :
    field4 (armExtend op rd rm) 20 = op ∧ field4 (armExtend op rd rm) 16 = 15 ∧
      field4 (armExtend op rd rm) 12 = rd ∧ field4 (armExtend op rd rm) 0 = rm ∧
      (armExtend op rd rm).extractLsb' 10 2 = 0 := by
  simp (disch := omega) only [field4, armExtend, extractLsb'_append_eq_of_le,
    extractLsb'_append_eq_of_add_le]
  simp

theorem armReverse_fields :
    field4 (armReverse op select rd rm) 12 = rd ∧ field4 (armReverse op select rd rm) 0 = rm := by
  simp (disch := omega) only [field4, armReverse, extractLsb'_append_eq_of_le,
    extractLsb'_append_eq_of_add_le]
  simp

theorem armDp_masks : armDp imm opcode set rn rd operand2 &&& 0x0c000000 = 0 := by
  refine and_eq_of_bits fun k hk ↦ ?_
  interval_cases k <;>
    simp (disch := omega) only [bit, armDp, getLsbD_append_of_lt, getLsbD_append_of_le] <;> simp

theorem armMuls_masks :
    armMuls rd rm rs &&& 0x0e000000 = 0 ∧ armMuls rd rm rs &&& 0x00000090 = 0x00000090 ∧
      armMuls rd rm rs &&& 0x0fc000f0 = 0x00000090 := by
  refine ⟨?_, ?_, ?_⟩ <;> refine and_eq_of_bits fun k hk ↦ ?_ <;> interval_cases k <;>
    simp (disch := omega) only [bit, armMuls, getLsbD_append_of_lt, getLsbD_append_of_le] <;> simp

theorem armSingle_masks : armSingle reg byte load rn rd offset &&& 0x0c000000 = 0x04000000 := by
  refine and_eq_of_bits fun k hk ↦ ?_
  interval_cases k <;>
    simp (disch := omega) only [bit, armSingle, getLsbD_append_of_lt, getLsbD_append_of_le] <;> simp

theorem armExtra_masks : armExtra imm load rn rd high sh low &&& 0x0e000000 = 0 ∧
      armExtra imm load rn rd high sh low &&& 0x00000090 = 0x00000090 := by
  refine ⟨?_, ?_⟩ <;> refine and_eq_of_bits fun k hk ↦ ?_ <;> interval_cases k <;>
    simp (disch := omega) only [bit, armExtra, getLsbD_append_of_lt, getLsbD_append_of_le] <;> simp

theorem armExtend_masks (h : op.getLsbD 3 = true) : armExtend op rd rm &&& 0x0e000000 = 0x06000000 ∧
      armExtend op rd rm &&& 0x0f8003f0 = 0x06800070 := by
  refine ⟨?_, ?_⟩ <;> refine and_eq_of_bits fun k hk ↦ ?_ <;> interval_cases k <;>
    simp (disch := omega) only [bit, armExtend, getLsbD_append_of_lt, getLsbD_append_of_le] <;>
    simp [h]

theorem armReverse_masks : armReverse op select rd rm &&& 0x0e000000 = 0x06000000 ∧
      armReverse 0b1011 0b0011 rd rm &&& 0x0fff0ff0 = 0x06bf0f30 ∧
      armReverse 0b1011 0b1011 rd rm &&& 0x0fff0ff0 = 0x06bf0fb0 ∧
      armReverse 0b1111 0b1011 rd rm &&& 0x0fff0ff0 = 0x06ff0fb0 := by
  refine ⟨?_, ?_, ?_, ?_⟩ <;> refine and_eq_of_bits fun k hk ↦ ?_ <;> interval_cases k <;>
    simp (disch := omega) only [bit, armReverse, getLsbD_append_of_lt, getLsbD_append_of_le] <;>
    simp

end Fields

end S5LBox.Arm
