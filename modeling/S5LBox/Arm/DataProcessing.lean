import S5LBox.Arm.State

/-!
# Register instructions of the ARM set

The instructions of `arm_interp.c` that touch no memory: data processing with the miscellaneous
space it shares, branches, and the three multiply classes.
-/

namespace S5LBox.Arm

/-- What an instruction leaves: its status, the core, and the address of the next one. -/
structure Outcome where
  status : Status
  core : Core
  next : Word

/-- `return ARM_OK`. -/
def Core.done (c : Core) (next : Word) : Outcome := ⟨.ok, c, next⟩

/-- `return ARM_UNDEFINED`. -/
def Core.refuse (c : Core) (next : Word) : Outcome := ⟨.undefined, c, next⟩

/-- `barrel_shift`: the shifted value and the carry out. -/
def barrelShift (value : Word) (type : BitVec 2) (amount : ℕ) (regAmount carry : Bool) :
    Word × Bool :=
  if type = 0 then
    if amount = 0 then (value, carry)
    else if amount < 32 then (value <<< amount, bit value (32 - amount))
    else if amount = 32 then (0, bit value 0)
    else (0, false)
  else if type = 1 then
    if amount = 0 then if regAmount then (value, carry) else (0, bit value 31)
    else if amount < 32 then (value >>> amount, bit value (amount - 1))
    else if amount = 32 then (0, bit value 31)
    else (0, false)
  else if type = 2 then
    if amount = 0 then
      if regAmount then (value, carry)
      else (if bit value 31 then 0xffffffff else 0, bit value 31)
    else if amount < 32 then (value.sshiftRight amount, bit value (amount - 1))
    else (if bit value 31 then 0xffffffff else 0, bit value 31)
  else
    if amount = 0 then
      if regAmount then (value, carry)
      else ((value >>> 1) ||| (if carry then 0x80000000 else 0), bit value 0)
    else
      let amount := amount % 32
      if amount = 0 then (value, bit value 31)
      else (ror32 value amount, bit value (amount - 1))

def dpOperand2 (c : Core) (pc insn : Word) (carry : Bool) : Word × Bool :=
  if bit insn 25 then
    let rot := (field4 insn 8).toNat * 2
    let value := ror32 (insn &&& 0xff) rot
    (value, if rot ≠ 0 then bit value 31 else carry)
  else
    let type := insn.extractLsb' 5 2
    let rm := c.regRead pc (field4 insn 0)
    if bit insn 4 then
      barrelShift rm type (c.regRead pc (field4 insn 8) &&& 0xff).toNat true carry
    else barrelShift rm type (insn.extractLsb' 7 5).toNat false carry

/-- The flag updates of `alu_add` and `alu_logic_flags` that both make. -/
def Core.setNz (c : Core) (r : Word) : Core := (c.setFlag cpsrN (bit r 31)).setFlag cpsrZ (r = 0)

def aluAdd (c : Core) (a b : Word) (cin set : Bool) : Word × Core :=
  let u : BitVec 33 := a.setWidth 33 + b.setWidth 33 + (if cin then 1 else 0)
  let r : Word := u.setWidth 32
  (r,
    if set then
      ((c.setNz r).setFlag cpsrC (u.getLsbD 32)).setFlag cpsrV
        (bit (~~~(a ^^^ b) &&& (a ^^^ r)) 31)
    else c)

def aluSub (c : Core) (a b : Word) (cin set : Bool) : Word × Core := aluAdd c a (~~~b) cin set

def aluLogicFlags (c : Core) (r : Word) (carry set : Bool) : Core :=
  if set then (c.setNz r).setFlag cpsrC carry else c

/-- The loop of CLZ: the zeros above the highest set bit. -/
def countLeadingZeros (value : Word) : (fuel : ℕ) → ℕ
  | 0 => 0
  | fuel + 1 => if bit value 31 then 0 else countLeadingZeros (value <<< 1) fuel + 1

/-- `dsp_signed_word`, and the conversion to `int32_t`. -/
def signedWord (value : Word) : ℤ := value.toInt

/-- Clamping to the range of `int32_t`, with whether it was left. -/
def saturate32 (value : ℤ) : ℤ × Bool :=
  if 2147483647 < value then (2147483647, true)
  else if value < -2147483648 then (-2147483648, true)
  else (value, false)

/-- QADD, QSUB, QDADD and QDSUB. -/
def execSaturating (c : Core) (pc insn next : Word) : Outcome :=
  let op := insn.extractLsb' 21 2
  let m := signedWord (c.regRead pc (field4 insn 0))
  let n := signedWord (c.regRead pc (field4 insn 16))
  let (n, doubled) := if op = 2 ∨ op = 3 then saturate32 (n * 2) else (n, false)
  let (acc, sat) := saturate32 (if op = 0 ∨ op = 2 then m + n else m - n)
  let c := c.setR (field4 insn 12) (BitVec.ofInt 32 acc)
  (if doubled || sat then c.setQ else c).done next

/-- MRS and MSR; the mask of an MSR in User mode keeps the flag byte only. -/
def msrMask (insn : Word) : Word :=
  (if bit insn 16 then 0x000000ff else 0) ||| (if bit insn 17 then 0x0000ff00 else 0) |||
    (if bit insn 18 then 0x00ff0000 else 0) ||| (if bit insn 19 then 0xff000000 else 0)

def execMrs (c : Core) (insn next : Word) : Outcome :=
  let bank := armBankOfMode c.cpsr
  if bit insn 22 ∧ bank = .usr then c.refuse next
  else (c.setR (field4 insn 12) (if bit insn 22 then c.spsr bank else c.cpsr)).done next

def execMsr (c : Core) (pc insn next : Word) : Outcome :=
  let bank := armBankOfMode c.cpsr
  let value :=
    if bit insn 25 then ror32 (insn &&& 0xff) ((field4 insn 8).toNat * 2)
    else c.regRead pc (field4 insn 0)
  let mask := msrMask insn
  if bit insn 22 then
    if bank = .usr then c.refuse next
    else
      let merged := (c.spsr bank &&& ~~~mask) ||| (value &&& mask)
      { c with spsr := Function.update c.spsr bank merged }.done next
  else
    let mask := if c.cpsr &&& cpsrModeMask = modeUsr then mask &&& 0xff000000 else mask
    let newcpsr := (c.cpsr &&& ~~~mask) ||| (value &&& mask)
    if mask &&& cpsrModeMask ≠ 0 ∧ !armModeIsValid newcpsr then c.refuse next
    else if mask &&& cpsrModeMask ≠ 0 ∧ newcpsr &&& cpsrModeMask ≠ c.cpsr &&& cpsrModeMask then
      (restoreCpsr c newcpsr).done next
    else { c with cpsr := newcpsr }.done next

/-- BX, and BLX of a register. -/
def execBx (c : Core) (pc insn next : Word) (link : Bool) : Outcome :=
  if link ∧ field4 insn 0 = 15 then c.refuse next
  else
    let target := c.regRead pc (field4 insn 0)
    if target &&& 3 = 2 then c.refuse next
    else
      let c := if link then c.setR 14 (pc + 4) else c
      let c := if bit target 0 then c.setT else c
      c.done (target &&& ~~~1)

/-- The compare opcodes without the S bit: the miscellaneous instructions. -/
def execMiscellaneous (c : Core) (pc insn next : Word) : Outcome :=
  if insn &&& 0x0ffffff0 = 0x012fff10 then execBx c pc insn next false
  else if insn &&& 0x0ffffff0 = 0x012fff30 then execBx c pc insn next true
  else if insn &&& 0x0fff0ff0 = 0x016f0f10 then
    let value := c.regRead pc (field4 insn 0)
    (c.setR (field4 insn 12) (BitVec.ofNat 32 (countLeadingZeros value 32))).done next
  else if insn &&& 0x0f900ff0 = 0x01000050 then execSaturating c pc insn next
  else if insn &&& 0x0fbf0fff = 0x010f0000 then execMrs c insn next
  else if insn &&& 0x0fb0fff0 = 0x0120f000 ∨ insn &&& 0x0fb0f000 = 0x0320f000 then
    execMsr c pc insn next
  else c.refuse next

/-- The opcodes that compare and write no register. -/
def comparesOnly (opcode : BitVec 4) : Bool := 8 ≤ opcode && opcode < 12

/-- The opcode switch: the result, and the core with the flags the opcode sets. -/
def dpResult (c : Core) (opcode : BitVec 4) (a op2 : Word) (carry set : Bool) : Word × Core :=
  let cin := c.getFlag cpsrC
  let logic (res : Word) (set : Bool) : Word × Core := (res, aluLogicFlags c res carry set)
  if opcode = 0x0 then logic (a &&& op2) set
  else if opcode = 0x1 then logic (a ^^^ op2) set
  else if opcode = 0x2 then aluSub c a op2 true set
  else if opcode = 0x3 then aluSub c op2 a true set
  else if opcode = 0x4 then aluAdd c a op2 false set
  else if opcode = 0x5 then aluAdd c a op2 cin set
  else if opcode = 0x6 then aluSub c a op2 cin set
  else if opcode = 0x7 then aluSub c op2 a cin set
  else if opcode = 0x8 then logic (a &&& op2) true
  else if opcode = 0x9 then logic (a ^^^ op2) true
  else if opcode = 0xa then aluSub c a op2 true true
  else if opcode = 0xb then aluAdd c a op2 false true
  else if opcode = 0xc then logic (a ||| op2) set
  else if opcode = 0xd then logic op2 set
  else if opcode = 0xe then logic (a &&& ~~~op2) set
  else logic (~~~op2) set

/-- The mask a branch target is taken through in the instruction set the core is in. -/
def pcMask (c : Core) : Word := if c.getFlag cpsrT then ~~~1 else ~~~3

/-- A result that goes to the PC; with the S bit it returns from an exception. -/
def writePc (c : Core) (res : Word) (set : Bool) : Outcome :=
  let bank := armBankOfMode c.cpsr
  let c := if set ∧ bank ≠ .usr then restoreCpsr c (c.spsr bank) else c
  c.done (res &&& pcMask c)

def execDataProcessing (c : Core) (pc insn next : Word) : Outcome :=
  let opcode := field4 insn 21
  let set := bit insn 20
  let rn := field4 insn 16
  let rd := field4 insn 12
  if c.arch = .v7Swift ∧ insn &&& 0x0fb00000 = 0x03000000 then
    let imm16 : Word := ((insn >>> 4) &&& (0xf000 : Word)) ||| (insn &&& (0x0fff : Word))
    if rd = 15 then c.refuse next
    else if bit insn 22 then
      (c.setR rd ((c.r rd &&& (0x0000ffff : Word)) ||| (imm16 <<< 16))).done next
    else (c.setR rd imm16).done next
  else if comparesOnly opcode ∧ !set then execMiscellaneous c pc insn next
  else if !bit insn 25 ∧ bit insn 4 ∧
      (rd = 15 ∨ rn = 15 ∨ field4 insn 0 = 15 ∨ field4 insn 8 = 15) then c.refuse next
  else if !comparesOnly opcode ∧ rd = 15 ∧ set ∧
      (armBankOfMode c.cpsr = .usr ∨ !armModeIsValid (c.spsr (armBankOfMode c.cpsr))) then
    c.refuse next
  else
    let (op2, carry) := dpOperand2 c pc insn (c.getFlag cpsrC)
    let (res, c) := dpResult c opcode (c.regRead pc rn) op2 carry set
    if comparesOnly opcode then c.done next
    else
      let c := c.setR rd res
      if rd = 15 then writePc c res set else c.done next

def execBranch (c : Core) (pc insn : Word) : Outcome :=
  let off := (insn <<< 8).sshiftRight 6
  (if bit insn 24 then c.setR 14 (pc + 4) else c).done ((pc + 8 + off) &&& ~~~3)

def execMultiply (c : Core) (pc insn next : Word) : Outcome :=
  let res := c.regRead pc (field4 insn 0) * c.regRead pc (field4 insn 8)
  let res := if bit insn 21 then res + c.regRead pc (field4 insn 12) else res
  let c := c.setR (field4 insn 16) res
  (if bit insn 20 then c.setNz res else c).done next

/-- A 64-bit result into a register pair, the low word first. -/
def Core.setPair (c : Core) (lo hi : Reg) (value : DWord) : Core :=
  (c.setR lo (value.setWidth 32)).setR hi ((value >>> 32).setWidth 32)

/-- The register pair as one value, `hi` above `lo`. -/
def Core.pair (c : Core) (lo hi : Reg) : DWord := c.r hi ++ c.r lo

def execMultiplyLong (c : Core) (pc insn next : Word) : Outcome :=
  let rdhi := field4 insn 16
  let rdlo := field4 insn 12
  let rs := field4 insn 8
  let rm := field4 insn 0
  if rdhi = 15 ∨ rdlo = 15 ∨ rs = 15 ∨ rm = 15 ∨ rdhi = rdlo then c.refuse next
  else
    let a := c.regRead pc rm
    let b := c.regRead pc rs
    let res : DWord :=
      if bit insn 22 then a.signExtend 64 * b.signExtend 64 else a.setWidth 64 * b.setWidth 64
    let res := if bit insn 21 then res + c.pair rdlo rdhi else res
    let c := c.setPair rdlo rdhi res
    (if bit insn 20 then (c.setFlag cpsrN (res.getLsbD 63)).setFlag cpsrZ (res = 0) else c).done
      next

def dspSignedHalf (value : Word) (top : Bool) : ℤ :=
  ((value >>> (if top then 16 else 0)).setWidth 16).toInt

/-- `dsp_accumulate_word`: the sum modulo 2^32, with Q when it left the signed range. -/
def dspAccumulateWord (c : Core) (product : ℤ) (accumulator : Word) : Word × Core :=
  let sum := product + signedWord accumulator
  (BitVec.ofInt 32 sum,
    if (saturate32 sum).2 then c.setQ else c)

def execDspMultiply (c : Core) (insn next : Word) : Outcome :=
  let rd := field4 insn 16
  let rn := field4 insn 12
  let rs := field4 insn 8
  let rm := field4 insn 0
  let x := bit insn 5
  let y := bit insn 6
  let halves := dspSignedHalf (c.r rm) x * dspSignedHalf (c.r rs) y
  let wordHalf : DWord := BitVec.ofInt 64 (signedWord (c.r rm) * dspSignedHalf (c.r rs) y)
  let upper : Word := (wordHalf >>> 16).setWidth 32
  if insn &&& 0x0ff00090 = 0x01000080 then
    if rd = 15 ∨ rn = 15 ∨ rs = 15 ∨ rm = 15 then c.refuse next
    else
      let (sum, c) := dspAccumulateWord c halves (c.r rn)
      (c.setR rd sum).done next
  else if insn &&& 0x0ff000b0 = 0x01200080 then
    if rd = 15 ∨ rn = 15 ∨ rs = 15 ∨ rm = 15 then c.refuse next
    else
      let (sum, c) := dspAccumulateWord c (signedWord upper) (c.r rn)
      (c.setR rd sum).done next
  else if insn &&& 0x0ff0f0b0 = 0x012000a0 then
    if rd = 15 ∨ rs = 15 ∨ rm = 15 then c.refuse next
    else (c.setR rd upper).done next
  else if insn &&& 0x0ff00090 = 0x01400080 then
    if rd = 15 ∨ rn = 15 ∨ rs = 15 ∨ rm = 15 ∨ rd = rn then c.refuse next
    else (c.setPair rn rd (c.pair rn rd + BitVec.ofInt 64 halves)).done next
  else if insn &&& 0x0ff0f090 = 0x01600080 then
    if rd = 15 ∨ rs = 15 ∨ rm = 15 then c.refuse next
    else (c.setR rd (BitVec.ofInt 32 halves)).done next
  else c.refuse next

end S5LBox.Arm
