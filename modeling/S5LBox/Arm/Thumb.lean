import S5LBox.Arm.Transfer
import S5LBox.Arm.Media

/-!
# The Thumb instruction set

`thumb_step`, one definition for each group of encodings it switches on.
-/

namespace S5LBox.Arm

/-- `TB`: a low register. -/
def tb (insn : Half) (start : ℕ) : Reg := (insn.extractLsb' start 3).setWidth 4

def tbit (insn : Half) (index : ℕ) : Bool := insn.getLsbD index

/-- The low octet of an encoding. -/
def timm8 (insn : Half) : Word := (insn.extractLsb' 0 8).setWidth 32

/-- The five-bit immediate at bit 6. -/
def timm5 (insn : Half) : Word := (insn.extractLsb' 6 5).setWidth 32

/-- The loads and stores that transfer one register: nothing is written after a fault. -/
def thumbLoad (width : Width) (extend : Word → Word) (c : Core) (rd : Reg) (addr next : Word) :
    Prog Outcome := do
  let (value, c) ← memRead width c addr
  pure (if c.abortPending then c.done next else (c.setR rd (extend value)).done next)

def thumbStore (width : Width) (c : Core) (rd : Reg) (addr next : Word) : Prog Outcome := do
  let c ← memWrite width c addr (c.r rd)
  pure (c.done next)

def signByte (v : Word) : Word := (v.setWidth 8).signExtend 32
def signHalf (v : Word) : Word := (v.setWidth 16).signExtend 32

/-- Shifts, and three-operand addition: `0000` and `0001`. -/
def thumbShiftAdd (c : Core) (insn : Half) (next : Word) : Outcome :=
  let rd := tb insn 0
  let rs := tb insn 3
  if insn &&& 0xf800 = 0x1800 then
    let op2 := if tbit insn 10 then (insn.extractLsb' 6 3).setWidth 32 else c.r (tb insn 6)
    let (res, c) :=
      if tbit insn 9 then aluSub c (c.r rs) op2 true true else aluAdd c (c.r rs) op2 false true
    (c.setR rd res).done next
  else
    let (res, carry) :=
      barrelShift (c.r rs) (insn.extractLsb' 11 2) (timm5 insn).toNat false (c.getFlag cpsrC)
    (aluLogicFlags (c.setR rd res) res carry true).done next

/-- MOV, CMP, ADD and SUB of an immediate: `0010` and `0011`. -/
def thumbImmediate (c : Core) (insn : Half) (next : Word) : Outcome :=
  let rd := (insn.extractLsb' 8 3).setWidth 4
  let imm := timm8 insn
  let op := insn.extractLsb' 11 2
  if op = 0 then (aluLogicFlags (c.setR rd imm) imm (c.getFlag cpsrC) true).done next
  else if op = 1 then (aluSub c (c.r rd) imm true true).2.done next
  else
    let (res, c) :=
      if op = 2 then aluAdd c (c.r rd) imm false true else aluSub c (c.r rd) imm true true
    (c.setR rd res).done next

/-- The two-operand register operations. -/
def thumbAlu (c : Core) (insn : Half) (next : Word) : Outcome :=
  let rd := tb insn 0
  let a := c.r rd
  let b := c.r (tb insn 3)
  let carry := c.getFlag cpsrC
  let op := insn.extractLsb' 6 4
  let logic (res : Word) (carry : Bool) : Outcome :=
    (aluLogicFlags (c.setR rd res) res carry true).done next
  let shift (type : BitVec 2) : Outcome :=
    let (res, carry) := barrelShift a type (b &&& 0xff).toNat true carry
    logic res carry
  let arith (res : Word × Core) : Outcome := (res.2.setR rd res.1).done next
  if op = 0x0 then logic (a &&& b) carry
  else if op = 0x1 then logic (a ^^^ b) carry
  else if op = 0x2 then shift 0
  else if op = 0x3 then shift 1
  else if op = 0x4 then shift 2
  else if op = 0x5 then arith (aluAdd c a b carry true)
  else if op = 0x6 then arith (aluSub c a b carry true)
  else if op = 0x7 then shift 3
  else if op = 0x8 then (aluLogicFlags c (a &&& b) carry true).done next
  else if op = 0x9 then arith (aluSub c 0 b true true)
  else if op = 0xa then (aluSub c a b true true).2.done next
  else if op = 0xb then (aluAdd c a b false true).2.done next
  else if op = 0xc then logic (a ||| b) carry
  else if op = 0xd then ((c.setR rd (a * b)).setNz (a * b)).done next
  else if op = 0xe then logic (a &&& ~~~b) carry
  else logic (~~~b) carry

/-- The operations on high registers, and BX and BLX. -/
def thumbHighRegister (c : Core) (pc : Word) (insn : Half) (next : Word) : Outcome :=
  let pc4 := pc + 4
  let rd : Reg := BitVec.ofBool (tbit insn 7) ++ insn.extractLsb' 0 3
  let rs : Reg := BitVec.ofBool (tbit insn 6) ++ insn.extractLsb' 3 3
  let sv := if rs = 15 then pc4 else c.r rs
  let op := insn.extractLsb' 8 2
  if op = 0 then
    if rd = 15 then c.done ((pc4 + sv) &&& ~~~1) else (c.setR rd (c.r rd + sv)).done next
  else if op = 1 then (aluSub c (if rd = 15 then pc4 else c.r rd) sv true true).2.done next
  else if op = 2 then
    if rd = 15 then c.done (sv &&& ~~~1) else (c.setR rd sv).done next
  else if (tbit insn 7 ∧ rs = 15) ∨ sv &&& 3 = 2 then c.refuse next
  else
    let c := if tbit insn 7 then c.setR 14 ((pc + 2) ||| 1) else c
    let c := if !bit sv 0 then c.clearT else c
    c.done (sv &&& ~~~1)

/-- Register-offset transfers: `0101`. -/
def thumbTransferRegister (c : Core) (insn : Half) (next : Word) : Prog Outcome :=
  let rd := tb insn 0
  let addr := c.r (tb insn 3) + c.r (tb insn 6)
  let op := insn.extractLsb' 10 2
  if tbit insn 9 then
    if op ≠ 1 ∧ legacyHalfwordUnpredictable c addr then pure (c.refuse next)
    else if op = 0 then thumbStore .half c rd addr next
    else if op = 1 then thumbLoad .byte signByte c rd addr next
    else if op = 2 then thumbLoad .half id c rd addr next
    else thumbLoad .half signHalf c rd addr next
  else
    let width : Width := if tbit insn 10 then .byte else .word
    if tbit insn 11 then thumbLoad width id c rd addr next else thumbStore width c rd addr next

/-- Immediate-offset transfers of words and octets: `0110` and `0111`. -/
def thumbTransferImmediate (c : Core) (insn : Half) (next : Word) : Prog Outcome :=
  let rd := tb insn 0
  let byte := tbit insn 12
  let addr := c.r (tb insn 3) + (if byte then timm5 insn else timm5 insn <<< 2)
  let width : Width := if byte then .byte else .word
  if tbit insn 11 then thumbLoad width id c rd addr next else thumbStore width c rd addr next

/-- Immediate-offset transfers of halfwords: `1000`. -/
def thumbTransferHalf (c : Core) (insn : Half) (next : Word) : Prog Outcome :=
  let rd := tb insn 0
  let addr := c.r (tb insn 3) + (timm5 insn <<< 1)
  if legacyHalfwordUnpredictable c addr then pure (c.refuse next)
  else if tbit insn 11 then thumbLoad .half id c rd addr next
  else thumbStore .half c rd addr next

/-- SP-relative transfers: `1001`. -/
def thumbTransferSp (c : Core) (insn : Half) (next : Word) : Prog Outcome :=
  let rd := (insn.extractLsb' 8 3).setWidth 4
  let addr := c.r 13 + (timm8 insn <<< 2)
  if tbit insn 11 then thumbLoad .word id c rd addr next else thumbStore .word c rd addr next

/-- POP. -/
def thumbPop (c : Core) (insn : Half) (next : Word) : Prog Outcome :=
  let regs := registerList (timm8 insn) 8
  let extra := tbit insn 8
  let oldSp := c.r 13
  let sp := oldSp + 4 * BitVec.ofNat 32 (regs.length + if extra then 1 else 0)
  match prepareMultiwordAddress c oldSp 4 false with
  | (none, c) => pure (c.done next)
  | (some addr, c) => do
    match ← blockLoad c addr regs with
    | (none, c) => pure (c.done next)
    | (some loaded, c) =>
      if extra then do
        let (target, c) ← memRead .word c (addr + 4 * BitVec.ofNat 32 regs.length)
        if c.abortPending then pure (c.done next)
        else if target &&& 3 = 2 then pure (c.refuse next)
        else
          let c := (commitBlock c false loaded).setR 13 sp
          let c := if !bit target 0 then c.clearT else c
          pure (c.done (target &&& ~~~1))
      else pure (((commitBlock c false loaded).setR 13 sp).done next)

/-- PUSH. -/
def thumbPush (c : Core) (insn : Half) (next : Word) : Prog Outcome :=
  let regs := registerList (timm8 insn) 8
  let extra := tbit insn 8
  let newSp := c.r 13 - 4 * BitVec.ofNat 32 (regs.length + if extra then 1 else 0)
  match prepareMultiwordAddress c newSp 4 true with
  | (none, c) => pure (c.done next)
  | (some addr, c) => do
    let c ← blockStore c addr (regs.map c.r ++ if extra then [c.r 14] else [])
    pure (if c.abortPending then c.done next else (c.setR 13 newSp).done next)

/-- The sign and zero extensions. -/
def thumbExtend (c : Core) (insn : Half) (next : Word) : Outcome :=
  let value := c.r (tb insn 3)
  let op := insn.extractLsb' 6 2
  let res :=
    if op = 0 then signHalf value
    else if op = 1 then signByte value
    else if op = 2 then value &&& 0xffff
    else value &&& 0xff
  (c.setR (tb insn 0) res).done next

/-- The byte reversals. -/
def thumbReverse (c : Core) (insn : Half) (next : Word) : Outcome :=
  let value := c.r (tb insn 3)
  let op := insn.extractLsb' 6 2
  if op = 2 then c.refuse next
  else
    let res :=
      if op = 0 then reverseBytes value
      else if op = 1 then reverseHalves value
      else signHalf (((value &&& 0xff) <<< 8) ||| ((value >>> 8) &&& (0xff : Word)))
    (c.setR (tb insn 0) res).done next

/-- CPS; it does nothing outside the privileged modes. -/
def thumbCps (c : Core) (insn : Half) (next : Word) : Outcome :=
  let disable := tbit insn 4
  if !c.isPriv then c.done next
  else
    let c := if tbit insn 2 then c.setFlag cpsrA disable else c
    let c := if tbit insn 1 then c.setFlag cpsrI disable else c
    let c := if tbit insn 0 then c.setFlag cpsrF disable else c
    c.done next

/-- The miscellaneous group: `1011`. -/
def thumbMiscellaneous (c : Core) (insn : Half) (next : Word) : Prog Outcome :=
  if insn &&& 0xff00 = 0xb000 then
    let imm : Word := (insn.extractLsb' 0 7).setWidth 32 <<< 2
    pure ((c.setR 13 (if tbit insn 7 then c.r 13 - imm else c.r 13 + imm)).done next)
  else if insn &&& 0xf600 = 0xb400 then
    if timm8 insn = 0 ∧ !tbit insn 8 then pure (c.refuse next)
    else if tbit insn 11 then thumbPop c insn next
    else thumbPush c insn next
  else if insn &&& 0xff00 = 0xb200 then pure (thumbExtend c insn next)
  else if insn &&& 0xff00 = 0xba00 then pure (thumbReverse c insn next)
  else if insn &&& 0xffe0 = 0xb660 then pure (thumbCps c insn next)
  else if insn &&& 0xfff7 = 0xb650 then
    pure (if tbit insn 3 then c.refuse next else c.done next)
  else pure (c.refuse next)

/-- LDMIA and STMIA: `1100`. -/
def thumbBlock (c : Core) (insn : Half) (next : Word) : Prog Outcome :=
  let rb : Reg := (insn.extractLsb' 8 3).setWidth 4
  let regs := registerList (timm8 insn) 8
  let load := tbit insn 11
  let base := c.r rb
  let wb := base + 4 * BitVec.ofNat 32 regs.length
  if regs = [] ∨ (!load ∧ rb ∈ regs ∧ regs.head? ≠ some rb) then pure (c.refuse next)
  else
    match prepareMultiwordAddress c base 4 (!load) with
    | (none, c) => pure (c.done next)
    | (some addr, c) =>
      if load then do
        match ← blockLoad c addr regs with
        | (none, c) => pure (c.done next)
        | (some loaded, c) =>
          let c := commitBlock c false loaded
          pure ((if rb ∈ regs then c else c.setR rb wb).done next)
      else do
        let c ← blockStore c addr (regs.map c.r)
        pure (if c.abortPending then c.done next else (c.setR rb wb).done next)

/-- The end of an SVC of either set, past which the next instruction is `after`. -/
def execSvc (c : Core) (pc encoding after : Word) : Prog Outcome := do
  match ← privilegedSvcResult c pc encoding with
  | (.error, c) => pure ⟨.halt, c, after⟩
  | (.redirected, c) => pure (c.done (c.r 15))
  | (.handled, c) => pure (c.done after)
  | (.unhandled, c) =>
    let (c, next) := takeException c vecSwi modeSvc after false
    pure (c.done next)

/-- Conditional branches and SVC: `1101`. -/
def thumbBranchSvc (c : Core) (pc : Word) (insn : Half) (next : Word) : Prog Outcome :=
  let pc4 := pc + 4
  let cond := insn.extractLsb' 8 4
  if cond = 0xf then execSvc c pc (insn.setWidth 32) next
  else if cond = 0xe then pure (c.refuse next)
  else if armCondPassed c cond then
    pure (c.done (pc4 + ((insn.extractLsb' 0 8).signExtend 32 <<< 1)))
  else pure (c.done next)

/-- Branches, and the second half of BLX: `1110`. -/
def thumbBranch (c : Core) (pc : Word) (insn : Half) : Outcome :=
  let pc4 := pc + 4
  if tbit insn 11 then
    let target : Word := (c.r 14 + ((insn.extractLsb' 0 11).setWidth 32 <<< 1)) &&& ~~~(3 : Word)
    let c := c.setR 14 ((pc + 2) ||| 1)
    c.clearT.done target
  else c.done (pc4 + ((insn.extractLsb' 0 11).signExtend 32 <<< 1))

/-- The two halves of BL: `1111`. -/
def thumbBranchLink (c : Core) (pc : Word) (insn : Half) (next : Word) : Outcome :=
  let pc4 := pc + 4
  if !tbit insn 11 then
    (c.setR 14 (pc4 + ((insn.extractLsb' 0 11).signExtend 32 <<< 12))).done next
  else
    let target := c.r 14 + ((insn.extractLsb' 0 11).setWidth 32 <<< 1)
    (c.setR 14 ((pc + 2) ||| 1)).done (target &&& ~~~1)

def thumbStep (c : Core) (pc : Word) (insn : Half) (next : Word) : Prog Outcome :=
  let pc4 := pc + 4
  let op := insn.extractLsb' 12 4
  if op = 0x0 ∨ op = 0x1 then pure (thumbShiftAdd c insn next)
  else if op = 0x2 ∨ op = 0x3 then pure (thumbImmediate c insn next)
  else if op = 0x4 then
    if insn &&& 0xfc00 = 0x4000 then pure (thumbAlu c insn next)
    else if insn &&& 0xfc00 = 0x4400 then pure (thumbHighRegister c pc insn next)
    else
      thumbLoad .word id c ((insn.extractLsb' 8 3).setWidth 4)
        ((pc4 &&& ~~~(3 : Word)) + (timm8 insn <<< 2)) next
  else if op = 0x5 then thumbTransferRegister c insn next
  else if op = 0x6 ∨ op = 0x7 then thumbTransferImmediate c insn next
  else if op = 0x8 then thumbTransferHalf c insn next
  else if op = 0x9 then thumbTransferSp c insn next
  else if op = 0xa then
    let imm := timm8 insn <<< 2
    let base := if tbit insn 11 then c.r 13 else pc4 &&& ~~~3
    pure ((c.setR ((insn.extractLsb' 8 3).setWidth 4) (base + imm)).done next)
  else if op = 0xb then thumbMiscellaneous c insn next
  else if op = 0xc then thumbBlock c insn next
  else if op = 0xd then thumbBranchSvc c pc insn next
  else if op = 0xe then pure (thumbBranch c pc insn)
  else pure (thumbBranchLink c pc insn next)

end S5LBox.Arm
