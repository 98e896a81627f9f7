import S5LBox.Arm.DataProcessing

/-!
# The media instructions

`exec_media`: extensions, byte reversals, parallel arithmetic on lanes, packing and selection,
the dual multiplies and, on the later core, division.
-/

namespace S5LBox.Arm

/-- The extend-and-add family. -/
def execExtend (c : Core) (pc insn next : Word) : Outcome :=
  let op := field4 insn 20
  let rn := field4 insn 16
  let rd := field4 insn 12
  let rm := field4 insn 0
  if rd = 15 ∨ rm = 15 then c.refuse next
  else
    let value := ror32 (c.regRead pc rm) ((insn.extractLsb' 10 2).toNat * 8)
    if op = 0x8 ∨ op = 0xc then
      let extend (v : Word) : Half := if op = 0x8 then (signExtend8 v).setWidth 16
        else (v &&& 0xff).setWidth 16
      let base := if rn ≠ 15 then c.regRead pc rn else 0
      let lo : Half := base.setWidth 16 + extend value
      let hi : Half := (base >>> 16).setWidth 16 + extend (value >>> 16)
      (c.setR rd (hi ++ lo)).done next
    else
      let extended : Option Word :=
        if op = 0xa then some (signExtend8 value)
        else if op = 0xb then some (signExtend16 value)
        else if op = 0xe then some (value &&& 0xff)
        else if op = 0xf then some (value &&& 0xffff)
        else none
      match extended with
      | none => c.refuse next
      | some res => (c.setR rd (if rn ≠ 15 then res + c.regRead pc rn else res)).done next

/-- The byte-swap of REV. -/
def reverseBytes (v : Word) : Word :=
  ((v &&& 0xff) <<< 24) ||| ((v &&& 0xff00) <<< 8) ||| ((v >>> 8) &&& (0xff00 : Word)) |||
    ((v >>> 24) &&& (0xff : Word))

/-- The byte-swap of REV16, in each half. -/
def reverseHalves (v : Word) : Word :=
  ((v &&& 0x00ff) <<< 8) ||| ((v &&& 0xff00) >>> 8) ||| ((v &&& 0x00ff0000) <<< 8) |||
    ((v &&& 0xff000000) >>> 8)

/-- REVSH: the low half swapped and sign-extended. -/
def reverseSigned (v : Word) : Word :=
  signExtend16 (((v &&& 0xff) <<< 8) ||| ((v >>> 8) &&& (0xff : Word)))

/-- The three reversals; they differ in the function of the operand only. -/
def execReverse (f : Word → Word) (c : Core) (pc insn next : Word) : Outcome :=
  let rd := field4 insn 12
  let rm := field4 insn 0
  if rd = 15 ∨ rm = 15 then c.refuse next else (c.setR rd (f (c.regRead pc rm))).done next

/-- The class and operation of a parallel instruction: SADD, UQSUB, SHASX and so on. -/
structure ParallelOp where
  byte : Bool
  isSub : Bool
  exchAs : Bool
  exchSa : Bool
  signed : Bool
  sat : Bool
  halve : Bool
  writesGe : Bool

def parallelOp (cls op : BitVec 3) : ParallelOp where
  byte := op = 4 ∨ op = 7
  isSub := op = 3 ∨ op = 7
  exchAs := op = 1
  exchSa := op = 2
  signed := cls = 1 ∨ cls = 2 ∨ cls = 3
  sat := cls = 2 ∨ cls = 6
  halve := cls = 3 ∨ cls = 7
  writesGe := cls = 1 ∨ cls = 5

def ParallelOp.width (o : ParallelOp) : ℕ := if o.byte then 8 else 16

/-- Lane `i` of a register, as a number of the class's signedness. -/
def ParallelOp.lane (o : ParallelOp) (value : Word) (i : ℕ) : ℤ :=
  if o.byte then
    let l : Octet := (value >>> (i * 8)).setWidth 8
    if o.signed then l.toInt else l.toNat
  else
    let l : Half := (value >>> (i * 16)).setWidth 16
    if o.signed then l.toInt else l.toNat

/-- The bounds the saturating classes clamp to. -/
def ParallelOp.clamp (o : ParallelOp) (value : ℤ) : ℤ :=
  let lo : ℤ := if o.signed then (if o.byte then -128 else -32768) else 0
  let hi : ℤ :=
    if o.signed then (if o.byte then 127 else 32767) else (if o.byte then 255 else 65535)
  if value < lo then lo else if hi < value then hi else value

/-- One turn of the loop: the bits of lane `i` and whether its GE flag is set. -/
def ParallelOp.turn (o : ParallelOp) (a b : Word) (i : ℕ) : Word × Bool :=
  let am := o.lane a i
  let bm := o.lane b (if !o.byte && (o.exchAs || o.exchSa) then 1 - i else i)
  let sub := if o.exchAs then i = 0 else if o.exchSa then i = 1 else o.isSub
  let exact := if sub then am - bm else am + bm
  let lane := if o.halve then exact / 2 else if o.sat then o.clamp exact else exact
  let ge : Bool :=
    if o.signed then 0 ≤ exact
    else if sub then bm ≤ am
    else (if o.byte then 0xff else 0xffff : ℤ) < exact
  (BitVec.ofInt 32 lane &&& (if o.byte then 0xff else 0xffff), ge)

/-- The loop over the lanes: the result and the four GE bits. -/
def ParallelOp.loop (o : ParallelOp) (a b : Word) : (lanes : ℕ) → Word × Word
  | 0 => (0, 0)
  | i + 1 =>
    let (result, ge) := o.loop a b i
    let (lane, set) := o.turn a b i
    (result ||| (lane <<< (i * o.width)),
      if set then ge ||| (if o.byte then (1 : Word) <<< i else (3 : Word) <<< (i * 2)) else ge)

def execParallel (c : Core) (pc insn next : Word) : Outcome :=
  let cls := insn.extractLsb' 20 3
  let op := insn.extractLsb' 5 3
  let rn := field4 insn 16
  let rd := field4 insn 12
  let rm := field4 insn 0
  if cls = 0 ∨ cls = 4 ∨ op = 5 ∨ op = 6 ∨ rd = 15 ∨ rn = 15 ∨ rm = 15 then c.refuse next
  else
    let o := parallelOp cls op
    let (result, ge) := o.loop (c.regRead pc rn) (c.regRead pc rm) (if o.byte then 4 else 2)
    let c := c.setR rd result
    (if o.writesGe then
      { c with cpsr := (c.cpsr &&& ~~~(0x000f0000 : Word)) ||| ((ge &&& (0xf : Word)) <<< 16) }
    else c).done next

/-- SDIV and UDIV, which only the later core has. -/
def execDivide (c : Core) (insn next : Word) : Outcome :=
  let rd := field4 insn 16
  let rm := field4 insn 8
  let rn := field4 insn 0
  if c.arch ≠ .v7Swift ∨ rd = 15 ∨ rn = 15 ∨ rm = 15 then c.refuse next
  else
    let n := c.r rn
    let m := c.r rm
    let res : Word :=
      if m = 0 then 0
      else if bit insn 21 then n / m
      else if n = 0x80000000 ∧ m = 0xffffffff then 0x80000000
      else n.sdiv m
    (c.setR rd res).done next

/-- PKHBT and PKHTB. -/
def execPack (c : Core) (pc insn next : Word) : Outcome :=
  let rn := field4 insn 16
  let rd := field4 insn 12
  let rm := field4 insn 0
  let imm5 := (insn.extractLsb' 7 5).toNat
  if rd = 15 ∨ rn = 15 ∨ rm = 15 then c.refuse next
  else
    let n := c.regRead pc rn
    let m := c.regRead pc rm
    let res :=
      if bit insn 6 then
        let shifted := m.sshiftRight (if imm5 = 0 then 31 else imm5)
        (n &&& 0xffff0000) ||| (shifted &&& 0x0000ffff)
      else (n &&& (0x0000ffff : Word)) ||| ((m <<< imm5) &&& (0xffff0000 : Word))
    (c.setR rd res).done next

/-- The loop of SEL. -/
def selectLanes (ge n m : Word) : (lanes : ℕ) → Word
  | 0 => 0
  | i + 1 =>
    selectLanes ge n m i ||| ((if bit ge i then n else m) &&& ((0xff : Word) <<< (i * 8)))

def execSelect (c : Core) (pc insn next : Word) : Outcome :=
  let rn := field4 insn 16
  let rd := field4 insn 12
  let rm := field4 insn 0
  if rd = 15 ∨ rn = 15 ∨ rm = 15 then c.refuse next
  else
    (c.setR rd (selectLanes (c.cpsr >>> 16) (c.regRead pc rn) (c.regRead pc rm) 4)).done next

/-- The sum or difference of the two half-word products; `swap` exchanges the halves of `m`. -/
def dualProduct (n m : Word) (sub swap : Bool) : ℤ :=
  let p1 := dspSignedHalf n false * dspSignedHalf m swap
  let p2 := dspSignedHalf n true * dspSignedHalf m (!swap)
  if sub then p1 - p2 else p1 + p2

/-- SMLAD, SMLSD, SMUAD and SMUSD. -/
def execDualWord (c : Core) (pc insn next : Word) : Outcome :=
  let rd := field4 insn 16
  let ra := field4 insn 12
  let rm := field4 insn 8
  let rn := field4 insn 0
  if rd = 15 ∨ rm = 15 ∨ rn = 15 then c.refuse next
  else
    let product := dualProduct (c.regRead pc rn) (c.regRead pc rm) (bit insn 6) (bit insn 5)
    let acc := if ra ≠ 15 then product + signedWord (c.regRead pc ra) else product
    let c := if (saturate32 acc).2 then c.setQ else c
    (c.setR rd (BitVec.ofInt 32 acc)).done next

/-- SMLALD and SMLSLD. -/
def execDualLong (c : Core) (pc insn next : Word) : Outcome :=
  let rdhi := field4 insn 16
  let rdlo := field4 insn 12
  let rm := field4 insn 8
  let rn := field4 insn 0
  if rdhi = 15 ∨ rdlo = 15 ∨ rm = 15 ∨ rn = 15 ∨ rdhi = rdlo then c.refuse next
  else
    let product := dualProduct (c.regRead pc rn) (c.regRead pc rm) (bit insn 6) (bit insn 5)
    (c.setPair rdlo rdhi (c.pair rdlo rdhi + BitVec.ofInt 64 product)).done next

/-- SMMLA, SMMLS and SMMUL, with their rounding. -/
def execMostSignificant (c : Core) (pc insn next : Word) : Outcome :=
  let sel := insn.extractLsb' 6 2
  let rd := field4 insn 16
  let ra := field4 insn 12
  let rm := field4 insn 8
  let rn := field4 insn 0
  if (sel ≠ 0 ∧ sel ≠ 3) ∨ rd = 15 ∨ rm = 15 ∨ rn = 15 ∨ (sel = 3 ∧ ra = 15) then
    c.refuse next
  else
    let product := signedWord (c.regRead pc rn) * signedWord (c.regRead pc rm)
    let acc := if ra = 15 then 0 else signedWord (c.regRead pc ra) * 0x100000000
    let res := if sel = 3 then acc - product else acc + product
    let res : DWord := BitVec.ofInt 64 (if bit insn 5 then res + 0x80000000 else res)
    (c.setR rd ((res >>> 32).setWidth 32)).done next

/-- The loop of USAD8 and USADA8: the sum of the absolute differences of the octets. -/
def absoluteDifferences (n m : Word) : (lanes : ℕ) → Word
  | 0 => 0
  | i + 1 =>
    let a := (n >>> (i * 8)) &&& (0xff : Word)
    let b := (m >>> (i * 8)) &&& (0xff : Word)
    absoluteDifferences n m i + (if b < a then a - b else b - a)

def execAbsoluteDifferences (c : Core) (pc insn next : Word) : Outcome :=
  let rd := field4 insn 16
  let ra := field4 insn 12
  let rm := field4 insn 8
  let rn := field4 insn 0
  if rd = 15 ∨ rm = 15 ∨ rn = 15 then c.refuse next
  else
    let start := if ra = 15 then 0 else c.regRead pc ra
    (c.setR rd (start + absoluteDifferences (c.regRead pc rn) (c.regRead pc rm) 4)).done next

def execMedia (c : Core) (pc insn next : Word) : Outcome :=
  if insn &&& 0x0f8003f0 = 0x06800070 then execExtend c pc insn next
  else if insn &&& 0x0fff0ff0 = 0x06bf0f30 then execReverse reverseBytes c pc insn next
  else if insn &&& 0x0fff0ff0 = 0x06bf0fb0 then execReverse reverseHalves c pc insn next
  else if insn &&& 0x0fff0ff0 = 0x06ff0fb0 then execReverse reverseSigned c pc insn next
  else if insn &&& 0x0f800f10 = 0x06000f10 then execParallel c pc insn next
  else if insn &&& 0x0fd0f0f0 = 0x0710f010 then execDivide c insn next
  else if insn &&& 0x0ff00030 = 0x06800010 then execPack c pc insn next
  else if insn &&& 0x0ff00ff0 = 0x06800fb0 then execSelect c pc insn next
  else if insn &&& 0x0ff00090 = 0x07000010 then execDualWord c pc insn next
  else if insn &&& 0x0ff00090 = 0x07400010 then execDualLong c pc insn next
  else if insn &&& 0x0ff00010 = 0x07500010 then execMostSignificant c pc insn next
  else if insn &&& 0x0ff000f0 = 0x07800010 then execAbsoluteDifferences c pc insn next
  else c.refuse next

end S5LBox.Arm
