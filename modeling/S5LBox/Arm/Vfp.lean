import S5LBox.Arm.Transfer

/-!
# The VFP11 coprocessor

`vfp.c`: access control, the register transfers, the loads and stores, and the arithmetic. The
host's floating-point unit is a parameter that works on bit patterns; everything around it, the
mode checks, flush-to-zero, default NaNs and the cumulative flags, is the source's.
-/

namespace S5LBox.Arm

def fpexcEn : Word := 0x40000000
def fpsid : Word := 0x410120b4

def fpscrN : Word := 0x80000000
def fpscrZ : Word := 0x40000000
def fpscrC : Word := 0x20000000
def fpscrV : Word := 0x10000000
def fpscrNzcv : Word := 0xf0000000
def fpscrDn : Word := 0x02000000
def fpscrFz : Word := 0x01000000
def fpscrRmode : Word := 0x00c00000
def fpscrLen : Word := 0x00070000
def fpscrEnables : Word := 0x00009f00
def fpscrIdc : Word := 0x80
def fpscrIxc : Word := 0x10
def fpscrUfc : Word := 0x08
def fpscrIoc : Word := 0x01
def fpscrWmask : Word := 0xf3f79f9f

def vfpFzAmbiguous : Word := 0x40

def modeExact : Word := fpscrLen
def modeValues : Word := modeExact ||| fpscrEnables
def modeRounding : Word := modeValues

/-- `fop_t`. -/
inductive FpOp where
  | add
  | sub
  | mul
  | div
  | sqrt
  deriving DecidableEq, Repr

/-- The rounding functions of the C library `fp_to_int` chooses from. -/
inductive Rounding where
  | rint
  | ceil
  | floor
  | trunc
  deriving DecidableEq, Repr

/-- IEEE arithmetic of the host on bit patterns. Operations that round take the rounding mode in
force, as the two bits of FPSCR.RMode, and return the exceptions they raise as FPSCR flags. -/
structure HostFpu where
  f32 : BitVec 2 → FpOp → Word → Word → Word × Word
  f64 : BitVec 2 → FpOp → DWord → DWord → DWord × Word
  lt32 : Word → Word → Bool
  eq32 : Word → Word → Bool
  lt64 : DWord → DWord → Bool
  eq64 : DWord → DWord → Bool
  narrow : BitVec 2 → DWord → Word × Word
  widen : Word → DWord × Word
  ofInt32 : Word → DWord
  ofUint32 : Word → DWord
  toInt32 : DWord → Word
  toUint32 : DWord → Word
  round : BitVec 2 → Rounding → DWord → DWord
  refuses : BitVec 2 → Bool

/-- `vfp_set_s`. -/
def Core.setS (c : Core) (n : BitVec 5) (value : Word) : Core :=
  { c with vfpS := Function.update c.vfpS n value }

/-- `vfp_get_d`: register `dN` is the pair s(2N), s(2N+1), the low word first. -/
def Core.getD (c : Core) (n : BitVec 4) : DWord := c.vfpS (n ++ 1#1) ++ c.vfpS (n ++ 0#1)

/-- `vfp_set_d`. -/
def Core.setD (c : Core) (n : BitVec 4) (value : DWord) : Core :=
  (c.setS (n ++ 0#1) (value.setWidth 32)).setS (n ++ 1#1) ((value >>> 32).setWidth 32)

def sreg (f : BitVec 4) (lo : Bool) : BitVec 5 := f ++ BitVec.ofBool lo

def vfpCpacrPermits (c : Core) : Bool :=
  let cp10 := c.cp15.cpacr.extractLsb' 20 2
  let cp11 := c.cp15.cpacr.extractLsb' 22 2
  let acc := if cp10 < cp11 then cp10 else cp11
  if acc = 3 then true else if acc = 1 then c.isPriv else false

def vfpEnabled (c : Core) : Bool := c.vfpFpexc &&& fpexcEn ≠ 0

def Core.guestUndefined (c : Core) (next : Word) : Outcome := ⟨.guestUndefined, c, next⟩

def vfpLoadD (c : Core) (addr : Word) (n : BitVec 4) : Prog Core := do
  let (lo, c) ← vfpMemR32 c addr
  if c.abortPending then pure c
  else do
    let (hi, c) ← vfpMemR32 c (addr + 4)
    pure (if c.abortPending then c else c.setD n (hi ++ lo))

def vfpStoreD (c : Core) (addr : Word) (n : BitVec 4) : Prog Core := do
  let value := c.getD n
  let c ← vfpMemW32 c addr (value.setWidth 32)
  if c.abortPending then pure c else vfpMemW32 c (addr + 4) ((value >>> 32).setWidth 32)

def vfpLoadS (c : Core) (addr : Word) (n : BitVec 5) : Prog Core := do
  let (value, c) ← vfpMemR32 c addr
  pure (if c.abortPending then c else c.setS n value)

def vfpStoreS (c : Core) (addr : Word) (n : BitVec 5) : Prog Core :=
  vfpMemW32 c addr (c.vfpS n)

/-- The transfer of one register, by size and direction. -/
def vfpTransfer (dbl load : Bool) (c : Core) (addr : Word) (n : ℕ) : Prog Core :=
  match dbl, load with
  | true, true => vfpLoadD c addr (BitVec.ofNat 4 n)
  | true, false => vfpStoreD c addr (BitVec.ofNat 4 n)
  | false, true => vfpLoadS c addr (BitVec.ofNat 5 n)
  | false, false => vfpStoreS c addr (BitVec.ofNat 5 n)

/-- The loop of VLDM and VSTM, up to the first fault. -/
def vfpBlock (dbl load : Bool) (addr : Word) (first : ℕ) : List ℕ → Core → Prog Core
  | [], c => pure c
  | i :: rest, c => do
    let c ← vfpTransfer dbl load c (addr + BitVec.ofNat 32 (i * (if dbl then 8 else 4))) (first + i)
    if c.abortPending then pure c else vfpBlock dbl load addr first rest c

/-- The word past the registers that an odd count of VLDM or VSTM with doublewords transfers. -/
def vfpBlockTail (load : Bool) (addr : Word) (c : Core) : Prog Core :=
  if load then do
    let (_, c) ← vfpMemR32 c addr
    pure c
  else vfpMemW32 c addr 0

def vfpLdst (c : Core) (pc insn next : Word) : Prog Outcome :=
  let p := bit insn 24
  let u := bit insn 23
  let d := bit insn 22
  let w := bit insn 21
  let l := bit insn 20
  let rn := field4 insn 16
  let vd := field4 insn 12
  let dbl := bit insn 8
  let imm8 := (insn.extractLsb' 0 8).toNat
  let size : Word := BitVec.ofNat 32 (imm8 * 4)
  if (!p ∧ !u ∧ !w) ∨ (p ∧ u ∧ w) ∨ (rn = 15 ∧ (w ∨ !p)) ∨ (dbl ∧ d) then pure (c.refuse next)
  else
    let base := if rn = 15 then pc + 8 else c.r rn
    let first := if dbl then vd.toNat else (sreg vd d).toNat
    if p ∧ !w then do
      let c ← vfpTransfer dbl l c (if u then base + size else base - size) first
      pure (c.done next)
    else
      let count := if dbl then imm8 / 2 else imm8
      if imm8 = 0 ∨ (if dbl then 16 else 32) < first + count then pure (c.refuse next)
      else do
        let addr := if u then base else base - size
        let c ← vfpBlock dbl l addr first (List.range count) c
        if c.abortPending then pure (c.done next)
        else do
          let c ← if dbl ∧ imm8 % 2 = 1 then vfpBlockTail l (addr + BitVec.ofNat 32 (count * 8)) c
            else pure c
          if c.abortPending then pure (c.done next)
          else if w then pure ((c.setR rn (if u then base + size else base - size)).done next)
          else pure (c.done next)

/-- `vfp_xfer32`: VMOV of one word, VMRS and VMSR. -/
def vfpXfer32 (c : Core) (insn next : Word) : Outcome :=
  let opc1 := insn.extractLsb' 21 3
  let l := bit insn 20
  let cp11 := bit insn 8
  let vn := field4 insn 16
  let rt := field4 insn 12
  let move (n : BitVec 5) : Outcome :=
    if insn &&& 0x6f ≠ 0 ∨ rt = 15 then c.refuse next
    else if l then (c.setR rt (c.vfpS n)).done next
    else (c.setS n (c.r rt)).done next
  if !cp11 ∧ opc1 = 0 then move (sreg vn (bit insn 7))
  else if cp11 ∧ (opc1 = 0 ∨ opc1 = 1) then
    if bit insn 7 then c.refuse next else move (sreg vn (opc1 = 1))
  else if cp11 ∨ opc1 ≠ 7 ∨ insn &&& 0xef ≠ 0 then c.refuse next
  else if vn = 8 ∧ !c.isPriv then c.guestUndefined next
  else if vn = 0 ∧ !vfpEnabled c ∧ !c.isPriv then c.guestUndefined next
  else if l then
    if rt = 15 ∧ vn ≠ 1 then c.refuse next
    else
      let read (value : Word) : Outcome :=
        if rt = 15 then
          { c with cpsr := (c.cpsr &&& 0x0fffffff) ||| (value &&& 0xf0000000) }.done next
        else (c.setR rt value).done next
      if vn = 0 then read fpsid
      else if vn = 1 then read c.vfpFpscr
      else if vn = 8 then read c.vfpFpexc
      else c.refuse next
  else if rt = 15 then c.refuse next
  else if vn = 1 then { c with vfpFpscr := c.r rt &&& fpscrWmask }.done next
  else if vn = 8 then { c with vfpFpexc := c.r rt }.done next
  else c.refuse next

/-- `vfp_xfer64`: VMOV between two core registers and a doubleword or two words. -/
def vfpXfer64 (c : Core) (insn next : Word) : Outcome :=
  let l := bit insn 20
  let m := bit insn 5
  let rt2 := field4 insn 16
  let rt := field4 insn 12
  let vm := field4 insn 0
  if insn &&& 0xc0 ≠ 0 ∨ rt = 15 ∨ rt2 = 15 then c.refuse next
  else if bit insn 8 then
    if m then c.refuse next
    else if l then (c.setPair rt rt2 (c.getD vm)).done next
    else (c.setD vm (c.r rt2 ++ c.r rt)).done next
  else
    let sm := sreg vm m
    if sm = 31 then c.refuse next
    else if l then ((c.setR rt (c.vfpS sm)).setR rt2 (c.vfpS (sm + 1))).done next
    else ((c.setS sm (c.r rt)).setS (sm + 1) (c.r rt2)).done next

/-- `fz_in32`: a denormal operand counts as zero. -/
def fzIn32 (f exc : Word) : Word × Word :=
  if f &&& 0x7f800000 = 0 ∧ f &&& 0x007fffff ≠ 0 then (f &&& 0x80000000, exc ||| fpscrIdc)
  else (f, exc)

def fzIn64 (d : DWord) (exc : Word) : DWord × Word :=
  if d &&& 0x7ff0000000000000 = 0 ∧ d &&& 0x000fffffffffffff ≠ 0 then
    (d &&& 0x8000000000000000, exc ||| fpscrIdc)
  else (d, exc)

/-- `fz_out32`: a denormal result becomes zero; one that may have been rounded up to the
smallest normal cannot be decided. -/
def fzOut32 (f exc : Word) : Word × Word :=
  let mag := f &&& 0x7fffffff
  if mag ≠ 0 ∧ mag < 0x00800000 then (f &&& 0x80000000, (exc &&& ~~~fpscrIxc) ||| fpscrUfc)
  else if mag = 0x00800000 ∧ exc &&& fpscrIxc ≠ 0 then (f, exc ||| vfpFzAmbiguous)
  else (f, exc)

def fzOut64 (d : DWord) (exc : Word) : DWord × Word :=
  let mag := d &&& 0x7fffffffffffffff
  if mag ≠ 0 ∧ mag < 0x0010000000000000 then
    (d &&& 0x8000000000000000, (exc &&& ~~~fpscrIxc) ||| fpscrUfc)
  else if mag = 0x0010000000000000 ∧ exc &&& fpscrIxc ≠ 0 then (d, exc ||| vfpFzAmbiguous)
  else (d, exc)

def dnOut32 (f fpscr : Word) : Word :=
  if fpscr &&& fpscrDn ≠ 0 ∧ 0x7f800000 < f &&& 0x7fffffff then 0x7fc00000 else f

def dnOut64 (d : DWord) (fpscr : Word) : DWord :=
  if fpscr &&& fpscrDn ≠ 0 ∧ 0x7ff0000000000000 < d &&& 0x7fffffffffffffff then
    0x7ff8000000000000
  else d

/-- FPSCR.RMode. -/
def rmode (fpscr : Word) : BitVec 2 := fpscr.extractLsb' 22 2

/-- `f32_do`: the result, and the exceptions so far with the new ones. -/
def f32Do (fpu : HostFpu) (op : FpOp) (a b fpscr exc : Word) : Word × Word :=
  let flush := fpscr &&& fpscrFz ≠ 0
  let (a, e) := if flush then fzIn32 a 0 else (a, 0)
  let (b, e) := if flush then fzIn32 b e else (b, e)
  let e := if op = .sqrt ∧ fpu.lt32 a 0 then e ||| fpscrIoc else e
  let (r, raised) := fpu.f32 (rmode fpscr) op a b
  let (r, e) := if flush then fzOut32 r (e ||| raised) else (r, e ||| raised)
  (dnOut32 r fpscr, exc ||| e)

def f64Do (fpu : HostFpu) (op : FpOp) (a b : DWord) (fpscr exc : Word) : DWord × Word :=
  let flush := fpscr &&& fpscrFz ≠ 0
  let (a, e) := if flush then fzIn64 a 0 else (a, 0)
  let (b, e) := if flush then fzIn64 b e else (b, e)
  let e := if op = .sqrt ∧ fpu.lt64 a 0 then e ||| fpscrIoc else e
  let (r, raised) := fpu.f64 (rmode fpscr) op a b
  let (r, e) := if flush then fzOut64 r (e ||| raised) else (r, e ||| raised)
  (dnOut64 r fpscr, exc ||| e)

def fneg32 (f : Word) : Word := f ^^^ 0x80000000
def fneg64 (d : DWord) : DWord := d ^^^ 0x8000000000000000
def fabs32 (f : Word) : Word := f &&& 0x7fffffff
def fabs64 (d : DWord) : DWord := d &&& 0x7fffffffffffffff

/-- The kinds of `vfp_dp_arith`. -/
inductive ArithKind where
  | vmla
  | vmls
  | vnmls
  | vnmla
  | vmul
  | vnmul
  | vadd
  | vsub
  | vdiv
  deriving DecidableEq, Repr

def arithKind (op : BitVec 3) (alt : Bool) : Option ArithKind :=
  if op = 0 then some (if alt then .vmls else .vmla)
  else if op = 1 then some (if alt then .vnmla else .vnmls)
  else if op = 2 then some (if alt then .vnmul else .vmul)
  else if op = 3 then some (if alt then .vsub else .vadd)
  else if op = 4 ∧ !alt then some .vdiv
  else none

/-- The kind switch of `vfp_dp_arith`, at either precision. -/
def arithSwitch {w : ℕ} (run : FpOp → BitVec w → BitVec w → Word → BitVec w × Word)
    (neg : BitVec w → BitVec w) (kind : ArithKind) (d n m : BitVec w) : BitVec w × Word :=
  match kind with
  | .vadd => run .add n m 0
  | .vsub => run .sub n m 0
  | .vmul => run .mul n m 0
  | .vnmul => let (r, exc) := run .mul n m 0; (neg r, exc)
  | .vdiv => run .div n m 0
  | kind =>
    let (product, exc) := run .mul n m 0
    let product := if kind = .vmls ∨ kind = .vnmla then neg product else product
    let d := if kind = .vnmla ∨ kind = .vnmls then neg d else d
    run .add d product exc

/-- `c->vfp_fpscr |= exc;` -/
def Core.raise (c : Core) (exc : Word) : Core := { c with vfpFpscr := c.vfpFpscr ||| exc }

def vfpDpArith (fpu : HostFpu) (c : Core) (insn next : Word) (op : BitVec 3) : Outcome :=
  let fpscr := c.vfpFpscr
  match arithKind op (bit insn 6) with
  | none => c.refuse next
  | some kind =>
    if fpscr &&& modeRounding ≠ 0 then c.refuse next
    else if bit insn 8 then
      if bit insn 22 ∨ bit insn 7 ∨ bit insn 5 then c.refuse next
      else
        let (r, exc) := arithSwitch (fun op a b e ↦ f64Do fpu op a b fpscr e) fneg64 kind
          (c.getD (field4 insn 12)) (c.getD (field4 insn 16)) (c.getD (field4 insn 0))
        if exc &&& vfpFzAmbiguous ≠ 0 then c.refuse next
        else ((c.setD (field4 insn 12) r).raise exc).done next
    else
      let rd := sreg (field4 insn 12) (bit insn 22)
      let (r, exc) := arithSwitch (fun op a b e ↦ f32Do fpu op a b fpscr e) fneg32 kind
        (c.vfpS rd) (c.vfpS (sreg (field4 insn 16) (bit insn 7)))
        (c.vfpS (sreg (field4 insn 0) (bit insn 5)))
      if exc &&& vfpFzAmbiguous ≠ 0 then c.refuse next
      else ((c.setS rd r).raise exc).done next

/-- VMOV, VABS, VNEG and VSQRT. -/
def vfpMoveSqrt (fpu : HostFpu) (c : Core) (insn next : Word) : Outcome :=
  let fpscr := c.vfpFpscr
  let top := bit insn 7
  let first := field4 insn 16 = 0
  if fpscr &&& (if !first ∧ top then modeRounding else modeExact) ≠ 0 then c.refuse next
  else if bit insn 8 then
    if bit insn 22 ∨ bit insn 5 then c.refuse next
    else
      let s := c.getD (field4 insn 0)
      let (r, exc) :=
        if first then (if top then fabs64 s else s, 0)
        else if !top then (fneg64 s, 0)
        else f64Do fpu .sqrt s 0 fpscr 0
      if exc &&& vfpFzAmbiguous ≠ 0 then c.refuse next
      else ((c.setD (field4 insn 12) r).raise exc).done next
  else
    let s := c.vfpS (sreg (field4 insn 0) (bit insn 5))
    let (r, exc) :=
      if first then (if top then fabs32 s else s, 0)
      else if !top then (fneg32 s, 0)
      else f32Do fpu .sqrt s 0 fpscr 0
    if exc &&& vfpFzAmbiguous ≠ 0 then c.refuse next
    else ((c.setS (sreg (field4 insn 12) (bit insn 22)) r).raise exc).done next

def snan32 (u : Word) : Bool :=
  u &&& 0x7f800000 = 0x7f800000 && u &&& 0x007fffff ≠ 0 && u &&& 0x00400000 = 0

def snan64 (u : DWord) : Bool :=
  u &&& 0x7ff0000000000000 = 0x7ff0000000000000 && u &&& 0x000fffffffffffff ≠ 0 &&
    u &&& 0x0008000000000000 = 0

/-- `cmp_flags_ordered` of the order of two values. -/
def cmpFlags (unordered equal less : Bool) : Word :=
  if unordered then fpscrC ||| fpscrV
  else if equal then fpscrZ ||| fpscrC
  else if less then fpscrN
  else fpscrC

/-- VCMP and VCMPE, of two registers or with zero. -/
def vfpCompare (fpu : HostFpu) (c : Core) (insn next : Word) : Outcome :=
  let fpscr := c.vfpFpscr
  let zero : Bool := field4 insn 16 = 5
  let vm := field4 insn 0
  let flush := fpscr &&& fpscrFz ≠ 0
  let finish (unordered equal less snan : Bool) (exc : Word) : Outcome :=
    let exc := if snan || (bit insn 7 && unordered) then exc ||| fpscrIoc else exc
    { c with
      vfpFpscr := (fpscr &&& ~~~fpscrNzcv) ||| cmpFlags unordered equal less ||| exc }.done next
  if fpscr &&& modeValues ≠ 0 ∨ (zero ∧ (vm ≠ 0 ∨ bit insn 5)) then c.refuse next
  else if bit insn 8 then
    if bit insn 22 ∨ bit insn 5 then c.refuse next
    else
      let ua := c.getD (field4 insn 12)
      let ub := if zero then 0 else c.getD vm
      let (a, exc) := if flush then fzIn64 ua 0 else (ua, 0)
      let (b, exc) := if flush then fzIn64 ub exc else (ub, exc)
      finish (!fpu.eq64 a a || !fpu.eq64 b b) (fpu.eq64 a b) (fpu.lt64 a b)
        (snan64 ua || (!zero && snan64 ub)) exc
  else
    let ua := c.vfpS (sreg (field4 insn 12) (bit insn 22))
    let ub := if zero then 0 else c.vfpS (sreg vm (bit insn 5))
    let (a, exc) := if flush then fzIn32 ua 0 else (ua, 0)
    let (b, exc) := if flush then fzIn32 ub exc else (ub, exc)
    finish (!fpu.eq32 a a || !fpu.eq32 b b) (fpu.eq32 a b) (fpu.lt32 a b)
      (snan32 ua || (!zero && snan32 ub)) exc

/-- VCVT between the two precisions. -/
def vfpConvert (fpu : HostFpu) (c : Core) (insn next : Word) : Outcome :=
  let fpscr := c.vfpFpscr
  let dbl := bit insn 8
  let flush := fpscr &&& fpscrFz ≠ 0
  if !bit insn 7 ∨ fpscr &&& (if dbl then modeRounding else modeValues) ≠ 0 then c.refuse next
  else if dbl then
    if bit insn 5 then c.refuse next
    else
      let s := c.getD (field4 insn 0)
      let (s, exc) := if flush then fzIn64 s 0 else (s, 0)
      let (r, raised) := fpu.narrow (rmode fpscr) s
      let (r, exc) := if flush then fzOut32 r (exc ||| raised) else (r, exc ||| raised)
      if exc &&& vfpFzAmbiguous ≠ 0 then c.refuse next
      else
        ((c.setS (sreg (field4 insn 12) (bit insn 22)) (dnOut32 r fpscr)).raise exc).done next
  else if bit insn 22 then c.refuse next
  else
    let s := c.vfpS (sreg (field4 insn 0) (bit insn 5))
    let (s, exc) := if flush then fzIn32 s 0 else (s, 0)
    let (r, raised) := fpu.widen s
    ((c.setD (field4 insn 12) (dnOut64 r fpscr)).raise (exc ||| raised)).done next

/-- VCVT from an integer. -/
def vfpFromInt (fpu : HostFpu) (c : Core) (insn next : Word) : Outcome :=
  let fpscr := c.vfpFpscr
  let dbl := bit insn 8
  let raw := c.vfpS (sreg (field4 insn 0) (bit insn 5))
  let exact := if bit insn 7 then fpu.ofInt32 raw else fpu.ofUint32 raw
  if fpscr &&& (if dbl then modeExact else modeRounding) ≠ 0 then c.refuse next
  else if dbl then
    if bit insn 22 then c.refuse next else (c.setD (field4 insn 12) exact).done next
  else
    let (r, exc) := fpu.narrow (rmode fpscr) exact
    ((c.setS (sreg (field4 insn 12) (bit insn 22)) r).raise exc).done next

/-- The bit patterns of 2^31, -2^31 and 2^32. -/
def twoPow31 : DWord := 0x41e0000000000000
def negTwoPow31 : DWord := 0xc1e0000000000000
def twoPow32 : DWord := 0x41f0000000000000

def fpRoundIntegral (fpu : HostFpu) (value : DWord) (fpscr : Word) : DWord :=
  let mode := rmode fpscr
  fpu.round mode (if mode = 1 then .ceil else if mode = 2 then .floor
    else if mode = 3 then .trunc else .rint) value

def fpToInt (fpu : HostFpu) (value : DWord) (signed toZero : Bool) (fpscr exc : Word) :
    Word × Word :=
  if !fpu.eq64 value value then (0, exc ||| fpscrIoc)
  else
    let r := if toZero then fpu.round (rmode fpscr) .trunc value
      else fpRoundIntegral fpu value fpscr
    let inexact := if !fpu.eq64 r value then exc ||| fpscrIxc else exc
    if signed then
      if !fpu.lt64 r twoPow31 then (0x7fffffff, exc ||| fpscrIoc)
      else if fpu.lt64 r negTwoPow31 then (0x80000000, exc ||| fpscrIoc)
      else (fpu.toInt32 r, inexact)
    else if !fpu.lt64 r twoPow32 then (0xffffffff, exc ||| fpscrIoc)
    else if fpu.lt64 r 0 then (0, exc ||| fpscrIoc)
    else (fpu.toUint32 r, inexact)

/-- VCVT to an integer. -/
def vfpToInt (fpu : HostFpu) (c : Core) (insn next : Word) : Outcome :=
  let fpscr := c.vfpFpscr
  let flush := fpscr &&& fpscrFz ≠ 0
  if fpscr &&& modeValues ≠ 0 then c.refuse next
  else if bit insn 8 ∧ bit insn 5 then c.refuse next
  else
    let (value, exc) :=
      if bit insn 8 then
        let d := c.getD (field4 insn 0)
        if flush then fzIn64 d 0 else (d, 0)
      else
        let s := c.vfpS (sreg (field4 insn 0) (bit insn 5))
        let (s, exc) := if flush then fzIn32 s 0 else (s, 0)
        ((fpu.widen s).1, exc)
    let (res, exc) := fpToInt fpu value (bit insn 16) (bit insn 7) fpscr exc
    ((c.setS (sreg (field4 insn 12) (bit insn 22)) res).raise exc).done next

def vfpDpOther (fpu : HostFpu) (c : Core) (insn next : Word) : Outcome :=
  let opc2 := field4 insn 16
  if opc2 = 0 ∨ opc2 = 1 then vfpMoveSqrt fpu c insn next
  else if opc2 = 4 ∨ opc2 = 5 then vfpCompare fpu c insn next
  else if opc2 = 7 then vfpConvert fpu c insn next
  else if opc2 = 8 then vfpFromInt fpu c insn next
  else if opc2 = 12 ∨ opc2 = 13 then vfpToInt fpu c insn next
  else c.refuse next

def vfpDp (fpu : HostFpu) (c : Core) (insn next : Word) : Outcome :=
  let op : BitVec 3 := BitVec.ofBool (bit insn 23) ++ insn.extractLsb' 20 2
  if op = 7 then
    if bit insn 6 then vfpDpOther fpu c insn next else c.refuse next
  else vfpDpArith fpu c insn next op

def vfpExecuteInner (fpu : HostFpu) (c : Core) (pc insn next : Word) : Prog Outcome :=
  let crn := field4 insn 16
  if !vfpCpacrPermits c then pure (c.refuse next)
  else if !vfpEnabled c ∧ (insn &&& 0x0fe00f10 ≠ 0x0ee00a10 ∨ (crn ≠ 0 ∧ crn ≠ 8)) then
    pure (c.refuse next)
  else if insn &&& 0x0f000e10 = 0x0e000a10 then pure (vfpXfer32 c insn next)
  else if insn &&& 0x0f000e10 = 0x0e000a00 then pure (vfpDp fpu c insn next)
  else if insn &&& 0x0fe00e00 = 0x0c400a00 then pure (vfpXfer64 c insn next)
  else if insn &&& 0x0e000e00 = 0x0c000a00 then vfpLdst c pc insn next
  else pure (c.refuse next)

/-- `vfp_execute`: a rounding mode the host refuses stops the instruction. -/
def vfpExecute (fpu : HostFpu) (c : Core) (pc insn next : Word) : Prog Outcome :=
  if c.vfpFpscr &&& fpscrRmode ≠ 0 ∧ fpu.refuses (rmode c.vfpFpscr) then pure (c.refuse next)
  else vfpExecuteInner fpu c pc insn next

end S5LBox.Arm
