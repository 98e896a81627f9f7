import S5LBox.Arm.Vfp

/-!
# Coprocessor register transfers

`exec_coprocessor`: MRC and MCR of CP15, the CP14 stub and the way into the VFP. A write that
changes what a translation means asks for a flush.
-/

namespace S5LBox.Arm

/-- The CPUID feature words of CRm 1 and 2. -/
def idRegister (crm : BitVec 4) (opc2 : BitVec 3) : Word :=
  if crm = 0 then
    if opc2 = 0 then 0x410fb767 else if opc2 = 1 then 0x1d152152 else 0
  else if crm = 1 then
    ([0x00000111, 0x00000001, 0x00000000, 0x00000000, 0x01130003, 0x10030302, 0x01222100,
      0x00000000] : List Word).getD opc2.toNat 0
  else if crm = 2 then
    ([0x00140011, 0x12002111, 0x11231121, 0x01102131, 0x00000141, 0x00000000, 0, 0] :
      List Word).getD opc2.toNat 0
  else 0

/-- The value an MRC of CP15 reads. -/
def cp15Read (p : Cp15) (crn crm : BitVec 4) (opc2 : BitVec 3) : Word :=
  if crn = 0 then idRegister crm opc2
  else if crn = 1 then
    if crm ≠ 0 then 0
    else if opc2 = 0 then p.sctlr
    else if opc2 = 1 then p.actlr
    else if opc2 = 2 then p.cpacr
    else 0
  else if crn = 2 then
    if crm ≠ 0 then 0
    else if opc2 = 0 then p.ttbr0
    else if opc2 = 1 then p.ttbr1
    else if opc2 = 2 then p.ttbcr
    else 0
  else if crn = 3 then p.dacr
  else if crn = 5 then if opc2 = 1 then p.ifsr else p.dfsr
  else if crn = 6 then if opc2 = 2 then p.ifar else p.dfar
  else if crn = 13 then
    if opc2 = 1 then p.contextId
    else if opc2 = 2 then p.tpidrurw
    else if opc2 = 3 then p.tpidruro
    else if opc2 = 4 then p.tpidrprw
    else p.fcsePid
  else 0

/-- What an MCR of CP15 stores, and whether it flushes the translations. -/
def cp15Write (p : Cp15) (crn crm : BitVec 4) (opc2 : BitVec 3) (value : Word) : Cp15 × Bool :=
  if crn = 1 then
    if crm ≠ 0 then (p, false)
    else if opc2 = 0 then ({ p with sctlr := value }, true)
    else if opc2 = 1 then ({ p with actlr := value }, false)
    else if opc2 = 2 then ({ p with cpacr := value }, false)
    else (p, false)
  else if crn = 2 then
    if crm ≠ 0 then (p, false)
    else if opc2 = 0 then ({ p with ttbr0 := value }, true)
    else if opc2 = 1 then ({ p with ttbr1 := value }, true)
    else if opc2 = 2 then ({ p with ttbcr := value &&& 0x37 }, true)
    else (p, true)
  else if crn = 3 then ({ p with dacr := value }, true)
  else if crn = 5 then
    (if opc2 = 1 then { p with ifsr := value } else { p with dfsr := value }, false)
  else if crn = 6 then
    (if opc2 = 2 then { p with ifar := value } else { p with dfar := value }, false)
  else if crn = 8 then (p, true)
  else if crn = 13 then
    if opc2 = 1 then ({ p with contextId := value }, true)
    else if opc2 = 2 then ({ p with tpidrurw := value }, false)
    else if opc2 = 3 then ({ p with tpidruro := value }, false)
    else if opc2 = 4 then ({ p with tpidrprw := value }, false)
    else ({ p with fcsePid := value }, false)
  else (p, false)

/-- The CP15 registers User mode may reach: the barriers, and the two thread registers. -/
def cp15UserAllowed (crn crm : BitVec 4) (opc2 : BitVec 3) (load : Bool) : Bool :=
  crn = 7 || (crn = 13 && crm = 0 && opc2 = 2) || (crn = 13 && crm = 0 && opc2 = 3 && load)

/-- The CP15 transfers of `exec_coprocessor`. -/
def execCp15 (c : Core) (pc insn next : Word) : Prog Outcome :=
  let load := bit insn 20
  let opc1 := insn.extractLsb' 21 3
  let crn := field4 insn 16
  let rd := field4 insn 12
  let opc2 := insn.extractLsb' 5 3
  let crm := field4 insn 0
  if !load ∧ opc1 = 0 ∧ crn = 7 ∧ opc2 = 4 ∧ crm = 0 then
    if !c.isPriv ∨ c.regRead pc rd ≠ 0 then pure (c.refuse next)
    else do
      let _ ← ask .waitForInterrupt
      pure (c.done next)
  else if !c.isPriv ∧ !cp15UserAllowed crn crm opc2 load then pure (c.refuse next)
  else if load then pure ((c.setR rd (cp15Read c.cp15 crn crm opc2)).done next)
  else
    match cp15Write c.cp15 crn crm opc2 (c.regRead pc rd) with
    | (p, false) => pure ({ c with cp15 := p }.done next)
    | (p, true) => do
      let _ ← ask (.flush p.stamp)
      pure ({ c with cp15 := p }.done next)

def execCoprocessor (fpu : HostFpu) (c : Core) (pc insn next : Word) : Prog Outcome :=
  let cp := field4 insn 8
  if cp = 14 then
    if !c.isPriv then pure (c.refuse next)
    else pure ((if bit insn 20 then c.setR (field4 insn 12) 0 else c).done next)
  else if cp = 10 ∨ cp = 11 then vfpExecute fpu c pc insn next
  else if cp ≠ 15 then pure (c.refuse next)
  else execCp15 c pc insn next

end S5LBox.Arm
