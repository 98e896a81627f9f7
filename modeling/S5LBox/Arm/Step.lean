import S5LBox.Arm.Coprocessor
import S5LBox.Arm.Thumb

/-!
# One step of the core

`arm_step`: interrupts, fetch, decode and the exceptions an instruction ends in.
-/

namespace S5LBox.Arm

/-- What a step leaves; the program counter is already in the register file. -/
abbrev StepResult := Status × Core

def insnIsVfpSpace (insn : Word) : Bool :=
  insn &&& 0xfe000000 = 0xf2000000 || insn &&& 0x0f000e10 = 0x0e000a00 ||
    insn &&& 0x0e000e00 = 0x0c000a00 || insn &&& 0xff100000 = 0xf4000000 ||
    insn &&& 0x0f000e10 = 0x0e000a10 || insn &&& 0x0fe00e00 = 0x0c400a00

def vfpLazyEnableTrap (c : Core) (insn : Word) : Bool :=
  insnIsVfpSpace insn && (!vfpCpacrPermits c || !vfpEnabled c)

/-- `undefined_instruction`: the lazy VFP trap is vectored, anything else stops the core. -/
def undefinedInstruction (c : Core) (pc insn : Word) : StepResult :=
  if vfpLazyEnableTrap c insn then (.ok, takeUndefinedInstruction c pc) else (.undefined, c)

/-- The end of an instruction that made no access: the next address, if it retired. -/
def commit (o : Outcome) : StepResult :=
  if o.status = .ok then (.ok, o.core.setR 15 o.next) else (o.status, o.core)

/-- The end of an SRS or RFE: a fault of its accesses is taken before anything is committed. -/
def commitStacked (pc : Word) (o : Outcome) : StepResult :=
  if o.status = .ok ∧ o.core.abortPending then (.ok, takePendingDataAbort o.core pc)
  else commit o

/-- The end of a Thumb instruction. -/
def commitThumb (pc : Word) (o : Outcome) : StepResult :=
  if o.status = .halt then (.halt, o.core)
  else if o.core.abortPending then (.ok, takePendingDataAbort o.core pc)
  else commit o

/-- The end of a conditional ARM instruction. -/
def commitArm (pc insn : Word) (o : Outcome) : StepResult :=
  if o.status = .halt then (.halt, o.core)
  else if o.core.abortPending then (.ok, takePendingDataAbort o.core pc)
  else if o.status = .guestUndefined then (.ok, takeUndefinedInstruction o.core pc)
  else if o.status = .undefined then undefinedInstruction o.core pc insn
  else commit o

/-- The address SRS and RFE start from. -/
def stackedAddress (insn sp : Word) : Word :=
  if bit insn 23 then if bit insn 24 then sp + 4 else sp
  else if bit insn 24 then sp - 8 else sp - 4

def stackedWriteback (insn sp : Word) : Word := if bit insn 23 then sp + 8 else sp - 8

/-- CPS. -/
def execCps (c : Core) (insn next : Word) : Outcome :=
  if !c.isPriv then c.done next
  else if bit insn 17 ∧ !armModeIsValid insn then c.refuse next
  else
    let disable := bit insn 18
    let c :=
      if bit insn 19 then
        let c := if insn &&& cpsrA ≠ 0 then c.setFlag cpsrA disable else c
        let c := if insn &&& cpsrI ≠ 0 then c.setFlag cpsrI disable else c
        if insn &&& cpsrF ≠ 0 then c.setFlag cpsrF disable else c
      else c
    (if bit insn 17 then armSetMode c (insn &&& cpsrModeMask) else c).done next

/-- BLX with an immediate. -/
def execBlxImmediate (c : Core) (pc insn : Word) : Outcome :=
  let off := (insn <<< 8).sshiftRight 6
  let h : Word := if bit insn 24 then 2 else 0
  let c := c.setR 14 (pc + 4)
  c.setT.done ((pc + 8 + off + h) &&& ~~~1)

/-- SRS: LR and SPSR to the stack of a mode. -/
def execSrs (c : Core) (insn next : Word) : Prog Outcome :=
  let mode := insn &&& cpsrModeMask
  let curMode := c.cpsr &&& cpsrModeMask
  if curMode = modeUsr ∨ curMode = modeSys ∨ !armModeIsValid mode then pure (c.refuse next)
  else
    let tb := armBankOfMode mode
    let cur := armBankOfMode c.cpsr
    let sp := if tb = cur then c.r 13 else c.bankR13 tb
    match prepareMultiwordAddress c (stackedAddress insn sp) 4 true with
    | (none, c) => pure (c.done next)
    | (some base, c) => do
      let c ← memWrite .word c base (c.r 14)
      if c.abortPending then pure (c.done next)
      else do
        let c ← memWrite .word c (base + 4) (c.spsr cur)
        if c.abortPending then pure (c.done next)
        else if bit insn 21 then
          let wb := stackedWriteback insn sp
          pure ((if tb = cur then c.setR 13 wb
            else { c with bankR13 := Function.update c.bankR13 tb wb }).done next)
        else pure (c.done next)

/-- RFE: PC and CPSR from memory. -/
def execRfe (c : Core) (insn next : Word) : Prog Outcome :=
  let rn := field4 insn 16
  if !c.isPriv ∨ rn = 15 then pure (c.refuse next)
  else
    let sp := c.r rn
    match prepareMultiwordAddress c (stackedAddress insn sp) 4 false with
    | (none, c) => pure (c.done next)
    | (some base, c) => do
      let (newPc, c) ← memRead .word c base
      if c.abortPending then pure (c.done next)
      else do
        let (newCpsr, c) ← memRead .word c (base + 4)
        if c.abortPending then pure (c.done next)
        else if !armModeIsValid newCpsr ∨ (newCpsr &&& cpsrT = 0 ∧ newPc &&& 2 ≠ 0) then
          pure (c.refuse next)
        else
          let c := if bit insn 21 then c.setR rn (stackedWriteback insn sp) else c
          let c := restoreCpsr c newCpsr
          pure (c.done (newPc &&& pcMask c))

/-- The encodings with condition 1111. -/
def execUnconditional (c : Core) (pc insn next : Word) : Prog StepResult :=
  if insn = 0xf57ff01f then pure (commit ({ c with exclValid := false }.done next))
  else if insn &&& 0x0c00f000 = 0x0400f000 then pure (commit (c.done next))
  else if insn &&& 0xfff1fe20 = 0xf1000000 then pure (commit (execCps c insn next))
  else if insn &&& 0xfe000000 = 0xfa000000 then pure (commit (execBlxImmediate c pc insn))
  else if insn &&& 0xfe5fffe0 = 0xf84d0500 then commitStacked pc <$> execSrs c insn next
  else if insn &&& 0xfe50ffff = 0xf8100a00 then commitStacked pc <$> execRfe c insn next
  else if insn &&& 0xfffffdff = 0xf1010000 then
    pure (commit (if bit insn 9 then c.refuse next else c.done next))
  else pure (undefinedInstruction c pc insn)

/-- The exclusives, the swap and what is left of their space. -/
def execSynchronization (c : Core) (insn next : Word) : Prog Outcome :=
  if insn &&& 0x0ff00ff0 = 0x01900f90 then execLoadExclusive .word 4 c insn next
  else if insn &&& 0x0ff00ff0 = 0x01800f90 then execStoreExclusive .word 4 true c insn next
  else if insn &&& 0x0ff00ff0 = 0x01b00f90 then execLoadExclusiveDouble c insn next
  else if insn &&& 0x0ff00ff0 = 0x01a00f90 then execStoreExclusiveDouble c insn next
  else if insn &&& 0x0ff00ff0 = 0x01d00f90 then execLoadExclusive .byte 1 c insn next
  else if insn &&& 0x0ff00ff0 = 0x01c00f90 then execStoreExclusive .byte 1 false c insn next
  else if insn &&& 0x0ff00ff0 = 0x01f00f90 then execLoadExclusive .half 2 c insn next
  else if insn &&& 0x0ff00ff0 = 0x01e00f90 then execStoreExclusive .half 2 false c insn next
  else if insn &&& 0x0fb00ff0 = 0x01000090 then execSwap c insn next
  else pure (c.refuse next)

/-- The decode chain of `arm_step`, in its order. -/
def execArm (fpu : HostFpu) (c : Core) (pc insn next : Word) : Prog Outcome :=
  let extension := insn &&& 0x0e000000 = 0 ∧ insn &&& 0x00000090 = 0x00000090
  if insn &&& 0x0c000000 = 0 ∧ insn &&& 0x01900000 ≠ 0x01000000 ∧ ¬extension then
    pure (execDataProcessing c pc insn next)
  else if insn &&& 0x0f000000 = 0x0a000000 ∨ insn &&& 0x0f000000 = 0x0b000000 then
    pure (execBranch c pc insn)
  else if insn &&& 0x0fc000f0 = 0x00000090 then pure (execMultiply c pc insn next)
  else if insn &&& 0x0f8000f0 = 0x00800090 then pure (execMultiplyLong c pc insn next)
  else if insn &&& 0x0f900090 = 0x01000080 then pure (execDspMultiply c insn next)
  else if insn &&& 0x0e000000 = 0x06000000 ∧ bit insn 4 then pure (execMedia c pc insn next)
  else if insn &&& 0x0c000000 = 0x04000000 then execSingleTransfer c pc insn next
  else if insn &&& 0x0e000000 = 0x08000000 then execBlockTransfer c pc insn next
  else if extension ∧ insn &&& 0x00000060 ≠ 0 then execExtraTransfer c pc insn next
  else if extension then execSynchronization c insn next
  else if insn &&& 0x0f000010 = 0x0e000010 then execCoprocessor fpu c pc insn next
  else if insn &&& 0x0f000e10 = 0x0e000a00 ∨ insn &&& 0x0e000e00 = 0x0c000a00 then
    vfpExecute fpu c pc insn next
  else if insn &&& 0x0f000000 = 0x0f000000 then execSvc c pc insn next
  else if insn &&& 0x0c000000 = 0 then pure (execDataProcessing c pc insn next)
  else pure (c.refuse next)

/-- A step in ARM state, once the instruction is fetched. -/
def stepArm (fpu : HostFpu) (c : Core) (pc insn : Word) : Prog StepResult :=
  let c := { c with cycles := c.cycles + 1 }
  let next := pc + 4
  let cond := field4 insn 28
  if cond = 0xf then execUnconditional c pc insn next
  else if cond ≠ 0xe ∧ !armCondPassed c cond then pure (commit (c.done next))
  else commitArm pc insn <$> execArm fpu c pc insn next

/-- A step in Thumb state. -/
def stepThumb (c : Core) (pc : Word) (insn : Half) : Prog StepResult :=
  commitThumb pc <$> thumbStep { c with cycles := c.cycles + 1 } pc insn (pc + 2)

/-- A prefetch abort. -/
def takePrefetchAbort (c : Core) (pc fsr : Word) : Core :=
  enterException
    { c with cycles := c.cycles + 1, cp15 := { c.cp15 with ifsr := fsr, ifar := pc } }
    vecPrefetch modeAbt (pc + 4) false

def armStep (fpu : HostFpu) (c : Core) : Prog StepResult :=
  let pc := c.r 15
  let thumb := c.getFlag cpsrT
  if !armModeIsValid c.cpsr then pure (.undefined, c)
  else if c.fiqLine ∧ !c.getFlag cpsrF then
    pure (.ok, enterException { c with cycles := c.cycles + 1 } vecFiq modeFiq (pc + 4) true)
  else if c.irqLine ∧ !c.getFlag cpsrI then
    pure (.ok, enterException { c with cycles := c.cycles + 1 } vecIrq modeIrq (pc + 4) false)
  else do
    match ← ask (.fetch c.cp15.stamp pc c.isPriv thumb) with
    | .error fsr => pure (.ok, takePrefetchAbort c pc fsr)
    | .ok insn => if thumb then stepThumb c pc (insn.setWidth 16) else stepArm fpu c pc insn

variable {σ : Type}

/-- An `arm_cpu_t`: the architectural fields and the caches. -/
structure Cpu where
  core : Core
  caches : Caches

def armReset (cpu : Cpu) : Cpu := ⟨coreReset cpu.core.arch, cachesReset cpu.caches.tlbStamp⟩

/-- `arm_step` on a core and the bus behind it. -/
def cpuStep (fpu : HostFpu) (bus : Bus σ) (cpu : Cpu) (ctx : σ) : Status × Cpu × σ :=
  let ((status, core), caches, ctx) :=
    Program.run (busHandler bus) (armStep fpu cpu.core) (cpu.caches, ctx)
  (status, ⟨core, caches⟩, ctx)

end S5LBox.Arm
