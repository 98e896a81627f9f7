import S5LBox.Word

/-!
# The architectural state of the ARM1176 core

The fields of `arm_cpu_t` an instruction can see, the register banks, the modes and exception
entry. The caches that only shorten a translation are kept apart, in the memory modules.
-/

namespace S5LBox.Arm

def cpsrN : Word := 0x80000000
def cpsrZ : Word := 0x40000000
def cpsrC : Word := 0x20000000
def cpsrV : Word := 0x10000000
def cpsrQ : Word := 0x08000000
def cpsrE : Word := 0x00000200
def cpsrA : Word := 0x00000100
def cpsrI : Word := 0x00000080
def cpsrF : Word := 0x00000040
def cpsrT : Word := 0x00000020
def cpsrModeMask : Word := 0x0000001f

def sctlrM : Word := 0x00000001
def sctlrA : Word := 0x00000002
def sctlrS : Word := 0x00000100
def sctlrR : Word := 0x00000200
def sctlrV : Word := 0x00002000
def sctlrU : Word := 0x00400000
def sctlrXp : Word := 0x00800000
def sctlrEe : Word := 0x02000000
def sctlrFa : Word := 0x20000000

def vecUndefined : Word := 0x04
def vecSwi : Word := 0x08
def vecPrefetch : Word := 0x0c
def vecDataAbort : Word := 0x10
def vecIrq : Word := 0x18
def vecFiq : Word := 0x1c

def modeUsr : Word := 0x10
def modeFiq : Word := 0x11
def modeIrq : Word := 0x12
def modeSvc : Word := 0x13
def modeAbt : Word := 0x17
def modeUnd : Word := 0x1b
def modeSys : Word := 0x1f

inductive Status where
  | ok
  | undefined
  | halt
  | guestUndefined
  deriving DecidableEq, Repr

/-- `arm_bank_t`. -/
inductive Bank where
  | usr
  | fiq
  | irq
  | svc
  | abt
  | und
  deriving DecidableEq, Repr

/-- `arm_arch_t`. -/
inductive Arch where
  | v6Arm1176
  | v7Swift
  deriving DecidableEq, Repr

/-- `arm_cp15_t`. -/
structure Cp15 where
  sctlr : Word := 0
  actlr : Word := 0
  cpacr : Word := 0
  ttbr0 : Word := 0
  ttbr1 : Word := 0
  ttbcr : Word := 0
  dacr : Word := 0
  dfsr : Word := 0
  ifsr : Word := 0
  dfar : Word := 0
  ifar : Word := 0
  fcsePid : Word := 0
  contextId : Word := 0
  tpidrurw : Word := 0
  tpidruro : Word := 0
  tpidrprw : Word := 0
  deriving DecidableEq

abbrev Reg := BitVec 4

/-- The architectural fields of `arm_cpu_t`. `taken` is not in the source: it records the
vectors of the exceptions entered so far, the latest first. -/
structure Core where
  r : Reg → Word
  arch : Arch := .v6Arm1176
  cpsr : Word
  cp15 : Cp15 := {}
  spsr : Bank → Word
  bankR13 : Bank → Word
  bankR14 : Bank → Word
  fiqR8_12 : Fin 5 → Word
  usrR8_12 : Fin 5 → Word
  cycles : DWord := 0
  abortPending : Bool := false
  abortFsr : Word := 0
  abortFar : Word := 0
  irqLine : Bool := false
  fiqLine : Bool := false
  exclValid : Bool := false
  exclAddr : Word := 0
  vfpFpexc : Word := 0
  vfpFpscr : Word := 0
  vfpS : BitVec 5 → Word
  taken : List Word := []

namespace Core

def setR (c : Core) (n : Reg) (value : Word) : Core := { c with r := Function.update c.r n value }

def setFlag (c : Core) (bit : Word) (on : Bool) : Core :=
  { c with cpsr := if on then c.cpsr ||| bit else c.cpsr &&& ~~~bit }

def getFlag (c : Core) (bit : Word) : Bool := c.cpsr &&& bit ≠ 0

/-- `c->cpsr |= ARM_CPSR_Q;` -/
def setQ (c : Core) : Core := { c with cpsr := c.cpsr ||| cpsrQ }

/-- `c->cpsr |= ARM_CPSR_T;` -/
def setT (c : Core) : Core := { c with cpsr := c.cpsr ||| cpsrT }

/-- `c->cpsr &= ~ARM_CPSR_T;` -/
def clearT (c : Core) : Core := { c with cpsr := c.cpsr &&& ~~~cpsrT }

def isPriv (c : Core) : Bool := c.cpsr &&& cpsrModeMask ≠ modeUsr

def regRead (c : Core) (pc : Word) (n : Reg) : Word := if n = 15 then pc + 8 else c.r n

/-- `note_abort`: the first fault of an instruction is the one that is reported. -/
def noteAbort (c : Core) (fsr va : Word) : Core :=
  if c.abortPending then c
  else { c with abortPending := true, abortFsr := fsr, abortFar := va }

end Core

def armModeIsValid (mode : Word) : Bool :=
  mode &&& cpsrModeMask ∈ [modeUsr, modeFiq, modeIrq, modeSvc, modeAbt, modeUnd, modeSys]

def armBankOfMode (mode : Word) : Bank :=
  let m := mode &&& cpsrModeMask
  if m = modeFiq then .fiq
  else if m = modeIrq then .irq
  else if m = modeSvc then .svc
  else if m = modeAbt then .abt
  else if m = modeUnd then .und
  else .usr

/-- The position of r8 to r12 in the arrays that park them. -/
def parked (n : Reg) : Option (Fin 5) :=
  if 8 ≤ n then if h : n.toNat - 8 < 5 then some ⟨n.toNat - 8, h⟩ else none else none

/-- r8 to r12 out of a parking array, the other registers out of the file. -/
def unpark (park : Fin 5 → Word) (r : Reg → Word) : Reg → Word := fun n ↦
  match parked n with
  | some i => park i
  | none => r n

/-- What parking r8 to r12 stores. -/
def park (r : Reg → Word) : Fin 5 → Word := fun i ↦ r (8 + BitVec.ofNat 4 i)

/-- The exchange of banked registers in `arm_set_mode`, between two different banks. -/
def switchBank (c : Core) (ob nb : Bank) : Core :=
  let c := { c with
    bankR13 := Function.update c.bankR13 ob (c.r 13)
    bankR14 := Function.update c.bankR14 ob (c.r 14) }
  let c :=
    if ob = .fiq then { c with fiqR8_12 := park c.r, r := unpark c.usrR8_12 c.r }
    else if nb = .fiq then { c with usrR8_12 := park c.r, r := unpark c.fiqR8_12 c.r }
    else c
  (c.setR 13 (c.bankR13 nb)).setR 14 (c.bankR14 nb)

def armSetMode (c : Core) (mode : Word) : Core :=
  if armModeIsValid mode then
    let ob := armBankOfMode c.cpsr
    let nb := armBankOfMode mode
    let c := if ob ≠ nb then switchBank c ob nb else c
    { c with cpsr := (c.cpsr &&& ~~~cpsrModeMask) ||| (mode &&& cpsrModeMask) }
  else c

/-- Restoring a whole CPSR: the mode through `arm_set_mode`, then the other bits. -/
def restoreCpsr (c : Core) (s : Word) : Core :=
  let c := armSetMode c s
  { c with cpsr := (c.cpsr &&& cpsrModeMask) ||| (s &&& ~~~cpsrModeMask) }

def regReadUser (c : Core) (pc : Word) (n : Reg) : Word :=
  let cur := armBankOfMode c.cpsr
  if n = 15 then pc + 8
  else if cur = .usr then c.r n
  else if n = 13 then c.bankR13 .usr
  else if n = 14 then c.bankR14 .usr
  else if cur = .fiq then unpark c.usrR8_12 c.r n
  else c.r n

def regWriteUser (c : Core) (n : Reg) (value : Word) : Core :=
  let cur := armBankOfMode c.cpsr
  if cur = .usr then c.setR n value
  else if n = 13 then { c with bankR13 := Function.update c.bankR13 .usr value }
  else if n = 14 then { c with bankR14 := Function.update c.bankR14 .usr value }
  else if cur = .fiq then
    match parked n with
    | some i => { c with usrR8_12 := Function.update c.usrR8_12 i value }
    | none => c.setR n value
  else c.setR n value

/-- `take_exception`, with the value it leaves in `next`. -/
def takeException (c : Core) (vector mode ret : Word) (maskFiq : Bool) : Core × Word :=
  let saved := c.cpsr
  let c := armSetMode c mode
  let c := { c with spsr := Function.update c.spsr (armBankOfMode mode) saved }
  let c := (c.setR 14 ret).setFlag cpsrI true
  let c := if maskFiq then c.setFlag cpsrF true else c
  let c :=
    if vector = vecPrefetch ∨ vector = vecDataAbort ∨ vector = vecIrq ∨ vector = vecFiq then
      c.setFlag cpsrA true
    else c
  let c := (c.setFlag cpsrT false).setFlag cpsrE (c.cp15.sctlr &&& sctlrEe ≠ 0)
  ({ c with exclValid := false, taken := vector :: c.taken },
    (if c.cp15.sctlr &&& sctlrV ≠ 0 then 0xffff0000 else 0) + vector)

/-- An exception whose vector is the next instruction. -/
def enterException (c : Core) (vector mode ret : Word) (maskFiq : Bool) : Core :=
  let (c, vec) := takeException c vector mode ret maskFiq
  c.setR 15 vec

def takePendingDataAbort (c : Core) (pc : Word) : Core :=
  enterException
    { c with
      abortPending := false
      cp15 := { c.cp15 with dfsr := c.abortFsr, dfar := c.abortFar } }
    vecDataAbort modeAbt (pc + 8) false

def takeUndefinedInstruction (c : Core) (pc : Word) : Core :=
  enterException c vecUndefined modeUnd (pc + 4) false

def armCondPassed (c : Core) (cond : BitVec 4) : Bool :=
  let n := c.getFlag cpsrN
  let z := c.getFlag cpsrZ
  let carry := c.getFlag cpsrC
  let v := c.getFlag cpsrV
  if cond = 0x0 then z
  else if cond = 0x1 then !z
  else if cond = 0x2 then carry
  else if cond = 0x3 then !carry
  else if cond = 0x4 then n
  else if cond = 0x5 then !n
  else if cond = 0x6 then v
  else if cond = 0x7 then !v
  else if cond = 0x8 then carry && !z
  else if cond = 0x9 then !carry || z
  else if cond = 0xa then n == v
  else if cond = 0xb then n != v
  else if cond = 0xc then !z && (n == v)
  else if cond = 0xd then z || (n != v)
  else true

/-- The architectural half of `arm_reset`; the architecture variant is not reset. -/
def coreReset (arch : Arch) : Core where
  r := fun _ ↦ 0
  arch := arch
  cpsr := modeSvc ||| cpsrI ||| cpsrF ||| cpsrA
  spsr := fun _ ↦ 0
  bankR13 := fun _ ↦ 0
  bankR14 := fun _ ↦ 0
  fiqR8_12 := fun _ ↦ 0
  usrR8_12 := fun _ ↦ 0
  vfpS := fun _ ↦ 0

/-- The four-bit field at `at`, most often a register number. -/
def field4 (insn : Word) (start : ℕ) : BitVec 4 := insn.extractLsb' start 4

def bit (insn : Word) (index : ℕ) : Bool := insn.getLsbD index

def ror32 (value : Word) (n : ℕ) : Word :=
  let n := n % 32
  if n = 0 then value else (value >>> n) ||| (value <<< (32 - n))

def signExtend8 (value : Word) : Word := ((value &&& 0xff) ^^^ 0x80) - 0x80

def signExtend16 (value : Word) : Word := ((value &&& 0xffff) ^^^ 0x8000) - 0x8000

end S5LBox.Arm
