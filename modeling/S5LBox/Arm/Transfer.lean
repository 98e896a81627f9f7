import S5LBox.Arm.DataProcessing
import S5LBox.Arm.Memory

/-!
# Load and store instructions of the ARM set

Single, extra and multiple transfers, the exclusives and the swap. Each of them commits its
registers after its last access: a fault noted by an access ends the instruction at once.
-/

namespace S5LBox.Arm

/-- An interworking load of the PC: bit 0 selects the instruction set. -/
def interwork (c : Core) (value : Word) : Core × Word :=
  if bit value 0 then (c.setT, value &&& ~~~1)
  else (c.clearT, value &&& ~~~3)

/-- A loaded value into `rd`; the PC takes it as a branch target. -/
def commitLoad (c : Core) (rd : Reg) (value next : Word) : Core × Word :=
  let c := c.setR rd value
  if rd = 15 then interwork c value else (c, next)

/-- `exec_single_transfer`: LDR, STR, LDRB, STRB and their unprivileged forms. -/
def execSingleTransfer (c : Core) (pc insn next : Word) : Prog Outcome :=
  let i := bit insn 25
  let p := bit insn 24
  let u := bit insn 23
  let b := bit insn 22
  let w := bit insn 21
  let l := bit insn 20
  let rn := field4 insn 16
  let rd := field4 insn 12
  let writeback := !p || w
  if (writeback ∧ (rn = 15 ∨ rn = rd)) ∨ (i ∧ field4 insn 0 = 15) ∨ (b ∧ rd = 15) ∨
      (l ∧ !p ∧ w ∧ rd = 15) then pure (c.refuse next)
  else
    let offset :=
      if i then
        (barrelShift (c.regRead pc (field4 insn 0)) (insn.extractLsb' 5 2)
          (insn.extractLsb' 7 5).toNat false (c.getFlag cpsrC)).1
      else insn &&& 0xfff
    let base := c.regRead pc rn
    let indexed := if u then base + offset else base - offset
    let addr := if p then indexed else base
    let priv := if !p && w then false else c.isPriv
    let width : Width := if b then .byte else .word
    let finish (c : Core) (next : Word) := (if writeback then c.setR rn indexed else c).done next
    if l then
      if rd = 15 ∧ addr &&& 3 ≠ 0 then
        if c.sctlrFlag sctlrA then pure ((noteAlignmentAbort c addr false).done next)
        else pure (c.refuse next)
      else do
        let (value, c) ← memReadAs width c addr priv
        if c.abortPending then pure (c.done next)
        else if rd = 15 ∧ value &&& 3 = 2 then pure (c.refuse next)
        else
          let (c, next) := commitLoad c rd value next
          pure (finish c next)
    else do
      let c ← memWriteAs width c addr (if rd = 15 then pc + 12 else c.r rd) priv
      if c.abortPending then pure (c.done next) else pure (finish c next)

/-- The doubleword forms of `exec_extra_transfer`. -/
def execDoubleword (c : Core) (pc : Word) (rd : Reg) (addr next : Word) (store : Bool)
    (finish : Core → Outcome) : Prog Outcome :=
  match prepareMultiwordAddress c addr 4 store with
  | (none, c) => pure (c.done next)
  | (some xfer, c) =>
    if store then do
      let c ← memWrite .word c xfer (c.regRead pc rd)
      if c.abortPending then pure (c.done next)
      else do
        let c ← memWrite .word c (xfer + 4) (c.regRead pc (rd + 1))
        if c.abortPending then pure (c.done next) else pure (finish c)
    else do
      let (lo, c) ← memRead .word c xfer
      if c.abortPending then pure (c.done next)
      else do
        let (hi, c) ← memRead .word c (xfer + 4)
        if c.abortPending then pure (c.done next)
        else pure (finish ((c.setR rd lo).setR (rd + 1) hi))

/-- `exec_extra_transfer`: halfwords, signed loads and doublewords. -/
def execExtraTransfer (c : Core) (pc insn next : Word) : Prog Outcome :=
  let p := bit insn 24
  let u := bit insn 23
  let i := bit insn 22
  let w := bit insn 21
  let l := bit insn 20
  let rn := field4 insn 16
  let rd := field4 insn 12
  let sh := insn.extractLsb' 5 2
  let writeback := !p || w
  let doubleword := !l && sh ≠ 1
  if rd = 15 ∨ (!p ∧ w) ∨ (writeback ∧ (rn = 15 ∨ rn = rd)) ∨
      (!i ∧ (field4 insn 8 ≠ 0 ∨ field4 insn 0 = 15)) ∨
      (doubleword ∧ (bit insn 12 ∨ rd = 14 ∨ (writeback ∧ rn = rd + 1))) then
    pure (c.refuse next)
  else
    let offset :=
      if i then (field4 insn 8 ++ field4 insn 0).setWidth 32 else c.regRead pc (field4 insn 0)
    let base := c.regRead pc rn
    let indexed := if u then base + offset else base - offset
    let addr := if p then indexed else base
    let finish (c : Core) : Outcome := (if writeback then c.setR rn indexed else c).done next
    if (sh = 1 ∨ (l ∧ sh = 3)) ∧ legacyHalfwordUnpredictable c addr then pure (c.refuse next)
    else if doubleword then execDoubleword c pc rd addr next (sh = 3) finish
    else if l then
      if sh = 0 then pure (c.refuse next)
      else do
        let (value, c) ← memRead (if sh = 2 then .byte else .half) c addr
        if c.abortPending then pure (c.done next)
        else
          let value :=
            if sh = 2 then (value.setWidth 8).signExtend 32
            else if sh = 3 then (value.setWidth 16).signExtend 32
            else value
          pure (finish (c.setR rd value))
    else do
      let c ← memWrite .half c addr (c.regRead pc rd)
      if c.abortPending then pure (c.done next) else pure (finish c)

/-- The registers of a list, in ascending order. -/
def registerList (list : Word) (count : ℕ) : List Reg :=
  ((List.range count).filter fun i ↦ bit list i).map (BitVec.ofNat 4)

/-- The load loop: the registers with their values, or none after a fault. -/
def blockLoad (c : Core) (addr : Word) : List Reg → Prog (Option (List (Reg × Word)) × Core)
  | [] => pure (some [], c)
  | i :: rest => do
    let (value, c) ← memRead .word c addr
    if c.abortPending then pure (none, c)
    else do
      let (loaded, c) ← blockLoad c (addr + 4) rest
      pure (loaded.map ((i, value) :: ·), c)

/-- The store loop; it stops at the first fault. -/
def blockStore (c : Core) (addr : Word) : List Word → Prog Core
  | [] => pure c
  | value :: rest => do
    let c ← memWrite .word c addr value
    if c.abortPending then pure c else blockStore c (addr + 4) rest

/-- The assignments after the last load. -/
def commitBlock (c : Core) (userBank : Bool) (loaded : List (Reg × Word)) : Core :=
  loaded.foldl (fun c entry ↦
    if userBank then regWriteUser c entry.1 entry.2 else c.setR entry.1 entry.2) c

/-- The end of an LDM: the checks on a loaded PC, the registers, the writeback and, for the form
that returns from an exception, the CPSR. -/
def finishBlockLoad (c : Core) (loaded : List (Reg × Word)) (restore userBank : Bool)
    (writeBack : Core → Core) (next : Word) : Outcome :=
  let spsr := c.spsr (armBankOfMode c.cpsr)
  match loaded.lookup 15 with
  | none => (writeBack (commitBlock c userBank loaded)).done next
  | some target =>
    if !restore ∧ target &&& 3 = 2 then c.refuse next
    else if restore ∧ spsr &&& cpsrT = 0 ∧ target &&& 2 ≠ 0 then c.refuse next
    else
      let c := commitBlock c userBank loaded
      if restore then
        let c := writeBack c
        let c := restoreCpsr c (c.spsr (armBankOfMode c.cpsr))
        c.done (target &&& pcMask c)
      else
        let (c, next) := interwork c target
        (writeBack c).done next

/-- `exec_block_transfer`: LDM and STM. -/
def execBlockTransfer (c : Core) (pc insn next : Word) : Prog Outcome :=
  let p := bit insn 24
  let u := bit insn 23
  let s := bit insn 22
  let w := bit insn 21
  let l := bit insn 20
  let rn := field4 insn 16
  let regs := registerList insn 16
  let restore := s && l && bit insn 15
  let userBank := s && !restore
  let bank := armBankOfMode c.cpsr
  let mode := c.cpsr &&& cpsrModeMask
  if regs = [] ∨ rn = 15 then pure (c.refuse next)
  else if restore ∧ (bank = .usr ∨ !armModeIsValid (c.spsr bank)) then pure (c.refuse next)
  else if userBank ∧ (mode = modeUsr ∨ mode = modeSys) then pure (c.refuse next)
  else if userBank ∧ w then pure (c.refuse next)
  -- A base in its own list: never with a load, else only as the lowest register.
  else if w ∧ rn ∈ regs ∧ (l ∨ regs.head? ≠ some rn) then pure (c.refuse next)
  else
    let size : Word := 4 * BitVec.ofNat 32 regs.length
    let base := c.regRead pc rn
    let addr :=
      if u then if p then base + 4 else base else if p then base - size else base - size + 4
    let wb := if u then base + size else base - size
    let writeBack (c : Core) := if w ∧ !(l ∧ rn ∈ regs) then c.setR rn wb else c
    match prepareMultiwordAddress c addr 4 (!l) with
    | (none, c) => pure (c.done next)
    | (some addr, c) =>
      if l then do
        match ← blockLoad c addr regs with
        | (none, c) => pure (c.done next)
        | (some loaded, c) => pure (finishBlockLoad c loaded restore userBank writeBack next)
      else do
        let c ← blockStore c addr (regs.map fun i ↦
          if i = 15 then pc + 12 else if userBank then regReadUser c pc i else c.r i)
        if c.abortPending then pure (c.done next) else pure ((writeBack c).done next)

/-- LDREX, LDREXB and LDREXH. -/
def execLoadExclusive (width : Width) (alignment : Word) (c : Core) (insn next : Word) :
    Prog Outcome :=
  let rn := field4 insn 16
  let rd := field4 insn 12
  if rn = 15 ∨ rd = 15 then pure (c.refuse next)
  else
    let addr := c.r rn
    match prepareSyncAddress c addr alignment false with
    | some (status, c) => pure ⟨status, c, next⟩
    | none => do
      let (value, c) ← memRead width c addr
      if c.abortPending then pure (c.done next)
      else pure ({ c.setR rd value with exclValid := true, exclAddr := addr }.done next)

/-- LDREXD. -/
def execLoadExclusiveDouble (c : Core) (insn next : Word) : Prog Outcome :=
  let rn := field4 insn 16
  let rd := field4 insn 12
  if rn = 15 ∨ bit insn 12 ∨ rd = 14 then pure (c.refuse next)
  else
    let addr := c.r rn
    match prepareSyncAddress c addr 8 false with
    | some (status, c) => pure ⟨status, c, next⟩
    | none => do
      let (lo, c) ← memRead .word c addr
      if c.abortPending then pure (c.done next)
      else do
        let (hi, c) ← memRead .word c (addr + 4)
        if c.abortPending then pure (c.done next)
        else
          let c := (c.setR rd lo).setR (rd + 1) hi
          pure ({ c with exclValid := true, exclAddr := addr }.done next)

/-- STREX, STREXB and STREXH. STREX alone translates its address before it looks at the
monitor. -/
def execStoreExclusive (width : Width) (alignment : Word) (probe : Bool) (c : Core)
    (insn next : Word) : Prog Outcome :=
  let rn := field4 insn 16
  let rd := field4 insn 12
  let rm := field4 insn 0
  if rn = 15 ∨ rd = 15 ∨ rm = 15 ∨ rd = rn ∨ rd = rm then pure (c.refuse next)
  else
    let addr := c.r rn
    match prepareSyncAddress c addr alignment true with
    | some (status, c) => pure ⟨status, c, next⟩
    | none => do
      let fsr ← if probe then ask (.translate c.cp15.stamp addr .write c.isPriv) else pure 0
      if fsr ≠ 0 then pure ({ c.noteAbort fsr addr with exclValid := false }.done next)
      else if c.exclValid ∧ c.exclAddr = addr then do
        let c ← memWrite width c addr (c.r rm)
        let c := if c.abortPending then c else c.setR rd 0
        pure ({ c with exclValid := false }.done next)
      else pure ({ c.setR rd 1 with exclValid := false }.done next)

/-- STREXD. -/
def execStoreExclusiveDouble (c : Core) (insn next : Word) : Prog Outcome :=
  let rn := field4 insn 16
  let rd := field4 insn 12
  let rm := field4 insn 0
  if rn = 15 ∨ rd = 15 ∨ bit insn 0 ∨ rm = 14 ∨ rd = rn ∨ rd = rm ∨ rd = rm + 1 then
    pure (c.refuse next)
  else
    let addr := c.r rn
    match prepareSyncAddress c addr 8 true with
    | some (status, c) => pure ⟨status, c, next⟩
    | none =>
      if c.exclValid ∧ c.exclAddr = addr then do
        let c ← memWrite .word c addr (c.r rm)
        if c.abortPending then pure ({ c with exclValid := false }.done next)
        else do
          let c ← memWrite .word c (addr + 4) (c.r (rm + 1))
          let c := if c.abortPending then c else c.setR rd 0
          pure ({ c with exclValid := false }.done next)
      else pure ({ c.setR rd 1 with exclValid := false }.done next)

/-- SWP and SWPB. -/
def execSwap (c : Core) (insn next : Word) : Prog Outcome :=
  let rn := field4 insn 16
  let rd := field4 insn 12
  let rm := field4 insn 0
  let width : Width := if bit insn 22 then .byte else .word
  if rn = 15 ∨ rd = 15 ∨ rm = 15 ∨ rn = rm ∨ rn = rd then pure (c.refuse next)
  else
    let addr := c.r rn
    if !bit insn 22 ∧ addr &&& 3 ≠ 0 ∧ c.cp15.sctlr &&& (sctlrU ||| sctlrA) ≠ 0 then
      pure ((noteAlignmentAbort c addr true).done next)
    else do
      let (old, c) ← memRead width c addr
      if c.abortPending then pure (c.done next)
      else do
        let c ← memWrite width c addr (c.r rm)
        if c.abortPending then pure (c.done next) else pure ((c.setR rd old).done next)

end S5LBox.Arm
