import S5LBox.Arm.Memory

/-!
# Decoding for the signed engine

The engine executes records: `decode_program_at` turns a run of instructions into a block of
them. How one instruction becomes records is a parameter; what this file keeps is the shape of a
block, which the engine's cache relies on: it depends on the octets of its own instructions only.
-/

namespace S5LBox.Arm

def a64StaticMaxInsns : ℕ := 16
def a64StaticMaxUops : ℕ := a64StaticMaxInsns * 4 + 16
/-- The longest expansion of one instruction, with the block transfers included. -/
def decodedMax : ℕ := 19

def a64sEnd : ℕ := 0
def a64sLdr : ℕ := 2497
def a64sCond : ℕ := 2641
def a64sDirectRead : ℕ := 24039
def a64sDirectWrite : ℕ := 24114
def a64sStmPreflight : ℕ := 25602
def a64sStmCommit : ℕ := 25662
def a64sStmFinish : ℕ := 25678
def a64sLdmPreflight : ℕ := 25694
def a64sLdmCommit : ℕ := 25754
def a64sVfpCoreToS : ℕ := 25785
def a64sVfpArith32 : ℕ := 26350
def a64sVfpDirectRead32 : ℕ := 26368
def a64sVfpDirectRead64 : ℕ := 26369
def a64sVfpDirectWrite32 : ℕ := 26370
def a64sVfpDirectWrite64 : ℕ := 26371
def a64sVstmDirectWrite : ℕ := 26372
def a64sBranchCond : ℕ := 26417
def a64sBranchLink : ℕ := 26431
def a64sArmBx : ℕ := 26446
def a64sHandlerCount : ℕ := 26508

/-- The half-open ranges the `handler_is_*` tests are made of. -/
def handlerIn (low high handler : ℕ) : Bool := low ≤ handler && handler < high

def handlerIsDirectRead (handler : ℕ) : Bool :=
  handlerIn a64sDirectRead a64sDirectWrite handler ||
    handlerIn a64sLdmPreflight a64sLdmCommit handler ||
    handlerIn a64sVfpDirectRead32 (a64sVfpDirectRead64 + 1) handler

def handlerIsDirectWrite (handler : ℕ) : Bool :=
  handlerIn a64sDirectWrite a64sStmPreflight handler ||
    handlerIn a64sStmFinish a64sLdmPreflight handler ||
    handlerIn a64sVfpDirectWrite32 a64sBranchCond handler

def handlerIsVfpDirectWrite : ℕ → Bool :=
  handlerIn a64sVfpDirectWrite32 (a64sVfpDirectWrite64 + 1)
def handlerIsVstmDirectWrite : ℕ → Bool := handlerIn a64sVstmDirectWrite a64sBranchCond
def handlerIsStmPreflight : ℕ → Bool := handlerIn a64sStmPreflight a64sStmCommit
def handlerIsStmFinish : ℕ → Bool := handlerIn a64sStmFinish a64sLdmPreflight
def handlerIsLdmPreflight : ℕ → Bool := handlerIn a64sLdmPreflight a64sLdmCommit
def handlerIsVfp : ℕ → Bool := handlerIn a64sVfpCoreToS a64sBranchCond
def handlerIsVfpArithmetic : ℕ → Bool := handlerIn a64sVfpArith32 a64sVfpDirectRead32
def handlerIsTerminalBranch : ℕ → Bool := handlerIn a64sBranchCond a64sHandlerCount
def handlerIsConditionalBranch : ℕ → Bool := handlerIn a64sBranchCond a64sBranchLink
def handlerIsIndirectBranch : ℕ → Bool := handlerIn a64sArmBx a64sHandlerCount
def handlerTouchesMemory : ℕ → Bool := handlerIn a64sLdr a64sCond

def handlerIsRuntimeGuarded (handler : ℕ) : Bool :=
  handlerIsDirectRead handler || handlerIsStmPreflight handler ||
    (handlerIsDirectWrite handler && !handlerIsStmFinish handler) || handlerIsVfp handler ||
    handlerIsIndirectBranch handler

/-- `a64_static_uop_t`. -/
structure Uop where
  handler : ℕ
  immediate : Word := 0
  pcValue : Word := 0
  metadata : Word := 0
  deriving DecidableEq

/-- `a64_static_block_t`. -/
structure Block where
  uops : List Uop := []
  insnCount : ℕ := 0
  startPc : Word := 0
  exitPc : Word := 0
  thumb : Bool := false
  dynamicExit : Bool := false
  indirectExit : Bool := false
  thumbConditionalExit : Bool := false
  touchesMemory : Bool := false
  directReads : Bool := false
  directWrites : Bool := false
  runtimeGuards : Bool := false
  vfp : Bool := false
  vfpArithmetic : Bool := false
  vfpDirectWrites : Bool := false
  stmDirectWrites : Bool := false
  ldmDirectReads : Bool := false
  vstmDirectWrites : Bool := false
  deriving DecidableEq

/-- `decode_arm` and `decode_thumb`: the records of one instruction, given its place among the
instructions asked for and the address of the first of them. -/
structure InsnDecoder where
  decodeArm : (insn : Word) → (index insns : ℕ) → (pc : Word) → Option (List Uop)
  decodeThumb : (insn : Half) → (index insns : ℕ) → (pc : Word) → Option (List Uop)

def insnWidth (thumb : Bool) : ℕ := if thumb then 2 else 4

def readLe16 (p : ℕ → Octet) (i : ℕ) : Half :=
  (p i).setWidth 16 ||| ((p (i + 1)).setWidth 16 <<< 8)

def readLe32 (p : ℕ → Octet) (i : ℕ) : Word :=
  (p i).setWidth 32 ||| ((p (i + 1)).setWidth 32 <<< 8) ||| ((p (i + 2)).setWidth 32 <<< 16) |||
    ((p (i + 3)).setWidth 32 <<< 24)

/-- An instruction of a program as a word. -/
def insnAt (program : ℕ → Octet) (thumb : Bool) (i : ℕ) : Word :=
  if thumb then (readLe16 program (i * 2)).setWidth 32 else readLe32 program (i * 4)

/-- The records of instruction `i`; a Thumb one may not use the flat memory handlers. -/
def decodeInsn (decoder : InsnDecoder) (program : ℕ → Octet) (insns : ℕ) (thumb : Bool) (pc : Word)
    (i : ℕ) : Option (List Uop) :=
  if thumb then
    (decoder.decodeThumb (readLe16 program (i * 2)) i insns pc).filter fun decoded ↦
      !decoded.any fun uop ↦ handlerTouchesMemory uop.handler
  else decoder.decodeArm (readLe32 program (i * 4)) i insns pc

/-- What `decode_program_at` records about one record of instruction `i`. -/
def noteUop (insns : ℕ) (thumb : Bool) (pc : Word) (i : ℕ) (out : Block) (uop : Uop) :
    Option Block :=
  let handler := uop.handler
  let last : Bool := i + 1 = insns
  if a64sHandlerCount ≤ handler ∨ (!last ∧ handler = a64sEnd) then none
  else if handlerIsTerminalBranch handler ∧ (!last ∨ out.dynamicExit) then none
  else if handlerIsDirectWrite handler ∧ !last then none
  else
    let guarded := handlerIsRuntimeGuarded handler
    let write := handlerIsDirectWrite handler
    let uop :=
      if guarded then
        { uop with
          pcValue := pc + BitVec.ofNat 32 (i * insnWidth thumb)
          metadata := BitVec.ofNat 32 ((i + 1) * 256 ||| (insns - i)) }
      else uop
    some { out with
      uops := out.uops ++ [uop]
      dynamicExit := out.dynamicExit || handlerIsTerminalBranch handler
      thumbConditionalExit :=
        out.thumbConditionalExit || (thumb && handlerIsConditionalBranch handler)
      indirectExit := out.indirectExit || handlerIsIndirectBranch handler
      touchesMemory := out.touchesMemory || handlerTouchesMemory handler ||
        handlerIsDirectRead handler || write
      runtimeGuards := out.runtimeGuards || guarded
      directReads := out.directReads || handlerIsDirectRead handler
      ldmDirectReads := out.ldmDirectReads || handlerIsLdmPreflight handler
      directWrites := out.directWrites || write
      vfpDirectWrites := out.vfpDirectWrites || handlerIsVfpDirectWrite handler
      stmDirectWrites := out.stmDirectWrites || handlerIsStmFinish handler
      vstmDirectWrites := out.vstmDirectWrites || handlerIsVstmDirectWrite handler
      vfp := out.vfp || handlerIsVfp handler
      vfpArithmetic := out.vfpArithmetic || handlerIsVfpArithmetic handler }

/-- Instruction `i` of the loop of `decode_program_at`. -/
def decodeOne (decoder : InsnDecoder) (program : ℕ → Octet) (insns : ℕ) (thumb : Bool) (pc : Word)
    (out : Block) (i : ℕ) : Option Block := do
  let decoded ← decodeInsn decoder program insns thumb pc i
  if decoded = [] ∨ decodedMax < decoded.length ∨
      a64StaticMaxUops - out.uops.length < decoded.length then none
  else decoded.foldlM (noteUop insns thumb pc i) out

/-- The records with the exit after them, where the last instruction has not made one. -/
def withExit (uops : List Uop) (fallthrough : Word) : Option (List Uop) :=
  if uops.getLast?.map Uop.handler = some a64sEnd then some uops
  else if uops.length = a64StaticMaxUops then none
  else some (uops ++ [{ handler := a64sEnd, immediate := fallthrough }])

/-- `a64_static_decode_memory_hits_bytes_at`: `decode_program_at` on guest octets, with the read
and the write records. -/
def decodeMemoryHits (decoder : InsnDecoder) (program : ℕ → Octet) (insns : ℕ) (thumb : Bool)
    (pc : Word) : Option Block :=
  if insns = 0 ∨ a64StaticMaxInsns < insns ∨ pc &&& (if thumb then 1 else 3) ≠ 0 then none
  else do
    let out ← (List.range insns).foldlM (decodeOne decoder program insns thumb pc) {}
    let uops ← withExit out.uops (pc + BitVec.ofNat 32 (insns * insnWidth thumb))
    some { out with
      uops := uops
      insnCount := insns
      startPc := pc
      exitPc := (uops.getLast?.map Uop.immediate).getD 0
      thumb := thumb }

variable {decoder : InsnDecoder} {program program' : ℕ → Octet} {insns : ℕ} {thumb : Bool}
  {pc : Word} {block : Block}

theorem decodeMemoryHits_fields (h : decodeMemoryHits decoder program insns thumb pc = some block) :
    block.insnCount = insns ∧ block.startPc = pc ∧ block.thumb = thumb ∧
      0 < insns ∧ insns ≤ a64StaticMaxInsns := by
  rw [decodeMemoryHits] at h
  by_cases hargs : insns = 0 ∨ a64StaticMaxInsns < insns ∨ pc &&& (if thumb then 1 else 3) ≠ 0
  · rw [if_pos hargs] at h
    contradiction
  · rw [if_neg hargs] at h
    simp only [Option.bind_eq_bind, Option.bind_eq_some_iff, Option.some.injEq] at h
    obtain ⟨out, -, uops, -, rfl⟩ := h
    refine ⟨rfl, rfl, rfl, ?_, ?_⟩ <;> omega

theorem foldlM_congr {α β : Type} {f g : β → α → Option β} {items : List α}
    (h : ∀ item ∈ items, ∀ acc, f acc item = g acc item) (acc : β) :
    items.foldlM f acc = items.foldlM g acc := by
  induction items generalizing acc with
  | nil => rfl
  | cons item rest ih =>
    rw [List.foldlM_cons, List.foldlM_cons, h item List.mem_cons_self acc]
    congr 1
    funext next
    exact ih (fun other hother ↦ h other (List.mem_cons_of_mem item hother)) next

theorem decodeInsn_congr (h : ∀ i < insns * insnWidth thumb, program i = program' i) {i : ℕ}
    (hi : i < insns) : decodeInsn decoder program insns thumb pc i =
      decodeInsn decoder program' insns thumb pc i := by
  cases thumb with
  | true =>
    change ∀ i < insns * 2, program i = program' i at h
    have heq : readLe16 program (i * 2) = readLe16 program' (i * 2) := by
      rw [readLe16, readLe16, h (i * 2) (by omega), h (i * 2 + 1) (by omega)]
    simp only [decodeInsn, if_true, heq]
  | false =>
    change ∀ i < insns * 4, program i = program' i at h
    have heq : readLe32 program (i * 4) = readLe32 program' (i * 4) := by
      rw [readLe32, readLe32, h (i * 4) (by omega), h (i * 4 + 1) (by omega),
        h (i * 4 + 2) (by omega), h (i * 4 + 3) (by omega)]
    simp only [decodeInsn, Bool.false_eq_true, if_false, heq]

/-- A block depends on the octets of its own instructions and on no others. -/
theorem decodeMemoryHits_congr (h : ∀ i < insns * insnWidth thumb, program i = program' i) :
    decodeMemoryHits decoder program insns thumb pc =
      decodeMemoryHits decoder program' insns thumb pc := by
  have hone : ∀ i ∈ List.range insns, ∀ out, decodeOne decoder program insns thumb pc out i =
        decodeOne decoder program' insns thumb pc out i := by
    intro i hi out
    rw [decodeOne, decodeOne, decodeInsn_congr h (List.mem_range.mp hi)]
  rw [decodeMemoryHits, decodeMemoryHits, foldlM_congr hone]

def terminalBranchShapeValid (block : Block) (op : Uop) : Bool :=
  let width := insnWidth block.thumb
  let atEnd := block.startPc + BitVec.ofNat 32 (block.insnCount * width)
  if block.insnCount = 0 then false
  else if handlerIsIndirectBranch op.handler then
    op.immediate = 0 &&
      op.pcValue = block.startPc + BitVec.ofNat 32 ((block.insnCount - 1) * width) &&
      op.metadata = BitVec.ofNat 32 (block.insnCount * 256 ||| 1) && block.exitPc = atEnd
  else if block.thumb && handlerIsConditionalBranch op.handler then
    op.immediate &&& 1 = 0 && op.pcValue = block.exitPc && op.metadata = 0 &&
      block.exitPc = atEnd
  else
    !block.thumb && op.immediate &&& 3 = 0 && op.pcValue = block.exitPc && op.metadata = 0 &&
      block.exitPc = atEnd

/-- The record before the exit, when it is one of a kind. -/
def terminalOp (block : Block) (kind : ℕ → Bool) : Option Uop :=
  (block.uops.dropLast.getLast?).filter fun op ↦ kind op.handler

/-- `validate_decoded_hits_at` for the memory-hit records. -/
def validateDecodedHitsAt (block : Block) (pc : Word) (thumb : Bool) (remaining : ℕ) : Bool :=
  let terminal (kind : ℕ → Bool) : Bool := (terminalOp block kind).isSome
  let write := terminal handlerIsDirectWrite
  let dynamic := terminal handlerIsTerminalBranch
  remaining ≠ 0 && block.insnCount ≠ 0 && block.insnCount ≤ remaining &&
    block.insnCount ≤ a64StaticMaxInsns && block.uops ≠ [] &&
    block.uops.length ≤ a64StaticMaxUops &&
    block.uops.getLast?.map Uop.handler = some a64sEnd &&
    block.uops.getLast?.map Uop.immediate = some block.exitPc && pc = block.startPc &&
    thumb = block.thumb &&
    (!block.touchesMemory || block.directReads || block.directWrites) &&
    block.directWrites = write &&
    block.vfpDirectWrites = (write && terminal handlerIsVfpDirectWrite) &&
    block.stmDirectWrites = (write && terminal handlerIsStmFinish) &&
    block.vstmDirectWrites = (write && terminal handlerIsVstmDirectWrite) &&
    block.dynamicExit = dynamic &&
    block.indirectExit = (dynamic && terminal handlerIsIndirectBranch) &&
    block.thumbConditionalExit = (dynamic && block.thumb && terminal handlerIsConditionalBranch) &&
    ((terminalOp block handlerIsTerminalBranch).all fun op ↦ terminalBranchShapeValid block op)

end S5LBox.Arm
