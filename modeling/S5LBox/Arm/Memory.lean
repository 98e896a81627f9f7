import S5LBox.Library.Program
import S5LBox.Arm.Mmu

/-!
# Guest memory accesses

An instruction is a program over the requests below; everything it does to the registers is
pure. The requests stand for the parts of `arm_interp.c` that involve the translation caches and
the bus, and `busHandler` is what those parts compute.
-/

namespace S5LBox.Arm

inductive Width where
  | byte
  | half
  | word
  deriving DecidableEq, Repr

def Width.bytes : Width → ℕ
  | .byte => 1
  | .half => 2
  | .word => 4

/-- The address bits an aligned access of this width leaves clear. -/
def Width.mask : Width → Word
  | .byte => 0
  | .half => 1
  | .word => 3

/-- What `note_abort` is given. -/
structure Fault where
  fsr : Word
  far : Word
  deriving DecidableEq

/-- The requests of an instruction. Each one that translates an address carries the registers a
translation depends on, and a flush the registers the next translations will. -/
inductive ArmOp where
  | load (width : Width) (regs : TlbStamp) (va : Word) (priv : Bool)
  | store (width : Width) (regs : TlbStamp) (va value : Word) (priv : Bool)
  | translate (regs : TlbStamp) (va : Word) (acc : Access) (priv : Bool)
  | fetch (regs : TlbStamp) (pc : Word) (priv thumb : Bool)
  | flush (regs : TlbStamp)
  | waitForInterrupt
  | privilegedSvc (c : Core) (pc encoding : Word)

abbrev ArmRet : ArmOp → Type
  | .load .. => Except Fault Word
  | .store .. => Option Fault
  | .translate .. => Word
  | .fetch .. => Except Word Word
  | .flush _ => Unit
  | .waitForInterrupt => Unit
  | .privilegedSvc .. => Option (SvcResult × Core)

abbrev armInterface : Interface := ⟨ArmOp, ArmRet⟩

abbrev Prog (α : Type) := Program armInterface α

/-- A request, with the type of its answer unfolded. -/
def ask (op : ArmOp) : Prog (ArmRet op) := Program.ask (I := armInterface) op

def Core.sctlrFlag (c : Core) (mask : Word) : Bool := c.cp15.sctlr &&& mask ≠ 0

def noteAlignmentAbort (c : Core) (va : Word) (write : Bool) : Core :=
  c.noteAbort (fsrAlignment ||| (if write then 0x800 else 0)) va

def legacyRotateWord (value : Word) (offset : Word) : Word :=
  let n := (offset &&& 3).toNat * 8
  if n = 0 then value else (value >>> n) ||| (value <<< (32 - n))

def legacyHalfwordUnpredictable (c : Core) (va : Word) : Bool :=
  va &&& 1 ≠ 0 && c.cp15.sctlr &&& (sctlrU ||| sctlrA) = 0

/-- The address `MEM_READ` and `MEM_WRITE` go on with: the legacy model aligns it. -/
def effectiveAddress (c : Core) (width : Width) (va : Word) : Word :=
  if va &&& width.mask ≠ 0 ∧ !c.sctlrFlag sctlrU then va &&& ~~~width.mask else va

/-- `MEM_READ`: the value read, zero-extended, with the core it leaves. -/
def memReadAs (width : Width) (c : Core) (va : Word) (priv : Bool) : Prog (Word × Core) :=
  if va &&& width.mask ≠ 0 ∧ c.sctlrFlag sctlrA then pure (0, noteAlignmentAbort c va false)
  else do
    let at' := effectiveAddress c width va
    match ← ask (.load width c.cp15.stamp at' priv) with
    | .error fault => pure (0, c.noteAbort fault.fsr fault.far)
    | .ok value =>
      pure (if width = .word ∧ va ≠ at' then legacyRotateWord value va else value, c)

/-- `MEM_WRITE`. -/
def memWriteAs (width : Width) (c : Core) (va value : Word) (priv : Bool) : Prog Core :=
  if va &&& width.mask ≠ 0 ∧ c.sctlrFlag sctlrA then pure (noteAlignmentAbort c va true)
  else do
    match ← ask (.store width c.cp15.stamp (effectiveAddress c width va) value priv) with
    | some fault => pure (c.noteAbort fault.fsr fault.far)
    | none => pure c

/-- `mem_r8`, `mem_r16` and `mem_r32`. -/
def memRead (width : Width) (c : Core) (va : Word) : Prog (Word × Core) :=
  memReadAs width c va c.isPriv

/-- `mem_w8`, `mem_w16` and `mem_w32`. -/
def memWrite (width : Width) (c : Core) (va value : Word) : Prog Core :=
  memWriteAs width c va value c.isPriv

/-- `prepare_multiword_address`: the address to use, or none once a fault is noted. -/
def prepareMultiwordAddress (c : Core) (va alignment : Word) (write : Bool) : Option Word × Core :=
  let mask := alignment - 1
  if va &&& mask = 0 then (some va, c)
  else if c.cp15.sctlr &&& (sctlrU ||| sctlrA) ≠ 0 then (none, noteAlignmentAbort c va write)
  else (some (va &&& ~~~mask), c)

/-- `prepare_sync_address`: nothing when the access may go on, else the status to end with. -/
def prepareSyncAddress (c : Core) (va alignment : Word) (write : Bool) : Option (Status × Core) :=
  if va &&& (alignment - 1) = 0 then none
  else if c.cp15.sctlr &&& (sctlrU ||| sctlrA) ≠ 0 then
    some (.ok, noteAlignmentAbort c va write)
  else some (.undefined, c)

def vfpMemR32 (c : Core) (va : Word) : Prog (Word × Core) :=
  match prepareMultiwordAddress c va 4 false with
  | (none, c) => pure (0, c)
  | (some va, c) => memRead .word c va

def vfpMemW32 (c : Core) (va value : Word) : Prog Core :=
  match prepareMultiwordAddress c va 4 true with
  | (none, c) => pure c
  | (some va, c) => memWrite .word c va value

/-- `privileged_svc_result`: a service that fails or declines leaves the core as it was. -/
def privilegedSvcResult (c : Core) (pc encoding : Word) : Prog (SvcResult × Core) :=
  if !c.isPriv then pure (.unhandled, c)
  else do
    match ← ask (.privilegedSvc c pc encoding) with
    | some (.handled, served) => pure (.handled, served)
    | some (.redirected, served) => pure (.redirected, served)
    | some (.error, _) => pure (.error, { c with cycles := c.cycles - 1 })
    | some (.unhandled, _) => pure (.unhandled, c)
    | none => pure (.unhandled, c)

variable {σ : Type}

def busRead (bus : Bus σ) (width : Width) (ctx : σ) (pa : Word) : Word × σ :=
  match width with
  | .byte => let (value, ctx) := bus.read8 ctx pa; (value.setWidth 32, ctx)
  | .half => let (value, ctx) := bus.read16 ctx pa; (value.setWidth 32, ctx)
  | .word => bus.read32 ctx pa

def busWrite (bus : Bus σ) (width : Width) (ctx : σ) (pa value : Word) : σ :=
  match width with
  | .byte => bus.write8 ctx pa (value.setWidth 8)
  | .half => bus.write16 ctx pa (value.setWidth 16)
  | .word => bus.write32 ctx pa value

/-- Octet `i` of a word. -/
def octetOf (value : Word) (i : ℕ) : Octet := (value >>> (8 * i)).setWidth 8

/-- `memcpy` out of host memory, little-endian. -/
def hostRead (bus : Bus σ) (ctx : σ) (host : HostPtr) : (count : ℕ) → Word
  | 0 => 0
  | count + 1 =>
    hostRead bus ctx host count ||| ((bus.hostLoad ctx (host + count)).setWidth 32 <<< (8 * count))

/-- `memcpy` into host memory, little-endian. -/
def hostWrite (bus : Bus σ) (ctx : σ) (host : HostPtr) (value : Word) : (count : ℕ) → σ
  | 0 => ctx
  | count + 1 =>
    bus.hostStore (hostWrite bus ctx host value count) (host + count) (octetOf value count)

def memCrossesPage (va : Word) (n : ℕ) : Bool := 0x1000 < (va &&& 0xfff).toNat + n

/-- The loop of `mem_read_crossing` over the octets that are left. -/
def memReadCrossing (bus : Bus σ) (p : TlbStamp) (va : Word) (priv : Bool) :
    (offsets : List ℕ) → (pagePa value : Word) → Caches → σ → Except Fault Word × Caches × σ
  | [], _, value, h, ctx => (.ok value, h, ctx)
  | i :: rest, pagePa, value, h, ctx =>
    let a := va + BitVec.ofNat 32 i
    let ((fsr, pa), h, ctx) :=
      if i = 0 ∨ a &&& 0xfff = 0 then armMmuTranslate bus p h ctx a .read priv pagePa
      else ((0, pagePa), h, ctx)
    if fsr ≠ 0 then (.error ⟨fsr, a⟩, h, ctx)
    else
      let pagePa := pa &&& ~~~0xfff
      let (octet, ctx) := bus.read8 ctx (pagePa ||| (a &&& 0xfff))
      memReadCrossing bus p va priv rest pagePa (value ||| (octet.setWidth 32 <<< (8 * i))) h ctx

/-- The loop of `mem_write_crossing`. -/
def memWriteCrossing (bus : Bus σ) (p : TlbStamp) (va value : Word) (priv : Bool) :
    (offsets : List ℕ) → (pagePa : Word) → Caches → σ → Option Fault × Caches × σ
  | [], _, h, ctx => (none, h, ctx)
  | i :: rest, pagePa, h, ctx =>
    let a := va + BitVec.ofNat 32 i
    let ((fsr, pa), h, ctx) :=
      if i = 0 ∨ a &&& 0xfff = 0 then armMmuTranslate bus p h ctx a .write priv pagePa
      else ((0, pagePa), h, ctx)
    if fsr ≠ 0 then (some ⟨fsr, a⟩, h, ctx)
    else
      let pagePa := pa &&& ~~~0xfff
      let ctx := bus.write8 ctx (pagePa ||| (a &&& 0xfff)) (octetOf value i)
      memWriteCrossing bus p va value priv rest pagePa h ctx

def dreadSlot (va : Word) (priv : Bool) : BitVec 6 :=
  ((va >>> 10) + (if priv then 32 else 0)).setWidth 6

def dreadTag (va : Word) (priv : Bool) : Word := (va &&& ~~~0x3ff) ||| (if priv then 1 else 0)

/-- Whether an access lies within one block. -/
def inBlock (va : Word) (n : ℕ) : Bool := (va &&& 0x3ff).toNat + n ≤ 0x400

/-- The pointer an entry gives for an address it covers. -/
def BlockEntry.hit (entry : BlockEntry) (gen va : Word) (priv : Bool) : Option HostPtr :=
  if entry.tag = dreadTag va priv ∧ entry.gen = gen then
    entry.host.map fun host ↦ host + (va &&& 0x3ff).toNat
  else none

def dreadHit (h : Caches) (va : Word) (n : ℕ) (priv : Bool) : Option HostPtr × Caches :=
  match if inBlock va n then (h.dread (dreadSlot va priv)).hit h.tlbGen va priv else none with
  | some host => (some host, { h with dreadHits := h.dreadHits + 1 })
  | none => (none, { h with dreadMisses := h.dreadMisses + 1 })

def dreadFill (bus : Bus σ) (h : Caches) (va pa : Word) (priv : Bool) : Caches :=
  match bus.hostRam.bind fun hostRam ↦ hostRam (pa &&& ~~~0x3ff) 0x400 with
  | none => h
  | some blk =>
    let entry : BlockEntry := { host := some blk, tag := dreadTag va priv, gen := h.tlbGen }
    { h with dread := Function.update h.dread (dreadSlot va priv) entry }

def dwriteHit (bus : Bus σ) (h : Caches) (va : Word) (n : ℕ) (priv : Bool) :
    Option HostPtr × Caches :=
  if bus.hostRamWrite.isNone then (none, h)
  else
    match if inBlock va n then (h.dwrite (dreadSlot va priv)).hit h.tlbGen va priv else none with
    | some host => (some host, { h with dwriteHits := h.dwriteHits + 1 })
    | none => (none, { h with dwriteMisses := h.dwriteMisses + 1 })

def dwriteFill (bus : Bus σ) (h : Caches) (va pa : Word) (priv : Bool) : Caches :=
  match bus.hostRamWrite.bind fun hostRam ↦ hostRam (pa &&& ~~~0x3ff) 0x400 with
  | none => h
  | some blk =>
    let entry : BlockEntry := { host := some blk, tag := dreadTag va priv, gen := h.tlbGen }
    { h with dwrite := Function.update h.dwrite (dreadSlot va priv) entry }

/-- A load: `MEM_READ` once the address is settled. -/
def busLoad (bus : Bus σ) (width : Width) (p : TlbStamp) (va : Word) (priv : Bool) (h : Caches)
    (ctx : σ) : Except Fault Word × Caches × σ :=
  if memCrossesPage va width.bytes then
    memReadCrossing bus p va priv (List.range width.bytes) 0 0 h ctx
  else
    match dreadHit h va width.bytes priv with
    | (some host, h) => (.ok (hostRead bus ctx host width.bytes), h, ctx)
    | (none, h) =>
      let ((fsr, pa), h, ctx) := armMmuTranslate bus p h ctx va .read priv 0
      if fsr ≠ 0 then (.error ⟨fsr, va⟩, h, ctx)
      else
        let (value, ctx) := busRead bus width ctx pa
        (.ok value, dreadFill bus h va pa priv, ctx)

/-- A store: `MEM_WRITE` once the address is settled. -/
def busStore (bus : Bus σ) (width : Width) (p : TlbStamp) (va value : Word) (priv : Bool)
    (h : Caches) (ctx : σ) : Option Fault × Caches × σ :=
  if memCrossesPage va width.bytes then
    memWriteCrossing bus p va value priv (List.range width.bytes) 0 h ctx
  else
    match dwriteHit bus h va width.bytes priv with
    | (some host, h) => (none, h, hostWrite bus ctx host value width.bytes)
    | (none, h) =>
      let ((fsr, pa), h, ctx) := armMmuTranslate bus p h ctx va .write priv 0
      if fsr ≠ 0 then (some ⟨fsr, va⟩, h, ctx)
      else (none, dwriteFill bus h va pa priv, busWrite bus width ctx pa value)

/-- The offset of the next instruction in its 1 KB block, and what the fetch reads there. -/
def fetchWidth (thumb : Bool) : Width := if thumb then .half else .word

/-- The host pointer the fetch cache holds for an address, if it does. -/
def fetchHit (h : Caches) (pc : Word) (priv : Bool) : Option HostPtr :=
  if h.fetchBlk = pc &&& ~~~0x3ff ∧ h.fetchGen = h.tlbGen ∧ h.fetchPriv = priv then h.fetchHost
  else none

/-- The instruction fetch of `arm_step`. -/
def busFetch (bus : Bus σ) (p : TlbStamp) (pc : Word) (priv thumb : Bool) (h : Caches) (ctx : σ) :
    Except Word Word × Caches × σ :=
  let blk := pc &&& ~~~0x3ff
  let width := fetchWidth thumb
  match fetchHit h pc priv with
  | some host => (.ok (hostRead bus ctx (host + (pc - blk).toNat) width.bytes), h, ctx)
  | none =>
    let ((fsr, pa), h, ctx) := armMmuTranslate bus p h ctx pc .fetch priv 0
    if fsr ≠ 0 then (.error fsr, h, ctx)
    else
      match bus.hostRam.bind fun hostRam ↦ hostRam (pa &&& ~~~0x3ff) 0x400 with
      | some host =>
        (.ok (hostRead bus ctx (host + (pc - blk).toNat) width.bytes),
          { h with
            fetchHost := some host, fetchBlk := blk, fetchGen := h.tlbGen, fetchPriv := priv },
          ctx)
      | none =>
        let (insn, ctx) := busRead bus width ctx pa
        (.ok insn, h, ctx)

/-- The block a refill may point at: the one the translation cache holds for the fetch. -/
def refillBlock (p : TlbStamp) (h : Caches) (va : Word) (priv : Bool) : Option Word :=
  if !p.flag sctlrM then some (va &&& ~~~0x3ff)
  else
    let entry := h.tlb (mmuTlbSlot va .fetch)
    if h.tlbGen = 0 ∨ h.tlbStamp ≠ p ∨ entry.gen ≠ h.tlbGen ∨
        entry.tag ≠ mmuTlbTag va .fetch priv ∨ entry.fsr ≠ 0 then none
    else some entry.pa

def armFetchCacheTryRefill (bus : Bus σ) (p : TlbStamp) (h : Caches) (va : Word) (priv : Bool) :
    Bool × Caches :=
  if bus.hostRam.isNone then (false, h)
  else if (fetchHit h va priv).isSome then (true, h)
  else
    match (refillBlock p h va priv).bind fun paBlock ↦
        bus.hostRam.bind fun hostRam ↦ hostRam paBlock 0x400 with
    | none => (false, h)
    | some host =>
      (true, { h with
        fetchHost := some host, fetchBlk := va &&& ~~~0x3ff, fetchGen := h.tlbGen
        fetchPriv := priv
        tlbHits := if p.flag sctlrM then h.tlbHits + 1 else h.tlbHits })

/-- What the requests of an instruction do to the caches and to the bus. -/
def busHandler (bus : Bus σ) : Program.Handler armInterface (Caches × σ)
  | .load width regs va priv, (h, ctx) => busLoad bus width regs va priv h ctx
  | .store width regs va value priv, (h, ctx) => busStore bus width regs va value priv h ctx
  | .translate regs va acc priv, (h, ctx) =>
    let ((fsr, _), h, ctx) := armMmuTranslate bus regs h ctx va acc priv 0
    (fsr, h, ctx)
  | .fetch regs pc priv thumb, (h, ctx) => busFetch bus regs pc priv thumb h ctx
  | .flush _, (h, ctx) => ((), armMmuTlbFlush h, ctx)
  | .waitForInterrupt, (h, ctx) =>
    match bus.waitForInterrupt with
    | some wait => ((), h, (wait ctx).2)
    | none => ((), h, ctx)
  | .privilegedSvc c pc encoding, (h, ctx) =>
    match bus.privilegedSvcHandler with
    | some handler =>
      let (served, ctx) := handler ctx c pc encoding
      (some served, h, ctx)
    | none => (none, h, ctx)

end S5LBox.Arm
