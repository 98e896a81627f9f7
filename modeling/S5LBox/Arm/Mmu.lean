import S5LBox.Arm.State

/-!
# Address translation

`mmu.c`: the ARMv6 table walk and the direct-mapped cache of its verdicts. The walk and the
cache depend on six CP15 registers only, the ones the cache stamps its entries with.
-/

namespace S5LBox.Arm

/-- A host address. -/
abbrev HostPtr := ℕ

inductive SvcResult where
  | unhandled
  | handled
  | redirected
  | error
  deriving DecidableEq, Repr

/-- `arm_bus_t` over a context `σ`. The optional callbacks are options. A host pointer names a
byte that `hostLoad` and `hostStore` access; its validity until the next reset is the callbacks'
contract, so they do not look at the context. -/
structure Bus (σ : Type) where
  read32 : σ → Word → Word × σ
  read16 : σ → Word → Half × σ
  read8 : σ → Word → Octet × σ
  write32 : σ → Word → Word → σ
  write16 : σ → Word → Half → σ
  write8 : σ → Word → Octet → σ
  hostRam : Option (Word → ℕ → Option HostPtr)
  hostRamWrite : Option (Word → ℕ → Option HostPtr)
  hostLoad : σ → HostPtr → Octet
  hostStore : σ → HostPtr → Octet → σ
  waitForInterrupt : Option (σ → Bool × σ)
  privilegedSvcHandler : Option (σ → Core → Word → Word → (SvcResult × Core) × σ)

/-- The registers a translation depends on: the fields of `tlb_stamp`. -/
structure TlbStamp where
  sctlr : Word := 0
  ttbr0 : Word := 0
  ttbr1 : Word := 0
  ttbcr : Word := 0
  dacr : Word := 0
  contextId : Word := 0
  deriving DecidableEq

def Cp15.stamp (p : Cp15) : TlbStamp where
  sctlr := p.sctlr
  ttbr0 := p.ttbr0
  ttbr1 := p.ttbr1
  ttbcr := p.ttbcr
  dacr := p.dacr
  contextId := p.contextId

inductive Access where
  | read
  | write
  | fetch
  deriving DecidableEq, Repr

def Access.code : Access → Word
  | .read => 0
  | .write => 1
  | .fetch => 2

def fsrAlignment : Word := 0x1
def fsrSectionAccessFlag : Word := 0x3
def fsrSectionTranslation : Word := 0x5
def fsrPageAccessFlag : Word := 0x6
def fsrPageTranslation : Word := 0x7
def fsrSectionDomain : Word := 0x9
def fsrPageDomain : Word := 0xb
def fsrSectionPermission : Word := 0xd
def fsrPagePermission : Word := 0xf

def fsrMake (status domain : Word) (write : Bool) : Word :=
  (status &&& (0xf : Word)) ||| ((domain &&& 0xf) <<< 4) ||| (if write then 0x800 else 0)

def TlbStamp.flag (p : TlbStamp) (mask : Word) : Bool := p.sctlr &&& mask ≠ 0

def apPermits (p : TlbStamp) (ap : Word) (apx write priv : Bool) : Bool :=
  if apx then
    if ap &&& 3 = 0 then false
    else if ap &&& 3 = 1 then priv && !write
    else !write
  else if ap &&& 3 = 0 then
    let s := p.flag sctlrS
    let r := p.flag sctlrR
    if s && r then false
    else if r then !write
    else if s then priv && !write
    else false
  else if ap &&& 3 = 1 then priv
  else if ap &&& 3 = 2 then priv || !write
  else true

def accessFlagFaults (p : TlbStamp) (xp : Bool) (ap : Word) (apx : Bool) : Bool :=
  if !xp || !p.flag sctlrFa || ap &&& 1 ≠ 0 then false
  else if !apx && ap = 0 && p.flag sctlrS != p.flag sctlrR then false
  else true

def xnForbidsFetch (p : TlbStamp) (acc : Access) (dac : Word) (xn : Bool) : Bool :=
  acc = .fetch && xn && dac ≠ 3 && p.flag sctlrXp

/-- What a walk finds: a fault, or a frame with the mask of the address bits it passes on. -/
inductive Verdict where
  | fault (fsr : Word)
  | frame (base mask : Word)
  deriving DecidableEq

/-- The checks of `mmu_walk` on a descriptor: access flag, domain, permission, execute-never. -/
def checkAccess (p : TlbStamp) (acc : Access) (priv : Bool) (domain dac ap : Word)
    (apx xn : Bool) (accessFlag domainFault permission : Word) : Option Word :=
  let write : Bool := acc = .write
  if accessFlagFaults p (p.flag sctlrXp) ap apx then some (fsrMake accessFlag domain write)
  else if dac = 0 ∨ dac = 2 then some (fsrMake domainFault domain write)
  else if dac ≠ 3 ∧ !apPermits p ap apx write priv then some (fsrMake permission domain write)
  else if xnForbidsFetch p acc dac xn then some (fsrMake permission domain false)
  else none

/-- A section or supersection descriptor. -/
def sectionVerdict (p : TlbStamp) (acc : Access) (priv : Bool) (domain dac l1 : Word)
    (supersection : Bool) : Verdict :=
  let ap := (l1 >>> 10) &&& 3
  let apx := p.flag sctlrXp && bit l1 15
  match checkAccess p acc priv domain dac ap apx (bit l1 4)
    fsrSectionAccessFlag fsrSectionDomain fsrSectionPermission with
  | some fsr => .fault fsr
  | none =>
    if supersection then .frame (l1 &&& 0xff000000) 0x00ffffff
    else .frame (l1 &&& 0xfff00000) 0x000fffff

/-- The access permissions of a page descriptor: extended, or one pair for each subpage. -/
def pagePermissions (p : TlbStamp) (va l2 : Word) : Word × Bool :=
  let t2 := l2 &&& 3
  if p.flag sctlrXp then ((l2 >>> 4) &&& 3, bit l2 9)
  else if t2 = 1 then ((l2 >>> (4 + ((va >>> 14) &&& 3).toNat * 2)) &&& 3, false)
  else if t2 = 2 then ((l2 >>> (4 + ((va >>> 10) &&& 3).toNat * 2)) &&& 3, false)
  else ((l2 >>> 4) &&& 3, false)

/-- A coarse-page-table descriptor, with the word `l2` its entry holds. -/
def pageVerdict (p : TlbStamp) (va : Word) (acc : Access) (priv : Bool) (domain dac l2 : Word) :
    Verdict :=
  let t2 := l2 &&& 3
  if t2 = 0 then .fault (fsrMake fsrPageTranslation domain (acc = .write))
  else
    let (ap, apx) := pagePermissions p va l2
    match checkAccess p acc priv domain dac ap apx (if t2 = 1 then bit l2 15 else bit l2 0)
      fsrPageAccessFlag fsrPageDomain fsrPagePermission with
    | some fsr => .fault fsr
    | none =>
      if t2 = 1 then .frame (l2 &&& 0xffff0000) 0x0000ffff
      else .frame (l2 &&& 0xfffff000) 0x00000fff

/-- Whether TTBR0 translates the address: its top `TTBCR.N` bits are zero. -/
def usesTtbr0 (p : TlbStamp) (va : Word) : Bool :=
  let n := (p.ttbcr &&& 7).toNat
  n = 0 || va >>> (32 - n) = 0

/-- The address of the first-level descriptor. -/
def l1Address (p : TlbStamp) (va : Word) : Word :=
  if usesTtbr0 p va then
    let n := (p.ttbcr &&& 7).toNat
    (p.ttbr0 &&& ((0xffffffff : Word) <<< (14 - n))) |||
      (((va >>> 20) &&& (((1 : Word) <<< (12 - n)) - 1)) <<< 2)
  else (p.ttbr1 &&& (0xffffc000 : Word)) ||| ((va >>> 20) <<< 2)

/-- The address of the second-level descriptor. -/
def l2Address (va l1 : Word) : Word :=
  (l1 &&& (0xfffffc00 : Word)) ||| (((va >>> 12) &&& (0xff : Word)) <<< 2)

variable {σ : Type}

/-- `mmu_walk` up to the physical address. -/
def walkVerdict (bus : Bus σ) (p : TlbStamp) (ctx : σ) (va : Word) (acc : Access) (priv : Bool) :
    Verdict × σ :=
  let write : Bool := acc = .write
  if !p.flag sctlrM then (.frame 0 0xffffffff, ctx)
  else if p.ttbcr &&& (if usesTtbr0 p va then 0x10 else 0x20) ≠ 0 then
    (.fault (fsrMake fsrSectionTranslation 0 write), ctx)
  else
    let (l1, ctx) := bus.read32 ctx (l1Address p va)
    let type := l1 &&& 3
    let supersection := type = 2 && bit l1 18
    let domain : Word := if supersection then 0 else (l1 >>> 5) &&& 0xf
    let dac := (p.dacr >>> (domain.toNat * 2)) &&& 3
    if type = 0 ∨ type = 3 then (.fault (fsrMake fsrSectionTranslation 0 write), ctx)
    else if type = 2 then (sectionVerdict p acc priv domain dac l1 supersection, ctx)
    else
      let (l2, ctx) := bus.read32 ctx (l2Address va l1)
      (pageVerdict p va acc priv domain dac l2, ctx)

/-- The return value of a translation and what it leaves in `*pa`. -/
def Verdict.result (verdict : Verdict) (va pa : Word) : Word × Word :=
  match verdict with
  | .fault fsr => (fsr, pa)
  | .frame base mask => (0, base ||| (va &&& mask))

def mmuWalk (bus : Bus σ) (p : TlbStamp) (ctx : σ) (va : Word) (acc : Access) (priv : Bool)
    (pa : Word) : (Word × Word) × σ :=
  let (verdict, ctx) := walkVerdict bus p ctx va acc priv
  (verdict.result va pa, ctx)

/-- An entry of `tlb`. -/
structure TlbEntry where
  gen : Word := 0
  tag : Word := 0
  pa : Word := 0
  fsr : Word := 0
  deriving DecidableEq

/-- An entry of `dread` or `dwrite`. -/
structure BlockEntry where
  host : Option HostPtr := none
  tag : Word := 0
  gen : Word := 0
  deriving DecidableEq

/-- The fields of `arm_cpu_t` that cache translations and host pointers. -/
structure Caches where
  tlb : BitVec 12 → TlbEntry := fun _ ↦ {}
  tlbGen : Word := 1
  fetchHost : Option HostPtr := none
  fetchBlk : Word := 0
  fetchGen : Word := 0
  fetchPriv : Bool := false
  dread : BitVec 6 → BlockEntry := fun _ ↦ {}
  dwrite : BitVec 6 → BlockEntry := fun _ ↦ {}
  tlbStamp : TlbStamp := {}
  tlbHits : DWord := 0
  tlbMisses : DWord := 0
  tlbFlushes : DWord := 0
  dreadHits : DWord := 0
  dreadMisses : DWord := 0
  dwriteHits : DWord := 0
  dwriteMisses : DWord := 0

/-- The cache half of `arm_reset`; the stamp is not reset. -/
def cachesReset (stamp : TlbStamp) : Caches := { tlbStamp := stamp }

def mmuTlbTag (va : Word) (acc : Access) (priv : Bool) : Word :=
  ((va >>> 10) <<< 3) ||| (acc.code <<< 1) ||| (if priv then 1 else 0)

def mmuTlbSlot (va : Word) (acc : Access) : BitVec 12 :=
  ((va >>> 10) + acc.code * 1024).setWidth 12

def armMmuTlbFlush (h : Caches) : Caches :=
  let h := { h with
    tlbFlushes := h.tlbFlushes + 1, fetchHost := none, tlbGen := h.tlbGen + 1 }
  if h.tlbGen = 0 then
    { h with tlb := fun _ ↦ {}, dread := fun _ ↦ {}, dwrite := fun _ ↦ {}, tlbGen := 1 }
  else h

/-- The part of `arm_mmu_translate` before the lookup: a nonzero generation, and a flush when
the stamped registers have changed. -/
def tlbRestamp (p : TlbStamp) (h : Caches) : Caches :=
  let h := if h.tlbGen = 0 then { h with tlbGen := 1 } else h
  if h.tlbStamp ≠ p then { armMmuTlbFlush h with tlbStamp := p } else h

/-- `arm_mmu_translate`: the status, what `*pa` holds afterwards, and the new state. -/
def armMmuTranslate (bus : Bus σ) (p : TlbStamp) (h : Caches) (ctx : σ) (va : Word)
    (acc : Access) (priv : Bool) (pa : Word) : (Word × Word) × Caches × σ :=
  if !p.flag sctlrM then ((0, va), h, ctx)
  else
    let h := tlbRestamp p h
    let slot := mmuTlbSlot va acc
    let entry := h.tlb slot
    if entry.gen = h.tlbGen ∧ entry.tag = mmuTlbTag va acc priv then
      ((entry.fsr, if entry.fsr = 0 then entry.pa ||| (va &&& 0x3ff) else pa),
        { h with tlbHits := h.tlbHits + 1 }, ctx)
    else
      let ((fsr, pa), ctx) := mmuWalk bus p ctx va acc priv pa
      let entry : TlbEntry :=
        { gen := h.tlbGen, tag := mmuTlbTag va acc priv, fsr := fsr
          pa := if fsr = 0 then pa &&& ~~~0x3ff else 0 }
      ((fsr, pa),
        { h with tlbMisses := h.tlbMisses + 1, tlb := Function.update h.tlb slot entry }, ctx)

end S5LBox.Arm
