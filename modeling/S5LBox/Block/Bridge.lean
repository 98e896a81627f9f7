import S5LBox.Arm.Step
import S5LBox.Block.VmBlock
import S5LBox.Library.Attempt
import S5LBox.Library.LittleEndian
import S5LBox.Library.Scatter

/-!
# The raw memory-disk bridge

`md_raw_bridge.c`: the service call that stands in for the character entry of the memory disk. A
request whose user pages are all resident is transferred at once. Any other is sent through the
guest's own `uiomove` on a bounce slot, and a second service call completes it.

RAM is indexed by physical address. Every walk of the page tables comes before the handler's first
store, so the bus of a call is the bus over the RAM the call starts with. The plans and the staging
buffer, which do not outlive a call, are local here.
-/

namespace S5LBox.Bridge

open Block Span
open Attempt (require expect lift)

def pageSize : ℕ := 4096
def permissionGranule : ℕ := 1024
def maxTransfer : ℕ := 131072
def maxIovecs : ℕ := 1024
def maxBounceSlots : ℕ := 4
def maxMetadataSpans : ℕ := 16
def maxDataSpans : ℕ := maxIovecs * 2 + maxTransfer / permissionGranule
def uioSize : ℕ := 0x28
def userIovSize : ℕ := 8
def addressSpaceSize : ℕ := 2 ^ 32

def uioIovs : ℕ := 0x00
def uioIovcnt : ℕ := 0x04
def uioOffsetLo : ℕ := 0x08
def uioOffsetHi : ℕ := 0x0c
def uioSegflg : ℕ := 0x10
def uioRw : ℕ := 0x14
def uioResid : ℕ := 0x18
def uioMaxIovs : ℕ := 0x20
def uioFlags : ℕ := 0x24

def errEnxio : Word := 6
def errEfault : Word := 14
def errEbusy : Word := 16
def errEinval : Word := 22

/-- The members of `md_raw_bridge_error_code_t` that the handler can report here. -/
inductive ErrorCode where
  | none
  | invalidMode
  | invalidConfig
  | mmuDisabled
  | device
  | uioAlignment
  | uioTranslation
  | uioRange
  | uioState
  | segment
  | direction
  | residual
  | offset
  | mediaRange
  | iovCount
  | iovAlignment
  | iovTranslation
  | iovRange
  | iovSum
  | userAddress
  | userRange
  | metadataAlias
  | bounceAlias
  | planCapacity
  | pendingCollision
  | pendingExhausted
  | staleCompletion
  | malformedCompletion
  | uiomove
  | blockIo
  deriving DecidableEq, Repr

/-- `md_raw_bridge_direction_t`, once it is known. -/
inductive Direction where
  | read
  | write
  deriving DecidableEq, Repr

/-- `map_status_t`, without its success. -/
inductive MapStatus where
  | address
  | translation
  | range
  | metadata
  | pendingMetadata
  | bounce
  | capacity
  deriving DecidableEq, Repr

/-- `md_raw_bridge_site_t`. -/
structure Site where
  pc : Word
  encoding : Word
  deriving DecidableEq

/-- `md_raw_bridge_config_t`, with the RAM and the block left to the parameters of the handler. -/
structure Config where
  site : Site
  completionSite : Site
  uiomoveThumbPc : Word
  expectedDevice : Word
  userAddressLimit : ℕ
  mediaSize : ℕ
  ramBase : ℕ
  ramSize : ℕ
  bounceBasePa : ℕ
  bounceStride : ℕ
  bounceSlotCount : ℕ

def rangeContains (base size address length : ℕ) : Bool :=
  base ≤ address && length ≤ size && address - base ≤ size - length

def rangesOverlap (a b : Extent) : Bool := a.start < b.start + b.length && b.start < a.start + a.length

def siteValid (site : Site) : Bool :=
  site.pc ≤ 0xfffffffc && site.pc &&& 1 = 0 && site.encoding ≤ 0xffff &&
    site.encoding &&& 0xff00 = 0xdf00

/-- The slots that bounce storage is reserved for. -/
def Config.reservation (cfg : Config) : Extent :=
  ⟨cfg.bounceBasePa, cfg.bounceStride * cfg.bounceSlotCount⟩

def configValid (cfg : Config) (dev : Device) : Bool :=
  siteValid cfg.site && siteValid cfg.completionSite && cfg.site.encoding = 0xdfe3 &&
    cfg.site.pc ≤ 0xfffffffd && cfg.completionSite.pc = cfg.site.pc + 2 &&
    cfg.completionSite.encoding = 0xdfe4 && cfg.uiomoveThumbPc ≠ 0 &&
    cfg.uiomoveThumbPc &&& 1 = 0 && cfg.mediaSize ≠ 0 && cfg.mediaSize ≤ 2 ^ 63 - 1 &&
    dev.size = cfg.mediaSize && cfg.userAddressLimit ≠ 0 &&
    cfg.userAddressLimit % pageSize = 0 && cfg.ramBase % pageSize = 0 &&
    cfg.ramSize % pageSize = 0 && cfg.ramSize ≠ 0 && cfg.ramBase < addressSpaceSize &&
    cfg.ramSize ≤ addressSpaceSize - cfg.ramBase && cfg.bounceSlotCount ≠ 0 &&
    cfg.bounceSlotCount ≤ maxBounceSlots && maxTransfer ≤ cfg.bounceStride &&
    cfg.bounceStride % pageSize = 0 && cfg.bounceBasePa % pageSize = 0 &&
    rangeContains cfg.ramBase cfg.ramSize cfg.reservation.start cfg.reservation.length

/-- The physical addresses of the uio fields that the bridge goes back to. -/
structure UioPas where
  iovs : ℕ := 0
  iovcnt : ℕ := 0
  offsetLo : ℕ := 0
  offsetHi : ℕ := 0
  segment : ℕ := 0
  resid : ℕ := 0
  deriving DecidableEq

/-- `md_raw_bridge_pending_t`; its defaults are the cleared slot. -/
structure Pending where
  active : Bool := false
  keySp : Word := 0
  keyMode : Word := 0
  returnLr : Word := 0
  uioVa : ℕ := 0
  pas : UioPas := {}
  rwPa : ℕ := 0
  uioSpanCount : ℕ := 0
  metadataSpans : List Extent := []
  originalSegment : Word := 0
  physicalSegment : Word := 0
  direction : Direction := .read
  originalResidual : ℕ := 0
  originalOffset : ℕ := 0
  bouncePa : ℕ := 0
  mediaLength : ℕ := 0

/-- The part of `md_raw_bridge_t` that outlives a call, apart from what only a host reads. -/
structure State where
  pending : ℕ → Pending
  guardTail : ℕ → Octet

/-- `md_raw_bridge_init`. -/
def init : State := ⟨fun _ ↦ {}, fun _ ↦ 0⟩

def State.setPending (bridge : State) (slot : ℕ) (pending : Pending) : State :=
  { bridge with pending := Function.update bridge.pending slot pending }

/-- What a call reaches: the core, what the bus keeps, RAM, the disk and the bridge. -/
structure Machine (σ : Type) (dev : Device) where
  cpu : Arm.Cpu
  ctx : σ
  ram : ℕ → Octet
  disk : dev.State
  bridge : State

structure MappedSpan where
  va : ℕ
  pa : ℕ
  length : ℕ
  deriving DecidableEq, Repr

def MappedSpan.extent (span : MappedSpan) : Extent := ⟨span.pa, span.length⟩

def extents (spans : List MappedSpan) : List Extent := spans.map MappedSpan.extent

def loadU32 (ram : ℕ → Octet) (pa : ℕ) : Word :=
  BitVec.ofNat 32 (LittleEndian.get (window ram pa 4))

def storeU32 (ram : ℕ → Octet) (pa : ℕ) (value : Word) : ℕ → Octet :=
  overwrite ram pa (LittleEndian.put 4 value.toNat)

def mappedPa (spans : List MappedSpan) (va length : ℕ) : Option ℕ :=
  (spans.find? fun span ↦ span.va ≤ va ∧ va - span.va ≤ span.length ∧
    length ≤ span.length - (va - span.va)).map fun span ↦ span.pa + (va - span.va)

/-- `mapped_load_u32`; its callers have mapped the word. -/
def mappedLoadU32 (ram : ℕ → Octet) (spans : List MappedSpan) (va : ℕ) : Word :=
  loadU32 ram ((mappedPa spans va 4).getD 0)

/-- The pieces of a virtual range that lie in one permission granule each. -/
def granules : (fuel va remaining : ℕ) → List (ℕ × ℕ)
  | 0, _, _ => []
  | fuel + 1, va, remaining =>
    if remaining = 0 then []
    else
      let chunk := min remaining (permissionGranule - va % permissionGranule)
      (va, chunk) :: granules fuel (va + chunk) (remaining - chunk)

def pieces (va length : ℕ) : List (ℕ × ℕ) := granules length va length

section Mapping

variable {σ : Type}

abbrev Mmu (σ : Type) := Arm.Caches × σ

/-- The physical address of a virtual one, if the access is allowed. -/
def translate (bus : Arm.Bus σ) (stamp : Arm.TlbStamp) (va : ℕ) (access : Arm.Access)
    (privileged : Bool) (mmu : Mmu σ) : Option ℕ × Mmu σ :=
  let answer := Arm.armMmuTranslate bus stamp mmu.1 mmu.2 (BitVec.ofNat 32 va) access privileged 0
  (if answer.1.1 = 0 then some answer.1.2.toNat else none, answer.2)

/-- The loop of `collect_mapping`. -/
def collectPieces (cfg : Config) (bus : Arm.Bus σ) (stamp : Arm.TlbStamp) :
    List (ℕ × ℕ) → List MappedSpan → Attempt MapStatus (Mmu σ) (List MappedSpan)
  | [], spans => pure spans
  | (va, chunk) :: rest, spans => do
    let answer ← lift (translate bus stamp va .write true)
    let pa ← expect answer .translation
    require (rangeContains cfg.ramBase cfg.ramSize pa chunk) .range
    require (spans.length < maxMetadataSpans) .capacity
    collectPieces cfg bus stamp rest (spans ++ [⟨va, pa, chunk⟩])

/-- `collect_mapping`, always for a privileged write. -/
def collectMapping (cfg : Config) (bus : Arm.Bus σ) (stamp : Arm.TlbStamp) (va length : ℕ)
    (spans : List MappedSpan) : Attempt MapStatus (Mmu σ) (List MappedSpan) := do
  require (va + length ≤ addressSpaceSize) .address
  collectPieces cfg bus stamp (pieces va length) spans

def overlapsMetadata (extent : Extent) (metadata : List Extent) : Bool :=
  metadata.any (rangesOverlap extent)

def overlapsBounce (cfg : Config) (extent : Extent) : Bool := rangesOverlap extent cfg.reservation

def pendingMetadataAlias (cfg : Config) (bridge : State) (spans : List Extent) : Bool :=
  (List.range cfg.bounceSlotCount).any fun i ↦
    (bridge.pending i).active &&
      spans.any fun span ↦ (bridge.pending i).metadataSpans.any (rangesOverlap span)

def overlapsPendingMetadata (cfg : Config) (bridge : State) (extent : Extent) : Bool :=
  pendingMetadataAlias cfg bridge [extent]

/-- `md_raw_bridge_iov_plan_t`. -/
structure IovPlan where
  basePa : ℕ
  lengthPa : ℕ
  base : ℕ
  length : ℕ
  consumed : ℕ
  deriving DecidableEq

/-- The data spans found so far, and whether a page was not there. -/
structure DataPlan where
  spans : List MappedSpan := []
  needsRedirect : Bool := false

/-- The inner loop of `plan_user_data`. -/
def planPieces (cfg : Config) (bridge : State) (bus : Arm.Bus σ) (stamp : Arm.TlbStamp)
    (metadata : List Extent) (access : Arm.Access) :
    List (ℕ × ℕ) → DataPlan → Attempt MapStatus (Mmu σ) DataPlan
  | [], plan => pure plan
  | (va, chunk) :: rest, plan => do
    let answer ← lift (translate bus stamp va access false)
    match answer with
    | none =>
      planPieces cfg bridge bus stamp metadata access rest { plan with needsRedirect := true }
    | some pa =>
      require (rangeContains cfg.ramBase cfg.ramSize pa chunk) .range
      require (overlapsMetadata ⟨pa, chunk⟩ metadata = false) .metadata
      require (overlapsPendingMetadata cfg bridge ⟨pa, chunk⟩ = false) .pendingMetadata
      require (overlapsBounce cfg ⟨pa, chunk⟩ = false) .bounce
      require (plan.spans.length < maxDataSpans) .capacity
      planPieces cfg bridge bus stamp metadata access rest
        { plan with spans := plan.spans ++ [⟨va, pa, chunk⟩] }

/-- The outer loop of `plan_user_data`. -/
def planIovData (cfg : Config) (bridge : State) (bus : Arm.Bus σ) (stamp : Arm.TlbStamp)
    (metadata : List Extent) (access : Arm.Access) :
    List IovPlan → DataPlan → Attempt MapStatus (Mmu σ) DataPlan
  | [], plan => pure plan
  | iov :: rest, plan => do
    require (iov.base + iov.consumed ≤ addressSpaceSize) .address
    let plan ← planPieces cfg bridge bus stamp metadata access (pieces iov.base iov.consumed) plan
    planIovData cfg bridge bus stamp metadata access rest plan

/-- `plan_user_data`: the spans, or nothing where the guest has to bring pages in first. -/
def planUserData (cfg : Config) (bridge : State) (bus : Arm.Bus σ) (stamp : Arm.TlbStamp)
    (metadata : List Extent) (access : Arm.Access) (iovs : List IovPlan) :
    Attempt MapStatus (Mmu σ) (Option (List MappedSpan)) := do
  let plan ← planIovData cfg bridge bus stamp metadata access iovs {}
  pure (if plan.needsRedirect then none else some plan.spans)

end Mapping

def guardedMediaEnd (cfg : Config) : ℕ :=
  if 2 ^ 63 - 1 - maxTransfer < cfg.mediaSize then 2 ^ 63 - 1 else cfg.mediaSize + maxTransfer

def mediaPrefixLength (cfg : Config) (offset requested : ℕ) : ℕ :=
  if cfg.mediaSize ≤ offset then 0 else min (cfg.mediaSize - offset) requested

def guardTailOffset (cfg : Config) (offset : ℕ) : ℕ :=
  if offset ≤ cfg.mediaSize then 0 else offset - cfg.mediaSize

/-- The words of a guest uio. -/
structure Uio where
  iovs : Word
  iovcnt : Word
  offset : ℕ
  segment : Word
  rw : Word
  resid : Word
  maxIovs : Word
  flags : Word

def loadUio (ram : ℕ → Octet) (spans : List MappedSpan) (va : ℕ) : Uio where
  iovs := mappedLoadU32 ram spans (va + uioIovs)
  iovcnt := mappedLoadU32 ram spans (va + uioIovcnt)
  offset := (mappedLoadU32 ram spans (va + uioOffsetLo)).toNat +
    2 ^ 32 * (mappedLoadU32 ram spans (va + uioOffsetHi)).toNat
  segment := mappedLoadU32 ram spans (va + uioSegflg)
  rw := mappedLoadU32 ram spans (va + uioRw)
  resid := mappedLoadU32 ram spans (va + uioResid)
  maxIovs := mappedLoadU32 ram spans (va + uioMaxIovs)
  flags := mappedLoadU32 ram spans (va + uioFlags)

def uioPas (spans : List MappedSpan) (va : ℕ) : Option UioPas := do
  let iovs ← mappedPa spans (va + uioIovs) 4
  let iovcnt ← mappedPa spans (va + uioIovcnt) 4
  let offsetLo ← mappedPa spans (va + uioOffsetLo) 4
  let offsetHi ← mappedPa spans (va + uioOffsetHi) 4
  let segment ← mappedPa spans (va + uioSegflg) 4
  let resid ← mappedPa spans (va + uioResid) 4
  pure ⟨iovs, iovcnt, offsetLo, offsetHi, segment, resid⟩

/-- `user_segment`: the nine user segments. -/
def userSegment (segment : Word) : Bool := segment ∈ [0, 1, 3, 5, 6, 7, 8, 9, 10].map (BitVec.ofNat 32)

def physicalUserSegment (segment : Word) : Word :=
  if segment = 8 then 10 else if segment = 5 then 7 else 3

def directionOf (rw : Word) : Option Direction :=
  if rw = 0 then some .read else if rw = 1 then some .write else none

/-- How the handler leaves before it has a plan. -/
inductive Exit where
  | fail (code : ErrorCode)
  | guestError (code : ErrorCode) (errno : Word)
  | zeroLength
  deriving DecidableEq

/-- A request with its plan. `data` is missing where a page was not there. -/
structure Request where
  direction : Direction
  uioVa : ℕ
  uioSpans : List MappedSpan
  metadata : List MappedSpan
  pas : UioPas
  uio : Uio
  iovs : List IovPlan
  data : Option (List MappedSpan)

namespace Request

def offset (request : Request) : ℕ := request.uio.offset

def transferLength (request : Request) : ℕ := request.uio.resid.toNat

def mediaLength (request : Request) (cfg : Config) : ℕ :=
  mediaPrefixLength cfg request.offset request.transferLength

def guardLength (request : Request) (cfg : Config) : ℕ :=
  request.transferLength - request.mediaLength cfg

end Request

section Admission

variable {σ : Type}

/-- From the alignment check of the uio to its field addresses. -/
def mapUio (cfg : Config) (bus : Arm.Bus σ) (stamp : Arm.TlbStamp) (uioVa : ℕ) :
    Attempt Exit (Mmu σ) (List MappedSpan × UioPas) := do
  require (uioVa % 4 = 0) (.fail .uioAlignment)
  let spans ← (collectMapping cfg bus stamp uioVa uioSize []).mapError fun status ↦
    if status = .translation then .fail .uioTranslation else .fail .uioRange
  require ((extents spans).any (overlapsBounce cfg) = false) (.fail .bounceAlias)
  let pas ← expect (uioPas spans uioVa) (.fail .uioRange)
  pure (spans, pas)

/-- The checks on the words of a uio. -/
def checkUio (cfg : Config) (uio : Uio) : Attempt Exit (Mmu σ) Direction := do
  require (userSegment uio.segment) (.fail .segment)
  let direction ← expect (directionOf uio.rw) (.fail .direction)
  require (uio.flags &&& 1 ≠ 0 ∧ 0 ≤ uio.maxIovs.toInt ∧
    uio.iovcnt.toInt ≤ uio.maxIovs.toInt) (.fail .uioState)
  require (uio.resid ≠ 0) .zeroLength
  require (0 ≤ uio.resid.toInt) (.fail .residual)
  require (uio.offset < 2 ^ 63) (.guestError .offset errEinval)
  require (uio.resid.toNat ≤ maxTransfer) (.guestError .residual errEinval)
  require (uio.offset ≤ guardedMediaEnd cfg ∧
    uio.resid.toNat ≤ guardedMediaEnd cfg - uio.offset) (.guestError .mediaRange errEinval)
  require (0 < uio.iovcnt.toInt ∧ uio.iovcnt.toNat ≤ maxIovecs) (.fail .iovCount)
  require (uio.iovs &&& 3 = 0) (.fail .iovAlignment)
  pure direction

/-- The iovec array is mapped behind the uio, and the whole metadata is kept apart from itself,
from the bounce slots and from what other requests wait on. -/
def mapIovs (cfg : Config) (bridge : State) (bus : Arm.Bus σ) (stamp : Arm.TlbStamp) (uio : Uio)
    (uioSpans : List MappedSpan) : Attempt Exit (Mmu σ) (List MappedSpan) := do
  let metadata ← (collectMapping cfg bus stamp uio.iovs.toNat (uio.iovcnt.toNat * userIovSize)
    uioSpans).mapError fun status ↦
      if status = .translation then .fail .iovTranslation else .fail .iovRange
  require ((extents metadata).Pairwise fun a b ↦ rangesOverlap b a = false)
    (.fail .metadataAlias)
  require ((extents metadata).any (overlapsBounce cfg) = false) (.fail .bounceAlias)
  require (pendingMetadataAlias cfg bridge (extents metadata) = false)
    (.guestError .pendingCollision errEbusy)
  pure metadata

/-- The loop over the iovec array, with the residual that is still to be planned. -/
def planIovs (cfg : Config) (ram : ℕ → Octet) (metadata : List MappedSpan) (iovVa : ℕ) :
    List ℕ → ℕ → Attempt Exit (Mmu σ) (List IovPlan × ℕ)
  | [], left => pure ([], left)
  | i :: rest, left => do
    let entryVa := iovVa + i * userIovSize
    let basePa ← expect (mappedPa metadata entryVa 4) (.fail .iovRange)
    let lengthPa ← expect (mappedPa metadata (entryVa + 4) 4) (.fail .iovRange)
    let base := (mappedLoadU32 ram metadata entryVa).toNat
    let length := (mappedLoadU32 ram metadata (entryVa + 4)).toNat
    let consumed := min length left
    require (consumed = 0 ∨ base < cfg.userAddressLimit ∧ consumed ≤ cfg.userAddressLimit - base)
      (.guestError .userAddress errEfault)
    let (plans, left) ← planIovs cfg ram metadata iovVa rest (left - consumed)
    pure (⟨basePa, lengthPa, base, length, consumed⟩ :: plans, left)

/-- What the handler makes of a plan that did not come out. -/
def planExit : MapStatus → Exit
  | .range => .guestError .userRange errEfault
  | .metadata => .fail .metadataAlias
  | .pendingMetadata => .guestError .pendingCollision errEbusy
  | .bounce => .fail .bounceAlias
  | .capacity => .fail .planCapacity
  | .address => .guestError .userAddress errEfault
  | .translation => .guestError .userAddress errEfault

def pendingSpActive (cfg : Config) (bridge : State) (sp : Word) : Bool :=
  (List.range cfg.bounceSlotCount).any fun i ↦
    (bridge.pending i).active && (bridge.pending i).keySp = sp

/-- The entry of `md_raw_bridge_handle_svc` up to the plan of the user data. -/
def planRequest (cfg : Config) (bridge : State) (bus : Arm.Bus σ) (core : Arm.Core)
    (ram : ℕ → Octet) : Attempt Exit (Mmu σ) Request := do
  require (pendingSpActive cfg bridge (core.r 13) = false)
    (.guestError .pendingCollision errEbusy)
  require (core.r 0 = cfg.expectedDevice) (.guestError .device errEnxio)
  let uioVa := (core.r 1).toNat
  let (uioSpans, pas) ← mapUio cfg bus core.cp15.stamp uioVa
  let uio := loadUio ram uioSpans uioVa
  let direction ← checkUio cfg uio
  let metadata ← mapIovs cfg bridge bus core.cp15.stamp uio uioSpans
  let (iovs, left) ← planIovs cfg ram metadata uio.iovs.toNat (List.range uio.iovcnt.toNat)
    uio.resid.toNat
  require (uio.resid.toNat ≤ (iovs.map IovPlan.length).sum ∧ left = 0) (.fail .iovSum)
  let data ← (planUserData cfg bridge bus core.cp15.stamp (extents metadata)
    (if direction = .read then .write else .read) iovs).mapError planExit
  pure ⟨direction, uioVa, uioSpans, metadata, pas, uio, iovs, data⟩

end Admission

/-- What a service call came to. -/
inductive Outcome where
  | unhandled
  | failed (code : ErrorCode)
  | guestError (code : ErrorCode) (errno : Word)
  | zeroLength
  | direct (request : Request) (spans : List MappedSpan)
  | redirected (slot : ℕ)
  | completed (slot : ℕ) (code : ErrorCode)

/-- What `md_raw_bridge_handle_svc` returns. -/
def Outcome.result : Outcome → Arm.SvcResult
  | .unhandled => .unhandled
  | .failed _ => .error
  | .guestError _ _ => .redirected
  | .zeroLength => .redirected
  | .direct _ _ => .redirected
  | .redirected _ => .redirected
  | .completed _ code => if code = .none ∨ code = .uiomove then .redirected else .error

variable {σ : Type} {dev : Device}

def redirectToTarget (core : Arm.Core) (target : Word) : Arm.Core :=
  if target &&& 1 ≠ 0 then core.setT.setR 15 (target &&& ~~~1)
  else core.clearT.setR 15 (target &&& ~~~3)

def Machine.setCore (m : Machine σ dev) (core : Arm.Core) : Machine σ dev :=
  { m with cpu := { m.cpu with core := core } }

def Machine.setMmu (m : Machine σ dev) (mmu : Mmu σ) : Machine σ dev :=
  { m with cpu := { m.cpu with caches := mmu.1 }, ctx := mmu.2 }

/-- Back to the guest with a value in `r0`. -/
def Machine.answer (m : Machine σ dev) (r0 target : Word) : Machine σ dev :=
  m.setCore (redirectToTarget (m.cpu.core.setR 0 r0) target)

/-- `guest_error` and `bridge_fail`, and the request that asks for nothing. -/
def leave (m : Machine σ dev) : Exit → Outcome × Machine σ dev
  | .fail code => (.failed code, m)
  | .guestError code errno => (.guestError code errno, m.answer errno (m.cpu.core.r 14))
  | .zeroLength => (.zeroLength, m.answer 0 (m.cpu.core.r 14))

def commitIov (ram : ℕ → Octet) (iov : IovPlan) : ℕ → Octet :=
  if iov.consumed = 0 then ram
  else
    storeU32 (storeU32 ram iov.basePa (BitVec.ofNat 32 (iov.base + iov.consumed)))
      iov.lengthPa (BitVec.ofNat 32 (iov.length - iov.consumed))

/-- The iovec that is current after a transfer and the number of those left. -/
def currentIov (iovs : List IovPlan) : ℕ × ℕ :=
  match iovs.findIdx? fun iov ↦ iov.length - iov.consumed ≠ 0 with
  | some i => (i, iovs.length - i)
  | none => (iovs.length - 1, 0)

/-- The stores into the metadata of a request that has been transferred. -/
def commitUio (request : Request) (ram : ℕ → Octet) : ℕ → Octet :=
  let ram := request.iovs.foldl commitIov ram
  let offset := request.offset + request.transferLength
  let (index, count) := currentIov request.iovs
  let ram := storeU32 ram request.pas.iovs
    (BitVec.ofNat 32 (request.uio.iovs.toNat + index * userIovSize))
  let ram := storeU32 ram request.pas.iovcnt (BitVec.ofNat 32 count)
  let ram := storeU32 ram request.pas.offsetLo (BitVec.ofNat 32 offset)
  let ram := storeU32 ram request.pas.offsetHi (BitVec.ofNat 32 (offset / 2 ^ 32))
  storeU32 ram request.pas.resid
    (BitVec.ofNat 32 (request.uio.resid.toNat - request.transferLength))

/-- The media part of a read, when there is one. -/
def readMedia (cancelled : dev.State → Bool) (disk : dev.State) (offset length : ℕ) :
    BlockStatus × List Octet × dev.State :=
  if length ≠ 0 then vmBlockReadExact dev cancelled disk offset length else (.ok, [], disk)

/-- The media part of a write, when there is one. -/
def writeMedia (cancelled : dev.State → Bool) (disk : dev.State) (offset length : ℕ)
    (source : List Octet) : BlockStatus × ℕ × dev.State :=
  if length ≠ 0 then vmBlockWriteExact dev cancelled disk offset (source.take length)
  else (.ok, 0, disk)

/-- A direct read: the media prefix and the guard tail behind it, into the user's spans. -/
def readDirect (cfg : Config) (cancelled : dev.State → Bool) (m : Machine σ dev)
    (request : Request) (spans : List MappedSpan) : Bool × Machine σ dev :=
  let (status, media, disk) :=
    readMedia cancelled m.disk request.offset (request.mediaLength cfg)
  if status ≠ .ok then (false, { m with disk := disk })
  else
    let guarded := window m.bridge.guardTail (guardTailOffset cfg request.offset)
      (request.guardLength cfg)
    (true, { m with disk := disk, ram := scatter m.ram (extents spans) (media ++ guarded) })

/-- A direct write: the user's spans, into the media prefix and the guard tail behind it. -/
def writeDirect (cfg : Config) (cancelled : dev.State → Bool) (m : Machine σ dev)
    (request : Request) (spans : List MappedSpan) : Bool × Machine σ dev :=
  let scratch := gather m.ram (extents spans)
  let (status, _, disk) :=
    writeMedia cancelled m.disk request.offset (request.mediaLength cfg) scratch
  if status ≠ .ok then (false, { m with disk := disk })
  else
    let guardTail := overwrite m.bridge.guardTail (guardTailOffset cfg request.offset)
      ((scratch.drop (request.mediaLength cfg)).take (request.guardLength cfg))
    (true, { m with disk := disk, bridge := { m.bridge with guardTail := guardTail } })

def moveData (cfg : Config) (cancelled : dev.State → Bool) (m : Machine σ dev)
    (request : Request) (spans : List MappedSpan) : Bool × Machine σ dev :=
  match request.direction with
  | .read => readDirect cfg cancelled m request spans
  | .write => writeDirect cfg cancelled m request spans

/-- The transfer of a request all of whose pages are there. -/
def transfer (cfg : Config) (cancelled : dev.State → Bool) (m : Machine σ dev)
    (request : Request) (spans : List MappedSpan) : Outcome × Machine σ dev :=
  match moveData cfg cancelled m request spans with
  | (false, m) => (.failed .blockIo, m)
  | (true, m) =>
    (.direct request spans, { m with ram := commitUio request m.ram }.answer 0 (m.cpu.core.r 14))

/-- `allocate_pending` on a stack that may have a request waiting. -/
def allocatePending (cfg : Config) (bridge : State) (sp : Word) : Except ErrorCode ℕ :=
  if pendingSpActive cfg bridge sp then .error .pendingCollision
  else
    match (List.range cfg.bounceSlotCount).find? fun i ↦ !(bridge.pending i).active with
    | none => .error .pendingExhausted
    | some slot => .ok slot

/-- What `start_uiomove` writes into a slot. -/
def pendingOf (cfg : Config) (core : Arm.Core) (request : Request) (pas : UioPas) (rwPa slot : ℕ) :
    Pending where
  active := true
  keySp := core.r 13
  keyMode := core.cpsr &&& Arm.cpsrModeMask
  returnLr := core.r 14
  uioVa := request.uioVa
  pas := pas
  rwPa := rwPa
  uioSpanCount := request.uioSpans.length
  metadataSpans := extents request.metadata
  originalSegment := request.uio.segment
  physicalSegment := physicalUserSegment request.uio.segment
  direction := request.direction
  originalResidual := request.transferLength
  originalOffset := request.offset
  bouncePa := cfg.bounceBasePa + slot * cfg.bounceStride
  mediaLength := request.mediaLength cfg

/-- The bounce slot as `uiomove` finds it: cleared, and for a read filled from the media and the
guard tail. -/
def fillBounce (cfg : Config) (cancelled : dev.State → Bool) (m : Machine σ dev)
    (request : Request) (bouncePa : ℕ) : Bool × (ℕ → Octet) × dev.State :=
  let ram := overwrite m.ram bouncePa (List.replicate request.transferLength 0)
  match request.direction with
  | .write => (true, ram, m.disk)
  | .read =>
    let (status, media, disk) :=
      readMedia cancelled m.disk request.offset (request.mediaLength cfg)
    let ram := overwrite ram bouncePa media
    if status ≠ .ok then (false, ram, disk)
    else
      let guarded := window m.bridge.guardTail (guardTailOffset cfg request.offset)
        (request.guardLength cfg)
      (true, overwrite ram (bouncePa + request.mediaLength cfg) guarded, disk)

def startUiomove (cfg : Config) (cancelled : dev.State → Bool) (m : Machine σ dev)
    (request : Request) : Outcome × Machine σ dev :=
  match allocatePending cfg m.bridge (m.cpu.core.r 13) with
  | .error code => leave m (.guestError code errEbusy)
  | .ok slot =>
    let cleared : Machine σ dev := { m with bridge := m.bridge.setPending slot {} }
    if request.uioSpans.length = 0 ∨ request.metadata.length < request.uioSpans.length ∨
        maxMetadataSpans < request.metadata.length then (.failed .uioRange, cleared)
    else
      match uioPas request.uioSpans request.uioVa,
        mappedPa request.uioSpans (request.uioVa + uioRw) 4 with
      | some pas, some rwPa =>
        let pending := pendingOf cfg m.cpu.core request pas rwPa slot
        match fillBounce cfg cancelled m request pending.bouncePa with
        | (false, ram, disk) => (.failed .blockIo, { cleared with ram := ram, disk := disk })
        | (true, ram, disk) =>
          let ram := storeU32 ram pending.pas.segment pending.physicalSegment
          let core := (m.cpu.core.setR 0 (BitVec.ofNat 32 pending.bouncePa)).setR 1
            (BitVec.ofNat 32 (pending.bouncePa / 2 ^ 32))
          let core := (core.setR 2 (BitVec.ofNat 32 request.transferLength)).setR 3
            (BitVec.ofNat 32 request.uioVa)
          let core := core.setR 14 (cfg.completionSite.pc ||| 1)
          (.redirected slot,
            { m with ram := ram, disk := disk, bridge := m.bridge.setPending slot pending }.setCore
              (redirectToTarget core (cfg.uiomoveThumbPc ||| 1)))
      | _, _ => (.failed .uioRange, cleared)

def findPending (cfg : Config) (bridge : State) (sp mode : Word) : Option ℕ :=
  (List.range cfg.bounceSlotCount).find? fun i ↦
    (bridge.pending i).active && (bridge.pending i).keySp = sp && (bridge.pending i).keyMode = mode

/-- The octets that `uiomove` has left to write, into the media and the guard tail. -/
def writeBounce (cfg : Config) (cancelled : dev.State → Bool) (m : Machine σ dev)
    (pending : Pending) (done : ℕ) : Bool × Machine σ dev :=
  let mediaDone := min done pending.mediaLength
  let (status, _, disk) :=
    writeMedia cancelled m.disk pending.originalOffset mediaDone
      (window m.ram pending.bouncePa mediaDone)
  if status ≠ .ok then (false, { m with disk := disk })
  else
    let guardTail := overwrite m.bridge.guardTail (guardTailOffset cfg pending.originalOffset)
      (window m.ram (pending.bouncePa + mediaDone) (done - mediaDone))
    (true, { m with disk := disk, bridge := { m.bridge with guardTail := guardTail } })

def settleBounce (cfg : Config) (cancelled : dev.State → Bool) (m : Machine σ dev)
    (pending : Pending) (done : ℕ) : Bool × Machine σ dev :=
  match pending.direction with
  | .read => (true, m)
  | .write => writeBounce cfg cancelled m pending done

/-- The part of `handle_completion` after the continuation has been found. -/
def completePending (cfg : Config) (bus : Arm.Bus σ) (cancelled : dev.State → Bool)
    (m : Machine σ dev) (slot : ℕ) : Outcome × Machine σ dev :=
  let pending := m.bridge.pending slot
  let (mapped, mmu) := collectMapping cfg bus m.cpu.core.cp15.stamp pending.uioVa uioSize []
    (m.cpu.caches, m.ctx)
  let m := { m.setMmu mmu with bridge := m.bridge.setPending slot {} }
  let malformed : Outcome := .completed slot .malformedCompletion
  match mapped with
  | .error _ => (malformed, m)
  | .ok metadata =>
    if metadata.length ≠ pending.uioSpanCount ∨
        extents metadata ≠ pending.metadataSpans.take metadata.length ∨
        uioPas metadata pending.uioVa ≠ some pending.pas ∨
        mappedPa metadata (pending.uioVa + uioRw) 4 ≠ some pending.rwPa then (malformed, m)
    else
      let uio := loadUio m.ram metadata pending.uioVa
      let errno := m.cpu.core.r 0
      -- From here on every exit puts the segment of the caller back.
      let m := { m with ram := storeU32 m.ram pending.pas.segment pending.originalSegment }
      if errno ≠ 0 ∧ errno ≠ errEfault ∨ uio.segment ≠ pending.physicalSegment ∨
          directionOf uio.rw ≠ some pending.direction ∨ uio.resid.toInt < 0 ∨
          (pending.originalResidual : ℤ) < uio.resid.toInt then (malformed, m)
      else
        let done := pending.originalResidual - uio.resid.toNat
        if uio.offset ≠ pending.originalOffset + done ∨
            errno = 0 ∧ done ≠ pending.originalResidual ∨
            errno ≠ 0 ∧ done = pending.originalResidual then (malformed, m)
        else
          match settleBounce cfg cancelled m pending done with
          | (false, m) => (.completed slot .blockIo, m)
          | (true, m) =>
            (.completed slot (if errno = 0 then .none else .uiomove),
              m.setCore (redirectToTarget ((m.cpu.core.setR 0 errno).setR 14 pending.returnLr)
                pending.returnLr))

def handleCompletion (cfg : Config) (bus : Arm.Bus σ) (cancelled : dev.State → Bool)
    (m : Machine σ dev) : Outcome × Machine σ dev :=
  match findPending cfg m.bridge (m.cpu.core.r 13) (m.cpu.core.cpsr &&& Arm.cpsrModeMask) with
  | none => (.failed .staleCompletion, m)
  | some slot => completePending cfg bus cancelled m slot

/-- The entry half of `md_raw_bridge_handle_svc`. -/
def handleEntry (cfg : Config) (bus : Arm.Bus σ) (cancelled : dev.State → Bool)
    (m : Machine σ dev) : Outcome × Machine σ dev :=
  let (admitted, mmu) := planRequest cfg m.bridge bus m.cpu.core m.ram (m.cpu.caches, m.ctx)
  match admitted with
  | .error exit => leave (m.setMmu mmu) exit
  | .ok request =>
    match request.data with
    | none => startUiomove cfg cancelled (m.setMmu mmu) request
    | some spans => transfer cfg cancelled (m.setMmu mmu) request spans

/-- Where a service call goes. -/
inductive Gate where
  | declined (outcome : Outcome)
  | completion
  | entry

/-- The checks at the head of `md_raw_bridge_handle_svc`. -/
def gate (cfg : Config) (dev : Device) (core : Arm.Core) (pc encoding : Word) : Gate :=
  if (pc ≠ cfg.site.pc ∨ encoding ≠ cfg.site.encoding) ∧
      (pc ≠ cfg.completionSite.pc ∨ encoding ≠ cfg.completionSite.encoding) then
    .declined .unhandled
  else if core.cpsr &&& Arm.cpsrT = 0 then .declined .unhandled
  else if core.cpsr &&& Arm.cpsrModeMask = Arm.modeUsr then .declined .unhandled
  else if !Arm.armModeIsValid (core.cpsr &&& Arm.cpsrModeMask) then
    .declined (.failed .invalidMode)
  else if !configValid cfg dev then .declined (.failed .invalidConfig)
  else if core.cp15.sctlr &&& Arm.sctlrM = 0 then .declined (.failed .mmuDisabled)
  else if pc = cfg.completionSite.pc then .completion
  else .entry

def handleSvc (cfg : Config) (bus : Arm.Bus σ) (cancelled : dev.State → Bool)
    (m : Machine σ dev) (pc encoding : Word) : Outcome × Machine σ dev :=
  match gate cfg dev m.cpu.core pc encoding with
  | .declined outcome => (outcome, m)
  | .completion => handleCompletion cfg bus cancelled m
  | .entry => handleEntry cfg bus cancelled m

end S5LBox.Bridge
