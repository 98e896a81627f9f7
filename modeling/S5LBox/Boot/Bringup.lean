import S5LBox.Block.Bridge
import S5LBox.Boot.Layout
import S5LBox.Boot.Patches
import S5LBox.Firmware.Macho

/-!
# The bring-up

`s5l_bringup`: parse the kernel, plan every range, load and patch what the kernel will find in
memory, and start the CPU last. RAM is indexed by physical address. The caller's kernel gate may do
anything to RAM, and answers.
-/

namespace S5LBox.Boot

open Span
open Attempt (require expect refuse)

inductive BringupStatus where
  | ok
  | invalidArgument
  | kernelMissing
  | kernelMalformed
  | kernelNotExecutable
  | kernelNoEntry
  | kernelBelowVirtBase
  | kernelSpanUnsafe
  | entryOutsideKernel
  | devicetreeMissing
  | devicetreeMalformed
  | devicetreeTooLarge
  | devicetreePatchFailed
  | layoutOverflow
  | layoutNoRoom
  | layoutOverlap
  | cmdlineTooLong
  | framebufferRefused
  | rootMediaInvalid
  | rootGateMissing
  | rootGateRefused
  | rootBridgeRefused
  | rootStorageMissing
  deriving DecidableEq, Repr

inductive BringupStage where
  | none
  | arguments
  | kernelParse
  | layout
  | kernelLoad
  | kernelGate
  | devicetreeLoad
  | devicetreePatch
  | commandLine
  | bootArgs
  | framebuffer
  | rootBridge
  | entry
  deriving DecidableEq, Repr

/-- `s5l_clcd_window_t`. -/
structure ClcdWindow where
  stride : ℕ
  control : ℕ
  fbaddr : ℕ
  geometry : ℕ
  linewords : ℕ
  position : ℕ

/-- The part of `s5l_clcd_t` that seeding a window writes. -/
structure Clcd where
  enable : ℕ
  ctrl : ℕ
  window0 : ClcdWindow
  update2 : ℕ
  wincfgAux : ℕ → ℕ
  gate : ℕ
  opaques : ℕ → ℕ
  scanning : Bool
  frameAccum : ℕ

def clcdFmtMask : ℕ := 0x7
def clcdFmt32bpp : ℕ := 7
def clcdOrderMask : ℕ := 0x3
def clcdOrderBgra : ℕ := 0

def s5lClcdSeedWindow0 (c : Clcd) (fbPhys width height stride format order : ℕ) : Option Clcd :=
  if width = 0 ∨ 0x400 < width ∨ height = 0 ∨ 0x3ff < height ∨ clcdFmtMask < format ∨
      clcdOrderMask < order ∨ stride % 4 ≠ 0 then none
  else
    let bytesPerPixel := if format = 6 ∨ format = 7 then 4 else 2
    let allocationBytes := stride * height
    let allocationSpan := (allocationBytes + 0xfff) / 0x1000 * 0x1000
    if stride < width * bytesPerPixel ∨ uint32Max < allocationBytes then none
    else if allocationSpan = 0 ∨ uint32Max < allocationSpan ∨
        2 ^ 32 < fbPhys + allocationSpan then none
    else some { c with
      window0 := ⟨stride, format * 2 ^ 8 + order * 2 ^ 16, fbPhys, width * 2 ^ 16 + height,
        stride / 4, 0⟩
      ctrl := c.ctrl ||| 0x41
      gate := 0x441
      opaques := fun i ↦
        if i = 1 then 0x00030303
        else if i = 2 then 0x000e0e0f
        else if i = 3 then (width - 1) * 2 ^ 16 + (height - 1)
        else if i = 4 then 1
        else c.opaques i
      wincfgAux := fun i ↦ if i = 0 ∨ i = 2 then 0x1000 else if i < 5 then 0 else c.wincfgAux i
      update2 := 0x1000
      enable := 1
      scanning := true
      frameAccum := 0 }

/-- `md_bridge_config_t`, with the RAM and the block left out. -/
structure MdBridgeConfig where
  readSite : Bridge.Site
  writeSite : Bridge.Site
  tokenBase : ℕ
  mediaSize : ℕ
  ramBase : ℕ
  ramSize : ℕ

def rangeEnd32 (base size : ℕ) : Option ℕ :=
  if size = 0 ∨ 2 ^ 32 ≤ base ∨ 2 ^ 32 - base < size then none else some (base + size)

def mdBridgeConfigValid (config : MdBridgeConfig) (blockSize : ℕ) : Bool :=
  let readPc := config.readSite.pc.toNat
  let writePc := config.writeSite.pc.toNat
  let readEncoding := config.readSite.encoding
  let writeEncoding := config.writeSite.encoding
  readPc ≤ uint32Max - 2 && writePc ≤ uint32Max - 2 &&
    !(readPc < writePc + 4 && writePc < readPc + 4) && readPc % 2 = 0 && writePc % 2 = 0 &&
    readEncoding ≤ 0xffff && writeEncoding ≤ 0xffff && readEncoding &&& 0xff00 = 0xdf00 &&
    writeEncoding &&& 0xff00 = 0xdf00 && readEncoding ≠ writeEncoding &&
    config.tokenBase % 4096 = 0 && config.mediaSize % 4096 = 0 && config.ramBase % 4096 = 0 &&
    config.ramSize % 4096 = 0 &&
    match rangeEnd32 config.tokenBase config.mediaSize,
      rangeEnd32 config.ramBase config.ramSize with
    | some tokenEnd, some ramEnd =>
      !(config.tokenBase < ramEnd && config.ramBase < tokenEnd) && blockSize = config.mediaSize
    | _, _ => false

/-- The root medium; the block interface may lack a callback. -/
structure RootMedia where
  device : Block.Device
  complete : Bool

/-- `s5l_bringup_kernel_gate_fn`, over the file and RAM. -/
abbrev KernelGate := List Octet → (ℕ → Octet) → Bool × (ℕ → Octet)

/-- `s5l_bringup_request_t`. -/
structure Request where
  kernel : List Octet
  devicetree : List Octet
  rootMedia : Option RootMedia := none
  kernelGate : Option KernelGate := none
  mdReadSitePc : Word := 0
  mdWriteSitePc : Word := 0
  mdRawSitePc : Word := 0
  uiomovePc : Word := 0
  cmdline : Option (List Octet) := none
  noFramebuffer : Bool := false
  noLcdPanelId : Bool := false
  noMemoryNode : Bool := false
  unmatch : List (List Octet) := []
  bootArgsRevision : ℕ := 0
  bootArgsVersion : ℕ := 0
  vDisplay : ℕ := 0

def Request.wantFb (request : Request) : Bool := !request.noFramebuffer
def Request.wantRoot (request : Request) : Bool := request.rootMedia.isSome

/-- The bus handler for privileged service calls. -/
inductive SvcHandler where
  | none
  | other (which : ℕ)
  | bringup
  deriving DecidableEq, Repr

structure Machine where
  ramBase : ℕ
  ramSize : ℕ
  ram : ℕ → Octet
  pc : ℕ
  r0 : ℕ
  svcHandler : SvcHandler
  clcd : Clcd

/-- `s5l_bringup_md_t`. -/
structure MdStorage where
  strategy : Option MdBridgeConfig := none
  raw : Option (Bridge.Config × Bridge.State) := none
  installed : Bool := false

/-- `s5l_bringup_result_t`, without the status, the stage and the text. -/
structure BringupResult where
  virtBase : ℕ := 0
  physBase : ℕ := 0
  ramSize : ℕ := 0
  kernelBeginPa : ℕ := 0
  kernelEndPa : ℕ := 0
  entryVa : ℕ := 0
  entryPa : ℕ := 0
  segmentsLoaded : ℕ := 0
  devicetreePa : ℕ := 0
  devicetreeVa : ℕ := 0
  devicetreeSize : ℕ := 0
  devicetreePatches : ℕ := 0
  devicetreeUnmatched : ℕ := 0
  bootArgsPa : ℕ := 0
  rawBouncePa : ℕ := 0
  framebufferPa : ℕ := 0
  vramBytes : ℕ := 0
  topOfKernelDataPa : ℕ := 0
  topOfKernelDataVa : ℕ := 0
  freePoolBytes : ℕ := 0
  rootMediaSize : ℕ := 0
  rootDtAddress : ℕ := 0
  rootDtSize : ℕ := 0
  framebufferEnabled : Bool := false
  mdBridgeInstalled : Bool := false
  machoStatus : Option Firmware.MachoStatus := none
  cmdline : List Octet := []

/-- What a write to RAM is part of. -/
inductive Region where
  | kernel
  | tree
  | args
  deriving DecidableEq, Repr

/-- Octets that the bring-up itself writes to RAM. -/
structure RamWrite where
  region : Region
  address : ℕ
  length : ℕ
  deriving DecidableEq, Repr

/-- What a bring-up works on, and the writes to RAM so far. -/
structure Bringup where
  machine : Machine
  md : Option MdStorage
  result : BringupResult := {}
  writes : List RamWrite := []

abbrev Step (α : Type) := Attempt (BringupStatus × BringupStage) Bringup α

def report (change : BringupResult → BringupResult) : Step Unit :=
  Attempt.modify fun b ↦ { b with result := change b.result }

def Bringup.store (b : Bringup) (region : Region) (address : ℕ) (data : List Octet) : Bringup :=
  { b with
    machine := { b.machine with ram := overwrite b.machine.ram address data }
    writes := b.writes ++ [⟨region, address, data.length⟩] }

def Machine.inRam (m : Machine) (address length : ℕ) : Bool :=
  m.ramBase ≤ address && address - m.ramBase + length ≤ m.ramSize

/-- `s5l8900_load`: what does not fit is not loaded. -/
def s5l8900Load (region : Region) (address : ℕ) (data : List Octet) : Step Unit :=
  Attempt.modify fun b ↦
    if data = [] ∨ uint32Max < data.length ∨ b.machine.inRam address data.length = false then b
    else b.store region address data

/-- The checks before anything is touched. -/
def checkArguments (request : Request) : Step Unit := do
  let b ← Attempt.get
  report fun r ↦ { r with
    virtBase := virtBase
    physBase := b.machine.ramBase
    ramSize := b.machine.ramSize }
  require (b.machine.ramBase = physBase ∧ b.machine.ramSize = ramSize)
    (.invalidArgument, .arguments)
  require (request.kernel ≠ []) (.kernelMissing, .arguments)
  require (request.devicetree ≠ []) (.devicetreeMissing, .arguments)
  require (request.devicetree.length ≤ uint32Max) (.devicetreeTooLarge, .arguments)
  require (request.wantRoot → b.md.isSome) (.rootStorageMissing, .arguments)
  require (request.wantRoot → request.kernelGate.isSome) (.rootGateMissing, .arguments)
  require (request.wantRoot → request.mdReadSitePc ≠ 0 ∧ request.mdWriteSitePc ≠ 0 ∧
    request.mdRawSitePc ≠ 0 ∧ request.uiomovePc ≠ 0) (.rootGateMissing, .arguments)
  Attempt.modify fun b ↦ { b with md := b.md.map fun _ ↦ {} }

def parseKernel (request : Request) : Step Firmware.Macho :=
  match Firmware.machoParse request.kernel with
  | .error status => do
    report fun r ↦ { r with machoStatus := some status }
    refuse (.kernelMalformed, .kernelParse)
  | .ok image => do
    require (image.filetype = Firmware.mhExecute ∧ image.cputype = Firmware.mhCpuTypeArm)
      (.kernelNotExecutable, .kernelParse)
    require (image.hasEntry = true) (.kernelNoEntry, .kernelParse)
    require (virtBase ≤ image.vmLow ∧ image.vmLow ≤ image.vmHigh)
      (.kernelBelowVirtBase, .kernelParse)
    pure image

def PlanFault.status : PlanFault → BringupStatus
  | .noRoom => .layoutNoRoom
  | .overlap => .layoutOverlap

/-- The physical layout, before anything is written. -/
def planLayout (request : Request) (image : Firmware.Macho) : Step Plan := do
  let kernel ← expect (kernelRange image.vmLow image.vmHigh) (.layoutOverflow, .layout)
  require (dram.start ≤ kernel.start ∧ kernel.stop ≤ dram.stop) (.layoutNoRoom, .layout)
  report fun r ↦ { r with
    kernelBeginPa := kernel.start % 2 ^ 32
    kernelEndPa := kernel.stop % 2 ^ 32 }
  let statics ← expect
    (staticRanges kernel.stop request.devicetree.length request.wantRoot) (.layoutOverflow, .layout)
  let staticEnd := statics.staticEnd request.wantRoot
  let framebuffer ← expect (framebufferRange staticEnd request.wantFb)
    (.layoutOverflow, .layout)
  match checkPlan [] (ranges kernel statics framebuffer) with
  | some fault => refuse (fault.status, .layout)
  | none =>
    let top ← expect (topOfKernelData (finalStaticEnd staticEnd framebuffer))
      (.layoutNoRoom, .layout)
    report fun r ↦ { r with
      devicetreePa := statics.tree.start % 2 ^ 32
      devicetreeVa := (virtBase + (statics.tree.start - physBase)) % 2 ^ 32
      devicetreeSize := request.devicetree.length % 2 ^ 32
      bootArgsPa := statics.args.start % 2 ^ 32
      rawBouncePa := if request.wantRoot then statics.bounce.start % 2 ^ 32 else 0
      framebufferPa := if request.wantFb then framebuffer.start % 2 ^ 32 else 0
      vramBytes := if request.wantFb then vramBytes else 0
      framebufferEnabled := request.wantFb
      topOfKernelDataPa := top % 2 ^ 32
      topOfKernelDataVa := (virtBase + (top - physBase)) % 2 ^ 32
      freePoolBytes := (dram.stop - top) % 2 ^ 32 }
    pure ⟨kernel, statics, framebuffer, top⟩

/-- The physical entry point, if it is in the kernel span. -/
def entryPa (image : Firmware.Macho) (kernel : Range) : Option ℕ :=
  if image.entry < virtBase then none
  else
    ((addU64 physBase (image.entry - virtBase)).bind fits32).filter fun entryPa ↦
      kernel.start ≤ entryPa ∧ entryPa < kernel.stop

def planEntry (image : Firmware.Macho) (plan : Plan) : Step Unit := do
  let entry ← expect (entryPa image plan.kernel) (.entryOutsideKernel, .layout)
  report fun r ↦ { r with entryVa := image.entry, entryPa := entry % 2 ^ 32 }

def mdTokenBase : ℕ := 0xe0000000
def mdMaxSize : ℕ := 0x20000000

/-- The geometry of the root medium; its pages have to fit the token window. -/
def mediaFits (media : RootMedia) : Bool :=
  let size := media.device.size
  size ≠ 0 && size ≤ mdMaxSize && size ≤ uint32Max && size % 4096 = 0 && media.complete &&
    match addU64 mdTokenBase size with
    | none => false
    | some tokenEnd => tokenEnd ≤ 0x100000000

def planMedia (request : Request) : Step Unit :=
  match request.rootMedia with
  | none => pure ()
  | some media => do
    require (mediaFits media = true) (.rootMediaInvalid, .arguments)
    report fun r ↦ { r with
      rootMediaSize := media.device.size
      rootDtAddress := mdTokenBase % 2 ^ 32
      rootDtSize := media.device.size % 2 ^ 32 }

/-- Where a segment is loaded, if that is inside the kernel span. -/
def segmentPa (kernel : Range) (segment : Firmware.MachoSegment) : Option ℕ := do
  let segmentPa ← addU64 physBase (segment.vmaddr - virtBase)
  let segmentEnd ← addU64 segmentPa segment.filesize
  if uint32Max < segmentPa ∨ segmentPa < kernel.start ∨ kernel.stop < segmentEnd ∨
      dram.stop < segmentEnd then none
  else some segmentPa

def loadSegments (request : Request) (kernel : Range) : List Firmware.MachoSegment → Step Unit
  | [] => pure ()
  | segment :: rest =>
    if segment.filesize = 0 ∨ segment.vmaddr < virtBase then loadSegments request kernel rest
    else do
      let address ← expect (segmentPa kernel segment) (.kernelSpanUnsafe, .kernelLoad)
      s5l8900Load .kernel address ((request.kernel.drop segment.fileoff).take segment.filesize)
      report fun r ↦ { r with segmentsLoaded := r.segmentsLoaded + 1 }
      loadSegments request kernel rest

/-- The caller's gate sees the file and RAM, and may write there. -/
def runGate (request : Request) : Step Unit :=
  if request.wantRoot = false then pure ()
  else
    match request.kernelGate with
    | none => pure ()
    | some gate => do
      let b ← Attempt.get
      let answer := gate request.kernel b.machine.ram
      Attempt.modify fun b ↦ { b with machine := { b.machine with ram := answer.2 } }
      require (answer.1 = true) (.rootGateRefused, .kernelGate)

/-- The tree as it is in RAM. -/
def Bringup.tree (b : Bringup) (plan : Plan) (length : ℕ) : List Octet :=
  window b.machine.ram plan.statics.tree.start length

def storeEdits (plan : Plan) : List Edit → Step Unit
  | [] => pure ()
  | (place, octets) :: rest => do
    Attempt.modify fun b ↦ b.store .tree (plan.statics.tree.start + place) octets
    storeEdits plan rest

/-- An edit of the tree where it is. -/
def patch (plan : Plan) (length : ℕ) (find : List Octet → Option (List Edit)) : Step Unit := do
  let b ← Attempt.get
  let edits ← expect (find (b.tree plan length)) (.devicetreePatchFailed, .devicetreePatch)
  storeEdits plan edits

def countPatch : Step Unit :=
  report fun r ↦ { r with devicetreePatches := r.devicetreePatches + 1 }

def loadTree (request : Request) (plan : Plan) : Step Unit := do
  s5l8900Load .tree plan.statics.tree.start request.devicetree
  let b ← Attempt.get
  let tree := b.tree plan request.devicetree.length
  require ((dtHeader tree 0).isSome ∧ (dtSubtreeEnd tree nestingGuard 0).isSome)
    (.devicetreeMalformed, .devicetreeLoad)

def cpuHz : ℕ := 412000000
def busHz : ℕ := 103000000
def memHz : ℕ := 103000000
def prfHz : ℕ := 51500000
def fixHz : ℕ := 24000000
def tbHz : ℕ := 6000000

/-- The clock table: path, property and value. -/
def clocks : List (String × String × ℕ) :=
  [("", "clock-frequency", busHz), ("cpus/cpu0", "timebase-frequency", tbHz),
    ("cpus/cpu0", "clock-frequency", cpuHz),
    ("cpus/cpu0", "bus-frequency", busHz),
    ("cpus/cpu0", "memory-frequency", memHz),
    ("cpus/cpu0", "peripheral-frequency", prfHz),
    ("cpus/cpu0", "fixed-frequency", fixHz)]

def patchClocks (plan : Plan) (length : ℕ) : List (String × String × ℕ) → Step Unit
  | [] => pure ()
  | (path, prop, value) :: rest => do
    patch plan length fun tree ↦ dtSetU32 tree (ascii path) (ascii prop) value
    countPatch
    patchClocks plan length rest

def lcdPanelId : ℕ := 0x00a5c22b
def lcdNode : List Octet := ascii "arm-io/spi0/lcd0"
def lcdCompat : List Octet := ascii "lcd,merlot"

/-- A patch that the request may leave out. -/
def patchIf (wanted : Bool) (plan : Plan) (length : ℕ) (find : List Octet → Option (List Edit)) :
    Step Unit :=
  if wanted then do
    patch plan length find
    countPatch
  else pure ()

def unmatchLoop (plan : Plan) (length : ℕ) : List (List Octet) → Step Unit
  | [] => pure ()
  | path :: rest => do
    patch plan length fun tree ↦ dtUnmatch tree path
    report fun r ↦ { r with devicetreeUnmatched := r.devicetreeUnmatched + 1 }
    unmatchLoop plan length rest

def patchTree (request : Request) (plan : Plan) : Step Unit := do
  let length := request.devicetree.length
  patchClocks plan length clocks
  patchIf (request.wantFb && !request.noLcdPanelId) plan length fun tree ↦
    if dtCompatibleExact tree lcdNode lcdCompat then
      dtSetU32 tree lcdNode (ascii "lcd-panel-id") lcdPanelId
    else none
  patchIf (!request.noMemoryNode) plan length fun tree ↦
    dtSetReg tree (ascii "memory") (ascii "reg") physBase ramSize
  patchIf request.wantFb plan length fun tree ↦
    dtSetReg tree (ascii "vram") (ascii "reg") (plan.framebuffer.start % 2 ^ 32) vramBytes
  let b ← Attempt.get
  patchIf request.wantRoot plan length fun tree ↦
    dtMemmapAdd tree (ascii "RAMDisk") b.result.rootDtAddress b.result.rootDtSize
  unmatchLoop plan length request.unmatch

def cmdlineCapacity : ℕ := 256
def defaultCmdline : List Octet := ascii "debug=0x8 serial=1 nand-enable-adm=0"
def rootToken : List Octet := ascii "rd=md0"

/-- Whether a token of the text begins with `rd=`. -/
def hasRootToken : (fresh : Bool) → List Octet → Bool
  | _, [] => false
  | fresh, c :: rest =>
    if c = 0x20 ∨ c = 0x09 then hasRootToken true rest
    else (fresh && (ascii "rd=").isPrefixOf (c :: rest)) || hasRootToken false rest

def cmdlineOf (request : Request) : List Octet :=
  let base := request.cmdline.getD defaultCmdline
  if request.wantRoot && !hasRootToken true base then
    base ++ (if base = [] then [] else [0x20]) ++ rootToken
  else base

def commandLine (request : Request) : Step Unit := do
  let text := cmdlineOf request
  require (text.length < cmdlineCapacity) (.cmdlineTooLong, .commandLine)
  report fun r ↦ { r with cmdline := text }

def bootArgsSize : ℕ := 0x138

def bootArgs (request : Request) (r : BringupResult) : List Octet :=
  let header :=
    LittleEndian.put 2 (if request.bootArgsRevision = 0 then 1 else request.bootArgsRevision) ++
    LittleEndian.put 2 (if request.bootArgsVersion = 0 then 6 else request.bootArgsVersion) ++
    LittleEndian.put 4 virtBase ++ LittleEndian.put 4 physBase ++ LittleEndian.put 4 ramSize ++
    LittleEndian.put 4 r.topOfKernelDataPa ++ LittleEndian.put 4 r.framebufferPa ++
    LittleEndian.put 4 (if request.wantFb then request.vDisplay else 0) ++
    LittleEndian.put 4 (fbWidth * fbBpp) ++ LittleEndian.put 4 fbWidth ++
    LittleEndian.put 4 fbHeight ++ LittleEndian.put 4 (fbBpp * 8) ++ LittleEndian.put 4 0 ++
    LittleEndian.put 4 r.devicetreeVa ++ LittleEndian.put 4 r.devicetreeSize
  let text := header ++ r.cmdline
  text ++ List.replicate (bootArgsSize - text.length) 0

def loadBootArgs (request : Request) (plan : Plan) : Step Unit := do
  let b ← Attempt.get
  s5l8900Load .args plan.statics.args.start (bootArgs request b.result)

def seedDisplay (request : Request) (plan : Plan) : Step Unit :=
  if request.wantFb = false then pure ()
  else do
    let b ← Attempt.get
    let clcd ← expect
      (s5lClcdSeedWindow0 b.machine.clcd (plan.framebuffer.start % 2 ^ 32) fbWidth fbHeight
        (fbWidth * fbBpp) clcdFmt32bpp clcdOrderBgra)
      (.framebufferRefused, .framebuffer)
    Attempt.modify fun b ↦ { b with machine := { b.machine with clcd := clcd } }

def strategyConfig (request : Request) (media : RootMedia) : MdBridgeConfig where
  readSite := ⟨request.mdReadSitePc, 0xdfe1⟩
  writeSite := ⟨request.mdWriteSitePc, 0xdfe2⟩
  tokenBase := mdTokenBase
  mediaSize := media.device.size
  ramBase := physBase
  ramSize := ramSize

def rawConfig (request : Request) (plan : Plan) (media : RootMedia) : Bridge.Config where
  site := ⟨request.mdRawSitePc, 0xdfe3⟩
  completionSite := ⟨request.mdRawSitePc + 2, 0xdfe4⟩
  uiomoveThumbPc := request.uiomovePc
  expectedDevice := 0x09000000
  userAddressLimit := 0xc0000000
  mediaSize := media.device.size
  ramBase := physBase
  ramSize := ramSize
  bounceBasePa := plan.statics.bounce.start
  bounceStride := Bridge.maxTransfer
  bounceSlotCount := 4

def installBridges (request : Request) (plan : Plan) : Step Unit :=
  match request.rootMedia with
  | none => pure ()
  | some media => do
    let strategy := strategyConfig request media
    let raw := rawConfig request plan media
    require (mdBridgeConfigValid strategy media.device.size = true ∧
      Bridge.configValid raw media.device = true) (.rootBridgeRefused, .rootBridge)
    Attempt.modify fun b ↦ { b with
      md := b.md.map fun _ ↦ ⟨some strategy, some (raw, Bridge.init), true⟩
      machine := { b.machine with svcHandler := .bringup }
      result := { b.result with mdBridgeInstalled := true } }

/-- Point the CPU at the kernel. -/
def start : Step Unit :=
  Attempt.modify fun b ↦ { b with machine := { b.machine with
    pc := b.result.entryPa
    r0 := b.result.bootArgsPa } }

/-- What is decided before the first write. -/
def prepare (request : Request) : Step (Firmware.Macho × Plan) := do
  checkArguments request
  let image ← parseKernel request
  let plan ← planLayout request image
  planEntry image plan
  planMedia request
  pure (image, plan)

/-- What is written, and the devices. -/
def populate (request : Request) (image : Firmware.Macho) (plan : Plan) : Step Unit := do
  loadSegments request plan.kernel image.segments
  runGate request
  loadTree request plan
  patchTree request plan
  commandLine request
  loadBootArgs request plan
  seedDisplay request plan

def s5lBringup (request : Request) (machine : Machine) (md : Option MdStorage) :
    (BringupStatus × BringupStage) × Bringup :=
  let attempt : Step Unit := do
    let (image, plan) ← prepare request
    populate request image plan
    installBridges request plan
    start
  match attempt { machine := machine, md := md } with
  | (.error failure, b) => (failure, b)
  | (.ok (), b) => ((.ok, .entry), b)

end S5LBox.Boot
