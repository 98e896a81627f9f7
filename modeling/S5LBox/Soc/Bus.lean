import S5LBox.Library.LittleEndian
import S5LBox.Library.Window
import S5LBox.Word

/-!
# The system bus

The part of `machine.c` that routes an access of the guest: RAM, the windows of the devices, the
stubs that were added, and what is left. What a device does with an access is its own affair; here
the access ends with the device and the offset it is handed. An access to a cell that an array does
not have has no result.
-/

namespace S5LBox.Soc

/-- The devices that the bus decodes. -/
inductive Device
  | uart0 | uart4 | vic0 | vic1 | clcd | tvoutCtrl | tvoutMixer | tvoutSdo | timer | power | mbx
  | gpioic | gpio | i2c0 | i2c1 | i2s0 | i2s1 | spi0 | spi1 | usbOtg | dmac0 | dmac1 | nor
deriving DecidableEq

def devSize : Word := 0x1000
def uart0Base : Word := 0x3cc00000
def uart4Base : Word := 0x3cc10000
def vic0Base : Word := 0x38e00000
def vic1Base : Word := 0x38e01000
def clcdBase : Word := 0x38900000
def tvoutCtrlBase : Word := 0x39100000
def tvoutMixerBase : Word := 0x39200000
def tvoutSdoBase : Word := 0x39300000
def tvoutBankSize : Word := 0x1000
def timerBase : Word := 0x3e200000
def timerSize : Word := 0x11000
def powerBase : Word := 0x39a00000
def powerSize : Word := 0x80
def mbxBase : Word := 0x3b000000
def mbxAperture : Word := 0x01000000
def gpioicPage : Word := 0x39a00000
def gpioicBase : Word := 0x39a00080
def gpioicSize : Word := 0xf80
def gpioBase : Word := 0x3e400000
def i2c0Base : Word := 0x3c600000
def i2c1Base : Word := 0x3c900000
def i2s0Base : Word := 0x3ca00000
def i2s1Base : Word := 0x3cd00000
def spi0Base : Word := 0x3c300000
def spi1Base : Word := 0x3ce00000
def spi2Base : Word := 0x3d200000
def usbOtgBase : Word := 0x38400000
def dmac0Base : Word := 0x38200000
def dmac1Base : Word := 0x39900000
def norBase : Word := 0x28000000
def norSize : Word := 0x00100000
def clockBase : Word := 0x3c500000
def miuBase : Word := 0x38100000
def edgeicBase : Word := 0x38e02000

/-- A window of the physical address space. -/
structure BusWindow where
  base : Word
  size : Word
deriving DecidableEq

/-- Every window the machine decodes, in the order of the source. -/
def deviceWindows : List BusWindow :=
  [⟨norBase, norSize⟩, ⟨clcdBase, devSize⟩, ⟨tvoutCtrlBase, tvoutBankSize⟩,
    ⟨tvoutMixerBase, tvoutBankSize⟩, ⟨tvoutSdoBase, tvoutBankSize⟩, ⟨mbxBase, mbxAperture⟩,
    ⟨i2c0Base, devSize⟩, ⟨i2c1Base, devSize⟩, ⟨i2s0Base, devSize⟩, ⟨i2s1Base, devSize⟩,
    ⟨spi0Base, devSize⟩, ⟨spi1Base, devSize⟩, ⟨usbOtgBase, devSize⟩, ⟨vic0Base, devSize⟩,
    ⟨vic1Base, devSize⟩, ⟨powerBase, powerSize⟩, ⟨gpioicBase, gpioicSize⟩, ⟨gpioBase, devSize⟩,
    ⟨uart0Base, devSize⟩, ⟨uart4Base, devSize⟩, ⟨timerBase, timerSize⟩, ⟨dmac0Base, devSize⟩,
    ⟨dmac1Base, devSize⟩]

/-- The comparison is made in 64 bits, so that no end wraps. -/
def overlaps (a alen b blen : Word) : Bool :=
  alen ≠ 0 ∧ blen ≠ 0 ∧ b.toNat < a.toNat + alen.toNat ∧ a.toNat < b.toNat + blen.toNat

def ramConflict (ramBase ramSize : Word) : Bool :=
  deviceWindows.any fun w ↦ overlaps ramBase ramSize w.base w.size

def stubMax : ℕ := 16
def unmappedLog : ℕ := 32

/-- A window that is storage and nothing else. -/
structure Stub where
  base : Word
  size : Word
  regs : List Word
  reads : ℕ
  writes : ℕ

structure Machine where
  ramBase : Word
  ramSize : Word
  ram : List Octet
  norSize : Word
  stubs : List Stub
  levelDirty : Bool
  unmappedReads : ℕ
  unmappedWrites : ℕ
  unmappedAddr : List Word
  stubDeclareFailures : ℕ

/-- Declare a stub; `granted` says whether its registers can be allocated. -/
def addStub (granted : Bool) (m : Machine) (base size : Word) : Bool × Machine :=
  if stubMax ≤ m.stubs.length ∨ size = 0 then (false, m)
  else if 0x100000000 < base.toNat + size.toNat then (false, m)
  else if deviceWindows.any fun w ↦ overlaps base size w.base w.size then (false, m)
  else if m.stubs.any fun s ↦ overlaps base size s.base s.size then (false, m)
  else if overlaps base size m.ramBase m.ramSize then (false, m)
  else
    let nregs := (size.toNat + 3) / 4
    if 0xffffffff < nregs ∨ !granted then (false, m)
    else
      (true, { m with
        stubs := m.stubs ++ [{ base, size, regs := List.replicate nregs 0, reads := 0, writes := 0 }] })

/-- The windows that are known and not modelled. -/
def knownStubs : List BusWindow :=
  [⟨clockBase, devSize⟩, ⟨miuBase, devSize⟩, ⟨edgeicBase, devSize⟩, ⟨spi2Base, devSize⟩]

/-- Declare stubs, and count those that are refused. -/
def declareStubs : List (BusWindow × Bool) → Machine → Machine
  | [], m => m
  | (w, granted) :: rest, m =>
    match addStub granted m w.base w.size with
    | (true, m) => declareStubs rest m
    | (false, m) => declareStubs rest { m with stubDeclareFailures := m.stubDeclareFailures + 1 }

/-- Build a machine; `granted` says whether its memory can be allocated, and `stubGranted` the same
of the registers of each known stub. -/
def init (granted : Bool) (stubGranted : List Bool) (ramBase ramSize : Word) : Option Machine :=
  if ramSize = 0 ∨ 0x100000000 < ramBase.toNat + ramSize.toNat ∨ ramConflict ramBase ramSize then
    none
  else if !granted then none
  else
    some { declareStubs (knownStubs.zip stubGranted)
        { ramBase
          ramSize
          ram := List.replicate ramSize.toNat 0
          norSize := norSize
          stubs := []
          levelDirty := false
          unmappedReads := 0
          unmappedWrites := 0
          unmappedAddr := []
          stubDeclareFailures := 0 } with
      levelDirty := true }

def inRam (m : Machine) (a : Word) (len : ℕ) : Bool :=
  m.ramBase ≤ a ∧ (a - m.ramBase).toNat + len ≤ m.ramSize.toNat

def inWindow (a : Word) (bytes : ℕ) (base size : Word) : Bool :=
  bytes ≠ 0 ∧ base ≤ a ∧ (a - base).toNat + bytes ≤ size.toNat

def inDev (a : Word) (bytes : ℕ) (base : Word) : Bool := inWindow a bytes base devSize

/-- An octet, a halfword or a word. -/
def narrow (bytes : ℕ) : Bool := bytes = 1 ∨ bytes = 2 ∨ bytes = 4

def mmioWord (a : Word) (bytes : ℕ) (base size : Word) : Bool :=
  bytes = 4 ∧ a &&& 3 = 0 ∧ inWindow a bytes base size

/-- The data ports take narrow accesses too, which a DMA controller makes. -/
def mmioData (a : Word) (bytes : ℕ) (base size : Word) : Bool :=
  narrow bytes ∧ a &&& BitVec.ofNat 32 (bytes - 1) = 0 ∧ inWindow a bytes base size

def inPower (a : Word) (bytes : ℕ) : Bool := mmioWord a bytes powerBase powerSize
def inMbx (a : Word) (bytes : ℕ) : Bool := mmioWord a bytes mbxBase mbxAperture
def inGpioic (a : Word) (bytes : ℕ) : Bool := mmioWord a bytes gpioicBase gpioicSize
def inTimer (a : Word) (bytes : ℕ) : Bool := mmioWord a bytes timerBase timerSize

/-- The number of the first stub that has the access. -/
def findStub (m : Machine) (a : Word) (bytes : ℕ) : Option ℕ :=
  m.stubs.findIdx? fun s ↦ inWindow a bytes s.base s.size

/-- Who answers an access. -/
inductive Target
  | ram
  | device (d : Device)
  | stub (index : ℕ)
deriving DecidableEq

/-- The base of a stub that was found. -/
def Machine.stubBase (m : Machine) (index : ℕ) : Word :=
  match m.stubs[index]? with
  | some s => s.base
  | none => 0

/-- How a read is decoded, and the offset that goes with it. -/
def readTarget (m : Machine) (addr : Word) (bytes : ℕ) : Option (Target × Word) :=
  if inRam m addr bytes then some (.ram, addr - m.ramBase)
  else if narrow bytes ∧ addr &&& 3 = 0 ∧ inDev addr bytes uart0Base then
    some (.device .uart0, addr - uart0Base)
  else if narrow bytes ∧ addr &&& 3 = 0 ∧ inDev addr bytes uart4Base then
    some (.device .uart4, addr - uart4Base)
  else if mmioWord addr bytes vic0Base devSize then some (.device .vic0, addr - vic0Base)
  else if mmioWord addr bytes vic1Base devSize then some (.device .vic1, addr - vic1Base)
  else if mmioWord addr bytes clcdBase devSize then some (.device .clcd, addr - clcdBase)
  else if narrow bytes ∧ inWindow addr bytes tvoutCtrlBase tvoutBankSize then
    some (.device .tvoutCtrl, addr - tvoutCtrlBase)
  else if narrow bytes ∧ inWindow addr bytes tvoutMixerBase tvoutBankSize then
    some (.device .tvoutMixer, addr - tvoutMixerBase)
  else if narrow bytes ∧ inWindow addr bytes tvoutSdoBase tvoutBankSize then
    some (.device .tvoutSdo, addr - tvoutSdoBase)
  else if inTimer addr bytes then some (.device .timer, addr - timerBase)
  else if inPower addr bytes then some (.device .power, addr - powerBase)
  else if inMbx addr bytes then some (.device .mbx, addr - mbxBase)
  -- The registers of this one are counted from the page and not from the window.
  else if inGpioic addr bytes then some (.device .gpioic, addr - gpioicPage)
  else if narrow bytes ∧ inDev addr bytes gpioBase then some (.device .gpio, addr - gpioBase)
  else if mmioWord addr bytes i2c0Base devSize then some (.device .i2c0, addr - i2c0Base)
  else if mmioWord addr bytes i2c1Base devSize then some (.device .i2c1, addr - i2c1Base)
  else if mmioData addr bytes i2s0Base devSize then some (.device .i2s0, addr - i2s0Base)
  else if mmioData addr bytes i2s1Base devSize then some (.device .i2s1, addr - i2s1Base)
  else if mmioData addr bytes spi0Base devSize then some (.device .spi0, addr - spi0Base)
  else if mmioData addr bytes spi1Base devSize then some (.device .spi1, addr - spi1Base)
  else if mmioWord addr bytes usbOtgBase devSize then some (.device .usbOtg, addr - usbOtgBase)
  else if mmioWord addr bytes dmac0Base devSize then some (.device .dmac0, addr - dmac0Base)
  else if mmioWord addr bytes dmac1Base devSize then some (.device .dmac1, addr - dmac1Base)
  else if narrow bytes ∧ inWindow addr bytes norBase m.norSize then
    some (.device .nor, addr - norBase)
  else (findStub m addr bytes).map fun index ↦ (.stub index, addr - m.stubBase index)

/-- How a write is decoded; the chain of the source is its own. -/
def writeTarget (m : Machine) (addr : Word) (bytes : ℕ) : Option (Target × Word) :=
  if inRam m addr bytes then some (.ram, addr - m.ramBase)
  else if narrow bytes ∧ addr &&& 3 = 0 ∧ inDev addr bytes uart0Base then
    some (.device .uart0, addr - uart0Base)
  else if narrow bytes ∧ addr &&& 3 = 0 ∧ inDev addr bytes uart4Base then
    some (.device .uart4, addr - uart4Base)
  else if mmioWord addr bytes vic0Base devSize then some (.device .vic0, addr - vic0Base)
  else if mmioWord addr bytes vic1Base devSize then some (.device .vic1, addr - vic1Base)
  else if mmioWord addr bytes clcdBase devSize then some (.device .clcd, addr - clcdBase)
  else if narrow bytes ∧ inWindow addr bytes tvoutCtrlBase tvoutBankSize then
    some (.device .tvoutCtrl, addr - tvoutCtrlBase)
  else if narrow bytes ∧ inWindow addr bytes tvoutMixerBase tvoutBankSize then
    some (.device .tvoutMixer, addr - tvoutMixerBase)
  else if narrow bytes ∧ inWindow addr bytes tvoutSdoBase tvoutBankSize then
    some (.device .tvoutSdo, addr - tvoutSdoBase)
  else if inTimer addr bytes then some (.device .timer, addr - timerBase)
  else if inPower addr bytes then some (.device .power, addr - powerBase)
  else if inMbx addr bytes then some (.device .mbx, addr - mbxBase)
  else if inGpioic addr bytes then some (.device .gpioic, addr - gpioicPage)
  else if narrow bytes ∧ inDev addr bytes gpioBase then some (.device .gpio, addr - gpioBase)
  else if mmioWord addr bytes i2c0Base devSize then some (.device .i2c0, addr - i2c0Base)
  else if mmioWord addr bytes i2c1Base devSize then some (.device .i2c1, addr - i2c1Base)
  else if mmioData addr bytes i2s0Base devSize then some (.device .i2s0, addr - i2s0Base)
  else if mmioData addr bytes i2s1Base devSize then some (.device .i2s1, addr - i2s1Base)
  else if mmioData addr bytes spi0Base devSize then some (.device .spi0, addr - spi0Base)
  else if mmioData addr bytes spi1Base devSize then some (.device .spi1, addr - spi1Base)
  else if mmioWord addr bytes usbOtgBase devSize then some (.device .usbOtg, addr - usbOtgBase)
  else if mmioWord addr bytes dmac0Base devSize then some (.device .dmac0, addr - dmac0Base)
  else if mmioWord addr bytes dmac1Base devSize then some (.device .dmac1, addr - dmac1Base)
  else if narrow bytes ∧ inWindow addr bytes norBase m.norSize then
    some (.device .nor, addr - norBase)
  else (findStub m addr bytes).map fun index ↦ (.stub index, addr - m.stubBase index)

/-- What an access comes to: a value, or a device that answers it. -/
inductive Reply
  | value (v : Word)
  | device (d : Device) (off : Word)

/-- Record the page of an address outside the map, once each and as long as there is room. -/
def noteUnmapped (m : Machine) (addr : Word) : Machine :=
  let page := addr &&& ~~~(0xfff : Word)
  if page ∈ m.unmappedAddr then m
  else if m.unmappedAddr.length < unmappedLog then
    { m with unmappedAddr := m.unmappedAddr ++ [page] }
  else m

/-- The value is a word, so no more than its octets can be copied. -/
def ramRead (m : Machine) (index bytes : ℕ) : Option Word :=
  if index + bytes ≤ m.ram.length ∧ bytes ≤ 4 then
    some (BitVec.ofNat 32 (LittleEndian.get ((m.ram.drop index).take bytes)))
  else none

def ramWrite (m : Machine) (index : ℕ) (val : Word) (bytes : ℕ) : Option Machine :=
  if index + bytes ≤ m.ram.length ∧ bytes ≤ 4 then
    some { m with
      ram := m.ram.take index ++ LittleEndian.put bytes val.toNat ++ m.ram.drop (index + bytes) }
  else none

/-- Collect octets from the registers, `i` being how many there are already. -/
def stubReadLoop (s : Stub) (rel : Word) : ℕ → ℕ → Word → Option Word
  | 0, _, v => some v
  | turns + 1, i, v =>
    let pos := rel + BitVec.ofNat 32 i
    match s.regs[(pos >>> 2).toNat]? with
    | none => none
    | some reg =>
      let byte := reg >>> ((pos &&& 3).toNat * 8) &&& 0xff
      stubReadLoop s rel turns (i + 1) (v ||| byte <<< (i * 8))

def stubRead (s : Stub) (addr : Word) (bytes : ℕ) : Option Word :=
  stubReadLoop s (addr - s.base) bytes 0 0

def stubWriteLoop (s : Stub) (rel val : Word) : ℕ → ℕ → Option Stub
  | 0, _ => some s
  | turns + 1, i =>
    let pos := rel + BitVec.ofNat 32 i
    let shift := (pos &&& 3).toNat * 8
    match s.regs[(pos >>> 2).toNat]? with
    | none => none
    | some reg =>
      let reg := reg &&& ~~~((0xff : Word) <<< shift) ||| (val >>> (i * 8) &&& 0xff) <<< shift
      stubWriteLoop { s with regs := s.regs.set (pos >>> 2).toNat reg } rel val turns (i + 1)

def stubWrite (s : Stub) (addr val : Word) (bytes : ℕ) : Option Stub :=
  stubWriteLoop s (addr - s.base) val bytes 0

/-- A read of the guest. Every access that is not RAM's makes the levels stale. -/
def busRead (m : Machine) (addr : Word) (bytes : ℕ) : Option (Reply × Machine) :=
  match readTarget m addr bytes with
  | some (.ram, index) => (ramRead m index.toNat bytes).map fun v ↦ (.value v, m)
  | some (.device d, off) => some (.device d off, { m with levelDirty := true })
  | some (.stub index, _) =>
    match m.stubs[index]? with
    | none => none
    | some s =>
      (stubRead s addr bytes).map fun v ↦ (.value v, { m with
        levelDirty := true
        stubs := m.stubs.set index { s with reads := s.reads + 1 } })
  | none =>
    some (.value 0, noteUnmapped
      { m with levelDirty := true, unmappedReads := m.unmappedReads + 1 } addr)

/-- A write of the guest; a device that is reached is handed the value. -/
def busWrite (m : Machine) (addr val : Word) (bytes : ℕ) : Option (Option (Device × Word) × Machine) :=
  match writeTarget m addr bytes with
  | some (.ram, index) => (ramWrite m index.toNat val bytes).map fun m ↦ (none, m)
  | some (.device d, off) => some (some (d, off), { m with levelDirty := true })
  | some (.stub index, _) =>
    match m.stubs[index]? with
    | none => none
    | some s =>
      (stubWrite { s with writes := s.writes + 1 } addr val bytes).map fun s ↦ (none, { m with
        levelDirty := true
        stubs := m.stubs.set index s })
  | none =>
    some (none, noteUnmapped
      { m with levelDirty := true, unmappedWrites := m.unmappedWrites + 1 } addr)

/-- Where in RAM a range of addresses is, for a caller that goes around the bus. -/
def hostRam (m : Machine) (pa : Word) (len : ℕ) : Option ℕ :=
  if len = 0 ∨ !inRam m pa len then none else some (pa - m.ramBase).toNat

def mbxSize : Word := 0x2000
def mbxEdramSize : Word := mbxAperture - mbxSize
def gpioicGroups : ℕ := 7
def i2sOffsets : List Word := [0x00, 0x04, 0x08, 0x30, 0x34, 0x3c, 0x40]
def dmaChannels : ℕ := 8

/-- The registers of a bank of words that an access of octets touches: their numbers, and how many
the bank has. -/
def wordCells (valid : Bool) (off : Word) (bytes : ℕ) : List (ℕ × ℕ) :=
  if valid ∧ off.toNat + bytes ≤ 0x1000 then
    (List.range bytes).map fun i ↦ (((off + BitVec.ofNat 32 i) >>> 2).toNat, 0x400)
  else []

/-- The group of an interrupt register that belongs to the bank at `base`. -/
def gpioicDecode (off base : Word) : List (ℕ × ℕ) :=
  if base ≤ off ∧ (off - base) &&& 3 = 0 ∧ ((off - base) >>> 2).toNat < gpioicGroups then
    [(((off - base) >>> 2).toNat, gpioicGroups)]
  else []

def onGrid (off first last : Word) : Bool := first ≤ off ∧ off ≤ last ∧ off &&& 3 = 0

/-- The register of the display controller at an offset that no single register has. -/
def clcdCells (off : Word) : List (ℕ × ℕ) :=
  if onGrid off 0x28 0x54 then [(((off - 0x28) / 4).toNat, 12)]
  else if onGrid off 0x1c8 0x1e8 then [(((off - 0x1c8) / 4).toNat, 9)]
  else if onGrid off 0x208 0x218 then [(((off - 0x208) / 4).toNat, 5)]
  else if off = 0xd8 ∨ off = 0xdc ∨ off = 0xe0 ∨ off = 0xe4 then [(((off - 0xd8) / 4).toNat, 5)]
  else if off = 0xec then [(4, 5)]
  else if 0x58 ≤ off ∧ ((off - 0x58) / 0x18).toNat < 4 then [(((off - 0x58) / 0x18).toNat, 4)]
  else if 0x400 ≤ off ∧ off < 0x1000 ∧ off &&& 3 = 0 then
    [(((off - 0x400) / 0x400).toNat, 3), (((off - 0x400) % 0x400 / 4).toNat, 256)]
  else []

/-- The cells of arrays that a device may touch when it is handed an offset: the index of each, and
the length of the array. The other registers are not in arrays. -/
def deviceCells (m : Machine) (d : Device) (off : Word) (bytes : ℕ) : List (ℕ × ℕ) :=
  match d with
  | .clcd => clcdCells off
  | .tvoutCtrl | .tvoutMixer | .tvoutSdo => wordCells (narrow bytes) off bytes
  | .gpio => wordCells (bytes ≠ 0 ∧ bytes ≤ 4) off bytes
  | .mbx =>
    if mbxAperture ≤ off then []
    else if mbxSize ≤ off then
      let o := off - mbxSize
      if mbxEdramSize < o + 4 then []
      else
        [(o.toNat, mbxEdramSize.toNat), ((o + 1).toNat, mbxEdramSize.toNat),
          ((o + 2).toNat, mbxEdramSize.toNat), ((o + 3).toNat, mbxEdramSize.toNat)]
    else [((off / 4).toNat, (mbxSize / 4).toNat)]
  | .gpioic =>
    gpioicDecode off 0x80 ++ gpioicDecode off 0xa0 ++ gpioicDecode off 0xc0 ++ gpioicDecode off 0xe0
  | .i2s0 | .i2s1 =>
    match i2sOffsets.findIdx? (· = off) with
    | none => []
    | some slot => [(slot, i2sOffsets.length)]
  | .dmac0 | .dmac1 =>
    if 0x100 ≤ off ∧ ((off - 0x100) / 0x20).toNat < dmaChannels then
      [(((off - 0x100) / 0x20).toNat, dmaChannels)]
    else []
  | .nor =>
    if narrow bytes ∧ off.toNat + bytes ≤ m.norSize.toNat then
      (List.range bytes).map fun i ↦ (off.toNat + i, m.norSize.toNat)
    else []
  | _ => []

end S5LBox.Soc
