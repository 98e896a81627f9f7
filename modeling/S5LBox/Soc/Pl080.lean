import S5LBox.Arm.Mmu
import S5LBox.Library.LittleEndian

/-!
# The PL080 DMA controller

Eight channels, each with a source, a destination, a link to the next item, a control word that
carries the remaining count, and a configuration. A channel is served in the tick, over the same
bus as the processor, so that what is behind the bus includes the controller itself: the state of
the bus is the controller and everything else. Each function of the engine also reports the
accesses it has made.
-/

namespace S5LBox.Soc

abbrev pl080Channels : ℕ := 8

instance : NeZero pl080Channels := ⟨by decide⟩

def pl080UnknownOff : ℕ := 8
def pl080MaxItems : ℕ := 1024

def pl080IntStatus : Word := 0x000
def pl080IntTcStatus : Word := 0x004
def pl080IntTcClear : Word := 0x008
def pl080IntErrStatus : Word := 0x00c
def pl080IntErrClear : Word := 0x010
def pl080RawIntTcStatus : Word := 0x014
def pl080RawIntErrStatus : Word := 0x018
def pl080EnbldChns : Word := 0x01c
def pl080SoftBreq : Word := 0x020
def pl080SoftSreq : Word := 0x024
def pl080SoftLbreq : Word := 0x028
def pl080SoftLsreq : Word := 0x02c
def pl080Config : Word := 0x030
def pl080Sync : Word := 0x034
def pl080ChanBase : Word := 0x100
def pl080ChanStride : Word := 0x020
def pl080ChSrc : Word := 0x00
def pl080ChDst : Word := 0x04
def pl080ChLli : Word := 0x08
def pl080ChCtrl : Word := 0x0c
def pl080ChCfg : Word := 0x10

def pl080ConfigEn : Word := 0x00000001
def pl080ConfigEndian : Word := 0x00000006

def pl080CfgEn : Word := 0x00000001
def pl080CfgFlowShift : ℕ := 11
def pl080CfgFlowMask : Word := 0x00003800
def pl080CfgIe : Word := 0x00004000
def pl080CfgItc : Word := 0x00008000
def pl080CfgActive : Word := 0x00020000
def pl080CfgHalt : Word := 0x00040000

def pl080CtrlSizeMask : Word := 0x00000fff
def pl080CtrlSwidthShift : ℕ := 18
def pl080CtrlDwidthShift : ℕ := 21
def pl080CtrlWidthMask : Word := 7
def pl080CtrlSi : Word := 0x04000000
def pl080CtrlDi : Word := 0x08000000
def pl080CtrlI : Word := 0x80000000

structure Pl080Chan where
  src : Word := 0
  dst : Word := 0
  lli : Word := 0
  ctrl : Word := 0
  cfg : Word := 0
  runs : DWord := 0
  bytes : DWord := 0
  deriving DecidableEq

structure Pl080 where
  ch : Fin pl080Channels → Pl080Chan
  config : Word
  sync : Word
  rawTc : Word
  rawErr : Word
  reads : DWord
  writes : DWord
  unknownReads : DWord
  unknownWrites : DWord
  unknownOff : List Word
  transfers : DWord
  bytesMoved : DWord
  items : DWord
  completions : DWord
  refusedFlow : DWord
  refusedWidth : DWord
  refusedChain : DWord
  refusedSoftreq : DWord
  refusedEndian : DWord
  configWrites : DWord
  configFirst : Word

def s5lPl080Reset : Pl080 where
  ch := fun _ ↦ {}
  config := 0
  sync := 0
  rawTc := 0
  rawErr := 0
  reads := 0
  writes := 0
  unknownReads := 0
  unknownWrites := 0
  unknownOff := []
  transfers := 0
  bytesMoved := 0
  items := 0
  completions := 0
  refusedFlow := 0
  refusedWidth := 0
  refusedChain := 0
  refusedSoftreq := 0
  refusedEndian := 0
  configWrites := 0
  configFirst := 0

/-- Change the registers of one channel. -/
def Pl080.edit (d : Pl080) (c : Fin pl080Channels) (change : Pl080Chan → Pl080Chan) : Pl080 :=
  { d with ch := Function.update d.ch c (change (d.ch c)) }

def pl080NoteUnknown (d : Pl080) (off : Word) : Pl080 :=
  if off ∈ d.unknownOff then d
  else if d.unknownOff.length < pl080UnknownOff then
    { d with unknownOff := d.unknownOff ++ [off] }
  else d

/-- `chan_of`: the channel an offset belongs to, and the offset in it. -/
def chanOf (off : Word) : Option (Fin pl080Channels × Word) :=
  if off < pl080ChanBase then none
  else
    let rel := off - pl080ChanBase
    let idx := (rel / pl080ChanStride).toNat
    if h : idx < pl080Channels then
      let r := rel % pl080ChanStride
      if pl080ChCfg < r then none else some (⟨idx, h⟩, r)
    else none

/-- The word with a bit for each channel that satisfies the condition. -/
def chanBits (holds : Fin pl080Channels → Bool) : Word :=
  (List.finRange pl080Channels).foldl
    (fun v i ↦ if holds i then v ||| (1 : Word) <<< (i : ℕ) else v) 0

def maskedTc (d : Pl080) : Word :=
  chanBits fun i ↦ d.rawTc &&& (1 : Word) <<< (i : ℕ) ≠ 0 ∧ (d.ch i).cfg &&& pl080CfgItc ≠ 0

def maskedErr (d : Pl080) : Word :=
  chanBits fun i ↦ d.rawErr &&& (1 : Word) <<< (i : ℕ) ≠ 0 ∧ (d.ch i).cfg &&& pl080CfgIe ≠ 0

def enabledChans (d : Pl080) : Word := chanBits fun i ↦ (d.ch i).cfg &&& pl080CfgEn ≠ 0

/-- `s5l_pl080_irq`: the line, which is derived from the status and not stored. -/
def s5lPl080Irq (d : Pl080) : Bool := maskedTc d ||| maskedErr d ≠ 0

/-- The register of a channel, where the offset names one. -/
def chanRead (ch : Pl080Chan) (r : Word) : Option Word :=
  if r = pl080ChSrc then some ch.src
  else if r = pl080ChDst then some ch.dst
  else if r = pl080ChLli then some ch.lli
  else if r = pl080ChCtrl then some ch.ctrl
  else if r = pl080ChCfg then some (ch.cfg &&& ~~~pl080CfgActive)
  else none

def chanWrite (ch : Pl080Chan) (r val : Word) : Option Pl080Chan :=
  if r = pl080ChSrc then some { ch with src := val }
  else if r = pl080ChDst then some { ch with dst := val }
  else if r = pl080ChLli then some { ch with lli := val }
  else if r = pl080ChCtrl then some { ch with ctrl := val }
  else if r = pl080ChCfg then some { ch with cfg := val &&& ~~~pl080CfgActive }
  else none

def s5lPl080Read (d : Pl080) (off : Word) : Word × Pl080 :=
  let d := { d with reads := d.reads + 1 }
  match (chanOf off).bind fun (c, r) ↦ chanRead (d.ch c) r with
  | some v => (v, d)
  | none =>
    if off = pl080IntStatus then (maskedTc d ||| maskedErr d, d)
    else if off = pl080IntTcStatus then (maskedTc d, d)
    else if off = pl080IntErrStatus then (maskedErr d, d)
    else if off = pl080RawIntTcStatus then (d.rawTc, d)
    else if off = pl080RawIntErrStatus then (d.rawErr, d)
    else if off = pl080EnbldChns then (enabledChans d, d)
    else if off = pl080Config then (d.config, d)
    else if off = pl080Sync then (d.sync, d)
    else (0, pl080NoteUnknown { d with unknownReads := d.unknownReads + 1 } off)

def s5lPl080Write (d : Pl080) (off val : Word) : Pl080 :=
  let d := { d with writes := d.writes + 1 }
  match (chanOf off).bind fun (c, r) ↦ (chanWrite (d.ch c) r val).map fun ch ↦ (c, ch) with
  | some (c, ch) => d.edit c fun _ ↦ ch
  | none =>
    if off = pl080IntTcClear then { d with rawTc := d.rawTc &&& ~~~val }
    else if off = pl080IntErrClear then { d with rawErr := d.rawErr &&& ~~~val }
    else if off = pl080Config then
      { d with
        refusedEndian :=
          if val &&& pl080ConfigEndian ≠ 0 then d.refusedEndian + 1 else d.refusedEndian
        configFirst := if d.configWrites = 0 then val else d.configFirst
        configWrites := d.configWrites + 1
        config := val }
    else if off = pl080Sync then { d with sync := val }
    else if off = pl080SoftBreq ∨ off = pl080SoftSreq ∨ off = pl080SoftLbreq ∨
        off = pl080SoftLsreq then
      { d with refusedSoftreq := d.refusedSoftreq + 1 }
    else pl080NoteUnknown { d with unknownWrites := d.unknownWrites + 1 } off

/-- An access of the engine: where, how wide, and what it loaded or stored. -/
inductive DmaAccess where
  | load (addr : Word) (width : ℕ) (v : Word)
  | store (addr : Word) (width : ℕ) (v : Word)
  /-- A word of the next item. -/
  | fetch (addr v : Word)
  deriving DecidableEq

def DmaAccess.addr : DmaAccess → Word
  | .load addr .. => addr
  | .store addr .. => addr
  | .fetch addr _ => addr

/-- The octets that were loaded from the source, in the order of their addresses. -/
def dmaLoaded (accesses : List DmaAccess) : List Octet :=
  accesses.flatMap fun
    | .load _ width v => LittleEndian.put width v.toNat
    | _ => []

/-- The octets that were stored to the destination. -/
def dmaStored (accesses : List DmaAccess) : List Octet :=
  accesses.flatMap fun
    | .store _ width v => LittleEndian.put width v.toNat
    | _ => []

variable {μ ρ : Type}

/-- The controller and what else is behind the bus. -/
abbrev DmaState (μ : Type) := Pl080 × μ

/-- The question to a peripheral, whether the destination can accept a transfer. It looks at the
machine and does not change it; `ρ` is what the one who answers remembers. -/
abbrev Pl080Ready (ρ μ : Type) := ρ → DmaState μ → Word → ℕ → Bool × ρ

/-- Change the registers of a channel, and leave what else is behind the bus. -/
def editChan (s : DmaState μ) (c : Fin pl080Channels) (change : Pl080Chan → Pl080Chan) :
    DmaState μ :=
  (s.1.edit c change, s.2)

def busLoad (bus : Arm.Bus (DmaState μ)) (s : DmaState μ) (addr : Word) (width : ℕ) :
    Word × DmaState μ :=
  match width with
  | 1 => ((bus.read8 s addr).1.setWidth 32, (bus.read8 s addr).2)
  | 2 => ((bus.read16 s addr).1.setWidth 32, (bus.read16 s addr).2)
  | _ => bus.read32 s addr

def busStore (bus : Arm.Bus (DmaState μ)) (s : DmaState μ) (addr v : Word) (width : ℕ) :
    DmaState μ :=
  match width with
  | 1 => bus.write8 s addr (v.setWidth 8)
  | 2 => bus.write16 s addr (v.setWidth 16)
  | _ => bus.write32 s addr v

/-- What an item is programmed to: its widths and its increments. -/
structure DmaShape where
  swidth : ℕ
  dwidth : ℕ
  si : Bool
  di : Bool

def dmaShape (ctrl : Word) : DmaShape where
  swidth := 1 <<< (ctrl >>> pl080CtrlSwidthShift &&& pl080CtrlWidthMask).toNat
  dwidth := 1 <<< (ctrl >>> pl080CtrlDwidthShift &&& pl080CtrlWidthMask).toNat
  si := ctrl &&& pl080CtrlSi ≠ 0
  di := ctrl &&& pl080CtrlDi ≠ 0

/-- The staged octets, low address in the low bits. -/
structure Staged (μ : Type) where
  state : DmaState μ
  pend : DWord
  pendBytes : ℕ
  accesses : List DmaAccess

/-- The octets of the next destination transfer. -/
def stagedWord (shape : DmaShape) (pend : DWord) : Word :=
  (pend &&& ((1 : DWord) <<< (8 * shape.dwidth) - 1)).setWidth 32

/-- One destination transfer. -/
def storeUnit (bus : Arm.Bus (DmaState μ)) (c : Fin pl080Channels) (shape : DmaShape)
    (s : DmaState μ) (pend : DWord) : DmaState μ :=
  let s := busStore bus s (s.1.ch c).dst (stagedWord shape pend) shape.dwidth
  let s := editChan s c fun ch ↦
    { ch with
      dst := if shape.di then ch.dst + BitVec.ofNat 32 shape.dwidth else ch.dst
      bytes := ch.bytes + BitVec.ofNat 64 shape.dwidth }
  ({ s.1 with bytesMoved := s.1.bytesMoved + BitVec.ofNat 64 shape.dwidth }, s.2)

/-- The stores of whole destination transfers, of which there are at most `turns`. -/
def drainLoop (bus : Arm.Bus (DmaState μ)) (c : Fin pl080Channels) (shape : DmaShape) :
    ℕ → DmaState μ → DWord → ℕ → Staged μ
  | 0, s, pend, pendBytes => ⟨s, pend, pendBytes, []⟩
  | turns + 1, s, pend, pendBytes =>
    if shape.dwidth ≤ pendBytes then
      let rest := drainLoop bus c shape turns (storeUnit bus c shape s pend)
        (pend >>> (8 * shape.dwidth)) (pendBytes - shape.dwidth)
      { rest with
        accesses := .store (s.1.ch c).dst shape.dwidth (stagedWord shape pend) :: rest.accesses }
    else ⟨s, pend, pendBytes, []⟩

/-- What a load of a source transfer changes in the controller, where it leaves `n` of them. -/
def loadUnit (bus : Arm.Bus (DmaState μ)) (c : Fin pl080Channels) (shape : DmaShape) (n : ℕ)
    (s : DmaState μ) : DmaState μ :=
  let s := editChan (busLoad bus s (s.1.ch c).src shape.swidth).2 c fun ch ↦
    { ch with
      src := if shape.si then ch.src + BitVec.ofNat 32 shape.swidth else ch.src
      ctrl := (ch.ctrl &&& ~~~pl080CtrlSizeMask) ||| BitVec.ofNat 32 n }
  ({ s.1 with transfers := s.1.transfers + 1 }, s.2)

/-- The stores of a source transfer are about to be made. -/
structure DmaDrain (μ : Type) where
  chan : Fin pl080Channels
  shape : DmaShape
  state : DmaState μ
  pend : DWord
  pendBytes : ℕ

/-- The load of a source transfer, which leaves `n` of them. -/
def loadDrain (bus : Arm.Bus (DmaState μ)) (c : Fin pl080Channels) (shape : DmaShape) (n : ℕ)
    (s : DmaState μ) (pend : DWord) (pendBytes : ℕ) : DmaDrain μ where
  chan := c
  shape := shape
  state := loadUnit bus c shape n s
  pend := pend ||| (busLoad bus s (s.1.ch c).src shape.swidth).1.setWidth 64 <<< (8 * pendBytes)
  pendBytes := pendBytes + shape.swidth

/-- The first stores of a drain, `turns` of them where there are as many. -/
def DmaDrain.run (bus : Arm.Bus (DmaState μ)) (u : DmaDrain μ) (turns : ℕ) : Staged μ :=
  drainLoop bus u.chan u.shape turns u.state u.pend u.pendBytes

/-- One source transfer, which leaves `n` of them, and the stores it completes. -/
def moveUnit (bus : Arm.Bus (DmaState μ)) (c : Fin pl080Channels) (shape : DmaShape) (n : ℕ)
    (s : DmaState μ) (pend : DWord) (pendBytes : ℕ) : Staged μ :=
  let u := loadDrain bus c shape n s pend pendBytes
  let drained := u.run bus u.pendBytes
  { drained with
    accesses := .load (s.1.ch c).src shape.swidth
      (busLoad bus s (s.1.ch c).src shape.swidth).1 :: drained.accesses }

/-- How far a loop or an item has got. -/
structure DmaRun (ρ μ : Type) where
  /-- The result of `run_item`: there is a next item. -/
  more : Bool
  /-- The peripheral has refused. -/
  stalled : Bool
  /-- The chain was longer than the controller follows. -/
  cut : Bool
  state : DmaState μ
  answers : ρ
  accesses : List DmaAccess
  drains : List (DmaDrain μ)

/-- The answer to the question, which is asked where nothing is staged. -/
def askReady (ready : Option (Pl080Ready ρ μ)) (r : ρ) (s : DmaState μ) (dst : Word)
    (dwidth pendBytes : ℕ) : Bool × ρ :=
  match ready with
  | none => (true, r)
  | some ask => if pendBytes = 0 then ask r s dst dwidth else (true, r)

/-- The loop over the source transfers of an item. -/
def transferLoop (bus : Arm.Bus (DmaState μ)) (ready : Option (Pl080Ready ρ μ))
    (c : Fin pl080Channels) (shape : DmaShape) : ℕ → DmaState μ → ρ → DWord → ℕ → DmaRun ρ μ
  | 0, s, r, _, _ => ⟨false, false, false, s, r, [], []⟩
  | n + 1, s, r, pend, pendBytes =>
    let answer := askReady ready r s (s.1.ch c).dst shape.dwidth pendBytes
    if answer.1 then
      let unit := moveUnit bus c shape n s pend pendBytes
      let rest := transferLoop bus ready c shape n unit.state answer.2 unit.pend unit.pendBytes
      { rest with
        accesses := unit.accesses ++ rest.accesses
        drains := loadDrain bus c shape n s pend pendBytes :: rest.drains }
    else ⟨false, true, false, s, answer.2, [], []⟩

/-- The terminal count of an item. -/
def countItem (c : Fin pl080Channels) (d : Pl080) : Pl080 :=
  let d := { d with items := d.items + 1 }
  let d := d.edit c fun ch ↦ { ch with runs := ch.runs + 1 }
  if (d.ch c).ctrl &&& pl080CtrlI ≠ 0 then
    { d with rawTc := d.rawTc ||| (1 : Word) <<< (c : ℕ), completions := d.completions + 1 }
  else d

/-- Take the next item from the list, at the link without the bits of the master select. -/
def reloadItem (bus : Arm.Bus (DmaState μ)) (c : Fin pl080Channels) (s : DmaState μ) :
    DmaState μ × List DmaAccess :=
  let item := (s.1.ch c).lli &&& ~~~3
  let src := bus.read32 s item
  let s := editChan src.2 c fun ch ↦ { ch with src := src.1 }
  let dst := bus.read32 s (item + 4)
  let s := editChan dst.2 c fun ch ↦ { ch with dst := dst.1 }
  let lli := bus.read32 s (item + 8)
  let s := editChan lli.2 c fun ch ↦ { ch with lli := lli.1 }
  let ctrl := bus.read32 s (item + 12)
  let s := editChan ctrl.2 c fun ch ↦ { ch with ctrl := ctrl.1 }
  (s, [.fetch item src.1, .fetch (item + 4) dst.1, .fetch (item + 8) lli.1,
    .fetch (item + 12) ctrl.1])

/-- What happens where all transfers of an item are done: the terminal count, and the next item or
the end of the chain. -/
def finishItem (bus : Arm.Bus (DmaState μ)) (c : Fin pl080Channels) (s : DmaState μ) :
    Bool × DmaState μ × List DmaAccess :=
  let s : DmaState μ := (countItem c s.1, s.2)
  if (s.1.ch c).lli = 0 then
    (false, editChan s c fun ch ↦ { ch with cfg := ch.cfg &&& ~~~pl080CfgEn }, [])
  else (true, reloadItem bus c s)

/-- Stop a channel and count why. -/
def refuseItem (c : Fin pl080Channels) (s : DmaState μ) (count : Pl080 → Pl080) : DmaState μ :=
  editChan (count s.1, s.2) c fun ch ↦ { ch with cfg := ch.cfg &&& ~~~pl080CfgEn }

def countRefusedWidth (d : Pl080) : Pl080 := { d with refusedWidth := d.refusedWidth + 1 }
def countRefusedFlow (d : Pl080) : Pl080 := { d with refusedFlow := d.refusedFlow + 1 }
def countRefusedChain (d : Pl080) : Pl080 := { d with refusedChain := d.refusedChain + 1 }

def runItem (bus : Arm.Bus (DmaState μ)) (ready : Option (Pl080Ready ρ μ)) (c : Fin pl080Channels)
    (s : DmaState μ) (r : ρ) : DmaRun ρ μ :=
  let ch := s.1.ch c
  let shape := dmaShape ch.ctrl
  let n := (ch.ctrl &&& pl080CtrlSizeMask).toNat
  if 2 < ch.ctrl >>> pl080CtrlSwidthShift &&& pl080CtrlWidthMask ∨
      2 < ch.ctrl >>> pl080CtrlDwidthShift &&& pl080CtrlWidthMask then
    ⟨false, false, false, refuseItem c s countRefusedWidth, r, [], []⟩
  else if 3 < (ch.cfg &&& pl080CfgFlowMask) >>> pl080CfgFlowShift then
    ⟨false, false, false, refuseItem c s countRefusedFlow, r, [], []⟩
  else if n * shape.swidth % shape.dwidth ≠ 0 then
    ⟨false, false, false, refuseItem c s countRefusedWidth, r, [], []⟩
  else
    let moved := transferLoop bus ready c shape n s r 0 0
    if moved.stalled then moved
    else
      let finish := finishItem bus c moved.state
      { moved with
        more := finish.1
        state := finish.2.1
        accesses := moved.accesses ++ finish.2.2 }

/-- The items of one channel, of which `left` may be followed by another. -/
def itemLoop (bus : Arm.Bus (DmaState μ)) (ready : Option (Pl080Ready ρ μ))
    (c : Fin pl080Channels) : ℕ → DmaState μ → ρ → DmaRun ρ μ
  | 0, s, r => ⟨false, false, true, refuseItem c s countRefusedChain, r, [], []⟩
  | left + 1, s, r =>
    let item := runItem bus ready c s r
    if item.more then
      let rest := itemLoop bus ready c left item.state item.answers
      { rest with
        accesses := item.accesses ++ rest.accesses
        drains := item.drains ++ rest.drains }
    else item

/-- The channel is enabled and not halted. -/
def Pl080.Runnable (d : Pl080) (c : Fin pl080Channels) : Prop :=
  (d.ch c).cfg &&& (pl080CfgEn ||| pl080CfgHalt) = pl080CfgEn

instance (d : Pl080) (c : Fin pl080Channels) : Decidable (d.Runnable c) :=
  inferInstanceAs (Decidable (_ = _))

def serveChannel (bus : Arm.Bus (DmaState μ)) (ready : Option (Pl080Ready ρ μ))
    (c : Fin pl080Channels) (s : DmaState μ) (r : ρ) : DmaRun ρ μ :=
  if s.1.Runnable c then itemLoop bus ready c pl080MaxItems s r
  else ⟨false, false, false, s, r, [], []⟩

/-- The channels in their order. -/
def channelLoop (bus : Arm.Bus (DmaState μ)) (ready : Option (Pl080Ready ρ μ)) :
    List (Fin pl080Channels) → DmaState μ → ρ → DmaRun ρ μ
  | [], s, r => ⟨false, false, false, s, r, [], []⟩
  | c :: rest, s, r =>
    let served := serveChannel bus ready c s r
    let others := channelLoop bus ready rest served.state served.answers
    { others with
      stalled := served.stalled || others.stalled
      cut := served.cut || others.cut
      accesses := served.accesses ++ others.accesses
      drains := served.drains ++ others.drains }

/-- `s5l_pl080_run`; the line it returns is `s5lPl080Irq` of the controller it leaves. -/
def s5lPl080Run (bus : Arm.Bus (DmaState μ)) (ready : Option (Pl080Ready ρ μ)) (s : DmaState μ)
    (r : ρ) : DmaRun ρ μ :=
  if s.1.config &&& pl080ConfigEn = 0 then ⟨false, false, false, s, r, [], []⟩
  else channelLoop bus ready (List.finRange pl080Channels) s r

end S5LBox.Soc
