import S5LBox.Word
import S5LBox.Library.ShiftQueue

/-!
# The SPI controller

Two queues of eight octets and a shifter between them: an octet leaves the transmit queue for the
slave that is selected, and its answer enters the receive queue at the same time. Each operation
also reports what has become of the octets, so that a run can be compared with the queues.
-/

namespace S5LBox.Soc

open List
open BitVec (ofNat toNat_and toNat_ofNat toNat_or)

def spiFifoDepth : ℕ := 8

def spiControl : Word := 0x00
def spiSetup : Word := 0x04
def spiStatus : Word := 0x08
def spiPin : Word := 0x0c
def spiTxdata : Word := 0x10
def spiRxdata : Word := 0x20
def spiClkdiv : Word := 0x30
def spiCnt : Word := 0x34
def spiIdd : Word := 0x38

def spiSetupDma : Word := 0x0040
def spiStatusEvents : Word := 0x000f
def spiStatusLevel : Word := 0x000f
def spiStatusTxShift : ℕ := 4
def spiStatusRxShift : ℕ := 8

def spiCsRouteMask : Octet := 3
def spiLcdReadPending : Octet := 0x80

structure Spi where
  control : Word
  setup : Word
  pin : Word
  clkdiv : Word
  cnt : Word
  idd : Word
  status : Word
  wordsLeft : Word
  tx : ShiftQueue Octet
  rx : ShiftQueue Octet
  cs : Octet
  words : DWord
  txDrops : DWord
  rxUnderruns : DWord
  rxOverruns : DWord
  rxReads : DWord
  dmaArms : DWord
  unknownReads : DWord
  unknownWrites : DWord
  unknownOff : List Word

def s5lSpiReset : Spi where
  control := 0
  setup := 0
  pin := 0
  clkdiv := 0
  cnt := 0
  idd := 0
  status := 0
  wordsLeft := 0
  tx := ⟨fun _ ↦ 0, 0⟩
  rx := ⟨fun _ ↦ 0, 0⟩
  cs := 0
  words := 0
  txDrops := 0
  rxUnderruns := 0
  rxOverruns := 0
  rxReads := 0
  dmaArms := 0
  unknownReads := 0
  unknownWrites := 0
  unknownOff := []

/-- A slave answers an octet. It may look at the controller and change its select byte, as the
panel does with the flag of a read that is under way; `τ` is the state behind the slaves. -/
abbrev SpiTransfer (τ : Type) := Spi → τ → Octet → Octet × Octet × τ

/-- The slaves by their select. -/
abbrev SpiSlaves (τ : Type) := Fin 4 → Option (SpiTransfer τ)

/-- What becomes of an octet. -/
inductive SpiEvent where
  /-- A store went into the transmit queue. -/
  | accept (o : Octet)
  /-- The slave was handed an octet. -/
  | deliver (o : Octet)
  /-- An answer went into the receive queue. -/
  | store (o : Octet)
  /-- An answer was counted and not queued. -/
  | overrun (o : Octet)
  /-- A load took an answer. -/
  | take (o : Octet)
  /-- A new transfer discarded what was left of the answers. -/
  | flush (lost : List Octet)
  /-- A store found the transmit queue full. -/
  | drop (o : Octet)
  deriving DecidableEq

variable {τ : Type}

def spiNoteUnknown (bus : Spi) (off : Word) : Spi :=
  if off ∈ bus.unknownOff then bus
  else if bus.unknownOff.length < 8 then { bus with unknownOff := bus.unknownOff ++ [off] }
  else bus

def Spi.dma (bus : Spi) : Bool := bus.setup &&& spiSetupDma ≠ 0

/-- The loop of the shifter, which ends at the latest when the transmit queue is empty. -/
def spiShiftLoop (transfer : SpiTransfer τ) : ℕ → Spi → τ → Spi × τ × List SpiEvent
  | 0, bus, w => (bus, w, [])
  | turns + 1, bus, w =>
    if bus.tx.level ≠ 0 ∧ (bus.dma ∨ bus.rx.level < spiFifoDepth) then
      let (out, tx) := bus.tx.pop 0
      let bus := { bus with tx := tx }
      let (answer, cs, w) := transfer bus w out
      let bus := { bus with cs := cs }
      let (bus, event) :=
        if bus.dma then
          ({ bus with rxOverruns := bus.rxOverruns + 1 }, SpiEvent.overrun answer)
        else if bus.rx.level < spiFifoDepth then
          ({ bus with rx := bus.rx.push answer }, SpiEvent.store answer)
        else ({ bus with rxOverruns := bus.rxOverruns + 1 }, SpiEvent.overrun answer)
      let bus :=
        { bus with
          words := bus.words + 1
          wordsLeft := if bus.wordsLeft ≠ 0 then bus.wordsLeft - 1 else 0
          status := bus.status ||| spiStatusEvents }
      let (bus, w, events) := spiShiftLoop transfer turns bus w
      (bus, w, .deliver out :: event :: events)
    else (bus, w, [])

/-- The slave that the select byte names, if it names one that is there. -/
def Spi.route (bus : Spi) (slaves : SpiSlaves τ) : Option (SpiTransfer τ) :=
  if bus.cs &&& ~~~(spiCsRouteMask ||| spiLcdReadPending) ≠ 0 then none
  else slaves (Fin.ofNat 4 (bus.cs &&& spiCsRouteMask).toNat)

def spiShift (slaves : SpiSlaves τ) (bus : Spi) (w : τ) : Spi × τ × List SpiEvent :=
  match bus.route slaves with
  | none => (bus, w, [])
  | some transfer => spiShiftLoop transfer bus.tx.level bus w

/-- `spi_status`: the latches and the levels. -/
def Spi.statusWord (bus : Spi) : Word :=
  (bus.status &&& spiStatusEvents) ||| ofNat 32 bus.tx.level <<< spiStatusTxShift |||
    ofNat 32 bus.rx.level <<< spiStatusRxShift

def s5lSpiRead (slaves : SpiSlaves τ) (bus : Spi) (w : τ) (off : Word) :
    Word × Spi × τ × List SpiEvent :=
  if off = spiControl then (bus.control, bus, w, [])
  else if off = spiSetup then (bus.setup, bus, w, [])
  else if off = spiStatus then (bus.statusWord, bus, w, [])
  else if off = spiPin then (bus.pin, bus, w, [])
  else if off = spiTxdata then (0, bus, w, [])
  else if off = spiRxdata then
    if bus.rx.level = 0 then (0, { bus with rxUnderruns := bus.rxUnderruns + 1 }, w, [])
    else
      let (v, rx) := bus.rx.pop 0
      let (bus, w, events) := spiShift slaves { bus with rx := rx, rxReads := bus.rxReads + 1 } w
      (v.setWidth 32, bus, w, .take v :: events)
  else if off = spiClkdiv then (bus.clkdiv, bus, w, [])
  else if off = spiCnt then (bus.cnt, bus, w, [])
  else if off = spiIdd then (bus.idd, bus, w, [])
  else (0, spiNoteUnknown { bus with unknownReads := bus.unknownReads + 1 } off, w, [])

def s5lSpiWrite (slaves : SpiSlaves τ) (bus : Spi) (w : τ) (off val : Word) :
    Spi × τ × List SpiEvent :=
  if off = spiControl then ({ bus with control := val }, w, [])
  else if off = spiSetup then
    ({ bus with
        dmaArms :=
          if val &&& spiSetupDma ≠ 0 ∧ bus.setup &&& spiSetupDma = 0 then bus.dmaArms + 1
          else bus.dmaArms
        setup := val }, w, [])
  else if off = spiStatus then
    ({ bus with status := bus.status &&& ~~~(val &&& spiStatusEvents) }, w, [])
  else if off = spiPin then ({ bus with pin := val }, w, [])
  else if off = spiTxdata then
    if spiFifoDepth ≤ bus.tx.level then
      ({ bus with txDrops := bus.txDrops + 1 }, w, [.drop (val.setWidth 8)])
    else
      let (bus, w, events) := spiShift slaves { bus with tx := bus.tx.push (val.setWidth 8) } w
      (bus, w, .accept (val.setWidth 8) :: events)
  else if off = spiRxdata then (bus, w, [])
  else if off = spiClkdiv then ({ bus with clkdiv := val }, w, [])
  else if off = spiCnt then
    ({ bus with
        cnt := val
        wordsLeft := val
        rx := bus.rx.clear
        cs := bus.cs &&& ~~~spiLcdReadPending }, w, [.flush bus.rx.contents])
  else if off = spiIdd then ({ bus with idd := val }, w, [])
  else (spiNoteUnknown { bus with unknownWrites := bus.unknownWrites + 1 } off, w, [])

def s5lSpiStep (slaves : SpiSlaves τ) (bus : Spi) (w : τ) : Spi × τ × List SpiEvent :=
  spiShift slaves bus w

/-- The octets that entered the transmit queue. -/
def spiAccepted (events : List SpiEvent) : List Octet :=
  events.filterMap fun
    | .accept o => some o
    | _ => none

def spiDelivered (events : List SpiEvent) : List Octet :=
  events.filterMap fun
    | .deliver o => some o
    | _ => none

/-- The answers that entered the receive queue. -/
def spiStored (events : List SpiEvent) : List Octet :=
  events.filterMap fun
    | .store o => some o
    | _ => none

/-- The answers that have left the receive queue, by a load or by a flush. -/
def spiGone (events : List SpiEvent) : List Octet :=
  events.flatMap fun
    | .take o => [o]
    | .flush lost => lost
    | _ => []

/-- The answers that were loaded. -/
def spiTaken (events : List SpiEvent) : List Octet :=
  events.filterMap fun
    | .take o => some o
    | _ => none

/-- The queues before and after, and what has happened to them. -/
structure SpiMoves (bus bus' : Spi) (events : List SpiEvent) : Prop where
  tx : bus.tx.contents ++ spiAccepted events = spiDelivered events ++ bus'.tx.contents
  rx : bus.rx.contents ++ spiStored events = spiGone events ++ bus'.rx.contents

/-- Both levels are within the depth. -/
structure SpiBounded (bus : Spi) : Prop where
  tx : bus.tx.level ≤ spiFifoDepth
  rx : bus.rx.level ≤ spiFifoDepth

variable {bus bus' bus'' : Spi} {events events' : List SpiEvent}

theorem SpiMoves.refl (htx : bus'.tx = bus.tx) (hrx : bus'.rx = bus.rx) : SpiMoves bus bus' [] where
  tx := by rw [htx]; exact append_nil _
  rx := by rw [hrx]; exact append_nil _

theorem SpiMoves.trans (h : SpiMoves bus bus' events) (h' : SpiMoves bus' bus'' events') :
    SpiMoves bus bus'' (events ++ events') where
  tx := by
    rw [spiAccepted, spiDelivered, filterMap_append, filterMap_append]
    change bus.tx.contents ++ (spiAccepted events ++ spiAccepted events') =
      spiDelivered events ++ spiDelivered events' ++ bus''.tx.contents
    rw [← append_assoc, h.tx, append_assoc, h'.tx, append_assoc]
  rx := by
    rw [spiStored, spiGone, filterMap_append, flatMap_append]
    change bus.rx.contents ++ (spiStored events ++ spiStored events') =
      spiGone events ++ spiGone events' ++ bus''.rx.contents
    rw [← append_assoc, h.rx, append_assoc, h'.rx, append_assoc]

/-- Nothing was accepted, and no answer has gone. -/
structure SpiQuiet (events : List SpiEvent) : Prop where
  taken : spiTaken events = []
  accepted : spiAccepted events = []
  gone : spiGone events = []

/-- What the shifter leaves alone. -/
structure SpiShifted (bus bus' : Spi) : Prop where
  setup : bus'.setup = bus.setup
  txDrops : bus'.txDrops = bus.txDrops
  total : bus'.tx.level + bus'.rx.level ≤ bus.tx.level + bus.rx.level

/-- One turn of the shifter, after the slave was asked. -/
def spiShiftTurn (bus : Spi) (answer cs : Octet) : Spi × SpiEvent :=
  let bus := { bus with tx := (bus.tx.pop 0).2, cs := cs }
  let turn :=
    if bus.dma then ({ bus with rxOverruns := bus.rxOverruns + 1 }, SpiEvent.overrun answer)
    else if bus.rx.level < spiFifoDepth then
      ({ bus with rx := bus.rx.push answer }, SpiEvent.store answer)
    else ({ bus with rxOverruns := bus.rxOverruns + 1 }, SpiEvent.overrun answer)
  ({ turn.1 with
      words := turn.1.words + 1
      wordsLeft := if turn.1.wordsLeft ≠ 0 then turn.1.wordsLeft - 1 else 0
      status := turn.1.status ||| spiStatusEvents }, turn.2)

variable {transfer : SpiTransfer τ} {slaves : SpiSlaves τ} {w : τ} {turns : ℕ}

theorem spiShiftLoop_turn (hgo : bus.tx.level ≠ 0 ∧ (bus.dma ∨ bus.rx.level < spiFifoDepth)) :
    spiShiftLoop transfer (turns + 1) bus w =
      let asked := transfer { bus with tx := (bus.tx.pop 0).2 } w (bus.tx.pop 0).1
      let turn := spiShiftTurn bus asked.1 asked.2.1
      let rest := spiShiftLoop transfer turns turn.1 asked.2.2
      (rest.1, rest.2.1, .deliver (bus.tx.pop 0).1 :: turn.2 :: rest.2.2) := by
  rw [spiShiftLoop, if_pos hgo]
  rfl

theorem spiShiftTurn_cases (bus : Spi) (answer cs : Octet) :
    (spiShiftTurn bus answer cs).1.tx = (bus.tx.pop 0).2 ∧
      (spiShiftTurn bus answer cs).1.setup = bus.setup ∧
      (spiShiftTurn bus answer cs).1.txDrops = bus.txDrops ∧
      (((bus.dma ∨ spiFifoDepth ≤ bus.rx.level) ∧ (spiShiftTurn bus answer cs).2 = .overrun answer ∧
          (spiShiftTurn bus answer cs).1.rx = bus.rx) ∨
        (¬bus.dma ∧ bus.rx.level < spiFifoDepth ∧ (spiShiftTurn bus answer cs).2 = .store answer ∧
          (spiShiftTurn bus answer cs).1.rx = bus.rx.push answer)) := by
  unfold spiShiftTurn
  dsimp only
  by_cases hdma : bus.dma
  · have hdma' : Spi.dma { bus with tx := (bus.tx.pop 0).2, cs := cs } := hdma
    rw [if_pos hdma']
    exact ⟨rfl, rfl, rfl, .inl ⟨.inl hdma, rfl, rfl⟩⟩
  · have hdma' : ¬Spi.dma { bus with tx := (bus.tx.pop 0).2, cs := cs } := hdma
    rw [if_neg hdma']
    by_cases hroom : bus.rx.level < spiFifoDepth
    · rw [if_pos hroom]
      exact ⟨rfl, rfl, rfl, .inr ⟨hdma, hroom, rfl, rfl⟩⟩
    · rw [if_neg hroom]
      exact ⟨rfl, rfl, rfl, .inl ⟨.inr (Nat.le_of_not_lt hroom), rfl, rfl⟩⟩

theorem spiShiftTurn_moves (answer cs : Octet) (htx : bus.tx.level ≠ 0)
    (hbounded : SpiBounded bus) : SpiMoves bus (spiShiftTurn bus answer cs).1
        [.deliver (bus.tx.pop 0).1, (spiShiftTurn bus answer cs).2] ∧
      SpiBounded (spiShiftTurn bus answer cs).1 ∧ SpiShifted bus (spiShiftTurn bus answer cs).1 ∧
      SpiQuiet [.deliver (bus.tx.pop 0).1, (spiShiftTurn bus answer cs).2] := by
  obtain ⟨htx', hsetup, hdrops, hcases⟩ := spiShiftTurn_cases bus answer cs
  have hpop := bus.tx.contents_pop 0 (Nat.pos_of_ne_zero htx)
  have hlevel : (spiShiftTurn bus answer cs).1.tx.level = bus.tx.level - 1 := by rw [htx']; rfl
  have hle := hbounded.tx
  have hle' := hbounded.rx
  generalize spiShiftTurn bus answer cs = turn at *
  obtain ⟨next, event⟩ := turn
  dsimp only at *
  rcases hcases with ⟨-, rfl, hrx⟩ | ⟨-, hroom, rfl, hrx⟩
  · refine ⟨⟨?_, ?_⟩, ⟨by omega, by rw [hrx]; exact hle'⟩, ⟨hsetup, hdrops, ?_⟩, rfl, rfl, rfl⟩
    · rw [htx', hpop]
      exact append_nil _
    · rw [hrx]
      exact append_nil _
    · rw [hrx, hlevel]
      omega
  · have hpush : next.rx.level = bus.rx.level + 1 := by rw [hrx]; rfl
    refine ⟨⟨?_, ?_⟩, ⟨by omega, by omega⟩, ⟨hsetup, hdrops, by omega⟩, rfl, rfl, rfl⟩
    · rw [htx', hpop]
      exact append_nil _
    · rw [hrx, ShiftQueue.contents_push]
      rfl

theorem SpiQuiet.append (h : SpiQuiet events) (h' : SpiQuiet events') :
    SpiQuiet (events ++ events') where
  taken := by
    rw [spiTaken, filterMap_append]
    exact congrArg₂ (· ++ ·) h.taken h'.taken
  accepted := by
    rw [spiAccepted, filterMap_append]
    exact congrArg₂ (· ++ ·) h.accepted h'.accepted
  gone := by
    rw [spiGone, flatMap_append]
    exact congrArg₂ (· ++ ·) h.gone h'.gone

theorem SpiShifted.trans (h : SpiShifted bus bus') (h' : SpiShifted bus' bus'') :
    SpiShifted bus bus'' :=
  ⟨h'.setup.trans h.setup, h'.txDrops.trans h.txDrops, h'.total.trans h.total⟩

theorem spiShiftLoop_moves (hbounded : SpiBounded bus) :
    SpiMoves bus (spiShiftLoop transfer turns bus w).1 (spiShiftLoop transfer turns bus w).2.2 ∧
      SpiBounded (spiShiftLoop transfer turns bus w).1 ∧
      SpiShifted bus (spiShiftLoop transfer turns bus w).1 ∧
      SpiQuiet (spiShiftLoop transfer turns bus w).2.2 := by
  induction turns generalizing bus w with
  | zero => exact ⟨.refl rfl rfl, hbounded, ⟨rfl, rfl, le_rfl⟩, rfl, rfl, rfl⟩
  | succ turns ih =>
    by_cases hgo : bus.tx.level ≠ 0 ∧ (bus.dma ∨ bus.rx.level < spiFifoDepth)
    · rw [spiShiftLoop_turn hgo]
      dsimp only
      generalize transfer { bus with tx := (bus.tx.pop 0).2 } w (bus.tx.pop 0).1 = asked
      obtain ⟨hmoves, hnext, hshifted, hquiet⟩ :=
        spiShiftTurn_moves asked.1 asked.2.1 hgo.1 hbounded
      obtain ⟨hmoves', hnext', hshifted', hquiet'⟩ := @ih _ asked.2.2 hnext
      exact ⟨hmoves.trans hmoves', hnext', hshifted.trans hshifted', hquiet.append hquiet'⟩
    · rw [spiShiftLoop, if_neg hgo]
      exact ⟨.refl rfl rfl, hbounded, ⟨rfl, rfl, le_rfl⟩, rfl, rfl, rfl⟩

theorem spiShift_moves (hbounded : SpiBounded bus) :
    SpiMoves bus (spiShift slaves bus w).1 (spiShift slaves bus w).2.2 ∧
      SpiBounded (spiShift slaves bus w).1 ∧ SpiShifted bus (spiShift slaves bus w).1 ∧
      SpiQuiet (spiShift slaves bus w).2.2 := by
  unfold spiShift
  split
  · exact ⟨.refl rfl rfl, hbounded, ⟨rfl, rfl, le_rfl⟩, rfl, rfl, rfl⟩
  · exact spiShiftLoop_moves hbounded

inductive SpiAccess where
  | read (off : Word)
  | write (off val : Word)
  | step

/-- An access: the answers that it loads, the state afterwards and what has become of the octets. -/
def SpiAccess.perform (slaves : SpiSlaves τ) (bus : Spi) (w : τ) :
    SpiAccess → List Octet × Spi × τ × List SpiEvent
  | .read off =>
    let (v, bus', w, events) := s5lSpiRead slaves bus w off
    (if off = spiRxdata ∧ bus.rx.level ≠ 0 then [v.setWidth 8] else [], bus', w, events)
  | .write off val => ([], s5lSpiWrite slaves bus w off val)
  | .step => ([], s5lSpiStep slaves bus w)

/-- Accesses one after the other, with all that was loaded and has happened. -/
def spiRun (slaves : SpiSlaves τ) : List SpiAccess → Spi → τ → List Octet × Spi × τ × List SpiEvent
  | [], bus, w => ([], bus, w, [])
  | access :: rest, bus, w =>
    let (loaded, bus, w, events) := access.perform slaves bus w
    let (loaded', bus, w, events') := spiRun slaves rest bus w
    (loaded ++ loaded', bus, w, events ++ events')

theorem noteUnknown_queues (bus : Spi) (off : Word) :
    (spiNoteUnknown bus off).tx = bus.tx ∧ (spiNoteUnknown bus off).rx = bus.rx := by
  unfold spiNoteUnknown
  split
  · exact ⟨rfl, rfl⟩
  · split <;> exact ⟨rfl, rfl⟩

theorem SpiBounded.congr (h : SpiBounded bus) (htx : bus'.tx = bus.tx) (hrx : bus'.rx = bus.rx) :
    SpiBounded bus' :=
  ⟨by rw [htx]; exact h.tx, by rw [hrx]; exact h.rx⟩

/-- What holds of every access. -/
structure SpiSound (bus bus' : Spi) (loaded : List Octet) (events : List SpiEvent) : Prop where
  moves : SpiMoves bus bus' events
  bounded : SpiBounded bus'
  taken : spiTaken events = loaded

theorem SpiSound.unchanged (h : SpiBounded bus) (htx : bus'.tx = bus.tx) (hrx : bus'.rx = bus.rx) :
    SpiSound bus bus' [] [] := ⟨.refl htx hrx, h.congr htx hrx, rfl⟩

theorem s5lSpiRead_rxdata (hsome : bus.rx.level ≠ 0) : s5lSpiRead slaves bus w spiRxdata =
      let rest := spiShift slaves
        { bus with rx := (bus.rx.pop 0).2, rxReads := bus.rxReads + 1 } w
      ((bus.rx.pop 0).1.setWidth 32, rest.1, rest.2.1, .take (bus.rx.pop 0).1 :: rest.2.2) := by
  unfold s5lSpiRead
  rw [if_neg (by decide), if_neg (by decide), if_neg (by decide), if_neg (by decide),
    if_neg (by decide), if_pos rfl, if_neg hsome]

theorem rxdata_sound (hbounded : SpiBounded bus) (hsome : bus.rx.level ≠ 0) :
    SpiSound bus (s5lSpiRead slaves bus w spiRxdata).2.1
      [(s5lSpiRead slaves bus w spiRxdata).1.setWidth 8]
      (s5lSpiRead slaves bus w spiRxdata).2.2.2 := by
  rw [s5lSpiRead_rxdata hsome]
  have hpop := bus.rx.contents_pop 0 (Nat.pos_of_ne_zero hsome)
  have hle := hbounded.rx
  have hfirst : SpiMoves bus { bus with rx := (bus.rx.pop 0).2, rxReads := bus.rxReads + 1 }
      [.take (bus.rx.pop 0).1] :=
    ⟨append_nil _, by rw [hpop]; exact append_nil _⟩
  have hnext : SpiBounded { bus with rx := (bus.rx.pop 0).2, rxReads := bus.rxReads + 1 } :=
    ⟨hbounded.tx, (Nat.sub_le _ _).trans hle⟩
  obtain ⟨hmoves, hbounded', -, hquiet⟩ := @spiShift_moves τ _ slaves w hnext
  refine ⟨hfirst.trans hmoves, hbounded', ?_⟩
  have hvalue : ((bus.rx.pop 0).1.setWidth 32).setWidth 8 = (bus.rx.pop 0).1 := by
    rw [BitVec.setWidth_setWidth_of_le _ (by decide), BitVec.setWidth_eq]
  change (bus.rx.pop 0).1 :: spiTaken _ = [_]
  rw [hquiet.taken, hvalue]

/-- A load of anything but a waiting answer leaves the queues alone. -/
theorem s5lSpiRead_other {off : Word} (h : ¬(off = spiRxdata ∧ bus.rx.level ≠ 0)) :
    (s5lSpiRead slaves bus w off).2.1.tx = bus.tx ∧ (s5lSpiRead slaves bus w off).2.1.rx = bus.rx ∧
      (s5lSpiRead slaves bus w off).2.2.2 = [] := by
  unfold s5lSpiRead
  by_cases hrxdata : off = spiRxdata
  · have hempty : bus.rx.level = 0 := not_not.1 fun hne ↦ h ⟨hrxdata, hne⟩
    rw [hrxdata, if_neg (by decide), if_neg (by decide), if_neg (by decide), if_neg (by decide),
      if_neg (by decide), if_pos rfl, if_pos hempty]
    exact ⟨rfl, rfl, rfl⟩
  · rw [if_neg hrxdata]
    obtain ⟨htx, hrx⟩ := noteUnknown_queues { bus with unknownReads := bus.unknownReads + 1 } off
    split_ifs <;> first | exact ⟨rfl, rfl, rfl⟩ | exact ⟨htx, hrx, rfl⟩

theorem read_sound (hbounded : SpiBounded bus) (off : Word) :
    SpiSound bus ((SpiAccess.read off).perform slaves bus w).2.1
      ((SpiAccess.read off).perform slaves bus w).1
      ((SpiAccess.read off).perform slaves bus w).2.2.2 := by
  unfold SpiAccess.perform
  dsimp only
  by_cases h : off = spiRxdata ∧ bus.rx.level ≠ 0
  · rw [if_pos h, h.1]
    exact rxdata_sound hbounded h.2
  · obtain ⟨htx, hrx, hevents⟩ := @s5lSpiRead_other τ bus slaves w off h
    rw [if_neg h, hevents]
    exact .unchanged hbounded htx hrx

theorem step_sound (hbounded : SpiBounded bus) :
    SpiSound bus (s5lSpiStep slaves bus w).1 [] (s5lSpiStep slaves bus w).2.2 := by
  obtain ⟨hmoves, hbounded', -, hquiet⟩ := @spiShift_moves τ bus slaves w hbounded
  exact ⟨hmoves, hbounded', hquiet.taken⟩

/-- A store of an octet, into a queue with room and into a full one. -/
theorem s5lSpiWrite_txdata (bus : Spi) (w : τ) (val : Word) :
    s5lSpiWrite slaves bus w spiTxdata val =
      if spiFifoDepth ≤ bus.tx.level then
        ({ bus with txDrops := bus.txDrops + 1 }, w, [.drop (val.setWidth 8)])
      else
        let rest := spiShift slaves { bus with tx := bus.tx.push (val.setWidth 8) } w
        (rest.1, rest.2.1, .accept (val.setWidth 8) :: rest.2.2) := by
  unfold s5lSpiWrite
  rw [if_neg (by decide), if_neg (by decide), if_neg (by decide), if_neg (by decide), if_pos rfl]

theorem txdata_sound (hbounded : SpiBounded bus) (val : Word) :
    SpiSound bus (s5lSpiWrite slaves bus w spiTxdata val).1 []
      (s5lSpiWrite slaves bus w spiTxdata val).2.2 := by
  rw [s5lSpiWrite_txdata]
  by_cases hfull : spiFifoDepth ≤ bus.tx.level
  · rw [if_pos hfull]
    exact ⟨⟨append_nil _, append_nil _⟩, hbounded.congr rfl rfl, rfl⟩
  · rw [if_neg hfull]
    have hfirst : SpiMoves bus { bus with tx := bus.tx.push (val.setWidth 8) }
        [.accept (val.setWidth 8)] :=
      ⟨(ShiftQueue.contents_push _ _).symm, append_nil _⟩
    have hnext : SpiBounded { bus with tx := bus.tx.push (val.setWidth 8) } :=
      ⟨Nat.lt_of_not_le hfull, hbounded.rx⟩
    obtain ⟨hmoves, hbounded', -, hquiet⟩ := @spiShift_moves τ _ slaves w hnext
    exact ⟨hfirst.trans hmoves, hbounded', hquiet.taken⟩

theorem cnt_sound (hbounded : SpiBounded bus) (val : Word) :
    SpiSound bus (s5lSpiWrite slaves bus w spiCnt val).1 []
      (s5lSpiWrite slaves bus w spiCnt val).2.2 := by
  unfold s5lSpiWrite
  rw [if_neg (by decide), if_neg (by decide), if_neg (by decide), if_neg (by decide),
    if_neg (by decide), if_neg (by decide), if_neg (by decide), if_pos rfl]
  exact ⟨⟨append_nil _, (append_nil _).symm⟩, ⟨hbounded.tx, Nat.zero_le _⟩, rfl⟩

/-- A store anywhere else leaves the queues alone. -/
theorem s5lSpiWrite_other {off : Word} (htxdata : off ≠ spiTxdata) (hcnt : off ≠ spiCnt)
    (val : Word) : (s5lSpiWrite slaves bus w off val).1.tx = bus.tx ∧
      (s5lSpiWrite slaves bus w off val).1.rx = bus.rx ∧
      (s5lSpiWrite slaves bus w off val).2.2 = [] := by
  unfold s5lSpiWrite
  rw [if_neg htxdata, if_neg hcnt]
  obtain ⟨htx, hrx⟩ := noteUnknown_queues { bus with unknownWrites := bus.unknownWrites + 1 } off
  split_ifs <;> first | exact ⟨rfl, rfl, rfl⟩ | exact ⟨htx, hrx, rfl⟩

theorem write_sound (hbounded : SpiBounded bus) (off val : Word) :
    SpiSound bus (s5lSpiWrite slaves bus w off val).1 []
      (s5lSpiWrite slaves bus w off val).2.2 := by
  by_cases htxdata : off = spiTxdata
  · rw [htxdata]
    exact txdata_sound hbounded val
  by_cases hcnt : off = spiCnt
  · rw [hcnt]
    exact cnt_sound hbounded val
  · obtain ⟨htx, hrx, hevents⟩ := @s5lSpiWrite_other τ bus slaves w off htxdata hcnt val
    rw [hevents]
    exact .unchanged hbounded htx hrx

theorem perform_sound (hbounded : SpiBounded bus) (access : SpiAccess) :
    SpiSound bus (access.perform slaves bus w).2.1 (access.perform slaves bus w).1
      (access.perform slaves bus w).2.2.2 := by
  cases access with
  | read off => exact read_sound hbounded off
  | write off val => exact write_sound hbounded off val
  | step => exact step_sound hbounded

theorem spiRun_sound (accesses : List SpiAccess) (hbounded : SpiBounded bus) :
    SpiSound bus (spiRun slaves accesses bus w).2.1 (spiRun slaves accesses bus w).1
      (spiRun slaves accesses bus w).2.2.2 := by
  induction accesses generalizing bus w with
  | nil => exact .unchanged hbounded rfl rfl
  | cons access rest ih =>
    have hfirst := @perform_sound τ bus slaves w hbounded access
    have hrest := @ih _ (access.perform slaves bus w).2.2.1 hfirst.bounded
    refine ⟨hfirst.moves.trans hrest.moves, hrest.bounded, ?_⟩
    change spiTaken (_ ++ _) = _ ++ _
    rw [spiTaken, filterMap_append]
    exact congrArg₂ (· ++ ·) hfirst.taken hrest.taken

/-- Answers go without being loaded only where a count is stored. -/
theorem perform_gone (hbounded : SpiBounded bus) (access : SpiAccess)
    (h : ∀ val, access ≠ .write spiCnt val) : spiGone (access.perform slaves bus w).2.2.2 =
      spiTaken (access.perform slaves bus w).2.2.2 := by
  cases access with
  | read off =>
    change spiGone (s5lSpiRead slaves bus w off).2.2.2 =
      spiTaken (s5lSpiRead slaves bus w off).2.2.2
    by_cases hsome : off = spiRxdata ∧ bus.rx.level ≠ 0
    · rw [hsome.1, s5lSpiRead_rxdata hsome.2]
      have hnext : SpiBounded { bus with rx := (bus.rx.pop 0).2, rxReads := bus.rxReads + 1 } :=
        ⟨hbounded.tx, (Nat.sub_le _ _).trans hbounded.rx⟩
      have hquiet := (@spiShift_moves τ _ slaves w hnext).2.2.2
      change [_] ++ spiGone _ = _ :: spiTaken _
      rw [hquiet.gone, hquiet.taken]
      rfl
    · rw [(@s5lSpiRead_other τ bus slaves w off hsome).2.2]
      rfl
  | write off val =>
    change spiGone (s5lSpiWrite slaves bus w off val).2.2 =
      spiTaken (s5lSpiWrite slaves bus w off val).2.2
    by_cases htxdata : off = spiTxdata
    · rw [htxdata, s5lSpiWrite_txdata]
      by_cases hfull : spiFifoDepth ≤ bus.tx.level
      · rw [if_pos hfull]
        rfl
      · rw [if_neg hfull]
        have hnext : SpiBounded { bus with tx := bus.tx.push (val.setWidth 8) } :=
          ⟨Nat.lt_of_not_le hfull, hbounded.rx⟩
        have hquiet := (@spiShift_moves τ _ slaves w hnext).2.2.2
        exact hquiet.gone.trans hquiet.taken.symm
    · have hcnt : off ≠ spiCnt := by
        rintro rfl
        exact h val rfl
      rw [(@s5lSpiWrite_other τ bus slaves w off htxdata hcnt val).2.2]
      rfl
  | step =>
    have hquiet := (@spiShift_moves τ bus slaves w hbounded).2.2.2
    exact hquiet.gone.trans hquiet.taken.symm

theorem spiRun_gone (accesses : List SpiAccess) (hbounded : SpiBounded bus)
    (h : ∀ val, .write spiCnt val ∉ accesses) : spiGone (spiRun slaves accesses bus w).2.2.2 =
      spiTaken (spiRun slaves accesses bus w).2.2.2 := by
  induction accesses generalizing bus w with
  | nil => rfl
  | cons access rest ih =>
    have hfirst := @perform_gone τ bus slaves w hbounded access fun val heq ↦
      h val (heq ▸ mem_cons_self)
    have hafter := (@perform_sound τ bus slaves w hbounded access).bounded
    have hrest := @ih _ (access.perform slaves bus w).2.2.1 hafter fun val hmem ↦
      h val (mem_cons_of_mem _ hmem)
    change spiGone (_ ++ _) = spiTaken (_ ++ _)
    rw [spiGone, spiTaken, flatMap_append, filterMap_append]
    exact congrArg₂ (· ++ ·) hfirst hrest

theorem toNat_statusWord (hbounded : SpiBounded bus) :
    bus.statusWord.toNat = bus.status.toNat % 16 + 16 * bus.tx.level + 256 * bus.rx.level := by
  obtain ⟨htx, hrx⟩ := hbounded
  unfold spiFifoDepth at htx hrx
  have hevents : (bus.status &&& spiStatusEvents).toNat = bus.status.toNat % 16 := by
    rw [toNat_and]
    exact Nat.and_two_pow_sub_one_eq_mod _ 4
  have hshift : ∀ level k : ℕ, level ≤ 8 → k ≤ 8 →
      (ofNat 32 level <<< k).toNat = 2 ^ k * level := by
    intro level k hlevel hk
    have hpow : 2 ^ k ≤ 2 ^ 8 := Nat.pow_le_pow_right (by decide) hk
    have hmul : 2 ^ k * level ≤ 2 ^ 8 * 8 := Nat.mul_le_mul hpow hlevel
    rw [BitVec.toNat_shiftLeft, toNat_ofNat, Nat.shiftLeft_eq, Nat.mul_comm,
      Nat.mod_eq_of_lt (by omega : level < 2 ^ 32), Nat.mod_eq_of_lt (by omega)]
  have hsmall : bus.status.toNat % 16 < 2 ^ 4 := Nat.mod_lt _ (by decide)
  have htwo : 2 ^ 4 * bus.tx.level + bus.status.toNat % 16 < 2 ^ 8 := by omega
  unfold Spi.statusWord
  rw [toNat_or, toNat_or, hevents, hshift _ _ htx (by decide), hshift _ _ hrx (by decide)]
  change bus.status.toNat % 16 ||| 2 ^ 4 * bus.tx.level ||| 2 ^ 8 * bus.rx.level = _
  rw [Nat.or_comm _ (2 ^ 4 * bus.tx.level), ← Nat.two_pow_add_eq_or_of_lt hsmall,
    Nat.or_comm _ (2 ^ 8 * bus.rx.level), ← Nat.two_pow_add_eq_or_of_lt htwo]
  omega

theorem statusWord_levels (hbounded : SpiBounded bus) :
    bus.statusWord >>> spiStatusTxShift &&& spiStatusLevel = ofNat 32 bus.tx.level ∧
      bus.statusWord >>> spiStatusRxShift &&& spiStatusLevel = ofNat 32 bus.rx.level := by
  have hword := toNat_statusWord hbounded
  obtain ⟨htx, hrx⟩ := hbounded
  unfold spiFifoDepth at htx hrx
  have hfield : ∀ k : ℕ, (bus.statusWord >>> k &&& spiStatusLevel).toNat =
      bus.statusWord.toNat / 2 ^ k % 2 ^ 4 := by
    intro k
    rw [toNat_and, BitVec.toNat_ushiftRight, Nat.shiftRight_eq_div_pow]
    exact Nat.and_two_pow_sub_one_eq_mod _ 4
  constructor
  · refine BitVec.eq_of_toNat_eq ?_
    rw [hfield, hword, toNat_ofNat]
    unfold spiStatusTxShift
    omega
  · refine BitVec.eq_of_toNat_eq ?_
    rw [hfield, hword, toNat_ofNat]
    unfold spiStatusRxShift
    omega

/-- The two queues deliver exactly once and in order, after every sequence of accesses: what went
into the transmit queue is what the slave was handed and what is still there, and what went into
the receive queue is what was loaded or flushed and what is still there. -/
theorem spiRun_delivers (slaves : SpiSlaves τ) (accesses : List SpiAccess) (bus : Spi) (w : τ)
    (htx : bus.tx.level = 0) (hrx : bus.rx.level = 0) :
    let run := spiRun slaves accesses bus w
    let after := run.2.1
    let events := run.2.2.2
    after.tx.level ≤ spiFifoDepth ∧ after.rx.level ≤ spiFifoDepth ∧
      spiAccepted events = spiDelivered events ++ after.tx.contents ∧
      spiStored events = spiGone events ++ after.rx.contents ∧
      spiTaken events = run.1 ∧
      ((∀ val, .write spiCnt val ∉ accesses) → spiGone events = run.1) ∧
      after.statusWord >>> spiStatusTxShift &&& spiStatusLevel =
        ofNat 32 ((spiAccepted events).length - (spiDelivered events).length) ∧
      after.statusWord >>> spiStatusRxShift &&& spiStatusLevel =
        ofNat 32 ((spiStored events).length - (spiGone events).length) := by
  have hbounded : SpiBounded bus := ⟨by rw [htx]; decide, by rw [hrx]; decide⟩
  obtain ⟨hmoves, hafter, htaken⟩ := @spiRun_sound τ bus slaves w accesses hbounded
  have hempty : ∀ q : ShiftQueue Octet, q.level = 0 → q.contents = [] := by
    intro q hlevel
    exact eq_nil_of_length_eq_zero (q.length_contents.trans hlevel)
  have hsent := hmoves.tx
  have hgot := hmoves.rx
  rw [hempty _ htx, nil_append] at hsent
  rw [hempty _ hrx, nil_append] at hgot
  obtain ⟨hlevels, hlevels'⟩ := statusWord_levels hafter
  refine ⟨hafter.tx, hafter.rx, hsent, hgot, htaken, ?_, ?_, ?_⟩
  · intro hflush
    exact (spiRun_gone accesses hbounded hflush).trans htaken
  · rw [hlevels, hsent, length_append, Nat.add_sub_cancel_left, ShiftQueue.length_contents]
  · rw [hlevels', hgot, length_append, Nat.add_sub_cancel_left, ShiftQueue.length_contents]

def nullTransfer : SpiTransfer Unit := fun bus _ _ ↦ (0x00, bus.cs, ())

def nullSlaves : SpiSlaves Unit := fun select ↦ if select = 0 then some nullTransfer else none

/-- Ten stores with a load in between: nine have reached the slave. -/
theorem spiRun_delivers_ten :
    let accesses := List.replicate 5 (SpiAccess.write spiTxdata 0x55) ++ [.read spiRxdata] ++
      List.replicate 5 (SpiAccess.write spiTxdata 0xaa)
    let run := spiRun nullSlaves accesses s5lSpiReset ()
    spiAccepted run.2.2.2 = List.replicate 5 0x55 ++ List.replicate 5 0xaa ∧
      spiAccepted run.2.2.2 = spiDelivered run.2.2.2 ++ run.2.1.tx.contents ∧
      run.2.1.tx.contents = [0xaa] :=
  ⟨by decide +kernel, (spiRun_delivers nullSlaves _ s5lSpiReset () rfl rfl).2.2.1,
    by decide +kernel⟩

end S5LBox.Soc
