import S5LBox.Soc.Bus
import S5LBox.Soc.DmaResume
import S5LBox.Soc.Spi

/-!
# The DMA controller and the transmit queues

The machine answers the request line of its two SPI ports: the destination is ready where the
transmit queue is not full. The question is asked once for the source transfers up to the next
boundary, and a source transfer may be several stores.
-/

namespace S5LBox.Soc

open Function List
open Function (update)

variable {τ ν ρ : Type}

/-- A slave leaves the select as it is, but for the flag that the panel keeps in it. -/
def SpiKeepsSelect (slaves : SpiSlaves τ) : Prop :=
  ∀ select transfer, slaves select = some transfer → ∀ bus w o,
    (transfer bus w o).2.1 &&& ~~~spiLcdReadPending = bus.cs &&& ~~~spiLcdReadPending

/-- After the first of `k` stores there is room for the others: in the queue itself where nobody
takes from it, in both queues where the answers have to be loaded, and always where they have not. -/
def SpiFits (slaves : SpiSlaves τ) (bus : Spi) (k : ℕ) : Prop :=
  match bus.route slaves with
  | none => bus.tx.level + k ≤ spiFifoDepth
  | some _ => bus.dma ∨ bus.tx.level + bus.rx.level + k ≤ 2 * spiFifoDepth

instance (slaves : SpiSlaves τ) (bus : Spi) (k : ℕ) : Decidable (SpiFits slaves bus k) := by
  unfold SpiFits
  cases bus.route slaves with
  | none => exact inferInstanceAs (Decidable (_ ≤ _))
  | some _ => exact inferInstanceAs (Decidable (_ ∨ _))

/-- There is room for `k` stores. -/
def SpiRoom (slaves : SpiSlaves τ) (bus : Spi) (k : ℕ) : Prop :=
  k = 0 ∨ (bus.tx.level < spiFifoDepth ∧ SpiFits slaves bus k)

variable {slaves : SpiSlaves τ} {bus bus' : Spi} {w : τ} {k : ℕ}

theorem route_congr (hcs : bus'.cs &&& ~~~spiLcdReadPending = bus.cs &&& ~~~spiLcdReadPending) :
    bus'.route slaves = bus.route slaves := by
  have hlower : bus'.cs &&& spiCsRouteMask = bus.cs &&& spiCsRouteMask := by
    have hmask : spiCsRouteMask = ~~~spiLcdReadPending &&& spiCsRouteMask := by decide
    rw [hmask, ← BitVec.and_assoc, hcs, BitVec.and_assoc]
  have hupper : bus'.cs &&& ~~~(spiCsRouteMask ||| spiLcdReadPending) =
      bus.cs &&& ~~~(spiCsRouteMask ||| spiLcdReadPending) := by
    have hmask : ~~~(spiCsRouteMask ||| spiLcdReadPending) =
        ~~~spiLcdReadPending &&& ~~~(spiCsRouteMask ||| spiLcdReadPending) := by decide
    rw [hmask, ← BitVec.and_assoc, hcs, BitVec.and_assoc]
  rw [Spi.route, Spi.route, hlower, hupper]

theorem route_selected {transfer : SpiTransfer τ} (h : bus.route slaves = some transfer) :
    ∃ select, slaves select = some transfer := by
  rw [Spi.route] at h
  split at h
  · exact absurd h.symm (Option.some_ne_none _)
  · exact ⟨_, h⟩

/-- Where the shifter stops: the transmit queue is empty, or the receive queue is full and matters. -/
structure SpiRests (slaves : SpiSlaves τ) (bus bus' : Spi) : Prop where
  route : bus'.route slaves = bus.route slaves
  rests : bus'.tx.level = 0 ∨ (¬bus.dma ∧ spiFifoDepth ≤ bus'.rx.level)

theorem spiShiftLoop_rests (hselect : SpiKeepsSelect slaves) {transfer : SpiTransfer τ}
    {select : Fin 4} (hslave : slaves select = some transfer) {turns : ℕ}
    (hturns : bus.tx.level ≤ turns) :
    SpiRests slaves bus (spiShiftLoop transfer turns bus w).1 := by
  induction turns generalizing bus w with
  | zero => exact ⟨rfl, .inl (Nat.le_zero.1 hturns)⟩
  | succ turns ih =>
    by_cases hgo : bus.tx.level ≠ 0 ∧ (bus.dma ∨ bus.rx.level < spiFifoDepth)
    · rw [spiShiftLoop_turn hgo]
      dsimp only
      have hcs := hselect select transfer hslave { bus with tx := (bus.tx.pop 0).2 } w
        (bus.tx.pop 0).1
      generalize transfer { bus with tx := (bus.tx.pop 0).2 } w (bus.tx.pop 0).1 = asked at hcs ⊢
      obtain ⟨htx, hsetup, -, -⟩ := spiShiftTurn_cases bus asked.1 asked.2.1
      have hlevel : (spiShiftTurn bus asked.1 asked.2.1).1.tx.level ≤ turns := by
        rw [htx, ShiftQueue.level_pop]
        omega
      have hturn : (spiShiftTurn bus asked.1 asked.2.1).1.cs = asked.2.1 := by
        unfold spiShiftTurn
        dsimp only
        split_ifs <;> rfl
      obtain ⟨hroute, hrests⟩ := @ih (spiShiftTurn bus asked.1 asked.2.1).1 asked.2.2 hlevel
      have hdma : (spiShiftTurn bus asked.1 asked.2.1).1.dma = bus.dma := by
        rw [Spi.dma, hsetup, Spi.dma]
      rw [hdma] at hrests
      exact ⟨hroute.trans (route_congr (by rw [hturn, hcs])), hrests⟩
    · rw [spiShiftLoop, if_neg hgo]
      refine ⟨rfl, ?_⟩
      by_cases hempty : bus.tx.level = 0
      · exact .inl hempty
      · have hstop := fun h ↦ hgo ⟨hempty, h⟩
        exact .inr ⟨fun h ↦ hstop (.inl h), Nat.le_of_not_lt fun h ↦ hstop (.inr h)⟩

theorem txdata_room (hselect : SpiKeepsSelect slaves) (hbounded : SpiBounded bus)
    (hroom : SpiRoom slaves bus (k + 1)) (val : Word) :
    (s5lSpiWrite slaves bus w spiTxdata val).1.txDrops = bus.txDrops ∧
      SpiRoom slaves (s5lSpiWrite slaves bus w spiTxdata val).1 k := by
  obtain ⟨hlevel, hfits⟩ := hroom.resolve_left (Nat.succ_ne_zero k)
  rw [s5lSpiWrite_txdata, if_neg (Nat.not_le.2 hlevel)]
  dsimp only
  obtain ⟨pushed, hpushed⟩ : ∃ pushed : Spi, { bus with tx := bus.tx.push (val.setWidth 8) } =
    pushed := ⟨_, rfl⟩
  have htx : pushed.tx.level = bus.tx.level + 1 := by rw [← hpushed]; rfl
  have hrx : pushed.rx = bus.rx := by rw [← hpushed]
  have hroute : pushed.route slaves = bus.route slaves := by rw [← hpushed]; rfl
  have hdma : pushed.dma = bus.dma := by rw [← hpushed]; rfl
  have hnext : SpiBounded pushed := ⟨by rw [htx]; exact hlevel, by rw [hrx]; exact hbounded.rx⟩
  have hdrops : pushed.txDrops = bus.txDrops := by rw [← hpushed]
  rw [hpushed]
  obtain ⟨-, hbounded', hshifted, -⟩ := @spiShift_moves τ pushed slaves w hnext
  refine ⟨hshifted.txDrops.trans hdrops, or_iff_not_imp_left.2 fun hk ↦ ?_⟩
  have hdma' : (spiShift slaves pushed w).1.dma = bus.dma := by
    rw [Spi.dma, hshifted.setup, ← Spi.dma, hdma]
  unfold SpiFits at hfits ⊢
  cases hslave : bus.route slaves with
  | none =>
    rw [hslave] at hfits
    dsimp only at hfits
    have hstay : (spiShift slaves pushed w).1 = pushed := by
      rw [spiShift, hroute, hslave]
    rw [hstay, hroute, hslave]
    dsimp only
    rw [htx]
    omega
  | some transfer =>
    rw [hslave] at hfits
    dsimp only at hfits
    have hloop : (spiShift slaves pushed w).1 =
        (spiShiftLoop transfer pushed.tx.level pushed w).1 := by
      rw [spiShift, hroute, hslave]
    obtain ⟨select, hselected⟩ := route_selected hslave
    obtain ⟨hroute', hrests⟩ := @spiShiftLoop_rests _ _ pushed w hselect _ _ hselected _ le_rfl
    rw [← hloop] at hroute' hrests
    have htotal := hshifted.total
    have hrx' := hbounded'.rx
    rw [htx, hrx] at htotal
    rw [hdma] at hrests
    rw [hroute', hroute, hslave, hdma']
    dsimp only
    unfold spiFifoDepth at *
    refine ⟨?_, ?_⟩
    · rcases hrests with hzero | ⟨hpio, hfull⟩
      · omega
      · have := hfits.resolve_left hpio
        omega
    · refine hfits.imp_right fun h ↦ ?_
      omega

/-- Any other store, and every load, leaves the transmit queue no fuller and drops nothing. -/
structure SpiNoFuller (bus bus' : Spi) : Prop where
  txDrops : bus'.txDrops = bus.txDrops
  tx : bus'.tx.level ≤ bus.tx.level
  bounded : SpiBounded bus'

theorem SpiNoFuller.of_queues (hbounded : SpiBounded bus) (hdrops : bus'.txDrops = bus.txDrops)
    (htx : bus'.tx = bus.tx) (hrx : bus'.rx = bus.rx) : SpiNoFuller bus bus' :=
  ⟨hdrops, by rw [htx], hbounded.congr htx hrx⟩

theorem SpiNoFuller.trans {bus'' : Spi} (h : SpiNoFuller bus bus') (h' : SpiNoFuller bus' bus'') :
    SpiNoFuller bus bus'' := ⟨h'.txDrops.trans h.txDrops, h'.tx.trans h.tx, h'.bounded⟩

theorem spiShiftLoop_tx {transfer : SpiTransfer τ} {turns : ℕ} :
    (spiShiftLoop transfer turns bus w).1.tx.level ≤ bus.tx.level := by
  induction turns generalizing bus w with
  | zero => exact le_rfl
  | succ turns ih =>
    by_cases hgo : bus.tx.level ≠ 0 ∧ (bus.dma ∨ bus.rx.level < spiFifoDepth)
    · rw [spiShiftLoop_turn hgo]
      dsimp only
      refine ih.trans ?_
      rw [(spiShiftTurn_cases bus _ _).1, ShiftQueue.level_pop]
      exact Nat.sub_le _ _
    · rw [spiShiftLoop, if_neg hgo]

theorem spiShift_noFuller (hbounded : SpiBounded bus) :
    SpiNoFuller bus (spiShift slaves bus w).1 := by
  obtain ⟨-, hbounded', hshifted, -⟩ := @spiShift_moves τ bus slaves w hbounded
  refine ⟨hshifted.txDrops, ?_, hbounded'⟩
  unfold spiShift
  split
  · exact le_rfl
  · exact spiShiftLoop_tx

theorem noteUnknown_noFuller (hbounded : SpiBounded bus) (off : Word) :
    SpiNoFuller bus (spiNoteUnknown bus off) := by
  obtain ⟨htx, hrx⟩ := noteUnknown_queues bus off
  refine .of_queues hbounded ?_ htx hrx
  unfold spiNoteUnknown
  split_ifs <;> rfl

theorem s5lSpiRead_noFuller (hbounded : SpiBounded bus) (off : Word) :
    SpiNoFuller bus (s5lSpiRead slaves bus w off).2.1 := by
  by_cases hrxdata : off = spiRxdata ∧ bus.rx.level ≠ 0
  · rw [hrxdata.1, s5lSpiRead_rxdata hrxdata.2]
    have htaken : SpiNoFuller bus
        { bus with rx := (bus.rx.pop 0).2, rxReads := bus.rxReads + 1 } :=
      ⟨rfl, le_rfl, hbounded.tx, (Nat.sub_le _ _).trans hbounded.rx⟩
    exact htaken.trans (spiShift_noFuller htaken.bounded)
  · have hunknown := @noteUnknown_noFuller { bus with unknownReads := bus.unknownReads + 1 }
      (hbounded.congr rfl rfl) off
    have hsame : SpiNoFuller bus bus := .of_queues hbounded rfl rfl rfl
    unfold s5lSpiRead
    split_ifs with _ _ _ _ _ hoff hempty
    · exact hsame
    · exact hsame
    · exact hsame
    · exact hsame
    · exact hsame
    · exact .of_queues hbounded rfl rfl rfl
    · exact absurd ⟨hoff, hempty⟩ hrxdata
    · exact hsame
    · exact hsame
    · exact hsame
    · exact ⟨hunknown.txDrops, hunknown.tx, hunknown.bounded⟩

theorem s5lSpiWrite_noFuller (hbounded : SpiBounded bus) {off : Word} (hoff : off ≠ spiTxdata)
    (val : Word) : SpiNoFuller bus (s5lSpiWrite slaves bus w off val).1 := by
  have hunknown := @noteUnknown_noFuller { bus with unknownWrites := bus.unknownWrites + 1 }
    (hbounded.congr rfl rfl) off
  have hflushed : SpiNoFuller bus
      { bus with
        cnt := val
        wordsLeft := val
        rx := bus.rx.clear
        cs := bus.cs &&& ~~~spiLcdReadPending } :=
    ⟨rfl, le_rfl, hbounded.tx, Nat.zero_le _⟩
  unfold s5lSpiWrite
  rw [if_neg hoff]
  split_ifs
  · exact .of_queues hbounded rfl rfl rfl
  · exact .of_queues hbounded rfl rfl rfl
  · exact .of_queues hbounded rfl rfl rfl
  · exact .of_queues hbounded rfl rfl rfl
  · exact .of_queues hbounded rfl rfl rfl
  · exact .of_queues hbounded rfl rfl rfl
  · exact .of_queues hbounded rfl rfl rfl
  · exact hflushed
  · exact .of_queues hbounded rfl rfl rfl
  · exact ⟨hunknown.txDrops, hunknown.tx, hunknown.bounded⟩

/-- The ports, what their slaves remember, and the rest of the machine. -/
structure SpiWorld (τ ν : Type) where
  ports : Fin 2 → Spi
  slaves : τ
  rest : ν

def spiBase (i : Fin 2) : Word := if i = 0 then spi0Base else spi1Base

/-- The address of the transmit register of a port. -/
def txdataAddr (i : Fin 2) : Word := spiBase i + spiTxdata

/-- The port that answers an access, and the offset it is handed. -/
def spiTarget (addr : Word) (bytes : ℕ) : Option (Fin 2 × Word) :=
  if mmioData addr bytes spi0Base devSize then some (0, addr - spi0Base)
  else if mmioData addr bytes spi1Base devSize then some (1, addr - spi1Base)
  else none

variable (slavesOf : Fin 2 → SpiSlaves τ)

def portLoad (s : DmaState (SpiWorld τ ν)) (i : Fin 2) (off : Word) :
    Word × DmaState (SpiWorld τ ν) :=
  let (v, port, w, _) := s5lSpiRead (slavesOf i) (s.2.ports i) s.2.slaves off
  (v, s.1, { s.2 with ports := update s.2.ports i port, slaves := w })

def portStore (s : DmaState (SpiWorld τ ν)) (i : Fin 2) (off v : Word) : DmaState (SpiWorld τ ν) :=
  let (port, w, _) := s5lSpiWrite (slavesOf i) (s.2.ports i) s.2.slaves off v
  (s.1, { s.2 with ports := update s.2.ports i port, slaves := w })

/-- The bus of the machine as the two ports see it: `rest` answers wherever they do not. -/
def spiBus (rest : Arm.Bus (DmaState (SpiWorld τ ν))) : Arm.Bus (DmaState (SpiWorld τ ν)) :=
  { rest with
    read32 := fun s a ↦
      match spiTarget a 4 with
      | some (i, off) => portLoad slavesOf s i off
      | none => rest.read32 s a
    read16 := fun s a ↦
      match spiTarget a 2 with
      | some (i, off) => ((portLoad slavesOf s i off).1.setWidth 16, (portLoad slavesOf s i off).2)
      | none => rest.read16 s a
    read8 := fun s a ↦
      match spiTarget a 1 with
      | some (i, off) => ((portLoad slavesOf s i off).1.setWidth 8, (portLoad slavesOf s i off).2)
      | none => rest.read8 s a
    write32 := fun s a v ↦
      match spiTarget a 4 with
      | some (i, off) => portStore slavesOf s i off v
      | none => rest.write32 s a v
    write16 := fun s a v ↦
      match spiTarget a 2 with
      | some (i, off) => portStore slavesOf s i off (v.setWidth 32)
      | none => rest.write16 s a v
    write8 := fun s a v ↦
      match spiTarget a 1 with
      | some (i, off) => portStore slavesOf s i off (v.setWidth 32)
      | none => rest.write8 s a v }

def dmaDstReady : Pl080Ready ρ (SpiWorld τ ν) := fun r s dst _ ↦
  (if dst = txdataAddr 0 then decide ((s.2.ports 0).tx.level < spiFifoDepth)
    else if dst = txdataAddr 1 then decide ((s.2.ports 1).tx.level < spiFifoDepth)
    else true, r)

/-- The rest of the machine reaches a port only through its select: nobody else stores into its
queues or counts its drops. -/
def SpiSpared (s s' : DmaState (SpiWorld τ ν)) : Prop :=
  ∀ i, ∃ cs, s'.2.ports i = { s.2.ports i with cs := cs }

structure SpiSparing (rest : Arm.Bus (DmaState (SpiWorld τ ν))) : Prop where
  load : ∀ s a width, SpiSpared s (busLoad rest s a width).2
  store : ∀ s a v width, SpiSpared s (busStore rest s a v width)

variable {slavesOf} {rest : Arm.Bus (DmaState (SpiWorld τ ν))} {s s' : DmaState (SpiWorld τ ν)}
  {i : Fin 2} {c : Fin pl080Channels} {shape : DmaShape}

theorem SpiSpared.noFuller (h : SpiSpared s s') (hbounded : SpiBounded (s.2.ports i)) :
    SpiNoFuller (s.2.ports i) (s'.2.ports i) := by
  obtain ⟨cs, hcs⟩ := h i
  exact .of_queues hbounded (by rw [hcs]) (by rw [hcs]) (by rw [hcs])

theorem portLoad_noFuller (hbounded : SpiBounded (s.2.ports i)) (j : Fin 2) (off : Word) :
    SpiNoFuller (s.2.ports i) ((portLoad slavesOf s j off).2.2.ports i) := by
  change SpiNoFuller _ (update s.2.ports j _ i)
  by_cases hij : i = j
  · subst hij
    rw [update_self]
    exact s5lSpiRead_noFuller hbounded off
  · rw [update_of_ne hij]
    exact .of_queues hbounded rfl rfl rfl

theorem portStore_noFuller (hbounded : SpiBounded (s.2.ports i)) {j : Fin 2} {off : Word}
    (hoff : ¬(j = i ∧ off = spiTxdata)) (v : Word) :
    SpiNoFuller (s.2.ports i) ((portStore slavesOf s j off v).2.ports i) := by
  change SpiNoFuller _ (update s.2.ports j _ i)
  by_cases hij : i = j
  · subst hij
    rw [update_self]
    exact s5lSpiWrite_noFuller hbounded (fun h ↦ hoff ⟨rfl, h⟩) v
  · rw [update_of_ne hij]
    exact .of_queues hbounded rfl rfl rfl

theorem spiTarget_addr {a : Word} {bytes : ℕ} {j : Fin 2} {off : Word}
    (h : spiTarget a bytes = some (j, off)) : a = spiBase j + off := by
  unfold spiTarget at h
  split_ifs at h
  · cases h
    change a = spi0Base + (a - spi0Base)
    rw [BitVec.add_comm, BitVec.sub_add_cancel]
  · cases h
    change a = spi1Base + (a - spi1Base)
    rw [BitVec.add_comm, BitVec.sub_add_cancel]

theorem spiTarget_txdata (hshape : shape.Legal) (i : Fin 2) :
    spiTarget (txdataAddr i) shape.dwidth = some (i, spiTxdata) := by
  rcases hshape.dwidth with h | h | h <;> rw [h] <;> revert i <;> decide

theorem load_noFuller (hrest : SpiSparing rest) (hbounded : SpiBounded (s.2.ports i)) (a : Word)
    (width : ℕ) :
    SpiNoFuller (s.2.ports i) ((busLoad (spiBus slavesOf rest) s a width).2.2.ports i) := by
  have hspared := (hrest.load s a width).noFuller hbounded
  unfold busLoad at hspared ⊢
  unfold spiBus
  dsimp only at hspared ⊢
  split at hspared
  · dsimp only
    split
    · exact portLoad_noFuller hbounded _ _
    · exact hspared
  · dsimp only
    split
    · exact portLoad_noFuller hbounded _ _
    · exact hspared
  · split
    · exact portLoad_noFuller hbounded _ _
    · exact hspared

/-- No store fills a transmit queue but one at its register. -/
theorem store_noFuller (hrest : SpiSparing rest) (hbounded : SpiBounded (s.2.ports i)) {a : Word}
    (ha : a ≠ txdataAddr i) (v : Word) (width : ℕ) :
    SpiNoFuller (s.2.ports i) ((busStore (spiBus slavesOf rest) s a v width).2.ports i) := by
  have hspared := (hrest.store s a v width).noFuller hbounded
  have hport : ∀ bytes j off val, spiTarget a bytes = some (j, off) →
      SpiNoFuller (s.2.ports i) ((portStore slavesOf s j off val).2.ports i) := by
    intro bytes j off val htarget
    refine portStore_noFuller hbounded ?_ val
    rintro ⟨rfl, rfl⟩
    exact ha (spiTarget_addr htarget)
  unfold busStore at hspared ⊢
  unfold spiBus
  dsimp only at hspared ⊢
  split at hspared
  · split
    · exact hport _ _ _ _ ‹_›
    · exact hspared
  · split
    · exact hport _ _ _ _ ‹_›
    · exact hspared
  · split
    · exact hport _ _ _ _ ‹_›
    · exact hspared

theorem store_txdata (hshape : shape.Legal) (v : Word) :
    ∃ val, (busStore (spiBus slavesOf rest) s (txdataAddr i) v shape.dwidth).2.ports i =
      (s5lSpiWrite (slavesOf i) (s.2.ports i) s.2.slaves spiTxdata val).1 := by
  have htarget := spiTarget_txdata hshape i
  have hself : ∀ val, (portStore slavesOf s i spiTxdata val).2.ports i =
      (s5lSpiWrite (slavesOf i) (s.2.ports i) s.2.slaves spiTxdata val).1 :=
    fun val ↦ update_self ..
  unfold busStore spiBus
  rcases hshape.dwidth with h | h | h
  · rw [h] at htarget ⊢
    dsimp only
    rw [htarget]
    exact ⟨_, hself _⟩
  · rw [h] at htarget ⊢
    dsimp only
    rw [htarget]
    exact ⟨_, hself _⟩
  · rw [h] at htarget ⊢
    dsimp only
    rw [htarget]
    exact ⟨_, hself _⟩

/-- How many of `k` stores from `dst` on go to the address. -/
def storesTo (shape : DmaShape) (a : Word) : ℕ → Word → ℕ
  | 0, _ => 0
  | k + 1, dst =>
    (if dst = a then 1 else 0) +
      storesTo shape a k (if shape.di then dst + BitVec.ofNat 32 shape.dwidth else dst)

/-- The stores of a drain that go to a transmit queue find room there: where the first of them is
the one the request line was asked about, room behind it, and else room at all. -/
def DrainFits (slavesOf : Fin 2 → SpiSlaves τ) (u : DmaDrain (SpiWorld τ ν)) (i : Fin 2) : Prop :=
  let dst := (u.state.1.ch u.chan).dst
  let k := storesTo u.shape (txdataAddr i) (u.pendBytes / u.shape.dwidth) dst
  if dst = txdataAddr i then SpiFits (slavesOf i) (u.state.2.ports i) k
  else k = 0 ∨ (u.state.2.ports i).tx.level < spiFifoDepth

instance (slavesOf : Fin 2 → SpiSlaves τ) (u : DmaDrain (SpiWorld τ ν)) (i : Fin 2) :
    Decidable (DrainFits slavesOf u i) := by
  unfold DrainFits
  dsimp only
  split
  · infer_instance
  · infer_instance

/-- The destination of a moving channel does not come back to an address it has passed. -/
theorem storesTo_passed {a : Word} (hmoving : shape.di = true) {k n : ℕ} (hn : 0 < n)
    (hfits : shape.dwidth * (n + k) < 2 ^ 32) (hwidth : 0 < shape.dwidth) :
    storesTo shape a k (a + BitVec.ofNat 32 (shape.dwidth * n)) = 0 := by
  induction k generalizing n with
  | zero => rfl
  | succ k ih =>
    have hlt : shape.dwidth * n < 2 ^ 32 :=
      (Nat.mul_le_mul_left _ (Nat.le_add_right ..)).trans_lt hfits
    have hne : a + BitVec.ofNat 32 (shape.dwidth * n) ≠ a := by
      intro h
      have hzero : BitVec.ofNat 32 (shape.dwidth * n) = 0#32 := by
        have := congrArg (fun x ↦ x - a) h
        simpa [BitVec.add_comm a, BitVec.add_sub_cancel] using this
      have hvalue := congrArg BitVec.toNat hzero
      rw [BitVec.toNat_ofNat, Nat.mod_eq_of_lt hlt] at hvalue
      exact absurd hvalue (Nat.mul_pos hwidth hn).ne'
    have hnext := ih (Nat.succ_pos n) (by rw [Nat.succ_add_eq_add_succ]; exact hfits)
    rw [storesTo, if_neg hne, if_pos hmoving, BitVec.add_assoc, ← BitVec.ofNat_add, ← Nat.mul_succ,
      hnext]

theorem room_one (slaves : SpiSlaves τ) (hbounded : SpiBounded bus)
    (hlevel : bus.tx.level < spiFifoDepth) : SpiRoom slaves bus 1 := by
  refine .inr ⟨hlevel, ?_⟩
  have hrx := hbounded.rx
  unfold SpiFits
  unfold spiFifoDepth at *
  split
  · omega
  · exact .inr (by omega)

/-- The stores that are left find room: what each store of a drain keeps. -/
def StoresFit (slavesOf : Fin 2 → SpiSlaves τ) (shape : DmaShape) (port : Spi) (i : Fin 2) (k : ℕ)
    (dst : Word) : Prop :=
  if dst = txdataAddr i then SpiRoom (slavesOf i) port (storesTo shape (txdataAddr i) k dst)
  else storesTo shape (txdataAddr i) k dst = 0 ∨ port.tx.level < spiFifoDepth

theorem storeUnit_fits (hrest : SpiSparing rest) (hselect : ∀ i, SpiKeepsSelect (slavesOf i))
    (hshape : shape.Legal) {k : ℕ} (hk : k < 8) {pend : DWord}
    (hquiet : DmaQuiet (spiBus slavesOf rest) (s.1.ch c).dst) (hbounded : SpiBounded (s.2.ports i))
    (hfits : StoresFit slavesOf shape (s.2.ports i) i (k + 1) (s.1.ch c).dst) :
    let s' := storeUnit (spiBus slavesOf rest) c shape s pend
    (s'.2.ports i).txDrops = (s.2.ports i).txDrops ∧ SpiBounded (s'.2.ports i) ∧
      StoresFit slavesOf shape (s'.2.ports i) i k (s'.1.ch c).dst := by
  have hdst : ((storeUnit (spiBus slavesOf rest) c shape s pend).1.ch c).dst =
      if shape.di then (s.1.ch c).dst + BitVec.ofNat 32 shape.dwidth else (s.1.ch c).dst := by
    rw [storeUnit_ch hquiet, update_self]
    rfl
  have hwidth := hshape.dwidth_pos
  dsimp only
  rw [hdst]
  generalize hnext : (if shape.di then (s.1.ch c).dst + BitVec.ofNat 32 shape.dwidth
    else (s.1.ch c).dst) = next
  rw [StoresFit, storesTo, hnext] at hfits
  by_cases ha : (s.1.ch c).dst = txdataAddr i
  · rw [if_pos ha, if_pos ha, Nat.add_comm] at hfits
    obtain ⟨val, hval⟩ := @store_txdata _ _ slavesOf rest s i _ hshape (stagedWord shape pend)
    have hport : (storeUnit (spiBus slavesOf rest) c shape s pend).2.ports i =
        (s5lSpiWrite (slavesOf i) (s.2.ports i) s.2.slaves spiTxdata val).1 := by
      rw [← hval, ← ha]
      rfl
    obtain ⟨hdrops, hroom⟩ := txdata_room (w := s.2.slaves) (hselect i) hbounded hfits val
    rw [hport]
    refine ⟨hdrops, (txdata_sound hbounded val).bounded, ?_⟩
    rw [StoresFit]
    split
    · exact hroom
    · exact hroom.imp_right And.left
  · rw [if_neg ha, if_neg ha, Nat.zero_add] at hfits
    have hkept : SpiNoFuller (s.2.ports i)
        ((storeUnit (spiBus slavesOf rest) c shape s pend).2.ports i) :=
      store_noFuller hrest hbounded ha (stagedWord shape pend) shape.dwidth
    refine ⟨hkept.txDrops, hkept.bounded, ?_⟩
    rw [StoresFit]
    split
    · next harrived =>
      -- A moving destination arrives at the register once, and passes it.
      have honce : storesTo shape (txdataAddr i) k next ≤ 1 := by
        cases k with
        | zero => exact Nat.zero_le _
        | succ k =>
          have hmoving : shape.di = true := by
            by_contra hfixed
            rw [if_neg hfixed] at hnext
            exact ha (hnext.trans harrived)
          have hpassed := storesTo_passed (a := txdataAddr i) hmoving (k := k) (n := 1) one_pos
            (by nlinarith) hwidth.1
          rw [Nat.mul_one] at hpassed
          rw [storesTo, if_pos harrived, if_pos hmoving, harrived, hpassed]
      interval_cases hcount : storesTo shape (txdataAddr i) k next
      · exact .inl rfl
      · exact room_one _ hkept.bounded
          (lt_of_le_of_lt hkept.tx (hfits.resolve_left one_ne_zero))
    · exact hfits.imp_right (lt_of_le_of_lt hkept.tx)

/-- What a part of a run keeps of the ports. -/
structure PortsKept (s s' : DmaState (SpiWorld τ ν)) : Prop where
  txDrops : ∀ i, (s'.2.ports i).txDrops = (s.2.ports i).txDrops
  bounded : ∀ i, SpiBounded (s'.2.ports i)

theorem PortsKept.trans {s'' : DmaState (SpiWorld τ ν)} (h : PortsKept s s')
    (h' : PortsKept s' s'') : PortsKept s s'' :=
  ⟨fun i ↦ (h'.txDrops i).trans (h.txDrops i), h'.bounded⟩

theorem drainLoop_drops (hrest : SpiSparing rest) (hselect : ∀ i, SpiKeepsSelect (slavesOf i))
    (hshape : shape.Legal) (turns : ℕ) {pend : DWord} {pendBytes : ℕ} (hbytes : pendBytes < 8)
    (hquiet : ∀ a ∈ (drainLoop (spiBus slavesOf rest) c shape turns s pend pendBytes).accesses,
      DmaQuiet (spiBus slavesOf rest) a.addr)
    (hbounded : ∀ i, SpiBounded (s.2.ports i))
    (hfits : ∀ i, StoresFit slavesOf shape (s.2.ports i) i (pendBytes / shape.dwidth)
      (s.1.ch c).dst) :
    PortsKept s (drainLoop (spiBus slavesOf rest) c shape turns s pend pendBytes).state := by
  induction turns generalizing s pend pendBytes with
  | zero => exact ⟨fun _ ↦ rfl, hbounded⟩
  | succ turns ih =>
    by_cases hfull : shape.dwidth ≤ pendBytes
    · rw [drainLoop, if_pos hfull] at hquiet ⊢
      have hcount : pendBytes / shape.dwidth = (pendBytes - shape.dwidth) / shape.dwidth + 1 := by
        rw [Nat.div_eq_sub_div hshape.dwidth_pos.1 hfull]
      have hstore := fun i ↦ @storeUnit_fits _ _ _ _ _ i _ _ hrest hselect hshape _
        ((Nat.div_le_self ..).trans_lt (by omega)) pend (hquiet _ (mem_cons_self ..))
        (hbounded i) (hcount ▸ hfits i)
      have hfirst : PortsKept s (storeUnit (spiBus slavesOf rest) c shape s pend) :=
        ⟨fun i ↦ (hstore i).1, fun i ↦ (hstore i).2.1⟩
      exact hfirst.trans (ih (by omega) (fun a ha ↦ hquiet a (mem_cons_of_mem _ ha))
        hfirst.bounded fun i ↦ (hstore i).2.2)
    · rw [drainLoop, if_neg hfull]
      exact ⟨fun _ ↦ rfl, hbounded⟩

theorem drainLoop_earlier {bus : Arm.Bus (DmaState (SpiWorld τ ν))} (turns more : ℕ) {pend : DWord}
    {pendBytes : ℕ} {a : DmaAccess}
    (ha : a ∈ (drainLoop bus c shape turns s pend pendBytes).accesses) :
    a ∈ (drainLoop bus c shape (turns + more) s pend pendBytes).accesses := by
  induction turns generalizing s pend pendBytes with
  | zero => exact absurd ha not_mem_nil
  | succ turns ih =>
    by_cases hfull : shape.dwidth ≤ pendBytes
    · rw [drainLoop, if_pos hfull] at ha
      rw [Nat.succ_add, drainLoop, if_pos hfull]
      rcases mem_cons.1 ha with rfl | hrest
      · exact mem_cons_self ..
      · exact mem_cons_of_mem _ (ih hrest)
    · rw [drainLoop, if_neg hfull] at ha
      exact absurd ha not_mem_nil

/-- The octets that are staged at the head of the loop: none, or some whole source transfers of a
wider destination transfer. -/
def DmaShape.Between (shape : DmaShape) (pendBytes : ℕ) : Prop :=
  pendBytes < shape.dwidth ∧ pendBytes % shape.swidth = 0

/-- A source transfer completes nothing, or it completes all that is staged. -/
theorem DmaShape.Between.next {pendBytes : ℕ} (hshape : shape.Legal) (h : shape.Between pendBytes) :
    shape.Between ((pendBytes + shape.swidth) % shape.dwidth) ∧
      (pendBytes + shape.swidth < shape.dwidth ∨
        (pendBytes + shape.swidth) % shape.dwidth = 0) := by
  obtain ⟨hlt, hmod⟩ := h
  unfold DmaShape.Between
  rcases hshape.swidth with hs | hs | hs <;> rcases hshape.dwidth with hd | hd | hd <;>
    rw [hs] at hmod ⊢ <;> rw [hd] at hlt ⊢ <;> omega

/-- The request line has been answered for the destination as it is. -/
def Asked (c : Fin pl080Channels) (s : DmaState (SpiWorld τ ν)) : Prop :=
  ∀ i, (s.1.ch c).dst = txdataAddr i → (s.2.ports i).tx.level < spiFifoDepth

theorem dmaDstReady_asked {r : ρ} {width : ℕ}
    (h : (dmaDstReady r s (s.1.ch c).dst width).1 = true) : Asked c s := by
  intro i hi
  unfold dmaDstReady at h
  rw [hi] at h
  dsimp only at h
  by_cases hzero : i = 0
  · rw [hzero, if_pos rfl] at h
    rw [hzero]
    exact of_decide_eq_true h
  · obtain rfl : i = 1 := by omega
    rw [if_neg (by decide), if_pos rfl] at h
    exact of_decide_eq_true h

theorem loadUnit_kept_ports (hrest : SpiSparing rest) {n : ℕ}
    (hquiet : DmaQuiet (spiBus slavesOf rest) (s.1.ch c).src)
    (hbounded : ∀ i, SpiBounded (s.2.ports i)) (hasked : Asked c s) :
    PortsKept s (loadUnit (spiBus slavesOf rest) c shape n s) ∧
      Asked c (loadUnit (spiBus slavesOf rest) c shape n s) := by
  have hload : ∀ i, SpiNoFuller (s.2.ports i)
      ((loadUnit (spiBus slavesOf rest) c shape n s).2.ports i) :=
    fun i ↦ load_noFuller hrest (hbounded i) (s.1.ch c).src shape.swidth
  have hdst : ((loadUnit (spiBus slavesOf rest) c shape n s).1.ch c).dst = (s.1.ch c).dst := by
    rw [loadUnit_ch hquiet, update_self]
    rfl
  refine ⟨⟨fun i ↦ (hload i).txDrops, fun i ↦ (hload i).bounded⟩, fun i hi ↦ ?_⟩
  exact lt_of_le_of_lt (hload i).tx (hasked i (hdst ▸ hi))

theorem DrainFits.stores {u : DmaDrain (SpiWorld τ ν)} (h : DrainFits slavesOf u i)
    (hasked : Asked u.chan u.state) :
    StoresFit slavesOf u.shape (u.state.2.ports i) i (u.pendBytes / u.shape.dwidth)
      (u.state.1.ch u.chan).dst := by
  unfold DrainFits at h
  unfold StoresFit
  dsimp only at h
  split at h
  · next hdst =>
    rw [if_pos hdst]
    exact .inr ⟨hasked i hdst, h⟩
  · next hdst =>
    rw [if_neg hdst]
    exact h

/-- In each state between the stores of the drains, and at the end, the ports are as kept. -/
structure DmaKeepsPorts (bus : Arm.Bus (DmaState (SpiWorld τ ν))) (s : DmaState (SpiWorld τ ν))
    (run : DmaRun ρ (SpiWorld τ ν)) : Prop where
  ended : PortsKept s run.state
  drains : ∀ u ∈ run.drains, ∀ turns ≤ u.pendBytes, PortsKept s (u.run bus turns).state

/-- The addresses of a run are plain memory or a port, and its drains fit. -/
structure DrainsFit (slavesOf : Fin 2 → SpiSlaves τ) (rest : Arm.Bus (DmaState (SpiWorld τ ν)))
    (run : DmaRun ρ (SpiWorld τ ν)) : Prop where
  quiet : ∀ a ∈ run.accesses, DmaQuiet (spiBus slavesOf rest) a.addr
  fits : ∀ u ∈ run.drains, ∀ i, DrainFits slavesOf u i

theorem DrainsFit.split {first second run : DmaRun ρ (SpiWorld τ ν)}
    (h : DrainsFit slavesOf rest run) (haccesses : run.accesses = first.accesses ++ second.accesses)
    (hdrains : run.drains = first.drains ++ second.drains) :
    DrainsFit slavesOf rest first ∧ DrainsFit slavesOf rest second := by
  obtain ⟨hquiet, hfits⟩ := h
  rw [haccesses, forall_mem_append] at hquiet
  rw [hdrains, forall_mem_append] at hfits
  exact ⟨⟨hquiet.1, hfits.1⟩, ⟨hquiet.2, hfits.2⟩⟩

section Drops

variable (hrest : SpiSparing rest) (hselect : ∀ i, SpiKeepsSelect (slavesOf i))
include hrest hselect

theorem transferLoop_drops (hshape : shape.Legal) (n : ℕ) (r : ρ) {pend : DWord} {pendBytes : ℕ}
    (hpend : pend.toNat < 2 ^ (8 * pendBytes)) (hbetween : shape.Between pendBytes)
    (hbounded : ∀ i, SpiBounded (s.2.ports i)) (hasked : pendBytes ≠ 0 → Asked c s)
    (hfit : DrainsFit slavesOf rest (transferLoop (spiBus slavesOf rest) (some dmaDstReady) c shape
      n s r pend pendBytes)) :
    DmaKeepsPorts (spiBus slavesOf rest) s
      (transferLoop (spiBus slavesOf rest) (some dmaDstReady) c shape n s r pend pendBytes) := by
  set bus := spiBus slavesOf rest
  induction n generalizing s r pend pendBytes with
  | zero => exact ⟨⟨fun _ ↦ rfl, hbounded⟩, fun u hu ↦ absurd hu not_mem_nil⟩
  | succ n ih =>
    by_cases hanswer : (askReady (some dmaDstReady) r s (s.1.ch c).dst shape.dwidth pendBytes).1
    · have hasked' : Asked c s := by
        by_cases hclean : pendBytes = 0
        · rw [askReady, if_pos hclean] at hanswer
          exact dmaDstReady_asked hanswer
        · exact hasked hclean
      rw [transferLoop, if_pos hanswer] at hfit ⊢
      set unit := moveUnit bus c shape n s pend pendBytes
      obtain ⟨u, hu⟩ : ∃ u, loadDrain bus c shape n s pend pendBytes = u :=
        ⟨_, rfl⟩
      have hunit : ∀ a ∈ unit.accesses,
          DmaQuiet bus a.addr := fun a ha ↦ hfit.quiet a (mem_append_left _ ha)
      obtain ⟨hloaded, hasked₁⟩ := @loadUnit_kept_ports _ _ _ _ _ _ shape hrest n
        (hunit _ (mem_cons_self ..)) hbounded hasked'
      have hwidths := And.intro hshape.swidth_pos hshape.dwidth_pos
      have hbytes : u.pendBytes < 8 := by
        rw [← hu]
        change pendBytes + shape.swidth < 8
        have := hbetween.1
        omega
      have hdrain : ∀ turns ≤ u.pendBytes, PortsKept u.state (u.run bus turns).state := by
        intro turns hturns
        subst hu
        refine drainLoop_drops hrest hselect hshape turns hbytes (fun a ha ↦ ?_) hloaded.bounded
          fun i ↦ (hfit.fits _ (mem_cons_self ..) i).stores hasked₁
        refine hunit a (mem_cons_of_mem _ ?_)
        obtain ⟨more, hmore⟩ := Nat.exists_eq_add_of_le hturns
        have hearlier := drainLoop_earlier turns more ha
        rw [← hmore] at hearlier
        exact hearlier
      obtain ⟨hunitBytes, hunitPend⟩ := @moveUnit_staged _ bus c _ hshape n s _ _
        hpend
      obtain ⟨hnext, hcomplete⟩ := DmaShape.Between.next hshape hbetween
      have hstate : unit.state = (u.run bus u.pendBytes).state := by rw [← hu]; rfl
      have hmoved : PortsKept s unit.state := by
        rw [hstate]
        subst hu
        exact hloaded.trans (hdrain _ le_rfl)
      have hstill : unit.pendBytes ≠ 0 → Asked c unit.state := by
        intro hstaged
        have hshort := hcomplete.resolve_right (hunitBytes ▸ hstaged)
        have hnone : unit.state = loadUnit bus c shape n s := by
          rw [hstate, ← hu]
          change (drainLoop _ c shape (pendBytes + shape.swidth) _ _ _).state = _
          obtain ⟨turns, hturns⟩ : ∃ turns, pendBytes + shape.swidth = turns + 1 :=
            ⟨pendBytes + shape.swidth - 1, by omega⟩
          rw [hturns, drainLoop, if_neg (by
            change ¬shape.dwidth ≤ pendBytes + shape.swidth
            omega)]
          rfl
        rw [hnone]
        exact hasked₁
      have hrest' := ih
        (askReady (some dmaDstReady) r s (s.1.ch c).dst shape.dwidth pendBytes).2
        (hunitBytes ▸ hunitPend) (hunitBytes ▸ hnext) hmoved.bounded hstill
        ⟨fun a ha ↦ hfit.quiet a (mem_append_right _ ha),
          fun v hv ↦ hfit.fits v (mem_cons_of_mem _ hv)⟩
      refine ⟨hmoved.trans hrest'.ended, fun v hv turns hturns ↦ ?_⟩
      rcases mem_cons.1 hv with rfl | hlater
      · subst hu
        exact hloaded.trans (hdrain turns hturns)
      · exact hmoved.trans (hrest'.drains v hlater turns hturns)
    · rw [transferLoop, if_neg hanswer]
      exact ⟨⟨fun _ ↦ rfl, hbounded⟩, fun u hu ↦ absurd hu not_mem_nil⟩

omit hrest hselect in
theorem DmaKeepsPorts.nothing {bus : Arm.Bus (DmaState (SpiWorld τ ν))}
    {run : DmaRun ρ (SpiWorld τ ν)} (hbounded : ∀ i, SpiBounded (s.2.ports i))
    (hports : run.state.2 = s.2) (hdrains : run.drains = []) : DmaKeepsPorts bus s run := by
  refine ⟨⟨fun i ↦ by rw [hports], fun i ↦ by rw [hports]; exact hbounded i⟩, fun u hu ↦ ?_⟩
  rw [hdrains] at hu
  exact absurd hu not_mem_nil

omit hselect in
theorem reloadItem_ports (hbounded : ∀ i, SpiBounded (s.2.ports i)) :
    PortsKept s (reloadItem (spiBus slavesOf rest) c s).1 := by
  have hread : ∀ {t : DmaState (SpiWorld τ ν)} {a : Word} {change : Pl080Chan → Pl080Chan},
      PortsKept s t → PortsKept s (editChan ((spiBus slavesOf rest).read32 t a).2 c change) := by
    intro t a change ht
    have hload := fun i ↦ @load_noFuller _ _ slavesOf _ _ _ hrest (ht.bounded i) a 4
    exact ht.trans ⟨fun i ↦ (hload i).txDrops, fun i ↦ (hload i).bounded⟩
  rw [reloadItem]
  exact hread (hread (hread (hread ⟨fun _ ↦ rfl, hbounded⟩)))

omit hselect in
theorem finishItem_ports (hbounded : ∀ i, SpiBounded (s.2.ports i)) :
    PortsKept s (finishItem (spiBus slavesOf rest) c s).2.1 := by
  rw [finishItem]
  split
  · exact ⟨fun _ ↦ rfl, hbounded⟩
  · have hreload := @reloadItem_ports _ _ slavesOf _ ((countItem c s.1, s.2)) c hrest hbounded
    exact ⟨hreload.txDrops, hreload.bounded⟩

theorem runItem_drops (r : ρ) (hbounded : ∀ i, SpiBounded (s.2.ports i))
    (hfit : DrainsFit slavesOf rest (runItem (spiBus slavesOf rest) (some dmaDstReady) c s r)) :
    DmaKeepsPorts (spiBus slavesOf rest) s
      (runItem (spiBus slavesOf rest) (some dmaDstReady) c s r) := by
  by_cases h : ItemAccepted (s.1.ch c)
  · have hshape := dmaShape_legal h.widths
    have hloop := @transferLoop_drops _ _ _ _ rest s c _ hrest hselect hshape (remaining c s.1)
      r 0 0 (by decide) ⟨hshape.dwidth_pos.1, Nat.zero_mod _⟩ hbounded (absurd rfl)
    rw [runItem_accepted h] at hfit ⊢
    dsimp only at hfit ⊢
    by_cases hstalled : (transferLoop (spiBus slavesOf rest) (some dmaDstReady) c
        (dmaShape (s.1.ch c).ctrl) (remaining c s.1) s r 0 0).stalled = true
    · rw [if_pos hstalled] at hfit ⊢
      exact hloop hfit
    · rw [if_neg hstalled] at hfit ⊢
      have hkept := hloop ⟨fun a ha ↦ hfit.quiet a (mem_append_left _ ha), hfit.fits⟩
      exact ⟨hkept.ended.trans (finishItem_ports hrest hkept.ended.bounded), hkept.drains⟩
  · obtain ⟨count, hcount, hs⟩ := @runItem_refused _ ρ (spiBus slavesOf rest) _ _ h
    rw [hs]
    rcases hcount with rfl | rfl
    · exact .nothing hbounded rfl rfl
    · exact .nothing hbounded rfl rfl

omit hrest hselect in
/-- Two parts of a run, one after the other. -/
theorem DmaKeepsPorts.append {bus : Arm.Bus (DmaState (SpiWorld τ ν))}
    {first second run : DmaRun ρ (SpiWorld τ ν)} (h : DmaKeepsPorts bus s first)
    (h' : DmaKeepsPorts bus first.state second) (hstate : run.state = second.state)
    (hdrains : run.drains = first.drains ++ second.drains) : DmaKeepsPorts bus s run := by
  refine ⟨hstate ▸ h.ended.trans h'.ended, fun u hu turns hturns ↦ ?_⟩
  rw [hdrains] at hu
  rcases mem_append.1 hu with hfirst | hsecond
  · exact h.drains u hfirst turns hturns
  · exact h.ended.trans (h'.drains u hsecond turns hturns)

theorem itemLoop_drops (left : ℕ) (r : ρ) (hbounded : ∀ i, SpiBounded (s.2.ports i))
    (hfit : DrainsFit slavesOf rest
      (itemLoop (spiBus slavesOf rest) (some dmaDstReady) c left s r)) :
    DmaKeepsPorts (spiBus slavesOf rest) s
      (itemLoop (spiBus slavesOf rest) (some dmaDstReady) c left s r) := by
  induction left generalizing s r with
  | zero => exact .nothing hbounded rfl rfl
  | succ left ih =>
    by_cases hmore : (runItem (spiBus slavesOf rest) (some dmaDstReady) c s r).more = true
    · rw [itemLoop_next hmore] at hfit ⊢
      obtain ⟨hfirst, hlater⟩ := hfit.split rfl rfl
      have hitem := runItem_drops hrest hselect r hbounded hfirst
      exact hitem.append (ih _ hitem.ended.bounded hlater) rfl rfl
    · rw [itemLoop_last (Bool.eq_false_iff.2 hmore)] at hfit ⊢
      exact runItem_drops hrest hselect r hbounded hfit

theorem serveChannel_drops (r : ρ) (hbounded : ∀ i, SpiBounded (s.2.ports i))
    (hfit : DrainsFit slavesOf rest
      (serveChannel (spiBus slavesOf rest) (some dmaDstReady) c s r)) :
    DmaKeepsPorts (spiBus slavesOf rest) s
      (serveChannel (spiBus slavesOf rest) (some dmaDstReady) c s r) := by
  rw [serveChannel] at hfit ⊢
  by_cases hon : s.1.Runnable c
  · rw [if_pos hon] at hfit ⊢
    exact itemLoop_drops hrest hselect _ r hbounded hfit
  · rw [if_neg hon]
    exact .nothing hbounded rfl rfl

theorem channelLoop_drops (channels : List (Fin pl080Channels)) (r : ρ)
    (hbounded : ∀ i, SpiBounded (s.2.ports i)) (hfit : DrainsFit slavesOf rest
      (channelLoop (spiBus slavesOf rest) (some dmaDstReady) channels s r)) :
    DmaKeepsPorts (spiBus slavesOf rest) s
      (channelLoop (spiBus slavesOf rest) (some dmaDstReady) channels s r) := by
  induction channels generalizing s r with
  | nil => exact .nothing hbounded rfl rfl
  | cons c channels ih =>
    rw [channelLoop] at hfit ⊢
    obtain ⟨hfirst, hlater⟩ := hfit.split rfl rfl
    have hserved := serveChannel_drops hrest hselect r hbounded hfirst
    exact hserved.append (ih _ hserved.ended.bounded hlater) rfl rfl

end Drops

/-- A call of the controller with the request lines of the machine, whose drains all fit, drops
nothing: after each of its stores, and at its end, each port has counted the drops it had counted
before. -/
theorem s5lPl080Run_drops (slavesOf : Fin 2 → SpiSlaves τ)
    (rest : Arm.Bus (DmaState (SpiWorld τ ν))) (s : DmaState (SpiWorld τ ν)) (r : ρ)
    (hrest : SpiSparing rest) (hselect : ∀ i, SpiKeepsSelect (slavesOf i))
    (hbounded : ∀ i, SpiBounded (s.2.ports i))
    (hquiet : ∀ a ∈ (s5lPl080Run (spiBus slavesOf rest) (some dmaDstReady) s r).accesses,
      DmaQuiet (spiBus slavesOf rest) a.addr)
    (hfits : ∀ u ∈ (s5lPl080Run (spiBus slavesOf rest) (some dmaDstReady) s r).drains, ∀ i,
      DrainFits slavesOf u i) (i : Fin 2) :
    let run := s5lPl080Run (spiBus slavesOf rest) (some dmaDstReady) s r
    (run.state.2.ports i).txDrops = (s.2.ports i).txDrops ∧ ∀ u ∈ run.drains, ∀ turns ≤ u.pendBytes,
        ((u.run (spiBus slavesOf rest) turns).state.2.ports i).txDrops = (s.2.ports i).txDrops := by
  have hkept : DmaKeepsPorts (spiBus slavesOf rest) s
      (s5lPl080Run (spiBus slavesOf rest) (some dmaDstReady) s r) := by
    have hfit : DrainsFit slavesOf rest (s5lPl080Run (spiBus slavesOf rest) (some dmaDstReady) s r) :=
      ⟨hquiet, hfits⟩
    rw [s5lPl080Run] at hfit ⊢
    by_cases hoff : s.1.config &&& pl080ConfigEn = 0
    · rw [if_pos hoff]
      exact .nothing hbounded rfl rfl
    · rw [if_neg hoff] at hfit ⊢
      exact channelLoop_drops hrest hselect _ r hbounded hfit
  exact ⟨hkept.ended.txDrops i, fun u hu turns hturns ↦ (hkept.drains u hu turns hturns).txDrops i⟩

/-- A machine with nothing but the ports. -/
def idleBus : Arm.Bus (DmaState (SpiWorld Unit Unit)) where
  read32 s _ := (0, s)
  read16 s _ := (0, s)
  read8 s _ := (0, s)
  write32 s _ _ := s
  write16 s _ _ := s
  write8 s _ _ := s
  hostRam := none
  hostRamWrite := none
  hostLoad _ _ := 0
  hostStore s _ _ := s
  waitForInterrupt := none
  privilegedSvcHandler := none

theorem idleBus_sparing : SpiSparing idleBus := by
  refine ⟨fun s a width i ↦ ⟨(s.2.ports i).cs, ?_⟩, fun s a v width i ↦ ⟨(s.2.ports i).cs, ?_⟩⟩
  · unfold busLoad
    split <;> rfl
  · unfold busStore
    split <;> rfl

theorem nullSlaves_keeps : SpiKeepsSelect nullSlaves := by
  intro select transfer h bus w o
  unfold nullSlaves at h
  split at h
  · cases h
    rfl
  · exact absurd h.symm (Option.some_ne_none _)

theorem idleBus_quiet (a : Word) : DmaQuiet (spiBus (fun _ ↦ nullSlaves) idleBus) a := by
  refine ⟨fun s width ↦ ?_, fun s v width ↦ ?_⟩
  · unfold busLoad spiBus
    dsimp only
    split <;> split <;> exact ⟨rfl, rfl⟩
  · unfold busStore spiBus
    dsimp only
    split <;> split <;> exact ⟨rfl, rfl⟩

/-- The channel that feeds the second port: words from memory, octets to the transmit register. -/
def feeding (count : Word) : Pl080 :=
  { s5lPl080Reset with
    config := 1
    ch := fun i ↦
      if i = 5 then
        { src := 0x08000000, dst := 0x3ce00010, ctrl := 0x04089000 ||| count, cfg := 1 }
      else {} }

/-- The second port with its setup and the levels of its queues. -/
def feedWorld (setup : Word) (tx rx : ℕ) : SpiWorld Unit Unit where
  ports := fun i ↦
    if i = 1 then
      { s5lSpiReset with
        setup := setup
        tx := ⟨fun _ ↦ 0, tx⟩
        rx := ⟨fun _ ↦ 0, rx⟩ }
    else s5lSpiReset
  slaves := ()
  rest := ()

/-- With the port set up for DMA, three words leave it as twelve octets. -/
theorem s5lPl080Run_drops_none :
    let run := s5lPl080Run (spiBus (fun _ ↦ nullSlaves) idleBus) (some dmaDstReady)
      (feeding 3, feedWorld spiSetupDma 0 0) ()
    (run.state.2.ports 1).words = 12 ∧ (run.state.2.ports 1).txDrops = 0 := by
  refine ⟨by decide +kernel, ?_⟩
  refine (s5lPl080Run_drops (fun _ ↦ nullSlaves) idleBus
    (feeding 3, feedWorld spiSetupDma 0 0) () idleBus_sparing (fun _ ↦ nullSlaves_keeps)
    (fun i ↦ ?_) (fun a _ ↦ idleBus_quiet a.addr) (by decide +kernel) 1).1
  refine ⟨?_, ?_⟩ <;> revert i <;> decide +kernel

/-- With the answers of a programmed transfer still waiting, the request line is up for the three
places of the transmit queue, and the fourth octet of the word is dropped. -/
theorem s5lPl080Run_drops_octet :
    let s := (feeding 1, feedWorld 0 5 8)
    let run := s5lPl080Run (spiBus (fun _ ↦ nullSlaves) idleBus) (some dmaDstReady) s ()
    (s.2.ports 1).txDrops = 0 ∧ (run.state.2.ports 1).txDrops = 1 ∧
      (dmaStored run.accesses).length = 4 ∧ (run.state.2.ports 1).tx.level = 8 := by
  decide +kernel

end S5LBox.Soc
