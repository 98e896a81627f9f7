import S5LBox.Soc.Pl080

/-!
# A channel that is refused and resumed

The loop of an item asks the peripheral only where nothing is staged, so that a refusal leaves the
channel registers at a boundary between source transfers, from which a later call goes on. The
loop is first put as a number of source transfers; a refusal then only cuts that number in two.
-/

namespace S5LBox.Soc

open List Nat
open BitVec (and_zero ofNat ofNat_add toNat_and toNat_ofNat toNat_or toNat_setWidth)
open Function (update update_of_ne update_self)

variable {μ ρ : Type} {bus : Arm.Bus (DmaState μ)} {c : Fin pl080Channels} {shape : DmaShape}

/-- An access at the address leaves the channels and the enable of the controller as they are. -/
structure DmaQuiet (bus : Arm.Bus (DmaState μ)) (a : Word) : Prop where
  load : ∀ s width, (busLoad bus s a width).2.1.ch = s.1.ch ∧
    (busLoad bus s a width).2.1.config = s.1.config
  store : ∀ s v width, (busStore bus s a v width).1.ch = s.1.ch ∧
    (busStore bus s a v width).1.config = s.1.config

/-- What a transfer of channel `c` leaves alone: the other channels, and of its own all that tells
how the rest of the item goes. -/
structure DmaKept (c : Fin pl080Channels) (d d' : Pl080) : Prop where
  others : ∀ i, i ≠ c → d'.ch i = d.ch i
  config : d'.config = d.config
  cfg : (d'.ch c).cfg = (d.ch c).cfg
  lli : (d'.ch c).lli = (d.ch c).lli
  shape : (d'.ch c).ctrl &&& ~~~pl080CtrlSizeMask = (d.ch c).ctrl &&& ~~~pl080CtrlSizeMask

theorem DmaKept.refl (d : Pl080) : DmaKept c d d := ⟨fun _ _ ↦ rfl, rfl, rfl, rfl, rfl⟩

variable {d d' : Pl080} {ctrl ctrl' : Word} {n pendBytes : ℕ} {s : DmaState μ} {pend : DWord}
  {ready : Option (Pl080Ready ρ μ)} {r : ρ}

theorem DmaKept.trans {d'' : Pl080} (h : DmaKept c d d') (h' : DmaKept c d' d'') :
    DmaKept c d d'' where
  others i hi := (h'.others i hi).trans (h.others i hi)
  config := h'.config.trans h.config
  cfg := h'.cfg.trans h.cfg
  lli := h'.lli.trans h.lli
  shape := h'.shape.trans h.shape

@[simp] theorem editChan_self (s : DmaState μ) (change : Pl080Chan → Pl080Chan) :
    (editChan s c change).1.ch c = change (s.1.ch c) := update_self ..

theorem editChan_other (s : DmaState μ) (change : Pl080Chan → Pl080Chan) {i : Fin pl080Channels}
    (hi : i ≠ c) : (editChan s c change).1.ch i = s.1.ch i := update_of_ne hi ..

/-- The widths the engine takes. -/
structure DmaShape.Legal (shape : DmaShape) : Prop where
  swidth : shape.swidth = 1 ∨ shape.swidth = 2 ∨ shape.swidth = 4
  dwidth : shape.dwidth = 1 ∨ shape.dwidth = 2 ∨ shape.dwidth = 4

theorem DmaShape.Legal.swidth_pos (h : shape.Legal) : 0 < shape.swidth ∧ shape.swidth ≤ 4 := by
  rcases h.swidth with h | h | h <;> omega

theorem DmaShape.Legal.dwidth_pos (h : shape.Legal) : 0 < shape.dwidth ∧ shape.dwidth ≤ 4 := by
  rcases h.dwidth with h | h | h <;> omega

private theorem shiftedWidth_legal {w : Word} (h : ¬2 < w) :
    1 <<< w.toNat = 1 ∨ 1 <<< w.toNat = 2 ∨ 1 <<< w.toNat = 4 := by
  have hw : w.toNat ≤ 2 := by
    by_contra hlt
    exact h (BitVec.lt_def.2 (by simpa using hlt))
  interval_cases w.toNat <;> decide

theorem dmaShape_legal (h : ¬(2 < ctrl >>> pl080CtrlSwidthShift &&& pl080CtrlWidthMask ∨
      2 < ctrl >>> pl080CtrlDwidthShift &&& pl080CtrlWidthMask)) : (dmaShape ctrl).Legal where
  swidth := shiftedWidth_legal fun hs ↦ h (.inl hs)
  dwidth := shiftedWidth_legal fun hd ↦ h (.inr hd)

theorem field_above_size (ctrl mask : Word) (shift : ℕ)
    (h : ~~~pl080CtrlSizeMask >>> shift &&& mask = mask) :
    (ctrl &&& ~~~pl080CtrlSizeMask) >>> shift &&& mask = ctrl >>> shift &&& mask := by
  rw [BitVec.ushiftRight_and_distrib, BitVec.and_assoc, h]

theorem field_congr (mask : Word) (shift : ℕ)
    (hmask : ~~~pl080CtrlSizeMask >>> shift &&& mask = mask)
    (h : ctrl' &&& ~~~pl080CtrlSizeMask = ctrl &&& ~~~pl080CtrlSizeMask) :
    ctrl' >>> shift &&& mask = ctrl >>> shift &&& mask := by
  rw [← field_above_size ctrl' mask shift hmask, h, field_above_size ctrl mask shift hmask]

section

variable (h : ctrl' &&& ~~~pl080CtrlSizeMask = ctrl &&& ~~~pl080CtrlSizeMask)

include h

theorem swidthField_congr : ctrl' >>> pl080CtrlSwidthShift &&& pl080CtrlWidthMask =
      ctrl >>> pl080CtrlSwidthShift &&& pl080CtrlWidthMask :=
  field_congr _ _ (by decide) h

theorem dwidthField_congr : ctrl' >>> pl080CtrlDwidthShift &&& pl080CtrlWidthMask =
      ctrl >>> pl080CtrlDwidthShift &&& pl080CtrlWidthMask :=
  field_congr _ _ (by decide) h

theorem dmaShape_congr : dmaShape ctrl' = dmaShape ctrl := by
  have hsi := field_congr pl080CtrlSi 0 (by decide) h
  have hdi := field_congr pl080CtrlDi 0 (by decide) h
  simp only [BitVec.ushiftRight_zero] at hsi hdi
  unfold dmaShape
  rw [swidthField_congr h, dwidthField_congr h, hsi, hdi]

end

theorem count_masked (hn : n < 4096) : ofNat 32 n &&& pl080CtrlSizeMask = ofNat 32 n := by
  apply BitVec.eq_of_toNat_eq
  have hmask : pl080CtrlSizeMask.toNat = 2 ^ 12 - 1 := by decide
  rw [toNat_and, hmask, toNat_ofNat, mod_eq_of_lt (by omega)]
  exact and_two_pow_sub_one_of_lt_two_pow (by omega)

theorem sizeWritten_shape (ctrl : Word) (hn : n < 4096) :
    ((ctrl &&& ~~~pl080CtrlSizeMask) ||| ofNat 32 n) &&& ~~~pl080CtrlSizeMask =
      ctrl &&& ~~~pl080CtrlSizeMask := by
  have hupper : ofNat 32 n &&& ~~~pl080CtrlSizeMask = 0#32 := by
    rw [← count_masked hn, BitVec.and_assoc, BitVec.and_not_self]
    exact and_zero
  rw [BitVec.and_or_distrib_right, hupper, BitVec.or_zero, BitVec.and_assoc, BitVec.and_self]

theorem sizeWritten_count (ctrl : Word) (hn : n < 4096) :
    (((ctrl &&& ~~~pl080CtrlSizeMask) ||| ofNat 32 n) &&& pl080CtrlSizeMask).toNat = n := by
  have hlower : ctrl &&& ~~~pl080CtrlSizeMask &&& pl080CtrlSizeMask = 0#32 := by
    rw [BitVec.and_assoc, BitVec.and_comm (~~~pl080CtrlSizeMask), BitVec.and_not_self]
    exact and_zero
  rw [BitVec.and_or_distrib_right, hlower, BitVec.zero_or, count_masked hn, toNat_ofNat,
    mod_eq_of_lt (by omega)]

theorem drainLoop_staged (hshape : shape.Legal) (turns : ℕ) (s : DmaState μ) (pend : DWord)
    (hturns : pendBytes ≤ turns) (hpend : pend.toNat < 2 ^ (8 * pendBytes)) :
    (drainLoop bus c shape turns s pend pendBytes).pendBytes = pendBytes % shape.dwidth ∧
      (drainLoop bus c shape turns s pend pendBytes).pend.toNat <
        2 ^ (8 * (pendBytes % shape.dwidth)) := by
  induction turns generalizing s pend pendBytes with
  | zero =>
    obtain rfl : pendBytes = 0 := by omega
    rw [zero_mod]
    exact ⟨rfl, hpend⟩
  | succ turns ih =>
    have hpos := hshape.dwidth_pos
    rw [drainLoop]
    split
    · next hfull =>
      have hshift : (pend >>> (8 * shape.dwidth)).toNat < 2 ^ (8 * (pendBytes - shape.dwidth)) := by
        rw [BitVec.toNat_ushiftRight, shiftRight_eq_div_pow,
          Nat.div_lt_iff_lt_mul (by positivity), ← pow_add]
        exact lt_of_lt_of_eq hpend (by congr 1; omega)
      rw [mod_eq_sub_mod hfull]
      exact ih (storeUnit bus c shape s pend) (pend >>> (8 * shape.dwidth)) (by omega) hshift
    · next hshort =>
      rw [mod_eq_of_lt (by omega)]
      exact ⟨rfl, hpend⟩

theorem busLoad_lt (hshape : shape.Legal) (s : DmaState μ) (a : Word) :
    (busLoad bus s a shape.swidth).1.toNat < 2 ^ (8 * shape.swidth) := by
  rcases hshape.swidth with h | h | h <;> rw [h]
  · rw [busLoad, toNat_setWidth]
    exact (mod_le ..).trans_lt (bus.read8 s a).1.isLt
  · rw [busLoad, toNat_setWidth]
    exact (mod_le ..).trans_lt (bus.read16 s a).1.isLt
  · exact (bus.read32 s a).1.isLt

theorem moveUnit_staged (hshape : shape.Legal) (n : ℕ) (s : DmaState μ) {pend : DWord}
    {pendBytes : ℕ} (hpend : pend.toNat < 2 ^ (8 * pendBytes)) :
    (moveUnit bus c shape n s pend pendBytes).pendBytes =
        (pendBytes + shape.swidth) % shape.dwidth ∧
      (moveUnit bus c shape n s pend pendBytes).pend.toNat <
        2 ^ (8 * ((pendBytes + shape.swidth) % shape.dwidth)) := by
  refine drainLoop_staged hshape _ _ _ (Nat.le_refl _) ?_
  have hload := @busLoad_lt _ bus _ hshape s (s.1.ch c).src
  change (pend ||| (busLoad bus s (s.1.ch c).src shape.swidth).1.setWidth 64 <<<
    (8 * pendBytes)).toNat < 2 ^ (8 * (pendBytes + shape.swidth))
  rw [toNat_or]
  refine or_lt_two_pow (hpend.trans_le (Nat.pow_le_pow_right (by omega) (by omega))) ?_
  rw [BitVec.toNat_shiftLeft, shiftLeft_eq]
  refine (mod_le _ _).trans_lt ?_
  rw [toNat_setWidth, Nat.mul_add, pow_add, Nat.mul_comm]
  exact Nat.mul_lt_mul_of_pos_left ((mod_le _ _).trans_lt hload) (by positivity)

@[simp] theorem dmaLoaded_append (accesses accesses' : List DmaAccess) :
    dmaLoaded (accesses ++ accesses') = dmaLoaded accesses ++ dmaLoaded accesses' :=
  flatMap_append

@[simp] theorem dmaStored_append (accesses accesses' : List DmaAccess) :
    dmaStored (accesses ++ accesses') = dmaStored accesses ++ dmaStored accesses' :=
  flatMap_append

private theorem two_pow_eight (n : ℕ) : 2 ^ (8 * n) = 256 ^ n := pow_mul 2 8 n

theorem stagedWord_octets (hshape : shape.Legal) (pend : DWord) :
    LittleEndian.put shape.dwidth (stagedWord shape pend).toNat =
      LittleEndian.put shape.dwidth pend.toNat := by
  apply LittleEndian.put_congr
  have hmask : ((1 : DWord) <<< (8 * shape.dwidth) - 1).toNat = 2 ^ (8 * shape.dwidth) - 1 := by
    rcases hshape.dwidth with h | h | h <;> rw [h] <;> decide
  have hlt : pend.toNat % 256 ^ shape.dwidth < 2 ^ 32 :=
    (mod_lt _ (by positivity)).trans_le
      ((Nat.pow_le_pow_right (by decide) hshape.dwidth_pos.2).trans (by decide))
  rw [stagedWord, toNat_setWidth, toNat_and, hmask,
    and_two_pow_sub_one_eq_mod, two_pow_eight, mod_eq_of_lt hlt, mod_mod]

/-- The octets that are staged are stored, and what is left of them stays staged. -/
theorem drainLoop_octets (hshape : shape.Legal) (turns : ℕ) (s : DmaState μ) (pend : DWord)
    (pendBytes : ℕ) :
    let drained := drainLoop bus c shape turns s pend pendBytes
    dmaStored drained.accesses ++ LittleEndian.put drained.pendBytes drained.pend.toNat =
        LittleEndian.put pendBytes pend.toNat ∧ dmaLoaded drained.accesses = [] := by
  induction turns generalizing s pend pendBytes with
  | zero => exact ⟨rfl, rfl⟩
  | succ turns ih =>
    rw [drainLoop]
    split
    · next hfull =>
      obtain ⟨hstored, hloaded⟩ := ih (storeUnit bus c shape s pend) (pend >>> (8 * shape.dwidth))
        (pendBytes - shape.dwidth)
      refine ⟨?_, hloaded⟩
      change LittleEndian.put shape.dwidth (stagedWord shape pend).toNat ++ dmaStored _ ++ _ = _
      obtain ⟨left, rfl⟩ := Nat.exists_eq_add_of_le hfull
      rw [append_assoc, hstored, stagedWord_octets hshape, BitVec.toNat_ushiftRight,
        shiftRight_eq_div_pow, two_pow_eight, Nat.add_sub_cancel_left, LittleEndian.put_add]
    · exact ⟨rfl, rfl⟩

theorem moveUnit_octets (hshape : shape.Legal) (n : ℕ) (s : DmaState μ) {pend : DWord}
    {pendBytes : ℕ} (hpend : pend.toNat < 2 ^ (8 * pendBytes)) (hbytes : pendBytes < shape.dwidth) :
    let unit := moveUnit bus c shape n s pend pendBytes
    dmaStored unit.accesses ++ LittleEndian.put unit.pendBytes unit.pend.toNat =
        LittleEndian.put pendBytes pend.toNat ++ dmaLoaded unit.accesses ∧
      (dmaLoaded unit.accesses).length = shape.swidth := by
  obtain ⟨hstored, hloaded⟩ := @drainLoop_octets _ bus c _ hshape (pendBytes + shape.swidth)
    (loadUnit bus c shape n s) (pend |||
      (busLoad bus s (s.1.ch c).src shape.swidth).1.setWidth 64 <<< (8 * pendBytes))
    (pendBytes + shape.swidth)
  set value := busLoad bus s (s.1.ch c).src shape.swidth
  have hs := hshape.swidth_pos
  have hd := hshape.dwidth_pos
  have hload := @busLoad_lt _ bus _ hshape s (s.1.ch c).src
  have hunit : dmaLoaded (moveUnit bus c shape n s pend pendBytes).accesses =
      LittleEndian.put shape.swidth value.1.toNat := by
    exact (congrArg (LittleEndian.put shape.swidth _ ++ ·) hloaded).trans (append_nil _)
  have hvalue : (pend ||| value.1.setWidth 64 <<< (8 * pendBytes)).toNat =
        pend.toNat + value.1.toNat * 256 ^ pendBytes := by
    have hfits : value.1.toNat * 2 ^ (8 * pendBytes) < 2 ^ 64 := by
      calc value.1.toNat * 2 ^ (8 * pendBytes)
          < 2 ^ (8 * shape.swidth) * 2 ^ (8 * pendBytes) :=
            Nat.mul_lt_mul_of_pos_right hload (by positivity)
        _ = 2 ^ (8 * shape.swidth + 8 * pendBytes) := (pow_add ..).symm
        _ ≤ 2 ^ 64 := Nat.pow_le_pow_right (by decide) (by omega)
    rw [toNat_or, BitVec.toNat_shiftLeft,
      BitVec.toNat_setWidth_of_le (by decide), shiftLeft_eq, mod_eq_of_lt hfits,
      ← shiftLeft_eq, Nat.or_comm, ← shiftLeft_add_eq_or_of_lt hpend, shiftLeft_eq,
      two_pow_eight, Nat.add_comm]
  dsimp only
  rw [hunit, LittleEndian.length_put]
  refine ⟨hstored.trans ?_, rfl⟩
  rw [hvalue, LittleEndian.put_push _ _ (by rw [← two_pow_eight]; exact hpend)]

/-- The count as the control word of the channel has it. -/
def remaining (c : Fin pl080Channels) (d : Pl080) : ℕ := ((d.ch c).ctrl &&& pl080CtrlSizeMask).toNat

/-- The registers of a channel after a store. -/
def stored (shape : DmaShape) (ch : Pl080Chan) : Pl080Chan :=
  { ch with
    dst := if shape.di then ch.dst + ofNat 32 shape.dwidth else ch.dst
    bytes := ch.bytes + ofNat 64 shape.dwidth }

/-- The registers of a channel after a load that leaves `n`. -/
def loaded (shape : DmaShape) (n : ℕ) (ch : Pl080Chan) : Pl080Chan :=
  { ch with
    src := if shape.si then ch.src + ofNat 32 shape.swidth else ch.src
    ctrl := (ch.ctrl &&& ~~~pl080CtrlSizeMask) ||| ofNat 32 n }

theorem storeUnit_ch (hquiet : DmaQuiet bus (s.1.ch c).dst) : (storeUnit bus c shape s pend).1.ch =
      update s.1.ch c (stored shape (s.1.ch c)) := by
  rw [← (hquiet.store s (stagedWord shape pend) shape.dwidth).1]
  rfl

theorem loadUnit_ch (hquiet : DmaQuiet bus (s.1.ch c).src) : (loadUnit bus c shape n s).1.ch =
      update s.1.ch c (loaded shape n (s.1.ch c)) := by
  rw [← (hquiet.load s shape.swidth).1]
  rfl

theorem storeUnit_kept {s : DmaState μ} {pend : DWord} (hquiet : DmaQuiet bus (s.1.ch c).dst) :
    DmaKept c s.1 (storeUnit bus c shape s pend).1 ∧
      remaining c (storeUnit bus c shape s pend).1 = remaining c s.1 ∧
      ((storeUnit bus c shape s pend).1.ch c).bytes = (s.1.ch c).bytes + ofNat 64 shape.dwidth := by
  have hself : (storeUnit bus c shape s pend).1.ch c = stored shape (s.1.ch c) := by
    rw [storeUnit_ch hquiet, update_self]
  refine ⟨⟨fun i hi ↦ ?_, (hquiet.store s _ shape.dwidth).2, ?_, ?_, ?_⟩, ?_, ?_⟩
  · rw [storeUnit_ch hquiet, update_of_ne hi]
  · rw [hself, stored]
  · rw [hself, stored]
  · rw [hself, stored]
  · rw [remaining, hself, stored, remaining]
  · rw [hself, stored]

theorem loadUnit_kept {s : DmaState μ} {n : ℕ} (hn : n < 4096)
    (hquiet : DmaQuiet bus (s.1.ch c).src) :
    DmaKept c s.1 (loadUnit bus c shape n s).1 ∧ remaining c (loadUnit bus c shape n s).1 = n ∧
      ((loadUnit bus c shape n s).1.ch c).bytes = (s.1.ch c).bytes := by
  have hself : (loadUnit bus c shape n s).1.ch c = loaded shape n (s.1.ch c) := by
    rw [loadUnit_ch hquiet, update_self]
  refine ⟨⟨fun i hi ↦ ?_, (hquiet.load s shape.swidth).2, ?_, ?_, ?_⟩, ?_, ?_⟩
  · rw [loadUnit_ch hquiet, update_of_ne hi]
  · rw [hself, loaded]
  · rw [hself, loaded]
  · rw [hself, loaded]
    exact sizeWritten_shape _ hn
  · rw [remaining, hself, loaded]
    exact sizeWritten_count _ hn
  · rw [hself, loaded]

theorem drainLoop_kept (turns : ℕ)
    (hquiet : ∀ a ∈ (drainLoop bus c shape turns s pend pendBytes).accesses, DmaQuiet bus a.addr) :
    let drained := drainLoop bus c shape turns s pend pendBytes
    DmaKept c s.1 drained.state.1 ∧ remaining c drained.state.1 = remaining c s.1 ∧
      (drained.state.1.ch c).bytes + ofNat 64 drained.pendBytes =
        (s.1.ch c).bytes + ofNat 64 pendBytes := by
  induction turns generalizing s pend pendBytes with
  | zero => exact ⟨.refl _, rfl, rfl⟩
  | succ turns ih =>
    by_cases hfull : shape.dwidth ≤ pendBytes
    · rw [drainLoop, if_pos hfull] at hquiet ⊢
      obtain ⟨hkept, hcount, hbytes⟩ := @storeUnit_kept _ _ _ shape _ pend
        (hquiet _ (mem_cons_self ..))
      obtain ⟨hkept', hcount', hbytes'⟩ := ih fun a ha ↦ hquiet a (mem_cons_of_mem _ ha)
      refine ⟨hkept.trans hkept', hcount'.trans hcount, hbytes'.trans ?_⟩
      rw [hbytes, BitVec.add_assoc, ← ofNat_add, Nat.add_sub_cancel' hfull]
    · rw [drainLoop, if_neg hfull]
      exact ⟨.refl _, rfl, rfl⟩

theorem moveUnit_kept (hn : n < 4096)
    (hquiet : ∀ a ∈ (moveUnit bus c shape n s pend pendBytes).accesses, DmaQuiet bus a.addr) :
    let unit := moveUnit bus c shape n s pend pendBytes
    DmaKept c s.1 unit.state.1 ∧ remaining c unit.state.1 = n ∧
      (unit.state.1.ch c).bytes + ofNat 64 unit.pendBytes =
        (s.1.ch c).bytes + ofNat 64 (pendBytes + shape.swidth) := by
  obtain ⟨hkept, hcount, hbytes⟩ := @loadUnit_kept _ _ _ shape _ _ hn
    (hquiet _ (mem_cons_self ..))
  obtain ⟨hkept', hcount', hbytes'⟩ := drainLoop_kept (pendBytes + shape.swidth)
    fun a ha ↦ hquiet a (mem_cons_of_mem _ ha)
  exact ⟨hkept.trans hkept', hcount'.trans hcount, hbytes'.trans (congrArg (· + _) hbytes)⟩

/-- The first `k` source transfers of an item that has `n` left. -/
def moveUnits (bus : Arm.Bus (DmaState μ)) (c : Fin pl080Channels) (shape : DmaShape) :
    ℕ → ℕ → DmaState μ → DWord → ℕ → Staged μ
  | _, 0, s, pend, pendBytes => ⟨s, pend, pendBytes, []⟩
  | n, k + 1, s, pend, pendBytes =>
    let unit := moveUnit bus c shape (n - 1) s pend pendBytes
    let rest := moveUnits bus c shape (n - 1) k unit.state unit.pend unit.pendBytes
    { rest with accesses := unit.accesses ++ rest.accesses }

theorem moveUnits_add (n k j : ℕ) (s : DmaState μ) (pend : DWord) (pendBytes : ℕ) :
    moveUnits bus c shape n (k + j) s pend pendBytes =
      let first := moveUnits bus c shape n k s pend pendBytes
      let rest := moveUnits bus c shape (n - k) j first.state first.pend first.pendBytes
      { rest with accesses := first.accesses ++ rest.accesses } := by
  induction k generalizing n s pend pendBytes with
  | zero => rw [Nat.zero_add]; rfl
  | succ k ih =>
    rw [succ_add, moveUnits, ih (n - 1), moveUnits, Nat.sub_sub, Nat.add_comm 1 k]
    dsimp only
    rw [append_assoc]

theorem moveUnits_staged (hshape : shape.Legal) (n k : ℕ) (s : DmaState μ) {pend : DWord}
    {pendBytes : ℕ} (hpend : pend.toNat < 2 ^ (8 * pendBytes)) (hbytes : pendBytes < shape.dwidth) :
    let moved := moveUnits bus c shape n k s pend pendBytes
    moved.pendBytes = (pendBytes + k * shape.swidth) % shape.dwidth ∧
      moved.pend.toNat < 2 ^ (8 * moved.pendBytes) := by
  induction k generalizing n s pend pendBytes with
  | zero =>
    rw [Nat.zero_mul, Nat.add_zero, mod_eq_of_lt hbytes]
    exact ⟨rfl, hpend⟩
  | succ k ih =>
    obtain ⟨hunit, hlt⟩ := @moveUnit_staged _ bus c _ hshape (n - 1) s _ _ hpend
    rw [← hunit] at hlt
    have hbytes' : (moveUnit bus c shape (n - 1) s pend pendBytes).pendBytes < shape.dwidth := by
      rw [hunit]
      exact mod_lt _ hshape.dwidth_pos.1
    obtain ⟨hrest, hlt'⟩ := ih (n - 1) (moveUnit bus c shape (n - 1) s pend pendBytes).state hlt
      hbytes'
    refine ⟨hrest.trans ?_, hlt'⟩
    rw [hunit, mod_add_mod, Nat.add_assoc, succ_mul, Nat.add_comm shape.swidth]

theorem moveUnits_octets (hshape : shape.Legal) (n k : ℕ) (s : DmaState μ) {pend : DWord}
    {pendBytes : ℕ} (hpend : pend.toNat < 2 ^ (8 * pendBytes)) (hbytes : pendBytes < shape.dwidth) :
    let moved := moveUnits bus c shape n k s pend pendBytes
    dmaStored moved.accesses ++ LittleEndian.put moved.pendBytes moved.pend.toNat =
        LittleEndian.put pendBytes pend.toNat ++ dmaLoaded moved.accesses ∧
      (dmaLoaded moved.accesses).length = k * shape.swidth := by
  induction k generalizing n s pend pendBytes with
  | zero => exact ⟨by rw [moveUnits]; exact (append_nil _).symm, by rw [Nat.zero_mul]; rfl⟩
  | succ k ih =>
    obtain ⟨hunit, hlt⟩ := @moveUnit_staged _ bus c _ hshape (n - 1) s _ _ hpend
    obtain ⟨hstored, hlength⟩ :=
      @moveUnit_octets _ bus c _ hshape (n - 1) s _ _ hpend hbytes
    rw [← hunit] at hlt
    obtain ⟨hstored', hlength'⟩ := ih (n - 1)
      (moveUnit bus c shape (n - 1) s pend pendBytes).state hlt
      (by rw [hunit]; exact mod_lt _ hshape.dwidth_pos.1)
    rw [moveUnits]
    dsimp only at hstored hlength hstored' hlength' ⊢
    rw [dmaStored_append, dmaLoaded_append, length_append, hlength, hlength',
      append_assoc, hstored', ← append_assoc, hstored, append_assoc, succ_mul,
      Nat.add_comm]
    exact ⟨rfl, rfl⟩

theorem moveUnits_kept {n k : ℕ} (hk : k ≤ n) (hn : n ≤ 4096) {s : DmaState μ} {pend : DWord}
    {pendBytes : ℕ} (hcount : remaining c s.1 = n)
    (hquiet : ∀ a ∈ (moveUnits bus c shape n k s pend pendBytes).accesses, DmaQuiet bus a.addr) :
    let moved := moveUnits bus c shape n k s pend pendBytes
    DmaKept c s.1 moved.state.1 ∧ remaining c moved.state.1 = n - k ∧
      (moved.state.1.ch c).bytes + ofNat 64 moved.pendBytes =
        (s.1.ch c).bytes + ofNat 64 (pendBytes + k * shape.swidth) := by
  induction k generalizing n s pend pendBytes with
  | zero => exact ⟨.refl _, hcount, by rw [Nat.zero_mul]; rfl⟩
  | succ k ih =>
    obtain ⟨hkept, hcount', hbytes⟩ := moveUnit_kept (n := n - 1) (by omega)
      fun a ha ↦ hquiet a (mem_append_left _ ha)
    obtain ⟨hkept', hcount'', hbytes'⟩ := ih (n := n - 1) (by omega) (by omega) hcount'
      fun a ha ↦ hquiet a (mem_append_right _ ha)
    refine ⟨hkept.trans hkept', hcount''.trans (by omega), hbytes'.trans ?_⟩
    rw [ofNat_add, ← BitVec.add_assoc, hbytes, BitVec.add_assoc, ← ofNat_add,
      succ_mul, Nat.add_assoc, Nat.add_comm shape.swidth]

theorem transferLoop_units (ready : Option (Pl080Ready ρ μ)) (n : ℕ) (s : DmaState μ) (r : ρ)
    (pend : DWord) (pendBytes : ℕ) : ∃ k ≤ n,
      let run := transferLoop bus ready c shape n s r pend pendBytes
      let moved := moveUnits bus c shape n k s pend pendBytes
      run.state = moved.state ∧ run.accesses = moved.accesses ∧ run.cut = false ∧
        (run.stalled = false → k = n) ∧
        (run.stalled = true → k < n ∧ moved.pendBytes = 0 ∧ run.more = false ∧ ready ≠ none) := by
  induction n generalizing s r pend pendBytes with
  | zero => exact ⟨0, le_rfl, rfl, rfl, rfl, fun _ ↦ rfl, fun h ↦ nomatch h⟩
  | succ n ih =>
    by_cases hanswer : (askReady ready r s (s.1.ch c).dst shape.dwidth pendBytes).1
    · obtain ⟨k, hk, hstate, haccesses, hcut, hdone, hstalled⟩ :=
        ih (moveUnit bus c shape n s pend pendBytes).state
          (askReady ready r s (s.1.ch c).dst shape.dwidth pendBytes).2
          (moveUnit bus c shape n s pend pendBytes).pend
          (moveUnit bus c shape n s pend pendBytes).pendBytes
      refine ⟨k + 1, by omega, ?_⟩
      rw [transferLoop, if_pos hanswer, moveUnits, Nat.add_sub_cancel]
      refine ⟨hstate, congrArg (_ ++ ·) haccesses, hcut, fun h ↦ congrArg _ (hdone h), fun h ↦ ?_⟩
      obtain ⟨hlt, hclean, hmore, hready⟩ := hstalled h
      exact ⟨by omega, hclean, hmore, hready⟩
    · refine ⟨0, Nat.zero_le _, ?_⟩
      rw [transferLoop, if_neg hanswer, moveUnits]
      refine ⟨rfl, rfl, rfl, fun h ↦ Bool.noConfusion h, fun _ ↦ ⟨succ_pos n, ?_, rfl, ?_⟩⟩
      · by_contra hstaged
        refine hanswer ?_
        cases ready with
        | none => rfl
        | some ask => rw [askReady, if_neg hstaged]
      · rintro rfl
        exact hanswer rfl

/-- The engine takes the item: what its guards ask. -/
structure ItemAccepted (ch : Pl080Chan) : Prop where
  widths : ¬(2 < ch.ctrl >>> pl080CtrlSwidthShift &&& pl080CtrlWidthMask ∨
    2 < ch.ctrl >>> pl080CtrlDwidthShift &&& pl080CtrlWidthMask)
  flow : ¬3 < (ch.cfg &&& pl080CfgFlowMask) >>> pl080CfgFlowShift
  whole : (ch.ctrl &&& pl080CtrlSizeMask).toNat * (dmaShape ch.ctrl).swidth %
    (dmaShape ch.ctrl).dwidth = 0

theorem remaining_le (d : Pl080) : remaining c d ≤ 4095 := by
  rw [remaining, toNat_and]
  exact and_le_right

/-- The guards do not ask the peripheral. -/
theorem runItem_refused {s : DmaState μ} (h : ¬ItemAccepted (s.1.ch c)) :
    ∃ count, (count = countRefusedWidth ∨ count = countRefusedFlow) ∧
      ∀ (ready : Option (Pl080Ready ρ μ)) (r : ρ),
        runItem bus ready c s r = ⟨false, false, false, refuseItem c s count, r, [], []⟩ := by
  by_cases hwidths : 2 < (s.1.ch c).ctrl >>> pl080CtrlSwidthShift &&& pl080CtrlWidthMask ∨
      2 < (s.1.ch c).ctrl >>> pl080CtrlDwidthShift &&& pl080CtrlWidthMask
  · refine ⟨_, .inl rfl, fun ready r ↦ ?_⟩
    rw [runItem, if_pos hwidths]
  · by_cases hflow : 3 < ((s.1.ch c).cfg &&& pl080CfgFlowMask) >>> pl080CfgFlowShift
    · refine ⟨_, .inr rfl, fun ready r ↦ ?_⟩
      rw [runItem, if_neg hwidths, if_pos hflow]
    · refine ⟨_, .inl rfl, fun ready r ↦ ?_⟩
      rw [runItem, if_neg hwidths, if_neg hflow, if_pos fun hwhole ↦ h ⟨hwidths, hflow, hwhole⟩]

theorem runItem_accepted (h : ItemAccepted (s.1.ch c)) (ready : Option (Pl080Ready ρ μ)) (r : ρ) :
    runItem bus ready c s r =
      let moved := transferLoop bus ready c (dmaShape (s.1.ch c).ctrl) (remaining c s.1) s r 0 0
      if moved.stalled then moved
      else
        { moved with
          more := (finishItem bus c moved.state).1
          state := (finishItem bus c moved.state).2.1
          accesses := moved.accesses ++ (finishItem bus c moved.state).2.2 } := by
  rw [runItem, if_neg h.widths, if_neg h.flow, if_neg (not_not.2 h.whole)]
  rfl

/-- All transfers of the item that the channel registers of `s` describe. -/
def wholeItem (bus : Arm.Bus (DmaState μ)) (c : Fin pl080Channels) (s : DmaState μ) : Staged μ :=
  moveUnits bus c (dmaShape (s.1.ch c).ctrl) (remaining c s.1) (remaining c s.1) s 0 0

theorem runItem_whole (h : ItemAccepted (s.1.ch c))
    (hrun : (runItem bus ready c s r).stalled = false) :
    (runItem bus ready c s r).more = (finishItem bus c (wholeItem bus c s).state).1 ∧
      (runItem bus ready c s r).state = (finishItem bus c (wholeItem bus c s).state).2.1 ∧
      (runItem bus ready c s r).accesses =
        (wholeItem bus c s).accesses ++ (finishItem bus c (wholeItem bus c s).state).2.2 := by
  obtain ⟨k, -, hstate, haccesses, -, hdone, -⟩ :=
    @transferLoop_units _ _ bus c (dmaShape (s.1.ch c).ctrl) ready (remaining c s.1) s r 0 0
  rw [runItem_accepted h] at hrun ⊢
  dsimp only at hrun ⊢
  by_cases hstalled : (transferLoop bus ready c (dmaShape (s.1.ch c).ctrl) (remaining c s.1) s r 0
      0).stalled = true
  · rw [if_pos hstalled, hstalled] at hrun
    exact absurd hrun (by decide)
  · rw [hdone (Bool.eq_false_iff.2 hstalled)] at hstate haccesses
    rw [if_neg hstalled, hstate, haccesses]
    exact ⟨rfl, rfl, rfl⟩

theorem runItem_never (s : DmaState μ) (r : ρ) : (runItem bus none c s r).stalled = false := by
  by_cases h : ItemAccepted (s.1.ch c)
  · obtain ⟨k, -, -, -, -, -, hstalled⟩ :=
      @transferLoop_units _ _ bus c (dmaShape (s.1.ch c).ctrl) none (remaining c s.1) s r 0 0
    have hnever := Bool.eq_false_iff.2 fun hs ↦ (hstalled hs).2.2.2 rfl
    rw [runItem_accepted h]
    dsimp only
    rw [if_neg (by rw [hnever]; decide), hnever]
  · obtain ⟨count, -, hs⟩ := @runItem_refused _ ρ bus _ _ h
    rw [hs]

/-- An item that is refused half way: what it has done, and what is left. -/
theorem runItem_stalled (hrun : (runItem bus ready c s r).stalled = true)
    (hquiet : ∀ a ∈ (wholeItem bus c s).accesses, DmaQuiet bus a.addr) :
    let run := runItem bus ready c s r
    ItemAccepted (s.1.ch c) ∧ ItemAccepted (run.state.1.ch c) ∧ run.more = false ∧
      run.cut = false ∧ DmaKept c s.1 run.state.1 ∧ remaining c run.state.1 ≤ remaining c s.1 ∧
      (dmaStored run.accesses).length =
        (remaining c s.1 - remaining c run.state.1) * (dmaShape (s.1.ch c).ctrl).swidth ∧
      (run.state.1.ch c).bytes = (s.1.ch c).bytes + ofNat 64 (dmaStored run.accesses).length ∧
      (wholeItem bus c run.state).state = (wholeItem bus c s).state ∧
      (wholeItem bus c s).accesses = run.accesses ++ (wholeItem bus c run.state).accesses := by
  by_cases h : ItemAccepted (s.1.ch c)
  swap
  · obtain ⟨count, -, hs⟩ := @runItem_refused _ ρ bus _ _ h
    rw [hs] at hrun
    exact absurd hrun Bool.false_ne_true
  have hshape := dmaShape_legal h.widths
  obtain ⟨k, -, hstate, haccesses, hcut, hdone, hstop⟩ :=
    @transferLoop_units _ _ bus c (dmaShape (s.1.ch c).ctrl) ready (remaining c s.1) s r 0 0
  rw [runItem_accepted h] at hrun ⊢
  dsimp only at hrun ⊢
  by_cases hstalled : (transferLoop bus ready c (dmaShape (s.1.ch c).ctrl) (remaining c s.1) s r 0
      0).stalled = true
  swap
  · rw [if_neg hstalled] at hrun
    exact absurd hrun hstalled
  obtain ⟨hk, hclean, hmore, -⟩ := hstop hstalled
  rw [if_pos hstalled, hmore, hcut, hstate, haccesses]
  obtain ⟨hbytes, hpend⟩ := @moveUnits_staged _ bus c _ hshape (remaining c s.1) k s 0 0 (by decide)
    hshape.dwidth_pos.1
  rw [hclean] at hbytes hpend
  have hzero : (moveUnits bus c (dmaShape (s.1.ch c).ctrl) (remaining c s.1) k s 0 0).pend = 0 :=
    BitVec.eq_of_toNat_eq (Nat.lt_one_iff.1 hpend)
  have hsplit := @moveUnits_add _ bus c (dmaShape (s.1.ch c).ctrl) (remaining c s.1) k
    (remaining c s.1 - k) s 0 0
  rw [Nat.add_sub_cancel' hk.le] at hsplit
  dsimp only at hsplit
  rw [hzero, hclean] at hsplit
  obtain ⟨hkept, hcount, hmoved⟩ := @moveUnits_kept _ _ _ _ _ _ hk.le
    ((remaining_le _).trans (by decide)) _ 0 0 rfl fun a ha ↦ hquiet a (by
      rw [wholeItem, hsplit]
      exact mem_append_left _ ha)
  have hlength : (dmaStored (moveUnits bus c (dmaShape (s.1.ch c).ctrl) (remaining c s.1) k s 0
      0).accesses).length = k * (dmaShape (s.1.ch c).ctrl).swidth := by
    obtain ⟨hoctets, hloaded⟩ := @moveUnits_octets _ bus c _ hshape (remaining c s.1) k s 0 0 (by
      decide) hshape.dwidth_pos.1
    rw [hclean] at hoctets
    rw [← hloaded]
    exact congrArg List.length ((append_nil _).symm.trans hoctets)
  have hshape' := dmaShape_congr hkept.shape
  have hwhole : remaining c s.1 * (dmaShape (s.1.ch c).ctrl).swidth %
      (dmaShape (s.1.ch c).ctrl).dwidth = 0 := h.whole
  rw [Nat.zero_add] at hbytes
  refine ⟨h, ⟨?_, ?_, ?_⟩, rfl, rfl, hkept, by rw [hcount]; omega, ?_, ?_, ?_, ?_⟩
  · rw [swidthField_congr hkept.shape, dwidthField_congr hkept.shape]
    exact h.widths
  · rw [hkept.cfg]
    exact h.flow
  · change remaining c _ * _ % _ = 0
    rw [hcount, hshape', Nat.sub_mul]
    exact mod_eq_zero_of_dvd (Nat.dvd_sub (dvd_of_mod_eq_zero hwhole)
      (dvd_of_mod_eq_zero hbytes.symm))
  · rw [hlength, hcount, Nat.sub_sub_self hk.le]
  · rw [hclean, Nat.zero_add] at hmoved
    rw [hlength, ← hmoved]
    exact (BitVec.add_zero _).symm
  · rw [wholeItem, hcount, hshape', wholeItem, hsplit]
  · rw [wholeItem, hsplit, wholeItem, hcount, hshape']

theorem reloadItem_octets (s : DmaState μ) :
    dmaStored (reloadItem bus c s).2 = [] ∧ dmaLoaded (reloadItem bus c s).2 = [] := ⟨rfl, rfl⟩

theorem finishItem_octets (s : DmaState μ) :
    dmaStored (finishItem bus c s).2.2 = [] ∧ dmaLoaded (finishItem bus c s).2.2 = [] := by
  rw [finishItem]
  split
  · exact ⟨rfl, rfl⟩
  · exact reloadItem_octets _

theorem transferLoop_octets {s : DmaState μ} (h : ItemAccepted (s.1.ch c))
    (ready : Option (Pl080Ready ρ μ)) (r : ρ) :
    let run := transferLoop bus ready c (dmaShape (s.1.ch c).ctrl) (remaining c s.1) s r 0 0
    dmaStored run.accesses = dmaLoaded run.accesses := by
  have hshape := dmaShape_legal h.widths
  obtain ⟨k, -, -, haccesses, -, hdone, hstop⟩ :=
    @transferLoop_units _ _ bus c (dmaShape (s.1.ch c).ctrl) ready (remaining c s.1) s r 0 0
  obtain ⟨hbytes, -⟩ := @moveUnits_staged _ bus c _ hshape (remaining c s.1) k s 0 0 (by decide)
    hshape.dwidth_pos.1
  obtain ⟨hoctets, -⟩ := @moveUnits_octets _ bus c _ hshape (remaining c s.1) k s 0 0 (by decide)
    hshape.dwidth_pos.1
  have hclean : (moveUnits bus c (dmaShape (s.1.ch c).ctrl) (remaining c s.1) k s 0 0).pendBytes =
      0 := by
    by_cases hstalled : (transferLoop bus ready c (dmaShape (s.1.ch c).ctrl) (remaining c s.1) s r
        0 0).stalled = true
    · exact (hstop hstalled).2.1
    · rw [hbytes, hdone (Bool.eq_false_iff.2 hstalled), Nat.zero_add]
      exact h.whole
  rw [hclean] at hoctets
  dsimp only
  rw [haccesses]
  exact (append_nil _).symm.trans hoctets

theorem runItem_octets (ready : Option (Pl080Ready ρ μ)) (s : DmaState μ) (r : ρ) :
    dmaStored (runItem bus ready c s r).accesses = dmaLoaded (runItem bus ready c s r).accesses := by
  by_cases h : ItemAccepted (s.1.ch c)
  · have hloop := @transferLoop_octets _ _ bus _ _ h ready r
    rw [runItem_accepted h]
    dsimp only at hloop ⊢
    split
    · exact hloop
    · rw [dmaStored_append, dmaLoaded_append, hloop, (finishItem_octets _).1,
        (finishItem_octets _).2]
  · obtain ⟨count, -, hs⟩ := @runItem_refused _ ρ bus _ _ h
    rw [hs]
    rfl

/-- A call of `run_item` against a call that is never refused: where it is not refused either they
do the same, and else what is left of the item is the rest of the accesses. -/
theorem runItem_resumes (ready : Option (Pl080Ready ρ μ)) (s : DmaState μ) (r r₀ : ρ)
    (hquiet : ∀ a ∈ (runItem bus none c s r₀).accesses, DmaQuiet bus a.addr) :
    let run := runItem bus ready c s r
    let whole := runItem bus none c s r₀
    (run.stalled = false →
      run.state = whole.state ∧ run.accesses = whole.accesses ∧ run.more = whole.more) ∧
    (run.stalled = true → run.more = false ∧ DmaKept c s.1 run.state.1 ∧
      ∀ r₁ : ρ, (runItem bus none c run.state r₁).more = whole.more ∧
        (runItem bus none c run.state r₁).state = whole.state ∧
        whole.accesses = run.accesses ++ (runItem bus none c run.state r₁).accesses) := by
  by_cases h : ItemAccepted (s.1.ch c)
  · obtain ⟨hmore, hstate, haccesses⟩ := runItem_whole h (@runItem_never _ _ bus c s r₀)
    have hquiet' : ∀ a ∈ (wholeItem bus c s).accesses, DmaQuiet bus a.addr := fun a ha ↦
      hquiet a (by rw [haccesses]; exact mem_append_left _ ha)
    dsimp only
    rw [hmore, hstate, haccesses]
    refine ⟨fun hdone ↦ ?_, fun hstalled ↦ ?_⟩
    · obtain ⟨hmore', hstate', haccesses'⟩ := runItem_whole h hdone
      exact ⟨hstate', haccesses', hmore'⟩
    · obtain ⟨-, haccepted, hnone, -, hkept, -, -, -, hrest, hsplit⟩ :=
        runItem_stalled hstalled hquiet'
      refine ⟨hnone, hkept, fun r₁ ↦ ?_⟩
      obtain ⟨hmore', hstate', haccesses'⟩ := runItem_whole haccepted
        (@runItem_never _ _ bus c (runItem bus ready c s r).state r₁)
      rw [hmore', hstate', haccesses', hrest, hsplit, append_assoc]
      exact ⟨rfl, rfl, rfl⟩
  · obtain ⟨count, -, hs⟩ := @runItem_refused _ ρ bus _ _ h
    dsimp only
    rw [hs, hs]
    exact ⟨fun _ ↦ ⟨rfl, rfl, rfl⟩, fun hstalled ↦ absurd hstalled Bool.false_ne_true⟩

/-- What the service of a channel leaves alone. -/
structure DmaOwn (c : Fin pl080Channels) (d d' : Pl080) : Prop where
  others : ∀ i, i ≠ c → d'.ch i = d.ch i
  config : d'.config = d.config

theorem DmaOwn.refl (d : Pl080) : DmaOwn c d d := ⟨fun _ _ ↦ rfl, rfl⟩

theorem DmaOwn.trans {d'' : Pl080} (h : DmaOwn c d d') (h' : DmaOwn c d' d'') : DmaOwn c d d'' where
  others i hi := (h'.others i hi).trans (h.others i hi)
  config := h'.config.trans h.config

theorem DmaKept.own (h : DmaKept c d d') : DmaOwn c d d' := ⟨h.others, h.config⟩

theorem editChan_own (s : DmaState μ) (change : Pl080Chan → Pl080Chan) :
    DmaOwn c s.1 (editChan s c change).1 := ⟨fun _ hi ↦ editChan_other s change hi, rfl⟩

theorem disabled_not_runnable (cfg : Word) :
    cfg &&& ~~~pl080CfgEn &&& (pl080CfgEn ||| pl080CfgHalt) ≠ pl080CfgEn := by
  intro h
  have hboth : cfg &&& (~~~pl080CfgEn &&& (pl080CfgEn ||| pl080CfgHalt) &&& pl080CfgEn) =
      pl080CfgEn := by
    rw [← BitVec.and_assoc, ← BitVec.and_assoc, h, BitVec.and_self]
  have hzero : ~~~pl080CfgEn &&& (pl080CfgEn ||| pl080CfgHalt) &&& pl080CfgEn = 0#32 := by decide
  rw [hzero, BitVec.and_zero] at hboth
  exact absurd hboth (by decide)

theorem disableChan_not_runnable (s : DmaState μ) :
    ¬(editChan s c fun ch ↦ { ch with cfg := ch.cfg &&& ~~~pl080CfgEn }).1.Runnable c := by
  rw [Pl080.Runnable, editChan_self]
  exact disabled_not_runnable _

theorem refuseItem_own (s : DmaState μ) {count : Pl080 → Pl080} (hch : (count s.1).ch = s.1.ch)
    (hconfig : (count s.1).config = s.1.config) :
    DmaOwn c s.1 (refuseItem c s count).1 ∧ ¬(refuseItem c s count).1.Runnable c :=
  ⟨⟨fun _ hi ↦ (editChan_other (count s.1, s.2) _ hi).trans (congrFun hch _), hconfig⟩,
    disableChan_not_runnable (count s.1, s.2)⟩

theorem runItem_refused_own {s : DmaState μ} (h : ¬ItemAccepted (s.1.ch c))
    (ready : Option (Pl080Ready ρ μ)) (r : ρ) : DmaOwn c s.1 (runItem bus ready c s r).state.1 ∧
      ¬(runItem bus ready c s r).state.1.Runnable c ∧ (runItem bus ready c s r).more = false := by
  obtain ⟨count, hcount, hs⟩ := @runItem_refused _ ρ bus _ _ h
  rw [hs]
  rcases hcount with rfl | rfl
  · exact ⟨(refuseItem_own s rfl rfl).1, (refuseItem_own s rfl rfl).2, rfl⟩
  · exact ⟨(refuseItem_own s rfl rfl).1, (refuseItem_own s rfl rfl).2, rfl⟩

/-- A service that leaves the configuration of its own channel too. -/
structure DmaStays (c : Fin pl080Channels) (d d' : Pl080) : Prop extends DmaOwn c d d' where
  cfg : (d'.ch c).cfg = (d.ch c).cfg

theorem DmaStays.trans {d'' : Pl080} (h : DmaStays c d d') (h' : DmaStays c d' d'') :
    DmaStays c d d'' where
  toDmaOwn := h.toDmaOwn.trans h'.toDmaOwn
  cfg := h'.cfg.trans h.cfg

theorem DmaKept.stays (h : DmaKept c d d') : DmaStays c d d' := ⟨h.own, h.cfg⟩

theorem reload_stays {a : Word} (hquiet : DmaQuiet bus a) {change : Pl080Chan → Pl080Chan}
    (hcfg : ∀ ch, (change ch).cfg = ch.cfg) :
    DmaStays c s.1 (editChan (bus.read32 s a).2 c change).1 := by
  obtain ⟨hch, hconfig⟩ : (bus.read32 s a).2.1.ch = s.1.ch ∧
      (bus.read32 s a).2.1.config = s.1.config := hquiet.load s 4
  refine ⟨.trans ⟨fun i _ ↦ congrFun hch i, hconfig⟩ (editChan_own _ _), ?_⟩
  rw [editChan_self, hcfg, hch]

theorem countItem_ch (d : Pl080) : (countItem c d).ch =
    update d.ch c { d.ch c with runs := (d.ch c).runs + 1 } := by
  rw [countItem]
  split
  · rfl
  · rfl

theorem countItem_stays (d : Pl080) : DmaStays c d (countItem c d) := by
  refine ⟨⟨fun i hi ↦ ?_, ?_⟩, ?_⟩
  · rw [countItem_ch, update_of_ne hi]
  · rw [countItem]
    split
    · rfl
    · rfl
  · rw [countItem_ch, update_self]

theorem reloadItem_stays (hquiet : ∀ a ∈ (reloadItem bus c s).2, DmaQuiet bus a.addr) :
    DmaStays c s.1 (reloadItem bus c s).1.1 := by
  rw [reloadItem] at hquiet ⊢
  simp only [mem_cons, not_mem_nil, or_false, forall_eq_or_imp, forall_eq, DmaAccess.addr] at hquiet
  obtain ⟨hsrc, hdst, hlli, hctrl⟩ := hquiet
  refine .trans ?_ (reload_stays hctrl fun _ ↦ rfl)
  refine .trans ?_ (reload_stays hlli fun _ ↦ rfl)
  refine .trans ?_ (reload_stays hdst fun _ ↦ rfl)
  exact reload_stays hsrc fun _ ↦ rfl

theorem finishItem_own (hquiet : ∀ a ∈ (finishItem bus c s).2.2, DmaQuiet bus a.addr) :
    let finish := finishItem bus c s
    (finish.1 = true → DmaStays c s.1 finish.2.1.1) ∧
      (finish.1 = false → DmaOwn c s.1 finish.2.1.1 ∧ ¬finish.2.1.1.Runnable c) := by
  by_cases hend : ((countItem c s.1).ch c).lli = 0
  · rw [finishItem, if_pos hend]
    exact ⟨fun h ↦ Bool.noConfusion h, fun _ ↦
      ⟨(countItem_stays s.1).toDmaOwn.trans (editChan_own (countItem c s.1, s.2) _),
        disableChan_not_runnable (countItem c s.1, s.2)⟩⟩
  · rw [finishItem, if_neg hend] at hquiet ⊢
    exact ⟨fun _ ↦ (countItem_stays s.1).trans
      (reloadItem_stays (s := (countItem c s.1, s.2)) hquiet), fun h ↦ Bool.noConfusion h⟩

theorem runItem_own (s : DmaState μ) (r : ρ)
    (hquiet : ∀ a ∈ (runItem bus none c s r).accesses, DmaQuiet bus a.addr) :
    let whole := runItem bus none c s r
    (whole.more = true → DmaStays c s.1 whole.state.1) ∧
      (whole.more = false → DmaOwn c s.1 whole.state.1 ∧ ¬whole.state.1.Runnable c) := by
  by_cases h : ItemAccepted (s.1.ch c)
  · obtain ⟨hmore, hstate, haccesses⟩ := runItem_whole h (@runItem_never _ _ bus c s r)
    rw [haccesses] at hquiet
    obtain ⟨hkept, -, -⟩ := moveUnits_kept le_rfl ((remaining_le s.1).trans (by decide)) rfl
      fun a ha ↦ hquiet a (mem_append_left _ ha)
    obtain ⟨hnext, hoff⟩ := finishItem_own (s := (wholeItem bus c s).state)
      fun a ha ↦ hquiet a (mem_append_right _ ha)
    dsimp only
    rw [hmore, hstate]
    exact ⟨fun hm ↦ hkept.stays.trans (hnext hm), fun hm ↦
      ⟨hkept.own.trans (hoff hm).1, (hoff hm).2⟩⟩
  · obtain ⟨hown, hoff, hmore⟩ := @runItem_refused_own _ _ bus _ _ h none r
    exact ⟨fun hm ↦ absurd hm (by rw [hmore]; exact Bool.false_ne_true), fun _ ↦ ⟨hown, hoff⟩⟩

theorem itemLoop_next {left : ℕ} (hmore : (runItem bus ready c s r).more = true) :
    itemLoop bus ready c (left + 1) s r =
      let rest := itemLoop bus ready c left (runItem bus ready c s r).state
        (runItem bus ready c s r).answers
      { rest with
        accesses := (runItem bus ready c s r).accesses ++ rest.accesses
        drains := (runItem bus ready c s r).drains ++ rest.drains } := by
  rw [itemLoop, if_pos hmore]

theorem itemLoop_last {left : ℕ} (hmore : (runItem bus ready c s r).more = false) :
    itemLoop bus ready c (left + 1) s r = runItem bus ready c s r := by
  rw [itemLoop, if_neg (by rw [hmore]; exact Bool.false_ne_true)]

theorem itemLoop_mono {left : ℕ} (hcut : (itemLoop bus ready c left s r).cut = false) :
    itemLoop bus ready c (left + 1) s r = itemLoop bus ready c left s r := by
  induction left generalizing s r with
  | zero => exact Bool.noConfusion hcut
  | succ left ih =>
    by_cases hmore : (runItem bus ready c s r).more = true
    · rw [itemLoop_next hmore] at hcut
      rw [itemLoop_next hmore, itemLoop_next hmore, ih hcut]
    · rw [itemLoop_last (Bool.eq_false_iff.2 hmore), itemLoop_last (Bool.eq_false_iff.2 hmore)]

theorem runItem_cut (ready : Option (Pl080Ready ρ μ)) (s : DmaState μ) (r : ρ) :
    (runItem bus ready c s r).cut = false := by
  by_cases h : ItemAccepted (s.1.ch c)
  · obtain ⟨k, -, -, -, hcut, -, -⟩ :=
      @transferLoop_units _ _ bus c (dmaShape (s.1.ch c).ctrl) ready (remaining c s.1) s r 0 0
    rw [runItem_accepted h]
    dsimp only
    split
    · exact hcut
    · exact hcut
  · obtain ⟨count, -, hs⟩ := @runItem_refused _ ρ bus _ _ h
    rw [hs]

theorem itemLoop_never (left : ℕ) (s : DmaState μ) (r : ρ) :
    (itemLoop bus none c left s r).stalled = false := by
  induction left generalizing s r with
  | zero => rfl
  | succ left ih =>
    by_cases hmore : (runItem bus none c s r).more = true
    · rw [itemLoop_next hmore]
      exact ih _ _
    · rw [itemLoop_last (Bool.eq_false_iff.2 hmore)]
      exact runItem_never s r

/-- What a call does against one that is never refused: all of it, or a first part that leaves the
registers from which the rest is what is left. -/
structure DmaResumes (rest : DmaState μ → ρ → DmaRun ρ μ) (c : Fin pl080Channels) (s : DmaState μ)
    (run whole : DmaRun ρ μ) : Prop where
  cut : run.cut = false
  done : run.stalled = false → run.state = whole.state ∧ run.accesses = whole.accesses ∧
    DmaOwn c s.1 run.state.1 ∧ ¬run.state.1.Runnable c
  later : run.stalled = true → DmaStays c s.1 run.state.1 ∧ ∀ r₁,
    (rest run.state r₁).cut = false ∧ (rest run.state r₁).state = whole.state ∧
      whole.accesses = run.accesses ++ (rest run.state r₁).accesses

theorem itemLoop_resumes (ready : Option (Pl080Ready ρ μ)) (left : ℕ) (r r₀ : ρ)
    (hcut : (itemLoop bus none c left s r₀).cut = false)
    (hquiet : ∀ a ∈ (itemLoop bus none c left s r₀).accesses, DmaQuiet bus a.addr) :
    DmaResumes (itemLoop bus none c left) c s (itemLoop bus ready c left s r)
      (itemLoop bus none c left s r₀) := by
  induction left generalizing ready s r r₀ with
  | zero => exact Bool.noConfusion hcut
  | succ left ih =>
    by_cases hmore : (runItem bus none c s r₀).more = true
    · rw [itemLoop_next hmore] at hcut hquiet ⊢
      have hitem : ∀ a ∈ (runItem bus none c s r₀).accesses, DmaQuiet bus a.addr :=
        fun a ha ↦ hquiet a (mem_append_left _ ha)
      have hrest : ∀ a ∈ (itemLoop bus none c left (runItem bus none c s r₀).state
          (runItem bus none c s r₀).answers).accesses, DmaQuiet bus a.addr :=
        fun a ha ↦ hquiet a (mem_append_right _ ha)
      obtain ⟨hsame, hstop⟩ := runItem_resumes ready s r r₀ hitem
      have hstays := (runItem_own s r₀ hitem).1 hmore
      by_cases hstalled : (runItem bus ready c s r).stalled = true
      · obtain ⟨hlast, hkept, hleft⟩ := hstop hstalled
        rw [itemLoop_last hlast]
        refine ⟨runItem_cut _ _ _, fun h ↦ ?_, fun _ ↦ ⟨hkept.stays, fun r₁ ↦ ?_⟩⟩
        · rw [hstalled] at h
          exact Bool.noConfusion h
        · obtain ⟨hmore', hstate', haccesses'⟩ := hleft r₁
          rw [itemLoop_next (hmore'.trans hmore), hstate']
          obtain ⟨hcut'', hdone'', -⟩ := ih none
            (runItem bus none c (runItem bus ready c s r).state r₁).answers _ hcut hrest
          obtain ⟨hstate'', haccesses'', -⟩ := hdone'' (itemLoop_never _ _ _)
          refine ⟨hcut'', hstate'', ?_⟩
          dsimp only
          rw [haccesses', haccesses'', append_assoc]
      · obtain ⟨hstate, haccesses, hmore'⟩ := hsame (Bool.eq_false_iff.2 hstalled)
        rw [itemLoop_next (hmore'.trans hmore), hstate, haccesses]
        obtain ⟨hcut', hdone', hlater'⟩ := ih ready (runItem bus ready c s r).answers _ hcut hrest
        refine ⟨hcut', fun h ↦ ?_, fun h ↦ ?_⟩
        · obtain ⟨hs, ha, hown, hoff⟩ := hdone' h
          exact ⟨hs, congrArg (_ ++ ·) ha, hstays.toDmaOwn.trans hown, hoff⟩
        · obtain ⟨hown, hleft⟩ := hlater' h
          refine ⟨hstays.trans hown, fun r₁ ↦ ?_⟩
          obtain ⟨hcut'', hs, ha⟩ := hleft r₁
          dsimp only at hcut'' hs ha ⊢
          rw [itemLoop_mono hcut'', hs, ha, append_assoc]
          exact ⟨hcut'', rfl, rfl⟩
    · have hlast := Bool.eq_false_iff.2 hmore
      rw [itemLoop_last hlast] at hcut hquiet ⊢
      obtain ⟨hsame, hstop⟩ := runItem_resumes ready s r r₀ hquiet
      obtain ⟨hown, hoff⟩ := (runItem_own s r₀ hquiet).2 hlast
      by_cases hstalled : (runItem bus ready c s r).stalled = true
      · obtain ⟨hlast', hkept, hleft⟩ := hstop hstalled
        rw [itemLoop_last hlast']
        refine ⟨runItem_cut _ _ _, fun h ↦ ?_, fun _ ↦ ⟨hkept.stays, fun r₁ ↦ ?_⟩⟩
        · rw [hstalled] at h
          exact Bool.noConfusion h
        · obtain ⟨hmore', hstate', haccesses'⟩ := hleft r₁
          rw [itemLoop_last (hmore'.trans hlast)]
          exact ⟨runItem_cut _ _ _, hstate', haccesses'⟩
      · obtain ⟨hstate, haccesses, hmore'⟩ := hsame (Bool.eq_false_iff.2 hstalled)
        rw [itemLoop_last (hmore'.trans hlast)]
        refine ⟨runItem_cut _ _ _, fun _ ↦ ⟨hstate, haccesses, ?_, ?_⟩, fun h ↦ absurd h hstalled⟩
        · rw [hstate]
          exact hown
        · rw [hstate]
          exact hoff

theorem itemLoop_octets (ready : Option (Pl080Ready ρ μ)) (left : ℕ) (s : DmaState μ) (r : ρ) :
    dmaStored (itemLoop bus ready c left s r).accesses =
      dmaLoaded (itemLoop bus ready c left s r).accesses := by
  induction left generalizing s r with
  | zero => rfl
  | succ left ih =>
    by_cases hmore : (runItem bus ready c s r).more = true
    · rw [itemLoop_next hmore]
      dsimp only
      rw [dmaStored_append, dmaLoaded_append, runItem_octets, ih]
    · rw [itemLoop_last (Bool.eq_false_iff.2 hmore)]
      exact runItem_octets ready s r

theorem serveChannel_octets (ready : Option (Pl080Ready ρ μ)) (s : DmaState μ) (r : ρ) :
    dmaStored (serveChannel bus ready c s r).accesses =
      dmaLoaded (serveChannel bus ready c s r).accesses := by
  rw [serveChannel]
  split
  · exact itemLoop_octets ready _ s r
  · rfl

theorem channelLoop_octets (ready : Option (Pl080Ready ρ μ)) (channels : List (Fin pl080Channels))
    (s : DmaState μ) (r : ρ) : dmaStored (channelLoop bus ready channels s r).accesses =
      dmaLoaded (channelLoop bus ready channels s r).accesses := by
  induction channels generalizing s r with
  | nil => rfl
  | cons c rest ih =>
    rw [channelLoop]
    dsimp only
    rw [dmaStored_append, dmaLoaded_append, serveChannel_octets, ih]

/-- Each call stores the octets it loads, in their order, whatever the widths of the items and
whoever refuses. -/
theorem s5lPl080Run_octets (ready : Option (Pl080Ready ρ μ)) (s : DmaState μ) (r : ρ) :
    dmaStored (s5lPl080Run bus ready s r).accesses =
      dmaLoaded (s5lPl080Run bus ready s r).accesses := by
  rw [s5lPl080Run]
  split
  · rfl
  · exact channelLoop_octets ready _ s r

theorem channelLoop_idle {ready : Option (Pl080Ready ρ μ)} {channels : List (Fin pl080Channels)}
    {s : DmaState μ} (hoff : ∀ i ∈ channels, ¬s.1.Runnable i) (r : ρ) :
    channelLoop bus ready channels s r = ⟨false, false, false, s, r, [], []⟩ := by
  induction channels with
  | nil => rfl
  | cons i rest ih =>
    have hidle : serveChannel bus ready i s r = ⟨false, false, false, s, r, [], []⟩ := by
      rw [serveChannel, if_neg (hoff i (mem_cons_self ..))]
    rw [channelLoop, hidle, ih fun i hi ↦ hoff i (mem_cons_of_mem _ hi)]
    rfl

/-- The other channels have nothing to do. -/
def DmaSole (c : Fin pl080Channels) (d : Pl080) : Prop := ∀ i, i ≠ c → ¬d.Runnable i

theorem DmaOwn.sole (h : DmaOwn c d d') (hsole : DmaSole c d) : DmaSole c d' := by
  intro i hi
  rw [Pl080.Runnable, h.others i hi]
  exact hsole i hi

/-- Two results that are the same for who looks at the machine. -/
structure DmaSame (run run' : DmaRun ρ μ) : Prop where
  stalled : run.stalled = run'.stalled
  cut : run.cut = run'.cut
  state : run.state = run'.state
  accesses : run.accesses = run'.accesses

theorem channelLoop_serves {ready : Option (Pl080Ready ρ μ)} {channels : List (Fin pl080Channels)}
    {s : DmaState μ} {r : ρ} (hmem : c ∈ channels) (hsole : DmaSole c s.1) :
    ∃ more cut', (channelLoop bus ready channels s r).accesses =
        (serveChannel bus ready c s r).accesses ++ more ∧
      (channelLoop bus ready channels s r).cut = ((serveChannel bus ready c s r).cut || cut') := by
  induction channels with
  | nil => exact absurd hmem not_mem_nil
  | cons i rest ih =>
    by_cases hi : i = c
    · subst hi
      exact ⟨_, _, rfl, rfl⟩
    · have hidle : serveChannel bus ready i s r = ⟨false, false, false, s, r, [], []⟩ := by
        rw [serveChannel, if_neg (hsole i hi)]
      rw [channelLoop, hidle]
      exact ih ((mem_cons.1 hmem).resolve_left fun h ↦ hi h.symm)

theorem channelLoop_sole {channels : List (Fin pl080Channels)} (hmem : c ∈ channels)
    (hnodup : channels.Nodup) (hsole : DmaSole c s.1)
    (hsole' : DmaSole c (serveChannel bus ready c s r).state.1) :
    DmaSame (channelLoop bus ready channels s r) (serveChannel bus ready c s r) := by
  induction channels with
  | nil => exact absurd hmem not_mem_nil
  | cons i rest ih =>
    rw [nodup_cons] at hnodup
    by_cases hi : i = c
    · subst hi
      have hidle := @channelLoop_idle _ _ bus ready rest _
        (fun j hj ↦ hsole' j fun h ↦ hnodup.1 (h ▸ hj)) (serveChannel bus ready i s r).answers
      rw [channelLoop, hidle]
      exact ⟨Bool.or_false _, Bool.or_false _, rfl, append_nil _⟩
    · have hidle : serveChannel bus ready i s r = ⟨false, false, false, s, r, [], []⟩ := by
        rw [serveChannel, if_neg (hsole i hi)]
      rw [channelLoop, hidle]
      exact ih ((mem_cons.1 hmem).resolve_left fun h ↦ hi h.symm) hnodup.2

theorem serveChannel_resumes (ready : Option (Pl080Ready ρ μ)) (r r₀ : ρ)
    (hcut : (serveChannel bus none c s r₀).cut = false)
    (hquiet : ∀ a ∈ (serveChannel bus none c s r₀).accesses, DmaQuiet bus a.addr) :
    DmaResumes (serveChannel bus none c) c s (serveChannel bus ready c s r)
      (serveChannel bus none c s r₀) := by
  by_cases hon : s.1.Runnable c
  · rw [serveChannel, if_pos hon] at hcut hquiet ⊢
    obtain ⟨hcut', hdone, hlater⟩ := itemLoop_resumes ready _ r r₀ hcut hquiet
    rw [serveChannel, if_pos hon]
    refine ⟨hcut', hdone, fun h ↦ ?_⟩
    obtain ⟨hstays, hleft⟩ := hlater h
    refine ⟨hstays, fun r₁ ↦ ?_⟩
    rw [serveChannel, if_pos (by rw [Pl080.Runnable, hstays.cfg]; exact hon)]
    exact hleft r₁
  · rw [serveChannel, if_neg hon, serveChannel, if_neg hon]
    exact ⟨rfl, fun _ ↦ ⟨rfl, rfl, .refl _, hon⟩, fun h ↦ Bool.noConfusion h⟩

theorem DmaResumes.sole {rest : DmaState μ → ρ → DmaRun ρ μ} {run whole : DmaRun ρ μ}
    (h : DmaResumes rest c s run whole) : DmaOwn c s.1 run.state.1 := by
  by_cases hstalled : run.stalled = true
  · exact (h.later hstalled).1.toDmaOwn
  · exact (h.done (Bool.eq_false_iff.2 hstalled)).2.2.1

theorem s5lPl080Run_on (hon : s.1.config &&& pl080ConfigEn ≠ 0) (hsole : DmaSole c s.1)
    (hsole' : DmaSole c (serveChannel bus ready c s r).state.1) :
    DmaSame (s5lPl080Run bus ready s r) (serveChannel bus ready c s r) := by
  rw [s5lPl080Run, if_neg hon]
  exact channelLoop_sole (mem_finRange c) (nodup_finRange _) hsole hsole'

theorem serveChannel_never (s : DmaState μ) (r : ρ) :
    (serveChannel bus none c s r).stalled = false := by
  rw [serveChannel]
  split
  · exact itemLoop_never _ s r
  · rfl

theorem s5lPl080Run_off (hoff : s.1.config &&& pl080ConfigEn = 0) :
    s5lPl080Run bus ready s r = ⟨false, false, false, s, r, [], []⟩ := by
  rw [s5lPl080Run, if_pos hoff]

/-- What the service of the one channel gives for the whole call. -/
theorem s5lPl080Run_resumes (ready : Option (Pl080Ready ρ μ)) (r r₀ : ρ)
    (hon : s.1.config &&& pl080ConfigEn ≠ 0) (hsole : DmaSole c s.1)
    (hcut : (s5lPl080Run bus none s r₀).cut = false)
    (hquiet : ∀ a ∈ (s5lPl080Run bus none s r₀).accesses, DmaQuiet bus a.addr) :
    DmaResumes (s5lPl080Run bus none) c s (s5lPl080Run bus ready s r)
      (s5lPl080Run bus none s r₀) := by
  have hwhole : (serveChannel bus none c s r₀).cut = false ∧
      ∀ a ∈ (serveChannel bus none c s r₀).accesses, DmaQuiet bus a.addr := by
    rw [s5lPl080Run, if_neg hon] at hcut hquiet
    obtain ⟨more, cut', haccesses, hcut'⟩ :=
      @channelLoop_serves _ _ bus _ none _ _ r₀ (mem_finRange c) hsole
    rw [haccesses] at hquiet
    rw [hcut', Bool.or_eq_false_iff] at hcut
    exact ⟨hcut.1, fun a ha ↦ hquiet a (mem_append_left _ ha)⟩
  have hserved := serveChannel_resumes ready r r₀ hwhole.1 hwhole.2
  have hserved₀ := serveChannel_resumes none r₀ r₀ hwhole.1 hwhole.2
  have hrun := s5lPl080Run_on (r := r) hon hsole (hserved.sole.sole hsole)
  have hrun₀ := s5lPl080Run_on (r := r₀) hon hsole (hserved₀.sole.sole hsole)
  obtain ⟨hcut', hdone, hlater⟩ := hserved
  refine ⟨hrun.cut.trans hcut', fun h ↦ ?_, fun h ↦ ?_⟩
  · rw [hrun.state, hrun.accesses, hrun₀.state, hrun₀.accesses]
    exact hdone (hrun.stalled.symm.trans h)
  · obtain ⟨hstays, hleft⟩ := hlater (hrun.stalled.symm.trans h)
    rw [hrun.state, hrun.accesses, hrun₀.state, hrun₀.accesses]
    refine ⟨hstays, fun r₁ ↦ ?_⟩
    obtain ⟨hcut₁, hstate₁, haccesses₁⟩ := hleft r₁
    have hon' : (serveChannel bus ready c s r).state.1.config &&& pl080ConfigEn ≠ 0 := by
      rw [hstays.config]
      exact hon
    have hsole' := hstays.toDmaOwn.sole hsole
    have hquiet₁ : ∀ a ∈ (serveChannel bus none c (serveChannel bus ready c s r).state
        r₁).accesses, DmaQuiet bus a.addr := fun a ha ↦
      hwhole.2 a (by rw [haccesses₁]; exact mem_append_right _ ha)
    have hrest := s5lPl080Run_on (r := r₁) hon' hsole'
      ((serveChannel_resumes none r₁ r₁ hcut₁ hquiet₁).sole.sole hsole')
    rw [hrest.cut, hrest.state, hrest.accesses]
    exact ⟨hcut₁, hstate₁, haccesses₁⟩

theorem channelLoop_never (channels : List (Fin pl080Channels)) (s : DmaState μ) (r : ρ) :
    (channelLoop bus none channels s r).stalled = false := by
  induction channels generalizing s r with
  | nil => rfl
  | cons c rest ih =>
    rw [channelLoop]
    dsimp only
    rw [serveChannel_never, ih]
    rfl

theorem s5lPl080Run_never (s : DmaState μ) (r : ρ) :
    (s5lPl080Run bus none s r).stalled = false := by
  rw [s5lPl080Run]
  split
  · rfl
  · exact channelLoop_never _ s r

theorem s5lPl080Run_idle {ready : Option (Pl080Ready ρ μ)} {s : DmaState μ}
    (hoff : ∀ i, ¬s.1.Runnable i) (r : ρ) :
    s5lPl080Run bus ready s r = ⟨false, false, false, s, r, [], []⟩ := by
  rw [s5lPl080Run]
  split
  · rfl
  · exact channelLoop_idle (fun i _ ↦ hoff i) r

/-- What is left after a first part of the accesses: the rest, from the state the part has left. -/
structure DmaLeft (bus : Arm.Bus (DmaState μ)) (c : Fin pl080Channels) (s : DmaState μ)
    (part whole : DmaRun ρ μ) : Prop where
  cut : part.cut = false
  own : DmaOwn c s.1 part.state.1
  rest : ∀ r₁ : ρ, (s5lPl080Run bus none part.state r₁).cut = false ∧
    (s5lPl080Run bus none part.state r₁).state = whole.state ∧
    whole.accesses = part.accesses ++ (s5lPl080Run bus none part.state r₁).accesses

theorem s5lPl080Run_left (ready : Option (Pl080Ready ρ μ)) (r r₀ : ρ)
    (hon : s.1.config &&& pl080ConfigEn ≠ 0) (hsole : DmaSole c s.1)
    (hcut : (s5lPl080Run bus none s r₀).cut = false)
    (hquiet : ∀ a ∈ (s5lPl080Run bus none s r₀).accesses, DmaQuiet bus a.addr) :
    DmaLeft bus c s (s5lPl080Run bus ready s r) (s5lPl080Run bus none s r₀) := by
  have hresumes := s5lPl080Run_resumes ready r r₀ hon hsole hcut hquiet
  refine ⟨hresumes.cut, hresumes.sole, fun r₁ ↦ ?_⟩
  by_cases hstalled : (s5lPl080Run bus ready s r).stalled = true
  · exact (hresumes.later hstalled).2 r₁
  · obtain ⟨hstate, haccesses, hown, hoff⟩ := hresumes.done (Bool.eq_false_iff.2 hstalled)
    have hnone : ∀ i, ¬(s5lPl080Run bus ready s r).state.1.Runnable i := fun i ↦ by
      by_cases hi : i = c
      · rw [hi]
        exact hoff
      · exact hown.sole hsole i hi
    have hidle := @s5lPl080Run_idle _ _ bus none _ hnone r₁
    rw [hidle, ← haccesses]
    exact ⟨rfl, hstate, (append_nil _).symm⟩

/-- The calls of the ticks, each with the peripheral as it answers then. -/
def dmaCalls (bus : Arm.Bus (DmaState μ)) : List (Pl080Ready ρ μ) → DmaState μ → ρ → DmaRun ρ μ
  | [], s, r => ⟨false, false, false, s, r, [], []⟩
  | ready :: calls, s, r =>
    let call := s5lPl080Run bus (some ready) s r
    let rest := dmaCalls bus calls call.state call.answers
    { rest with
      cut := call.cut || rest.cut
      accesses := call.accesses ++ rest.accesses
      drains := call.drains ++ rest.drains }

theorem dmaCalls_octets (calls : List (Pl080Ready ρ μ)) (s : DmaState μ) (r : ρ) :
    dmaStored (dmaCalls bus calls s r).accesses = dmaLoaded (dmaCalls bus calls s r).accesses := by
  induction calls generalizing s r with
  | nil => rfl
  | cons ready calls ih =>
    rw [dmaCalls]
    dsimp only
    rw [dmaStored_append, dmaLoaded_append, s5lPl080Run_octets, ih]

theorem dmaCalls_left (calls : List (Pl080Ready ρ μ)) (r r₀ : ρ)
    (hon : s.1.config &&& pl080ConfigEn ≠ 0) (hsole : DmaSole c s.1)
    (hcut : (s5lPl080Run bus none s r₀).cut = false)
    (hquiet : ∀ a ∈ (s5lPl080Run bus none s r₀).accesses, DmaQuiet bus a.addr) :
    DmaLeft bus c s (dmaCalls bus calls s r) (s5lPl080Run bus none s r₀) := by
  induction calls generalizing s r r₀ with
  | nil =>
    refine ⟨rfl, .refl _, fun r₁ ↦ ?_⟩
    obtain ⟨hcut', hdone, -⟩ := s5lPl080Run_resumes none r₁ r₀ hon hsole hcut hquiet
    obtain ⟨hstate, haccesses, -⟩ := hdone (s5lPl080Run_never s r₁)
    exact ⟨hcut', hstate, haccesses.symm⟩
  | cons ready calls ih =>
    obtain ⟨hcut', hown, hrest⟩ := s5lPl080Run_left (some ready) r r₀ hon hsole hcut hquiet
    obtain ⟨hcut₁, hstate₁, haccesses₁⟩ := hrest (s5lPl080Run bus (some ready) s r).answers
    obtain ⟨hcut₂, hown₂, hrest₂⟩ := ih (s := (s5lPl080Run bus (some ready) s r).state)
      (s5lPl080Run bus (some ready) s r).answers _ (by rw [hown.config]; exact hon)
      (hown.sole hsole) hcut₁
      fun a ha ↦ hquiet a (by rw [haccesses₁]; exact mem_append_right _ ha)
    rw [dmaCalls]
    refine ⟨?_, hown.trans hown₂, fun r₁ ↦ ?_⟩
    · dsimp only
      rw [hcut', hcut₂]
      rfl
    · obtain ⟨hcut₃, hstate₃, haccesses₃⟩ := hrest₂ r₁
      dsimp only
      refine ⟨hcut₃, hstate₃.trans hstate₁, ?_⟩
      rw [haccesses₁, haccesses₃, append_assoc]

theorem dmaCalls_off (hoff : s.1.config &&& pl080ConfigEn = 0) (calls : List (Pl080Ready ρ μ))
    (r : ρ) : dmaCalls bus calls s r = ⟨false, false, false, s, r, [], []⟩ := by
  induction calls with
  | nil => rfl
  | cons ready calls ih => rw [dmaCalls, s5lPl080Run_off hoff, ih]; rfl

/-- One channel at work, whose accesses do not reach the channel registers and whose chain is not
cut. However the peripheral answers in however many calls: the octets that are stored are those
that are loaded, in their order; a call that is not refused ends in the state, and with the
accesses, of a single call that is never refused; so does the channel where it has ended; and an
item that is refused has counted down by what it has stored. -/
theorem s5lPl080Run_conserves (bus : Arm.Bus (DmaState μ)) (c : Fin pl080Channels)
    (s : DmaState μ) (r : ρ) (hsole : DmaSole c s.1) (hcut : (s5lPl080Run bus none s r).cut = false)
    (hquiet : ∀ a ∈ (s5lPl080Run bus none s r).accesses, DmaQuiet bus a.addr)
    (calls : List (Pl080Ready ρ μ)) :
    let whole := s5lPl080Run bus none s r
    let part := dmaCalls bus calls s r
    part.cut = false ∧ dmaStored part.accesses = dmaLoaded part.accesses ∧
      (∀ ready : Option (Pl080Ready ρ μ), let last := s5lPl080Run bus ready part.state part.answers
        last.stalled = false →
          last.state = whole.state ∧ part.accesses ++ last.accesses = whole.accesses) ∧
      (¬part.state.1.Runnable c → part.state = whole.state ∧ part.accesses = whole.accesses) ∧
      ∀ (s' : DmaState μ) (ready : Option (Pl080Ready ρ μ)) (r' : ρ),
        (∀ a ∈ (wholeItem bus c s').accesses, DmaQuiet bus a.addr) →
        let item := runItem bus ready c s' r'
        item.stalled = true → (dmaStored item.accesses).length =
              (remaining c s'.1 - remaining c item.state.1) * (dmaShape (s'.1.ch c).ctrl).swidth ∧
            remaining c item.state.1 ≤ remaining c s'.1 ∧
            (item.state.1.ch c).bytes =
              (s'.1.ch c).bytes + ofNat 64 (dmaStored item.accesses).length := by
  by_cases hon : s.1.config &&& pl080ConfigEn = 0
  · dsimp only
    rw [dmaCalls_off hon, s5lPl080Run_off hon]
    refine ⟨rfl, rfl, fun ready _ ↦ ?_, fun _ ↦ ⟨rfl, rfl⟩,
      fun s' ready r' hquiet' hstalled ↦ ?_⟩
    · rw [s5lPl080Run_off hon]
      exact ⟨rfl, rfl⟩
    · obtain ⟨-, -, -, -, -, hle, hlength, hbytes, -⟩ := runItem_stalled hstalled hquiet'
      exact ⟨hlength, hle, hbytes⟩
  · obtain ⟨hcut', hown, hrest⟩ := dmaCalls_left calls r r hon hsole hcut hquiet
    refine ⟨hcut', dmaCalls_octets calls s r, fun ready hlast ↦ ?_, fun hoff ↦ ?_,
      fun s' ready r' hquiet' hstalled ↦ ?_⟩
    · obtain ⟨hcut₁, hstate₁, haccesses₁⟩ := hrest (dmaCalls bus calls s r).answers
      obtain ⟨-, hdone, -⟩ := s5lPl080Run_resumes ready (dmaCalls bus calls s r).answers _
        (by rw [hown.config]; exact hon) (hown.sole hsole) hcut₁
        fun a ha ↦ hquiet a (by rw [haccesses₁]; exact mem_append_right _ ha)
      obtain ⟨hstate, haccesses, -⟩ := hdone hlast
      exact ⟨hstate.trans hstate₁, by rw [haccesses, haccesses₁]⟩
    · obtain ⟨-, hstate₁, haccesses₁⟩ := hrest r
      have hnone : ∀ i, ¬(dmaCalls bus calls s r).state.1.Runnable i := fun i ↦ by
        by_cases hi : i = c
        · rw [hi]
          exact hoff
        · exact hown.sole hsole i hi
      have hidle := @s5lPl080Run_idle _ _ bus none _ hnone r
      rw [hidle] at hstate₁ haccesses₁
      exact ⟨hstate₁, (append_nil _).symm.trans haccesses₁.symm⟩
    · obtain ⟨-, -, -, -, -, hle, hlength, hbytes, -⟩ := runItem_stalled hstalled hquiet'
      exact ⟨hlength, hle, hbytes⟩

/-- A bus with memory behind it and nothing else. -/
def memoryBus : Arm.Bus (DmaState (Word → Octet)) where
  read32 s a := (s.2 (a + 3) ++ s.2 (a + 2) ++ s.2 (a + 1) ++ s.2 a, s)
  read16 s a := (s.2 (a + 1) ++ s.2 a, s)
  read8 s a := (s.2 a, s)
  write32 s a v := (s.1, fun b ↦
    if b = a then v.extractLsb' 0 8 else if b = a + 1 then v.extractLsb' 8 8
    else if b = a + 2 then v.extractLsb' 16 8 else if b = a + 3 then v.extractLsb' 24 8 else s.2 b)
  write16 s a v := (s.1, fun b ↦
    if b = a then v.extractLsb' 0 8 else if b = a + 1 then v.extractLsb' 8 8 else s.2 b)
  write8 s a v := (s.1, fun b ↦ if b = a then v else s.2 b)
  hostRam := none
  hostRamWrite := none
  hostLoad _ _ := 0
  hostStore s _ _ := s
  waitForInterrupt := none
  privilegedSvcHandler := none

theorem memoryBus_quiet (a : Word) : DmaQuiet memoryBus a := by
  refine ⟨fun s width ↦ ?_, fun s v width ↦ ?_⟩
  · unfold busLoad
    split
    · exact ⟨rfl, rfl⟩
    · exact ⟨rfl, rfl⟩
    · exact ⟨rfl, rfl⟩
  · unfold busStore
    split
    · exact ⟨rfl, rfl⟩
    · exact ⟨rfl, rfl⟩
    · exact ⟨rfl, rfl⟩

/-- The first channel, with two words of four octets to store octet by octet. -/
def narrowing : Pl080 :=
  { s5lPl080Reset with
    config := 1
    ch := fun i ↦
      if i = 0 then { src := 0x1000, dst := 0x2000, ctrl := 0x8c080002, cfg := 0x8001 } else {} }

/-- A peripheral that takes a transfer and refuses the next. -/
def everyOther : Pl080Ready Bool (Word → Octet) := fun r _ _ _ ↦ (r, !r)

/-- The first of four calls is refused half way, and the second ends the chain. -/
theorem s5lPl080Run_conserves_narrowing :
    dmaStored (dmaCalls memoryBus (List.replicate 4 everyOther)
        (narrowing, fun a ↦ a.setWidth 8) true).accesses = [0, 1, 2, 3, 4, 5, 6, 7] ∧
      (dmaCalls memoryBus (List.replicate 4 everyOther)
        (narrowing, fun a ↦ a.setWidth 8) true).state =
      (s5lPl080Run memoryBus none (narrowing, fun a ↦ a.setWidth 8) true).state := by
  have hsole : DmaSole 0 narrowing := by
    intro i hi
    decide +revert +kernel
  refine ⟨by decide +kernel, ?_⟩
  obtain ⟨-, -, -, hdone, -⟩ := s5lPl080Run_conserves memoryBus 0
    (narrowing, fun a ↦ a.setWidth 8) true hsole (by decide +kernel)
    (fun a _ ↦ memoryBus_quiet a.addr) (List.replicate 4 everyOther)
  exact (hdone (by decide +kernel)).1

/-- A bus on which the controller itself answers the writes of its registers. -/
def registerBus : Arm.Bus (DmaState Unit) where
  read32 s a := (if a = 0x1000 then 0x04480003 else 0, s)
  read16 s _ := (0, s)
  read8 s _ := (0, s)
  write32 s a v := (s5lPl080Write s.1 (a - 0x38200000) v, ())
  write16 s _ _ := s
  write8 s _ _ := s
  hostRam := none
  hostRamWrite := none
  hostLoad _ _ := 0
  hostStore s _ _ := s
  waitForInterrupt := none
  privilegedSvcHandler := none

/-- The first channel, with two words for its own control register. -/
def selfProgramming : Pl080 :=
  { s5lPl080Reset with
    config := 1
    ch := fun i ↦
      if i = 0 then { src := 0x1000, dst := 0x3820010c, ctrl := 0x04480002, cfg := 1 } else {} }

/-- The count of an item is kept beside the register while the item runs, and taken from the
register where it resumes: a channel that stores to its own control register moves more words
where it is refused between the two. -/
theorem s5lPl080Run_selfProgramming :
    let whole := s5lPl080Run registerBus none (selfProgramming, ()) 0
    let part := dmaCalls registerBus
      [fun r _ _ _ ↦ (decide (r = 0), r + 1), fun r _ _ _ ↦ (true, r)] (selfProgramming, ()) 0
    whole.cut = false ∧ part.cut = false ∧ ¬whole.state.1.Runnable 0 ∧
      ¬part.state.1.Runnable 0 ∧ (whole.state.1.ch 0).src = 0x1008 ∧
      (part.state.1.ch 0).src = 0x1010 ∧ (dmaStored whole.accesses).length = 8 ∧
      (dmaStored part.accesses).length = 16 := by
  decide +kernel

end S5LBox.Soc
