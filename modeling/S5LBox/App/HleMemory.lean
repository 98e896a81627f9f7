import S5LBox.App.FirmwareHle
import S5LBox.Arm.Permission
import S5LBox.Library.Span

/-!
# The memory of a user

`hle_read` and `hle_writev` go through the translation of the user in pieces of a kibibyte. For
addresses whose tables lie in the memory, whose cached translations agree with them and whose
tables nothing is stored to, they are reads and stores of single octets at fixed offsets.
-/

namespace S5LBox.Hle

open List S5LBox.Arm S5LBox.Soc
open BitVec (eq_of_toNat_eq ofNat ofNat_add toNat_add toNat_ofNat toNat_ushiftRight)

variable {σ : Type}

/-- A word that lies in the memory. -/
def InDram (dram : Dram) (pa : Word) : Prop :=
  dram.base ≤ pa ∧ (pa - dram.base).toNat + 4 ≤ dram.size

/-- What is relied on of the bus and the memory behind it: a host store changes one octet and the
words it is part of, no read of a word changes an octet, and none in the memory changes anything. -/
structure HleBus (bus : Bus σ) (dram : Dram) (host : HostPtr) : Prop where
  readLoad : ∀ ctx pa place, bus.hostLoad (bus.read32 ctx pa).2 place = bus.hostLoad ctx place
  readDram : ∀ ctx pa, InDram dram pa → (bus.read32 ctx pa).2 = ctx
  storeLoad : ∀ ctx place octet other, bus.hostLoad (bus.hostStore ctx place octet) other =
    if other = place then octet else bus.hostLoad ctx other
  storeRead : ∀ ctx offset octet pa, offset < dram.size → InDram dram pa →
    (offset < (pa - dram.base).toNat ∨ (pa - dram.base).toNat + 4 ≤ offset) →
    (bus.read32 (bus.hostStore ctx (host + offset) octet) pa).1 = (bus.read32 ctx pa).1

variable {bus : Bus σ} {dram : Dram} {host : HostPtr} {p : TlbStamp} {ctx : σ} {va : Word}
  {acc : Access}

/-- The offset of a verdict's frame in the memory, if `chunk` octets fit there. -/
def Verdict.offset (dram : Dram) (va : Word) (chunk : ℕ) : Verdict → Option ℕ
  | .fault _ => none
  | .frame base mask =>
    let pa := (base ||| (va &&& mask)).toNat
    if pa < dram.base.toNat ∨ dram.size < pa - dram.base.toNat + chunk then none
    else some (pa - dram.base.toNat)

/-- The offset of a user's address, by the tables as they are. -/
def userOffset (bus : Bus σ) (dram : Dram) (p : TlbStamp) (ctx : σ) (acc : Access) (va : Word) :
    Option ℕ :=
  Verdict.offset dram va 1 (walkVerdict bus p ctx va acc false).1

/-- The offset of a piece. -/
def pieceOffset (bus : Bus σ) (dram : Dram) (p : TlbStamp) (ctx : σ) (acc : Access) (va : Word)
    (chunk : ℕ) : Option ℕ :=
  Verdict.offset dram va chunk (walkVerdict bus p ctx va acc false).1

theorem sameBlock_add {i : ℕ} (h : va.toNat % 1024 + i < 1024) :
    SameBlock va (va + ofNat 32 i) := by
  have hsum : (va + ofNat 32 i).toNat = va.toNat + i := by
    rw [toNat_add, toNat_ofNat]
    omega
  apply eq_of_toNat_eq
  rw [toNat_ushiftRight, toNat_ushiftRight, hsum, Nat.shiftRight_eq_div_pow,
    Nat.shiftRight_eq_div_pow]
  omega

theorem low_or {base mask : Word} (hbase : base &&& 0x3ff = 0) (hmask : mask &&& 0x3ff = 0x3ff)
    (va : Word) : (base ||| (va &&& mask)) &&& 0x3ff = va &&& 0x3ff := by
  rw [BitVec.or_comm, or_and_of_disjoint _ hbase, BitVec.and_assoc, hmask]

theorem toNat_low (w : Word) : (w &&& 0x3ff).toNat = w.toNat % 1024 := by
  rw [BitVec.toNat_and]
  exact Nat.and_two_pow_sub_one_eq_mod w.toNat 10

theorem frame_add {base mask : Word} (hbase : base &&& 0x3ff = 0) (hmask : mask &&& 0x3ff = 0x3ff)
    {i : ℕ} (h : va.toNat % 1024 + i < 1024) : base ||| ((va + ofNat 32 i) &&& mask) =
      (base ||| (va &&& mask)) + ofNat 32 i := by
  have hframe := frame_of_block hbase hmask (sameBlock_add h)
  have hlow := congrArg BitVec.toNat (low_or hbase hmask va)
  have hlow' := congrArg BitVec.toNat (low_or hbase hmask (va + ofNat 32 i))
  have hsum : (va + ofNat 32 i).toNat = va.toNat + i := by
    rw [toNat_add, toNat_ofNat]
    omega
  rw [toNat_low, toNat_low] at hlow hlow'
  rw [hsum] at hlow'
  generalize base ||| (va &&& mask) = frame at *
  generalize base ||| ((va + ofNat 32 i) &&& mask) = frame' at *
  have hdiv : frame'.toNat / 1024 = frame.toNat / 1024 := by
    have hclear : frame' &&& ~~~0x3ff = frame &&& ~~~0x3ff := by
      rw [← hframe]
      ext k hk
      simp only [BitVec.getElem_and, BitVec.getElem_or, BitVec.getElem_not]
      cases frame[k] <;> cases (0x3ff : Word)[k] <;> simp
    have hshift : frame' >>> 10 = frame >>> 10 := by
      ext k hk
      have hbit := congrArg (fun w : Word ↦ w.getLsbD (10 + k)) hclear
      simp only [BitVec.getLsbD_and, BitVec.getLsbD_not] at hbit
      simp only [BitVec.getElem_ushiftRight]
      by_cases hin : 10 + k < 32
      · have hmaskbit : (0x3ff : Word)[10 + k] = false :=
          (blockMask_bit ⟨10 + k, hin⟩).trans (by simp)
        simp only [BitVec.getLsbD_eq_getElem hin, hin, decide_true, Bool.true_and] at hbit ⊢
        rwa [show ((0x3ff : Word)[10 + k]) = false from hmaskbit, Bool.not_false, Bool.and_true,
          Bool.and_true] at hbit
      · rw [BitVec.getLsbD_of_ge _ _ (by omega), BitVec.getLsbD_of_ge _ _ (by omega)]
    have hnat := congrArg BitVec.toNat hshift
    rwa [toNat_ushiftRight, toNat_ushiftRight, Nat.shiftRight_eq_div_pow,
      Nat.shiftRight_eq_div_pow] at hnat
  apply eq_of_toNat_eq
  rw [toNat_add, toNat_ofNat]
  omega

theorem userOffset_block (bus : Bus σ) (dram : Dram) (p : TlbStamp) (ctx : σ) (acc : Access)
    (va : Word) : ((∀ chunk, pieceOffset bus dram p ctx acc va chunk = none) ∧
      ∀ i, va.toNat % 1024 + i < 1024 → userOffset bus dram p ctx acc (va + ofNat 32 i) = none) ∨
    ∃ pa : ℕ, (∀ chunk, pieceOffset bus dram p ctx acc va chunk =
        if pa < dram.base.toNat ∨ dram.size < pa - dram.base.toNat + chunk then none
        else some (pa - dram.base.toNat)) ∧
      ∀ i, va.toNat % 1024 + i < 1024 → userOffset bus dram p ctx acc (va + ofNat 32 i) =
          if pa + i < dram.base.toNat ∨ dram.size < pa + i - dram.base.toNat + 1 then none
          else some (pa + i - dram.base.toNat) := by
  have hverdict (i : ℕ) (hi : va.toNat % 1024 + i < 1024) :
      walkVerdict bus p ctx (va + ofNat 32 i) acc false =
        walkVerdict bus p ctx va acc false := (walkVerdict_congr (sameBlock_add hi)).symm
  have hblocks : (walkVerdict bus p ctx va acc false).1.Blocks := blocks_walkVerdict
  have hoctet (i : ℕ) (hi : va.toNat % 1024 + i < 1024) :
      userOffset bus dram p ctx acc (va + ofNat 32 i) =
        Verdict.offset dram (va + ofNat 32 i) 1 (walkVerdict bus p ctx va acc false).1 := by
    rw [userOffset, hverdict i hi]
  unfold pieceOffset
  generalize (walkVerdict bus p ctx va acc false).1 = verdict at *
  cases verdict with
  | fault fsr => exact .inl ⟨fun _ ↦ rfl, fun i hi ↦ hoctet i hi⟩
  | frame base mask =>
    obtain ⟨hbase, hmask⟩ := hblocks
    have hlow := congrArg BitVec.toNat (low_or hbase hmask va)
    rw [toNat_low, toNat_low] at hlow
    refine .inr ⟨(base ||| (va &&& mask)).toNat, fun _ ↦ rfl, fun i hi ↦ ?_⟩
    have hadd : (base ||| ((va + ofNat 32 i) &&& mask)).toNat =
        (base ||| (va &&& mask)).toNat + i := by
      rw [frame_add hbase hmask hi, toNat_add, toNat_ofNat]
      omega
    rw [hoctet i hi, Verdict.offset, hadd]

variable {chunk offset : ℕ}

theorem userOffset_of_piece {i : ℕ} (hblock : va.toNat % 1024 + chunk ≤ 1024)
    (h : pieceOffset bus dram p ctx acc va chunk = some offset) (hi : i < chunk) :
    userOffset bus dram p ctx acc (va + ofNat 32 i) = some (offset + i) := by
  obtain ⟨hnone, -⟩ | ⟨pa, hpiece, hoctet⟩ := userOffset_block bus dram p ctx acc va
  · rw [hnone] at h
    contradiction
  · rw [hpiece] at h
    split at h
    · contradiction
    · rw [Option.some.injEq] at h
      rw [hoctet i (by omega), if_neg (by omega), Option.some.injEq]
      omega

theorem exists_of_piece_none (hpos : 0 < chunk) (hblock : va.toNat % 1024 + chunk ≤ 1024)
    (h : pieceOffset bus dram p ctx acc va chunk = none) :
    ∃ i < chunk, userOffset bus dram p ctx acc (va + ofNat 32 i) = none := by
  obtain ⟨-, hnone⟩ | ⟨pa, hpiece, hoctet⟩ := userOffset_block bus dram p ctx acc va
  · exact ⟨0, hpos, hnone 0 (by omega)⟩
  · rw [hpiece] at h
    split at h
    · next hout =>
      by_cases hlow : pa < dram.base.toNat
      · refine ⟨0, hpos, ?_⟩
        rw [hoctet 0 (by omega)]
        exact if_pos (.inl hlow)
      · refine ⟨chunk - 1, by omega, ?_⟩
        rw [hoctet _ (by omega), if_pos]
        omega
    · contradiction

/-- The entry that would answer for an address, if there is one, answers as the tables do. -/
def Agrees (bus : Bus σ) (p : TlbStamp) (t : Caches × σ) (va : Word) (acc : Access) : Prop :=
  let h := tlbRestamp p t.1
  let entry := h.tlb (mmuTlbSlot va acc)
  entry.gen = h.tlbGen → entry.tag = mmuTlbTag va acc false → ∀ pa,
    entry.answer va pa = (walkVerdict bus p t.2 va acc false).1.result va pa

/-- The tables of some accesses lie in the memory, and the cache agrees with them. -/
structure Steady (bus : Bus σ) (dram : Dram) (p : TlbStamp) (uses : Word → Access → Prop)
    (t : Caches × σ) : Prop where
  tables : ∀ va acc, uses va acc → ∀ w ∈ walkWords bus p t.2 va, InDram dram w.1
  agrees : ∀ va acc, uses va acc → Agrees bus p t va acc

variable {uses : Word → Access → Prop} {t : Caches × σ}

theorem walk_dram (hbus : HleBus bus dram host)
    (h : ∀ w ∈ walkWords bus p ctx va, InDram dram w.1) (acc : Access) :
    (walkVerdict bus p ctx va acc false).2 = ctx := by
  unfold walkWords at h
  unfold walkVerdict
  by_cases hM : (!p.flag sctlrM) = true
  · rw [if_pos hM]
  rw [if_neg hM] at h ⊢
  by_cases hoff : p.ttbcr &&& (if usesTtbr0 p va then 0x10 else 0x20) ≠ 0
  · rw [if_pos hoff]
  rw [if_neg hoff] at h ⊢
  have hfirst : InDram dram (l1Address p va) := by
    simp only at h
    split at h
    · exact h (l1Address p va, _) (mem_singleton_self _)
    · exact h (l1Address p va, _) mem_cons_self
  have hsame := hbus.readDram ctx _ hfirst
  generalize bus.read32 ctx (l1Address p va) = first at *
  obtain ⟨l1, after⟩ := first
  simp only at h hsame ⊢
  subst hsame
  split
  · rfl
  · next hfault =>
    split
    · rfl
    · next hsection =>
      rw [if_neg (by tauto)] at h
      exact hbus.readDram _ _ (h (l2Address va l1, _) (mem_cons_of_mem _ mem_cons_self))

theorem tlbGen_tlbRestamp (p : TlbStamp) (h : Caches) : (tlbRestamp p h).tlbGen ≠ 0 := by
  have hfirst : (if h.tlbGen = 0 then { h with tlbGen := 1 } else h).tlbGen ≠ 0 := by
    split
    · exact (by decide : (1 : Word) ≠ 0)
    · assumption
  unfold tlbRestamp
  generalize (if h.tlbGen = 0 then { h with tlbGen := 1 } else h) = h at *
  simp only
  split
  · unfold armMmuTlbFlush
    simp only
    split
    · exact (by decide : (1 : Word) ≠ 0)
    · assumption
  · exact hfirst

theorem tlbRestamp_of_stamped {h : Caches} (hgen : h.tlbGen ≠ 0) (hstamp : h.tlbStamp = p) :
    tlbRestamp p h = h := by
  unfold tlbRestamp
  rw [if_neg hgen]
  exact if_neg (not_not.2 hstamp)

theorem agrees_of_stamped {h : Caches} (hgen : h.tlbGen ≠ 0) (hstamp : h.tlbStamp = p) :
    Agrees bus p (h, ctx) va acc ↔ ((h.tlb (mmuTlbSlot va acc)).gen = h.tlbGen →
        (h.tlb (mmuTlbSlot va acc)).tag = mmuTlbTag va acc false → ∀ pa,
          (h.tlb (mmuTlbSlot va acc)).answer va pa =
            (walkVerdict bus p ctx va acc false).1.result va pa) := by
  simp only [Agrees, tlbRestamp_of_stamped hgen hstamp]

/-- A translation of a steady access answers as the tables do, changes nothing in the memory and
keeps every steady access so. -/
theorem translate_steady (hbus : HleBus bus dram host) (h : Steady bus dram p uses t)
    (huse : uses va acc) (pa : Word) : ∃ caches, armMmuTranslate bus p t.1 t.2 va acc false pa =
        ((walkVerdict bus p t.2 va acc false).1.result va pa, caches, t.2) ∧
      Steady bus dram p uses (caches, t.2) := by
  have hwalk := walk_dram hbus (h.tables va acc huse) acc
  unfold armMmuTranslate
  by_cases hM : (!p.flag sctlrM) = true
  · rw [if_pos hM]
    have hresult : (walkVerdict bus p t.2 va acc false).1.result va pa = (0, va) :=
      walk_of_disabled (by simpa using hM) pa
    exact ⟨t.1, by rw [hresult], h⟩
  rw [if_neg hM]
  have hgen := tlbGen_tlbRestamp p t.1
  have hstamp := stamp_tlbRestamp p t.1
  have hagrees : ∀ va' acc', uses va' acc' → Agrees bus p (tlbRestamp p t.1, t.2) va' acc' := by
    intro va' acc' huse'
    rw [agrees_of_stamped hgen hstamp]
    exact h.agrees va' acc' huse'
  generalize tlbRestamp p t.1 = caches at *
  simp only
  split
  · next hhit =>
    have hanswer := (agrees_of_stamped hgen hstamp).1 (hagrees va acc huse) hhit.1 hhit.2 pa
    refine ⟨{ caches with tlbHits := caches.tlbHits + 1 }, by rw [← hanswer]; rfl, h.tables, ?_⟩
    intro va' acc' huse'
    have hentry := (agrees_of_stamped hgen hstamp).1 (hagrees va' acc' huse')
    exact (@agrees_of_stamped σ bus p t.2 va' acc'
      { caches with tlbHits := caches.tlbHits + 1 } hgen hstamp).2 hentry
  · have hmmu : mmuWalk bus p t.2 va acc false pa =
        ((walkVerdict bus p t.2 va acc false).1.result va pa, t.2) := Prod.ext rfl hwalk
    rw [hmmu]
    let filled : Caches := { caches with
      tlbMisses := caches.tlbMisses + 1
      tlb := Function.update caches.tlb (mmuTlbSlot va acc)
        (filledEntry caches.tlbGen (mmuTlbTag va acc false)
          ((walkVerdict bus p t.2 va acc false).1.result va pa)) }
    refine ⟨filled, rfl, h.tables, ?_⟩
    intro va' acc' huse'
    have hentry := (agrees_of_stamped hgen hstamp).1 (hagrees va' acc' huse')
    apply (@agrees_of_stamped σ bus p t.2 va' acc' filled hgen hstamp).2
    have htlb : filled.tlb = Function.update caches.tlb (mmuTlbSlot va acc)
        (filledEntry caches.tlbGen (mmuTlbTag va acc false)
          ((walkVerdict bus p t.2 va acc false).1.result va pa)) := rfl
    rw [htlb]
    by_cases hslot : mmuTlbSlot va' acc' = mmuTlbSlot va acc
    · rw [hslot, Function.update_self]
      intro _ htag
      exact stands_filledEntry caches.tlbGen pa rfl va' acc' false htag
    · rw [Function.update_of_ne hslot]
      exact hentry

theorem hleTranslate_steady (hbus : HleBus bus dram host) (h : Steady bus dram p uses t)
    (huse : uses va acc) (chunk : ℕ) : ∃ caches, hleTranslate bus dram p acc va chunk t =
        (pieceOffset bus dram p t.2 acc va chunk, caches, t.2) ∧
      Steady bus dram p uses (caches, t.2) := by
  obtain ⟨caches, htranslate, hsteady⟩ := translate_steady hbus h huse 0
  refine ⟨caches, ?_, hsteady⟩
  have hblocks : (walkVerdict bus p t.2 va acc false).1.Blocks := blocks_walkVerdict
  simp only [hleTranslate, htranslate, pieceOffset]
  generalize (walkVerdict bus p t.2 va acc false).1 = verdict at *
  cases verdict with
  | fault fsr => exact if_pos hblocks
  | frame base mask =>
    refine (if_neg (not_not.2 rfl)).trans ?_
    by_cases hlow : base ||| (va &&& mask) < dram.base
    · exact (if_pos (.inl hlow)).trans (congrArg (·, caches, t.2) (if_pos (.inl hlow)).symm)
    · have hle : dram.base ≤ base ||| (va &&& mask) := BitVec.not_lt.1 hlow
      have hsub := BitVec.toNat_sub_of_le hle
      by_cases hfits : dram.size < (base ||| (va &&& mask)).toNat - dram.base.toNat + chunk
      · exact (if_pos (.inr (hsub.symm ▸ hfits))).trans
          (congrArg (·, caches, t.2) (if_pos (.inr hfits)).symm)
      · refine (if_neg (not_or.2 ⟨hlow, hsub.symm ▸ hfits⟩)).trans ?_
        exact congrArg (·, caches, t.2)
          ((congrArg some hsub).trans (if_neg (not_or.2 ⟨hlow, hfits⟩)).symm)

theorem hleChunk_pos {remaining : ℕ} (h : 0 < remaining) : 0 < hleChunk va remaining := by
  rw [hleChunk]
  omega

theorem hleChunk_le (va : Word) (remaining : ℕ) : hleChunk va remaining ≤ remaining :=
  min_le_left _ _

theorem hleChunk_block (va : Word) (remaining : ℕ) :
    va.toNat % 1024 + hleChunk va remaining ≤ 1024 := by
  rw [hleChunk]
  omega

/-- What a user reads at each address, where reading is granted. -/
def userView (bus : Bus σ) (dram : Dram) (host : HostPtr) (p : TlbStamp) (ctx : σ) (a : ℕ) :
    Option Octet :=
  (userOffset bus dram p ctx .read (ofNat 32 a)).map fun offset ↦
    bus.hostLoad ctx (host + offset)

theorem ofNat_toNat_add (va : Word) (i : ℕ) : ofNat 32 (va.toNat + i) = va + ofNat 32 i := by
  apply eq_of_toNat_eq
  rw [toNat_ofNat, toNat_add, toNat_ofNat, Nat.add_mod_mod]

theorem some_nil_iff {view : ℕ → Option Octet} {start length : ℕ} (hzero : length = 0)
    (data : List Octet) :
    (some [] : Option (List Octet)) = some data ↔ data.map some = Span.window view start length := by
  rw [hzero, Span.window_zero, map_eq_nil_iff, Option.some.injEq, eq_comm]

theorem hleReadLoop_steady (hbus : HleBus bus dram host) {len : ℕ} (fuel done : ℕ)
    (hfuel : len - done ≤ fuel) (h : Steady bus dram p uses t)
    (huse : ∀ i, done ≤ i → i < len → uses (va + ofNat 32 i) .read) :
    (∃ caches, (hleReadLoop bus dram p host va (hlePieces va len fuel done) t).2 = (caches, t.2) ∧
      Steady bus dram p uses (caches, t.2)) ∧
    ∀ data, (hleReadLoop bus dram p host va (hlePieces va len fuel done) t).1 = some data ↔
      data.map some =
        Span.window (userView bus dram host p t.2) (va.toNat + done) (len - done) := by
  induction fuel generalizing done t with
  | zero => exact ⟨⟨t.1, rfl, h⟩, fun data ↦ some_nil_iff (by omega) data⟩
  | succ fuel ih =>
    rw [hlePieces]
    split
    · next hle => exact ⟨⟨t.1, rfl, h⟩, fun data ↦ some_nil_iff (by omega) data⟩
    · next hmore =>
      have hpos := @hleChunk_pos (va + ofNat 32 done) (len - done) (by omega)
      have hchunk := hleChunk_le (va + ofNat 32 done) (len - done)
      have hblock := hleChunk_block (va + ofNat 32 done) (len - done)
      obtain ⟨caches, htranslate, hsteady⟩ := hleTranslate_steady hbus h
        (huse done le_rfl (by omega)) (hleChunk (va + ofNat 32 done) (len - done))
      simp only [hleReadLoop, htranslate]
      generalize hleChunk (va + ofNat 32 done) (len - done) = chunk at *
      have hview (i : ℕ) : userView bus dram host p t.2 (va.toNat + done + i) =
          (userOffset bus dram p t.2 .read (va + ofNat 32 done + ofNat 32 i)).map
            fun offset ↦ bus.hostLoad t.2 (host + offset) := by
        rw [userView, Nat.add_assoc, ofNat_toNat_add, ofNat_add, BitVec.add_assoc]
      have hsplit : Span.window (userView bus dram host p t.2) (va.toNat + done) (len - done) =
          Span.window (userView bus dram host p t.2) (va.toNat + done) chunk ++
            Span.window (userView bus dram host p t.2) (va.toNat + (done + chunk))
              (len - (done + chunk)) := by
        rw [← Nat.add_assoc, ← Span.window_append]
        congr 1
        omega
      cases hpiece : pieceOffset bus dram p t.2 .read (va + ofNat 32 done) chunk with
      | none =>
        refine ⟨⟨caches, rfl, hsteady⟩, fun data ↦ iff_of_false nofun fun hdata ↦ ?_⟩
        obtain ⟨i, hi, hnone⟩ := exists_of_piece_none hpos hblock hpiece
        have hget := congrArg (fun list ↦ list[i]?) hdata
        simp only [Span.getElem?_window, hview, hnone] at hget
        rw [if_pos (by omega), getElem?_map] at hget
        cases hoctet : data[i]? with
        | none => simp [hoctet] at hget
        | some octet => simp [hoctet] at hget
      | some offset =>
        have hload : (hleLoad bus t.2 (host + offset) chunk).map some =
            Span.window (userView bus dram host p t.2) (va.toNat + done) chunk := by
          rw [hleLoad, map_map]
          apply map_congr_left
          intro i hi
          have hi := mem_range.1 hi
          rw [hview, userOffset_of_piece hblock hpiece hi, Option.map_some, ← Nat.add_assoc]
          rfl
        obtain ⟨⟨after, hstate, hafter⟩, hdata⟩ := @ih (caches, t.2) (done + chunk) (by omega)
          hsteady (fun i hle hlt ↦ huse i (by omega) hlt)
        simp only at hstate hdata ⊢
        generalize hleReadLoop bus dram p host va (hlePieces va len fuel (done + chunk))
          (caches, t.2) = rest at *
        obtain ⟨_ | tail, state⟩ := rest
        · refine ⟨⟨after, hstate, hafter⟩, fun data ↦ iff_of_false nofun fun hall ↦ ?_⟩
          rw [hsplit] at hall
          have htail : (data.drop chunk).map some =
              Span.window (userView bus dram host p t.2) (va.toNat + (done + chunk))
                (len - (done + chunk)) := by
            rw [map_drop, hall, drop_left' (Span.length_window _ _ _)]
          have hsome := (hdata _).2 htail
          contradiction
        · refine ⟨⟨after, hstate, hafter⟩, fun data ↦ ?_⟩
          have htail := (hdata tail).1 rfl
          rw [hsplit, ← hload, ← htail, ← map_append, Option.some.injEq, eq_comm]
          exact (map_injective_iff.2 (Option.some_injective _)).eq_iff.symm

theorem hleRead_steady (hbus : HleBus bus dram host) (hhost : dram.host = some host) (op : ReadOp)
    (h : Steady bus dram p uses t) (huse : ∀ i < op.len, uses (op.va + ofNat 32 i) .read) :
    (∃ caches, (hleRead bus dram p op t).2 = (caches, t.2) ∧ Steady bus dram p uses (caches, t.2)) ∧
    ∀ data, (hleRead bus dram p op t).1 = some data ↔ hleRange op.va op.len = true ∧
      data.map some = Span.window (userView bus dram host p t.2) op.va.toNat op.len := by
  simp only [hleRead, hhost]
  split
  · next hrange =>
    obtain ⟨hstate, hdata⟩ := @hleReadLoop_steady σ bus dram host p op.va uses t hbus op.len
      op.len 0 (by omega) h (fun i _ hi ↦ huse i hi)
    refine ⟨hstate, fun data ↦ ?_⟩
    rw [hdata data]
    exact (and_iff_right hrange).symm
  · next hrange => exact ⟨⟨t.1, rfl, h⟩, fun data ↦ iff_of_false nofun fun hall ↦ hrange hall.1⟩

theorem hleValidate_steady (hbus : HleBus bus dram host) {len : ℕ} (fuel done : ℕ)
    (hfuel : len - done ≤ fuel) (h : Steady bus dram p uses t)
    (huse : ∀ i, done ≤ i → i < len → uses (va + ofNat 32 i) .write) :
    (∃ caches, (hleValidate bus dram p va (hlePieces va len fuel done) t).2 = (caches, t.2) ∧
      Steady bus dram p uses (caches, t.2)) ∧
    ((hleValidate bus dram p va (hlePieces va len fuel done) t).1 = true ↔ ∀ i, done ≤ i → i < len →
        (userOffset bus dram p t.2 .write (va + ofNat 32 i)).isSome) := by
  induction fuel generalizing done t with
  | zero => exact ⟨⟨t.1, rfl, h⟩, iff_of_true rfl fun i hle hlt ↦ by omega⟩
  | succ fuel ih =>
    rw [hlePieces]
    split
    · next hle => exact ⟨⟨t.1, rfl, h⟩, iff_of_true rfl fun i hle hlt ↦ by omega⟩
    · next hmore =>
      have hpos := @hleChunk_pos (va + ofNat 32 done) (len - done) (by omega)
      have hchunk := hleChunk_le (va + ofNat 32 done) (len - done)
      have hblock := hleChunk_block (va + ofNat 32 done) (len - done)
      obtain ⟨caches, htranslate, hsteady⟩ := hleTranslate_steady hbus h
        (huse done le_rfl (by omega)) (hleChunk (va + ofNat 32 done) (len - done))
      simp only [hleValidate, htranslate]
      generalize hleChunk (va + ofNat 32 done) (len - done) = chunk at *
      have hshift (i : ℕ) : va + ofNat 32 done + ofNat 32 i = va + ofNat 32 (done + i) := by
        rw [ofNat_add, BitVec.add_assoc]
      cases hpiece : pieceOffset bus dram p t.2 .write (va + ofNat 32 done) chunk with
      | none =>
        refine ⟨⟨caches, rfl, hsteady⟩, iff_of_false nofun fun hall ↦ ?_⟩
        obtain ⟨i, hi, hnone⟩ := exists_of_piece_none hpos hblock hpiece
        have hsome := hall (done + i) (by omega) (by omega)
        rw [← hshift, hnone] at hsome
        contradiction
      | some offset =>
        obtain ⟨hstate, hgranted⟩ := @ih (caches, t.2) (done + chunk) (by omega) hsteady
          (fun i hle hlt ↦ huse i (by omega) hlt)
        refine ⟨hstate, hgranted.trans ⟨fun hall i hle hlt ↦ ?_, fun hall i hle hlt ↦ ?_⟩⟩
        · by_cases hi : i < done + chunk
          · have hoffset := userOffset_of_piece hblock hpiece (show i - done < chunk by omega)
            rw [hshift, Nat.add_sub_cancel' hle] at hoffset
            rw [hoffset]
            rfl
          · exact hall i (by omega) hlt
        · exact hall i (by omega) hlt

/-- What `hle_writev` asks of a span before it writes anything. -/
def Granted (bus : Bus σ) (dram : Dram) (p : TlbStamp) (ctx : σ) (span : Span) : Prop :=
  hleRange span.va span.src.length = true ∧ ∀ i < span.src.length,
    (userOffset bus dram p ctx .write (span.va + ofNat 32 i)).isSome

theorem hleValidateSpans_steady (hbus : HleBus bus dram host) (spans : List Span)
    (h : Steady bus dram p uses t)
    (huse : ∀ span ∈ spans, ∀ i < span.src.length, uses (span.va + ofNat 32 i) .write) :
    (∃ caches, (hleValidateSpans bus dram p spans t).2 = (caches, t.2) ∧
      Steady bus dram p uses (caches, t.2)) ∧
    ((hleValidateSpans bus dram p spans t).1 = true ↔
      ∀ span ∈ spans, Granted bus dram p t.2 span) := by
  induction spans generalizing t with
  | nil => exact ⟨⟨t.1, rfl, h⟩, iff_of_true rfl (by simp)⟩
  | cons span rest ih =>
    rw [hleValidateSpans]
    rw [forall_mem_cons] at huse
    split
    · next hrange =>
      refine ⟨⟨t.1, rfl, h⟩, iff_of_false nofun fun hall ↦ ?_⟩
      have hgood := (hall span mem_cons_self).1
      rw [hgood] at hrange
      contradiction
    · next hrange =>
      have hrange : hleRange span.va span.src.length = true := by simpa using hrange
      obtain ⟨⟨caches, hstate, hsteady⟩, hgranted⟩ := @hleValidate_steady σ bus dram host p
        span.va uses t hbus span.src.length span.src.length 0 (by omega) h
        (fun i _ hi ↦ huse.1 i hi)
      have hspan : (hleValidate bus dram p span.va
          (hlePieces span.va span.src.length span.src.length 0) t).1 = true ↔
            Granted bus dram p t.2 span := by
        rw [hgranted, Granted, and_iff_right hrange]
        exact forall_congr' fun i ↦ imp_iff_right (Nat.zero_le i)
      generalize hleValidate bus dram p span.va
        (hlePieces span.va span.src.length span.src.length 0) t = answer at *
      obtain ⟨_ | _, state⟩ := answer
      · refine ⟨⟨caches, hstate, hsteady⟩, iff_of_false nofun fun hall ↦ ?_⟩
        have hfalse := hspan.2 (hall span mem_cons_self)
        contradiction
      · simp only at hstate
        subst hstate
        obtain ⟨hrest, hall⟩ := ih hsteady huse.2
        refine ⟨hrest, hall.trans ?_⟩
        rw [forall_mem_cons]
        exact (and_iff_right (hspan.1 rfl)).symm

/-- A store at this offset leaves the tables of the uses alone. -/
def TablesApart (bus : Bus σ) (dram : Dram) (p : TlbStamp) (base : σ)
    (uses : Word → Access → Prop) (offset : ℕ) : Prop :=
  ∀ va acc, uses va acc → ∀ w ∈ walkWords bus p base va,
    offset < (w.1 - dram.base).toNat ∨ (w.1 - dram.base).toNat + 4 ≤ offset

/-- Steady translations through the tables of another memory. -/
structure Kept (bus : Bus σ) (dram : Dram) (p : TlbStamp) (uses : Word → Access → Prop) (base : σ)
    (t : Caches × σ) : Prop where
  steady : Steady bus dram p uses t
  words : ∀ va acc, uses va acc → walkWords bus p t.2 va = walkWords bus p base va

theorem Steady.kept (h : Steady bus dram p uses t) : Kept bus dram p uses t.2 t :=
  ⟨h, fun _ _ _ ↦ rfl⟩

variable {base : σ}

theorem Kept.userOffset_eq (h : Kept bus dram p uses base t) (huse : uses va acc)
    (acc' : Access) : userOffset bus dram p t.2 acc' va = userOffset bus dram p base acc' va := by
  rw [userOffset, userOffset, walkVerdict_of_words (h.words va acc huse)]

theorem Verdict.offset_lt {verdict : Verdict}
    (h : Verdict.offset dram va chunk verdict = some offset) : offset + chunk ≤ dram.size := by
  cases verdict with
  | fault fsr => contradiction
  | frame base mask =>
    rw [Verdict.offset] at h
    split at h
    · contradiction
    · rw [Option.some.injEq] at h
      omega

theorem userOffset_lt (h : userOffset bus dram p ctx acc va = some offset) :
    offset < dram.size := Verdict.offset_lt h

theorem walkWords_store (hbus : HleBus bus dram host) (octet : Octet) (hsize : offset < dram.size)
    (htables : ∀ w ∈ walkWords bus p ctx va, InDram dram w.1)
    (hapart : ∀ w ∈ walkWords bus p ctx va,
      offset < (w.1 - dram.base).toNat ∨ (w.1 - dram.base).toNat + 4 ≤ offset) :
    walkWords bus p (bus.hostStore ctx (host + offset) octet) va = walkWords bus p ctx va := by
  have hread (pa : Word) (hin : InDram dram pa)
      (hpa : offset < (pa - dram.base).toNat ∨ (pa - dram.base).toNat + 4 ≤ offset) :
      bus.read32 (bus.hostStore ctx (host + offset) octet) pa =
        ((bus.read32 ctx pa).1, bus.hostStore ctx (host + offset) octet) :=
    Prod.ext (hbus.storeRead ctx offset octet pa hsize hin hpa) (hbus.readDram _ pa hin)
  have hwords : ∀ w ∈ walkWords bus p ctx va, InDram dram w.1 ∧
      (offset < (w.1 - dram.base).toNat ∨ (w.1 - dram.base).toNat + 4 ≤ offset) :=
    fun w hw ↦ ⟨htables w hw, hapart w hw⟩
  clear htables hapart
  unfold walkWords at *
  by_cases hM : (!p.flag sctlrM) = true
  · rw [if_pos hM, if_pos hM]
  rw [if_neg hM] at hwords
  rw [if_neg hM, if_neg hM]
  by_cases hoff : p.ttbcr &&& (if usesTtbr0 p va then 0x10 else 0x20) ≠ 0
  · rw [if_pos hoff, if_pos hoff]
  rw [if_neg hoff] at hwords
  rw [if_neg hoff, if_neg hoff]
  obtain ⟨hin, hout⟩ := hwords (l1Address p va, (bus.read32 ctx (l1Address p va)).1) (by
    simp only
    split
    · exact mem_singleton_self _
    · exact mem_cons_self)
  rw [hread _ hin hout]
  have hsame := hbus.readDram ctx _ hin
  generalize bus.read32 ctx (l1Address p va) = first at *
  obtain ⟨l1, after⟩ := first
  simp only at hsame hwords ⊢
  subst hsame
  split
  · rfl
  · next hpage =>
    rw [if_neg hpage] at hwords
    have hsecond : ((l2Address va l1, (bus.read32 after (l2Address va l1)).1) : Word × Word) ∈
        [(l1Address p va, l1), (l2Address va l1, (bus.read32 after (l2Address va l1)).1)] :=
      mem_cons_of_mem _ mem_cons_self
    rw [hread _ (hwords _ hsecond).1 (hwords _ hsecond).2]

theorem Kept.store (hbus : HleBus bus dram host) (h : Kept bus dram p uses base t) (octet : Octet)
    (hsize : offset < dram.size) (hapart : TablesApart bus dram p base uses offset) :
    Kept bus dram p uses base (t.1, bus.hostStore t.2 (host + offset) octet) := by
  have hsame (va : Word) (acc : Access) (huse : uses va acc) :
      walkWords bus p (bus.hostStore t.2 (host + offset) octet) va = walkWords bus p t.2 va := by
    apply walkWords_store hbus octet hsize (h.steady.tables va acc huse)
    rw [h.words va acc huse]
    exact hapart va acc huse
  refine ⟨⟨fun va acc huse ↦ ?_, fun va acc huse ↦ ?_⟩, fun va acc huse ↦ ?_⟩
  · rw [hsame va acc huse]
    exact h.steady.tables va acc huse
  · have hagrees := h.steady.agrees va acc huse
    simp only [Agrees] at hagrees ⊢
    rw [walkVerdict_of_words (hsame va acc huse)]
    exact hagrees
  · rw [hsame va acc huse, h.words va acc huse]

/-- The offset of an address that may be written. -/
def place (bus : Bus σ) (dram : Dram) (p : TlbStamp) (base : σ) (va : Word) : ℕ :=
  (userOffset bus dram p base .write va).getD 0

/-- Octets laid one after the other from octet `i` of a span on, through the tables of `base`. -/
def layOctets (bus : Bus σ) (dram : Dram) (host : HostPtr) (p : TlbStamp) (base : σ) (va : Word) :
    List Octet → ℕ → σ → σ
  | [], _, ctx => ctx
  | octet :: rest, i, ctx =>
    layOctets bus dram host p base va rest (i + 1)
      (bus.hostStore ctx (host + place bus dram p base (va + ofNat 32 i)) octet)

theorem layOctets_append (first second : List Octet) (i : ℕ) (ctx : σ) :
    layOctets bus dram host p base va (first ++ second) i ctx =
      layOctets bus dram host p base va second (i + first.length)
        (layOctets bus dram host p base va first i ctx) := by
  induction first generalizing i ctx with
  | nil => rfl
  | cons octet rest ih =>
    rw [cons_append, layOctets, layOctets, ih, length_cons]
    congr 1
    omega

theorem layOctets_shift (data : List Octet) (done i : ℕ) (ctx : σ) :
    layOctets bus dram host p base (va + ofNat 32 done) data i ctx =
      layOctets bus dram host p base va data (done + i) ctx := by
  induction data generalizing i ctx with
  | nil => rfl
  | cons octet rest ih =>
    rw [layOctets, layOctets, ih, BitVec.add_assoc, ← ofNat_add, Nat.add_assoc]

theorem hleStore_eq_layOctets (data : List Octet) (start done : ℕ) (ctx : σ) (h : ∀ i < data.length,
      place bus dram p base (va + ofNat 32 (done + i)) = offset + start + i) :
    (data.zipIdx start).foldl
        (fun ctx (octet, i) ↦ bus.hostStore ctx (host + offset + i) octet) ctx =
      layOctets bus dram host p base va data done ctx := by
  induction data generalizing start done ctx with
  | nil => rfl
  | cons octet rest ih =>
    have hfirst := h 0 (Nat.succ_pos _)
    rw [Nat.add_zero, Nat.add_zero] at hfirst
    rw [zipIdx_cons, foldl_cons, layOctets, hfirst]
    simp only
    rw [Nat.add_assoc, ih (start + 1) (done + 1)]
    intro i hi
    have hnext := h (i + 1) (Nat.succ_lt_succ hi)
    rw [show done + 1 + i = done + (i + 1) by omega, hnext]
    omega

theorem Kept.lay (hbus : HleBus bus dram host) (h : Kept bus dram p uses base t)
    (data : List Octet) (i : ℕ) (hplace : ∀ k < data.length,
      (userOffset bus dram p base .write (va + ofNat 32 (i + k))).isSome ∧
        TablesApart bus dram p base uses (place bus dram p base (va + ofNat 32 (i + k)))) :
    Kept bus dram p uses base (t.1, layOctets bus dram host p base va data i t.2) := by
  induction data generalizing i t with
  | nil => exact h
  | cons octet rest ih =>
    obtain ⟨hsome, hapart⟩ := hplace 0 (Nat.succ_pos _)
    obtain ⟨offset, hoffset⟩ := Option.isSome_iff_exists.1 hsome
    have hsize := userOffset_lt hoffset
    have heq : place bus dram p base (va + ofNat 32 (i + 0)) = offset := by
      rw [place, hoffset, Option.getD_some]
    rw [heq] at hapart
    rw [Nat.add_zero] at heq
    rw [layOctets, heq]
    apply ih (h.store hbus octet hsize hapart)
    intro k hk
    have hnext := hplace (k + 1) (Nat.succ_lt_succ hk)
    rwa [show i + 1 + k = i + (k + 1) by omega]

theorem offset_of_piece {pa : ℕ} {verdict : Verdict}
    (h : Verdict.offset dram va chunk verdict = some offset) (init : Word)
    (hpa : pa = ((verdict.result va init).2 - dram.base).toNat) : pa = offset := by
  cases verdict with
  | fault fsr => contradiction
  | frame base mask =>
    rw [Verdict.offset] at h
    split at h
    · contradiction
    · next hfits =>
      rw [Option.some.injEq] at h
      have hle : dram.base ≤ base ||| (va &&& mask) := by
        rw [BitVec.le_def]
        omega
      rw [hpa, Verdict.result, BitVec.toNat_sub_of_le hle, h]

/-- The second loop of a publication of granted octets lays them, as long as none of them is part
of a table. -/
theorem hlePublish_kept (hbus : HleBus bus dram host) (span : Span) (fuel done : ℕ)
    (hfuel : span.src.length - done ≤ fuel) (h : Kept bus dram p uses base t)
    (huse : ∀ i < span.src.length, uses (span.va + ofNat 32 i) .write)
    (hplace : ∀ i < span.src.length,
      (userOffset bus dram p base .write (span.va + ofNat 32 i)).isSome ∧
        TablesApart bus dram p base uses (place bus dram p base (span.va + ofNat 32 i))) :
    ∃ caches, hlePublish bus dram p host span
        (hlePieces span.va span.src.length fuel done) t =
          (caches, layOctets bus dram host p base span.va (span.src.drop done) done t.2) ∧
      Kept bus dram p uses base
        (caches, layOctets bus dram host p base span.va (span.src.drop done) done t.2) := by
  induction fuel generalizing done t with
  | zero =>
    rw [drop_eq_nil_of_le (by omega)]
    exact ⟨t.1, rfl, h⟩
  | succ fuel ih =>
    rw [hlePieces]
    split
    · next hle =>
      rw [drop_eq_nil_of_le hle]
      exact ⟨t.1, rfl, h⟩
    · next hmore =>
      have hpos := @hleChunk_pos (span.va + ofNat 32 done) (span.src.length - done)
        (by omega)
      have hchunk := hleChunk_le (span.va + ofNat 32 done) (span.src.length - done)
      have hblock := hleChunk_block (span.va + ofNat 32 done) (span.src.length - done)
      have hfirst := huse done (by omega)
      obtain ⟨caches, htranslate, hsteady⟩ := translate_steady hbus h.steady hfirst 0
      rw [walkVerdict_of_words (h.words _ _ hfirst)] at htranslate
      simp only [hlePublish, htranslate]
      generalize hleChunk (span.va + ofNat 32 done) (span.src.length - done) = chunk at *
      have hshift (i : ℕ) : span.va + ofNat 32 done + ofNat 32 i =
          span.va + ofNat 32 (done + i) := by
        rw [ofNat_add, BitVec.add_assoc]
      cases hpiece : pieceOffset bus dram p base .write (span.va + ofNat 32 done) chunk with
      | none =>
        obtain ⟨i, hi, hnone⟩ := exists_of_piece_none hpos hblock hpiece
        have hsome := (hplace (done + i) (by omega)).1
        rw [← hshift, hnone] at hsome
        contradiction
      | some offset =>
        have hdata : ((span.src.drop done).take chunk).length = chunk := by
          rw [length_take, length_drop]
          omega
        have hlay : hleStore bus t.2 (host + ((((walkVerdict bus p base
              (span.va + ofNat 32 done) .write false).1.result
              (span.va + ofNat 32 done) 0).2 - dram.base).toNat))
              ((span.src.drop done).take chunk) =
            layOctets bus dram host p base span.va ((span.src.drop done).take chunk) done t.2 := by
          rw [offset_of_piece hpiece 0 rfl]
          apply hleStore_eq_layOctets
          intro i hi
          rw [hdata] at hi
          rw [place, ← hshift, userOffset_of_piece hblock hpiece hi, Option.getD_some, Nat.add_zero]
        rw [hlay]
        have hkept : Kept bus dram p uses base (caches, t.2) := ⟨hsteady, h.words⟩
        have hlaid := @Kept.lay σ bus dram host p span.va uses (caches, t.2) base hbus hkept
          ((span.src.drop done).take chunk) done (fun k hk ↦ hplace (done + k) (by
            rw [hdata] at hk
            omega))
        obtain ⟨after, hrest, hafter⟩ := ih (done + chunk) (by omega) hlaid
        have hsplit : layOctets bus dram host p base span.va (span.src.drop done) done t.2 =
            layOctets bus dram host p base span.va (span.src.drop (done + chunk)) (done + chunk)
              (layOctets bus dram host p base span.va ((span.src.drop done).take chunk) done
                t.2) := by
          conv_lhs => rw [← take_append_drop chunk (span.src.drop done)]
          rw [layOctets_append, hdata, drop_drop]
        rw [hsplit]
        exact ⟨after, hrest, hafter⟩

end S5LBox.Hle
