import S5LBox.Arm.FastPath
import S5LBox.Arm.Permission

/-!
# Accesses octet by octet

An access translates its first octet, and its first octet past a 4 KB boundary, and takes the
other octets to follow. The translations of all the octets agree with that, except that the four
1 KB subpages of a legacy small page have permissions of their own: an access that leaves a subpage
inside its page is checked against the first one only.
-/

namespace S5LBox.Arm

open Program
open BitVec (eq_of_toNat_eq getElem_and getElem_not ofNat toNat_and toNat_ushiftRight)

variable {σ : Type} {bus : Bus σ} {p : TlbStamp} {base ctx : σ} {va : Word} {acc : Access}
  {priv : Bool}

/-- Two addresses of one 4 KB page. -/
def SamePage (va va' : Word) : Prop := va >>> 12 = va' >>> 12

variable {va' pagePa : Word} {i n : ℕ} {t : Walked σ}

theorem SamePage.shift (h : SamePage va va') (k : ℕ) : va >>> (12 + k) = va' >>> (12 + k) := by
  rw [BitVec.shiftRight_add, BitVec.shiftRight_add, h]

theorem SamePage.usesTtbr0 (h : SamePage va va') : usesTtbr0 p va = usesTtbr0 p va' := by
  have hn : (p.ttbcr &&& 7).toNat ≤ 7 := by
    rw [toNat_and]
    exact Nat.and_le_right
  have hshift : va >>> (32 - (p.ttbcr &&& 7).toNat) = va' >>> (32 - (p.ttbcr &&& 7).toNat) := by
    have hk : 32 - (p.ttbcr &&& 7).toNat = 12 + (20 - (p.ttbcr &&& 7).toNat) := by omega
    rw [hk]
    exact h.shift _
  unfold Arm.usesTtbr0
  simp only [hshift]

theorem SamePage.l1Address (h : SamePage va va') : l1Address p va = l1Address p va' := by
  have hshift : va >>> 20 = va' >>> 20 := h.shift 8
  unfold Arm.l1Address
  rw [h.usesTtbr0, hshift]

theorem SamePage.l2Address (h : SamePage va va') (l1 : Word) :
    l2Address va l1 = l2Address va' l1 := by
  have hshift : va >>> 12 = va' >>> 12 := h
  rw [Arm.l2Address, Arm.l2Address, hshift]

/-- Two verdicts that do not permit with different frames. -/
def Verdict.Compatible : Verdict → Verdict → Prop
  | .frame base mask, .frame base' mask' => base = base' ∧ mask = mask'
  | _, _ => True

theorem Verdict.Compatible.refl (v : Verdict) : v.Compatible v := by
  cases v with
  | fault fsr => trivial
  | frame base mask => exact ⟨rfl, rfl⟩

theorem Verdict.Compatible.fault (v : Verdict) (fsr : Word) : v.Compatible (.fault fsr) := by
  cases v <;> trivial

theorem compatible_pageVerdict (va va' domain dac l2 : Word) :
    (pageVerdict p va acc priv domain dac l2).Compatible
      (pageVerdict p va' acc priv domain dac l2) := by
  unfold pageVerdict
  dsimp only
  by_cases hfault : l2 &&& 3 = 0
  · rw [if_pos hfault, if_pos hfault]
    trivial
  rw [if_neg hfault, if_neg hfault]
  split
  · trivial
  split <;> split
  · exact .fault _ _
  · exact .refl _
  · exact .fault _ _
  · exact .refl _

theorem compatible_walkVerdict (h : SamePage va va') :
    (walkVerdict bus p ctx va acc priv).1.Compatible (walkVerdict bus p ctx va' acc priv).1 := by
  let compatible (x x' : Verdict × σ) : Prop := x.1.Compatible x'.1
  show compatible (walkVerdict bus p ctx va acc priv) (walkVerdict bus p ctx va' acc priv)
  unfold walkVerdict
  simp only [h.usesTtbr0, h.l1Address, h.l2Address]
  apply ite_related (R := compatible) (Verdict.Compatible.refl _)
  apply ite_related (R := compatible) (Verdict.Compatible.refl _)
  apply ite_related (R := compatible) (Verdict.Compatible.refl _)
  apply ite_related (R := compatible) (Verdict.Compatible.refl _)
  apply compatible_pageVerdict

/-- What `arm_mmu_translate` answers for the octet at an offset of an access. -/
def octetTranslation (bus : Bus σ) (p : TlbStamp) (h : Caches) (ctx : σ) (va : Word)
    (acc : Access) (priv : Bool) (i : ℕ) : Word × Word :=
  (armMmuTranslate bus p h ctx (va + ofNat 32 i) acc priv 0).1

/-- The first octet of an access that does not translate. -/
def FirstFault (t : ℕ → Word × Word) (n i : ℕ) : Prop :=
  i < n ∧ (t i).1 ≠ 0 ∧ ∀ j < i, (t j).1 = 0

/-- A load is the loads of its octets: it completes with them when they all translate, and is
aborted by the first that does not. -/
structure LoadsOctets (bus : Bus σ) (width : Width) (c : Core) (va : Word) (priv : Bool)
    (h : Caches) (ctx : σ) : Prop where
  completes :
    let t := octetTranslation bus c.cp15.stamp h ctx va .read priv
    (∀ i < width.bytes, (t i).1 = 0) →
      (run (busHandler bus) (memReadAs width c va priv) (h, ctx)).1 =
        (littleEndian (fun i ↦ (bus.read8 ctx (t i).2).1) width.bytes, c)
  aborts :
    let t := octetTranslation bus c.cp15.stamp h ctx va .read priv
    ∀ i, FirstFault t width.bytes i →
      (run (busHandler bus) (memReadAs width c va priv) (h, ctx)).1 =
        (0, c.noteAbort (t i).1 (va + ofNat 32 i))

/-- A store is the stores of its octets, in the same sense. -/
structure StoresOctets (bus : Bus σ) (width : Width) (c : Core) (va value : Word) (priv : Bool)
    (h : Caches) (ctx : σ) : Prop where
  completes :
    let t := octetTranslation bus c.cp15.stamp h ctx va .write priv
    let x := run (busHandler bus) (memWriteAs width c va value priv) (h, ctx)
    (∀ i < width.bytes, (t i).1 = 0) → x.1 = c ∧
      x.2.2 = storeOctets (fun ctx i octet ↦ bus.write8 ctx (t i).2 octet) ctx value width.bytes
  aborts :
    let t := octetTranslation bus c.cp15.stamp h ctx va .write priv
    ∀ i, FirstFault t width.bytes i →
      (run (busHandler bus) (memWriteAs width c va value priv) (h, ctx)).1 =
        c.noteAbort (t i).1 (va + ofNat 32 i)

/-- An access inside a page whose first octet translates and a later one does not. -/
def LeavesSubpage (bus : Bus σ) (p : TlbStamp) (h : Caches) (ctx : σ) (width : Width) (va : Word)
    (acc : Access) (priv : Bool) : Prop :=
  memCrossesPage va width.bytes = false ∧ (octetTranslation bus p h ctx va acc priv 0).1 = 0 ∧
    ∃ i < width.bytes, (octetTranslation bus p h ctx va acc priv i).1 ≠ 0

theorem pageMask_bit : ∀ i : Fin 32, (0xfff : Word).getLsb i = decide (i.val < 12) := by decide

theorem frame_of_page {base mask : Word} (hbase : base &&& 0xfff = 0)
    (hmask : mask &&& 0xfff = 0xfff) (h : SamePage va va') :
    ((base ||| (va &&& mask)) &&& ~~~0xfff) ||| (va' &&& 0xfff) = base ||| (va' &&& mask) := by
  ext i hi
  have hb := congrArg (fun w : Word ↦ w[i]) hbase
  have hm := congrArg (fun w : Word ↦ w[i]) hmask
  have hlow : (0xfff : Word)[i] = decide (i < 12) := pageMask_bit ⟨i, hi⟩
  simp only [getElem_and, BitVec.getElem_or, getElem_not, hlow] at hb hm ⊢
  by_cases h12 : i < 12
  · simp only [h12, decide_true, Bool.and_true] at hb hm ⊢
    simp [hb, hm]
  · have hbit : va[i] = va'[i] := by
      have hshift := congrArg (fun w : Word ↦ w.getLsbD (i - 12)) h
      simp only [BitVec.getLsbD_ushiftRight] at hshift
      have hsum : 12 + (i - 12) = i := by omega
      rwa [hsum, BitVec.getLsbD_eq_getElem hi, BitVec.getLsbD_eq_getElem hi] at hshift
    simp [h12, hbit]

theorem page_add (pa low : Word) :
    (pa &&& ~~~0xfff) ||| (low &&& 0xfff) = (pa &&& ~~~0xfff) + (low &&& 0xfff) := by
  rw [BitVec.add_eq_or_of_and_eq_zero]
  ext i hi
  simp only [getElem_and, getElem_not, BitVec.getElem_zero]
  cases pa[i] <;> cases (0xfff : Word)[i] <;> simp

theorem toNat_and_page (va : Word) : (va &&& 0xfff).toNat = va.toNat % 0x1000 := by
  rw [toNat_and]
  exact Nat.and_two_pow_sub_one_eq_mod va.toNat 12

theorem toNat_offset (va : Word) (h : i < 0x1000) :
    (va + ofNat 32 i).toNat = (va.toNat + i) % 2 ^ 32 := by
  rw [BitVec.toNat_add, BitVec.toNat_ofNat, Nat.mod_eq_of_lt (show i < 2 ^ 32 by omega)]

theorem samePage_offset (h : (va &&& 0xfff).toNat + i < 0x1000) : SamePage va (va + ofNat 32 i) ∧
      (va + ofNat 32 i) &&& 0xfff = (va &&& 0xfff) + ofNat 32 i := by
  rw [toNat_and_page] at h
  have hoffset := toNat_offset va (show i < 0x1000 by omega)
  constructor
  · apply eq_of_toNat_eq
    rw [toNat_ushiftRight, toNat_ushiftRight, hoffset, Nat.shiftRight_eq_div_pow,
      Nat.shiftRight_eq_div_pow]
    omega
  · apply eq_of_toNat_eq
    rw [toNat_and_page, hoffset, toNat_offset _ (by omega), toNat_and_page]
    omega

theorem sameBlock_succ (hn : n ≤ 4) (hcross : memCrossesPage va n = true) (hi : i + 1 < n)
    (hpage : (va + ofNat 32 (i + 1)) &&& 0xfff ≠ 0) :
    SameBlock (va + ofNat 32 i) (va + ofNat 32 (i + 1)) := by
  have hcross' : 0x1000 < (va &&& 0xfff).toNat + n := by simpa [memCrossesPage] using hcross
  rw [toNat_and_page] at hcross'
  have hne : ((va + ofNat 32 (i + 1)) &&& 0xfff).toNat ≠ 0 := fun h ↦
    hpage (eq_of_toNat_eq h)
  rw [toNat_and_page, toNat_offset _ (by omega)] at hne
  apply eq_of_toNat_eq
  rw [toNat_ushiftRight, toNat_ushiftRight, toNat_offset _ (by omega),
    toNat_offset _ (by omega), Nat.shiftRight_eq_div_pow, Nat.shiftRight_eq_div_pow]
  omega

/-- The verdict for the octet at an offset. -/
def octetVerdict (bus : Bus σ) (p : TlbStamp) (base : σ) (va : Word) (acc : Access) (priv : Bool)
    (i : ℕ) : Word × Word :=
  (walkVerdict bus p base (va + ofNat 32 i) acc priv).1.result (va + ofNat 32 i) 0

/-- A verdict that permits does so whatever the caller's address holds. -/
theorem result_eq (verdict : Verdict) (va pa : Word) :
    (verdict.result va pa).1 = (verdict.result va 0).1 ∧
      ((verdict.result va 0).1 = 0 → verdict.Paged → verdict.result va pa = verdict.result va 0) := by
  cases verdict with
  | fault fsr => exact ⟨rfl, fun h hpaged ↦ absurd h hpaged⟩
  | frame base mask => exact ⟨rfl, fun _ _ ↦ rfl⟩

theorem octetVerdict_page {j : ℕ} (hpage : SamePage (va + ofNat 32 i) (va + ofNat 32 j))
    (hi : (octetVerdict bus p base va acc priv i).1 = 0)
    (hj : (octetVerdict bus p base va acc priv j).1 = 0) :
    (octetVerdict bus p base va acc priv j).2 =
      ((octetVerdict bus p base va acc priv i).2 &&& ~~~0xfff) |||
        ((va + ofNat 32 j) &&& 0xfff) := by
  have hcompatible : (walkVerdict bus p base (va + ofNat 32 i) acc priv).1.Compatible
      (walkVerdict bus p base (va + ofNat 32 j) acc priv).1 := compatible_walkVerdict hpage
  have hpaged := paged_walkVerdict bus p base (va + ofNat 32 i) acc priv
  have hpaged' := paged_walkVerdict bus p base (va + ofNat 32 j) acc priv
  unfold octetVerdict at *
  generalize (walkVerdict bus p base (va + ofNat 32 i) acc priv).1 = v at *
  generalize (walkVerdict bus p base (va + ofNat 32 j) acc priv).1 = v' at *
  cases v with
  | fault fsr => exact absurd hi hpaged
  | frame base mask =>
    cases v' with
    | fault fsr => exact absurd hj hpaged'
    | frame base' mask' =>
      obtain ⟨rfl, rfl⟩ := hcompatible
      exact (frame_of_page hpaged.1 hpaged.2 hpage).symm

theorem octetVerdict_block {i j : ℕ} (hblock : SameBlock (va + ofNat 32 i) (va + ofNat 32 j)) :
    (octetVerdict bus p base va acc priv i).1 = (octetVerdict bus p base va acc priv j).1 := by
  unfold octetVerdict
  rw [walkVerdict_congr hblock]
  cases (walkVerdict bus p base (va + ofNat 32 j) acc priv).1 with
  | fault fsr => rfl
  | frame base mask => rfl

theorem samePage_of_sameBlock (h : SameBlock va va') : SamePage va va' := h.shift 2

theorem octetVerdict_inside (hcross : memCrossesPage va n = false) (hi : i < n)
    (hfirst : (octetVerdict bus p base va acc priv 0).1 = 0)
    (hok : (octetVerdict bus p base va acc priv i).1 = 0) :
    (octetVerdict bus p base va acc priv i).2 =
      (octetVerdict bus p base va acc priv 0).2 + ofNat 32 i := by
  have hinside : (va &&& 0xfff).toNat + n ≤ 0x1000 := by simpa [memCrossesPage] using hcross
  have hzero : va + ofNat 32 0 = va := BitVec.add_zero va
  obtain ⟨hpage, hoffset⟩ := samePage_offset (show (va &&& 0xfff).toNat + i < 0x1000 by omega)
  rw [← hzero] at hpage
  have hself := octetVerdict_page (show SamePage (va + ofNat 32 0) (va + ofNat 32 0)
    from rfl) hfirst hfirst
  have hother := octetVerdict_page (by rwa [hzero, hzero] at *) hfirst hok
  rw [hzero, page_add] at hself
  rw [page_add, hoffset, ← BitVec.add_assoc, ← hself] at hother
  exact hother

theorem refTranslate_octet {t : Walked σ} {i : ℕ} {pagePa : Word}
    (hwords : walkWords bus p base (va + ofNat 32 i) = walkWords bus p t.ctx (va + ofNat 32 i)) :
    let x := (refTranslate bus.slow p t (va + ofNat 32 i) acc priv pagePa).1
    x.1 = (octetVerdict bus p base va acc priv i).1 ∧
      ((octetVerdict bus p base va acc priv i).1 = 0 →
        x = octetVerdict bus p base va acc priv i) := by
  intro x
  have hx : x = (walkVerdict bus p base (va + ofNat 32 i) acc priv).1.result
      (va + ofNat 32 i) pagePa := by
    rw [walkVerdict_of_words hwords]
    rfl
  obtain ⟨hfsr, hsame⟩ := result_eq
    (walkVerdict bus p base (va + ofNat 32 i) acc priv).1 (va + ofNat 32 i) pagePa
  rw [hx]
  exact ⟨hfsr, fun hok ↦ hsame hok (paged_walkVerdict ..)⟩

/-- The page an octet of a crossing access is reached through, before its translation. -/
def PageBehind (bus : Bus σ) (p : TlbStamp) (base : σ) (va : Word) (acc : Access) (priv : Bool)
    (i : ℕ) (pagePa : Word) : Prop :=
  ∀ j, i = j + 1 → (octetVerdict bus p base va acc priv j).1 = 0 ∧
    pagePa = (octetVerdict bus p base va acc priv j).2 &&& ~~~0xfff

theorem crossing_octet (hn : n ≤ 4) (hcross : memCrossesPage va n = true) (hi : i < n)
    (hbehind : PageBehind bus p base va acc priv i pagePa) {x : (Word × Word) × Walked σ}
    (hx : (if i = 0 ∨ (va + ofNat 32 i) &&& 0xfff = 0 then
      refTranslate bus.slow p t (va + ofNat 32 i) acc priv pagePa else ((0, pagePa), t)) = x)
    (hwords : walkWords bus p base (va + ofNat 32 i) = walkWords bus p t.ctx (va + ofNat 32 i)) :
    x.1.1 = (octetVerdict bus p base va acc priv i).1 ∧
      ((octetVerdict bus p base va acc priv i).1 = 0 →
        (x.1.2 &&& ~~~0xfff) = (octetVerdict bus p base va acc priv i).2 &&& ~~~0xfff) := by
  subst hx
  by_cases hpage : i = 0 ∨ (va + ofNat 32 i) &&& 0xfff = 0
  · rw [if_pos hpage]
    obtain ⟨hfsr, hsame⟩ := @refTranslate_octet _ bus p base va acc priv t i pagePa hwords
    exact ⟨hfsr, fun hok ↦ by rw [hsame hok]⟩
  · rw [if_neg hpage]
    rw [not_or] at hpage
    obtain ⟨j, rfl⟩ := Nat.exists_eq_succ_of_ne_zero hpage.1
    obtain ⟨hok, rfl⟩ := hbehind j rfl
    have hblock := sameBlock_succ hn hcross hi hpage.2
    have hstatus := @octetVerdict_block _ bus p base va acc priv _ _ hblock
    refine ⟨hok.symm.trans hstatus, fun hok' ↦ ?_⟩
    rw [octetVerdict_page (samePage_of_sameBlock hblock) hok hok']
    rw [or_and_of_disjoint _ (and_and_disjoint (by decide))]

theorem octetVerdict_address (hok : (octetVerdict bus p base va acc priv i).1 = 0) :
    ((octetVerdict bus p base va acc priv i).2 &&& ~~~0xfff) |||
      ((va + ofNat 32 i) &&& 0xfff) = (octetVerdict bus p base va acc priv i).2 :=
  (octetVerdict_page rfl hok hok).symm

/-- What the octets from one on come to: done where all of them translate, and else the first that
does not is answered for. -/
def Answers (v : ℕ → Word × Word) (n i : ℕ) (done : Prop) (failed : ℕ → Prop) : Prop :=
  ((∀ j < n, i ≤ j → (v j).1 = 0) → done) ∧
    ∀ j < n, i ≤ j → (v j).1 ≠ 0 → (∀ k < j, i ≤ k → (v k).1 = 0) → failed j

section Answers

variable {v : ℕ → Word × Word} {done : Prop} {failed : ℕ → Prop}

theorem answers_done (h : done) : Answers v n n done failed :=
  ⟨fun _ ↦ h, fun j hj hij ↦ absurd hij (by omega)⟩

theorem answers_fault (hi : i < n) (hfault : (v i).1 ≠ 0) (h : failed i) :
    Answers v n i done failed := by
  refine ⟨fun hall ↦ absurd (hall i hi le_rfl) hfault, fun j hj hij hjfault hbefore ↦ ?_⟩
  obtain rfl : i = j := by
    by_contra hne
    exact hfault (hbefore i (by omega) le_rfl)
  exact h

theorem Answers.later (h : Answers v n (i + 1) done failed) (hok : (v i).1 = 0) :
    Answers v n i done failed := by
  refine ⟨fun hall ↦ h.1 fun j hj hij ↦ hall j hj (by omega), fun j hj hij hjfault hbefore ↦ ?_⟩
  have hne : i ≠ j := by
    rintro rfl
    exact hjfault hok
  exact h.2 j hj (by omega) hjfault fun k hk hik ↦ hbefore k hk (by omega)

end Answers

theorem pageBehind_succ {frame : Word} (hok : (octetVerdict bus p base va acc priv i).1 = 0)
    (hframe : frame = (octetVerdict bus p base va acc priv i).2 &&& ~~~0xfff) :
    PageBehind bus p base va acc priv (i + 1) frame := by
  intro j hj
  obtain rfl : i = j := by omega
  exact ⟨hok, hframe⟩

theorem refReadCrossing_octets {n : ℕ} (hn : n ≤ 4) (hcross : memCrossesPage va n = true)
    {t : Walked σ} (hwords : ∀ i < n, walkWords bus p base (va + ofNat 32 i) =
      walkWords bus p t.ctx (va + ofNat 32 i)) {m i : ℕ} (him : i + m = n)
    {pagePa : Word} (hbehind : PageBehind bus p base va .read priv i pagePa)
    {t' : Walked σ} (hctx : t'.ctx = t.ctx) :
    let v := octetVerdict bus p base va .read priv
    let f := fun j ↦ (bus.read8 t.ctx (v j).2).1
    let x := refReadCrossing bus.slow p va priv (List.range' i m) pagePa (littleEndian f i) t'
    Answers v n i (x.1 = .ok (littleEndian f n)) fun j ↦
      x.1 = .error ⟨(v j).1, va + ofNat 32 j⟩ := by
  intro v f x
  induction m generalizing i pagePa t' with
  | zero =>
    obtain rfl : i = n := him
    exact answers_done rfl
  | succ m ih =>
    have hi : i < n := by omega
    subst x
    rw [List.range'_succ, refReadCrossing]
    dsimp only
    generalize hx : (if i = 0 ∨ (va + ofNat 32 i) &&& 0xfff = 0 then
      refTranslate bus.slow p t' (va + ofNat 32 i) .read priv pagePa
      else ((0, pagePa), t')) = x
    have hxctx : x.2.ctx = t.ctx := by
      subst hx
      split
      · exact hctx
      · exact hctx
    obtain ⟨hfsr, hframe⟩ := crossing_octet hn hcross hi hbehind hx (by rw [hctx]; exact hwords i hi)
    by_cases hfault : x.1.1 ≠ 0
    · rw [if_pos hfault]
      exact answers_fault hi (by rwa [hfsr] at hfault) (by rw [hfsr])
    · rw [if_neg hfault]
      have hok : (v i).1 = 0 := by
        rw [hfsr] at hfault
        exact not_not.1 hfault
      have haddress := octetVerdict_address hok
      have hvalue : littleEndian f i ||| (((bus.slow.read8 x.2.ctx ((x.1.2 &&& ~~~0xfff) |||
          ((va + ofNat 32 i) &&& 0xfff))).1).setWidth 32 <<< (8 * i)) =
          littleEndian f (i + 1) := by
        rw [hframe hok, haddress, hxctx]
        rfl
      rw [hvalue]
      exact (ih (by omega) (pageBehind_succ hok (hframe hok)) hxctx).later hok

theorem refWriteCrossing_octets (hn : n ≤ 4) (hcross : memCrossesPage va n = true) {ctx : σ}
    {value : Word} {m : ℕ} (him : i + m = n)
    (hbehind : PageBehind bus p base va .write priv i pagePa) (hflushed : t.flushed = base)
    (hkept : (refWriteCrossing bus.slow p va value priv (List.range' i m) pagePa t).2.kept = true)
    (hctx : t.ctx = storeOctets (fun ctx j octet ↦
      bus.write8 ctx (octetVerdict bus p base va .write priv j).2 octet) ctx value i) :
    let v := octetVerdict bus p base va .write priv
    let x := refWriteCrossing bus.slow p va value priv (List.range' i m) pagePa t
    Answers v n i (x.1 = none ∧ x.2.ctx =
        storeOctets (fun ctx j octet ↦ bus.write8 ctx (v j).2 octet) ctx value n) fun j ↦
      x.1 = some ⟨(v j).1, va + ofNat 32 j⟩ := by
  intro v x
  induction m generalizing i pagePa t with
  | zero =>
    obtain rfl : i = n := him
    exact answers_done ⟨rfl, hctx⟩
  | succ m ih =>
    have hi : i < n := by omega
    subst x
    rw [List.range'_succ, refWriteCrossing] at hkept ⊢
    dsimp only at hkept ⊢
    generalize hx : (if i = 0 ∨ (va + ofNat 32 i) &&& 0xfff = 0 then
      refTranslate bus.slow p t (va + ofNat 32 i) .write priv pagePa
      else ((0, pagePa), t)) = x at hkept ⊢
    have hstep : x.2.kept = true := by
      split at hkept
      · exact hkept
      · exact (kept_refWriteCrossing hkept :)
    have hxctx : x.2.ctx = t.ctx := by
      subst hx
      split
      · rfl
      · rfl
    have hxflushed : x.2.flushed = base := by
      subst hx
      split
      · exact hflushed
      · exact hflushed
    have hoctet : x.1.1 = (v i).1 ∧
        ((v i).1 = 0 → (x.1.2 &&& ~~~0xfff) = (v i).2 &&& ~~~0xfff) := by
      by_cases hpage : i = 0 ∨ (va + ofNat 32 i) &&& 0xfff = 0
      · have hsame : walkWords bus p base (va + ofNat 32 i) =
            walkWords bus p t.ctx (va + ofNat 32 i) := by
          rw [← hx, if_pos hpage] at hstep
          rw [← hflushed]
          exact (kept_refTranslate hstep).2
        exact crossing_octet hn hcross hi hbehind hx hsame
      · exact crossing_octet hn hcross hi hbehind (t := { t with ctx := base })
          (x := (x.1, { t with ctx := base })) (by rw [← hx, if_neg hpage, if_neg hpage]) rfl
    obtain ⟨hfsr, hframe⟩ := hoctet
    by_cases hfault : x.1.1 ≠ 0
    · rw [if_pos hfault]
      exact answers_fault hi (by rwa [hfsr] at hfault) (by rw [hfsr])
    · rw [if_neg hfault] at hkept ⊢
      have hok : (v i).1 = 0 := by
        rw [hfsr] at hfault
        exact not_not.1 hfault
      have haddress := octetVerdict_address hok
      have hstored : bus.slow.write8 x.2.ctx ((x.1.2 &&& ~~~0xfff) |||
          ((va + ofNat 32 i) &&& 0xfff)) (octetOf value i) =
          storeOctets (fun ctx j octet ↦ bus.write8 ctx (v j).2 octet) ctx value (i + 1) := by
        rw [hframe hok, haddress, hxctx, hctx]
        rfl
      have hrest := ih (i := i + 1)
        (t := { x.2 with ctx := bus.slow.write8 x.2.ctx ((x.1.2 &&& ~~~0xfff) |||
          ((va + ofNat 32 i) &&& 0xfff)) (octetOf value i) })
        (by omega) (pageBehind_succ hok (hframe hok)) hxflushed hkept hstored
      exact hrest.later hok

theorem refReadCrossing_kept {offsets : List ℕ}
    (hwords : ∀ i ∈ offsets, walkWords bus p base (va + ofNat 32 i) =
      walkWords bus p ctx (va + ofNat 32 i)) {value : Word} (hctx : t.ctx = ctx)
    (hflushed : t.flushed = base) (hkept : t.kept = true) :
    (refReadCrossing bus.slow p va priv offsets pagePa value t).2.kept = true := by
  induction offsets generalizing pagePa value t with
  | nil => exact hkept
  | cons i rest ih =>
    have hsame : walkWords bus.slow p t.flushed (va + ofNat 32 i) =
        walkWords bus.slow p t.ctx (va + ofNat 32 i) := by
      rw [hctx, hflushed]
      exact hwords i List.mem_cons_self
    have hrecord : (t.kept && decide (walkWords bus.slow p t.flushed (va + ofNat 32 i) =
        walkWords bus.slow p t.ctx (va + ofNat 32 i))) = true := by
      rw [hkept, hsame]
      simp
    have hrest (i : ℕ) (hi : i ∈ rest) := hwords i (List.mem_cons_of_mem _ hi)
    rw [refReadCrossing]
    dsimp only
    split <;> split
    · exact hrecord
    · exact ih hrest hctx hflushed hrecord
    · exact hkept
    · exact ih hrest hctx hflushed hkept

section Access

variable {width : Width} {c : Core} {value : Word} {h : Caches}

theorem bytes_le (width : Width) : width.bytes ≤ 4 := by cases width <;> decide

theorem bytes_pos (width : Width) : 0 < width.bytes := by cases width <;> decide

theorem octetTranslation_eq (hram : RamBus bus) (hc : Coherent bus p base h)
    (hwords : walkWords bus p base (va + ofNat 32 i) = walkWords bus p ctx (va + ofNat 32 i)) :
    octetTranslation bus p h ctx va acc priv i = octetVerdict bus p base va acc priv i := by
  obtain ⟨h', htranslate, -⟩ := translate_coherent hram hc hwords acc priv 0
  unfold octetTranslation octetVerdict
  rw [htranslate, walkVerdict_of_words hwords]
  rfl

theorem run_memReadAs (hu : c.sctlrFlag sctlrU = true) (ha : c.sctlrFlag sctlrA = false) :
    (run (busHandler bus) (memReadAs width c va priv) (h, ctx)).1 =
      match (busLoad bus width c.cp15.stamp va priv h ctx).1 with
      | .error fault => (0, c.noteAbort fault.fsr fault.far)
      | .ok value => (value, c) := by
  have haddress : effectiveAddress c width va = va := by
    unfold effectiveAddress
    rw [hu, if_neg (by simp)]
  unfold memReadAs
  rw [if_neg (by simp [ha]), haddress]
  have hload : run (busHandler bus) (ask (.load width c.cp15.stamp va priv)) (h, ctx) =
      busLoad bus width c.cp15.stamp va priv h ctx := rfl
  dsimp only
  rw [run_bind, hload]
  generalize busLoad bus width c.cp15.stamp va priv h ctx = x
  obtain ⟨answer, state⟩ := x
  cases answer with
  | error fault => rfl
  | ok value => simp

theorem run_memWriteAs (hu : c.sctlrFlag sctlrU = true) (ha : c.sctlrFlag sctlrA = false) :
    run (busHandler bus) (memWriteAs width c va value priv) (h, ctx) =
      ((match (busStore bus width c.cp15.stamp va value priv h ctx).1 with
        | some fault => c.noteAbort fault.fsr fault.far
        | none => c), (busStore bus width c.cp15.stamp va value priv h ctx).2) := by
  have haddress : effectiveAddress c width va = va := by
    unfold effectiveAddress
    rw [hu, if_neg (by simp)]
  unfold memWriteAs
  rw [if_neg (by simp [ha]), haddress]
  have hstore : run (busHandler bus) (ask (.store width c.cp15.stamp va value priv)) (h, ctx) =
      busStore bus width c.cp15.stamp va value priv h ctx := rfl
  rw [run_bind, hstore]
  generalize busStore bus width c.cp15.stamp va value priv h ctx = x
  obtain ⟨answer, state⟩ := x
  cases answer with
  | some fault => rfl
  | none => rfl

theorem refLoad_octets (hram : RamBus bus)
    (hwords : ∀ i < width.bytes, walkWords bus p base (va + ofNat 32 i) =
      walkWords bus p ctx (va + ofNat 32 i)) :
    let v := octetVerdict bus p base va .read priv
    let x := refLoad bus.slow width p va priv ⟨ctx, base, true⟩
    x.2.kept = true ∧ ((∀ i < width.bytes, (v i).1 = 0) → x.1 =
        .ok (littleEndian (fun i ↦ (bus.read8 ctx (v i).2).1) width.bytes)) ∧
      (memCrossesPage va width.bytes = false → (v 0).1 = 0 → ∃ value, x.1 = .ok value) ∧
      ∀ i, FirstFault v width.bytes i → memCrossesPage va width.bytes = true ∨ i = 0 →
        x.1 = .error ⟨(v i).1, va + ofNat 32 i⟩ := by
  intro v x
  have hpos := bytes_pos width
  by_cases hcross : memCrossesPage va width.bytes = true
  · have hx : x = refReadCrossing bus.slow p va priv (List.range' 0 width.bytes) 0
        (littleEndian (fun i ↦ (bus.read8 ctx (v i).2).1) 0) ⟨ctx, base, true⟩ := by
      subst x
      rw [refLoad, if_pos hcross, List.range_eq_range']
      rfl
    obtain ⟨hcompletes, haborts⟩ := @refReadCrossing_octets _ _ _ _ _ _ _ (bytes_le width) hcross
      ⟨ctx, base, true⟩ hwords width.bytes 0 (Nat.zero_add _) _ (fun j hj ↦ by omega)
      ⟨ctx, base, true⟩ rfl
    rw [hx]
    refine ⟨?_, fun hall ↦ hcompletes fun j hj _ ↦ hall j hj, fun hfalse ↦ ?_, fun i hfirst _ ↦ ?_⟩
    · exact refReadCrossing_kept (fun i hi ↦ hwords i (by simpa using hi)) rfl rfl rfl
    · rw [hcross] at hfalse
      cases hfalse
    · exact haborts i hfirst.1 (Nat.zero_le _) hfirst.2.1 fun k hk _ ↦ hfirst.2.2 k hk
  · have hinside : memCrossesPage va width.bytes = false := by simpa using hcross
    have hzero : va + ofNat 32 0 = va := BitVec.add_zero va
    have hsame := hwords 0 hpos
    obtain ⟨hfsr, hok⟩ := @refTranslate_octet _ bus p base va .read priv ⟨ctx, base, true⟩ 0 0 hsame
    rw [hzero] at hsame hfsr hok
    have hkept : (refTranslate bus.slow p ⟨ctx, base, true⟩ va .read priv 0).2.kept = true := by
      have hsame' : walkWords bus.slow p base va = walkWords bus.slow p ctx va := hsame
      show (true && decide (walkWords bus.slow p base va = walkWords bus.slow p ctx va)) = true
      rw [hsame']
      simp
    have hread (pa : Word) : (busRead bus.slow width ctx pa).1 =
        littleEndian (fun i ↦ (bus.read8 ctx (pa + ofNat 32 i)).1) width.bytes := by
      rw [hram.slow.read]
      rfl
    set answer := refTranslate bus.slow p ⟨ctx, base, true⟩ va .read priv 0
    have hx : x = if answer.1.1 ≠ 0 then (.error ⟨answer.1.1, va⟩, answer.2)
        else (.ok (busRead bus.slow width ctx answer.1.2).1, answer.2) := by
      subst x
      rw [refLoad, if_neg hcross]
      rfl
    by_cases hfirst : (v 0).1 = 0
    · have hx' := hok hfirst
      rw [if_neg (by rw [hfsr]; exact not_not.2 hfirst)] at hx
      rw [hx]
      refine ⟨hkept, fun hall ↦ ?_, fun _ _ ↦ ⟨_, rfl⟩, fun i hi hcase ↦ ?_⟩
      · rw [hread, hx']
        apply congrArg Except.ok
        apply littleEndian_congr
        intro i hi
        rw [octetVerdict_inside hinside hi hfirst (hall i hi)]
      · obtain hcase | rfl := hcase
        · exact absurd hcase hcross
        · exact absurd hfirst hi.2.1
    · rw [if_pos (by rw [hfsr]; exact hfirst)] at hx
      rw [hx]
      refine ⟨hkept, fun hall ↦ absurd (hall 0 hpos) hfirst, fun _ h ↦ absurd h hfirst,
        fun i hi hcase ↦ ?_⟩
      obtain hcase | rfl := hcase
      · exact absurd hcase hcross
      · rw [hfsr, hzero]

/-- What the reference answers to a store whose translations read what the last flush left. -/
theorem refStore_octets (hram : RamBus bus)
    (hwords : ∀ i < width.bytes, walkWords bus p base (va + ofNat 32 i) =
      walkWords bus p ctx (va + ofNat 32 i))
    (hkept : (refStore bus.slow width p va value priv ⟨ctx, base, true⟩).2.kept = true) :
    let v := octetVerdict bus p base va .write priv
    let x := refStore bus.slow width p va value priv ⟨ctx, base, true⟩
    ((∀ i < width.bytes, (v i).1 = 0) → x.1 = none ∧ x.2.ctx =
        storeOctets (fun ctx i octet ↦ bus.write8 ctx (v i).2 octet) ctx value width.bytes) ∧
      (memCrossesPage va width.bytes = false → (v 0).1 = 0 → x.1 = none) ∧
      ∀ i, FirstFault v width.bytes i → memCrossesPage va width.bytes = true ∨ i = 0 →
        x.1 = some ⟨(v i).1, va + ofNat 32 i⟩ := by
  intro v x
  have hpos := bytes_pos width
  by_cases hcross : memCrossesPage va width.bytes = true
  · have hx : x = refWriteCrossing bus.slow p va value priv (List.range' 0 width.bytes) 0
        ⟨ctx, base, true⟩ := by
      subst x
      rw [refStore, if_pos hcross, List.range_eq_range']
    have hkept' : (refWriteCrossing bus.slow p va value priv (List.range' 0 width.bytes) 0
        ⟨ctx, base, true⟩).2.kept = true := by
      rw [← hx]
      exact hkept
    obtain ⟨hcompletes, haborts⟩ := refWriteCrossing_octets (bytes_le width) hcross
      (t := ⟨ctx, base, true⟩) (m := width.bytes) (i := 0) (Nat.zero_add _) (fun j hj ↦ by omega)
      rfl hkept' rfl
    rw [hx]
    refine ⟨fun hall ↦ hcompletes fun j hj _ ↦ hall j hj, fun hfalse ↦ ?_, fun i hfirst _ ↦ ?_⟩
    · rw [hcross] at hfalse
      cases hfalse
    · exact haborts i hfirst.1 (Nat.zero_le _) hfirst.2.1 fun k hk _ ↦ hfirst.2.2 k hk
  · have hinside : memCrossesPage va width.bytes = false := by simpa using hcross
    have hzero : va + ofNat 32 0 = va := BitVec.add_zero va
    have hsame := hwords 0 hpos
    obtain ⟨hfsr, hok⟩ := @refTranslate_octet _ bus p base va .write priv ⟨ctx, base, true⟩ 0 0 hsame
    rw [hzero] at hsame hfsr hok
    set answer := refTranslate bus.slow p ⟨ctx, base, true⟩ va .write priv 0
    have hx : x = if answer.1.1 ≠ 0 then (some ⟨answer.1.1, va⟩, answer.2)
        else (none, { answer.2 with ctx := busWrite bus.slow width ctx answer.1.2 value }) := by
      subst x
      rw [refStore, if_neg hcross]
      rfl
    by_cases hfirst : (v 0).1 = 0
    · have hx' := hok hfirst
      rw [if_neg (by rw [hfsr]; exact not_not.2 hfirst)] at hx
      rw [hx]
      refine ⟨fun hall ↦ ⟨rfl, ?_⟩, fun _ _ ↦ rfl, fun i hi hcase ↦ ?_⟩
      · dsimp only
        rw [hram.slow.write, hx']
        apply storeOctets_congr
        intro ctx octet i hi
        rw [octetVerdict_inside hinside hi hfirst (hall i hi)]
        rfl
      · obtain hcase | rfl := hcase
        · exact absurd hcase hcross
        · exact absurd hfirst hi.2.1
    · rw [if_pos (by rw [hfsr]; exact hfirst)] at hx
      rw [hx]
      refine ⟨fun hall ↦ absurd (hall 0 hpos) hfirst, fun _ h ↦ absurd h hfirst,
        fun i hi hcase ↦ ?_⟩
      obtain hcase | rfl := hcase
      · exact absurd hcase hcross
      · rw [hfsr, hzero]

/-- A later octet that does not translate comes with a first one. -/
theorem exists_firstFault {t : ℕ → Word × Word} (hi : i < n) (hfault : (t i).1 ≠ 0) :
    ∃ j ≤ i, FirstFault t n j := by
  classical
  have hexists : ∃ j, j < n ∧ (t j).1 ≠ 0 := ⟨i, hi, hfault⟩
  refine ⟨Nat.find hexists, Nat.find_min' hexists ⟨hi, hfault⟩, (Nat.find_spec hexists).1,
    (Nat.find_spec hexists).2, fun j hj ↦ ?_⟩
  have hbelow : j < n := lt_trans hj (Nat.find_spec hexists).1
  have hnot := Nat.find_min hexists hj
  by_contra hne
  exact hnot ⟨hbelow, hne⟩

theorem noteAbort_ne (hclear : c.abortPending = false) (fsr far : Word) : c.noteAbort fsr far ≠ c := by
  intro h
  have hlatch : (c.noteAbort fsr far).abortPending = true := by
    unfold Core.noteAbort
    rw [hclear]
    rfl
  rw [h, hclear] at hlatch
  cases hlatch

theorem firstFault_congr {t t' : ℕ → Word × Word} (ht : ∀ i < n, t i = t' i)
    (hi : FirstFault t n i) : FirstFault t' n i := by
  obtain ⟨hlt, hfault, hbefore⟩ := hi
  refine ⟨hlt, ?_, fun j hj ↦ ?_⟩
  · rwa [← ht i hlt]
  · rw [← ht j (lt_trans hj hlt)]
    exact hbefore j hj

theorem crosses_of_firstFault (hstays : ¬LeavesSubpage bus p h ctx width va acc priv)
    (hi : FirstFault (octetTranslation bus p h ctx va acc priv) width.bytes i) :
    memCrossesPage va width.bytes = true ∨ i = 0 := by
  by_contra hneither
  rw [not_or] at hneither
  have hinside : memCrossesPage va width.bytes = false := by simpa using hneither.1
  exact hstays ⟨hinside, hi.2.2 0 (Nat.pos_of_ne_zero hneither.2), i, hi.1, hi.2.1⟩

/-- Over plain memory and coherent caches, with unaligned accesses enabled: an access is the
accesses of its octets unless it leaves a 1 KB subpage, inside one page, for one that it is not
permitted. The page tables are those of the last flush, for a store also when its second page is
translated. -/
theorem access_octets (bus : Bus σ) (width : Width) (c : Core) (va : Word) (priv : Bool)
    (h : Caches) (ctx base : σ) (hram : RamBus bus) (hc : Coherent bus c.cp15.stamp base h)
    (hu : c.sctlrFlag sctlrU = true) (ha : c.sctlrFlag sctlrA = false)
    (hclear : c.abortPending = false)
    (hwords : ∀ i < width.bytes, walkWords bus c.cp15.stamp base (va + ofNat 32 i) =
      walkWords bus c.cp15.stamp ctx (va + ofNat 32 i)) :
    (LoadsOctets bus width c va priv h ctx ↔
        ¬LeavesSubpage bus c.cp15.stamp h ctx width va .read priv) ∧
      ∀ value, (refStore bus.slow width c.cp15.stamp va value priv ⟨ctx, base, true⟩).2.kept =
          true →
        (StoresOctets bus width c va value priv h ctx ↔
          ¬LeavesSubpage bus c.cp15.stamp h ctx width va .write priv) := by
  have htranslation (acc : Access) (i : ℕ) (hi : i < width.bytes) :
      octetTranslation bus c.cp15.stamp h ctx va acc priv i =
        octetVerdict bus c.cp15.stamp base va acc priv i := octetTranslation_eq hram hc (hwords i hi)
  refine ⟨⟨fun hlaw hleaves ↦ ?_, fun hstays ↦ ?_⟩, fun value hkept ↦
    ⟨fun hlaw hleaves ↦ ?_, fun hstays ↦ ?_⟩⟩
  · obtain ⟨hkept, -, hinside, -⟩ := @refLoad_octets _ _ _ _ _ _ priv _ hram hwords
    have hanswer := (matches_load hram width hc hkept).answer
    obtain ⟨hpage, hfirst, i, hi, hfault⟩ := hleaves
    obtain ⟨j, -, hj⟩ := exists_firstFault hi hfault
    have haborts := hlaw.aborts j hj
    rw [htranslation _ _ (bytes_pos width)] at hfirst
    obtain ⟨value, hvalue⟩ := hinside hpage hfirst
    rw [run_memReadAs hu ha, hanswer, hvalue] at haborts
    exact noteAbort_ne hclear _ _ (congrArg Prod.snd haborts).symm
  · obtain ⟨hkept, hcompletes, -, haborts⟩ := @refLoad_octets _ _ _ _ _ _ priv _ hram hwords
    have hanswer := (matches_load hram width hc hkept).answer
    refine ⟨fun hall ↦ ?_, fun i hi ↦ ?_⟩
    · rw [run_memReadAs hu ha, hanswer,
        hcompletes fun i hi ↦ by rw [← htranslation _ _ hi]; exact hall i hi]
      dsimp only
      congr 1
      apply littleEndian_congr
      intro i hi
      rw [htranslation _ _ hi]
    · rw [run_memReadAs hu ha, hanswer, haborts i (firstFault_congr (htranslation _) hi)
        (crosses_of_firstFault hstays hi), htranslation _ _ hi.1]
  · obtain ⟨-, hinside, -⟩ := refStore_octets hram hwords hkept
    have hanswer := (matches_store hram width value hc hkept).answer
    obtain ⟨hpage, hfirst, i, hi, hfault⟩ := hleaves
    obtain ⟨j, -, hj⟩ := exists_firstFault hi hfault
    have haborts := hlaw.aborts j hj
    rw [htranslation _ _ (bytes_pos width)] at hfirst
    rw [run_memWriteAs hu ha, hanswer, hinside hpage hfirst] at haborts
    exact noteAbort_ne hclear _ _ haborts.symm
  · obtain ⟨hcompletes, -, haborts⟩ := refStore_octets hram hwords hkept
    have hmatch := matches_store hram width value hc hkept
    refine ⟨fun hall ↦ ?_, fun i hi ↦ ?_⟩
    · obtain ⟨hnone, hctx⟩ := hcompletes fun i hi ↦ by rw [← htranslation _ _ hi]; exact hall i hi
      rw [run_memWriteAs hu ha, hmatch.answer, hmatch.ctx, hnone, hctx]
      refine ⟨rfl, ?_⟩
      apply storeOctets_congr
      intro ctx octet i hi
      rw [htranslation _ _ hi]
    · rw [run_memWriteAs hu ha, hmatch.answer, haborts i (firstFault_congr (htranslation _) hi)
        (crosses_of_firstFault hstays hi), htranslation _ _ hi.1]

end Access

/-- Two legacy small pages at address zero. The first and the last subpage of the first page may be
accessed, the two between them may not; all of the second page may. -/
def subpageMemory (a : Word) : Octet :=
  let word : Word :=
    if a &&& ~~~3 = 0x4000 then 0x5001 else if a &&& ~~~3 = 0x5000 then 0x8c32
      else if a &&& ~~~3 = 0x5004 then 0x9ff2 else 0x11223344
  octetOf word (a.toNat % 4)

/-- A core that translates through them, with unaligned accesses enabled. -/
def subpageCore : Core :=
  let c := coreReset .v6Arm1176
  { c with cp15 := { c.cp15 with sctlr := sctlrM ||| sctlrU, ttbr0 := 0x4000, dacr := 1 } }

/-- A word that crosses the boundary of the two pages. -/
theorem access_octets_crossing :
    LoadsOctets flatBus .word subpageCore 0xffe true (cachesReset subpageCore.cp15.stamp)
        subpageMemory ∧
      StoresOctets flatBus .word subpageCore 0xffe 0x55667788 true
        (cachesReset subpageCore.cp15.stamp) subpageMemory := by
  obtain ⟨hloads, hstores⟩ := access_octets flatBus .word subpageCore 0xffe true
    (cachesReset subpageCore.cp15.stamp) subpageMemory subpageMemory ramBus_flatBus
    (coherent_reset _) (by decide +kernel) (by decide +kernel) rfl fun _ _ ↦ rfl
  have hcrosses : memCrossesPage 0xffe Width.word.bytes = true := by decide
  have hstays (acc : Access) : ¬LeavesSubpage flatBus subpageCore.cp15.stamp
      (cachesReset subpageCore.cp15.stamp) subpageMemory .word 0xffe acc true :=
    fun hleaves ↦ absurd (hcrosses.symm.trans hleaves.1) (by decide)
  exact ⟨hloads.2 (hstays .read), (hstores 0x55667788 (by decide +kernel)).2 (hstays .write)⟩

/-- A word that starts in the first subpage and ends in the second is read as a whole. -/
theorem not_loadsOctets_subpage :
    Coherent flatBus subpageCore.cp15.stamp subpageMemory (cachesReset subpageCore.cp15.stamp) ∧
      subpageCore.sctlrFlag sctlrU = true ∧ subpageCore.sctlrFlag sctlrA = false ∧
      subpageCore.abortPending = false ∧
      ¬LoadsOctets flatBus .word subpageCore 0x3fe true (cachesReset subpageCore.cp15.stamp)
        subpageMemory := by
  refine ⟨coherent_reset _, by decide +kernel, by decide +kernel, rfl, fun hlaw ↦ ?_⟩
  have haborts := hlaw.aborts 2 ⟨by decide, by decide +kernel, by decide +kernel⟩
  have hlatch := congrArg (fun x : Word × Core ↦ x.2.abortPending) haborts
  revert hlatch
  decide +kernel

end S5LBox.Arm
