import Mathlib.Algebra.Order.Ring.Abs
import S5LBox.Arm.Media

/-!
# The signed sums of the multiply-accumulate group

Each instruction with the signed 64-bit values it goes through, as integers. Sixteen-bit products
and a 32-bit accumulator never leave the range. A full accumulator does: the dual products that
are added to 64 bits, and the top-word products, whose accumulator is shifted up first.
-/

namespace S5LBox.Arm

open BitVec List

/-- A signed 64-bit value. -/
def InWide (value : ℤ) : Prop := -0x8000000000000000 ≤ value ∧ value < 0x8000000000000000

variable {a b bound bound' : ℤ} {insn : Word}

/-- SMLAD, SMLSD, SMUAD and SMUSD that are not refused. -/
def IsDualWord (insn : Word) : Prop :=
  insn &&& 0x0ff00090 = 0x07000010 ∧
    ¬(field4 insn 16 = 15 ∨ field4 insn 8 = 15 ∨ field4 insn 0 = 15)

/-- SMLALD and SMLSLD that are not refused. -/
def IsDualLong (insn : Word) : Prop :=
  insn &&& 0x0ff00090 = 0x07400010 ∧
    ¬(field4 insn 16 = 15 ∨ field4 insn 12 = 15 ∨ field4 insn 8 = 15 ∨ field4 insn 0 = 15 ∨
      field4 insn 16 = field4 insn 12)

/-- SMMUL, SMMLA and SMMLS that are not refused. -/
def IsMostSignificant (insn : Word) : Prop :=
  insn &&& 0x0ff00010 = 0x07500010 ∧
    ¬((insn.extractLsb' 6 2 ≠ 0 ∧ insn.extractLsb' 6 2 ≠ 3) ∨ field4 insn 16 = 15 ∨
      field4 insn 8 = 15 ∨ field4 insn 0 = 15 ∨
      (insn.extractLsb' 6 2 = 3 ∧ field4 insn 12 = 15))

instance : DecidablePred IsDualWord := fun _ ↦ inferInstanceAs (Decidable (_ ∧ _))
instance : DecidablePred IsDualLong := fun _ ↦ inferInstanceAs (Decidable (_ ∧ _))
instance : DecidablePred IsMostSignificant := fun _ ↦ inferInstanceAs (Decidable (_ ∧ _))

/-- The two half-word products of a dual multiply, and their sum or difference. -/
def dualValues (n m : Word) (sub swap : Bool) : List ℤ :=
  [dspSignedHalf n false * dspSignedHalf m swap, dspSignedHalf n true * dspSignedHalf m (!swap),
    dualProduct n m sub swap]

/-- What `exec_media` computes in 64 signed bits, in its order. -/
def mediaValues (c : Core) (pc insn : Word) : List ℤ :=
  let ra := field4 insn 12
  let n := c.regRead pc (field4 insn 0)
  let m := c.regRead pc (field4 insn 8)
  let sub := bit insn 6
  let swap := bit insn 5
  if IsDualWord insn then
    dualValues n m sub swap ++
      if ra ≠ 15 then [dualProduct n m sub swap + signedWord (c.regRead pc ra)] else []
  else if IsDualLong insn then
    dualValues n m sub swap ++ [(c.pair ra (field4 insn 16)).toInt + dualProduct n m sub swap]
  else if IsMostSignificant insn then
    let product := signedWord n * signedWord m
    let acc := if ra = 15 then 0 else signedWord (c.regRead pc ra) * 0x100000000
    let res := if insn.extractLsb' 6 2 = 3 then acc - product else acc + product
    [product, acc, res] ++ if bit insn 5 then [res + 0x80000000] else []
  else []

/-- What `exec_dsp_multiply` computes in 64 signed bits; the sum of the long form is unsigned. -/
def dspValues (c : Core) (insn : Word) : List ℤ :=
  let rn := c.r (field4 insn 12)
  let half := dspSignedHalf (c.r (field4 insn 8)) (bit insn 6)
  let halves := dspSignedHalf (c.r (field4 insn 0)) (bit insn 5) * half
  let product := signedWord (c.r (field4 insn 0)) * half
  let upper : Word := ((BitVec.ofInt 64 product) >>> 16).setWidth 32
  if insn &&& 0x0ff00090 = 0x01000080 then [halves, halves + signedWord rn]
  else if insn &&& 0x0ff000b0 = 0x01200080 then [product, signedWord upper + signedWord rn]
  else if insn &&& 0x0ff0f0b0 = 0x012000a0 then [product]
  else if insn &&& 0x0ff00090 = 0x01400080 ∨ insn &&& 0x0ff0f090 = 0x01600080 then [halves]
  else []

/-- The accumulators that leave room for what is added to them. -/
def Roomy (c : Core) (pc insn : Word) : Prop :=
  let n := c.regRead pc (field4 insn 0)
  let m := c.regRead pc (field4 insn 8)
  (IsDualLong insn →
    let wide := (c.pair (field4 insn 12) (field4 insn 16)).toInt
    let added := dualProduct n m (bit insn 6) (bit insn 5)
    (-0x8000000000000000) - added ≤ wide ∧ wide < 0x8000000000000000 - added) ∧
  (IsMostSignificant insn → field4 insn 12 ≠ 15 →
    let wide := signedWord (c.regRead pc (field4 insn 12)) * 0x100000000
    let product := signedWord n * signedWord m
    let added := if insn.extractLsb' 6 2 = 3 then -product else product
    (-0x8000000000000000) - added ≤ wide ∧
      wide < 0x8000000000000000 - added - (if bit insn 5 then 0x80000000 else 0))

theorem signedWord_abs (value : Word) : |signedWord value| ≤ 0x80000000 :=
  abs_le.2 ⟨le_toInt value, (toInt_lt (x := value)).le⟩

theorem dspSignedHalf_abs (value : Word) (top : Bool) : |dspSignedHalf value top| ≤ 0x8000 :=
  abs_le.2 ⟨le_toInt _, toInt_lt.le⟩

theorem abs_mul_le (ha : |a| ≤ bound) (hb : |b| ≤ bound') : |a * b| ≤ bound * bound' := by
  rw [abs_mul]
  exact mul_le_mul ha hb (abs_nonneg b) ((abs_nonneg a).trans ha)

theorem inWide_of_abs (h : |a| ≤ 0x7fffffffffffffff) : InWide a := by
  obtain ⟨hlow, hhigh⟩ := abs_le.1 h
  exact ⟨by omega, by omega⟩

theorem dualProduct_abs (n m : Word) (sub swap : Bool) : |dualProduct n m sub swap| ≤ 0x80000000 := by
  have hlow := abs_mul_le (dspSignedHalf_abs n false) (dspSignedHalf_abs m swap)
  have hhigh := abs_mul_le (dspSignedHalf_abs n true) (dspSignedHalf_abs m (!swap))
  rw [dualProduct]
  split
  · exact (abs_sub _ _).trans (add_le_add hlow hhigh)
  · exact (abs_add_le _ _).trans (add_le_add hlow hhigh)

theorem dualValues_inWide (n m : Word) (sub swap : Bool) :
    ∀ value ∈ dualValues n m sub swap, InWide value := by
  have hlow := abs_mul_le (dspSignedHalf_abs n false) (dspSignedHalf_abs m swap)
  have hhigh := abs_mul_le (dspSignedHalf_abs n true) (dspSignedHalf_abs m (!swap))
  simp only [dualValues, forall_mem_cons, not_mem_nil, false_imp_iff, implies_true, and_true]
  exact ⟨inWide_of_abs (hlow.trans (by decide)), inWide_of_abs (hhigh.trans (by decide)),
    inWide_of_abs ((dualProduct_abs n m sub swap).trans (by decide))⟩

theorem dspValues_inWide (c : Core) (insn : Word) : ∀ value ∈ dspValues c insn, InWide value := by
  let half := dspSignedHalf_abs (c.r (field4 insn 8)) (bit insn 6)
  have hhalves := abs_mul_le (dspSignedHalf_abs (c.r (field4 insn 0)) (bit insn 5)) half
  have hproduct := abs_mul_le (signedWord_abs (c.r (field4 insn 0))) half
  have hword := fun value ↦ abs_add_le value (signedWord (c.r (field4 insn 12)))
  have hrn := signedWord_abs (c.r (field4 insn 12))
  unfold dspValues
  dsimp only
  split_ifs <;> simp only [forall_mem_cons, not_mem_nil, false_imp_iff, implies_true, and_true]
  · exact ⟨inWide_of_abs (by omega), inWide_of_abs ((hword _).trans (by omega))⟩
  · exact ⟨inWide_of_abs (by omega),
      inWide_of_abs ((hword _).trans (add_le_add (signedWord_abs _) hrn |>.trans (by decide)))⟩
  · exact inWide_of_abs (by omega)
  · exact inWide_of_abs (by omega)

theorem masked_ne {mask mask' value value' : Word} (h : insn &&& mask = value)
    (hmask : mask &&& mask' = mask') (hne : value &&& mask' ≠ value') : insn &&& mask' ≠ value' := by
  rw [← h, BitVec.and_assoc, hmask] at hne
  exact hne

theorem not_mostSignificant_of_dualWord (h : IsDualWord insn) : ¬IsMostSignificant insn := fun h' ↦
  masked_ne h.1 (by decide) (by decide) h'.1

theorem not_mostSignificant_of_dualLong (h : IsDualLong insn) : ¬IsMostSignificant insn := fun h' ↦
  masked_ne h.1 (by decide) (by decide) h'.1

theorem not_dualLong_of_dualWord (h : IsDualWord insn) : ¬IsDualLong insn := fun h' ↦
  masked_ne h.1 (by decide) (by decide) h'.1

/-- A sum leaves the range only where the accumulator has no room for it. -/
theorem wide_sums_in_range (c : Core) (pc insn : Word) :
    (∀ value ∈ mediaValues c pc insn ++ dspValues c insn, InWide value) ↔ Roomy c pc insn := by
  rw [forall_mem_append, and_iff_left (dspValues_inWide c insn)]
  have hdual := dualValues_inWide (c.regRead pc (field4 insn 0)) (c.regRead pc (field4 insn 8))
    (bit insn 6) (bit insn 5)
  by_cases hword : IsDualWord insn
  · refine iff_of_true ?_ ⟨fun h ↦ absurd h (not_dualLong_of_dualWord hword),
      fun h ↦ absurd h (not_mostSignificant_of_dualWord hword)⟩
    rw [mediaValues, if_pos hword, forall_mem_append]
    refine ⟨hdual, ?_⟩
    split_ifs
    · rw [forall_mem_singleton]
      exact inWide_of_abs ((abs_add_le _ _).trans
        ((add_le_add (dualProduct_abs ..) (signedWord_abs _)).trans (by decide)))
    · exact nofun
  by_cases hlong : IsDualLong insn
  · rw [mediaValues, if_neg hword, if_pos hlong, forall_mem_append, and_iff_right hdual,
      forall_mem_singleton, Roomy,
      and_iff_left fun h ↦ absurd h (not_mostSignificant_of_dualLong hlong)]
    constructor
    · exact fun h _ ↦ ⟨by have := h.1; omega, by have := h.2; omega⟩
    · exact fun h ↦ ⟨by have := (h hlong).1; omega, by have := (h hlong).2; omega⟩
  by_cases hmost : IsMostSignificant insn
  · have hproduct := abs_le.1 (abs_mul_le (signedWord_abs (c.regRead pc (field4 insn 0)))
      (signedWord_abs (c.regRead pc (field4 insn 8))))
    have hlow : -0x80000000 ≤ signedWord (c.regRead pc (field4 insn 12)) := le_toInt _
    have hhigh : signedWord (c.regRead pc (field4 insn 12)) < 0x80000000 := toInt_lt
    rw [mediaValues, if_neg hword, if_neg hlong, if_pos hmost, Roomy,
      and_iff_right fun h ↦ absurd h hlong]
    simp only [hmost, forall_const, ne_eq]
    generalize signedWord (c.regRead pc (field4 insn 0)) *
      signedWord (c.regRead pc (field4 insn 8)) = product at hproduct ⊢
    generalize signedWord (c.regRead pc (field4 insn 12)) = top at hlow hhigh ⊢
    split_ifs <;> simp only [forall_mem_append, forall_mem_cons, not_mem_nil,
      false_imp_iff, true_imp_iff, implies_true, and_true, not_true_eq_false,
      not_false_eq_true, iff_true, InWide, *] <;> omega
  · rw [mediaValues, if_neg hword, if_neg hlong, if_neg hmost]
    exact iff_of_true nofun ⟨fun h ↦ absurd h hlong, fun h ↦ absurd h hmost⟩

/-- SMLALD onto the greatest accumulator. -/
theorem smlald_overflows : ¬∀ (c : Core) (pc insn : Word),
      ∀ value ∈ mediaValues c pc insn ++ dspValues c insn, InWide value := by
  intro h
  let c : Core := {
    r := fun n ↦ if n = 0 then 0xffffffff else if n = 1 then 0x7fffffff else 0x00010001
    cpsr := 0x13
    spsr := fun _ ↦ 0
    bankR13 := fun _ ↦ 0
    bankR14 := fun _ ↦ 0
    fiqR8_12 := fun _ ↦ 0
    usrR8_12 := fun _ ↦ 0
    vfpS := fun _ ↦ 0 }
  have hvalue := h c 0 0xe7410312 0x8000000000000001 (by decide)
  exact absurd hvalue.2 (by decide)

end S5LBox.Arm
