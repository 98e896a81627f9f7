import Mathlib.Tactic

/-!
# Words made of pieces

Bit vectors put together from pieces: fields side by side, which are read back at their places,
and rows of lanes of one width, put there by shifts. A piece that is read as a signed number is
extended by its sign, with a branch or without one.
-/

namespace Words

open BitVec (eq_of_getLsbD_eq getLsbD_and getLsbD_or getLsbD_setWidth getLsbD_xor toNat_ofInt
  toNat_setWidth)

theorem getLsbD_append_of_lt {v w k : ℕ} {x : BitVec v} {y : BitVec w} (h : k < w) :
    (x ++ y).getLsbD k = y.getLsbD k := by
  rw [BitVec.getLsbD_append, if_pos h]

theorem getLsbD_append_of_le {v w k : ℕ} {x : BitVec v} {y : BitVec w} (h : w ≤ k) :
    (x ++ y).getLsbD k = x.getLsbD (k - w) := by
  rw [BitVec.getLsbD_append, if_neg (not_lt.2 h)]

theorem and_eq_setWidth {n width : ℕ} {mask : BitVec n}
    (hmask : ∀ k < n, mask.getLsbD k = decide (k < width)) (value : BitVec n) :
    value &&& mask = (value.setWidth width).setWidth n := by
  apply eq_of_getLsbD_eq
  intro k hk
  rw [getLsbD_and, hmask k hk, getLsbD_setWidth, getLsbD_setWidth,
    decide_eq_true hk, Bool.true_and, Bool.and_comm]

theorem setWidth_setWidth {v w n : ℕ} (x : BitVec v) (h : v ≤ w) :
    (x.setWidth w).setWidth n = x.setWidth n := by
  apply BitVec.eq_of_toNat_eq
  have hlt : x.toNat < 2 ^ w := x.isLt.trans_le (Nat.pow_le_pow_right (by decide) h)
  rw [toNat_setWidth, toNat_setWidth, toNat_setWidth, Nat.mod_eq_of_lt hlt]

theorem setWidth_shiftLeft {v w n : ℕ} (imm : BitVec v) (shift : ℕ) (hw : v + shift ≤ w)
    (hn : w ≤ n) : (imm.setWidth w <<< shift).setWidth n = imm.setWidth n <<< shift := by
  apply eq_of_getLsbD_eq
  intro k hk
  simp only [getLsbD_setWidth, BitVec.getLsbD_shiftLeft]
  by_cases hlow : k < shift
  · simp [hlow]
  · by_cases hin : k - shift < v
    · have hkw : k < w := by omega
      have hkn : k - shift < n := by omega
      have hkw' : k - shift < w := by omega
      simp [hlow, hk, hkw, hkn, hkw']
    · rw [BitVec.getLsbD_of_ge imm _ (not_lt.1 hin)]
      simp

theorem setWidth_ofInt {n width : ℕ} (h : width ≤ n) (value : ℤ) :
    (BitVec.ofInt n value).setWidth width = BitVec.ofInt width value := by
  apply BitVec.eq_of_toNat_eq
  have hdvd : ((2 ^ width : ℕ) : ℤ) ∣ ((2 ^ n : ℕ) : ℤ) :=
    Int.natCast_dvd_natCast.2 (Nat.pow_dvd_pow 2 h)
  have hnonneg : 0 ≤ value % ((2 ^ n : ℕ) : ℤ) := Int.emod_nonneg _ (by positivity)
  rw [toNat_setWidth, toNat_ofInt, toNat_ofInt,
    ← Int.emod_emod_of_dvd value hdvd, Int.toNat_emod hnonneg (by positivity), Int.toNat_natCast]

/-- Lanes put side by side by shifts. -/
def row {n : ℕ} (width : ℕ) (lane : ℕ → BitVec n) : ℕ → BitVec n
  | 0 => 0
  | lanes + 1 => row width lane lanes ||| (lane lanes <<< (lanes * width))

theorem getLsbD_row {n width : ℕ} {lane : ℕ → BitVec n} (hwidth : 0 < width)
    (hlane : ∀ i k, width ≤ k → (lane i).getLsbD k = false) {lanes k : ℕ} (hk : k < n) :
    (row width lane lanes).getLsbD k =
      (decide (k / width < lanes) && (lane (k / width)).getLsbD (k % width)) := by
  induction lanes with
  | zero => simp [row]
  | succ lanes ih =>
    rw [row, getLsbD_or, ih, BitVec.getLsbD_shiftLeft]
    have hdiv := Nat.div_add_mod k width
    have hmod := Nat.mod_lt k hwidth
    rcases lt_trichotomy (k / width) lanes with hlt | heq | hgt
    · have hless : k < lanes * width := by
        calc
          k < (k / width + 1) * width := by
            rw [Nat.succ_mul, Nat.mul_comm]
            omega
          _ ≤ lanes * width := Nat.mul_le_mul_right _ hlt
      simp [hlt, hlt.trans (Nat.lt_succ_self _), hless]
    · have hge : ¬k < lanes * width := by
        rw [← heq, Nat.mul_comm]
        omega
      have hrest : k - lanes * width = k % width := by
        rw [← heq, Nat.mul_comm]
        omega
      simp [heq, hk, hge, hrest]
    · have hge : (lanes + 1) * width ≤ k := by
        calc
          (lanes + 1) * width ≤ k / width * width := Nat.mul_le_mul_right _ hgt
          _ ≤ k := Nat.div_mul_le_self ..
      have hout : (lane lanes).getLsbD (k - lanes * width) = false := by
        apply hlane
        rw [Nat.succ_mul] at hge
        omega
      have hnot : ¬k / width < lanes := by omega
      have hnot' : ¬k / width < lanes + 1 := by omega
      simp [hnot, hnot', hout]

theorem extractLsb'_row {n width : ℕ} {lane : ℕ → BitVec n} (hwidth : 0 < width)
    (hlane : ∀ i k, width ≤ k → (lane i).getLsbD k = false) {lanes i : ℕ} (hi : i < lanes)
    (hfits : lanes * width ≤ n) :
    (row width lane lanes).extractLsb' (i * width) width = (lane i).setWidth width := by
  apply eq_of_getLsbD_eq
  intro k hk
  have hinside : i * width + k < n := by
    calc
      i * width + k < (i + 1) * width := by
        rw [Nat.succ_mul]
        omega
      _ ≤ lanes * width := Nat.mul_le_mul_right _ hi
      _ ≤ n := hfits
  have hdiv : (i * width + k) / width = i := by
    rw [Nat.mul_comm, Nat.mul_add_div hwidth, Nat.div_eq_of_lt hk, Nat.add_zero]
  have hmod : (i * width + k) % width = k := by
    rw [Nat.mul_comm, Nat.mul_add_mod, Nat.mod_eq_of_lt hk]
  rw [BitVec.getLsbD_extractLsb', getLsbD_row hwidth hlane hinside, hdiv, hmod, getLsbD_setWidth]
  simp [hk, hi]

theorem xor_sub_eq_signExtend {n width : ℕ} {sign above : BitVec n} (b : BitVec width)
    (hsign : ∀ k < n, sign.getLsbD k = decide (k = width - 1))
    (habove : ∀ k < n, above.getLsbD k = decide (width - 1 ≤ k)) (hneg : above = -sign) :
    (b.setWidth n ^^^ sign) - sign = b.signExtend n := by
  have hmsb : b.msb = b.getLsbD (width - 1) := BitVec.msb_eq_getLsbD_last b
  cases hs : b.msb with
  | true =>
    have hor : b.signExtend n = (b.setWidth n ^^^ sign) ||| above := by
      apply eq_of_getLsbD_eq
      intro k hk
      rw [BitVec.getLsbD_signExtend, getLsbD_or, getLsbD_xor, getLsbD_setWidth,
        hsign k hk, habove k hk, hs]
      by_cases hlow : k < width - 1
      · have hin : k < width := by omega
        have hne : k ≠ width - 1 := by omega
        have hge : ¬width - 1 ≤ k := by omega
        simp [hin, hne, hge, hk]
      · by_cases heq : k = width - 1
        · subst heq
          rw [← hmsb, hs]
          simp [hk]
        · have hout : ¬k < width := by omega
          have hge : width - 1 ≤ k := by omega
          simp [hout, hge, hk, heq]
    have hand : (b.setWidth n ^^^ sign) &&& above = 0 := by
      apply eq_of_getLsbD_eq
      intro k hk
      rw [getLsbD_and, getLsbD_xor, getLsbD_setWidth, hsign k hk, habove k hk]
      by_cases heq : k = width - 1
      · subst heq
        rw [← hmsb, hs]
        simp [hk]
      · by_cases hlow : k < width - 1
        · have hge : ¬width - 1 ≤ k := by omega
          simp [hge]
        · rw [BitVec.getLsbD_of_ge b k (by omega)]
          simp [heq]
    rw [hor, ← BitVec.add_eq_or_of_and_eq_zero _ _ hand, hneg, BitVec.sub_eq_add_neg]
  | false =>
    have hand : b.setWidth n &&& sign = 0 := by
      apply eq_of_getLsbD_eq
      intro k hk
      rw [getLsbD_and, getLsbD_setWidth, hsign k hk]
      by_cases heq : k = width - 1
      · subst heq
        rw [← hmsb, hs]
        simp
      · simp [heq]
    have hxor : b.setWidth n ^^^ sign = b.setWidth n + sign := by
      rw [BitVec.add_eq_or_of_and_eq_zero _ _ hand]
      apply eq_of_getLsbD_eq
      intro k hk
      rw [getLsbD_xor, getLsbD_or, getLsbD_setWidth, hsign k hk]
      by_cases heq : k = width - 1
      · subst heq
        rw [← hmsb, hs]
        simp
      · simp [heq]
    rw [hxor, BitVec.add_sub_cancel, BitVec.signExtend_eq_setWidth_of_msb_false hs]

end Words
