import Mathlib.Tactic

/-!
# The ones-complement checksum

The sum of a string of octets as big-endian 16-bit words, the carries folded back in, and its
complement. A string that holds the complement of the sum of the rest, at an even place, has a
checksum of zero.
-/

namespace OnesComplement

/-- The sum of the big-endian 16-bit words; an octet left over is the upper half of one. -/
def wordSum : List (BitVec 8) → ℕ
  | [] => 0
  | [octet] => octet.toNat * 256
  | high :: low :: rest => high.toNat * 256 + low.toNat + wordSum rest

/-- Fold the carries back in until there are none, which three turns do for a 32-bit sum. -/
def fold : ℕ → ℕ → ℕ
  | 0, sum => sum
  | turns + 1, sum => if sum < 65536 then sum else fold turns (sum % 65536 + sum / 65536)

def foldCarries (sum : ℕ) : ℕ := fold 3 sum

/-- The checksum of a sum. -/
def complement (sum : ℕ) : ℕ := 65535 - foldCarries sum

theorem wordSum_append {first second : List (BitVec 8)} (h : first.length % 2 = 0) :
    wordSum (first ++ second) = wordSum first + wordSum second := by
  induction first using wordSum.induct with
  | case1 => simp [wordSum]
  | case2 octet => simp at h
  | case3 high low rest ih =>
    have hrest : rest.length % 2 = 0 := by
      simp only [List.length_cons] at h
      omega
    rw [List.cons_append, List.cons_append, wordSum, wordSum, ih hrest]
    omega

theorem wordSum_le (data : List (BitVec 8)) : wordSum data ≤ 65535 * ((data.length + 1) / 2) := by
  induction data using wordSum.induct with
  | case1 => simp [wordSum]
  | case2 octet =>
    have hoctet := octet.isLt
    simp only [wordSum, List.length_singleton]
    omega
  | case3 high low rest ih =>
    have hhigh := high.isLt
    have hlow := low.isLt
    simp only [wordSum, List.length_cons]
    omega

theorem fold_mod (turns sum : ℕ) : fold turns sum % 65535 = sum % 65535 := by
  induction turns generalizing sum with
  | zero => rfl
  | succ turns ih =>
    rw [fold]
    split
    · rfl
    · rw [ih]
      omega

theorem fold_eq_zero {turns sum : ℕ} (h : fold turns sum = 0) : sum = 0 := by
  induction turns generalizing sum with
  | zero => exact h
  | succ turns ih =>
    rw [fold] at h
    split at h
    · exact h
    · have hzero := ih h
      omega

theorem foldCarries_lt {sum : ℕ} (h : sum < 2 ^ 32) : foldCarries sum < 65536 := by
  unfold foldCarries
  rw [fold]
  split
  · assumption
  rw [fold]
  split
  · assumption
  rw [fold]
  split
  · assumption
  · rw [fold]
    omega

/-- Adding the checksum of a sum to it gives a sum whose checksum is zero. -/
theorem complement_add {sum : ℕ} (h : sum + 65535 < 2 ^ 32) :
    complement (sum + complement sum) = 0 := by
  have hfold := @foldCarries_lt sum (by omega)
  have hmod := fold_mod 3 sum
  have hcomplement : complement sum ≤ 65535 := Nat.sub_le ..
  have htotal := @foldCarries_lt (sum + complement sum) (by omega)
  have htotalMod := fold_mod 3 (sum + complement sum)
  have hpos : foldCarries (sum + complement sum) ≠ 0 := by
    intro hzero
    have hsum := fold_eq_zero hzero
    have hempty : sum = 0 := by omega
    rw [hempty] at hsum
    exact absurd hsum (by decide)
  change foldCarries sum % 65535 = _ at hmod
  change foldCarries (sum + complement sum) % 65535 = _ at htotalMod
  unfold complement at *
  omega

end OnesComplement
