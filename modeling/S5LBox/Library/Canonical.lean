import Mathlib.Tactic

/-!
# Canonical prefix codes

A list of lengths gives each symbol the length of its code word, or zero for none. The canonical
code numbers the code words of each length in the order of their symbols, and those of one length
begin right after those of the shorter ones. The facts here are the ones that reading a code word
bit by bit rests on: where the symbols of one length stand among all, and that a code word is
recognised at its own length and no earlier.
-/

namespace Canonical

open List

variable (lengths : List ℕ)

/-- How many code words have this length. -/
def number (len : ℕ) : ℕ := if len = 0 then 0 else lengths.count len

/-- How many code words are shorter. -/
def start (len : ℕ) : ℕ := lengths.countP fun l ↦ 0 < l ∧ l < len

/-- The first code word of this length. -/
def first : ℕ → ℕ
  | 0 => 0
  | len + 1 => (first len + number lengths len) * 2

/-- How many earlier symbols have a code word of the same length. -/
def rank (s : ℕ) : ℕ := (lengths.take s).count (lengths.getD s 0)

/-- The code word of a symbol, as a number. -/
def code (s : ℕ) : ℕ := first lengths (lengths.getD s 0) + rank lengths s

/-- The bits of a number, the most significant one first. -/
def msb : ℕ → ℕ → List Bool
  | 0, _ => []
  | n + 1, value => value.testBit n :: msb n value

def word (s : ℕ) : List Bool := msb (lengths.getD s 0) (code lengths s)

/-- The code words of each length find room behind the shorter ones. -/
def Fits (maxLen : ℕ) : Prop := ∀ len ≤ maxLen, first lengths len + number lengths len ≤ 2 ^ len

/-- Kraft's equality: no bits are left unclaimed. -/
def Complete (maxLen : ℕ) : Prop :=
  Fits lengths maxLen ∧ first lengths maxLen + number lengths maxLen = 2 ^ maxLen

variable {lengths} {len len' s t k : ℕ}

theorem start_zero : start lengths 0 = 0 := by simp [start]

theorem start_succ : start lengths (len + 1) = start lengths len + number lengths len := by
  unfold start number
  induction lengths with
  | nil => simp
  | cons l rest ih =>
    rw [countP_cons, countP_cons, ih, count_cons]
    by_cases hzero : len = 0
    · have hnone (bound : ℕ) (hbound : bound ≤ 1) : decide (0 < l ∧ l < bound) = false := by
        rw [decide_eq_false_iff_not]
        omega
      rw [hnone (len + 1) (by omega), hnone len (by omega), if_pos hzero, if_pos hzero]
      rfl
    · rw [if_neg hzero, if_neg hzero]
      by_cases hsame : l = len
      · have hlater : decide (0 < l ∧ l < len + 1) = true := by
          rw [decide_eq_true_eq]
          omega
        have hearlier : decide (0 < l ∧ l < len) = false := by
          rw [decide_eq_false_iff_not]
          omega
        rw [hlater, hearlier, if_pos rfl, if_neg (by decide), if_pos (by simpa using hsame)]
        omega
      · have hiff : decide (0 < l ∧ l < len + 1) = decide (0 < l ∧ l < len) := by
          rw [decide_eq_decide]
          omega
        rw [hiff, if_neg (c := (l == len) = true) (by simpa using hsame)]
        omega

theorem start_mono (h : len ≤ len') : start lengths len ≤ start lengths len' := by
  induction h with
  | refl => exact le_rfl
  | step _ ih =>
    rw [start_succ]
    exact ih.trans (Nat.le_add_right _ _)

theorem start_le_length : start lengths len ≤ lengths.length := countP_le_length

theorem rank_lt (hs : s < lengths.length) (hlen : lengths.getD s 0 ≠ 0) :
    rank lengths s < number lengths (lengths.getD s 0) := by
  have hget : lengths.getD s 0 = lengths[s] := by simp [List.getD, hs]
  have htake : (lengths.take (s + 1)).count (lengths.getD s 0) = rank lengths s + 1 := by
    rw [take_succ_eq_append_getElem hs, count_append, hget]
    unfold rank
    rw [hget]
    simp
  have hle := (take_sublist (s + 1) lengths).count_le (lengths.getD s 0)
  unfold number
  rw [if_neg hlen]
  omega

theorem exists_rank (hk : k < number lengths len) :
    ∃ s < lengths.length, lengths.getD s 0 = len ∧ rank lengths s = k := by
  have hlen : len ≠ 0 := by
    rintro rfl
    exact absurd hk (by simp [number])
  unfold number at hk
  rw [if_neg hlen] at hk
  clear hlen
  unfold rank
  induction lengths generalizing k with
  | nil => simp at hk
  | cons l rest ih =>
    rw [count_cons] at hk
    by_cases hsame : l = len
    · cases k with
      | zero => exact ⟨0, Nat.succ_pos _, hsame, rfl⟩
      | succ k =>
        rw [if_pos (by simpa using hsame)] at hk
        obtain ⟨s, hs, hget, hrank⟩ := ih (Nat.lt_of_succ_lt_succ hk)
        refine ⟨s + 1, Nat.succ_lt_succ hs, hget, ?_⟩
        rw [getD_cons_succ, take_succ_cons, count_cons, hrank, hget, if_pos (by simpa using hsame)]
    · rw [if_neg (by simpa using hsame)] at hk
      obtain ⟨s, hs, hget, hrank⟩ := ih (by omega)
      refine ⟨s + 1, Nat.succ_lt_succ hs, hget, ?_⟩
      rw [getD_cons_succ, take_succ_cons, count_cons, hrank, hget,
        if_neg (by simpa using hsame), add_zero]

theorem place_lt_of_lt {len len' r r' : ℕ} (h : len < len') (hr : r < number lengths len) :
    start lengths len + r < start lengths len' + r' := by
  have hmono : start lengths (len + 1) ≤ start lengths len' := start_mono h
  rw [start_succ] at hmono
  omega

theorem first_le (h : len < len') :
    (first lengths len + number lengths len) * 2 ^ (len' - len) ≤ first lengths len' := by
  induction h with
  | refl => simp [first]
  | @step m hle ih =>
    have hexp : m + 1 - len = (m - len) + 1 := by
      have hlt : len < m := hle
      omega
    rw [hexp, pow_succ, ← mul_assoc]
    exact Nat.mul_le_mul_right 2 (ih.trans (Nat.le_add_right _ _))

theorem code_lt {maxLen : ℕ} (hfits : Fits lengths maxLen) (hs : s < lengths.length)
    (hlen : lengths.getD s 0 ≠ 0) (hmax : lengths.getD s 0 ≤ maxLen) :
    code lengths s < 2 ^ lengths.getD s 0 := by
  have hrank := rank_lt hs hlen
  have hroom := hfits _ hmax
  unfold code
  omega

theorem le_code_div (h : len < lengths.getD s 0) : first lengths len + number lengths len ≤
      code lengths s / 2 ^ (lengths.getD s 0 - len) := by
  rw [Nat.le_div_iff_mul_le (Nat.two_pow_pos _)]
  exact (first_le h).trans (Nat.le_add_right _ _)

theorem length_msb (n value : ℕ) : (msb n value).length = n := by
  induction n with
  | zero => rfl
  | succ n ih => rw [msb, length_cons, ih]

theorem div_two_pow_succ (value n : ℕ) :
    value / 2 ^ n = 2 * (value / 2 ^ (n + 1)) + (value.testBit n).toNat := by
  rw [Nat.toNat_testBit, pow_succ, ← Nat.div_div_eq_div_mul]
  omega

end Canonical
