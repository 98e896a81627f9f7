import Mathlib.Tactic

/-!
# Bits of numbers

The bits of a number as a list, the least significant one first, and how reading a number off the
front of such a list is division and remainder.
-/

namespace Bits

/-- The low `n` bits of a number, the least significant one first. -/
def lsb : ℕ → ℕ → List Bool
  | 0, _ => []
  | n + 1, value => value.testBit 0 :: lsb n (value / 2)

@[simp] theorem length_lsb (n value : ℕ) : (lsb n value).length = n := by
  induction n generalizing value with
  | zero => rfl
  | succ n ih => rw [lsb, List.length_cons, ih]

theorem lsb_add (m n value : ℕ) : lsb (m + n) value = lsb m value ++ lsb n (value / 2 ^ m) := by
  induction m generalizing value with
  | zero => rw [Nat.zero_add, pow_zero, Nat.div_one, lsb, List.nil_append]
  | succ m ih =>
    rw [Nat.succ_add, lsb, lsb, ih, List.cons_append, Nat.div_div_eq_div_mul, ← pow_succ']

theorem lsb_inj {n a b : ℕ} : lsb n a = lsb n b ↔ a % 2 ^ n = b % 2 ^ n := by
  induction n generalizing a b with
  | zero => simp [lsb, Nat.mod_one]
  | succ n ih =>
    rw [lsb, lsb, List.cons.injEq, ih, pow_succ', Nat.mod_mul, Nat.mod_mul]
    have hbit (x : ℕ) : x.testBit 0 = decide (x % 2 = 1) := Nat.testBit_zero x
    rw [hbit, hbit, decide_eq_decide]
    constructor
    · rintro ⟨hlow, hhigh⟩
      rw [hhigh]
      omega
    · intro h
      omega

theorem lsb_congr {n a b : ℕ} (h : a % 2 ^ n = b % 2 ^ n) : lsb n a = lsb n b := lsb_inj.2 h

theorem lsb_push {m n low high : ℕ} (hlow : low < 2 ^ m) :
    lsb (m + n) (low + high * 2 ^ m) = lsb m low ++ lsb n high := by
  rw [lsb_add, Nat.add_mul_div_right _ _ (Nat.two_pow_pos m), Nat.div_eq_of_lt hlow, zero_add]
  congr 1
  apply lsb_congr
  rw [Nat.add_mul_mod_self_right]

theorem lsb_append_eq {m n value word : ℕ} {tail rest : List Bool} (hle : n ≤ m)
    (h : lsb m word ++ tail = lsb n value ++ rest) :
    word % 2 ^ n = value % 2 ^ n ∧ lsb (m - n) (word / 2 ^ n) ++ tail = rest := by
  obtain ⟨k, rfl⟩ := Nat.exists_eq_add_of_le hle
  rw [lsb_add, List.append_assoc] at h
  obtain ⟨hlow, hrest⟩ := List.append_inj h (by rw [length_lsb, length_lsb])
  rw [Nat.add_sub_cancel_left]
  exact ⟨lsb_inj.1 hlow, hrest⟩

end Bits
