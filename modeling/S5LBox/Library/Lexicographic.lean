import S5LBox.Library.Numeral

/-!
# Orders by the first difference

Numbers made of a leading and a trailing part compare as the parts do, the leading one first, and
so do rows of signs of one length put one behind the other. Digits padded to a width compare as
the numbers they stand for.
-/

namespace Lexicographic

variable {a a' b b' : ℕ}

theorem compare_add {mark : ℕ → ℕ} (hmark : Monotone mark) (hb : mark a + b < mark (a + 1))
    (hb' : mark a' + b' < mark (a' + 1)) :
    compare (mark a + b) (mark a' + b') = (compare a a').then (compare b b') := by
  rcases lt_trichotomy a a' with h | rfl | h
  · have hle : mark (a + 1) ≤ mark a' := hmark h
    rw [compare_lt_iff_lt.2 h, compare_lt_iff_lt.2 (by omega)]
    rfl
  · rw [compare_eq_iff_eq.2 rfl, Ordering.eq_then]
    rcases lt_trichotomy b b' with h | rfl | h
    · rw [compare_lt_iff_lt.2 h, compare_lt_iff_lt.2 (by omega)]
    · rw [compare_eq_iff_eq.2 rfl, compare_eq_iff_eq.2 rfl]
    · rw [compare_gt_iff_gt.2 h, compare_gt_iff_gt.2 (by omega)]
  · have hle : mark (a' + 1) ≤ mark a := hmark h
    rw [compare_gt_iff_gt.2 h, compare_gt_iff_gt.2 (by omega)]
    rfl

theorem compare_mul_add {base : ℕ} (hb : b < base) (hb' : b' < base) :
    compare (a * base + b) (a' * base + b') = (compare a a').then (compare b b') := by
  have hmark : Monotone fun a : ℕ ↦ a * base := fun _ _ hle ↦ Nat.mul_le_mul_right base hle
  refine compare_add hmark ?_ ?_
  · simp only [Nat.succ_mul]
    omega
  · simp only [Nat.succ_mul]
    omega

theorem then_congr {first second : Ordering} (h : a = a' → first = second) :
    (compare a a').then first = (compare a a').then second := by
  by_cases heq : a = a'
  · rw [h heq]
  · cases hcompare : compare a a' with
    | lt => rfl
    | eq => exact absurd (compare_eq_iff_eq.1 hcompare) heq
    | gt => rfl

section Rows

variable {α : Type*} {cmp : α → α → Ordering}

theorem compareLex_append {first first' : List α} (rest rest' : List α)
    (h : first.length = first'.length) : List.compareLex cmp (first ++ rest) (first' ++ rest') =
      (List.compareLex cmp first first').then (List.compareLex cmp rest rest') := by
  induction first generalizing first' with
  | nil =>
    obtain rfl := List.length_eq_zero_iff.1 h.symm
    rfl
  | cons sign first ih =>
    cases first' with
    | nil => cases h
    | cons sign' first' =>
      rw [List.cons_append, List.cons_append, List.compareLex_cons_cons,
        List.compareLex_cons_cons, ih (Nat.succ.inj h), Ordering.then_assoc]

end Rows

def compareOctets (first second : BitVec 8) : Ordering := compare first.toNat second.toNat

theorem compareOctets_self (octet : BitVec 8) : compareOctets octet octet = .eq :=
  compare_eq_iff_eq.2 rfl

theorem compareOctets_digit (ha : a < 10) (hb : b < 10) :
    compareOctets (Numeral.digitOctet a) (Numeral.digitOctet b) = compare a b := by
  interval_cases a <;> interval_cases b <;> rfl

theorem compareLex_padded {width : ℕ} (ha : a < 10 ^ width) (hb : b < 10 ^ width) :
    List.compareLex compareOctets (Numeral.text (Numeral.padded 10 width a))
      (Numeral.text (Numeral.padded 10 width b)) = compare a b := by
  induction width generalizing a b with
  | zero =>
    obtain rfl : a = 0 := Nat.lt_one_iff.1 ha
    obtain rfl : b = 0 := Nat.lt_one_iff.1 hb
    rfl
  | succ width ih =>
    have hfront {n : ℕ} (h : n < 10 ^ (width + 1)) : n / 10 < 10 ^ width :=
      Nat.div_lt_of_lt_mul (by rwa [mul_comm, ← pow_succ])
    have hlast (n : ℕ) : n % 10 < 10 := Nat.mod_lt _ (by decide)
    rw [Numeral.padded, Numeral.padded, Numeral.text, Numeral.text, List.map_append,
      List.map_append, compareLex_append _ _ (by simp)]
    change (List.compareLex compareOctets (Numeral.text _) (Numeral.text _)).then
      (List.compareLex compareOctets [Numeral.digitOctet _] [Numeral.digitOctet _]) = _
    rw [ih (hfront ha) (hfront hb), List.compareLex_cons_cons, compareOctets_digit (hlast a) (hlast b),
      List.compareLex_nil_nil, Ordering.then_eq, ← compare_mul_add (hlast a) (hlast b),
      Nat.div_add_mod', Nat.div_add_mod']

end Lexicographic
