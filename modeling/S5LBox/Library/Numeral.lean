import Mathlib.Tactic

/-!
# Positional numerals

The digits of a number, the most significant first, padded to a width or as few as there are, and
the ASCII octets they are written with.
-/

namespace Numeral

open List

/-- What a row of digits stands for. -/
def value (base : ℕ) (digits : List ℕ) : ℕ := digits.foldl (fun value digit ↦ value * base + digit) 0

/-- The last `width` digits of a number. -/
def padded (base : ℕ) : ℕ → ℕ → List ℕ
  | 0, _ => []
  | width + 1, n => padded base width (n / base) ++ [n % base]

/-- The digits of a number, without leading zeros. -/
def plain (base n : ℕ) : List ℕ := padded base (Nat.log base n + 1) n

variable {base width n : ℕ}

theorem value_append (front : List ℕ) (digit : ℕ) :
    value base (front ++ [digit]) = value base front * base + digit := by
  unfold value
  rw [foldl_append]
  rfl

theorem foldl_eq (digits : List ℕ) (start : ℕ) :
    digits.foldl (fun value digit ↦ value * base + digit) start =
      start * base ^ digits.length + value base digits := by
  induction digits using List.reverseRecOn with
  | nil => simp [value]
  | append_singleton front digit ih =>
    rw [value_append, foldl_append, foldl_cons, foldl_nil, ih, length_append, length_singleton]
    ring

theorem value_cons (digit : ℕ) (digits : List ℕ) :
    value base (digit :: digits) = digit * base ^ digits.length + value base digits := by
  calc
    _ = digits.foldl (fun value digit ↦ value * base + digit) (0 * base + digit) := rfl
    _ = _ := by rw [zero_mul, zero_add, foldl_eq]

theorem value_lt {digits : List ℕ} (h : ∀ digit ∈ digits, digit < base) :
    value base digits < base ^ digits.length := by
  induction digits with
  | nil => exact Nat.one_pos
  | cons digit digits ih =>
    have hrest := ih fun digit hdigit ↦ h digit (mem_cons_of_mem _ hdigit)
    have hfirst : digit + 1 ≤ base := h digit mem_cons_self
    have hmul := Nat.mul_le_mul_right (base ^ digits.length) hfirst
    rw [value_cons, length_cons, pow_succ', Nat.succ_mul] at *
    omega

@[simp] theorem length_padded : (padded base width n).length = width := by
  induction width generalizing n with
  | zero => rfl
  | succ width ih => rw [padded, length_append, ih, length_singleton]

theorem value_padded (h : n < base ^ width) : value base (padded base width n) = n := by
  induction width generalizing n with
  | zero =>
    rw [pow_zero, Nat.lt_one_iff] at h
    rw [h]
    rfl
  | succ width ih =>
    have hfront : n / base < base ^ width := Nat.div_lt_of_lt_mul (by rwa [mul_comm, ← pow_succ])
    rw [padded, value_append, ih hfront]
    exact Nat.div_add_mod' n base

theorem lt_of_mem_padded {digit : ℕ} (hbase : 0 < base) (h : digit ∈ padded base width n) :
    digit < base := by
  induction width generalizing n with
  | zero => cases h
  | succ width ih =>
    rw [padded, mem_append, mem_singleton] at h
    rcases h with h | rfl
    · exact ih h
    · exact Nat.mod_lt _ hbase

theorem plain_ne_nil : plain base n ≠ [] := by
  intro h
  have hlength := congrArg List.length h
  rw [plain, length_padded] at hlength
  cases hlength

theorem value_plain (hbase : 1 < base) : value base (plain base n) = n :=
  value_padded (Nat.lt_pow_succ_log_self hbase n)

theorem length_plain_le (h : n < base ^ (width + 1)) : (plain base n).length ≤ width + 1 := by
  rw [plain, length_padded]
  rcases Nat.eq_zero_or_pos n with rfl | hpos
  · rw [Nat.log_zero_right]
    exact Nat.le_add_left _ _
  · exact Nat.succ_le_succ (Nat.le_of_lt_succ (Nat.log_lt_of_lt_pow hpos.ne' h))

/-- The octet of a digit; letters are lower-case. -/
def digitOctet (digit : ℕ) : BitVec 8 :=
  if digit < 10 then BitVec.ofNat 8 (0x30 + digit) else BitVec.ofNat 8 (0x57 + digit)

/-- The digit of an octet, in either case; what is no digit at all counts as a large one. -/
def octetDigit (octet : BitVec 8) : ℕ :=
  if 0x30 ≤ octet ∧ octet ≤ 0x39 then octet.toNat - 0x30
  else if 0x61 ≤ octet ∧ octet ≤ 0x7a then octet.toNat - 0x57
  else if 0x41 ≤ octet ∧ octet ≤ 0x5a then octet.toNat - 0x37
  else 256

def isDigit (base : ℕ) (octet : BitVec 8) : Bool := octetDigit octet < base

theorem octetDigit_digitOctet {digit : ℕ} (h : digit < 16) :
    octetDigit (digitOctet digit) = digit := by
  interval_cases digit <;> rfl

/-- Digits as text. -/
def text (digits : List ℕ) : List (BitVec 8) := digits.map digitOctet

@[simp] theorem length_text (digits : List ℕ) : (text digits).length = digits.length :=
  length_map _

variable {digits : List ℕ}

theorem octetDigit_text (h : ∀ digit ∈ digits, digit < 16) :
    (text digits).map octetDigit = digits := by
  unfold text
  rw [map_map]
  calc
    _ = digits.map id :=
      map_congr_left fun digit hdigit ↦ octetDigit_digitOctet (h digit hdigit)
    _ = digits := map_id digits

theorem isDigit_text (hbase : base ≤ 16) (h : ∀ digit ∈ digits, digit < base) :
    ∀ octet ∈ text digits, isDigit base octet = true := by
  intro octet hoctet
  obtain ⟨digit, hdigit, rfl⟩ := mem_map.1 hoctet
  have hlt := h digit hdigit
  unfold isDigit
  rw [octetDigit_digitOctet (hlt.trans_le hbase), decide_eq_true_iff]
  exact hlt

end Numeral
