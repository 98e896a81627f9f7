import Mathlib.Tactic

/-!
# Little-endian numbers

The octets of a number, the least significant first, and the number they stand for.
-/

namespace LittleEndian

def put : (width : ℕ) → ℕ → List (BitVec 8)
  | 0, _ => []
  | width + 1, value => BitVec.ofNat 8 value :: put width (value / 256)

def get : List (BitVec 8) → ℕ
  | [] => 0
  | octet :: rest => octet.toNat + 256 * get rest

@[simp] theorem length_put (width value : ℕ) : (put width value).length = width := by
  induction width generalizing value with
  | zero => rfl
  | succ width ih => rw [put, List.length_cons, ih]

/-- A number that fits is read back. -/
theorem get_put {width value : ℕ} (h : value < 256 ^ width) : get (put width value) = value := by
  induction width generalizing value with
  | zero =>
    have hzero : value = 0 := by simpa using h
    rw [hzero]
    rfl
  | succ width ih =>
    have hrest : value / 256 < 256 ^ width := by
      rw [Nat.div_lt_iff_lt_mul (by decide), ← pow_succ]
      exact h
    rw [put, get, ih hrest, BitVec.toNat_ofNat]
    exact Nat.mod_add_div value 256

theorem put_get (data : List (BitVec 8)) : put data.length (get data) = data := by
  induction data with
  | nil => rfl
  | cons octet rest ih =>
    have hdiv : (octet.toNat + 256 * get rest) / 256 = get rest := by
      omega
    have hlow : BitVec.ofNat 8 (octet.toNat + 256 * get rest) = octet := by
      apply BitVec.eq_of_toNat_eq
      rw [BitVec.toNat_ofNat]
      omega
    rw [List.length_cons, get, put, hdiv, hlow, ih]

theorem get_lt (data : List (BitVec 8)) : get data < 256 ^ data.length := by
  induction data with
  | nil => simp [get]
  | cons octet rest ih =>
    have hoctet := octet.isLt
    rw [get, List.length_cons, pow_succ]
    omega

theorem put_add (m n value : ℕ) : put (m + n) value = put m value ++ put n (value / 256 ^ m) := by
  induction m generalizing value with
  | zero => rw [Nat.zero_add, pow_zero, Nat.div_one, put, List.nil_append]
  | succ m ih => rw [Nat.succ_add, put, put, ih, pow_succ', Nat.div_div_eq_div_mul, List.cons_append]

theorem put_congr {width a b : ℕ} (h : a % 256 ^ width = b % 256 ^ width) :
    put width a = put width b := by
  induction width generalizing a b with
  | zero => rfl
  | succ width ih =>
    rw [pow_succ'] at h
    have hlow : a % 256 = b % 256 := by
      rw [← Nat.mod_mul_right_mod a 256 (256 ^ width), h, Nat.mod_mul_right_mod]
    have hhigh : a / 256 % 256 ^ width = b / 256 % 256 ^ width := by
      rw [← Nat.mod_mul_right_div_self, h, Nat.mod_mul_right_div_self]
    rw [put, put, ih hhigh]
    congr 1
    exact BitVec.eq_of_toNat_eq hlow

theorem put_push {m low : ℕ} (n high : ℕ) (hlow : low < 256 ^ m) :
    put (m + n) (low + high * 256 ^ m) = put m low ++ put n high := by
  rw [put_add, Nat.add_mul_div_right _ _ (by positivity), Nat.div_eq_of_lt hlow, zero_add]
  congr 1
  exact put_congr (Nat.add_mul_mod_self_right ..)

end LittleEndian
