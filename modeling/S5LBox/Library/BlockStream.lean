import Mathlib.Tactic

/-!
# Streams of blocks

A step that takes one block of a fixed size, run over the whole blocks of a list, and the rest that
does not fill a block. A list that arrives in pieces is worked through from the state of what was
there and the rest it has left, whatever the pieces are.
-/

namespace BlockStream

open List

variable {α σ : Type} (step : σ → List α → σ) (size : ℕ)

/-- The state after the first `n` blocks of a list. -/
def absorbFor : ℕ → σ → List α → σ
  | 0, s, _ => s
  | n + 1, s, l => absorbFor n (step s (l.take size)) (l.drop size)

/-- The state after all whole blocks of a list. -/
def absorb (s : σ) (l : List α) : σ := absorbFor step size (l.length / size) s l

/-- What does not fill a block. -/
def left (l : List α) : List α := l.drop (l.length / size * size)

variable {step size}

theorem absorbFor_add (m n : ℕ) (s : σ) (l : List α) : absorbFor step size (m + n) s l =
      absorbFor step size n (absorbFor step size m s l) (l.drop (m * size)) := by
  induction m generalizing s l with
  | zero => rw [Nat.zero_add, Nat.zero_mul, absorbFor, drop_zero]
  | succ m ih => rw [Nat.succ_add, absorbFor, absorbFor, ih, drop_drop, Nat.succ_mul,
      Nat.add_comm size]

variable {l : List α}

theorem absorbFor_append {n : ℕ} {s : σ} (r : List α) (h : n * size ≤ l.length) :
    absorbFor step size n s (l ++ r) = absorbFor step size n s l := by
  induction n generalizing s l with
  | zero => rfl
  | succ n ih =>
    rw [Nat.succ_mul] at h
    rw [absorbFor, absorbFor, take_append_of_le_length (by omega),
      drop_append_of_le_length (by omega), ih (by rw [length_drop]; omega)]

theorem length_left_lt (hsize : 0 < size) (l : List α) : (left size l).length < size := by
  have hlt := Nat.mod_lt l.length hsize
  have hsplit := Nat.div_add_mod' l.length size
  rw [left, length_drop]
  omega

theorem length_left (l : List α) : (left size l).length = l.length % size := by
  have hsplit := Nat.div_add_mod' l.length size
  rw [left, length_drop]
  omega

theorem blocks_append (hsize : 0 < size) (l r : List α) :
    (l ++ r).length / size = l.length / size + (left size l ++ r).length / size := by
  have hsplit := Nat.div_add_mod l.length size
  rw [length_append, length_append, length_left]
  calc (l.length + r.length) / size
      = (l.length % size + r.length + size * (l.length / size)) / size := by
        congr 1
        omega
    _ = (l.length % size + r.length) / size + l.length / size := Nat.add_mul_div_left _ _ hsize
    _ = _ := Nat.add_comm _ _

theorem absorb_append (hsize : 0 < size) (s : σ) (l r : List α) :
    absorb step size s (l ++ r) = absorb step size (absorb step size s l) (left size l ++ r) := by
  have hle : l.length / size * size ≤ l.length := Nat.div_mul_le_self _ _
  rw [absorb, blocks_append hsize, absorbFor_add, absorbFor_append r hle,
    drop_append_of_le_length hle]
  rfl

theorem left_append (hsize : 0 < size) (l r : List α) :
    left size (l ++ r) = left size (left size l ++ r) := by
  have hle : l.length / size * size ≤ l.length := Nat.div_mul_le_self _ _
  rw [left, blocks_append hsize, Nat.add_mul, ← drop_drop, drop_append_of_le_length hle]
  rfl

theorem absorb_of_lt {s : σ} (h : l.length < size) : absorb step size s l = s := by
  rw [absorb, Nat.div_eq_of_lt h, absorbFor]

theorem left_of_lt (h : l.length < size) : left size l = l := by
  rw [left, Nat.div_eq_of_lt h, Nat.zero_mul, drop_zero]

theorem absorb_of_le (hsize : 0 < size) {s : σ} (h : size ≤ l.length) :
    absorb step size s l = absorb step size (step s (l.take size)) (l.drop size) := by
  rw [absorb, Nat.div_eq_sub_div hsize h, absorbFor, absorb, length_drop]

theorem left_of_le (hsize : 0 < size) (h : size ≤ l.length) :
    left size l = left size (l.drop size) := by
  rw [left, left, Nat.div_eq_sub_div hsize h, length_drop, Nat.succ_mul, drop_drop,
    Nat.add_comm size]

/-- A first block that is whole is worked through at once. -/
theorem absorb_append_of_length (hsize : 0 < size) {s : σ} (h : l.length = size) (r : List α) :
    absorb step size s (l ++ r) = absorb step size (step s l) r := by
  rw [absorb_of_le hsize (by rw [length_append]; omega), take_left' h, drop_left' h]

theorem left_append_of_length (hsize : 0 < size) (h : l.length = size) (r : List α) :
    left size (l ++ r) = left size r := by
  rw [left_of_le hsize (by rw [length_append]; omega), drop_left' h]

end BlockStream
