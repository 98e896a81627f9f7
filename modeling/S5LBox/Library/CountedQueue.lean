import Mathlib.Tactic

/-!
# Queues in a ring with a count

A ring of `capacity` cells keeps the place of its oldest element and how many elements there are.
A full ring refuses an element, so that what has come out and what is held is what was accepted.
-/

structure CountedQueue (capacity : ℕ) (α : Type) where
  slot : ℕ → α
  head : ℕ
  count : ℕ
  head_lt : head < capacity
  count_le : count ≤ capacity

namespace CountedQueue

variable {capacity : ℕ} {α : Type} {q q' : CountedQueue capacity α} {a : α}

/-- A ring without elements whose cells hold `a`. -/
def empty (hpos : 0 < capacity) (a : α) : CountedQueue capacity α :=
  ⟨fun _ ↦ a, 0, 0, hpos, Nat.zero_le _⟩

def push (q : CountedQueue capacity α) (a : α) : Option (CountedQueue capacity α) :=
  if h : q.count < capacity then
    some { q with
      slot := Function.update q.slot ((q.head + q.count) % capacity) a
      count := q.count + 1
      count_le := h }
  else none

/-- The oldest element, and the ring without it. -/
def pop (q : CountedQueue capacity α) : Option (α × CountedQueue capacity α) :=
  if q.count = 0 then none
  else some (q.slot q.head, { q with
    head := (q.head + 1) % capacity
    count := q.count - 1
    head_lt := Nat.mod_lt _ (Nat.zero_lt_of_lt q.head_lt)
    count_le := (Nat.sub_le _ 1).trans q.count_le })

/-- The elements, the oldest first. -/
def contents (q : CountedQueue capacity α) : List α :=
  (List.range q.count).map fun i ↦ q.slot ((q.head + i) % capacity)

@[simp] theorem length_contents : q.contents.length = q.count := by
  rw [contents, List.length_map, List.length_range]

theorem place_ne {i j : ℕ} (hij : i < j) (hj : j < i + capacity) (head : ℕ) :
    (head + i) % capacity ≠ (head + j) % capacity := by
  intro h
  obtain ⟨k, hk⟩ := (Nat.modEq_iff_dvd' (by omega : head + i ≤ head + j)).1 h
  obtain rfl | hpos := k.eq_zero_or_pos
  · omega
  · have hround := Nat.le_mul_of_pos_right capacity hpos
    omega

theorem contents_push (h : q.push a = some q') : q'.contents = q.contents ++ [a] := by
  rw [push] at h
  split at h
  case isFalse => cases h
  case isTrue hroom =>
    cases h
    rw [contents, contents, List.range_succ, List.map_append, List.map_singleton]
    dsimp only
    rw [Function.update_self]
    congr 1
    refine List.map_congr_left fun i hi ↦ Function.update_of_ne ?_ _ _
    have hi := List.mem_range.1 hi
    exact place_ne hi (by omega) _

theorem push_eq_none : q.push a = none ↔ q.count = capacity := by
  have hle := q.count_le
  unfold push
  split
  · simp only [reduceCtorEq, false_iff]
    omega
  · simp only [true_iff]
    omega

theorem contents_pop (h : q.pop = some (a, q')) : q.contents = a :: q'.contents := by
  rw [pop] at h
  split at h
  case isTrue => cases h
  case isFalse hsome =>
    obtain ⟨n, hn⟩ := Nat.exists_eq_succ_of_ne_zero hsome
    cases h
    simp only [contents, hn, List.range_succ_eq_map, List.map_cons, List.map_map, add_zero,
      Nat.mod_eq_of_lt q.head_lt, Nat.succ_eq_add_one, Nat.add_sub_cancel]
    congr 1
    refine List.map_congr_left fun i _ ↦ congrArg q.slot ?_
    rw [Nat.mod_add_mod, add_assoc, add_comm 1]

theorem pop_eq_none : q.pop = none ↔ q.count = 0 := by
  unfold pop
  split <;> simp_all

end CountedQueue
