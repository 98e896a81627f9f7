import Mathlib.Tactic

/-!
# Queues in an array that is moved down

A short queue can be kept in an array whose first cells are its contents: an element is added
behind them, and one that is taken leaves the others a place lower. Nothing wraps around, so that
the level alone tells what the queue holds.
-/

/-- An array of which the first `level` cells are in use. -/
structure ShiftQueue (α : Type) where
  cells : ℕ → α
  level : ℕ

namespace ShiftQueue

open List

variable {α : Type} (q : ShiftQueue α) (value zero : α)

/-- What is in the queue, the oldest element first. -/
def contents : List α := (List.range q.level).map q.cells

def push : ShiftQueue α := ⟨Function.update q.cells q.level value, q.level + 1⟩

/-- The oldest element, and the queue without it; the cell that becomes free is wiped. -/
def pop : α × ShiftQueue α :=
  (q.cells 0,
    { cells := fun index ↦
        if index + 1 < q.level then q.cells (index + 1)
        else if index + 1 = q.level then zero
        else q.cells index
      level := q.level - 1 })

def clear : ShiftQueue α := { q with level := 0 }

@[simp] theorem length_contents : q.contents.length = q.level := by
  rw [contents, length_map, length_range]

@[simp] theorem level_push : (q.push value).level = q.level + 1 := rfl

@[simp] theorem level_pop : (q.pop zero).2.level = q.level - 1 := rfl

@[simp] theorem contents_push : (q.push value).contents = q.contents ++ [value] := by
  have hlast : (q.push value).cells q.level = value := by
    change Function.update q.cells q.level value q.level = value
    rw [Function.update_self]
  rw [contents, level_push, range_succ, map_append, map_singleton, hlast]
  congr 1
  refine map_congr_left fun index hindex ↦ ?_
  exact Function.update_of_ne (mem_range.1 hindex).ne value q.cells

theorem contents_pop (h : 0 < q.level) : q.contents = (q.pop zero).1 :: (q.pop zero).2.contents := by
  obtain ⟨level, hlevel⟩ := Nat.exists_eq_succ_of_ne_zero h.ne'
  rw [contents, contents, level_pop, hlevel, range_succ_eq_map, map_cons, map_map]
  refine congrArg _ (map_congr_left fun index hindex ↦ ?_)
  have hless := mem_range.1 hindex
  exact (if_pos (by omega)).symm

end ShiftQueue
