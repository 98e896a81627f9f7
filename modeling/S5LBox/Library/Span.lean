import Mathlib.Tactic

/-!
# Spans of a store

A store gives every address a value. A window is the list of values over a span of addresses, and
overwriting lays a list of values over a span. The rules say how the two compose: a transfer done
in pieces is the transfer done at once, and spans apart do not see each other.
-/

namespace Span

open List

variable {α : Type}

/-- The values at `length` addresses from `offset`. -/
def window (store : ℕ → α) (offset length : ℕ) : List α :=
  (List.range length).map fun i ↦ store (offset + i)

/-- The store with `data` laid over it from `offset`. -/
def overwrite (store : ℕ → α) (offset : ℕ) (data : List α) : ℕ → α :=
  fun x ↦ if offset ≤ x then data.getD (x - offset) (store x) else store x

/-- The store after a list of writes, the first of them first: every address holds what was written
there last. -/
def latest (store : ℕ → α) (writes : List (ℕ × List α)) : ℕ → α :=
  writes.foldl (fun store write ↦ overwrite store write.1 write.2) store

@[simp] theorem length_window (store : ℕ → α) (offset length : ℕ) :
    (window store offset length).length = length := by
  simp [window]

@[simp] theorem window_zero (store : ℕ → α) (offset : ℕ) : window store offset 0 = [] := rfl

theorem getElem?_window (store : ℕ → α) (offset length i : ℕ) :
    (window store offset length)[i]? = if i < length then some (store (offset + i)) else none := by
  unfold window
  rw [getElem?_map]
  split
  case isTrue h => rw [getElem?_range h, Option.map_some]
  case isFalse h => rw [getElem?_eq_none (by simpa using h), Option.map_none]

variable {store : ℕ → α} {offset length : ℕ} {data : List α}

theorem window_congr {other : ℕ → α} (h : ∀ i < length, store (offset + i) = other (offset + i)) :
    window store offset length = window other offset length := by
  apply map_congr_left
  intro i hi
  exact h i (mem_range.1 hi)

/-- Reading a span in two pieces. -/
theorem window_append (store : ℕ → α) (offset m n : ℕ) :
    window store offset (m + n) = window store offset m ++ window store (offset + m) n := by
  unfold window
  rw [range_add, map_append, map_map]
  refine congrArg _ (map_congr_left fun i _ ↦ ?_)
  rw [Function.comp_apply, Nat.add_assoc]

theorem take_window (store : ℕ → α) (offset m n : ℕ) (h : m ≤ n) :
    (window store offset n).take m = window store offset m := by
  obtain ⟨k, rfl⟩ := Nat.exists_eq_add_of_le h
  rw [window_append, take_left' (length_window store offset m)]

theorem drop_window (store : ℕ → α) (offset m n : ℕ) (h : m ≤ n) :
    (window store offset n).drop m = window store (offset + m) (n - m) := by
  obtain ⟨k, rfl⟩ := Nat.exists_eq_add_of_le h
  rw [window_append, drop_left' (length_window store offset m), Nat.add_sub_cancel_left]

theorem overwrite_apply (store : ℕ → α) (offset x : ℕ) (data : List α) :
    overwrite store offset data x =
      if offset ≤ x then data[x - offset]?.getD (store x) else store x := by
  unfold overwrite
  rw [getD_eq_getElem?_getD]

@[simp] theorem overwrite_nil (store : ℕ → α) (offset : ℕ) : overwrite store offset [] = store := by
  funext x
  unfold overwrite
  split <;> simp

theorem overwrite_of_lt {x : ℕ} (h : x < offset) :
    overwrite store offset data x = store x := if_neg (by omega)

theorem overwrite_of_le {x : ℕ} (h : offset + data.length ≤ x) :
    overwrite store offset data x = store x := by
  unfold overwrite
  rw [if_pos (by omega), getD_eq_getElem?_getD, getElem?_eq_none (by omega), Option.getD_none]

/-- Outside the span nothing is written. -/
theorem overwrite_of_not_mem {x : ℕ} (h : ¬(offset ≤ x ∧ x < offset + data.length)) :
    overwrite store offset data x = store x := by
  by_cases hx : offset ≤ x
  · exact overwrite_of_le (by omega)
  · exact overwrite_of_lt (by omega)

theorem overwrite_at {i : ℕ} (h : i < data.length) :
    overwrite store offset data (offset + i) = data[i] := by
  unfold overwrite
  rw [if_pos (by omega), Nat.add_sub_cancel_left, getD_eq_getElem?_getD,
    getElem?_eq_getElem h, Option.getD_some]

/-- Writing in two pieces. -/
theorem overwrite_append (store : ℕ → α) (offset : ℕ) (first second : List α) :
    overwrite store offset (first ++ second) =
      overwrite (overwrite store offset first) (offset + first.length) second := by
  funext x
  by_cases hlow : x < offset + first.length
  · rw [overwrite_of_lt hlow]
    by_cases hx : offset ≤ x
    · obtain ⟨i, rfl⟩ := Nat.exists_eq_add_of_le hx
      have hi : i < first.length := by omega
      rw [overwrite_at (by rw [length_append]; omega), overwrite_at hi, getElem_append_left hi]
    · rw [overwrite_of_lt (by omega), overwrite_of_lt (by omega)]
  · by_cases hhigh : x < offset + first.length + second.length
    · obtain ⟨i, rfl⟩ := Nat.exists_eq_add_of_le (Nat.le_of_not_lt hlow)
      have hi : i < second.length := by omega
      rw [overwrite_at hi, Nat.add_assoc, overwrite_at (by rw [length_append]; omega),
        getElem_append_right (by omega)]
      simp
    · rw [overwrite_of_le (by rw [length_append]; omega), overwrite_of_le (by omega),
        overwrite_of_le (by omega)]

theorem overwrite_take (store : ℕ → α) (offset : ℕ) {source : List α} {done taken last : ℕ}
    (hsource : done + taken ≤ source.length) (hlast : done + taken ≤ last) :
    overwrite (overwrite store (offset + done) ((source.drop done).take taken))
        (offset + (done + taken)) ((source.drop (done + taken)).take (last - (done + taken))) =
      overwrite store (offset + done) ((source.drop done).take (last - done)) := by
  have hlength : ((source.drop done).take taken).length = taken := by
    rw [length_take, length_drop]
    omega
  have hsplit : last - done = taken + (last - (done + taken)) := by omega
  rw [hsplit, take_add, drop_drop, overwrite_append, hlength, Nat.add_assoc]

/-- What was written is read back. -/
theorem window_overwrite (store : ℕ → α) (offset : ℕ) (data : List α) :
    window (overwrite store offset data) offset data.length = data := by
  apply ext_getElem?
  intro i
  rw [getElem?_window]
  split
  case isTrue h => rw [overwrite_at h, getElem?_eq_getElem h]
  case isFalse h => rw [getElem?_eq_none (by omega)]

theorem window_overwrite_of_disjoint {start : ℕ}
    (h : start + length ≤ offset ∨ offset + data.length ≤ start) :
    window (overwrite store offset data) start length = window store start length := by
  apply window_congr
  intro i hi
  apply overwrite_of_not_mem
  omega

theorem window_overwrite_append (store : ℕ → α) (offset n : ℕ) (data : List α) :
    window (overwrite store (offset + n) data) offset (n + data.length) =
      window store offset n ++ data := by
  rw [window_append, window_overwrite, window_overwrite_of_disjoint (.inl le_rfl)]

theorem exists_map_some_eq_window {store : ℕ → Option α} :
    (∃ data : List α, data.map some = window store offset length) ↔
      ∀ i < length, (store (offset + i)).isSome := by
  constructor
  · rintro ⟨data, hdata⟩ i hi
    have hget := congrArg (fun list ↦ list[i]?) hdata
    simp only [getElem?_map, getElem?_window, if_pos hi] at hget
    cases hvalue : data[i]? with
    | none =>
      rw [hvalue] at hget
      contradiction
    | some value =>
      rw [hvalue, Option.map_some, Option.some.injEq] at hget
      rw [← hget]
      rfl
  · intro hall
    induction length with
    | zero => exact ⟨[], rfl⟩
    | succ length ih =>
      obtain ⟨data, hdata⟩ := ih fun i hi ↦ hall i (by omega)
      obtain ⟨value, hvalue⟩ := Option.isSome_iff_exists.1 (hall length (by omega))
      refine ⟨data ++ [value], ?_⟩
      rw [map_append, hdata, window_append]
      simp [window, hvalue]

theorem overwrite_window (store image : ℕ → α) (offset length x : ℕ) :
    overwrite store offset (window image offset length) x =
      if offset ≤ x ∧ x < offset + length then image x else store x := by
  split
  case isTrue h =>
    obtain ⟨i, rfl⟩ := Nat.exists_eq_add_of_le h.1
    have hi : i < length := by omega
    have hget : (window image offset length)[i]? = some (image (offset + i)) := by
      rw [getElem?_window, if_pos hi]
    unfold overwrite
    rw [if_pos h.1, Nat.add_sub_cancel_left, getD_eq_getElem?_getD, hget, Option.getD_some]
  case isFalse h => exact overwrite_of_not_mem (by rwa [length_window])

end Span
