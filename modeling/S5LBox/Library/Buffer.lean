import Mathlib.Tactic

/-!
# Buffers of cells that start out empty

A buffer has a fixed number of cells, and a cell has a value only once one was written to it. A
read of an empty cell and an access past the end have no result, so that a computation which has
one is a computation that does neither.
-/

/-- `size` cells, each of which is empty or holds a value. -/
structure Buffer (α : Type) (size : ℕ) where
  cells : ℕ → Option α

namespace Buffer

open List

variable {α : Type} {size : ℕ}

/-- No cell has been written. -/
def empty : Buffer α size := ⟨fun _ ↦ none⟩

def read (b : Buffer α size) (index : ℕ) : Option α :=
  if index < size then b.cells index else none

def write (b : Buffer α size) (index : ℕ) (value : α) : Option (Buffer α size) :=
  if index < size then some ⟨Function.update b.cells index (some value)⟩ else none

/-- The values of `count` cells in a row. -/
def slice (b : Buffer α size) (start : ℕ) : ℕ → Option (List α)
  | 0 => some []
  | count + 1 => (b.read start).bind fun value ↦ (slice b (start + 1) count).map (value :: ·)

def writeAll (b : Buffer α size) (start : ℕ) : List α → Option (Buffer α size)
  | [] => some b
  | value :: rest => (b.write start value).bind fun b ↦ writeAll b (start + 1) rest

variable {b b' : Buffer α size} {index other start : ℕ} {value : α} {data : List α}

/-- The cells from `start` on hold `data`. -/
def Holds (b : Buffer α size) (start : ℕ) (data : List α) : Prop :=
  ∀ k (h : k < data.length), b.read (start + k) = some data[k]

theorem read_write (h : b.write index value = some b') :
    b'.read other = if other = index then some value else b.read other := by
  unfold write at h
  split at h
  case isTrue hsize =>
    obtain rfl := Option.some.inj h
    unfold read
    dsimp only
    by_cases hsame : other = index
    · rw [if_pos hsame, hsame, if_pos hsize, Function.update_self]
    · rw [if_neg hsame, Function.update_of_ne hsame]
  case isFalse => cases h

theorem read_write_same (h : b.write index value = some b') : b'.read index = some value := by
  rw [read_write h, if_pos rfl]

theorem read_write_ne (h : b.write index value = some b') (hne : other ≠ index) :
    b'.read other = b.read other := by
  rw [read_write h, if_neg hne]

theorem exists_write (h : index < size) : ∃ b', b.write index value = some b' :=
  ⟨_, if_pos h⟩

theorem holds_nil : b.Holds start [] := by
  intro k h
  cases h

theorem holds_cons : b.Holds start (value :: data) ↔
    b.read start = some value ∧ b.Holds (start + 1) data := by
  constructor
  · intro h
    refine ⟨h 0 (Nat.succ_pos _), ?_⟩
    intro k hk
    have hnext := h (k + 1) (Nat.succ_lt_succ hk)
    rwa [← add_assoc, add_right_comm] at hnext
  · rintro ⟨hfirst, hrest⟩ k hk
    cases k with
    | zero => exact hfirst
    | succ k =>
      rw [← add_assoc, add_right_comm]
      exact hrest k (Nat.lt_of_succ_lt_succ hk)

theorem slice_of_holds (h : b.Holds start data) : b.slice start data.length = some data := by
  induction data generalizing start with
  | nil => rfl
  | cons value rest ih =>
    obtain ⟨hfirst, hrest⟩ := holds_cons.1 h
    rw [length_cons, slice, hfirst, ih hrest]
    rfl

theorem exists_writeAll (h : start + data.length ≤ size) :
    ∃ b', b.writeAll start data = some b' ∧ b'.Holds start data ∧
      ∀ index, index < start ∨ start + data.length ≤ index → b'.read index = b.read index := by
  induction data generalizing b start with
  | nil => exact ⟨b, rfl, holds_nil, fun _ _ ↦ rfl⟩
  | cons value rest ih =>
    rw [length_cons] at h
    obtain ⟨first, hwrite⟩ := @exists_write _ size b start value (by omega)
    obtain ⟨last, hall, hholds, hframe⟩ := @ih first (start + 1) (by omega)
    refine ⟨last, ?_, holds_cons.2 ⟨?_, hholds⟩, ?_⟩
    · rw [writeAll, hwrite]
      exact hall
    · rw [hframe start (.inl (Nat.lt_succ_self _)), read_write_same hwrite]
    · intro index hindex
      rw [length_cons] at hindex
      rw [hframe index (by omega), read_write_ne hwrite (by omega)]

theorem holds_append {more : List α} : b.Holds start (data ++ more) ↔
    b.Holds start data ∧ b.Holds (start + data.length) more := by
  induction data generalizing start with
  | nil => exact ⟨fun h ↦ ⟨holds_nil, h⟩, fun h ↦ h.2⟩
  | cons value rest ih =>
    rw [cons_append, holds_cons, ih, holds_cons, and_assoc, length_cons, add_assoc, Nat.add_comm 1]

theorem Holds.frame (h : b.Holds start data)
    (hframe : ∀ index, start ≤ index → index < start + data.length →
      b'.read index = b.read index) : b'.Holds start data := by
  intro k hk
  rw [hframe _ (Nat.le_add_right _ _) (by omega)]
  exact h k hk

theorem Holds.set (h : b.Holds 0 data) (hwritten : b'.Holds index [value])
    (hframe : ∀ other, other < index ∨ index + 1 ≤ other → b'.read other = b.read other) :
    b'.Holds 0 (data.set index value) := by
  intro k hk
  rw [length_set] at hk
  rw [zero_add, getElem_set]
  by_cases hsame : index = k
  · rw [if_pos hsame, ← hsame]
    exact (holds_cons.1 hwritten).1
  · rw [if_neg hsame, hframe k (by omega)]
    have hold := h k hk
    rwa [zero_add] at hold

theorem Holds.append {more : List α} (h : b.Holds 0 data) (hwritten : b'.Holds data.length more)
    (hframe : ∀ other, other < data.length ∨ data.length + more.length ≤ other →
      b'.read other = b.read other) : b'.Holds 0 (data ++ more) := by
  refine holds_append.2 ⟨h.frame ?_, by rwa [zero_add]⟩
  intro index _ hindex
  exact hframe index (.inl (by omega))

end Buffer
