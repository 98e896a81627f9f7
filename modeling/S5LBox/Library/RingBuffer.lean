import Mathlib.Data.BitVec
import Mathlib.Tactic

/-!
# Rings with free-running counters

A bounded queue in an array: the head and tail counters run freely and wrap, and a counter modulo
the capacity is the place in the array. When the capacity divides the period of the counters the
ring is a queue, however often they wrap. When it does not, the places jump where a counter wraps,
and the ring is a queue as long as the elements on the two sides of the jump keep apart.
-/

structure RingBuffer (w : ℕ) (α : Type) where
  slot : ℕ → α
  head : BitVec w
  tail : BitVec w

namespace RingBuffer

open Function List Nat
open Function (update)

variable {w capacity : ℕ} {α : Type} {r r' : RingBuffer w α} {a : α}

def count (r : RingBuffer w α) : ℕ := (r.head - r.tail).toNat

/-- The queue in the ring, the oldest element first. -/
def contents (capacity : ℕ) (r : RingBuffer w α) : List α :=
  (List.range r.count).map fun i ↦ r.slot ((r.tail.toNat + i) % capacity)

def push (capacity : ℕ) (r : RingBuffer w α) (a : α) : Option (RingBuffer w α) :=
  if capacity ≤ r.count then none
  else some { r with
    slot := update r.slot (r.head.toNat % capacity) a
    head := r.head + 1 }

def peek (capacity : ℕ) (r : RingBuffer w α) : Option α :=
  if r.head = r.tail then none else some (r.slot (r.tail.toNat % capacity))

def drop (r : RingBuffer w α) : RingBuffer w α := { r with tail := r.tail + 1 }

theorem head_eq (r : RingBuffer w α) : r.head.toNat = (r.tail.toNat + r.count) % 2 ^ w := by
  have hhead : r.head = r.tail + (r.head - r.tail) := by rw [add_sub_cancel]
  conv_lhs => rw [hhead, BitVec.toNat_add]
  rfl

theorem count_pos (h : r.head ≠ r.tail) : 0 < r.count := by
  apply Nat.pos_of_ne_zero
  intro hzero
  have hsame : r.head - r.tail = 0 := BitVec.eq_of_toNat_eq hzero
  exact h (sub_eq_zero.1 hsame)

theorem contents_of_empty (h : r.head = r.tail) : r.contents capacity = [] := by
  have hcount : r.count = 0 := by
    rw [count, h, sub_self]
    rfl
  rw [contents, hcount]
  rfl

theorem count_write_one (hroom : r.count + 1 < 2 ^ w) (slot : ℕ → α) :
    (RingBuffer.mk slot (r.head + 1) r.tail).count = r.count + 1 := by
  have hshift : r.head + 1 - r.tail = (r.head - r.tail) + 1 := by rw [add_sub_right_comm]
  have hone : (1 : BitVec w).toNat = 1 := by
    apply BitVec.toNat_one
    apply Nat.pos_of_ne_zero
    rintro rfl
    omega
  unfold count at hroom ⊢
  dsimp only
  rw [hshift, BitVec.toNat_add, hone, mod_eq_of_lt hroom]

theorem count_push (hroom : r.count + 1 < 2 ^ w) (h : push capacity r a = some r') :
    r'.count = r.count + 1 := by
  unfold push at h
  split at h
  · cases h
  · obtain rfl := Option.some.inj h
    exact count_write_one hroom _

/-- The oldest element gone. -/
theorem count_drop (h : r.head ≠ r.tail) : (drop r).count + 1 = r.count := by
  have hpos := count_pos h
  have hone : (1 : BitVec w).toNat = 1 := by
    apply BitVec.toNat_one
    apply Nat.pos_of_ne_zero
    rintro rfl
    exact h (Subsingleton.elim _ _)
  have hshift : r.head - (r.tail + 1) = (r.head - r.tail) - 1 := by rw [sub_add_eq_sub_sub]
  have hle : (1 : BitVec w) ≤ r.head - r.tail := by
    rw [BitVec.le_def, hone]
    exact hpos
  unfold count drop at *
  dsimp only
  rw [hshift, BitVec.toNat_sub_of_le hle, hone]
  omega

theorem contents_push (hdvd : capacity ∣ 2 ^ w)
    (hlt : capacity < 2 ^ w) (h : push capacity r a = some r') :
    r'.contents capacity = r.contents capacity ++ [a] ∧ r'.count ≤ capacity := by
  have hspace : r.count < capacity := by
    unfold push at h
    split at h
    · cases h
    · omega
  have hcount := count_push (by omega) h
  have hplace : r.head.toNat % capacity = (r.tail.toNat + r.count) % capacity := by
    rw [head_eq, mod_mod_of_dvd _ hdvd]
  have hslots : r'.slot = update r.slot (r.head.toNat % capacity) a ∧ r'.tail = r.tail := by
    unfold push at h
    split at h
    · cases h
    · obtain rfl := Option.some.inj h
      exact ⟨rfl, rfl⟩
  refine ⟨?_, by omega⟩
  unfold contents
  rw [hcount, range_succ, map_append, hslots.1, hslots.2]
  congr 1
  · apply map_congr_left
    intro i hi
    rw [mem_range] at hi
    apply update_of_ne
    rw [hplace]
    intro hsame
    have hmod : i % capacity = r.count % capacity := ModEq.add_left_cancel' _ hsame
    rw [mod_eq_of_lt (hi.trans hspace), mod_eq_of_lt hspace] at hmod
    omega
  · rw [map_singleton, ← hplace, update_self]

theorem contents_peek (hdvd : capacity ∣ 2 ^ w) (h : peek capacity r = some a) :
    r.contents capacity = a :: (drop r).contents capacity ∧ (drop r).count + 1 = r.count := by
  unfold peek at h
  split at h
  · cases h
  case isFalse hne =>
    obtain rfl := Option.some.inj h
    have hone : (1 : BitVec w).toNat = 1 := by
      apply BitVec.toNat_one
      apply Nat.pos_of_ne_zero
      rintro rfl
      exact hne (Subsingleton.elim _ _)
    have hcount := count_drop hne
    refine ⟨?_, hcount⟩
    unfold contents
    rw [← hcount, range_succ_eq_map, map_cons, map_map, Nat.add_zero]
    congr 1
    apply map_congr_left
    intro i hi
    change r.slot ((r.tail.toNat + (i + 1)) % capacity) =
      r.slot (((r.tail + 1).toNat + i) % capacity)
    rw [BitVec.toNat_add, hone, add_mod ((r.tail.toNat + 1) % 2 ^ w),
      mod_mod_of_dvd _ hdvd, ← add_mod, Nat.add_assoc, Nat.add_comm 1 i]

/-- The place of the element `i` behind the oldest one. -/
def place (capacity : ℕ) (r : RingBuffer w α) (i : ℕ) : ℕ := (r.tail.toNat + i) % 2 ^ w % capacity

/-- The queue in the ring, whether or not the capacity divides the period. -/
def queue (capacity : ℕ) (r : RingBuffer w α) : List α :=
  (List.range r.count).map fun i ↦ r.slot (r.place capacity i)

/-- Elements put behind the queue, without a test for room. -/
def write (capacity : ℕ) : RingBuffer w α → List α → RingBuffer w α
  | r, [] => r
  | r, a :: rest =>
    write capacity
      { r with slot := update r.slot (r.head.toNat % capacity) a, head := r.head + 1 } rest

/-- With `n` more elements none of the queue is past the wrap of the counters, or there are no more
of them than the places jump by. -/
def Clear (capacity : ℕ) (r : RingBuffer w α) (n : ℕ) : Prop :=
  r.tail.toNat + r.count + n ≤ 2 ^ w ∨ r.count + n ≤ 2 ^ w % capacity

instance (capacity : ℕ) (r : RingBuffer w α) (n : ℕ) : Decidable (Clear capacity r n) :=
  inferInstanceAs (Decidable (_ ∨ _))

theorem queue_of_empty (h : r.head = r.tail) : r.queue capacity = [] := by
  have hcount : r.count = 0 := by
    rw [count, h, sub_self]
    rfl
  rw [queue, hcount]
  rfl

theorem mod_ne {a distance capacity : ℕ} (h : distance % capacity ≠ 0) :
    a % capacity ≠ (a + distance) % capacity := by
  intro hsame
  have hzero : 0 ≡ distance [MOD capacity] := ModEq.add_left_cancel' a hsame
  rw [ModEq, zero_mod] at hzero
  exact h hzero.symm

theorem place_ne (hroom : r.count < capacity) (hclear : Clear capacity r 1) {i : ℕ}
    (hi : i < r.count) : r.place capacity i ≠ r.head.toNat % capacity := by
  have htail := r.tail.isLt
  have hcount : r.count < 2 ^ w := BitVec.isLt _
  have hnear : (r.count - i) % capacity ≠ 0 := by
    rw [mod_eq_of_lt (by omega)]
    omega
  rw [head_eq, place]
  by_cases hhead : r.tail.toNat + r.count < 2 ^ w
  · -- no counter of the queue has wrapped
    have hsum : r.tail.toNat + r.count = r.tail.toNat + i + (r.count - i) := by omega
    rw [mod_eq_of_lt hhead, mod_eq_of_lt (show r.tail.toNat + i < 2 ^ w by omega), hsum]
    exact mod_ne hnear
  · have hwrapped : (r.tail.toNat + r.count) % 2 ^ w = r.tail.toNat + r.count - 2 ^ w := by
      rw [mod_eq_sub_mod (not_lt.1 hhead), mod_eq_of_lt (by omega)]
    rw [hwrapped]
    by_cases hplace : r.tail.toNat + i < 2 ^ w
    · -- the two are on different sides of the jump
      have hjump : r.count + 1 ≤ 2 ^ w % capacity := hclear.resolve_left (by omega)
      have hfar : (2 ^ w - (r.count - i)) % capacity ≠ 0 := by
        have hdiv := div_add_mod (2 ^ w) capacity
        have hsplit : 2 ^ w - (r.count - i) =
            2 ^ w % capacity - (r.count - i) + capacity * (2 ^ w / capacity) := by omega
        have hmod : 2 ^ w % capacity < capacity := mod_lt _ (by omega)
        rw [hsplit, add_mul_mod_self_left, mod_eq_of_lt (by omega)]
        omega
      have hsum : r.tail.toNat + i =
          r.tail.toNat + r.count - 2 ^ w + (2 ^ w - (r.count - i)) := by omega
      rw [mod_eq_of_lt hplace, hsum]
      exact (mod_ne hfar).symm
    · have hwrapped' : (r.tail.toNat + i) % 2 ^ w = r.tail.toNat + i - 2 ^ w := by
        rw [mod_eq_sub_mod (not_lt.1 hplace), mod_eq_of_lt (by omega)]
      have hsum : r.tail.toNat + r.count - 2 ^ w =
          r.tail.toNat + i - 2 ^ w + (r.count - i) := by omega
      rw [hwrapped', hsum]
      exact mod_ne hnear

theorem queue_write_one (hroom : r.count < capacity) (hlt : capacity < 2 ^ w)
    (hclear : Clear capacity r 1) :
    queue capacity { r with
        slot := update r.slot (r.head.toNat % capacity) a, head := r.head + 1 } =
      r.queue capacity ++ [a] := by
  have hcount := @count_write_one w α r (by omega)
    (update r.slot (r.head.toNat % capacity) a)
  unfold queue
  rw [hcount, range_succ, map_append, map_singleton]
  congr 1
  · apply map_congr_left
    intro i hi
    exact update_of_ne (place_ne hroom hclear (mem_range.1 hi)) ..
  · have hplace : r.place capacity r.count = r.head.toNat % capacity := by rw [place, head_eq]
    change [update r.slot (r.head.toNat % capacity) a (r.place capacity r.count)] = [a]
    rw [hplace, update_self]

theorem queue_write (hlt : capacity < 2 ^ w) {elements : List α}
    (hroom : r.count + elements.length ≤ capacity) (hclear : Clear capacity r elements.length) :
    (write capacity r elements).queue capacity = r.queue capacity ++ elements ∧
      (write capacity r elements).count = r.count + elements.length := by
  induction elements generalizing r with
  | nil => exact ⟨(append_nil _).symm, rfl⟩
  | cons a rest ih =>
    rw [length_cons] at hroom hclear
    have hfirst : Clear capacity r 1 := by
      unfold Clear at *
      omega
    have hcount := @count_write_one w α r (by omega)
      (update r.slot (r.head.toNat % capacity) a)
    obtain ⟨hqueue, hwritten⟩ := @ih { r with
        slot := update r.slot (r.head.toNat % capacity) a, head := r.head + 1 }
      (by rw [hcount]; omega) (by
        unfold Clear at *
        rw [hcount]
        dsimp only
        omega)
    rw [write, hqueue, hwritten, queue_write_one (by omega) hlt hfirst, hcount, append_assoc,
      singleton_append, length_cons]
    exact ⟨rfl, by omega⟩

theorem write_tail (capacity : ℕ) (r : RingBuffer w α) (tail : BitVec w) (elements : List α) :
    write capacity { r with tail := tail } elements =
      { write capacity r elements with tail := tail } := by
  induction elements generalizing r with
  | nil => rfl
  | cons a rest ih =>
    exact ih { r with
      slot := update r.slot (r.head.toNat % capacity) a, head := r.head + 1 }

theorem slot_write (hlt : capacity < 2 ^ w) {elements : List α} (hroom : elements.length ≤ capacity)
    (hwrap : r.head.toNat + elements.length ≤ 2 ^ w) {i : ℕ} (hi : i < elements.length) :
    (write capacity r elements).slot ((r.head.toNat + i) % capacity) = elements[i] := by
  have hempty : ({ r with tail := r.head } : RingBuffer w α).count = 0 := by
    rw [count, sub_self]
    rfl
  obtain ⟨hqueue, hcount⟩ := @queue_write w capacity α { r with tail := r.head } hlt elements
    (by rw [hempty]; omega) (.inl (by rw [hempty]; exact hwrap))
  have hnone : ({ r with tail := r.head } : RingBuffer w α).queue capacity = [] := queue_of_empty rfl
  have hget := congrArg (·[i]?) hqueue
  rw [write_tail] at hcount hget
  rw [hnone, nil_append, queue, hcount, hempty, Nat.zero_add] at hget
  simp only [getElem?_map, getElem?_range hi, Option.map_some,
    getElem?_eq_getElem hi, place] at hget
  rw [mod_eq_of_lt (show r.head.toNat + i < 2 ^ w by omega)] at hget
  exact Option.some.inj hget

theorem queue_peek (h : peek capacity r = some a) :
    r.queue capacity = a :: (drop r).queue capacity := by
  unfold peek at h
  split at h
  · cases h
  case isFalse hne =>
    obtain rfl := Option.some.inj h
    have htail := r.tail.isLt
    unfold queue
    rw [← count_drop hne, range_succ_eq_map, map_cons, map_map]
    congr 1
    · rw [place, Nat.add_zero, mod_eq_of_lt htail]
    · apply map_congr_left
      intro i hi
      have hone : (1 : BitVec w).toNat = 1 := by
        apply BitVec.toNat_one
        apply Nat.pos_of_ne_zero
        rintro rfl
        exact hne (Subsingleton.elim _ _)
      change r.slot ((r.tail.toNat + (i + 1)) % 2 ^ w % capacity) =
        r.slot (((r.tail + 1).toNat + i) % 2 ^ w % capacity)
      rw [BitVec.toNat_add, hone, mod_add_mod, Nat.add_assoc, Nat.add_comm 1 i]

end RingBuffer
