import Mathlib.Tactic

/-!
# The touch tracker and the touch queue

`VMTouchMap.c` turns a finger's events into the reports of gestures that began on the panel, and
`VMTouchQueue.c` holds the reports for the emulator. Where the ring is full, a move may take the
place of a move at its back; every other report is refused and counted.
-/

namespace S5LBox.App

def vmTouchQueueCap : ℕ := 8
def panelWidth : ℤ := 320
def panelHeight : ℤ := 480
def phaseMakeTouch : ℕ := 3
def phaseTouching : ℕ := 4
def phaseBreakTouch : ℕ := 5

inductive TouchPhase
  | began | moved | ended | cancelled
deriving DecidableEq

/-- A point as `vm_touch_map` gives it for the panel: one that is inside is on the panel. -/
structure TouchPoint where
  x : ℤ
  y : ℤ
  inside : Bool
  onPanel : inside = true → 0 ≤ x ∧ 0 ≤ y ∧ x < panelWidth ∧ y < panelHeight

structure TouchTracker where
  active : Bool
  x : ℤ
  y : ℤ

/-- `s5l_mt_contact_t`. -/
structure MtContact where
  id : ℕ
  phase : ℕ
  x : ℕ
  y : ℕ
  pressure : ℕ
  major : ℕ
  minor : ℕ
deriving DecidableEq

/-- `vm_touch_track`: the tracker afterwards, and the point to report. -/
def vmTouchTrack (tracker : TouchTracker) (phase : TouchPhase) (mapped : TouchPoint) :
    TouchTracker × Option (ℤ × ℤ) :=
  if phase = .began then
    if !mapped.inside then ({ tracker with active := mapped.inside }, none)
    else (⟨mapped.inside, mapped.x, mapped.y⟩, some (mapped.x, mapped.y))
  else if !tracker.active then (tracker, none)
  else if !mapped.inside && phase = .moved then (tracker, none)
  else
    let tracker := if mapped.inside then { tracker with x := mapped.x, y := mapped.y } else tracker
    let tracker := if phase = .ended ∨ phase = .cancelled then { tracker with active := false }
      else tracker
    (tracker, some (tracker.x, tracker.y))

def vmTouchContactFromUi (phase : TouchPhase) (x y : ℤ) : Option MtContact :=
  let encoded := match phase with
    | .began => (phaseMakeTouch, 160)
    | .moved => (phaseTouching, 160)
    | .ended | .cancelled => (phaseBreakTouch, 0)
  if x < 0 ∨ y < 0 ∨ panelWidth ≤ x ∨ panelHeight ≤ y then none
  else some ⟨1, encoded.1, x.toNat, y.toNat, encoded.2, 58, 45⟩

/-- The ring: `head` is where the oldest of the `count` reports is. -/
structure TouchQueue where
  slot : ℕ → MtContact
  head : ℕ
  count : ℕ
  queued : BitVec 64
  coalesced : BitVec 64
  dropped : BitVec 64
  head_lt : head < vmTouchQueueCap
  count_le : count ≤ vmTouchQueueCap

def vmTouchQueueReset : TouchQueue :=
  ⟨fun _ ↦ ⟨0, 0, 0, 0, 0, 0, 0⟩, 0, 0, 0, 0, 0, by decide, by decide⟩

namespace TouchQueue

def back (q : TouchQueue) : ℕ := (q.head + q.count - 1) % vmTouchQueueCap

def push (q : TouchQueue) (c : MtContact) : Bool × TouchQueue :=
  if h : q.count < vmTouchQueueCap then
    (true, { q with
      slot := Function.update q.slot ((q.head + q.count) % vmTouchQueueCap) c
      count := q.count + 1
      queued := q.queued + 1
      count_le := h })
  else if c.phase = phaseTouching ∧ (q.slot q.back).phase = phaseTouching then
    (true, { q with slot := Function.update q.slot q.back c, coalesced := q.coalesced + 1 })
  else (false, { q with dropped := q.dropped + 1 })

def peek (q : TouchQueue) : Option MtContact := if q.count = 0 then none else some (q.slot q.head)

def pop (q : TouchQueue) : TouchQueue :=
  if q.count = 0 then q
  else { q with
    head := (q.head + 1) % vmTouchQueueCap
    count := q.count - 1
    head_lt := Nat.mod_lt _ (by decide)
    count_le := (Nat.sub_le _ 1).trans q.count_le }

/-- The reports in the ring, the oldest first. -/
def contents (q : TouchQueue) : List MtContact :=
  (List.range q.count).map fun i ↦ q.slot ((q.head + i) % vmTouchQueueCap)

variable {q : TouchQueue} {c : MtContact}

theorem contents_peek (q : TouchQueue) : q.peek = q.contents.head? := by
  unfold peek contents
  split
  case isTrue h =>
    rw [h]
    rfl
  case isFalse h =>
    obtain ⟨n, hn⟩ := Nat.exists_eq_succ_of_ne_zero h
    rw [hn, List.range_succ_eq_map, List.map_cons, List.head?_cons, Nat.add_zero,
      Nat.mod_eq_of_lt q.head_lt]

theorem contents_pop (q : TouchQueue) : q.pop.contents = q.contents.tail := by
  unfold pop
  split
  case isTrue h =>
    rw [contents, h]
    rfl
  case isFalse h =>
    obtain ⟨n, hn⟩ := Nat.exists_eq_succ_of_ne_zero h
    unfold contents
    dsimp only
    rw [hn, List.range_succ_eq_map, List.map_cons, List.tail_cons, List.map_map]
    refine List.map_congr_left fun i _ ↦ congrArg q.slot ?_
    rw [Nat.mod_add_mod, Nat.add_assoc, Nat.add_comm 1]

theorem place_ne {i j : ℕ} (hij : i < j) (hj : j < i + vmTouchQueueCap) :
    (q.head + i) % vmTouchQueueCap ≠ (q.head + j) % vmTouchQueueCap := by
  unfold vmTouchQueueCap at *
  omega

theorem push_room (h : q.count < vmTouchQueueCap) :
    (q.push c).2.contents = q.contents ++ [c] ∧ (q.push c).1 = true ∧
      (q.push c).2.queued = q.queued + 1 ∧ (q.push c).2.coalesced = q.coalesced ∧
        (q.push c).2.dropped = q.dropped := by
  rw [push, dif_pos h]
  refine ⟨?_, rfl, rfl, rfl, rfl⟩
  unfold contents
  dsimp only
  rw [List.range_succ, List.map_append, List.map_singleton, Function.update_self]
  refine congrArg (· ++ [c]) (List.map_congr_left fun i hi ↦ ?_)
  have hlt := List.mem_range.1 hi
  exact Function.update_of_ne (place_ne hlt (by omega)) _ _

theorem contents_of_full (h : ¬q.count < vmTouchQueueCap) :
    ∃ front, q.contents = front ++ [q.slot q.back] ∧ front ≠ [] ∧
      ∀ c : MtContact, ((List.range q.count).map fun i ↦
        Function.update q.slot q.back c ((q.head + i) % vmTouchQueueCap)) = front ++ [c] := by
  have hcount : q.count = 7 + 1 := Nat.le_antisymm q.count_le (Nat.le_of_not_lt h)
  have hback : q.back = (q.head + 7) % vmTouchQueueCap := by
    rw [back, hcount]
    rfl
  refine ⟨(List.range 7).map fun i ↦ q.slot ((q.head + i) % vmTouchQueueCap), ?_, ?_, fun c ↦ ?_⟩
  · rw [contents, hcount, List.range_succ, List.map_append, List.map_singleton, hback]
  · exact fun hnil ↦ absurd (congrArg List.length hnil) (by simp)
  · rw [hcount, List.range_succ, List.map_append, List.map_singleton, hback, Function.update_self]
    refine congrArg (· ++ [c]) (List.map_congr_left fun i hi ↦ ?_)
    have hlt := List.mem_range.1 hi
    exact Function.update_of_ne (place_ne hlt (by unfold vmTouchQueueCap; omega)) _ _

theorem push_moved (h : ¬q.count < vmTouchQueueCap) (hc : c.phase = phaseTouching)
    (hback : (q.slot q.back).phase = phaseTouching) :
    (∃ front, q.contents = front ++ [q.slot q.back] ∧ front ≠ [] ∧
      (q.push c).2.contents = front ++ [c]) ∧
      (q.push c).1 = true ∧ (q.push c).2.queued = q.queued ∧
        (q.push c).2.coalesced = q.coalesced + 1 ∧
        (q.push c).2.dropped = q.dropped := by
  obtain ⟨front, hfront, hne, hupdate⟩ := contents_of_full h
  rw [push, dif_neg h, if_pos ⟨hc, hback⟩]
  exact ⟨⟨front, hfront, hne, hupdate c⟩, rfl, rfl, rfl, rfl⟩

theorem push_full (h : ¬q.count < vmTouchQueueCap)
    (hc : ¬(c.phase = phaseTouching ∧ (q.slot q.back).phase = phaseTouching)) :
    q.push c = (false, { q with dropped := q.dropped + 1 }) := by
  rw [push, dif_neg h, if_neg hc]

theorem head?_push {oldest : MtContact} (h : q.contents.head? = some oldest) (c : MtContact) :
    (q.push c).2.contents.head? = some oldest := by
  by_cases hroom : q.count < vmTouchQueueCap
  · rw [(push_room hroom).1, List.head?_append, h]
    rfl
  · by_cases hmoves : c.phase = phaseTouching ∧ (q.slot q.back).phase = phaseTouching
    · obtain ⟨⟨front, hfront, hne, hcontents⟩, _⟩ := push_moved hroom hmoves.1 hmoves.2
      rw [hfront, List.head?_append_of_ne_nil _ hne] at h
      rw [hcontents, List.head?_append_of_ne_nil _ hne, h]
    · rw [push_full hroom hmoves]
      exact h

/-- A press or a lift is refused by a full ring, and by no other. -/
theorem push_edge (hc : c.phase ≠ phaseTouching) :
    (q.push c).1 = false ↔ q.count = vmTouchQueueCap := by
  by_cases h : q.count < vmTouchQueueCap
  · rw [(push_room h).2.1]
    exact ⟨fun hfalse ↦ (Bool.noConfusion hfalse), fun hfull ↦ absurd h (by omega)⟩
  · rw [push_full h fun hboth ↦ hc hboth.1]
    exact ⟨fun _ ↦ Nat.le_antisymm q.count_le (Nat.le_of_not_lt h), fun _ ↦ rfl⟩

end TouchQueue

end S5LBox.App
