import S5LBox.Library.Span
import S5LBox.Word

/-!
# Block devices

The callbacks of `vm_block.h` and what the header promises about them: a transfer may be partial
or be put off, and what is reported as transferred is what has been transferred.
-/

namespace S5LBox.Block

open Span

inductive IoStatus where
  | ok
  | retry
  | error
  deriving DecidableEq, Repr

/-- `vm_block_t`: the callbacks over whatever state the host keeps, and the octets behind them. A
read answers with the octets transferred, a write with their number. -/
structure Device where
  State : Type
  size : ℕ
  bytes : State → ℕ → Octet
  readAt : State → (offset requested : ℕ) → IoStatus × List Octet × State
  writeAt : State → (offset : ℕ) → List Octet → IoStatus × ℕ × State
  flush : State → IoStatus × State
  size_lt : size < 2 ^ 64
  read_keeps : ∀ s offset requested, bytes (readAt s offset requested).2.2 = bytes s
  read_data : ∀ s offset requested, (readAt s offset requested).2.1 =
    window (bytes s) offset (readAt s offset requested).2.1.length
  read_le : ∀ s offset requested, (readAt s offset requested).2.1.length ≤ requested
  read_idle : ∀ s offset requested, (readAt s offset requested).1 ≠ .ok →
    (readAt s offset requested).2.1 = []
  read_inside : ∀ s offset requested, (readAt s offset requested).2.1 ≠ [] →
    offset + (readAt s offset requested).2.1.length ≤ size
  write_bytes : ∀ s offset data, bytes (writeAt s offset data).2.2 =
    overwrite (bytes s) offset (data.take (writeAt s offset data).2.1)
  write_le : ∀ s offset data, (writeAt s offset data).2.1 ≤ data.length
  write_idle : ∀ s offset data, (writeAt s offset data).1 ≠ .ok → (writeAt s offset data).2.1 = 0
  write_inside : ∀ s offset data, (writeAt s offset data).2.1 ≠ 0 →
    offset + (writeAt s offset data).2.1 ≤ size
  flush_keeps : ∀ s, bytes (flush s).2 = bytes s

theorem Device.write_none {dev : Device} {s : dev.State} {offset : ℕ} {data : List Octet}
    (hnone : (dev.writeAt s offset data).2.1 = 0) :
    dev.bytes (dev.writeAt s offset data).2.2 = dev.bytes s := by
  rw [dev.write_bytes, hnone, List.take_zero, overwrite_nil]

/-- Every access inside the device transfers something. -/
structure Device.Reliable (dev : Device) : Prop where
  read : ∀ s offset requested, 0 < requested → offset + requested ≤ dev.size →
    (dev.readAt s offset requested).1 = .ok ∧ (dev.readAt s offset requested).2.1 ≠ []
  write : ∀ s offset data, data ≠ [] → offset + data.length ≤ dev.size →
    (dev.writeAt s offset data).1 = .ok ∧ (dev.writeAt s offset data).2.1 ≠ 0
  flush : ∀ s, (dev.flush s).1 = .ok

/-- A disk in memory that satisfies every request inside it at once. -/
def ramDisk (size : ℕ) (hsize : size < 2 ^ 64) : Device where
  State := ℕ → Octet
  size := size
  bytes s := s
  readAt s offset requested :=
    if offset + requested ≤ size then (.ok, window s offset requested, s) else (.error, [], s)
  writeAt s offset data :=
    if offset + data.length ≤ size then (.ok, data.length, overwrite s offset data)
    else (.error, 0, s)
  flush s := (.ok, s)
  size_lt := hsize
  read_keeps s offset requested := by split <;> rfl
  read_data s offset requested := by split <;> simp
  read_le s offset requested := by split <;> simp
  read_idle s offset requested := by split <;> simp
  read_inside s offset requested := by split <;> simp_all
  write_bytes s offset data := by split <;> simp
  write_le s offset data := by split <;> simp
  write_idle s offset data := by split <;> simp
  write_inside s offset data := by split <;> simp_all
  flush_keeps s := rfl

end S5LBox.Block
