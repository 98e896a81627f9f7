import S5LBox.Block.Device

/-!
# Exact transfers

`vm_block.c`: a range check, then callbacks of bounded size until everything asked for has been
transferred. A transfer ends early when the host cancels it, when the device fails, breaks its
contract or makes no progress.
-/

namespace S5LBox.Block

open List Span

inductive BlockStatus where
  | ok
  | invalidArgument
  | overflow
  | bounds
  | backend
  | cancelled
  | stalled
  | protocol
  deriving DecidableEq, Repr

def noProgressLimit : ℕ := 64
def maxCallbackBytes : ℕ := 1048576

/-- `vm_block_check_range`, on an offset below `2 ^ 64`. -/
def vmBlockCheckRange (dev : Device) (offset length : ℕ) : BlockStatus :=
  if 2 ^ 64 - 1 - offset < length then .overflow
  else if dev.size < offset ∨ dev.size - offset < length then .bounds
  else .ok

/-- The loop of `vm_block_read_exact`: the octets in the destination so far, and the callbacks in
a row that brought none. -/
def readLoop (dev : Device) (cancelled : dev.State → Bool) (s : dev.State) (offset length : ℕ)
    (completed : List Octet) (noProgress : ℕ) : BlockStatus × List Octet × dev.State :=
  if length ≤ completed.length then (.ok, completed, s)
  else if cancelled s then (.cancelled, completed, s)
  else
    let requested := min (length - completed.length) maxCallbackBytes
    let answer := dev.readAt s (offset + completed.length) requested
    if requested < answer.2.1.length then (.protocol, completed, answer.2.2)
    else if answer.1 ≠ .ok ∧ answer.2.1.length ≠ 0 then (.protocol, completed, answer.2.2)
    else if answer.1 = .error then (.backend, completed, answer.2.2)
    else if answer.2.1.length = 0 then
      if noProgressLimit ≤ noProgress + 1 then (.stalled, completed, answer.2.2)
      else readLoop dev cancelled answer.2.2 offset length completed (noProgress + 1)
    else readLoop dev cancelled answer.2.2 offset length (completed ++ answer.2.1) 0
termination_by (length - completed.length, noProgressLimit - noProgress)
decreasing_by
  · exact Prod.Lex.right _ (by omega)
  · apply Prod.Lex.left
    have hdata : answer.2.1.length ≠ 0 := ‹_›
    rw [length_append]
    change length - (completed.length + answer.2.1.length) < length - completed.length
    omega

/-- `vm_block_read_exact`, with what it has put into the destination. -/
def vmBlockReadExact (dev : Device) (cancelled : dev.State → Bool) (s : dev.State)
    (offset length : ℕ) : BlockStatus × List Octet × dev.State :=
  let status := vmBlockCheckRange dev offset length
  if status ≠ .ok then (status, [], s)
  else if length = 0 then (.ok, [], s)
  else readLoop dev cancelled s offset length [] 0

/-- The loop of `vm_block_write_exact`. -/
def writeLoop (dev : Device) (cancelled : dev.State → Bool) (s : dev.State) (offset : ℕ)
    (source : List Octet) (completed noProgress : ℕ) : BlockStatus × ℕ × dev.State :=
  if source.length ≤ completed then (.ok, completed, s)
  else if cancelled s then (.cancelled, completed, s)
  else
    let requested := min (source.length - completed) maxCallbackBytes
    let answer := dev.writeAt s (offset + completed) ((source.drop completed).take requested)
    if requested < answer.2.1 then (.protocol, completed, answer.2.2)
    else if answer.1 ≠ .ok ∧ answer.2.1 ≠ 0 then (.protocol, completed, answer.2.2)
    else if answer.1 = .error then (.backend, completed, answer.2.2)
    else if answer.2.1 = 0 then
      if noProgressLimit ≤ noProgress + 1 then (.stalled, completed, answer.2.2)
      else writeLoop dev cancelled answer.2.2 offset source completed (noProgress + 1)
    else writeLoop dev cancelled answer.2.2 offset source (completed + answer.2.1) 0
termination_by (source.length - completed, noProgressLimit - noProgress)
decreasing_by
  · exact Prod.Lex.right _ (by omega)
  · apply Prod.Lex.left
    have htaken : answer.2.1 ≠ 0 := ‹_›
    change source.length - (completed + answer.2.1) < source.length - completed
    omega

/-- `vm_block_write_exact`, with the number of octets it has written. -/
def vmBlockWriteExact (dev : Device) (cancelled : dev.State → Bool) (s : dev.State)
    (offset : ℕ) (source : List Octet) : BlockStatus × ℕ × dev.State :=
  let status := vmBlockCheckRange dev offset source.length
  if status ≠ .ok then (status, 0, s)
  else if source.length = 0 then (.ok, 0, s)
  else writeLoop dev cancelled s offset source 0 0

variable {dev : Device} {cancelled : dev.State → Bool}

theorem readLoop_spec {s : dev.State} {offset length : ℕ} {completed : List Octet}
    {noProgress : ℕ} (hcompleted : completed = window (dev.bytes s) offset completed.length)
    (hle : completed.length ≤ length) :
    let result := readLoop dev cancelled s offset length completed noProgress
    dev.bytes result.2.2 = dev.bytes s ∧ result.2.1.length ≤ length ∧
      (result.1 = .ok → result.2.1 = window (dev.bytes s) offset length) := by
  fun_induction readLoop dev cancelled s offset length completed noProgress with
  | case1 s completed noProgress hall =>
    refine ⟨rfl, hle, fun _ ↦ ?_⟩
    have hlength : completed.length = length := le_antisymm hle hall
    rw [hlength] at hcompleted
    exact hcompleted
  | case2 => exact ⟨rfl, hle, fun h ↦ by cases h⟩
  | case3 => exact ⟨dev.read_keeps .., hle, fun h ↦ by cases h⟩
  | case4 => exact ⟨dev.read_keeps .., hle, fun h ↦ by cases h⟩
  | case5 => exact ⟨dev.read_keeps .., hle, fun h ↦ by cases h⟩
  | case6 => exact ⟨dev.read_keeps .., hle, fun h ↦ by cases h⟩
  | case7 s completed noProgress hmore hgo requested answer hfits hidle herror hnone hstalled ih =>
    have hkeeps : dev.bytes answer.2.2 = dev.bytes s := dev.read_keeps ..
    rw [hkeeps] at ih
    exact ih hcompleted hle
  | case8 s completed noProgress hmore hgo requested answer hfits hidle herror hsome ih =>
    have hkeeps : dev.bytes answer.2.2 = dev.bytes s := dev.read_keeps ..
    have hdata : answer.2.1 =
        window (dev.bytes s) (offset + completed.length) answer.2.1.length := dev.read_data ..
    have hbound : requested ≤ length - completed.length := Nat.min_le_left ..
    rw [hkeeps] at ih
    apply ih
    · rw [length_append, window_append, ← hcompleted, ← hdata]
    · rw [length_append]
      omega

theorem vmBlockReadExact_spec {s : dev.State} {offset length : ℕ} :
    let result := vmBlockReadExact dev cancelled s offset length
    dev.bytes result.2.2 = dev.bytes s ∧ result.2.1.length ≤ length ∧
      (result.1 = .ok → result.2.1 = window (dev.bytes s) offset length) := by
  unfold vmBlockReadExact
  by_cases hrange : vmBlockCheckRange dev offset length = .ok
  · rw [if_neg (not_not.2 hrange)]
    split
    case isTrue h =>
      subst h
      exact ⟨rfl, le_rfl, fun _ ↦ rfl⟩
    case isFalse h => exact readLoop_spec rfl (Nat.zero_le _)
  · rw [if_pos hrange]
    exact ⟨rfl, Nat.zero_le _, fun h ↦ absurd h hrange⟩

/-- A write lays what it reports over the device, everything if it ends well. -/
theorem writeLoop_spec {s : dev.State} {offset : ℕ} {source : List Octet}
    {completed noProgress : ℕ} (hle : completed ≤ source.length) :
    let result := writeLoop dev cancelled s offset source completed noProgress
    (completed ≤ result.2.1 ∧ result.2.1 ≤ source.length) ∧
      dev.bytes result.2.2 = overwrite (dev.bytes s) (offset + completed)
        ((source.drop completed).take (result.2.1 - completed)) ∧
      (result.1 = .ok → result.2.1 = source.length) := by
  have hstop {s s' : dev.State} {completed requested taken : ℕ} {status : BlockStatus}
      (hle : completed ≤ source.length) (hstatus : status ≠ .ok) (htaken : taken = 0)
      (hbytes : dev.bytes s' = overwrite (dev.bytes s) (offset + completed)
        (((source.drop completed).take requested).take taken)) :
      (completed ≤ completed ∧ completed ≤ source.length) ∧
        dev.bytes s' = overwrite (dev.bytes s) (offset + completed)
          ((source.drop completed).take (completed - completed)) ∧
        (status = .ok → completed = source.length) := by
    rw [htaken, take_zero] at hbytes
    rw [Nat.sub_self, take_zero]
    exact ⟨⟨le_rfl, hle⟩, hbytes, fun h ↦ absurd h hstatus⟩
  fun_induction writeLoop dev cancelled s offset source completed noProgress with
  | case1 s completed noProgress hall =>
    refine ⟨⟨le_rfl, hle⟩, ?_, fun _ ↦ le_antisymm hle hall⟩
    rw [Nat.sub_self, take_zero, overwrite_nil]
  | case2 s completed noProgress hmore hcancelled =>
    refine ⟨⟨le_rfl, hle⟩, ?_, fun h ↦ by cases h⟩
    rw [Nat.sub_self, take_zero, overwrite_nil]
  | case3 s completed noProgress hmore hgo requested answer hover =>
    have hshort : answer.2.1 ≤ ((source.drop completed).take requested).length := dev.write_le ..
    rw [length_take] at hshort
    omega
  | case4 s completed noProgress hmore hgo requested answer hfits hidle =>
    exact absurd (dev.write_idle _ _ _ hidle.1) hidle.2
  | case5 s completed noProgress hmore hgo requested answer hfits hidle herror =>
    have hnone : answer.2.1 = 0 := dev.write_idle _ _ _ (by rw [herror]; decide)
    exact hstop hle nofun hnone (dev.write_bytes ..)
  | case6 s completed noProgress hmore hgo requested answer hfits hidle herror hnone hstalled =>
    exact hstop hle nofun hnone (dev.write_bytes ..)
  | case7 s completed noProgress hmore hgo requested answer hfits hidle herror hnone hstalled ih =>
    rw [dev.write_none hnone] at ih
    exact ih hle
  | case8 s completed noProgress hmore hgo requested answer hfits hidle herror hsome ih =>
    have hwritten : dev.bytes answer.2.2 = overwrite (dev.bytes s) (offset + completed)
        (((source.drop completed).take requested).take answer.2.1) := dev.write_bytes ..
    have hbound : requested ≤ source.length - completed := Nat.min_le_left ..
    rw [take_take, min_eq_left (by omega)] at hwritten
    obtain ⟨hbounds, hbytes, hok⟩ := ih (by omega)
    set result := writeLoop dev cancelled answer.2.2 offset source (completed + answer.2.1) 0
    refine ⟨⟨by omega, hbounds.2⟩, ?_, hok⟩
    rw [hbytes, hwritten, overwrite_take _ _ (by omega) hbounds.1]

theorem vmBlockWriteExact_spec {s : dev.State} {offset : ℕ} {source : List Octet} :
    let result := vmBlockWriteExact dev cancelled s offset source
    result.1 = .ok → dev.bytes result.2.2 = overwrite (dev.bytes s) offset source := by
  unfold vmBlockWriteExact
  by_cases hrange : vmBlockCheckRange dev offset source.length = .ok
  · rw [if_neg (not_not.2 hrange)]
    split
    case isTrue h =>
      intro result hok
      rw [length_eq_zero_iff.1 h, overwrite_nil]
    case isFalse h =>
      intro result hok
      obtain ⟨-, hbytes, hall⟩ := @writeLoop_spec dev cancelled s offset source 0 0 (Nat.zero_le _)
      rw [hbytes, hall hok, Nat.add_zero, drop_zero, Nat.sub_zero, take_length]
  · rw [if_pos hrange]
    exact fun h ↦ absurd h hrange

end S5LBox.Block
