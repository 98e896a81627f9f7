import S5LBox.Block.CowFiles
import S5LBox.Block.CowHistory

/-!
# Replaying any overlay

The index of a record is any number of 64 bits. An open compares it with the number of blocks; the
replay scales it first, modulo `2 ^ 64`, and compares what comes of that. The two agree on every
index below `2 ^ 52 - 1`, and a replay is held to the disk's own blocks unless it comes to one of
the others whose product or sum wraps to an offset inside the disk.
-/

namespace S5LBox.Block

open List Span

variable {dev : Device} {host : Host} {overlay : List Octet} {onto s : dev.State} {i : ℕ}

/-- The overlay and the host pass the checks in front of the records. -/
structure Accepted (host : Host) (dev : Device) (overlay : List Octet) : Prop where
  opens : host.opens = true
  reads : host.reads = true
  format : formatOk overlay = true
  size : getLe 8 overlay 20 = dev.size
  seeks : host.seeks = true
  whole : (overlay.length - headerBytes) % recordBytes = 0
  memory : host.memory = true

/-- The records in front of record `i` are on the disk, whose state is `s`. -/
structure Reaches (host : Host) (dev : Device) (overlay : List Octet) (onto : dev.State)
    (i : ℕ) (s : dev.State) : Prop where
  accepted : Accepted host dev overlay
  present : i < recordCount overlay
  before : replayRecords host dev overlay (List.range i) onto = (.ok, s)

/-- The offset the replay scales a record's index to. -/
def replayOffset (overlay : List Octet) (i : ℕ) : ℕ := recordIndex overlay i * blockBytes % 2 ^ 64

/-- The replay writes the block of record `i` at an offset. -/
def Writes (host : Host) (dev : Device) (overlay : List Octet) (onto : dev.State)
    (i offset : ℕ) : Prop :=
  (∃ s, Reaches host dev overlay onto i s) ∧ offset = replayOffset overlay i ∧
    ¬dev.size < (offset + blockBytes) % 2 ^ 64

/-- The index is no block of the disk and still passes the test of the replay. -/
def Wraps (dev : Device) (index : ℕ) : Prop :=
  2 ^ 52 ≤ index ∧ index % 2 ^ 52 < blockCount dev ∨ index % 2 ^ 52 = 2 ^ 52 - 1

theorem replayRecords_append (first second : List ℕ) (onto : dev.State) :
    replayRecords host dev overlay (first ++ second) onto =
      match replayRecords host dev overlay first onto with
      | (.ok, s) => replayRecords host dev overlay second s
      | refused => refused := by
  induction first generalizing onto with
  | nil => rfl
  | cons i rest ih =>
    rw [cons_append, replayRecords, replayRecords]
    split
    · rfl
    simp only
    split
    · rfl
    split
    · rfl
    · exact ih _

theorem vmCowReplay_accepted (h : Accepted host dev overlay) (onto : dev.State) :
    vmCowReplay host dev onto (some overlay) =
      match replayRecords host dev overlay (List.range (recordCount overlay)) onto with
      | (.ok, onto) => (if (dev.flush onto).1 = .ok then .ok else .io, (dev.flush onto).2)
      | refused => refused := by
  unfold vmCowReplay
  rcases hrun : replayRecords host dev overlay (List.range (recordCount overlay)) onto with
    ⟨status, t⟩
  rw [recordCount] at hrun
  cases status <;>
    simp only [h.opens, h.reads, h.format, h.size, h.seeks, h.whole, h.memory, hrun,
      Bool.not_true, Bool.or_self, Bool.false_eq_true, ne_eq, not_true_eq_false, if_false]

theorem vmCowReplay_refused (h : ¬Accepted host dev overlay) (onto : dev.State) :
    (vmCowReplay host dev onto (some overlay)).2 = onto := by
  unfold vmCowReplay
  simp only
  split
  · rfl
  next hopens =>
  split
  · rfl
  next hformat =>
  split
  · rfl
  next hsize =>
  split
  · rfl
  next hseeks =>
  split
  · rfl
  next hwhole =>
  split
  · rfl
  next hmemory =>
  refine absurd ⟨?_, ?_, ?_, ?_, ?_, ?_, ?_⟩ h
  all_goals simp_all

theorem vmCowReplay_of_reaches (h : Reaches host dev overlay onto i s) :
    vmCowReplay host dev onto (some overlay) =
      match replayRecords host dev overlay (List.range' i (recordCount overlay - i)) s with
      | (.ok, onto) => (if (dev.flush onto).1 = .ok then .ok else .io, (dev.flush onto).2)
      | refused => refused := by
  have hsplit : List.range (recordCount overlay) =
      List.range i ++ List.range' i (recordCount overlay - i) := by
    have happend := @List.range'_append_1 0 i (recordCount overlay - i)
    rw [Nat.zero_add, Nat.add_sub_cancel' h.present.le] at happend
    rw [range_eq_range', range_eq_range', happend]
  rw [vmCowReplay_accepted h.accepted, hsplit, replayRecords_append, h.before]

theorem test_iff (hindex : i < 2 ^ 64) :
    ¬dev.size < (i * blockBytes % 2 ^ 64 + blockBytes) % 2 ^ 64 ↔ i < blockCount dev ∨ Wraps dev i := by
  have hsize := dev.size_lt
  have hcount : blockCount dev = dev.size / 4096 := rfl
  simp only [Wraps, hcount, blockBytes]
  omega

theorem scaled_of_lt (h : i < blockCount dev) : i * blockBytes % 2 ^ 64 = i * blockBytes := by
  have hsize := dev.size_lt
  have hinside := block_lt h
  exact Nat.mod_eq_of_lt (by omega)

theorem not_lt_of_wraps (h : Wraps dev i) : ¬i < blockCount dev := by
  have hsize := dev.size_lt
  have hcount : blockCount dev = dev.size / 4096 := rfl
  simp only [Wraps, hcount] at *
  omega

theorem recordIndex_lt (overlay : List Octet) (i : ℕ) : recordIndex overlay i < 2 ^ 64 := by
  have hget := LittleEndian.get_lt ((overlay.drop (headerBytes + i * recordBytes)).take indexBytes)
  have hlength : ((overlay.drop (headerBytes + i * recordBytes)).take indexBytes).length ≤ 8 :=
    length_take_le ..
  calc
    recordIndex overlay i < 256 ^ _ := hget
    _ ≤ 256 ^ 8 := Nat.pow_le_pow_right (by decide) hlength
    _ = 2 ^ 64 := by norm_num

theorem replayRecord_changes {status : CowStatus} {left : dev.State}
    (h : replayRecords host dev overlay [i] s = (status, left))
    (hlawful : host.reads = true → ¬Wraps dev (recordIndex overlay i)) {x : ℕ}
    (hx : dev.bytes left x ≠ dev.bytes s x) :
    recordIndex overlay i = page x ∧ page x < blockCount dev := by
  rw [replayRecords] at h
  split at h
  · cases h
    exact absurd rfl hx
  next hreads =>
  simp only at h
  split at h
  · cases h
    exact absurd rfl hx
  next htest =>
  have hreads' : host.reads = true := by simpa using hreads
  have hblock : recordIndex overlay i < blockCount dev :=
    ((test_iff (recordIndex_lt overlay i)).1 htest).resolve_right (hlawful hreads')
  have hoffset := scaled_of_lt hblock
  have hinside := block_lt hblock
  have hsize := dev.size_lt
  have hwrite := @writeExact_spec dev s (recordIndex overlay i * blockBytes)
    (recordBlock overlay i) 0 0 (Nat.zero_le _) (by omega)
  have hleft : left = (writeExact dev s (recordIndex overlay i * blockBytes)
      (recordBlock overlay i) 0 0).2.2 := by
    rw [hoffset] at h
    rw [recordBlock]
    generalize writeExact dev s (recordIndex overlay i * blockBytes) _ 0 0 = result at h
    obtain ⟨_ | _, count, after⟩ := result
    · cases h
      rfl
    · cases h
      rfl
  obtain ⟨⟨-, hcount⟩, hbytes, -, -⟩ := hwrite
  have hlength : (recordBlock overlay i).length ≤ blockBytes := length_take_le ..
  rw [hleft, hbytes] at hx
  have hpage : page x = recordIndex overlay i := by
    rw [← page_eq_iff]
    by_contra hout
    refine hx (overwrite_of_not_mem ?_)
    rw [length_take, length_drop]
    omega
  exact ⟨hpage.symm, hpage ▸ hblock⟩

theorem replayRecords_changes {k : ℕ} {status : CowStatus} {left : dev.State}
    (hlawful : ∀ i < k, ∀ s, replayRecords host dev overlay (List.range i) onto = (.ok, s) →
      host.reads = true → ¬Wraps dev (recordIndex overlay i))
    (h : replayRecords host dev overlay (List.range k) onto = (status, left)) {x : ℕ}
    (hx : dev.bytes left x ≠ dev.bytes onto x) :
    ∃ i < k, recordIndex overlay i = page x ∧ page x < blockCount dev := by
  induction k generalizing status left with
  | zero =>
    cases h
    exact absurd rfl hx
  | succ k ih =>
    have hrest : ∀ i < k, ∀ s, replayRecords host dev overlay (List.range i) onto = (.ok, s) →
        host.reads = true → ¬Wraps dev (recordIndex overlay i) :=
      fun i hi ↦ hlawful i (Nat.lt_succ_of_lt hi)
    have hwider (h : ∃ i < k, recordIndex overlay i = page x ∧ page x < blockCount dev) :
        ∃ i < k + 1, recordIndex overlay i = page x ∧ page x < blockCount dev := by
      obtain ⟨i, hi, hpage⟩ := h
      exact ⟨i, Nat.lt_succ_of_lt hi, hpage⟩
    rw [range_succ, replayRecords_append] at h
    rcases hbefore : replayRecords host dev overlay (List.range k) onto with ⟨before, s⟩
    rw [hbefore] at h
    by_cases hok : before = .ok
    · subst hok
      by_cases hearlier : dev.bytes s x = dev.bytes onto x
      · rw [← hearlier] at hx
        exact ⟨k, Nat.lt_succ_self k,
          replayRecord_changes h (hlawful k (Nat.lt_succ_self k) s hbefore) hx⟩
      · exact hwider (ih hrest hbefore hearlier)
    · have hend : (before, s) = (status, left) := by
        cases before with
        | ok => exact absurd rfl hok
        | badArgument | io | badFormat | sizeMismatch | truncated | outOfMemory => exact h
      cases hend
      exact hwider (ih hrest hbefore hx)

/-- An open refuses a file that names a block the disk does not have. -/
theorem indexRecords_none {count : ℕ} {records : List ℕ} {saved : ℕ → Bool} (hi : i ∈ records)
    (hindex : count ≤ recordIndex overlay i) : indexRecords count overlay records saved = none := by
  induction records generalizing saved with
  | nil => exact absurd hi not_mem_nil
  | cons first rest ih =>
    rw [indexRecords]
    split
    · rfl
    next hfirst =>
    rcases mem_cons.1 hi with rfl | hrest
    · exact absurd hindex hfirst
    · exact ih hrest

theorem indexExisting_sizeMismatch (h : Accepted host dev overlay) (hi : i < recordCount overlay)
    (hindex : blockCount dev ≤ recordIndex overlay i) :
    indexExisting host dev overlay = .error .sizeMismatch := by
  have hheader : ¬overlay.length < headerBytes := by
    have hformat := h.format
    simp only [formatOk, Bool.and_eq_true, decide_eq_true_eq] at hformat
    omega
  have hloop : indexRecords (blockCount dev) overlay (List.range (recordCount overlay))
      (fun _ ↦ false) = none := indexRecords_none (mem_range.2 hi) hindex
  rw [recordCount] at hloop
  unfold indexExisting
  rw [if_neg (by simp [h.seeks]), if_neg hheader, if_neg (not_not.2 h.whole),
    if_neg (by simp [h.reads]), hloop]

theorem vmCowReplay_sizeMismatch (h : Reaches host dev overlay onto i s)
    (hindex : blockCount dev ≤ recordIndex overlay i) (hlawful : ¬Wraps dev (recordIndex overlay i)) :
    vmCowReplay host dev onto (some overlay) = (.sizeMismatch, s) := by
  have htest : dev.size < (recordIndex overlay i * blockBytes % 2 ^ 64 + blockBytes) % 2 ^ 64 := by
    by_contra hpass
    rcases (test_iff (recordIndex_lt overlay i)).1 hpass with hblock | hwraps
    · omega
    · exact hlawful hwraps
  have hcount : recordCount overlay - i = (recordCount overlay - i - 1) + 1 := by
    have hpresent := h.present
    omega
  rw [vmCowReplay_of_reaches h, hcount, range'_succ, replayRecords,
    if_neg (by simp [h.accepted.reads])]
  simp only
  rw [if_pos htest]

/-- On a disk and a host that do their part the records in front of the first one the disk has no
block for are put back. -/
theorem replayRecords_ok (hreads : host.reads = true) (hdev : dev.Reliable) {k : ℕ}
    (hinside : ∀ i < k, recordIndex overlay i < blockCount dev) :
    ∃ s, replayRecords host dev overlay (List.range k) onto = (.ok, s) := by
  induction k with
  | zero => exact ⟨onto, rfl⟩
  | succ k ih =>
    obtain ⟨s, hbefore⟩ := ih fun i hi ↦ hinside i (Nat.lt_succ_of_lt hi)
    have hblock := hinside k (Nat.lt_succ_self k)
    have hend := block_lt hblock
    have htest := (test_iff (recordIndex_lt overlay k)).2 (.inl hblock)
    have hlength : (recordBlock overlay k).length ≤ blockBytes := length_take_le ..
    have hwrite := @writeExact_reliable dev hdev s (recordIndex overlay k * blockBytes)
      (recordBlock overlay k) 0 0 (Nat.zero_le _) (by omega)
    rw [range_succ, replayRecords_append, hbefore]
    simp only
    rw [replayRecords, if_neg (by simp [hreads])]
    simp only
    rw [if_neg htest, scaled_of_lt hblock, ← recordBlock]
    rcases hresult : writeExact dev s (recordIndex overlay k * blockBytes) (recordBlock overlay k) 0 0
      with ⟨ok, count, after⟩
    rw [hresult] at hwrite
    cases hwrite
    exact ⟨after, rfl⟩

/-- What an overlay may do to a disk. -/
structure KeepsToBlocks (host : Host) (dev : Device) (overlay : List Octet) (onto : dev.State) :
    Prop where
  /-- A block is written only for a record whose index is one of the disk's, at its own place. -/
  written : ∀ i offset, Writes host dev overlay onto i offset →
    recordIndex overlay i < blockCount dev ∧ offset = recordIndex overlay i * blockBytes
  /-- What the replay has changed lies in such blocks. -/
  changed : ∀ x, dev.bytes (vmCowReplay host dev onto (some overlay)).2 x ≠ dev.bytes onto x →
    ∃ i < recordCount overlay, recordIndex overlay i = page x ∧ page x < blockCount dev
  /-- A record with another index ends the replay where it stands, and an open refuses the file. -/
  refused : ∀ i s, Reaches host dev overlay onto i s → blockCount dev ≤ recordIndex overlay i →
    vmCowReplay host dev onto (some overlay) = (.sizeMismatch, s) ∧
      indexExisting host dev overlay = .error .sizeMismatch
  /-- Where nothing else goes wrong, one such record anywhere in the file is enough. -/
  mismatch : Accepted host dev overlay → dev.Reliable →
    (∃ i < recordCount overlay, blockCount dev ≤ recordIndex overlay i) →
      (vmCowReplay host dev onto (some overlay)).1 = .sizeMismatch ∧
        indexExisting host dev overlay = .error .sizeMismatch

theorem bytes_vmCowReplay (h : Accepted host dev overlay) (onto : dev.State) :
    dev.bytes (vmCowReplay host dev onto (some overlay)).2 =
      dev.bytes (replayRecords host dev overlay (List.range (recordCount overlay)) onto).2 := by
  rw [vmCowReplay_accepted h]
  split
  next s hloop =>
    rw [hloop]
    exact dev.flush_keeps s
  next => rfl

theorem changed_of_lawful
    (hlawful : ∀ i s, Reaches host dev overlay onto i s → ¬Wraps dev (recordIndex overlay i)) (x : ℕ)
    (hx : dev.bytes (vmCowReplay host dev onto (some overlay)).2 x ≠ dev.bytes onto x) :
    ∃ i < recordCount overlay, recordIndex overlay i = page x ∧ page x < blockCount dev := by
  by_cases haccepted : Accepted host dev overlay
  · rw [bytes_vmCowReplay haccepted] at hx
    exact replayRecords_changes (fun i hi s hbefore _ ↦ hlawful i s ⟨haccepted, hi, hbefore⟩) rfl hx
  · rw [vmCowReplay_refused haccepted] at hx
    exact absurd rfl hx

theorem mismatch_of_lawful (haccepted : Accepted host dev overlay) (hdev : dev.Reliable)
    (hlawful : ∀ i s, Reaches host dev overlay onto i s → ¬Wraps dev (recordIndex overlay i))
    (houtside : ∃ i < recordCount overlay, blockCount dev ≤ recordIndex overlay i) :
    (vmCowReplay host dev onto (some overlay)).1 = .sizeMismatch ∧
      indexExisting host dev overlay = .error .sizeMismatch := by
  classical
  -- the first record the disk has no block for is the one the replay gets to
  obtain ⟨hi, hindex⟩ := Nat.find_spec houtside
  have hinside : ∀ j < Nat.find houtside, recordIndex overlay j < blockCount dev := fun j hj ↦ by
    have hfirst := Nat.find_min houtside hj
    by_contra hout
    exact hfirst ⟨hj.trans hi, not_lt.1 hout⟩
  obtain ⟨s, hbefore⟩ := @replayRecords_ok dev host overlay onto haccepted.reads hdev _ hinside
  have hreaches : Reaches host dev overlay onto (Nat.find houtside) s := ⟨haccepted, hi, hbefore⟩
  rw [vmCowReplay_sizeMismatch hreaches hindex (hlawful _ s hreaches)]
  exact ⟨rfl, indexExisting_sizeMismatch haccepted hi hindex⟩

/-- A replay keeps to the blocks of the disk exactly when it comes to no record whose index
wraps. -/
theorem keepsToBlocks_iff (host : Host) (dev : Device) (overlay : List Octet) (onto : dev.State) :
    KeepsToBlocks host dev overlay onto ↔
      ∀ i s, Reaches host dev overlay onto i s → ¬Wraps dev (recordIndex overlay i) := by
  constructor
  · intro hkeeps i s hreaches hwraps
    have htest := (test_iff (recordIndex_lt overlay i)).2 (.inr hwraps)
    have hwritten := hkeeps.written i _ ⟨⟨s, hreaches⟩, rfl, htest⟩
    exact not_lt_of_wraps hwraps hwritten.1
  · intro hlawful
    refine ⟨?_, changed_of_lawful hlawful, fun i s hreaches hindex ↦ ?_,
      fun haccepted hdev houtside ↦ mismatch_of_lawful haccepted hdev hlawful houtside⟩
    · rintro i offset ⟨⟨s, hreaches⟩, rfl, htest⟩
      have hblock := ((test_iff (recordIndex_lt overlay i)).1 htest).resolve_right
        (hlawful i s hreaches)
      exact ⟨hblock, scaled_of_lt hblock⟩
    · exact ⟨vmCowReplay_sizeMismatch hreaches hindex (hlawful i s hreaches),
        indexExisting_sizeMismatch hreaches.accepted hreaches.present hindex⟩

/-- The record of an overlay for a disk of one block: its index is `2 ^ 52`. -/
def wrappingRecord : BlockRecord := (2 ^ 52, List.replicate blockBytes 1)

def wrappingOverlay : List Octet := encode blockBytes [wrappingRecord]

def oneBlock : Device := ramDisk blockBytes blockBytes_lt

def blankBlock : oneBlock.State := fun _ ↦ (0 : Octet)

theorem length_wrappingOverlay : wrappingOverlay.length = headerBytes + recordBytes := by
  have hrecord : (recordOctets wrappingRecord).length = recordBytes :=
    length_recordOctets length_replicate
  rw [wrappingOverlay, encode, length_append, length_header, flatMap_cons,
    flatMap_nil, append_nil, hrecord]

theorem recordIndex_wrappingOverlay : recordIndex wrappingOverlay 0 = 2 ^ 52 :=
  @recordIndex_encode oneBlock blockBytes [] [] wrappingRecord (fun _ h ↦ absurd h not_mem_nil)
    (by decide)

theorem accepted_wrappingOverlay : Accepted {} oneBlock wrappingOverlay where
  opens := rfl
  reads := rfl
  format := formatOk_encode ..
  size := getLe_encode (by decide) _
  seeks := rfl
  whole := by
    rw [length_wrappingOverlay, Nat.add_sub_cancel_left, Nat.mod_self]
  memory := rfl

theorem recordCount_wrappingOverlay : recordCount wrappingOverlay = 1 := by
  rw [recordCount, length_wrappingOverlay, Nat.add_sub_cancel_left, Nat.div_self (by decide)]

theorem vmCowReplay_wrappingOverlay :
    (vmCowReplay {} oneBlock blankBlock (some wrappingOverlay)).1 = .ok := by
  have hwrite := @writeExact_reliable oneBlock (ramDisk_reliable ..) blankBlock 0
    (recordBlock wrappingOverlay 0) 0 0 (Nat.zero_le _) (by
      rw [Nat.zero_add]
      exact length_take_le ..)
  have hloop : ∃ s, replayRecords {} oneBlock wrappingOverlay [0] blankBlock = (.ok, s) := by
    have hoffset : 2 ^ 52 * blockBytes % 2 ^ 64 = 0 := by decide
    have hreads : ¬(!({} : Host).reads) = true := Bool.false_ne_true
    rw [replayRecords, if_neg hreads]
    simp only
    rw [recordIndex_wrappingOverlay, hoffset, if_neg (by decide), ← recordBlock]
    rcases hresult : writeExact oneBlock blankBlock 0 (recordBlock wrappingOverlay 0) 0 0
      with ⟨ok, count, s⟩
    rw [hresult] at hwrite
    cases hwrite
    exact ⟨s, rfl⟩
  have hrange : List.range (recordCount wrappingOverlay) = [0] := by
    rw [recordCount_wrappingOverlay]
    rfl
  obtain ⟨s, hloop⟩ := hloop
  rw [vmCowReplay_accepted accepted_wrappingOverlay, hrange, hloop]
  rfl

/-- The replay writes block 0 from the record with the index `2 ^ 52` and ends well, where an open
refuses the file. -/
theorem not_keepsToBlocks_wrappingOverlay :
    (¬∀ (host : Host) (dev : Device) (overlay : List Octet) (onto : dev.State),
      KeepsToBlocks host dev overlay onto) ∧
    (vmCowReplay {} oneBlock blankBlock (some wrappingOverlay)).1 = .ok ∧
    indexExisting {} oneBlock wrappingOverlay = .error .sizeMismatch := by
  have hpresent : 0 < recordCount wrappingOverlay := by
    rw [recordCount_wrappingOverlay]
    exact Nat.one_pos
  have hindex := recordIndex_wrappingOverlay
  refine ⟨fun h ↦ ?_, vmCowReplay_wrappingOverlay, ?_⟩
  · have hwrites : Writes {} oneBlock wrappingOverlay blankBlock 0 0 := by
      refine ⟨⟨blankBlock, accepted_wrappingOverlay, hpresent, rfl⟩, ?_, by decide⟩
      rw [replayOffset, hindex]
      rfl
    have hblock := ((h ..).written 0 0 hwrites).1
    rw [hindex] at hblock
    exact absurd hblock (by decide)
  · have houtside : blockCount oneBlock ≤ recordIndex wrappingOverlay 0 := by
      rw [hindex]
      decide
    exact indexExisting_sizeMismatch accepted_wrappingOverlay hpresent houtside

end S5LBox.Block
