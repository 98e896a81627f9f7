import S5LBox.Block.CowRecords

/-!
# Overlay files as they are

Not every file that is accepted has been written by one session, so these are facts about the
octets: what records a file has, that they stay where they are when something is appended, and what
a save, a write and an open of the facade do to them.
-/

namespace S5LBox.Block

open List Span

variable {dev : Device}

def recordCount (file : List Octet) : ℕ := (file.length - headerBytes) / recordBytes

/-- The blocks a file has records of. -/
def recordedBlocks (file : List Octet) : List ℕ :=
  (List.range (recordCount file)).map (recordIndex file)

/-- The octets of record `i`. -/
def recordBlock (file : List Octet) (i : ℕ) : List Octet :=
  (file.drop (headerBytes + i * recordBytes + indexBytes)).take blockBytes

/-- The file has a record of the block as it was. -/
def Holds (began : ℕ → Octet) (file : List Octet) (block : ℕ) : Prop :=
  ∃ i < recordCount file, recordIndex file i = block ∧
    recordBlock file i = window began (block * blockBytes) blockBytes

/-- Behind the header, whole records. -/
def Whole (n : ℕ) : Prop := headerBytes ≤ n ∧ (n - headerBytes) % recordBytes = 0

instance (n : ℕ) : Decidable (Whole n) := inferInstanceAs (Decidable (_ ∧ _))

variable {file file' : List Octet} {block : ℕ} {cow cow' : Cow dev} {host : Host}
  {under : dev.State} {left : Option (List Octet)}

theorem mem_recordedBlocks :
    block ∈ recordedBlocks file ↔ ∃ i < recordCount file, recordIndex file i = block := by
  simp [recordedBlocks]

theorem drop_take_of_isPrefix (h : file <+: file') {start count : ℕ}
    (hcount : start + count ≤ file.length) :
    (file'.drop start).take count = (file.drop start).take count := by
  obtain ⟨rest, rfl⟩ := h
  rw [drop_append_of_le_length (by omega), take_append_of_le_length]
  rw [length_drop]
  omega

theorem record_of_isPrefix (h : file <+: file') {i : ℕ} (hi : i < recordCount file) :
    i < recordCount file' ∧ recordIndex file' i = recordIndex file i ∧
      recordBlock file' i = recordBlock file i := by
  have hlength := h.length_le
  have hcounts : recordCount file ≤ recordCount file' :=
    Nat.div_le_div_right (Nat.sub_le_sub_right hlength _)
  have hrecords : (i + 1) * recordBytes ≤ file.length - headerBytes :=
    (Nat.mul_le_mul_right _ hi).trans (Nat.div_mul_le_self ..)
  have hsplit : recordBytes = indexBytes + blockBytes := rfl
  have hindex : 0 < indexBytes := by decide
  have hroom : headerBytes + i * recordBytes + indexBytes + blockBytes ≤ file.length := by
    rw [Nat.succ_mul] at hrecords
    omega
  refine ⟨hi.trans_le hcounts, ?_, ?_⟩
  · rw [recordIndex, recordIndex, getLe, getLe, drop_take_of_isPrefix h (by omega)]
  · rw [recordBlock, recordBlock, drop_take_of_isPrefix h hroom]

theorem recordedBlocks_mono (h : file <+: file') (hblock : block ∈ recordedBlocks file) :
    block ∈ recordedBlocks file' := by
  obtain ⟨i, hi, hindex⟩ := mem_recordedBlocks.1 hblock
  obtain ⟨hi', hsame, -⟩ := record_of_isPrefix h hi
  exact mem_recordedBlocks.2 ⟨i, hi', hsame.trans hindex⟩

theorem Holds.mono {began : ℕ → Octet} (hholds : Holds began file block) (h : file <+: file') :
    Holds began file' block := by
  obtain ⟨i, hi, hindex, hoctets⟩ := hholds
  obtain ⟨hi', hsame, hsame'⟩ := record_of_isPrefix h hi
  exact ⟨i, hi', hsame.trans hindex, hsame'.trans hoctets⟩

theorem recordCount_append_of_lt {tail : List Octet} (hfile : Whole file.length)
    (htail : tail.length < recordBytes) : recordCount (file ++ tail) = recordCount file := by
  obtain ⟨hheader, hmod⟩ := hfile
  obtain ⟨k, hk⟩ := Nat.dvd_of_mod_eq_zero hmod
  have hsome : 0 < recordBytes := by decide
  have hlonger : (file ++ tail).length - headerBytes = tail.length + recordBytes * k := by
    rw [length_append]
    omega
  rw [recordCount, recordCount, hlonger, hk, Nat.add_mul_div_left _ _ hsome,
    Nat.div_eq_of_lt htail, Nat.zero_add, Nat.mul_div_cancel_left _ hsome]

theorem recordCount_append_record {file : List Octet} (hfile : Whole file.length)
    {record : BlockRecord} (hrecord : record.2.length = blockBytes) :
    recordCount (file ++ recordOctets record) = recordCount file + 1 := by
  have hsome : 0 < recordBytes := by decide
  have hheader := hfile.1
  have hlonger : (file ++ recordOctets record).length - headerBytes =
      file.length - headerBytes + recordBytes := by
    rw [length_append, length_recordOctets hrecord]
    omega
  rw [recordCount, recordCount, hlonger, Nat.add_div_right _ hsome]

theorem whole_append_record (hfile : Whole file.length) {record : BlockRecord}
    (hrecord : record.2.length = blockBytes) : Whole (file ++ recordOctets record).length := by
  obtain ⟨hheader, hmod⟩ := hfile
  rw [length_append, length_recordOctets hrecord]
  refine ⟨by omega, ?_⟩
  rw [show file.length + recordBytes - headerBytes = file.length - headerBytes + recordBytes by
    omega, Nat.add_mod_right]
  exact hmod

theorem record_append {file : List Octet} (hfile : Whole file.length) {record : BlockRecord}
    (hrecord : record.2.length = blockBytes) (hindex : record.1 < 2 ^ 64) :
    recordIndex (file ++ recordOctets record) (recordCount file) = record.1 ∧
      recordBlock (file ++ recordOctets record) (recordCount file) = record.2 := by
  obtain ⟨hheader, hmod⟩ := hfile
  have hend : headerBytes + recordCount file * recordBytes = file.length := by
    rw [recordCount, Nat.div_mul_cancel (Nat.dvd_of_mod_eq_zero hmod)]
    omega
  constructor
  · rw [recordIndex, getLe, hend, drop_left, recordOctets, take_left' (LittleEndian.length_put ..),
      LittleEndian.get_put (lt_of_lt_of_eq hindex (by norm_num [indexBytes]))]
  · rw [recordBlock, hend, ← drop_drop, drop_left, recordOctets,
      drop_left' (LittleEndian.length_put ..), take_of_length_le hrecord.le]

theorem mem_recordedBlocks_append {file : List Octet} (hfile : Whole file.length)
    {record : BlockRecord} (hrecord : record.2.length = blockBytes) (hindex : record.1 < 2 ^ 64)
    {block : ℕ} : block ∈ recordedBlocks (file ++ recordOctets record) ↔
      block ∈ recordedBlocks file ∨ block = record.1 := by
  have hlast := (record_append hfile hrecord hindex).1
  have hprefix : file <+: file ++ recordOctets record := prefix_append ..
  constructor
  · intro hblock
    obtain ⟨i, hi, hi'⟩ := mem_recordedBlocks.1 hblock
    rw [recordCount_append_record hfile hrecord, Nat.lt_succ_iff_lt_or_eq] at hi
    rcases hi with hold | rfl
    · left
      have hsame := (record_of_isPrefix hprefix hold).2.1
      exact mem_recordedBlocks.2 ⟨i, hold, hsame.symm.trans hi'⟩
    · right
      exact hi'.symm.trans hlast
  · rintro (hold | rfl)
    · exact recordedBlocks_mono hprefix hold
    · refine mem_recordedBlocks.2 ⟨recordCount file, ?_, hlast⟩
      rw [recordCount_append_record hfile hrecord]
      exact Nat.lt_succ_self _

/-- The bitmap names the recorded blocks as long as a save may still be made. -/
def Indexed (cow : Cow dev) : Prop :=
  cow.poisoned = false → Whole cow.overlay.length ∧
    ∀ block, cow.saved block = true ↔ block ∈ recordedBlocks cow.overlay

/-- What saves leave: the disk as it was, and a stream that goes on from what it was, with records
of what the blocks are. -/
structure Saves (cow cow' : Cow dev) : Prop where
  bytes : dev.bytes cow'.under = dev.bytes cow.under
  appended : cow.overlay <+: cow'.overlay
  indexed : Indexed cow'
  holds : ∀ block ∈ recordedBlocks cow'.overlay, block ∈ recordedBlocks cow.overlay ∨
    Holds (dev.bytes cow.under) cow'.overlay block

theorem Saves.refl (h : Indexed cow) : Saves cow cow :=
  ⟨rfl, prefix_rfl, h, fun _ hblock ↦ Or.inl hblock⟩

theorem Saves.trans {next last : Cow dev} (h : Saves cow next) (h' : Saves next last) :
    Saves cow last := by
  refine ⟨h'.bytes.trans h.bytes, h.appended.trans h'.appended, h'.indexed, fun block hblock ↦ ?_⟩
  rcases h'.holds block hblock with hold | hnew
  · rcases h.holds block hold with hfirst | hsaved
    · exact Or.inl hfirst
    · exact Or.inr (hsaved.mono h'.appended)
  · rw [h.bytes] at hnew
    exact Or.inr hnew

theorem Saves.poison {next : Cow dev} {tail : List Octet} (hindexed : Indexed cow)
    (hcow : cow.poisoned = false) (hoverlay : next.overlay = cow.overlay ++ tail)
    (htail : tail.length < recordBytes) (hpoisoned : next.poisoned = true)
    (hbytes : dev.bytes next.under = dev.bytes cow.under) : Saves cow next := by
  have happended : cow.overlay <+: next.overlay := hoverlay ▸ prefix_append ..
  refine ⟨hbytes, happended, fun hnot ↦ ?_, fun block hblock ↦ ?_⟩
  · rw [hpoisoned] at hnot
    cases hnot
  · left
    obtain ⟨i, hi, hindex⟩ := mem_recordedBlocks.1 hblock
    rw [hoverlay, recordCount_append_of_lt (hindexed hcow).1 htail] at hi
    exact mem_recordedBlocks.2 ⟨i, hi, (record_of_isPrefix happended hi).2.1.symm.trans hindex⟩

theorem saveBlock_saves {ok : Bool} (h : Indexed cow) (hpoisoned : cow.poisoned = false)
    (hblock : block < blockCount dev) (hsave : saveBlock host cow block = (ok, cow')) :
    Saves cow cow' ∧ (ok = true → cow'.poisoned = false ∧ block ∈ recordedBlocks cow'.overlay) := by
  obtain ⟨hwhole, hsaved⟩ := h hpoisoned
  rcases saveBlock_cases hblock hsave with ⟨hold, -, rfl⟩ |
    ⟨-, under, hbytes, ⟨rfl, tail, htail, rfl⟩ | ⟨-, scratch, hscratch, hlength, rfl⟩⟩
  · exact ⟨.refl h, fun _ ↦ ⟨hpoisoned, (hsaved block).1 hold⟩⟩
  · exact ⟨.poison h hpoisoned rfl htail rfl hbytes, nofun⟩
  have hindex := index_lt hblock
  have hmem {other : ℕ} := @mem_recordedBlocks_append _ hwhole (block, scratch) hlength hindex other
  refine ⟨⟨hbytes, prefix_append .., fun _ ↦ ⟨whole_append_record hwhole hlength,
    fun other ↦ ?_⟩, fun other hother ↦ ?_⟩, fun _ ↦ ⟨hpoisoned, hmem.2 (Or.inr rfl)⟩⟩
  · rw [hmem, ← hsaved]
    simp only [bitSet, Function.update_apply]
    by_cases hsame : other = block <;> simp [hsame]
  · rcases hmem.1 hother with hold | hnew
    · exact Or.inl hold
    · right
      obtain rfl : block = other := hnew.symm
      obtain ⟨hlast, hoctets⟩ := @record_append _ hwhole (block, scratch) hlength hindex
      refine ⟨recordCount cow.overlay, ?_, hlast, hoctets.trans hscratch⟩
      rw [@recordCount_append_record _ hwhole (block, scratch) hlength]
      exact Nat.lt_succ_self _

theorem saveBlocks_saves {blocks : List ℕ} {ok : Bool} (h : Indexed cow)
    (hpoisoned : cow.poisoned = false) (hblocks : ∀ block ∈ blocks, block < blockCount dev)
    (hsave : saveBlocks host blocks cow = (ok, cow')) :
    Saves cow cow' ∧ (ok = true → cow'.poisoned = false ∧
      ∀ block ∈ blocks, block ∈ recordedBlocks cow'.overlay) := by
  induction blocks generalizing cow with
  | nil =>
    cases hsave
    exact ⟨.refl h, fun _ ↦ ⟨hpoisoned, fun _ hb ↦ absurd hb not_mem_nil⟩⟩
  | cons block rest ih =>
    unfold saveBlocks at hsave
    rcases hone : saveBlock host cow block with ⟨first, next⟩
    obtain ⟨hsaves, hfirst⟩ := saveBlock_saves h hpoisoned (hblocks block mem_cons_self) hone
    rw [hone] at hsave
    cases first with
    | false =>
      cases hsave
      exact ⟨hsaves, fun hok ↦ by cases hok⟩
    | true =>
      obtain ⟨hnext, hrecorded⟩ := hfirst rfl
      obtain ⟨hsaves', hrest⟩ := ih hsaves.indexed hnext
        (fun other hother ↦ hblocks other (mem_cons_of_mem _ hother)) hsave
      refine ⟨hsaves.trans hsaves', fun hok ↦ ⟨(hrest hok).1, fun other hother ↦ ?_⟩⟩
      rcases mem_cons.1 hother with rfl | hmem
      · exact recordedBlocks_mono hsaves'.appended hrecorded
      · exact (hrest hok).2 other hmem

/-- What a write leaves, however it ends: the disk differs only in blocks that have a record, and
the records that are new are of what the blocks were. -/
structure Written (cow cow' : Cow dev) : Prop where
  appended : cow.overlay <+: cow'.overlay
  indexed : Indexed cow'
  holds : ∀ block ∈ recordedBlocks cow'.overlay, block ∈ recordedBlocks cow.overlay ∨
    Holds (dev.bytes cow.under) cow'.overlay block
  changed : ∀ x, dev.bytes cow'.under x ≠ dev.bytes cow.under x →
    page x ∈ recordedBlocks cow'.overlay

theorem Saves.written (h : Saves cow cow') : Written cow cow' :=
  ⟨h.appended, h.indexed, h.holds, fun x hx ↦ absurd (congrFun h.bytes x) hx⟩

theorem cowWriteAt_written {offset : DWord} {source : List Octet} {status : IoStatus} {done : ℕ}
    (h : Indexed cow) (hinside : offset.toNat + source.length ≤ dev.size)
    (hwrite : cowWriteAt host cow offset source = (status, done, cow')) : Written cow cow' := by
  have hsize := dev.size_lt
  unfold cowWriteAt at hwrite
  split at hwrite
  case isTrue =>
    cases hwrite
    exact (Saves.refl h).written
  split at hwrite
  case isTrue =>
    cases hwrite
    exact (Saves.refl h).written
  case isFalse hpoisoned hsome =>
    have hmod : (offset.toNat + source.length - 1) % 2 ^ 64 = offset.toNat + source.length - 1 :=
      Nat.mod_eq_of_lt (by omega)
    simp only [hmod] at hwrite
    split at hwrite
    case isTrue =>
      cases hwrite
      exact (Saves.refl h).written
    case isFalse hlast =>
      have hblocks : ∀ b ∈ List.range' (offset.toNat / blockBytes)
          ((offset.toNat + source.length - 1) / blockBytes + 1 - offset.toNat / blockBytes),
          b < blockCount dev := by
        intro b hb
        obtain ⟨hlow, hhigh⟩ := mem_range'_1.1 hb
        omega
      rcases hsave : saveBlocks host _ cow with ⟨ok, saving⟩
      obtain ⟨hsaves, hall⟩ := saveBlocks_saves h (by simpa using hpoisoned) hblocks hsave
      rw [hsave] at hwrite
      cases ok with
      | false =>
        cases hwrite
        exact hsaves.written
      | true =>
        obtain ⟨hnext, hrecorded⟩ := hall rfl
        have hexact := @writeExact_spec dev saving.under offset.toNat source 0 0 (Nat.zero_le _)
          offset.isLt
        rcases hresult : writeExact dev saving.under offset.toNat source 0 0 with ⟨ok, count, under⟩
        rw [hresult] at hexact
        simp only [hresult] at hwrite
        obtain ⟨hcount, hbytes, -, -⟩ := hexact
        simp only [drop_zero, Nat.sub_zero, Nat.add_zero] at hbytes
        cases hwrite
        refine ⟨hsaves.appended, hsaves.indexed, hsaves.holds, fun x hx ↦ hrecorded _ ?_⟩
        change dev.bytes under x ≠ _ at hx
        rw [hbytes, ← hsaves.bytes] at hx
        have hspan : offset.toNat ≤ x ∧ x < offset.toNat + source.length := by
          by_contra hout
          refine hx (overwrite_of_not_mem fun hin ↦ hout ⟨hin.1, hin.2.trans_le ?_⟩)
          rw [length_take]
          omega
        have hlow : offset.toNat / blockBytes ≤ page x := Nat.div_le_div_right hspan.1
        have hhigh : page x ≤ (offset.toNat + source.length - 1) / blockBytes :=
          Nat.div_le_div_right (by omega)
        rw [mem_range'_1]
        omega

theorem indexRecords_some {count : ℕ} {overlay : List Octet} {records : List ℕ}
    {saved saved' : ℕ → Bool} (h : indexRecords count overlay records saved = some saved')
    (block : ℕ) :
    saved' block = true ↔ saved block = true ∨ ∃ i ∈ records, recordIndex overlay i = block := by
  induction records generalizing saved with
  | nil =>
    cases h
    simp
  | cons i rest ih =>
    unfold indexRecords at h
    split at h
    case isTrue => cases h
    case isFalse =>
      rw [ih h, bitSet, Function.update_apply]
      by_cases hsame : block = recordIndex overlay i
      · simp [hsame]
      · simp [hsame, Ne.symm hsame]

theorem vmCowOpen_size {file : Option (List Octet)}
    (hopen : vmCowOpen host dev under file = (.ok cow, left)) :
    dev.size ≠ 0 ∧ dev.size % blockBytes = 0 := by
  rcases vmCowOpen_cases hopen with ⟨status, -, hcow, -⟩ | ⟨hdisk, -⟩
  · cases hcow
  · exact hdisk

theorem vmCowOpen_left {status : CowStatus} {file : Option (List Octet)} {left : List Octet}
    (hopen : vmCowOpen host dev under file = (.error status, some left)) :
    file = some left ∨ file = none ∧ left <+: header dev.size ∧
      dev.size ≠ 0 ∧ dev.size % blockBytes = 0 := by
  rcases vmCowOpen_cases hopen with ⟨_, -, -, rfl | ⟨hnone, hdisk, part, hpart, hleft⟩⟩ |
    ⟨-, _, _, hcow, -⟩
  · exact .inl rfl
  · cases hleft
    exact .inr ⟨hnone, hpart, hdisk⟩
  · cases hcow

theorem vmCowOpen_keeps {result : Except CowStatus (Cow dev)} :
    vmCowOpen host dev under (some file) ≠ (result, none) := by
  intro hopen
  rcases vmCowOpen_cases hopen with ⟨_, -, -, hleft | ⟨hfile, -⟩⟩ | ⟨-, _, _, -, hleft, -⟩
  · cases hleft
  · cases hfile
  · cases hleft

theorem vmCowOpen_refused {file : Option (List Octet)} :
    vmCowOpen host dev under file ≠ (.error .ok, left) := by
  intro hopen
  rcases vmCowOpen_cases hopen with ⟨status, hstatus, hcow, -⟩ | ⟨-, _, _, hcow, -⟩
  · exact hstatus (Except.error.inj hcow).symm
  · cases hcow

theorem vmCowOpen_made (hopen : vmCowOpen host dev under none = (.ok cow, left)) :
    cow.overlay.length ≤ headerBytes := by
  rcases vmCowOpen_cases hopen with ⟨_, -, hcow, -⟩ |
    ⟨-, overlay, saved, hcow, -, ⟨-, rfl, -⟩ | ⟨hfile, -⟩⟩
  · cases hcow
  · cases hcow
    exact (length_header _).le
  · cases hfile

theorem vmCowOpen_indexed {file : Option (List Octet)}
    (hopen : vmCowOpen host dev under file = (.ok cow, left)) :
    cow.under = under ∧ Indexed cow ∧ cow.poisoned = false ∧ left = some cow.overlay ∧
      ∀ old, file = some old → cow.overlay = old := by
  rcases vmCowOpen_cases hopen with ⟨_, -, hcow, -⟩ |
    ⟨-, overlay, saved, hcow, rfl, ⟨rfl, rfl, rfl⟩ | ⟨rfl, hlong, hwhole, hloop⟩⟩
  · cases hcow
  · cases hcow
    refine ⟨rfl, fun _ ↦ ⟨?_, fun block ↦ ?_⟩, rfl, rfl, nofun⟩
    · rw [length_header]
      decide
    · simp [recordedBlocks, recordCount, length_header]
  · cases hcow
    refine ⟨rfl, fun _ ↦ ⟨⟨hlong, hwhole⟩, fun block ↦ ?_⟩, rfl, rfl, fun _ ↦ Option.some.inj⟩
    rw [indexRecords_some hloop]
    simp [mem_recordedBlocks, recordCount]

end S5LBox.Block
