import S5LBox.Block.CowFiles
import S5LBox.Block.CowHistory
import S5LBox.Library.Run

/-!
# Overlays across a crash

The overlay is written through a stream: at any moment the file holds some part of what has been
appended, all of it only after a flush or a close, while the image takes every write at once. A
moment is what there is between two calls of `VMSnapshotCow.c`, where the process may die, and
`cow_write_at` is taken apart into the turns of its two loops. The file is one to restore from as
long as it ends with a whole record and the image is written to only where the file already has a
record.
-/

namespace S5LBox.Block

open Option List Span UndoLog

variable {dev : Device}

/-- Where `cow_write_at` stands between two turns of its loops. -/
inductive Task where
  | idle
  | saving (offset : DWord) (source : List Octet) (blocks : List ℕ)
  | writing (offset : DWord) (source : List Octet) (done stalls : ℕ)

/-- The disk of a process that is not there, or the facade of one that is. -/
inductive Process (dev : Device) where
  | down (under : dev.State)
  | up (cow : Cow dev) (task : Task)

def Process.under : Process dev → dev.State
  | .down under => under
  | .up cow _ => cow.under

/-- The process and the overlay file, and beside them what the image was when the overlay was begun
and the blocks it has been written to since. -/
structure Moment (dev : Device) where
  process : Process dev
  file : Option (List Octet)
  began : ℕ → Octet
  overwritten : List ℕ

/-- No overlay yet. -/
def Moment.first (under : dev.State) : Moment dev := ⟨.down under, none, dev.bytes under, []⟩

/-- The blocks of a run of octets. -/
def blocksOf (offset count : ℕ) : List ℕ := (List.range' offset count).map (· / blockBytes)

/-- The checks of `cow_write_at` and the bounds of its first loop. -/
def enterWrite (cow : Cow dev) (offset : DWord) (source : List Octet) : Task :=
  if cow.poisoned then .idle
  else if source.length = 0 then .idle
  else
    let first := offset.toNat / blockBytes
    let last := ((offset.toNat + source.length - 1) % 2 ^ 64) / blockBytes
    if blockCount dev ≤ last then .idle
    else .saving offset source (List.range' first (last + 1 - first))

/-- One turn of the loops of `cow_write_at`, with the blocks it writes to. -/
def turn (host : Host) (cow : Cow dev) : Task → Cow dev × Task × List ℕ
  | .idle => (cow, .idle, [])
  | .saving offset source [] => (cow, .writing offset source 0 0, [])
  | .saving offset source (block :: rest) =>
    match saveBlock host cow block with
    | (false, cow) => (cow, .idle, [])
    | (true, cow) => (cow, .saving offset source rest, [])
  | .writing offset source done stalls =>
    if source.length ≤ done then (cow, .idle, [])
    else
      let start := (offset.toNat + done) % 2 ^ 64
      let answer := dev.writeAt cow.under start (source.drop done)
      let next := { cow with under := answer.2.2 }
      if answer.1 = .error then (next, .idle, [])
      else if answer.2.1 = 0 then
        if 64 < stalls + 1 then (next, .idle, [])
        else (next, .writing offset source done (stalls + 1), [])
      else (next, .writing offset source (done + answer.2.1) 0, blocksOf start answer.2.1)

/-- What can happen next. -/
inductive Call where
  | opens (host : Host)
  | reads (offset : DWord) (requested : ℕ)
  | writes (offset : DWord) (source : List Octet)
  | turns (host : Host)
  | drains
  | flushes (host : Host)
  | closes (host : Host)
  | dies

/-- The file once `n` octets of the stream have reached it: none that were in it are lost. -/
def reach (file : Option (List Octet)) (stream : List Octet) (n : ℕ) : Option (List Octet) :=
  if (file.getD []).length ≤ n ∧ n ≤ stream.length then some (stream.take n) else none

def Moment.goOn (m : Moment dev) (process : Process dev) (stream : List Octet) (n : ℕ) :
    Option (Moment dev) :=
  (reach m.file stream n).map fun file ↦ { m with process := process, file := some file }

/-- A call and how much of the stream has reached the file after it. -/
def move (m : Moment dev) (call : Call) (n : ℕ) : Option (Moment dev) :=
  match m.process, call with
  | .down under, .opens host =>
    match vmCowOpen host dev under m.file with
    | (.ok cow, _) => m.goOn (.up cow .idle) cow.overlay n
    | (.error _, none) => some m
    | (.error _, some left) => m.goOn (.down under) left n
  | .up cow .idle, .reads offset requested =>
    let (_, _, cow) := cowReadAt cow offset requested
    m.goOn (.up cow .idle) cow.overlay n
  | .up cow .idle, .writes offset source =>
    m.goOn (.up cow (enterWrite cow offset source)) cow.overlay n
  | .up cow task, .turns host =>
    let (cow, task, blocks) := turn host cow task
    { m with overwritten := m.overwritten ++ blocks }.goOn (.up cow task) cow.overlay n
  | .up cow task, .drains => m.goOn (.up cow task) cow.overlay n
  | .up cow .idle, .flushes host =>
    if host.closes ∧ n ≠ cow.overlay.length then none
    else
      let (_, cow) := cowFlush host cow
      m.goOn (.up cow .idle) cow.overlay n
  | .up cow .idle, .closes host =>
    if host.closes ∧ n ≠ cow.overlay.length then none
    else
      let (_, under, overlay) := vmCowClose host cow
      m.goOn (.down under) overlay n
  | .up cow _, .dies => some { m with process := .down cow.under }
  | _, _ => none

/-- What cannot happen at a moment changes nothing. -/
def step (m : Moment dev) (event : Call × ℕ) : Moment dev := (move m event.1 event.2).getD m

/-- The file that remains is accepted by open and by replay, and it has what every block that has
been overwritten was. -/
def Moment.Restorable (m : Moment dev) : Prop :=
  match m.file with
  | none => m.overwritten = []
  | some file =>
    (∀ host, Host.Sound host →
      (∃ cow left, vmCowOpen host dev m.process.under (some file) = (.ok cow, left)) ∧
        Replays dev m.began dev.Reliable
          (vmCowReplay host dev m.process.under (some file))) ∧
      ∀ block ∈ m.overwritten, Holds m.began file block

/-- The stream lets whole records through, and the image is written to only where the file has a
record already. -/
def Covered (m : Moment dev) (event : Call × ℕ) : Prop :=
  Whole event.2 ∧
    match m.process, event.1 with
    | .up _ (.writing offset source done _), .turns _ =>
      ∀ block ∈ blocksOf (offset.toNat + done) (source.length - done), block < blockCount dev →
        block ∈ recordedBlocks (m.file.getD [])
    | _, _ => True

variable {block n : ℕ} {began : ℕ → Octet} {cow cow' : Cow dev} {file : List Octet}
  {m m' : Moment dev} {host : Host} {task : Task}

theorem mem_blocksOf {offset count : ℕ} :
    block ∈ blocksOf offset count ↔ ∃ x, offset ≤ x ∧ x < offset + count ∧ page x = block := by
  simp [blocksOf, page, mem_range'_1, and_assoc]

section Encoded

variable {log : List BlockRecord}

theorem recordCount_encode (hlog : WellFormed dev log) :
    recordCount (encode dev.size log) = log.length :=
  records_encode dev.size hlog

theorem record_encode (hlog : WellFormed dev log) {i : ℕ} (hi : i < log.length) :
    recordIndex (encode dev.size log) i = log[i].1 ∧
      recordBlock (encode dev.size log) i = log[i].2 := by
  have hsplit : log = log.take i ++ log[i] :: log.drop (i + 1) := by
    rw [getElem_cons_drop, take_append_drop]
  have htake : (log.take i).length = i := length_take_of_le hi.le
  have hbefore : WellFormed dev (log.take i) :=
    fun record hrecord ↦ hlog record (mem_of_mem_take hrecord)
  obtain ⟨hblock, hlength⟩ := hlog log[i] (getElem_mem hi)
  have hindex := @recordIndex_encode dev dev.size (log.take i) (log.drop (i + 1)) log[i] hbefore
    (index_lt hblock)
  have hoctets := @recordBlock_encode dev dev.size (log.take i) (log.drop (i + 1)) log[i] hbefore
    hlength
  rw [← hsplit, htake] at hindex hoctets
  exact ⟨hindex, hoctets⟩

theorem mem_recordedBlocks_encode (hlog : WellFormed dev log) :
    block ∈ recordedBlocks (encode dev.size log) ↔ ∃ record ∈ log, record.1 = block := by
  rw [mem_recordedBlocks, recordCount_encode hlog]
  constructor
  · rintro ⟨i, hi, hindex⟩
    exact ⟨log[i], getElem_mem hi, (record_encode hlog hi).1.symm.trans hindex⟩
  · rintro ⟨record, hrecord, hindex⟩
    obtain ⟨i, hi, rfl⟩ := getElem_of_mem hrecord
    exact ⟨i, hi, (record_encode hlog hi).1.trans hindex⟩

theorem take_stream (hlog : WellFormed dev log) {tail : List Octet}
    (htail : tail.length < recordBytes) (hn : Whole n)
    (hle : n ≤ (encode dev.size log ++ tail).length) :
    ∃ k, (encode dev.size log ++ tail).take n = encode dev.size (log.take k) := by
  obtain ⟨hheader, hmod⟩ := hn
  obtain ⟨k, hk⟩ := Nat.dvd_of_mod_eq_zero hmod
  rw [length_append, length_encode dev.size hlog] at hle
  have hkeep : k ≤ log.length := by
    have hlt : recordBytes * k < recordBytes * (log.length + 1) := by
      rw [Nat.mul_succ, Nat.mul_comm recordBytes log.length]
      omega
    exact Nat.lt_succ_iff.1 (Nat.lt_of_mul_lt_mul_left hlt)
  have htaken : WellFormed dev (log.take k) :=
    fun record hrecord ↦ hlog record (mem_of_mem_take hrecord)
  have hlength : (encode dev.size (log.take k)).length = n := by
    rw [length_encode dev.size htaken, length_take_of_le hkeep, Nat.mul_comm, ← hk]
    omega
  refine ⟨k, ?_⟩
  have hsplit : encode dev.size log =
      encode dev.size (log.take k) ++ (log.drop k).flatMap recordOctets := by
    rw [encode, encode, append_assoc, ← flatMap_append, take_append_drop]
  rw [hsplit, append_assoc]
  exact take_left' hlength

end Encoded

/-- The records have the blocks as they were. -/
def Images (began : ℕ → Octet) (log : List BlockRecord) : Prop :=
  ∀ record ∈ log.map imageOf, ∀ x, page x = record.1 → record.2 x = began x

/-- The stream is a log and, once a save has failed, perhaps part of a record behind it. -/
def Streaming (began : ℕ → Octet) (cow : Cow dev) : Prop :=
  ∃ log tail, cow.overlay = encode dev.size log ++ tail ∧ tail.length < recordBytes ∧
    (cow.poisoned = false → tail = []) ∧
    Records began { cow with overlay := encode dev.size log } log

/-- The file is that of a log and has every block that has been overwritten. -/
structure Filed (dev : Device) (began : ℕ → Octet) (overwritten : List ℕ) (file : List Octet) :
    Prop where
  some : dev.size ≠ 0
  blocks : dev.size % blockBytes = 0
  logged : ∃ log, file = encode dev.size log ∧ WellFormed dev log ∧ Images began log
  covers : ∀ block ∈ overwritten, block ∈ recordedBlocks file

def Task.Ready (cow : Cow dev) : Task → Prop
  | .idle => True
  | .saving _ _ blocks => cow.poisoned = false ∧ ∀ block ∈ blocks, block < blockCount dev
  | .writing offset _ done _ => cow.poisoned = false ∧ (done = 0 ∨ offset.toNat + done ≤ dev.size)

/-- What holds at every moment of a covered run. -/
structure Guarded (m : Moment dev) : Prop where
  changed : ∀ x, dev.bytes m.process.under x ≠ m.began x → page x ∈ m.overwritten
  file : ∀ file, m.file = some file → Filed dev m.began m.overwritten file
  fresh : m.file = none → m.overwritten = []
  process : ∀ cow task, m.process = .up cow task → Streaming m.began cow ∧ task.Ready cow ∧
    ∃ file, m.file = some file ∧ file <+: cow.overlay

theorem Records.streaming {log : List BlockRecord} (h : Records began cow log) :
    Streaming began cow := by
  refine ⟨log, [], ?_, by decide, fun _ ↦ rfl, rfl, h.wellFormed, h.saved, h.undoes⟩
  rw [append_nil]
  exact h.overlay

theorem Streaming.records (h : Streaming began cow) (hpoisoned : cow.poisoned = false) :
    ∃ log, Records began cow log := by
  obtain ⟨log, tail, hoverlay, -, htail, hrecords⟩ := h
  rw [htail hpoisoned, append_nil] at hoverlay
  exact ⟨log, hoverlay, hrecords.wellFormed, hrecords.saved, hrecords.undoes⟩

theorem Streaming.under (h : Streaming began cow) {under : dev.State}
    (hbytes : dev.bytes under = dev.bytes cow.under) :
    Streaming began { cow with under := under } := by
  obtain ⟨log, tail, hoverlay, hshort, htail, hrecords⟩ := h
  have hundoes : Undoes page (log.map imageOf) began (dev.bytes under) := hbytes ▸ hrecords.undoes
  exact ⟨log, tail, hoverlay, hshort, htail, rfl, hrecords.wellFormed, hrecords.saved, hundoes⟩

theorem Records.poison {next : Cow dev} {log : List BlockRecord} {tail : List Octet}
    (h : Records began cow log) (hoverlay : next.overlay = cow.overlay ++ tail)
    (htail : tail.length < recordBytes) (hpoisoned : next.poisoned = true)
    (hsaved : next.saved = cow.saved) (hbytes : dev.bytes next.under = dev.bytes cow.under) :
    Streaming began next := by
  have hundoes : Undoes page (log.map imageOf) began (dev.bytes next.under) := hbytes ▸ h.undoes
  refine ⟨log, tail, by rw [hoverlay, h.overlay], htail, fun hnot ↦ ?_, rfl, h.wellFormed, ?_,
    hundoes⟩
  · rw [hpoisoned] at hnot
    cases hnot
  · show ∀ b, next.saved b = true ↔ _
    rw [hsaved]
    exact h.saved

theorem reach_some {file : Option (List Octet)} {stream reached : List Octet}
    (h : reach file stream n = some reached) :
    (file.getD []).length ≤ n ∧ n ≤ stream.length ∧ reached = stream.take n := by
  unfold reach at h
  split at h
  case isTrue hle => exact ⟨hle.1, hle.2, (Option.some.inj h).symm⟩
  case isFalse => cases h

theorem Streaming.filed (h : Streaming began cow) (hsome : dev.size ≠ 0)
    (hblocks : dev.size % blockBytes = 0) {file : Option (List Octet)}
    (hfile : ∀ old, file = some old → old <+: cow.overlay) {overwritten : List ℕ}
    (hcovers : ∀ block ∈ overwritten, block ∈ recordedBlocks (file.getD [])) (hn : Whole n)
    {reached : List Octet} (hreach : reach file cow.overlay n = some reached) :
    Filed dev began overwritten reached ∧ reached <+: cow.overlay := by
  obtain ⟨log, tail, hoverlay, hshort, -, hrecords⟩ := h
  obtain ⟨hlow, hhigh, rfl⟩ := reach_some hreach
  have hreached : cow.overlay.take n <+: cow.overlay := take_prefix ..
  refine ⟨⟨hsome, hblocks, ?_, fun block hblock ↦ ?_⟩, hreached⟩
  · rw [hoverlay] at hhigh
    obtain ⟨k, hk⟩ := take_stream hrecords.wellFormed hshort hn hhigh
    refine ⟨log.take k, hoverlay ▸ hk, ?_, ?_⟩
    · exact fun record hrecord ↦ hrecords.wellFormed record (mem_of_mem_take hrecord)
    · intro record hrecord
      rw [map_take] at hrecord
      exact hrecords.undoes.image record (mem_of_mem_take hrecord)
  · refine recordedBlocks_mono ?_ (hcovers block hblock)
    have hlength : (cow.overlay.take n).length = n := length_take_of_le hhigh
    cases file with
    | none => exact nil_prefix
    | some old =>
      apply prefix_of_prefix_length_le (hfile old rfl) hreached
      rw [hlength]
      exact hlow

theorem Guarded.recorded (h : Guarded m) (hfile : m.file = some file) :
    Recorded dev m.began (dev.bytes m.process.under) file := by
  obtain ⟨-, -, ⟨log, rfl, hlog, himages⟩, hcovers⟩ := h.file file hfile
  refine ⟨log, rfl, hlog, himages, fun x hx ↦ ?_⟩
  obtain ⟨record, hrecord, hindex⟩ :=
    (mem_recordedBlocks_encode hlog).1 (hcovers (page x) (h.changed x hx))
  exact ⟨imageOf record, mem_map_of_mem hrecord, hindex.symm⟩

theorem Filed.holds {overwritten : List ℕ} (h : Filed dev began overwritten file)
    (hblock : block ∈ overwritten) : Holds began file block := by
  obtain ⟨log, rfl, hlog, himages⟩ := h.logged
  obtain ⟨i, hi, hindex⟩ := mem_recordedBlocks.1 (h.covers block hblock)
  rw [recordCount_encode hlog] at hi
  have hrecord := record_encode hlog hi
  refine ⟨i, by rwa [recordCount_encode hlog], hindex, ?_⟩
  have hmem : log[i] ∈ log := getElem_mem hi
  have hnumber : log[i].1 = block := hrecord.1.symm.trans hindex
  rw [hrecord.2, ← window_imageOf (hlog _ hmem).2, hnumber]
  apply window_congr
  intro j hj
  apply himages _ (mem_map_of_mem hmem)
  show page (block * blockBytes + j) = log[i].1
  rw [hnumber]
  exact (page_eq_iff _ block).1 ⟨Nat.le_add_right .., Nat.add_lt_add_left hj _⟩

theorem Guarded.restorable (h : Guarded m) : m.Restorable := by
  unfold Moment.Restorable
  rcases hfile : m.file with _ | file
  · exact h.fresh hfile
  · have hfiled := h.file file hfile
    have hrecorded := h.recorded hfile
    refine ⟨fun host hhost ↦ ⟨?_, ?_⟩, fun block hblock ↦ hfiled.holds hblock⟩
    · obtain ⟨cow, left, hopen, -⟩ := @vmCowOpen_reliable dev host hhost hfiled.some hfiled.blocks
        m.began (m.process.under, some file) hrecorded
      exact ⟨cow, left, hopen⟩
    · have hreplays := @vmCowReplay_spec dev host m.began m.process.under file hrecorded
      exact ⟨hreplays.bytes, fun hdev ↦ hreplays.ends ⟨hdev, hhost⟩⟩

/-- Whether or not a save ends well, the stream goes on from what it was and the disk is the
same. -/
theorem saveBlock_streams {ok : Bool} (h : Streaming began cow) (hpoisoned : cow.poisoned = false)
    (hblock : block < blockCount dev) (hsave : saveBlock host cow block = (ok, cow')) :
    Streaming began cow' ∧ cow.overlay <+: cow'.overlay ∧
      dev.bytes cow'.under = dev.bytes cow.under ∧ (ok = true → cow'.poisoned = false) := by
  obtain ⟨log, hlog⟩ := h.records hpoisoned
  rcases saveBlock_cases hblock hsave with ⟨-, -, rfl⟩ |
    ⟨-, under, hbytes, ⟨rfl, tail, htail, rfl⟩ | ⟨rfl, scratch, -, -, rfl⟩⟩
  · exact ⟨h, prefix_rfl, rfl, fun _ ↦ hpoisoned⟩
  · exact ⟨hlog.poison rfl htail rfl rfl hbytes, prefix_append .., hbytes, nofun⟩
  · obtain ⟨log', hlog', -⟩ := saveBlock_spec hlog hblock hsave
    exact ⟨hlog'.streaming, prefix_append .., hbytes, fun _ ↦ hpoisoned⟩

/-- What a turn leaves: the stream has gone on, and the disk differs in the blocks it names. -/
structure Turned (began : ℕ → Octet) (cow cow' : Cow dev) (task : Task) (blocks : List ℕ) :
    Prop where
  streaming : Streaming began cow'
  appended : cow.overlay <+: cow'.overlay
  ready : task.Ready cow'
  changed : ∀ x, dev.bytes cow'.under x ≠ dev.bytes cow.under x → page x ∈ blocks

theorem turn_spec {task' : Task} {blocks recorded : List ℕ} (h : Streaming began cow)
    (hready : task.Ready cow) (hrecorded : ∀ log, Records began cow log → ∀ block ∈ recorded,
      ∃ record ∈ log, record.1 = block)
    (hcovers : ∀ offset source done stalls, task = .writing offset source done stalls →
      ∀ block ∈ blocksOf (offset.toNat + done) (source.length - done), block < blockCount dev →
        block ∈ recorded) (hblocks : dev.size % blockBytes = 0)
    (hturn : turn host cow task = (cow', task', blocks)) :
    Turned began cow cow' task' blocks ∧ ∀ block ∈ blocks, block ∈ recorded := by
  cases task with
  | idle =>
    cases hturn
    exact ⟨⟨h, prefix_rfl, trivial, fun _ hx ↦ absurd rfl hx⟩, fun _ hb ↦ absurd hb not_mem_nil⟩
  | saving offset source todo =>
    obtain ⟨hpoisoned, htodo⟩ := hready
    cases todo with
    | nil =>
      cases hturn
      exact ⟨⟨h, prefix_rfl, ⟨hpoisoned, Or.inl rfl⟩, fun _ hx ↦ absurd rfl hx⟩,
        fun _ hb ↦ absurd hb not_mem_nil⟩
    | cons block rest =>
      rcases hsave : saveBlock host cow block with ⟨ok, next⟩
      obtain ⟨hstreaming, happended, hbytes, hok⟩ :=
        saveBlock_streams h hpoisoned (htodo block mem_cons_self) hsave
      have hsame : ∀ x, dev.bytes next.under x ≠ dev.bytes cow.under x → page x ∈ ([] : List ℕ) :=
        fun x hx ↦ absurd (congrFun hbytes x) hx
      simp only [turn, hsave] at hturn
      cases ok with
      | false =>
        cases hturn
        exact ⟨⟨hstreaming, happended, trivial, hsame⟩, fun _ hb ↦ absurd hb not_mem_nil⟩
      | true =>
        cases hturn
        have hrest : ∀ other ∈ rest, other < blockCount dev :=
          fun other hother ↦ htodo other (mem_cons_of_mem _ hother)
        exact ⟨⟨hstreaming, happended, ⟨hok rfl, hrest⟩, hsame⟩,
          fun _ hb ↦ absurd hb not_mem_nil⟩
  | writing offset source done stalls =>
    obtain ⟨hpoisoned, hdone⟩ := hready
    have hsize := dev.size_lt
    have hoffset := offset.isLt
    have hstart : (offset.toNat + done) % 2 ^ 64 = offset.toNat + done := by
      apply Nat.mod_eq_of_lt
      rcases hdone with rfl | hinside
      · exact hoffset
      · omega
    rw [turn] at hturn
    split at hturn
    case isTrue =>
      cases hturn
      exact ⟨⟨h, prefix_rfl, trivial, fun _ hx ↦ absurd rfl hx⟩,
        fun _ hb ↦ absurd hb not_mem_nil⟩
    simp only [hstart] at hturn
    set answer := dev.writeAt cow.under (offset.toNat + done) (source.drop done) with hanswer
    have hbytes : dev.bytes answer.2.2 = overwrite (dev.bytes cow.under) (offset.toNat + done)
        ((source.drop done).take answer.2.1) := dev.write_bytes ..
    have hidle : answer.2.1 = 0 → dev.bytes answer.2.2 = dev.bytes cow.under := dev.write_none
    have hnothing : answer.2.1 = 0 → ∀ x, dev.bytes answer.2.2 x ≠ dev.bytes cow.under x →
        page x ∈ ([] : List ℕ) := fun hnone x hx ↦ absurd (congrFun (hidle hnone) x) hx
    split at hturn
    case isTrue herror =>
      cases hturn
      have hnone : answer.2.1 = 0 := dev.write_idle _ _ _ (by rw [← hanswer, herror]; decide)
      exact ⟨⟨h.under (hidle hnone), prefix_rfl, trivial, hnothing hnone⟩,
        fun _ hb ↦ absurd hb not_mem_nil⟩
    split at hturn
    case isTrue hnone =>
      split at hturn
      · cases hturn
        exact ⟨⟨h.under (hidle hnone), prefix_rfl, trivial, hnothing hnone⟩,
          fun _ hb ↦ absurd hb not_mem_nil⟩
      · cases hturn
        exact ⟨⟨h.under (hidle hnone), prefix_rfl, ⟨hpoisoned, hdone⟩, hnothing hnone⟩,
          fun _ hb ↦ absurd hb not_mem_nil⟩
    case isFalse hsome =>
      cases hturn
      have hinside : offset.toNat + done + answer.2.1 ≤ dev.size := dev.write_inside _ _ _ hsome
      have htaken : answer.2.1 ≤ (source.drop done).length := dev.write_le ..
      rw [length_drop] at htaken
      have hhit : ∀ block ∈ blocksOf (offset.toNat + done) answer.2.1, block ∈ recorded := by
        intro block hblock
        obtain ⟨x, hlow, hhigh, rfl⟩ := mem_blocksOf.1 hblock
        refine hcovers offset source done stalls rfl _ (mem_blocksOf.2 ⟨x, hlow, by omega, rfl⟩) ?_
        rw [page, Nat.div_lt_iff_lt_mul (by decide), blockCount_mul hblocks]
        omega
      have hchanged : ∀ x, dev.bytes answer.2.2 x ≠ dev.bytes cow.under x →
          page x ∈ blocksOf (offset.toNat + done) answer.2.1 := by
        intro x hx
        rw [hbytes] at hx
        by_contra hout
        refine hx (overwrite_of_not_mem fun hspan ↦ hout (mem_blocksOf.2 ⟨x, hspan.1, ?_, rfl⟩))
        have hhigh := hspan.2
        rw [length_take, length_drop] at hhigh
        omega
      obtain ⟨log, hlog⟩ := h.records hpoisoned
      refine ⟨⟨?_, prefix_rfl, ⟨hpoisoned, Or.inr ?_⟩, hchanged⟩, hhit⟩
      · have hundoes : Undoes page (log.map imageOf) began (dev.bytes answer.2.2) := by
          refine hlog.undoes.write fun x hx ↦ ?_
          obtain ⟨record, hrecord, hindex⟩ := hrecorded log hlog _ (hhit _ (hchanged x hx))
          exact ⟨imageOf record, mem_map_of_mem hrecord, hindex.symm⟩
        exact Records.streaming ⟨hlog.overlay, hlog.wellFormed, hlog.saved, hundoes⟩
      · omega

theorem goOn_some {process : Process dev} {stream : List Octet}
    (h : m.goOn process stream n = some m') : ∃ file, reach m.file stream n = some file ∧
      m' = { m with process := process, file := some file } := by
  obtain ⟨file, hfile, hm'⟩ := map_eq_some_iff.1 h
  exact ⟨file, hfile, hm'.symm⟩

theorem guarded_goOn {m m' : Moment dev} {cow : Cow dev} {process : Process dev} {n : ℕ}
    (hsome : dev.size ≠ 0) (hblocks : dev.size % blockBytes = 0)
    (hstreaming : Streaming m.began cow) (hfile : ∀ old, m.file = some old → old <+: cow.overlay)
    (hchanged : ∀ x, dev.bytes cow.under x ≠ m.began x → page x ∈ m.overwritten)
    (hcovers : ∀ block ∈ m.overwritten, block ∈ recordedBlocks (m.file.getD []))
    (hprocess : (∃ task, process = .up cow task ∧ task.Ready cow) ∨ process = .down cow.under)
    (hn : Whole n) (hgo : m.goOn process cow.overlay n = some m') : Guarded m' := by
  obtain ⟨file, hreach, rfl⟩ := goOn_some hgo
  obtain ⟨hfiled, happended⟩ := hstreaming.filed hsome hblocks hfile hcovers hn hreach
  have hunder : process.under = cow.under := by
    rcases hprocess with ⟨task, rfl, -⟩ | rfl <;> rfl
  constructor
  case changed =>
    intro x hx
    rw [hunder] at hx
    exact hchanged x hx
  case file =>
    rintro _ ⟨⟩
    exact hfiled
  case fresh =>
    intro h
    cases h
  case process =>
    rintro cow' task hup
    rcases hprocess with ⟨task', rfl, hready⟩ | rfl
    · cases hup
      exact ⟨hstreaming, hready, file, rfl, happended⟩
    · cases hup

theorem Guarded.goesOn (h : Guarded m) (hup : m.process = .up cow task) {process : Process dev}
    (hstreaming : Streaming m.began cow') (happended : cow.overlay <+: cow'.overlay)
    (hbytes : dev.bytes cow'.under = dev.bytes cow.under)
    (hprocess : (∃ task, process = .up cow' task ∧ task.Ready cow') ∨ process = .down cow'.under)
    (hn : Whole n) (hgo : m.goOn process cow'.overlay n = some m') : Guarded m' := by
  obtain ⟨-, -, file, hfile, hbegins⟩ := h.process cow task hup
  have hfiled := h.file file hfile
  refine guarded_goOn hfiled.some hfiled.blocks hstreaming ?_ ?_ ?_ hprocess hn hgo
  · intro old hold
    obtain rfl := Option.some.inj (hfile.symm.trans hold)
    exact hbegins.trans happended
  · intro x hx
    rw [hbytes] at hx
    apply h.changed
    rw [hup]
    exact hx
  · rw [hfile]
    exact hfiled.covers

theorem guarded_opens (h : Guarded m) {under : dev.State} (hdown : m.process = .down under)
    (hn : Whole n) (hmove : move m (.opens host) n = some m') : Guarded m' := by
  have hchanged : ∀ x, dev.bytes under x ≠ m.began x → page x ∈ m.overwritten := by
    have hchanged := h.changed
    rw [hdown] at hchanged
    exact hchanged
  unfold move at hmove
  simp only [hdown] at hmove
  rcases hopen : vmCowOpen host dev under m.file with ⟨status | cow, left⟩
  · rw [hopen] at hmove
    cases left with
    | none =>
      cases hmove
      exact h
    | some left =>
      simp only at hmove
      obtain ⟨file, hreach, rfl⟩ := goOn_some hmove
      obtain ⟨hlow, hhigh, hreached⟩ := reach_some hreach
      have hfiled : Filed dev m.began m.overwritten file := by
        rcases vmCowOpen_left hopen with hfile | ⟨hnone, hpart, hsome, hblocks⟩
        · have hall : file = left := by
            rw [hfile, getD_some] at hlow
            rw [hreached, take_of_length_le hlow]
          exact hall ▸ h.file left hfile
        · have hlength := hpart.length_le
          have hheader : n = headerBytes := by
            rw [length_header] at hlength
            exact le_antisymm (hhigh.trans hlength) hn.1
          have hall : file = encode dev.size [] := by
            rw [encode, flatMap_nil, append_nil, hreached]
            have hwhole : left = header dev.size := by
              apply hpart.eq_of_length
              rw [length_header] at hlength ⊢
              omega
            rw [hwhole, hheader]
            rfl
          refine ⟨hsome, hblocks, ⟨[], hall, fun _ hr ↦ absurd hr not_mem_nil,
            fun _ hr ↦ absurd hr not_mem_nil⟩, ?_⟩
          rw [h.fresh hnone]
          exact fun _ hb ↦ absurd hb not_mem_nil
      constructor
      case changed => exact hchanged
      case file =>
        rintro _ ⟨⟩
        exact hfiled
      case fresh =>
        intro hnone
        cases hnone
      case process =>
        intro cow task hup
        cases hup
  · rw [hopen] at hmove
    simp only at hmove
    obtain ⟨hsome, hblocks⟩ := vmCowOpen_size hopen
    rcases hfile : m.file with _ | file
    · rw [hfile] at hopen
      obtain ⟨rfl, hrecords⟩ := vmCowOpen_fresh hopen
      have hempty := h.fresh hfile
      -- nothing has been overwritten yet, so the image is what it was
      have hbegan : m.began = dev.bytes cow.under := by
        funext x
        by_contra hne
        have hmem := hchanged x (Ne.symm hne)
        rw [hempty] at hmem
        exact not_mem_nil hmem
      refine guarded_goOn hsome hblocks (hbegan ▸ hrecords.streaming) ?_ hchanged ?_
        (Or.inl ⟨.idle, rfl, trivial⟩) hn hmove
      · intro old hold
        rw [hfile] at hold
        cases hold
      · rw [hempty]
        exact fun _ hb ↦ absurd hb not_mem_nil
    · have hrecorded := h.recorded hfile
      rw [hdown] at hrecorded
      rw [hfile] at hopen
      have hoverlay := (vmCowOpen_indexed hopen).2.2.2.2 file rfl
      obtain ⟨rfl, log, hrecords⟩ := vmCowOpen_again hrecorded hopen
      refine guarded_goOn hsome hblocks hrecords.streaming ?_ hchanged ?_
        (Or.inl ⟨.idle, rfl, trivial⟩) hn hmove
      · intro old hold
        obtain rfl := Option.some.inj (hfile.symm.trans hold)
        rw [hoverlay]
      · rw [hfile]
        exact (h.file file hfile).covers

theorem guarded_turns (h : Guarded m) (hup : m.process = .up cow task)
    (hcovered : Covered m (.turns host, n)) (hmove : move m (.turns host) n = some m') :
    Guarded m' := by
  obtain ⟨hstreaming, hready, file, hfile, hbegins⟩ := h.process cow task hup
  have hfiled := h.file file hfile
  have hrecorded : ∀ log, Records m.began cow log → ∀ block ∈ recordedBlocks file,
      ∃ record ∈ log, record.1 = block := by
    intro log hlog block hblock
    rw [← mem_recordedBlocks_encode hlog.wellFormed, ← hlog.overlay]
    exact recordedBlocks_mono hbegins hblock
  have hcovers : ∀ offset source done stalls, task = .writing offset source done stalls →
      ∀ block ∈ blocksOf (offset.toNat + done) (source.length - done), block < blockCount dev →
        block ∈ recordedBlocks file := by
    rintro offset source done stalls rfl
    have hblocks := hcovered.2
    simp only [hup, hfile, getD_some] at hblocks
    exact hblocks
  rcases hturn : turn host cow task with ⟨cow', task', blocks⟩
  obtain ⟨hturned, hhit⟩ := turn_spec hstreaming hready hrecorded hcovers hfiled.blocks hturn
  unfold move at hmove
  simp only [hup, hturn] at hmove
  refine @guarded_goOn dev { m with overwritten := m.overwritten ++ blocks } m' cow' _ n
    hfiled.some hfiled.blocks hturned.streaming ?_ ?_ ?_
    (Or.inl ⟨task', rfl, hturned.ready⟩) hcovered.1 hmove
  · intro old hold
    obtain rfl := Option.some.inj (hfile.symm.trans hold)
    exact hbegins.trans hturned.appended
  · intro x hx
    rw [mem_append]
    by_cases hsame : dev.bytes cow'.under x = dev.bytes cow.under x
    · left
      apply h.changed
      rw [hup]
      exact hsame ▸ hx
    · right
      exact hturned.changed x hsame
  · intro block hblock
    rw [hfile]
    rcases mem_append.1 hblock with hold | hnew
    · exact hfiled.covers block hold
    · exact hhit block hnew

theorem guarded_dies (h : Guarded m) (hup : m.process = .up cow task) :
    Guarded { m with process := .down cow.under } := by
  constructor
  case changed =>
    have hchanged := h.changed
    rw [hup] at hchanged
    exact hchanged
  case file => exact h.file
  case fresh => exact h.fresh
  case process =>
    intro cow task hdown
    cases hdown

theorem enterWrite_ready {offset : DWord} {source : List Octet} :
    (enterWrite cow offset source).Ready cow := by
  unfold enterWrite
  split
  · trivial
  split
  · trivial
  simp only
  split
  · trivial
  case isFalse hpoisoned hsome hlast =>
    refine ⟨by simpa using hpoisoned, fun block hblock ↦ ?_⟩
    obtain ⟨hlow, hhigh⟩ := mem_range'_1.1 hblock
    omega

theorem guarded_step {event : Call × ℕ} (h : Guarded m) (hcovered : Covered m event) :
    Guarded (step m event) := by
  obtain ⟨call, n⟩ := event
  rw [step]
  rcases hmove : move m call n with _ | m'
  · exact h
  rw [getD_some]
  have hn := hcovered.1
  cases call with
  | opens host =>
    rcases hdown : m.process with under | ⟨cow, task⟩
    · exact guarded_opens h hdown hn hmove
    · simp [move, hdown] at hmove
  | turns host =>
    rcases hup : m.process with under | ⟨cow, task⟩
    · simp [move, hup] at hmove
    · exact guarded_turns h hup hcovered hmove
  | dies =>
    rcases hup : m.process with under | ⟨cow, task⟩
    · simp [move, hup] at hmove
    · simp only [move, hup] at hmove
      cases hmove
      exact guarded_dies h hup
  | drains =>
    rcases hup : m.process with under | ⟨cow, task⟩
    · simp [move, hup] at hmove
    · obtain ⟨hstreaming, hready, -⟩ := h.process cow task hup
      simp only [move, hup] at hmove
      exact h.goesOn hup hstreaming prefix_rfl rfl (Or.inl ⟨task, rfl, hready⟩) hn hmove
  | reads offset requested =>
    rcases hup : m.process with under | ⟨cow, _ | _ | _⟩
    case up.idle =>
      obtain ⟨hstreaming, -, -⟩ := h.process cow .idle hup
      have hbytes := dev.read_keeps cow.under offset.toNat requested
      simp only [move, hup, cowReadAt] at hmove
      exact h.goesOn hup (hstreaming.under hbytes) prefix_rfl hbytes
        (Or.inl ⟨.idle, rfl, trivial⟩) hn hmove
    all_goals simp [move, hup] at hmove
  | writes offset source =>
    rcases hup : m.process with under | ⟨cow, _ | _ | _⟩
    case up.idle =>
      obtain ⟨hstreaming, -, -⟩ := h.process cow .idle hup
      simp only [move, hup] at hmove
      exact h.goesOn hup hstreaming prefix_rfl rfl
        (Or.inl ⟨_, rfl, enterWrite_ready⟩) hn hmove
    all_goals simp [move, hup] at hmove
  | flushes host =>
    rcases hup : m.process with under | ⟨cow, _ | _ | _⟩
    case up.idle =>
      obtain ⟨hstreaming, -, -⟩ := h.process cow .idle hup
      have hbytes := dev.flush_keeps cow.under
      simp only [move, hup] at hmove
      split at hmove
      · cases hmove
      simp only [cowFlush] at hmove
      split at hmove
      · exact h.goesOn hup hstreaming prefix_rfl rfl (Or.inl ⟨.idle, rfl, trivial⟩) hn hmove
      · exact h.goesOn hup (hstreaming.under hbytes) prefix_rfl hbytes
          (Or.inl ⟨.idle, rfl, trivial⟩) hn hmove
    all_goals simp [move, hup] at hmove
  | closes host =>
    rcases hup : m.process with under | ⟨cow, _ | _ | _⟩
    case up.idle =>
      obtain ⟨hstreaming, -, -⟩ := h.process cow .idle hup
      simp only [move, hup] at hmove
      split at hmove
      · cases hmove
      exact h.goesOn hup hstreaming prefix_rfl rfl (Or.inr rfl) hn hmove
    all_goals simp [move, hup] at hmove

theorem guarded_first (under : dev.State) : Guarded (Moment.first under) where
  changed _ hx := absurd rfl hx
  file _ h := nomatch h
  fresh _ := rfl
  process _ _ h := nomatch h

/-- The disk, the stream and the place in the write after `k` turns. -/
def turns (host : Host) (cow : Cow dev) (task : Task) : ℕ → Cow dev × Task
  | 0 => (cow, task)
  | k + 1 => turns host (turn host cow task).1 (turn host cow task).2.1 k

/-- A small disk: two blocks. -/
def smallDisk : Device := ramDisk 8192 twoBlocks_lt

def blank : smallDisk.State := fun _ ↦ (0 : Octet)

def emptyCow : Cow smallDisk := ⟨blank, encode 8192 [], 32, fun _ ↦ false, false⟩

def firstRecord : BlockRecord := (0, List.replicate blockBytes 0)

def savedCow : Cow smallDisk :=
  ⟨blank, encode 8192 [firstRecord], 4136, bitSet (fun _ ↦ false) 0, false⟩

/-- A write of an octet to a fresh overlay, up to the moment the image has it; the header has
reached the file, and `n` octets once the block has been saved. -/
def oneWrite (n : ℕ) : List (Call × ℕ) :=
  [(.opens {}, 32), (.writes 0 [1], 32), (.turns {}, n), (.turns {}, n), (.turns {}, n)]

theorem readExact_blank :
    readExact smallDisk blank 0 blockBytes [] 0 = (some (List.replicate blockBytes 0), blank) := by
  have hwindow : window (smallDisk.bytes blank) 0 blockBytes = List.replicate blockBytes 0 := by
    show (List.range blockBytes).map (fun _ ↦ (0 : Octet)) = _
    rw [map_const', length_range]
  have hlength : (List.replicate blockBytes (0 : Octet)).length = blockBytes := length_replicate
  have hread : smallDisk.readAt blank ((0 + 0) % 2 ^ 64) (blockBytes - 0) =
      (.ok, List.replicate blockBytes 0, blank) := by
    rw [← hwindow]
    rfl
  rw [readExact, if_neg (by decide)]
  simp only [length_nil, hread, hlength]
  rw [if_neg (by decide), if_neg (by decide), nil_append, readExact, if_pos hlength.ge]

theorem turn_saving : turn {} emptyCow (.saving 0 [1] [0]) = (savedCow, .saving 0 [1] [], []) := by
  have hrecord : (recordOctets firstRecord).length = recordBytes :=
    length_recordOctets length_replicate
  have hsave : saveBlock {} emptyCow 0 = (true, savedCow) := by
    unfold saveBlock
    rw [if_neg (by decide)]
    have hread : readExact smallDisk emptyCow.under (0 * blockBytes) blockBytes [] 0 = _ :=
      readExact_blank
    simp only [hread]
    have htake : (LittleEndian.put indexBytes 0 ++ List.replicate blockBytes 0).take
        (({} : Host).accepts emptyCow.overlay.length) = recordOctets firstRecord := by
      apply take_of_length_le
      exact hrecord.le
    rw [htake, if_neg (not_not.2 hrecord)]
    have hoverlay : emptyCow.overlay ++ recordOctets firstRecord = encode 8192 [firstRecord] := by
      rw [show emptyCow.overlay = encode 8192 [] from rfl, ← encode_append, nil_append]
    rw [hoverlay]
    rfl
  simp only [turn, hsave]

theorem reach_saved (hfile : file <+: encode 8192 [firstRecord]) (hlength : file.length = n)
    {old : List Octet} (hold : old.length ≤ n) :
    reach (some old) (encode 8192 [firstRecord]) n = some file := by
  unfold reach
  rw [getD_some, if_pos ⟨hold, hlength ▸ hfile.length_le⟩, ← hlength,
    prefix_iff_eq_take.1 hfile |>.symm]

theorem turns_saved {old : List Octet}
    (hreach : reach (some old) (encode 8192 [firstRecord]) n = some file) :
    step ⟨.up emptyCow (.saving 0 [1] [0]), some old, blank, []⟩ (.turns {}, n) =
        ⟨.up savedCow (.saving 0 [1] []), some file, blank, []⟩ ∧
      step ⟨.up savedCow (.saving 0 [1] []), some old, blank, []⟩ (.turns {}, n) =
        ⟨.up savedCow (.writing 0 [1] 0 0), some file, blank, []⟩ ∧
      step ⟨.up savedCow (.writing 0 [1] 0 0), some old, blank, []⟩ (.turns {}, n) =
        ⟨.up { savedCow with under := overwrite blank 0 [1] } (.writing 0 [1] 1 0), some file, blank,
          [0]⟩ := by
  have hwrite : turn {} savedCow (.writing 0 [1] 0 0) =
      ({ savedCow with under := overwrite blank 0 [1] }, .writing 0 [1] 1 0, [0]) := by
    rfl
  have hoverlay : savedCow.overlay = encode 8192 [firstRecord] := rfl
  refine ⟨?_, ?_, ?_⟩
  · simp only [step, move, turn_saving, Moment.goOn, hoverlay, hreach, map_some,
      getD_some, append_nil]
  · simp only [step, move, turn, Moment.goOn, hoverlay, hreach, map_some, getD_some, append_nil]
  · simp only [step, move, hwrite, Moment.goOn, hoverlay, hreach, map_some, getD_some, nil_append]

theorem step_opens : step (Moment.first blank) (.opens {}, 32) =
    ⟨.up emptyCow .idle, some (header 8192), blank, []⟩ := by
  rfl

theorem step_writes : step ⟨.up emptyCow .idle, some (header 8192), blank, []⟩ (.writes 0 [1], 32) =
    ⟨.up emptyCow (.saving 0 [1] [0]), some (header 8192), blank, []⟩ := by
  rfl

theorem run_oneWrite {n : ℕ} {file : List Octet} (hfile : file <+: encode 8192 [firstRecord])
    (hlength : file.length = n) (hheader : headerBytes ≤ n) :
    Run.run step (Moment.first blank) (oneWrite n) =
      ⟨.up { savedCow with under := overwrite blank 0 [1] } (.writing 0 [1] 1 0), some file, blank,
        [0]⟩ := by
  have hfirst := turns_saved (reach_saved hfile hlength ((length_header 8192).trans_le hheader))
  have hagain := turns_saved (reach_saved hfile hlength hlength.le)
  simp only [oneWrite, Run.run_cons, Run.run_nil]
  rw [step_opens, step_writes, hfirst.1, hagain.2.1, hagain.2.2]

end S5LBox.Block
