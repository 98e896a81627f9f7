import S5LBox.Block.Cow
import S5LBox.Library.UndoLog

/-!
# What an overlay records

The exact transfers, the octets of an overlay as a header and a list of records, and the invariant
of a session: the records are an undo log from the disk back to what it was when the overlay was
begun, and the bitmap names the recorded blocks.
-/

namespace S5LBox.Block

open List Span UndoLog Nat

variable {dev : Device}

theorem readExact_spec {s : dev.State} {offset want : ℕ} {done : List Octet} {stalls : ℕ}
    (hdone : done = window (dev.bytes s) offset done.length) (hle : done.length ≤ want)
    (hfit : offset + want < 2 ^ 64) :
    dev.bytes (readExact dev s offset want done stalls).2 = dev.bytes s ∧
      ∀ data, (readExact dev s offset want done stalls).1 = some data →
        data = window (dev.bytes s) offset want := by
  fun_induction readExact dev s offset want done stalls with
  | case1 s done stalls hwant =>
    refine ⟨rfl, fun data hdata ↦ ?_⟩
    obtain rfl := Option.some.inj hdata
    have hlength : done.length = want := le_antisymm hle hwant
    rw [hlength] at hdone
    exact hdone
  | case2 s done stalls hwant answer herror =>
    exact ⟨dev.read_keeps .., fun _ h ↦ by cases h⟩
  | case3 s done stalls hwant answer herror hnone hstalled =>
    exact ⟨dev.read_keeps .., fun _ h ↦ by cases h⟩
  | case4 s done stalls hwant answer herror hnone hstalled ih =>
    have hkeeps : dev.bytes answer.2.2 = dev.bytes s := dev.read_keeps ..
    rw [hkeeps] at ih
    exact ih hdone hle
  | case5 s done stalls hwant answer herror hsome ih =>
    have hkeeps : dev.bytes answer.2.2 = dev.bytes s := dev.read_keeps ..
    have hat : (offset + done.length) % 2 ^ 64 = offset + done.length := mod_eq_of_lt (by omega)
    have hdata : answer.2.1 =
        window (dev.bytes s) ((offset + done.length) % 2 ^ 64) answer.2.1.length :=
      dev.read_data ..
    have hshort : answer.2.1.length ≤ want - done.length := dev.read_le ..
    rw [hat] at hdata
    rw [hkeeps] at ih
    refine ih ?_ (by rw [length_append]; omega)
    rw [length_append, window_append, ← hdone, ← hdata]

/-- A write reports as many octets as it has laid over the disk, all of them if it ends well, and
every octet it has written lies inside. -/
theorem writeExact_spec {s : dev.State} {offset : ℕ} {source : List Octet} {done stalls : ℕ}
    (hle : done ≤ source.length) (hfit : offset + done < 2 ^ 64) :
    let result := writeExact dev s offset source done stalls
    (done ≤ result.2.1 ∧ result.2.1 ≤ source.length) ∧
      dev.bytes result.2.2 = overwrite (dev.bytes s) (offset + done)
        ((source.drop done).take (result.2.1 - done)) ∧
      (result.2.1 ≠ done → offset + result.2.1 ≤ dev.size) ∧
      (result.1 = true → result.2.1 = source.length) := by
  fun_induction writeExact dev s offset source done stalls with
  | case1 s done stalls hall =>
    refine ⟨⟨le_rfl, hle⟩, ?_, fun h ↦ absurd rfl h, fun _ ↦ le_antisymm hle hall⟩
    rw [Nat.sub_self, take_zero, overwrite_nil]
  | case2 s done stalls hall answer herror =>
    have hnone : answer.2.1 = 0 := dev.write_idle _ _ _ (by rw [herror]; decide)
    refine ⟨⟨le_rfl, hle⟩, ?_, fun h ↦ absurd rfl h, fun h ↦ by cases h⟩
    rw [Nat.sub_self, take_zero, overwrite_nil]
    exact dev.write_none hnone
  | case3 s done stalls hall answer herror hnone hstalled =>
    refine ⟨⟨le_rfl, hle⟩, ?_, fun h ↦ absurd rfl h, fun h ↦ by cases h⟩
    rw [Nat.sub_self, take_zero, overwrite_nil]
    exact dev.write_none hnone
  | case4 s done stalls hall answer herror hnone hstalled ih =>
    rw [dev.write_none hnone] at ih
    exact ih hle hfit
  | case5 s done stalls hall answer herror hsome ih =>
    have hat : (offset + done) % 2 ^ 64 = offset + done := mod_eq_of_lt hfit
    have hwritten : dev.bytes answer.2.2 = overwrite (dev.bytes s) ((offset + done) % 2 ^ 64)
        ((source.drop done).take answer.2.1) := dev.write_bytes ..
    have hshort : answer.2.1 ≤ (source.drop done).length := dev.write_le ..
    have hinside : (offset + done) % 2 ^ 64 + answer.2.1 ≤ dev.size := dev.write_inside _ _ _ hsome
    have hsize := dev.size_lt
    rw [hat] at hwritten hinside
    rw [length_drop] at hshort
    obtain ⟨hbounds, hbytes, hend, hok⟩ := ih (by omega) (by omega)
    set result := writeExact dev answer.2.2 offset source (done + answer.2.1) 0
    refine ⟨⟨by omega, hbounds.2⟩, ?_, fun _ ↦ ?_, hok⟩
    · rw [hbytes, hwritten, overwrite_take _ _ (by omega) hbounds.1]
    · by_cases hmore : result.2.1 = done + answer.2.1
      · omega
      · exact hend hmore

theorem readExact_reliable (hdev : dev.Reliable) {s : dev.State} {offset want : ℕ}
    {done : List Octet} {stalls : ℕ} (hle : done.length ≤ want) (hfit : offset + want ≤ dev.size) :
    (readExact dev s offset want done stalls).1.isSome = true := by
  have hsize := dev.size_lt
  fun_induction readExact dev s offset want done stalls with
  | case1 s done stalls hwant => rfl
  | case2 s done stalls hwant answer herror | case3 s done stalls hwant answer herror hnone hstalled
  | case4 s done stalls hwant answer herror hnone hstalled ih =>
    have hat : (offset + done.length) % 2 ^ 64 = offset + done.length := mod_eq_of_lt (by omega)
    have hread := hdev.read s ((offset + done.length) % 2 ^ 64) (want - done.length) (by omega)
      (by omega)
    first
      | exact absurd (hread.1.symm.trans herror) (by decide)
      | exact absurd (length_eq_zero_iff.1 hnone) hread.2
  | case5 s done stalls hwant answer herror hsome ih =>
    have hshort : answer.2.1.length ≤ want - done.length := dev.read_le ..
    apply ih
    rw [length_append]
    omega

theorem writeExact_reliable (hdev : dev.Reliable) {s : dev.State} {offset : ℕ}
    {source : List Octet} {done stalls : ℕ} (hle : done ≤ source.length)
    (hfit : offset + source.length ≤ dev.size) :
    (writeExact dev s offset source done stalls).1 = true := by
  have hsize := dev.size_lt
  fun_induction writeExact dev s offset source done stalls with
  | case1 s done stalls hall => rfl
  | case2 s done stalls hall answer herror | case3 s done stalls hall answer herror hnone hstalled
  | case4 s done stalls hall answer herror hnone hstalled ih =>
    have hat : (offset + done) % 2 ^ 64 = offset + done := mod_eq_of_lt (by omega)
    have hsome : source.drop done ≠ [] := by
      rw [Ne, drop_eq_nil_iff]
      omega
    have hwrite := hdev.write s ((offset + done) % 2 ^ 64) (source.drop done) hsome
      (by rw [length_drop]; omega)
    first
      | exact absurd (hwrite.1.symm.trans herror) (by decide)
      | exact absurd hnone hwrite.2
  | case5 s done stalls hall answer herror hsome ih =>
    have hshort : answer.2.1 ≤ (source.drop done).length := dev.write_le ..
    rw [length_drop] at hshort
    exact ih (by omega)

/-- A block and the octets it had. -/
abbrev BlockRecord := ℕ × List Octet

def recordOctets (record : BlockRecord) : List Octet :=
  LittleEndian.put indexBytes record.1 ++ record.2

/-- The overlay of a disk that holds the records of a log. -/
def encode (size : ℕ) (log : List BlockRecord) : List Octet :=
  header size ++ log.flatMap recordOctets

/-- The records of a log are whole blocks of the disk. -/
def WellFormed (dev : Device) (log : List BlockRecord) : Prop :=
  ∀ record ∈ log, record.1 < blockCount dev ∧ record.2.length = blockBytes

theorem length_header (size : ℕ) : (header size).length = headerBytes := rfl

theorem length_recordOctets {record : BlockRecord} (h : record.2.length = blockBytes) :
    (recordOctets record).length = recordBytes := by
  rw [recordOctets, length_append, LittleEndian.length_put, h]
  rfl

variable {log : List BlockRecord} {b : ℕ} {start : ℕ → Octet} {cow cow' : Cow dev}

theorem length_flatMap_recordOctets (hlog : WellFormed dev log) :
    (log.flatMap recordOctets).length = log.length * recordBytes := by
  induction log with
  | nil => simp
  | cons record rest ih =>
    have hrest : WellFormed dev rest := fun old hold ↦ hlog old (mem_cons_of_mem _ hold)
    rw [flatMap_cons, length_append, ih hrest,
      length_recordOctets (hlog record mem_cons_self).2, length_cons]
    ring

theorem formatOk_encode (size : ℕ) (log : List BlockRecord) :
    formatOk (encode size log) = true := by
  have hlength : headerBytes ≤ (encode size log).length := by
    rw [encode, length_append, length_header]
    exact Nat.le_add_right ..
  have hmagic : (encode size log).take magic.length = magic := rfl
  have hversion : getLe 4 (encode size log) 12 = version := rfl
  have hblock : getLe 4 (encode size log) 16 = blockBytes := rfl
  simp [formatOk, hlength, hmagic, hversion, hblock]

theorem getLe_encode {size : ℕ} (hsize : size < 2 ^ 64) (log : List BlockRecord) :
    getLe 8 (encode size log) 20 = size := by
  have hoctets : ((encode size log).drop 20).take 8 = LittleEndian.put 8 size := rfl
  rw [getLe, hoctets, LittleEndian.get_put (by simpa using hsize)]

theorem drop_encode (size : ℕ) {rest : List BlockRecord} (hlog : WellFormed dev log) :
    (encode size (log ++ rest)).drop (headerBytes + log.length * recordBytes) =
      rest.flatMap recordOctets := by
  rw [encode, flatMap_append, ← append_assoc]
  apply drop_left'
  rw [length_append, length_header, length_flatMap_recordOctets hlog]

theorem length_encode (size : ℕ) (hlog : WellFormed dev log) :
    (encode size log).length = headerBytes + log.length * recordBytes := by
  rw [encode, length_append, length_header, length_flatMap_recordOctets hlog]

theorem records_encode (size : ℕ) {log : List BlockRecord} (hlog : WellFormed dev log) :
    ((encode size log).length - headerBytes) / recordBytes = log.length := by
  rw [length_encode size hlog, Nat.add_sub_cancel_left, Nat.mul_div_cancel _ (by decide)]

theorem whole_encode (size : ℕ) {log : List BlockRecord} (hlog : WellFormed dev log) :
    ((encode size log).length - headerBytes) % recordBytes = 0 := by
  rw [length_encode size hlog, Nat.add_sub_cancel_left, mul_mod_left]

theorem encode_append (size : ℕ) (log : List BlockRecord) (record : BlockRecord) :
    encode size (log ++ [record]) = encode size log ++ recordOctets record := by
  rw [encode, encode, flatMap_append, flatMap_cons, flatMap_nil, append_nil, append_assoc]

theorem recordIndex_encode (size : ℕ) {log rest : List BlockRecord} {record : BlockRecord}
    (hlog : WellFormed dev log) (hrecord : record.1 < 2 ^ 64) :
    recordIndex (encode size (log ++ record :: rest)) log.length = record.1 := by
  rw [recordIndex, getLe, drop_encode size hlog, flatMap_cons, recordOctets, append_assoc,
    take_left' (LittleEndian.length_put ..), 
    LittleEndian.get_put (lt_of_lt_of_eq hrecord (by norm_num [indexBytes]))]

theorem recordBlock_encode (size : ℕ) {log rest : List BlockRecord} {record : BlockRecord}
    (hlog : WellFormed dev log) (hrecord : record.2.length = blockBytes) :
    ((encode size (log ++ record :: rest)).drop
      (headerBytes + log.length * recordBytes + indexBytes)).take blockBytes = record.2 := by
  rw [← drop_drop, drop_encode size hlog, flatMap_cons, recordOctets, append_assoc,
    drop_left' (LittleEndian.length_put ..), take_left' hrecord]

theorem blockCount_mul (hblocks : dev.size % blockBytes = 0) :
    blockCount dev * blockBytes = dev.size := Nat.div_mul_cancel (dvd_of_mod_eq_zero hblocks)

theorem block_lt (hb : b < blockCount dev) : b * blockBytes + blockBytes ≤ dev.size := by
  have hdiv : blockCount dev * blockBytes ≤ dev.size := div_mul_le_self ..
  calc
    b * blockBytes + blockBytes = (b + 1) * blockBytes := by ring
    _ ≤ blockCount dev * blockBytes := Nat.mul_le_mul_right _ hb
    _ ≤ dev.size := hdiv

theorem index_lt (hb : b < blockCount dev) : b < 2 ^ 64 := by
  have hsize := dev.size_lt
  have hblock := block_lt hb
  have hle : b ≤ b * blockBytes := Nat.le_mul_of_pos_right _ (by decide)
  omega

/-- The loop over the records of a file is an induction on the log behind the ones it has done. -/
theorem indexRecords_encode (size : ℕ) {log rest : List BlockRecord} {saved : ℕ → Bool}
    (hlog : WellFormed dev (log ++ rest)) :
    ∃ saved', indexRecords (blockCount dev) (encode size (log ++ rest))
        (List.range' log.length rest.length) saved = some saved' ∧
      ∀ b, saved' b = true ↔ saved b = true ∨ ∃ record ∈ rest, record.1 = b := by
  induction rest generalizing log saved with
  | nil => exact ⟨saved, rfl, fun b ↦ by simp⟩
  | cons record rest ih =>
    have hdone : WellFormed dev log := fun old hold ↦ hlog old (mem_append_left _ hold)
    have hrecord := hlog record (by simp)
    have hindex : recordIndex (encode size (log ++ record :: rest)) log.length = record.1 :=
      recordIndex_encode size hdone (index_lt hrecord.1)
    have hsplit : log ++ record :: rest = (log ++ [record]) ++ rest := by simp
    obtain ⟨saved', hloop, hsaved⟩ := @ih (log ++ [record]) (bitSet saved record.1) (hsplit ▸ hlog)
    refine ⟨saved', ?_, fun b ↦ ?_⟩
    · rw [length_cons, range'_succ, indexRecords, hindex, if_neg (Nat.not_le.2 hrecord.1)]
      rw [length_append, length_singleton, ← hsplit] at hloop
      exact hloop
    · rw [hsaved, bitSet, Function.update_apply]
      by_cases hb : b = record.1
      · simp [hb]
      · simp [hb, Ne.symm hb]

/-- The block an octet of the disk belongs to. -/
def page (x : ℕ) : ℕ := x / blockBytes

/-- A record as the undo log sees it. -/
def imageOf (record : BlockRecord) : Record ℕ ℕ Octet :=
  (record.1, fun x ↦ record.2.getD (x % blockBytes) 0)

/-- The overlay is the log, the bitmap names its blocks, and it takes the disk back. -/
structure Records (start : ℕ → Octet) (cow : Cow dev) (log : List BlockRecord) : Prop where
  overlay : cow.overlay = encode dev.size log
  wellFormed : WellFormed dev log
  saved : ∀ b, cow.saved b = true ↔ ∃ record ∈ log, record.1 = b
  undoes : Undoes page (log.map imageOf) start (dev.bytes cow.under)

theorem Records.exists_image (h : Records start cow log) {x : ℕ} (hb : cow.saved b = true)
    (hx : page x = b) : ∃ record ∈ log.map imageOf, page x = record.1 := by
  obtain ⟨record, hrecord, hindex⟩ := (h.saved b).1 hb
  exact ⟨imageOf record, mem_map_of_mem hrecord, hx.trans hindex.symm⟩

theorem window_block (bytes : ℕ → Octet) {x : ℕ} (hx : page x = b) :
    (window bytes (b * blockBytes) blockBytes).getD (x % blockBytes) 0 = bytes x := by
  have hlt : x % blockBytes < blockBytes := mod_lt _ (by decide)
  have haddress : b * blockBytes + x % blockBytes = x := by
    rw [← hx, page, div_add_mod']
  rw [getD_eq_getElem?_getD, getElem?_window, if_pos hlt, haddress, Option.getD_some]

theorem saveBlock_cases {host : Host} {ok : Bool} (hb : b < blockCount dev)
    (hsave : saveBlock host cow b = (ok, cow')) : (cow.saved b = true ∧ ok = true ∧ cow' = cow) ∨
      ¬cow.saved b = true ∧ ∃ under, dev.bytes under = dev.bytes cow.under ∧
        ((ok = false ∧ ∃ tail : List Octet, tail.length < recordBytes ∧ cow' =
            { cow with under := under, overlay := cow.overlay ++ tail, poisoned := true }) ∨
          ok = true ∧ ∃ scratch,
            scratch = window (dev.bytes cow.under) (b * blockBytes) blockBytes ∧
            scratch.length = blockBytes ∧ cow' = { cow with
            under := under
            overlay := cow.overlay ++ recordOctets (b, scratch)
            overlayBytes := cow.overlayBytes + recordBytes
            saved := bitSet cow.saved b }) := by
  have hinside := block_lt hb
  have hsize := dev.size_lt
  have hread := @readExact_spec dev cow.under (b * blockBytes) blockBytes [] 0 rfl (Nat.zero_le _)
    (by omega)
  unfold saveBlock at hsave
  split at hsave
  case isTrue hold =>
    cases hsave
    exact .inl ⟨hold, rfl, rfl⟩
  case isFalse hnew =>
    rcases hresult : readExact dev cow.under (b * blockBytes) blockBytes [] 0
      with ⟨_ | scratch, under⟩
    · rw [hresult] at hsave hread
      cases hsave
      refine .inr ⟨hnew, under, hread.1, .inl ⟨rfl, [], by decide, ?_⟩⟩
      rw [append_nil]
    · rw [hresult] at hsave hread
      have hscratch : scratch = window (dev.bytes cow.under) (b * blockBytes) blockBytes :=
        hread.2 scratch rfl
      have hlength : scratch.length = blockBytes := by rw [hscratch, length_window]
      have hrecord : (LittleEndian.put indexBytes b ++ scratch).length = recordBytes :=
        @length_recordOctets (b, scratch) hlength
      simp only at hsave
      split at hsave
      case isTrue htaken =>
        cases hsave
        refine .inr ⟨hnew, under, hread.1, .inl ⟨rfl, _, ?_, rfl⟩⟩
        rw [length_take] at htaken ⊢
        omega
      case isFalse htaken =>
        rw [not_not, length_take] at htaken
        rw [take_of_length_le (by omega)] at hsave
        cases hsave
        exact .inr ⟨hnew, under, hread.1, .inr ⟨rfl, scratch, hscratch, hlength, rfl⟩⟩

theorem saveBlock_spec {host : Host} (h : Records start cow log) (hb : b < blockCount dev)
    (hsave : saveBlock host cow b = (true, cow')) :
    ∃ log', Records start cow' log' ∧ cow'.saved b = true ∧
      (∀ c, cow.saved c = true → cow'.saved c = true) ∧ dev.bytes cow'.under = dev.bytes cow.under := by
  rcases saveBlock_cases hb hsave with ⟨hold, -, rfl⟩ |
    ⟨hnew, under, hkeeps, ⟨hok, -⟩ | ⟨-, scratch, hscratch, hlength, rfl⟩⟩
  · exact ⟨log, h, hold, fun _ hc ↦ hc, rfl⟩
  · cases hok
  refine ⟨log ++ [(b, scratch)], ⟨?_, ?_, ?_, ?_⟩, ?_, ?_, hkeeps⟩
  · rw [encode_append, ← h.overlay]
  · intro record hrecord
    rcases mem_append.1 hrecord with hmem | hmem
    · exact h.wellFormed record hmem
    · obtain rfl := mem_singleton.1 hmem
      exact ⟨hb, hlength⟩
  · intro c
    have hold := h.saved c
    simp only [bitSet, Function.update_apply, mem_append, mem_singleton]
    by_cases hc : c = b
    · subst hc
      simp
    · rw [if_neg hc, hold]
      constructor
      · rintro ⟨record, hrecord, hindex⟩
        exact ⟨record, Or.inl hrecord, hindex⟩
      · rintro ⟨record, hrecord | rfl, hindex⟩
        · exact ⟨record, hrecord, hindex⟩
        · exact absurd hindex.symm hc
  · rw [map_append]
    show Undoes page _ start (dev.bytes under)
    rw [hkeeps]
    refine h.undoes.save ?_ ?_
    · intro old hold hindex
      obtain ⟨record, hrecord, rfl⟩ := mem_map.1 hold
      exact hnew ((h.saved b).2 ⟨record, hrecord, hindex⟩)
    · intro x hx
      show scratch.getD (x % blockBytes) 0 = dev.bytes cow.under x
      rw [hscratch]
      exact window_block _ hx
  · simp [bitSet]
  · intro c hc
    simp only [bitSet, Function.update_apply]
    split
    · rfl
    · exact hc

theorem saveBlocks_spec {host : Host} {blocks : List ℕ} (h : Records start cow log)
    (hblocks : ∀ b ∈ blocks, b < blockCount dev)
    (hsave : saveBlocks host blocks cow = (true, cow')) :
    ∃ log', Records start cow' log' ∧ (∀ b ∈ blocks, cow'.saved b = true) ∧
      (∀ c, cow.saved c = true → cow'.saved c = true) ∧ dev.bytes cow'.under = dev.bytes cow.under := by
  induction blocks generalizing cow log with
  | nil =>
    cases hsave
    exact ⟨log, h, fun _ hb ↦ absurd hb not_mem_nil, fun _ hc ↦ hc, rfl⟩
  | cons b rest ih =>
    unfold saveBlocks at hsave
    rcases hone : saveBlock host cow b with ⟨ok, next⟩
    rw [hone] at hsave
    cases ok with
    | false => cases hsave
    | true =>
      obtain ⟨log', hlog', hsaved, hkept, hbytes⟩ :=
        saveBlock_spec h (hblocks b mem_cons_self) hone
      obtain ⟨log'', hlog'', hrest, hkept', hbytes'⟩ :=
        ih hlog' (fun c hc ↦ hblocks c (mem_cons_of_mem _ hc)) hsave
      refine ⟨log'', hlog'', ?_, fun c hc ↦ hkept' c (hkept c hc), hbytes'.trans hbytes⟩
      intro c hc
      rcases mem_cons.1 hc with rfl | hmem
      · exact hkept' c hsaved
      · exact hrest c hmem

theorem cowWriteAt_spec {host : Host} {offset : DWord} {source : List Octet} {done : ℕ}
    (h : Records start cow log) (hwrite : cowWriteAt host cow offset source = (.ok, done, cow')) :
    (∃ log', Records start cow' log') ∧
      dev.bytes cow'.under = overwrite (dev.bytes cow.under) offset.toNat source := by
  have hsize := dev.size_lt
  unfold cowWriteAt at hwrite
  split at hwrite
  case isTrue => cases hwrite
  split at hwrite
  case isTrue hempty =>
    cases hwrite
    refine ⟨⟨log, h⟩, ?_⟩
    rw [length_eq_zero_iff.1 hempty, overwrite_nil]
  simp only at hwrite
  split at hwrite
  case isTrue => cases hwrite
  case isFalse hsome hlast =>
    rcases hsaving : saveBlocks host _ cow with ⟨ok, saving⟩
    rw [hsaving] at hwrite
    cases ok with
    | false => cases hwrite
    | true =>
      have hexact := @writeExact_spec dev saving.under offset.toNat source 0 0 (Nat.zero_le _)
        offset.isLt
      rcases hresult : writeExact dev saving.under offset.toNat source 0 0 with ⟨ok, count, under⟩
      rw [hresult] at hexact
      simp only [hresult] at hwrite
      obtain ⟨-, hbytes, hend, hall⟩ := hexact
      cases ok with
      | false => cases hwrite
      | true =>
        have hcount : count = source.length := hall rfl
        have hinside : offset.toNat + source.length ≤ dev.size := hcount ▸ hend (hcount ▸ hsome)
        rw [mod_eq_of_lt (by omega)] at hsaving hlast
        -- the write lies inside the disk, so the blocks from the first to the last are all of it
        have hfirst : offset.toNat / blockBytes ≤ (offset.toNat + source.length - 1) / blockBytes :=
          Nat.div_le_div_right (by omega)
        have hblocks : ∀ b ∈ List.range' (offset.toNat / blockBytes)
            ((offset.toNat + source.length - 1) / blockBytes + 1 - offset.toNat / blockBytes),
            b < blockCount dev := by
          intro b hb
          have hle := (mem_range'_1.1 hb).2
          omega
        obtain ⟨log', hlog', hsaved, -, hkept⟩ := saveBlocks_spec h hblocks hsaving
        cases hwrite
        simp only [drop_zero, Nat.sub_zero, hcount, take_length, Nat.add_zero] at hbytes
        refine ⟨⟨log', hlog'.overlay, hlog'.wellFormed, hlog'.saved, ?_⟩, ?_⟩
        · show Undoes page _ start (dev.bytes under)
          rw [hbytes]
          refine hlog'.undoes.write fun x hx ↦ ?_
          have hspan : offset.toNat ≤ x ∧ x < offset.toNat + source.length := by
            by_contra hout
            exact hx (overwrite_of_not_mem hout)
          refine hlog'.exists_image (hsaved (page x) ?_) rfl
          have hlow : offset.toNat / blockBytes ≤ page x := Nat.div_le_div_right hspan.1
          have hhigh : page x ≤ (offset.toNat + source.length - 1) / blockBytes :=
            Nat.div_le_div_right (by omega)
          rw [mem_range'_1]
          omega
        · show dev.bytes under = _
          rw [hbytes, hkept]

theorem indexExisting_cases {host : Host} {overlay : List Octet}
    {result : Except CowStatus (ℕ → Bool)} (hlong : headerBytes ≤ overlay.length)
    (h : indexExisting host dev overlay = result) :
    (∃ status, status ≠ .ok ∧ result = .error status) ∨
      ∃ saved, result = .ok saved ∧ (overlay.length - headerBytes) % recordBytes = 0 ∧
        indexRecords (blockCount dev) overlay
          (List.range ((overlay.length - headerBytes) / recordBytes)) (fun _ ↦ false) =
            some saved := by
  unfold indexExisting at h
  grind

/-- What a disk must be for an overlay. -/
def Blocked (dev : Device) : Prop := dev.size ≠ 0 ∧ dev.size % blockBytes = 0

/-- An open is refused, with the file as it was or part of a header in its place, or it goes on
with a new header or with the records of the file. -/
theorem vmCowOpen_cases {host : Host} {under : dev.State} {file left : Option (List Octet)}
    {result : Except CowStatus (Cow dev)} (hopen : vmCowOpen host dev under file = (result, left)) :
    (∃ status, status ≠ .ok ∧ result = .error status ∧ (left = file ∨ file = none ∧ Blocked dev ∧
      ∃ part, part <+: header dev.size ∧ left = some part)) ∨
      Blocked dev ∧ ∃ overlay saved, result = .ok ⟨under, overlay, overlay.length, saved, false⟩ ∧
        left = some overlay ∧ (file = none ∧ overlay = header dev.size ∧ saved = (fun _ ↦ false) ∨
          file = some overlay ∧ headerBytes ≤ overlay.length ∧
            (overlay.length - headerBytes) % recordBytes = 0 ∧
            indexRecords (blockCount dev) overlay
              (List.range ((overlay.length - headerBytes) / recordBytes)) (fun _ ↦ false) =
                some saved) := by
  unfold vmCowOpen at hopen
  cases file with
  | none =>
    have hpart : (header dev.size).take (host.accepts 0) <+: header dev.size := take_prefix ..
    have hwhole := fun h ↦ hpart.eq_of_length h
    grind [Blocked, length_header]
  | some overlay =>
    by_cases hformat : formatOk overlay = true
    · have hlong : headerBytes ≤ overlay.length := by
        simp [formatOk] at hformat
        omega
      rcases @indexExisting_cases dev host overlay _ hlong rfl with
        ⟨status, hstatus, hindex⟩ | ⟨saved, hindex, hrecords⟩
      · simp only [hindex] at hopen
        grind
      · simp only [hindex] at hopen
        grind [Blocked]
    · grind

end S5LBox.Block
