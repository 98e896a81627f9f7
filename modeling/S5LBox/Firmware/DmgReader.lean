import S5LBox.Firmware.Dmg

/-!
# Random access to an encrypted image

The blocks of the wrapper are decrypted one by one, so that a read of any range is a slice of one
plaintext. What `vmfw_dmg_reader_open` accepts is more than what can be read: a read wants a block
that fits its buffer, that lies whole within the file, and whose number has 32 bits.
-/

namespace S5LBox.Firmware

open List Attempt Nat

section Slices

variable {α : Type} {width n k : ℕ} {f : ℕ → List α}

theorem length_flatMap_range (h : ∀ i < k, (f i).length = width) :
    ((List.range k).flatMap f).length = k * width := by
  induction k with
  | zero => rw [zero_mul]; rfl
  | succ k ih =>
    rw [range_succ, flatMap_append, length_append, flatMap_singleton,
      ih fun i hi ↦ h i (lt_succ_of_lt hi), h k (lt_succ_self k), succ_mul]

theorem slice_flatMap_range (hk : k < n) (h : ∀ i ≤ k, (f i).length = width) {within count : ℕ}
    (hcount : within + count ≤ width) :
    (((List.range n).flatMap f).drop (k * width + within)).take count =
      ((f k).drop within).take count := by
  obtain ⟨more, rfl⟩ := Nat.exists_eq_add_of_lt hk
  have hsplit : List.range (k + more + 1) = List.range k ++ k :: List.range' (k + 1) more := by
    rw [range_eq_range', range_eq_range', add_assoc, ← range'_append_1, zero_add, range'_succ]
  rw [hsplit, flatMap_append, flatMap_cons, ← drop_drop,
    drop_left' (length_flatMap_range fun i hi ↦ h i hi.le),
    drop_append_of_le_length (by rw [h k le_rfl]; omega),
    take_append_of_le_length (by rw [length_drop, h k le_rfl]; omega)]

end Slices

variable {ω : Type} {ch : Channel ω} {cipher : Cipher}

/-- A channel that reads a file, whatever state it is in. -/
def Channel.Serves (ch : Channel ω) (file : List Octet) : Prop :=
  ∀ w offset len, offset + len ≤ file.length →
    (ch.pread w offset len).2 = some ((file.drop offset).take len)

/-- The ciphertext of a block. -/
def DmgReader.ciphertext (r : DmgReader) (file : List Octet) (index : ℕ) : List Octet :=
  (file.drop (r.dataOffset + index * r.blockSize)).take r.blockSize

/-- The image that is wrapped. -/
def DmgReader.plaintext (r : DmgReader) (cipher : Cipher) (file : List Octet) : List Octet :=
  ((List.range ((r.plainSize + r.blockSize - 1) / r.blockSize)).flatMap fun index ↦
    r.decryptBlock cipher index (r.ciphertext file index)).take r.plainSize

/-- A block lies whole within the file and has a number of 32 bits. -/
def DmgReader.Reaches (r : DmgReader) (index : ℕ) : Prop :=
  index ≤ 0xffffffff ∧ r.dataOffset + (index + 1) * r.blockSize ≤ r.fileSize

instance (r : DmgReader) (index : ℕ) : Decidable (r.Reaches index) := by
  unfold DmgReader.Reaches
  infer_instance

/-- The geometry that `vmfw_dmg_reader_open` has made sure of. -/
structure DmgReader.Opened (r : DmgReader) (file : List Octet) : Prop where
  fileSize : r.fileSize = file.length
  blockSize_pos : 0 < r.blockSize
  dataOffset : r.dataOffset ≤ r.fileSize
  plainSize : r.plainSize ≤ r.fileSize - r.dataOffset

variable {r : DmgReader} {file key : List Octet} {w w' : ω} {offset len : ℕ}

theorem opened_of_open {key : Option (List Octet)}
    (h : vmfwDmgReaderOpen ch file.length key w = (.ok r, w')) (hencrypted : r.encrypted = true) :
    r.Opened file := by
  unfold vmfwDmgReaderOpen at h
  split at h
  case isTrue =>
    obtain ⟨rfl, -⟩ := pure_ok.1 h
    cases hencrypted
  case isFalse =>
    obtain ⟨header, u, -, h⟩ := bind_ok.1 h
    split at h
    case isTrue =>
      obtain ⟨rfl, -⟩ := pure_ok.1 h
      cases hencrypted
    case isFalse =>
      simp only [bind_ok, require_ok, expect_ok, pure_ok] at h
      obtain ⟨_, _, -, _, _, ⟨hblock, rfl⟩, _, _, ⟨hoffset, rfl⟩, _, _, ⟨hplain, rfl⟩, _, _, -, _, _,
        -, rfl, -⟩ := h
      exact ⟨rfl, Nat.pos_of_ne_zero hblock.1, hoffset, hplain⟩

theorem ends_readAll (hserves : ch.Serves file) (hfits : offset + len ≤ file.length) :
    Ends (fun data _ ↦ data = (file.drop offset).take len) (fun _ _ ↦ False)
      (readAll ch offset len) w := by
  have hlength : ((file.drop offset).take len).length = len := by
    rw [length_take, length_drop]
    omega
  have hread := hserves w offset len hfits
  have hrun : readAll ch offset len w =
      (.ok ((file.drop offset).take len), (ch.pread w offset len).1) := by
    unfold readAll
    change (expect (ch.pread w offset len).2 DmgStatus.read >>= fun data ↦
      require (data.length = len) DmgStatus.read >>= fun _ ↦ pure data)
        (ch.pread w offset len).1 = _
    rw [hread]
    change (require (((file.drop offset).take len).length = len) DmgStatus.read >>= fun _ ↦
      pure ((file.drop offset).take len)) (ch.pread w offset len).1 = _
    unfold require
    rw [if_pos hlength]
    rfl
  rw [ends_iff, hrun]
  refine ⟨?_, fun e t h ↦ by cases h⟩
  intro data t h
  exact (Except.ok.inj (Prod.mk.inj h).1).symm

theorem DmgReader.Opened.length_ciphertext (h : r.Opened file) {index : ℕ}
    (hreaches : r.Reaches index) : (r.ciphertext file index).length = r.blockSize := by
  have hfile := h.fileSize
  have hwhole := hreaches.2
  rw [succ_mul] at hwhole
  rw [DmgReader.ciphertext, length_take, length_drop]
  omega

theorem DmgReader.Reaches.mono {index other : ℕ} (h : r.Reaches index) (hle : other ≤ index) :
    r.Reaches other := by
  have hmul := Nat.mul_le_mul_right r.blockSize (succ_le_succ hle)
  exact ⟨hle.trans h.1, (Nat.add_le_add_left hmul _).trans h.2⟩

theorem DmgReader.Opened.slice_plaintext (h : r.Opened file) {index within : ℕ}
    (hreaches : r.Reaches index) (hlen : 0 < len) (hwithin : within + len ≤ r.blockSize)
    (hplain : index * r.blockSize + within + len ≤ r.plainSize) :
    ((r.plaintext cipher file).drop (index * r.blockSize + within)).take len =
      ((r.decryptBlock cipher index (r.ciphertext file index)).drop within).take len := by
  have hindex : index < (r.plainSize + r.blockSize - 1) / r.blockSize := by
    rw [lt_iff_add_one_le, Nat.le_div_iff_mul_le h.blockSize_pos, succ_mul]
    omega
  rw [DmgReader.plaintext, drop_take, take_take, Nat.min_eq_left (by omega)]
  refine slice_flatMap_range hindex (fun i hi ↦ ?_) hwithin
  rw [DmgReader.decryptBlock, cipher.length_cbcDecrypt]
  exact h.length_ciphertext (hreaches.mono hi)

theorem decryptLoop_zero (turns pos : ℕ) : decryptLoop ch cipher r turns pos 0 = pure [] := by
  cases turns with
  | zero => rfl
  | succ turns => rw [decryptLoop, if_pos rfl]

theorem ends_decryptLoop (hserves : ch.Serves file) (hopened : r.Opened file) {turns pos : ℕ}
    (hturns : len ≤ turns) (hlen : 0 < len) (hplain : pos + len ≤ r.plainSize) :
    Ends (fun data _ ↦ r.Reaches ((pos + len - 1) / r.blockSize) ∧
        data = ((r.plaintext cipher file).drop pos).take len)
      (fun e _ ↦ ¬r.Reaches ((pos + len - 1) / r.blockSize) ∧ e = .badGeometry)
      (decryptLoop ch cipher r turns pos len) w := by
  induction turns generalizing pos len w with
  | zero => omega
  | succ turns ih =>
    have hpos := hopened.blockSize_pos
    have hfile := hopened.fileSize
    have hlast : pos / r.blockSize ≤ (pos + len - 1) / r.blockSize :=
      Nat.div_le_div_right (by omega)
    obtain ⟨within, hwithin, hless⟩ : ∃ within, pos / r.blockSize * r.blockSize + within = pos ∧
        within < r.blockSize :=
      ⟨pos % r.blockSize, div_add_mod' pos r.blockSize, mod_lt pos hpos⟩
    have hsub : pos - pos / r.blockSize * r.blockSize = within := by omega
    have hsucc : (pos / r.blockSize + 1) * r.blockSize =
        pos / r.blockSize * r.blockSize + r.blockSize := succ_mul _ _
    rw [decryptLoop, if_neg hlen.ne']
    dsimp only
    rw [hsub, ends_bind, ends_require]
    generalize pos / r.blockSize = index at *
    refine ⟨fun hbits ↦ ?_, fun hbits ↦ ⟨fun h ↦ hbits (h.mono hlast).1, rfl⟩⟩
    rw [ends_bind, ends_require]
    refine ⟨fun hroom ↦ ?_, fun hroom ↦ ⟨fun h ↦ hroom ?_, rfl⟩⟩
    case refine_2 =>
      have hwhole := (h.mono hlast).2
      omega
    have hreaches : r.Reaches index := ⟨hbits, by omega⟩
    refine ((ends_readAll hserves (by omega)).mono (fun _ _ h ↦ h) (fun _ _ h ↦ h.elim)).bind ?_
    rintro block u rfl
    rw [ends_bind]
    by_cases hend : len ≤ r.blockSize - within
    · rw [Nat.min_eq_right hend, Nat.sub_self, decryptLoop_zero, ends_pure, ends_pure]
      have hsame : (pos + len - 1) / r.blockSize = index := by
        refine Nat.div_eq_of_lt_le ?_ ?_
        · omega
        · omega
      rw [hsame, append_nil]
      have hslice := @DmgReader.Opened.slice_plaintext cipher r file len hopened index within hreaches
        hlen (by omega) (by omega)
      rw [hwithin] at hslice
      exact ⟨hreaches, hslice.symm⟩
    · rw [Nat.min_eq_left (by omega)]
      have hrest := @ih u (len - (r.blockSize - within)) (pos + (r.blockSize - within)) (by omega)
        (by omega) (by omega)
      have hsame : pos + (r.blockSize - within) + (len - (r.blockSize - within)) - 1 =
          pos + len - 1 := by omega
      rw [hsame] at hrest
      refine hrest.weaken ?_
      rintro rest v ⟨hreach, rfl⟩
      have hslice := @DmgReader.Opened.slice_plaintext cipher r file (r.blockSize - within) hopened
        index within hreaches (by omega) (by omega) (by omega)
      rw [hwithin] at hslice
      have htotal : len = (r.blockSize - within) + (len - (r.blockSize - within)) := by omega
      refine ends_pure.2 ⟨hreach, ?_⟩
      rw [htotal, take_add, hslice, drop_drop, ← htotal]
      rfl

/-- The outcome of a read for every range within the image: the slice of the plaintext, unless the
block does not fit the buffer or the last block is out of reach. -/
def DmgReader.outcome (r : DmgReader) (cipher : Cipher) (file : List Octet) (offset len : ℕ) :
    Except DmgStatus (List Octet) :=
  if 0 < len ∧ dmgBlockBuffer < r.blockSize then .error .badBlockSize
  else if 0 < len ∧ ¬r.Reaches ((offset + len - 1) / r.blockSize) then .error .badGeometry
  else .ok (((r.plaintext cipher file).drop offset).take len)

theorem vmfwDmgReaderPread_outcome (hserves : ch.Serves file) (hopened : r.Opened file)
    (hencrypted : r.encrypted = true) (hrange : offset + len ≤ r.plainSize) (u : ω) :
    (vmfwDmgReaderPread ch cipher r offset len u).1 = r.outcome cipher file offset len := by
  unfold vmfwDmgReaderPread DmgReader.outcome
  rcases Nat.eq_zero_or_pos len with rfl | hlen
  · rw [if_pos rfl, if_neg fun h ↦ Nat.lt_irrefl _ h.1, if_neg fun h ↦ Nat.lt_irrefl _ h.1,
      take_zero]
    rfl
  rw [if_neg hlen.ne']
  have hfits : offset ≤ r.plainSize ∧ len ≤ r.plainSize - offset := by omega
  have hguard : ∀ q : Attempt DmgStatus ω (List Octet),
      (require (offset ≤ r.plainSize ∧ len ≤ r.plainSize - offset) DmgStatus.badGeometry >>=
        fun _ ↦ q) u = q u := by
    intro q
    unfold require
    rw [if_pos hfits]
    rfl
  rw [hguard, if_neg (by rw [hencrypted]; decide)]
  by_cases hblock : r.blockSize ≤ dmgBlockBuffer
  · have hbuffer : (require (r.blockSize ≤ dmgBlockBuffer) DmgStatus.badBlockSize >>=
        fun _ ↦ decryptLoop ch cipher r len offset len) u =
          decryptLoop ch cipher r len offset len u := by
      unfold require
      rw [if_pos hblock]
      rfl
    rw [hbuffer, if_neg fun h ↦ Nat.not_le.2 h.2 hblock]
    have hends := @ends_decryptLoop ω ch cipher r file u len hserves hopened len offset le_rfl hlen
      hrange
    obtain ⟨hok, herror⟩ := ends_iff.1 hends
    rcases hrun : decryptLoop ch cipher r len offset len u with ⟨e | data, v⟩
    · obtain ⟨hout, rfl⟩ := herror e v hrun
      rw [if_pos ⟨hlen, hout⟩]
    · obtain ⟨hreaches, rfl⟩ := hok data v hrun
      rw [if_neg fun h ↦ h.2 hreaches]
  · rw [if_pos ⟨hlen, Nat.lt_of_not_le hblock⟩]
    unfold require
    rw [if_neg hblock]
    rfl

theorem DmgReader.outcome_pieces {data : List Octet} {cut : ℕ} (hcut : cut ≤ len)
    (h : r.outcome cipher file offset len = .ok data) :
    ∃ front back, r.outcome cipher file offset cut = .ok front ∧
      r.outcome cipher file (offset + cut) (len - cut) = .ok back ∧ data = front ++ back := by
  unfold DmgReader.outcome at h
  by_cases hblock : 0 < len ∧ dmgBlockBuffer < r.blockSize
  · rw [if_pos hblock] at h
    cases h
  by_cases hreach : 0 < len ∧ ¬r.Reaches ((offset + len - 1) / r.blockSize)
  · rw [if_neg hblock, if_pos hreach] at h
    cases h
  rw [if_neg hblock, if_neg hreach] at h
  obtain rfl := Except.ok.inj h
  have hnot : ∀ pos count, offset ≤ pos → pos + count ≤ offset + len →
      r.outcome cipher file pos count = .ok (((r.plaintext cipher file).drop pos).take count) := by
    intro pos count hpos hcount
    unfold DmgReader.outcome
    rw [if_neg fun hbad ↦ hblock ⟨by omega, hbad.2⟩, if_neg]
    rintro ⟨hlen, hout⟩
    refine hreach ⟨by omega, fun hlast ↦ hout (hlast.mono (Nat.div_le_div_right ?_))⟩
    omega
  refine ⟨_, _, hnot offset cut le_rfl (by omega), hnot (offset + cut) (len - cut) (by omega)
    (by omega), ?_⟩
  rw [← drop_drop, ← take_add, Nat.add_sub_cancel' hcut]

/-- Reads of an opened image are slices of one plaintext, in one piece or in several. -/
theorem vmfwDmgReaderPread_slice {key : Option (List Octet)} (hserves : ch.Serves file)
    (hopen : vmfwDmgReaderOpen ch file.length key w = (.ok r, w')) (hencrypted : r.encrypted = true)
    (hrange : offset + len ≤ r.plainSize) (u : ω) :
    (vmfwDmgReaderPread ch cipher r offset len u).1 =
      (if 0 < len ∧ dmgBlockBuffer < r.blockSize then .error .badBlockSize
      else if 0 < len ∧ ¬r.Reaches ((offset + len - 1) / r.blockSize) then .error .badGeometry
      else .ok (((r.plaintext cipher file).drop offset).take len)) ∧
    ∀ cut data, cut ≤ len → (vmfwDmgReaderPread ch cipher r offset len u).1 = .ok data →
      ∀ v v', ∃ front back, (vmfwDmgReaderPread ch cipher r offset cut v).1 = .ok front ∧
        (vmfwDmgReaderPread ch cipher r (offset + cut) (len - cut) v').1 = .ok back ∧
          data = front ++ back := by
  have hopened := opened_of_open hopen hencrypted
  refine ⟨vmfwDmgReaderPread_outcome hserves hopened hencrypted hrange u, ?_⟩
  intro cut data hcut hdata v v'
  rw [vmfwDmgReaderPread_outcome hserves hopened hencrypted hrange] at hdata
  obtain ⟨front, back, hfront, hback, rfl⟩ := DmgReader.outcome_pieces hcut hdata
  refine ⟨front, back, ?_, ?_, rfl⟩
  · rw [vmfwDmgReaderPread_outcome hserves hopened hencrypted (by omega), hfront]
  · rw [vmfwDmgReaderPread_outcome hserves hopened hencrypted (by omega), hback]

/-- A channel over a file that is there as a whole. -/
def fileChannel (file : List Octet) : Channel Unit where
  pread _ offset len := ((), some ((file.drop offset).take len))
  sink _ _ := ((), true)

/-- An image of 16 octets in blocks of `blockSize`, right behind the wrapper's fields. -/
def smallImage (blockSize : Word) (tail : List Octet) : List Octet :=
  ascii "encrcdsa" ++ putBe32 2 ++ List.replicate 40 0 ++ putBe32 blockSize ++ putBe32 0 ++
    putBe32 16 ++ putBe32 0 ++ putBe32 0x48 ++ tail

def turnCipher : Cipher where
  hmacSha1 key text := (key ++ text).take 20
  cbcDecrypt _ _ data := data.map (0xff - ·)
  length_cbcDecrypt _ _ _ := length_map _

/-- Two images that are opened and cannot be read: the block is larger than the buffer, and the
file ends within the only block. -/
theorem vmfwDmgReaderPread_unreadable :
    (∃ r, vmfwDmgReaderOpen (fileChannel (smallImage 0x2000 (List.replicate 16 0))) 88
        (some (List.replicate 36 1)) () = (.ok r, ()) ∧ r.encrypted = true ∧ r.plainSize = 16 ∧
      (vmfwDmgReaderPread (fileChannel (smallImage 0x2000 (List.replicate 16 0))) turnCipher r 0 16
        ()).1 = .error .badBlockSize) ∧
    (∃ r, vmfwDmgReaderOpen (fileChannel (smallImage 0x20 (List.replicate 16 0))) 88
        (some (List.replicate 36 1)) () = (.ok r, ()) ∧ r.encrypted = true ∧ r.plainSize = 16 ∧
      (vmfwDmgReaderPread (fileChannel (smallImage 0x20 (List.replicate 16 0))) turnCipher r 0 16
        ()).1 = .error .badGeometry) := by
  constructor
  · exact ⟨_, rfl, rfl, rfl, rfl⟩
  · exact ⟨_, rfl, rfl, rfl, rfl⟩

/-- The reader of a small image in blocks of 16 octets. -/
def smallReader : DmgReader where
  fileSize := 88
  encrypted := true
  dataOffset := 0x48
  plainSize := 16
  blockSize := 16
  aesKey := List.replicate 16 1
  hmacKey := List.replicate 20 1

/-- The last octets of an image of one block. -/
theorem vmfwDmgReaderPread_slice_last :
    vmfwDmgReaderOpen (fileChannel (smallImage 0x10 (List.replicate 16 0))) 88
      (some (List.replicate 36 1)) () = (.ok smallReader, ()) ∧
    (vmfwDmgReaderPread (fileChannel (smallImage 0x10 (List.replicate 16 0))) turnCipher smallReader
      14 2 ()).1 = .ok [0xff, 0xff] := by
  have hopen : vmfwDmgReaderOpen (fileChannel (smallImage 0x10 (List.replicate 16 0)))
      (smallImage 0x10 (List.replicate 16 0)).length (some (List.replicate 36 1)) () =
        (.ok smallReader, ()) := rfl
  exact ⟨hopen, (vmfwDmgReaderPread_slice (fun _ _ _ _ ↦ rfl) hopen rfl (by decide) ()).1⟩

end S5LBox.Firmware
