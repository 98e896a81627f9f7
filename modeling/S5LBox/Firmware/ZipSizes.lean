import S5LBox.Firmware.ZipReads
import S5LBox.Library.Span

/-!
# Archives of every size

The sums of the reader stay below `2 ^ 64` where the archive leaves room for the longest record
behind its last octet. Where it does not, there is an archive of that size for which one of them
wraps.
-/

namespace S5LBox.Firmware

open List Attempt Span
open BitVec (le_def ofNat toNat_add toNat_sub_of_le)

/-- An archive that is there in full, and a sink that takes everything. -/
def served (size : ℕ) (contents : ℕ → Octet) : Channel Unit where
  pread w off len := (w, if off + len ≤ size then some (window contents off len) else none)
  sink w _ := (w, true)

section

variable {ω α β : Type} {p : Zipping ω α} {a : α} {b : β} {size : DWord} {contents : ℕ → Octet}

/-- The step ends with this value, whatever has gone on before. -/
def Gives (p : Zipping ω α) (a : α) : Prop := ∀ st, ∃ t, p st = (.ok a, t)

theorem gives_pure : Gives (pure a : Zipping ω α) a := fun st ↦ ⟨st, rfl⟩

theorem gives_require {condition : Prop} [Decidable condition] {e : ZipStop} (h : condition) :
    Gives (require condition e : Zipping ω Unit) () :=
  fun st ↦ ⟨st, by rw [require_ok]; exact ⟨h, rfl⟩⟩

variable {f : α → Zipping ω β} {k : ℕ}

theorem Gives.bind (h : Gives p a) (next : Gives (f a) b) : Gives (p >>= f) b := by
  intro st
  obtain ⟨t, ht⟩ := h st
  obtain ⟨u, hu⟩ := next t
  exact ⟨u, bind_ok.2 ⟨a, t, ht, hu⟩⟩

theorem gives_expect {e : ZipStop} : Gives (expect (some a) e : Zipping ω α) a :=
  fun st ↦ ⟨st, rfl⟩

theorem gives_modify (f : ZipWorld ω → ZipWorld ω) : Gives (modify f : Zipping ω Unit) () :=
  fun st ↦ ⟨f st, rfl⟩

theorem gives_addOff (x y : DWord) : Gives (addOff x y : Zipping ω DWord) (x + y) :=
  fun _ ↦ ⟨_, rfl⟩

theorem gives_readExact {off : DWord} {len : ℕ} (h : off.toNat + len ≤ size.toNat) :
    Gives (readExact (served size.toNat contents) size off len)
      (window contents off.toNat len) := by
  intro st
  unfold readExact
  split
  · next hzero =>
    rw [hzero]
    exact ⟨st, rfl⟩
  · have hoff : off ≤ size := le_def.2 (by omega)
    have hroom : ¬(size < off ∨ (size - off).toNat < len) := by
      rw [not_or, BitVec.not_lt, toNat_sub_of_le hoff]
      exact ⟨hoff, by omega⟩
    rw [if_neg hroom]
    have hread : (st.pread (served size.toNat contents) off len).1 =
        some (window contents off.toNat len) := by
      unfold ZipWorld.pread served
      dsimp only
      rw [if_pos h]
      exact Option.filter_eq_some_iff.2 ⟨rfl, decide_eq_true (length_window _ _ _)⟩
    refine ⟨(st.pread (served size.toNat contents) off len).2, bind_ok.2 ⟨_, _, rfl, ?_⟩⟩
    rw [expect_ok]
    exact ⟨hread, rfl⟩

theorem gives_scanWindow {start : DWord} {win : List Octet} {count i : ℕ} (hi : i < count)
    (hfits : start + ofNat 64 i + ofNat 64 eocdSize ≤ size) (hsig : zipRd32 win i = sigEocd)
    (hlater : ∀ j, i < j → j < count → zipRd32 win j = sigEocd →
      size < start + ofNat 64 j + ofNat 64 eocdSize) :
    Gives (scanWindow size start win count : Zipping ω (Option DWord))
      (some (start + ofNat 64 i)) := by
  induction count with
  | zero => exact absurd hi (Nat.not_lt_zero i)
  | succ count ih =>
    refine (gives_addOff _ _).bind ((gives_addOff _ _).bind ?_)
    by_cases hhere : i = count
    · subst hhere
      rw [if_neg (BitVec.not_lt.2 hfits), if_pos hsig]
      exact gives_pure
    · have hrest := ih (by omega) fun j hj hcount ↦ hlater j hj (by omega)
      split
      · exact hrest
      · next hroom =>
        rw [if_neg fun hsame ↦ hroom (hlater count (by omega) (Nat.lt_succ_self _) hsame)]
        exact hrest

def zip64Record (size : ℕ) : List Octet :=
  LittleEndian.put 4 0x06064b50 ++ LittleEndian.put 8 44 ++ LittleEndian.put 4 0 ++
    LittleEndian.put 4 0 ++ LittleEndian.put 4 0 ++ LittleEndian.put 8 1 ++ LittleEndian.put 8 1 ++
    LittleEndian.put 8 46 ++ LittleEndian.put 8 (size - 46)

def zip64Locator (size : ℕ) : List Octet :=
  LittleEndian.put 4 0x07064b50 ++ LittleEndian.put 4 0 ++ LittleEndian.put 8 (size - 144) ++
    LittleEndian.put 4 1

/-- An end record that leaves everything to the record of 64 bits. -/
def endRecord : List Octet :=
  LittleEndian.put 4 0x06054b50 ++ LittleEndian.put 4 0 ++ LittleEndian.put 4 0xffffffff ++
    LittleEndian.put 4 0xffffffff ++ LittleEndian.put 4 0xffffffff ++ LittleEndian.put 2 46

/-- The fixed part of a record of the directory, with the lengths of its other parts. -/
def centralRecord (name extra comment : ℕ) : List Octet :=
  LittleEndian.put 4 0x02014b50 ++ List.replicate 24 0 ++ LittleEndian.put 2 name ++
    LittleEndian.put 2 extra ++ LittleEndian.put 2 comment ++ List.replicate 12 0

/-- The last octets of the archive: its directory is at the very end, and consists of the fixed part
of one record. -/
def archiveTail (size : ℕ) (central : List Octet) : List Octet :=
  zip64Record size ++ zip64Locator size ++ endRecord ++ central

def archive (size : ℕ) (central : List Octet) : ℕ → Octet :=
  overwrite (fun _ ↦ 0) (size - 144) (archiveTail size central)

variable {central : List Octet}

theorem length_archiveTail (size : ℕ) (hcentral : central.length = 46) :
    (archiveTail size central).length = 144 := by
  simp [archiveTail, zip64Record, zip64Locator, endRecord, hcentral]

theorem window_archive (size : ℕ) (hcentral : central.length = 46) {n : ℕ} (h : k + n ≤ 144) :
    window (archive size central) (size - 144 + k) n =
      ((archiveTail size central).drop k).take n := by
  have hall := window_overwrite (fun _ ↦ (0 : Octet)) (size - 144) (archiveTail size central)
  rw [length_archiveTail size hcentral] at hall
  conv_rhs => rw [← hall]
  rw [drop_window _ _ _ _ (by omega), take_window _ _ _ _ (by omega)]
  rfl

theorem drop_archiveTail (size : ℕ) (k : ℕ) :
    (archiveTail size central).drop (76 + k) = (endRecord ++ central).drop k := by
  have hfront : (zip64Record size ++ zip64Locator size).length = 76 := by
    simp [zip64Record, zip64Locator]
  rw [archiveTail, append_assoc, ← drop_drop, drop_left' hfront]

theorem zipRd32_window {size : ℕ} (hsize : 4096 ≤ size) (hcentral : central.length = 46)
    (hk : k + 4 ≤ 68) : zipRd32 (window (archive size central) (size - 4096) 4096) (4028 + k) =
      zipRd32 (endRecord ++ central) k := by
  unfold zipRd32
  rw [drop_window _ _ _ _ (by omega), take_window _ _ _ _ (by omega),
    show size - 4096 + (4028 + k) = size - 144 + (76 + k) by omega,
    window_archive size hcentral (by omega), drop_archiveTail]

/-- No signature of an end record stands behind that of the archive. -/
def Clean (central : List Octet) : Prop :=
  ∀ k < 47, 0 < k → zipRd32 (endRecord ++ central) k ≠ sigEocd

instance (central : List Octet) : Decidable (Clean central) :=
  inferInstanceAs (Decidable (∀ k < 47, 0 < k → _))

theorem zipRd32_endRecord (central : List Octet) : zipRd32 (endRecord ++ central) 0 = sigEocd := by
  have htake : ((endRecord ++ central).drop 0).take 4 = LittleEndian.put 4 0x06054b50 := rfl
  rw [zipRd32, htake]
  decide

theorem gives_scanLoop (hbig : eocdMaxScan ≤ size.toNat) (hroom : size.toNat + 18 < 2 ^ 64)
    (hcentral : central.length = 46) (hclean : Clean central) :
    Gives (scanLoop (served size.toNat (archive size.toNat central)) size
      (size - ofNat 64 eocdMaxScan) scanTurns size) (some (size - 68)) := by
  have hscan : eocdMaxScan = 65557 := rfl
  have hspan : (size - (size - ofNat 64 eocdMaxScan)).toNat = 65557 := by
    rw [hscan]
    bv_omega
  have hmin : min 65557 scanWindowSize = 4096 := rfl
  have hstart : (size - ofNat 64 4096).toNat = size.toNat - 4096 := by
    rw [toNat_sub_of_le (le_def.2 (by change 4096 ≤ _; omega))]
    rfl
  have hplace : ∀ j < 4093, (size - ofNat 64 4096 + ofNat 64 j +
      ofNat 64 eocdSize).toNat = size.toNat - 4096 + j + 22 := by
    intro j hj
    have hj64 : (ofNat 64 j).toNat = j := toNat_ofNat_of_lt (by omega)
    have hrecord : (ofNat 64 eocdSize).toNat = 22 := rfl
    rw [toNat_add, toNat_add, hstart, hj64, hrecord]
    omega
  have hturns : scanTurns = 65556 + 1 := rfl
  rw [hturns]
  unfold scanLoop
  dsimp only
  rw [hspan, hmin, if_neg (by decide)]
  refine (gives_readExact (by omega)).bind ?_
  rw [hstart]
  have hfound : Gives (scanWindow size (size - ofNat 64 4096)
      (window (archive size.toNat central) (size.toNat - 4096) 4096) 4093 :
      Zipping Unit (Option DWord)) (some (size - ofNat 64 4096 + ofNat 64 4028)) := by
    refine gives_scanWindow (by decide) ?_ ?_ ?_
    · rw [le_def, hplace 4028 (by decide)]
      omega
    · exact (zipRd32_window (k := 0) (by omega) hcentral (by decide)).trans
        (zipRd32_endRecord central)
    · intro j hj hcount hsame
      rw [BitVec.lt_def, hplace j hcount]
      by_contra hfits
      obtain ⟨k, rfl⟩ := Nat.exists_eq_add_of_lt hj
      rw [add_assoc, zipRd32_window (by omega) hcentral (by omega)] at hsame
      exact hclean (k + 1) (by omega) (Nat.succ_pos k) hsame
  refine hfound.bind ?_
  have hsame : size - ofNat 64 4096 + ofNat 64 4028 = size - 68 := by
    bv_omega
  rw [hsame]
  exact gives_pure

/-- The directory of the archive. -/
def archiveZip (size : DWord) : Zip := ⟨size, size - 46, 46, 1⟩

theorem window_last (size : ℕ) (hbig : 144 ≤ size) (hcentral : central.length = 46) :
    window (archive size central) (size - 46) 46 = central := by
  have hplace : size - 46 = size - 144 + (76 + 22) := by omega
  rw [hplace, window_archive size hcentral (by decide), drop_archiveTail,
    drop_left' (by decide), take_of_length_le hcentral.le]

theorem zipRd32_of_put {data : List Octet} {value : ℕ}
    (h : (data.drop k).take 4 = LittleEndian.put 4 value) (hvalue : value < 2 ^ 32) :
    zipRd32 data k = ofNat 32 value := by
  rw [zipRd32, h, LittleEndian.get_put (by omega)]

theorem zipRd64_of_put {data : List Octet} {value : ℕ}
    (h : (data.drop k).take 8 = LittleEndian.put 8 value) (hvalue : value < 2 ^ 64) :
    zipRd64 data k = ofNat 64 value := by
  rw [zipRd64, h, LittleEndian.get_put (by omega)]

theorem zip64Locator_fields (size : ℕ) :
    zipRd32 (zip64Locator size) 0 = 0x07064b50 ∧ zipRd32 (zip64Locator size) 4 = 0 ∧
      zipRd32 (zip64Locator size) 16 = 1 :=
  ⟨zipRd32_of_put rfl (by decide), zipRd32_of_put rfl (by decide), zipRd32_of_put rfl (by decide)⟩

theorem zip64Record_fields (size : ℕ) : zipRd32 (zip64Record size) 0 = 0x06064b50 ∧
      (zipRd32 (zip64Record size) 16 = 0 ∧ zipRd32 (zip64Record size) 20 = 0) ∧
      zipRd64 (zip64Record size) 32 = 1 ∧ zipRd64 (zip64Record size) 40 = 46 :=
  ⟨zipRd32_of_put rfl (by decide), ⟨zipRd32_of_put rfl (by decide),
    zipRd32_of_put rfl (by decide)⟩, zipRd64_of_put rfl (by decide), zipRd64_of_put rfl (by decide)⟩

theorem gives_readZip64 {size : DWord} (hbig : eocdMaxScan ≤ size.toNat)
    (hcentral : central.length = 46) (zip : Zip) (hzip : zip.size = size) :
    Gives (readZip64 (served size.toNat (archive size.toNat central)) zip (size - 68))
      (archiveZip size) := by
  have hscan : eocdMaxScan = 65557 := rfl
  have hoff : (size - 68).toNat = size.toNat - 68 := by bv_omega
  have hwidth : eocd64LocSize = 20 := rfl
  have hloc : (size - 68 - ofNat 64 eocd64LocSize).toNat = size.toNat - 144 + 56 := by
    rw [hwidth]
    bv_omega
  unfold readZip64
  rw [hzip, if_neg (by omega)]
  refine (gives_readExact (by omega)).bind ?_
  rw [hloc, window_archive size.toNat hcentral (by decide)]
  have hlocator : ((archiveTail size.toNat central).drop 56).take eocd64LocSize =
      zip64Locator size.toNat := by
    have hfront : (zip64Record size.toNat).length = 56 := by simp [zip64Record]
    rw [archiveTail, append_assoc, append_assoc, drop_left' hfront]
    exact take_left' (by simp [zip64Locator, hwidth])
  rw [hlocator]
  have hrecord : zipRd64 (zip64Locator size.toNat) 8 = size - 144 := by
    rw [zipRd64_of_put rfl (by omega)]
    bv_omega
  have hrecordOff : (size - 144).toNat = size.toNat - 144 + 0 := by bv_omega
  have hfits : eocd64MinSize ≤ (size - (size - 144)).toNat := by
    have hleast : eocd64MinSize = 56 := rfl
    rw [hleast]
    bv_omega
  obtain ⟨hlocSig, hlocDisk, hlocDisks⟩ := zip64Locator_fields size.toNat
  rw [hlocSig, hlocDisk, hlocDisks, if_neg (by decide)]
  refine (gives_require rfl).bind ?_
  refine (gives_require (by decide)).bind ?_
  dsimp only
  rw [hrecord]
  refine (gives_require ⟨by bv_omega, hfits⟩).bind ?_
  have hleast : eocd64MinSize = 56 := rfl
  refine (gives_readExact (by omega)).bind ?_
  rw [hrecordOff, window_archive size.toNat hcentral (by decide)]
  have htail : ((archiveTail size.toNat central).drop 0).take eocd64MinSize =
      zip64Record size.toNat := by
    rw [archiveTail, append_assoc, append_assoc, drop_zero]
    exact take_left' (by simp [zip64Record, hleast])
  obtain ⟨hsig, hdisk, htotal, hsize⟩ := zip64Record_fields size.toNat
  have hoffset : zipRd64 (zip64Record size.toNat) 48 = size - 46 := by
    rw [zipRd64_of_put rfl (by omega)]
    bv_omega
  rw [htail, hsig, htotal, hsize, hoffset]
  refine (gives_require rfl).bind ?_
  refine (gives_require hdisk).bind ?_
  refine (gives_require (by decide)).bind ?_
  rw [← hzip]
  exact gives_pure

theorem endRecord_fields : (zipRd16 endRecord 4 = 0 ∧ zipRd16 endRecord 6 = 0) ∧
      zipRd16 endRecord 8 = zipRd16 endRecord 10 := by decide

theorem gives_vmfwZipOpen {size : DWord} (hlarge : 2 ^ 64 ≤ size.toNat + zipReach)
    (hroom : size.toNat + 18 < 2 ^ 64) (hcentral : central.length = 46) (hclean : Clean central) :
    Gives (vmfwZipOpen (served size.toNat (archive size.toNat central)) size)
      (archiveZip size) := by
  unfold zipReach at hlarge
  have hscan : eocdMaxScan = 65557 := rfl
  have hbig : eocdMaxScan ≤ size.toNat := by omega
  have hoff : (size - 68).toNat = size.toNat - 144 + (76 + 0) := by bv_omega
  have hwidth : eocdSize = 22 := rfl
  unfold vmfwZipOpen
  refine (gives_modify _).bind ?_
  refine (gives_require (by omega)).bind ?_
  dsimp only
  rw [min_eq_right hbig]
  refine (gives_scanLoop hbig hroom hcentral hclean).bind ?_
  refine gives_expect.bind ?_
  refine (gives_readExact (by omega)).bind ?_
  rw [hoff, window_archive size.toNat hcentral (by decide), drop_archiveTail, drop_zero,
    take_left' (by decide)]
  refine (gives_require endRecord_fields.1).bind ?_
  refine (gives_require endRecord_fields.2).bind ?_
  refine (gives_readZip64 hbig hcentral _ rfl).bind ?_
  have hplace : (archiveZip size).cdOffset.toNat = size.toNat - 46 := by
    change (size - 46).toNat = _
    bv_omega
  refine (gives_require ?_).bind ?_
  · rintro ⟨-, hoffset | hsize | hcount⟩
    · rw [hoffset] at hplace
      have hsentinel : (zip64Sentinel32.setWidth 64 : DWord).toNat = 0xffffffff := by decide
      omega
    · exact (show (46 : DWord) ≠ zip64Sentinel32.setWidth 64 by decide) hsize
    · exact (show (1 : Word) ≠ zip64Sentinel16.setWidth 32 by decide) hcount
  have hle : (archiveZip size).cdOffset ≤ size := le_def.2 (by omega)
  have hdirectory : (archiveZip size).cdSize ≤ size - (archiveZip size).cdOffset := by
    rw [le_def, toNat_sub_of_le hle, hplace]
    change 46 ≤ _
    omega
  refine (gives_require ⟨hle, hdirectory⟩).bind ?_
  refine (gives_require (by change 1 * 46 ≤ 46; decide)).bind ?_
  exact gives_pure

end

section

variable {ω α β : Type} {ch : Channel ω} {p : Zipping ω α}

/-- What has wrapped stays so. -/
abbrev Spoils (p : Zipping ω α) : Prop :=
  Attempt.Steady (fun st : ZipWorld ω ↦ st.wrapped = true) p

/-- The step ends with a sum that has wrapped. -/
def Overflows (p : Zipping ω α) : Prop := ∀ st, (p st).2.wrapped = true

theorem spoils_addOff (x y : DWord) : Spoils (addOff x y : Zipping ω DWord) := by
  have hlift : Spoils (lift fun st : ZipWorld ω ↦ (x + y,
      { st with wrapped := st.wrapped || decide (2 ^ 64 ≤ x.toNat + y.toNat) })) := by
    refine steady_lift fun st h ↦ ?_
    dsimp only
    rw [h, Bool.true_or]
  exact hlift

theorem spoils_readExact (size off : DWord) (len : ℕ) : Spoils (readExact ch size off len) := by
  unfold readExact
  split
  · exact steady_pure
  · split
    · exact steady_refuse
    · exact (steady_lift fun _ h ↦ h).bind fun _ ↦ steady_expect

theorem spoils_scanWindow (size start : DWord) (win : List Octet) (count : ℕ) :
    Spoils (scanWindow size start win count : Zipping ω (Option DWord)) := by
  induction count with
  | zero => exact steady_pure
  | succ i ih =>
    unfold scanWindow
    refine (spoils_addOff _ _).bind fun _ ↦ (spoils_addOff _ _).bind fun _ ↦ ?_
    split_ifs
    · exact ih
    · exact steady_pure
    · exact ih

theorem spoils_scanLoop (size scanStart : DWord) (turns : ℕ) (winEnd : DWord) :
    Spoils (scanLoop ch size scanStart turns winEnd) := by
  induction turns generalizing winEnd with
  | zero => exact steady_refuse
  | succ turns ih =>
    unfold scanLoop
    dsimp only
    split
    · exact steady_pure
    · refine (spoils_readExact _ _ _).bind fun _ ↦ (spoils_scanWindow _ _ _ _).bind fun _ ↦ ?_
      split
      · exact steady_pure
      · exact (spoils_addOff _ _).bind fun _ ↦ ih _

theorem spoils_readZip64 (zip : Zip) (eocdOff : DWord) : Spoils (readZip64 ch zip eocdOff) := by
  unfold readZip64
  split
  · exact steady_pure
  · refine (spoils_readExact _ _ _).bind fun _ ↦ ?_
    split
    · exact steady_pure
    · exact steady_require.seq <| steady_require.seq <| steady_require.seq <|
        (spoils_readExact _ _ _).bind fun _ ↦ steady_require.seq <| steady_require.seq <|
          steady_require.seq steady_pure

theorem spoils_applyZip64Extra (zip : Zip) (extraOff : DWord) (extraLen : ℕ) (e : ZipEntry)
    (need : Zip64Need) (turns off : ℕ) :
    Spoils (applyZip64Extra ch zip extraOff extraLen e need turns off) := by
  induction turns generalizing off with
  | zero => exact steady_refuse
  | succ turns ih =>
    unfold applyZip64Extra
    split
    · exact steady_refuse
    · refine (spoils_addOff _ _).bind fun _ ↦ (spoils_readExact _ _ _).bind fun _ ↦
        steady_require.seq ?_
      split
      · exact steady_require.seq <| (spoils_addOff _ _).bind fun _ ↦
          (spoils_readExact _ _ _).bind fun _ ↦ steady_pure
      · exact ih _

theorem spoils_readRecord (zip : Zip) (off : DWord) (hdr : List Octet) :
    Spoils (readRecord ch zip off hdr) := by
  unfold readRecord
  refine steady_require.seq <| steady_require.seq <| (spoils_addOff _ _).bind fun _ ↦
    (spoils_readExact _ _ _).bind fun _ ↦ steady_require.seq ?_
  dsimp only
  split
  · exact (spoils_addOff _ _).bind fun _ ↦ spoils_applyZip64Extra _ _ _ _ _ _ _
  · exact steady_pure

theorem spoils_visitEntry (visit : ZipVisit ω) (e : ZipEntry) (index : ℕ) (record : DWord × ℕ) :
    Spoils (visitEntry visit e index record) := by
  have hlift : Spoils (lift fun st : ZipWorld ω ↦ ((visit st.world e index).2,
      { st with
        world := (visit st.world e index).1
        visited := st.visited ++ [record] })) := steady_lift fun _ h ↦ h
  exact hlift

theorem spoils_iterateLoop (visit : ZipVisit ω) (zip : Zip) (stop : DWord) (count index : ℕ)
    (off : DWord) : Spoils (iterateLoop ch visit zip stop count index off) := by
  induction count generalizing index off with
  | zero => exact steady_pure
  | succ count ih =>
    unfold iterateLoop
    refine (spoils_addOff _ _).bind fun _ ↦ steady_require.seq <|
      (spoils_readExact _ _ _).bind fun _ ↦ steady_require.seq <| (spoils_addOff _ _).bind fun _ ↦
        steady_require.seq <| (spoils_readRecord _ _ _).bind fun _ ↦ steady_require.seq <|
          (spoils_visitEntry _ _ _ _).bind fun _ ↦ ?_
    split
    · exact ih _ _
    · exact steady_pure

theorem Gives.overflows {a : α} (h : Gives p a) (hf : Overflows (f a)) : Overflows (p >>= f) := by
  intro st
  obtain ⟨t, ht⟩ := h st
  rw [andThen_of_ok ht]
  exact hf t

theorem Overflows.bind (h : Overflows p) (hf : ∀ a, Spoils (f a)) : Overflows (p >>= f) := by
  intro st
  have hfirst := h st
  rcases hp : p st with ⟨_ | a, t⟩
  · rw [andThen_of_error hp]
    rwa [hp] at hfirst
  · rw [andThen_of_ok hp]
    rw [hp] at hfirst
    exact (hf a).after hfirst

theorem Overflows.not_ends {st : ZipWorld ω} (h : Overflows p) :
    ¬Ends (fun _ t ↦ t.wrapped = false) (fun _ t ↦ t.wrapped = false) p st := by
  intro hends
  have hlast := h st
  rw [ends_iff] at hends
  rcases hp : p st with ⟨e | a, t⟩
  · rw [hp, hends.2 e t hp] at hlast
    exact Bool.false_ne_true hlast
  · rw [hp, hends.1 a t hp] at hlast
    exact Bool.false_ne_true hlast

theorem overflows_addOff {x y : DWord} (h : 2 ^ 64 ≤ x.toNat + y.toNat) :
    Overflows (addOff x y : Zipping ω DWord) := by
  intro st
  change (st.wrapped || decide _) = true
  rw [decide_eq_true h, Bool.or_true]

end

/-- The longest record that a directory can speak of. -/
def longRecord : List Octet := centralRecord 65535 65535 65535

theorem longRecord_fields :
    zipRd32 longRecord 0 = sigCentral ∧ recordLength longRecord = 46 + zipReach ∧
      longRecord.length = 46 ∧ Clean longRecord := by decide +kernel

/-- The end of the last place that the first window is searched at lies behind the file, and past
`2 ^ 64` where the file is of such a size. -/
theorem vmfwZipOpen_overflows {size : DWord} (hlarge : 2 ^ 64 ≤ size.toNat + 18)
    (contents : ℕ → Octet) : Overflows (vmfwZipOpen (served size.toNat contents) size) := by
  have hscan : eocdMaxScan = 65557 := rfl
  have hbig : eocdMaxScan ≤ size.toNat := by omega
  have hspan : (size - (size - ofNat 64 eocdMaxScan)).toNat = 65557 := by
    rw [hscan]
    bv_omega
  have hmin : min 65557 scanWindowSize = 4096 := rfl
  have hstart : (size - ofNat 64 4096).toNat = size.toNat - 4096 := by bv_omega
  have hplace : (size - ofNat 64 4096 + ofNat 64 4092).toNat = size.toNat - 4 := by
    bv_omega
  have hwindow : ∀ win, Overflows (scanWindow size (size - ofNat 64 4096) win (4092 + 1) :
      Zipping Unit (Option DWord)) := by
    intro win
    unfold scanWindow
    refine (gives_addOff _ _).overflows ?_
    have hrecord : (ofNat 64 eocdSize).toNat = 22 := rfl
    have hsum : 2 ^ 64 ≤ (size - ofNat 64 4096 + ofNat 64 4092).toNat +
        (ofNat 64 eocdSize).toNat := by
      rw [hplace, hrecord]
      omega
    refine (overflows_addOff hsum).bind fun _ ↦ ?_
    split_ifs
    · exact spoils_scanWindow _ _ _ _
    · exact steady_pure
    · exact spoils_scanWindow _ _ _ _
  have hloop : Overflows (scanLoop (served size.toNat contents) size
      (size - ofNat 64 eocdMaxScan) (65556 + 1) size) := by
    unfold scanLoop
    dsimp only
    rw [hspan, hmin, if_neg (by decide)]
    refine (gives_readExact (by omega)).overflows ((hwindow _).bind fun _ ↦ ?_)
    split
    · exact steady_pure
    · exact (spoils_addOff _ _).bind fun _ ↦ spoils_scanLoop _ _ _ _
  have hwidth : eocdSize = 22 := rfl
  unfold vmfwZipOpen
  refine (gives_modify _).overflows ((gives_require (by omega)).overflows ?_)
  dsimp only
  rw [min_eq_right hbig]
  refine hloop.bind fun _ ↦ steady_expect.bind fun _ ↦ (spoils_readExact _ _ _).bind fun _ ↦ ?_
  exact steady_require.seq <| steady_require.seq <| (spoils_readZip64 _ _).bind fun _ ↦
    steady_require.seq <| steady_require.seq <| steady_require.seq steady_pure

theorem vmfwZipIterate_overflows {size : DWord} (hlarge : 2 ^ 64 ≤ size.toNat + zipReach)
    (visit : ZipVisit Unit) :
    Overflows (vmfwZipIterate (served size.toNat (archive size.toNat longRecord)) visit
      (archiveZip size)) := by
  have hreach : zipReach = 196605 := rfl
  obtain ⟨hsig, hrecord, hlength, -⟩ := longRecord_fields
  have hstop : (archiveZip size).cdOffset + (archiveZip size).cdSize = size := by
    change size - 46 + 46 = size
    bv_omega
  have hwidth : ofNat 64 centralMinSize = 46 := rfl
  have hoff : (size - 46).toNat = size.toNat - 46 := by bv_omega
  unfold vmfwZipIterate
  refine (gives_modify _).overflows ?_
  refine (gives_addOff _ _).overflows ?_
  rw [hstop]
  change Overflows (iterateLoop _ visit (archiveZip size) size (0 + 1) 0 (size - 46))
  unfold iterateLoop
  refine (gives_addOff _ _).overflows ?_
  refine (gives_require ?_).overflows ?_
  · rw [hwidth]
    bv_omega
  refine (gives_readExact (by unfold centralMinSize; omega)).overflows ?_
  rw [hoff, centralMinSize, window_last size.toNat (by omega) hlength]
  refine (gives_require hsig).overflows ?_
  have hlong : (ofNat 64 (recordLength longRecord)).toNat = 46 + 196605 := by
    rw [hrecord, hreach]
    rfl
  refine (overflows_addOff (by omega)).bind fun _ ↦ steady_require.seq <|
    (spoils_readRecord _ _ _).bind fun _ ↦ steady_require.seq <|
      (spoils_visitEntry _ _ _ _).bind fun _ ↦ ?_
  split
  · exact spoils_iterateLoop _ _ _ _ _ _
  · exact steady_pure

/-- What is promised for an archive of a size, whatever it holds and whatever its callbacks do:
every read lies inside the file and no sum of offsets wraps; opening, walking and extracting end
with success or with a status, which is the one for a failed read just where a read came short; the
records that are visited lie one behind another inside the declared directory; and an extraction
that succeeds has given the sink as many octets as the entry says, with the checksum that it says,
while one that does not names the sink or the inflater just where that is the cause. -/
def ZipSafe (size : DWord) : Prop :=
  ∀ (ω : Type) (ch : Channel ω) (st : ZipWorld ω), st.Inside size →
    Ends (fun zip t ↦ Fine size t ∧ zip.Opened size) (Stopped size) (vmfwZipOpen ch size) st ∧
    ∀ zip, (∃ t u, vmfwZipOpen ch size t = (.ok zip, u) ∧ t.Inside size) →
      (∀ visit : ZipVisit ω, Ends
        (fun _ t ↦ Fine size t ∧
          Laid zip.cdOffset.toNat (zip.cdOffset.toNat + zip.cdSize.toNat) t.visited)
        (fun e t ↦ Stopped size e t ∧
          Laid zip.cdOffset.toNat (zip.cdOffset.toNat + zip.cdSize.toNat) t.visited)
        (vmfwZipIterate ch visit zip) st) ∧
      ∀ entry : ZipEntry, Ends
        (fun _ t ↦ Fine size t ∧ t.refused = false ∧
          t.given.length = entry.uncompressedSize.toNat ∧ crc32 t.given = entry.crc32)
        (Refusal size) (vmfwZipExtract ch zip entry) st

/-- The promise holds for the sizes that leave room for the longest record behind the file, and for
no others. -/
theorem zipSafe_iff (size : DWord) : ZipSafe size ↔ size.toNat + zipReach < 2 ^ 64 := by
  constructor
  · intro h
    by_contra hlarge
    rw [not_lt] at hlarge
    obtain ⟨hsig, hrecord, hlength, hclean⟩ := longRecord_fields
    obtain ⟨hopen, hothers⟩ := h Unit (served size.toNat (archive size.toNat longRecord))
      (.start ()) ⟨by simp [ZipWorld.start], rfl⟩
    by_cases hroom : size.toNat + 18 < 2 ^ 64
    · obtain ⟨t, ht⟩ := gives_vmfwZipOpen hlarge hroom hlength hclean (.start ())
      have hwalk := (hothers _ ⟨_, t, ht, by simp [ZipWorld.start], rfl⟩).1 fun w _ _ ↦ (w, true)
      exact (vmfwZipIterate_overflows hlarge _).not_ends
        (hwalk.mono (fun _ _ hend ↦ hend.1.sums) fun _ _ hfail ↦ hfail.1.sums)
    · exact (vmfwZipOpen_overflows (not_lt.1 hroom) _).not_ends
        (hopen.mono (fun _ _ hend ↦ hend.1.sums) fun _ _ hfail ↦ hfail.sums)
  · intro hsize ω ch st hst
    refine ⟨(vmfwZipOpen_ends hsize hst).mono (fun _ _ hend ↦ ⟨hend.1, hend.2.2⟩)
      fun _ _ hfail ↦ hfail.1, ?_⟩
    rintro zip ⟨t, u, hopen, ht⟩
    have hopened : zip.Opened size := by
      have hends := @vmfwZipOpen_ends _ ch _ _ hsize ht
      rw [ends_iff] at hends
      exact (hends.1 zip u hopen).2.2
    exact ⟨fun visit ↦ vmfwZipIterate_ends hsize hst visit hopened,
      fun entry ↦ vmfwZipExtract_ends hsize hst hopened.size_eq entry⟩

/-- A directory at the end of an archive of `2 ^ 64 - 100000` octets, whose one record says that it
is longer than what is left of `2 ^ 64`. -/
def leavingSize : DWord := 0xfffffffffffe7960

def leavingRecord : List Octet := centralRecord 0 65535 65535

def leavingWalk : Except ZipStop Unit × ZipWorld Unit :=
  vmfwZipIterate (served leavingSize.toNat (archive leavingSize.toNat leavingRecord))
    (fun w _ _ ↦ (w, true)) (archiveZip leavingSize) (.start ())

/-- The archive is opened, and the record is visited though it ends behind the directory, since the
sum of its offset and its length wraps. -/
theorem vmfwZipIterate_leaves :
    (∃ t, vmfwZipOpen (served leavingSize.toNat (archive leavingSize.toNat leavingRecord))
      leavingSize (.start ()) = (.ok (archiveZip leavingSize), t)) ∧
      leavingWalk.2.visited = [(leavingSize - 46, 131116)] ∧ leavingWalk.2.wrapped = true ∧
      (archiveZip leavingSize).cdOffset.toNat + (archiveZip leavingSize).cdSize.toNat <
        (leavingSize - 46).toNat + 131116 ∧
      ¬ZipSafe leavingSize := by
  have hlength : leavingRecord.length = 46 := by decide
  have hclean : Clean leavingRecord := by decide +kernel
  have hlarge : 2 ^ 64 ≤ leavingSize.toNat + zipReach := by decide
  have hroom : leavingSize.toNat + 18 < 2 ^ 64 := by decide
  obtain ⟨t, ht⟩ := gives_vmfwZipOpen hlarge hroom hlength hclean (.start ())
  have hwrapped : leavingWalk.2.wrapped = true := by decide +kernel
  refine ⟨⟨t, ht⟩, by decide +kernel, hwrapped, by decide, fun h ↦ ?_⟩
  have hfresh : (ZipWorld.start ()).Inside leavingSize := ⟨by simp [ZipWorld.start], rfl⟩
  have hwalk := ((h Unit _ _ hfresh).2 _ ⟨_, t, ht, hfresh⟩).1 fun w _ _ ↦ (w, true)
  rw [ends_iff] at hwalk
  rcases hresult : leavingWalk with ⟨e | a, u⟩
  · rw [hresult, (hwalk.2 e u hresult).1.sums] at hwrapped
    exact Bool.false_ne_true hwrapped
  · rw [hresult, (hwalk.1 a u hresult).1.sums] at hwrapped
    exact Bool.false_ne_true hwrapped

end S5LBox.Firmware
