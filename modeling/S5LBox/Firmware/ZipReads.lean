import S5LBox.Firmware.InflateMirror
import S5LBox.Firmware.InflateSafe
import S5LBox.Firmware.Zip

/-!
# What the archive reader reads

Offsets and lengths come from the archive. Where the archive is not so large that their sums wrap,
every read lies inside the file, the records of the directory lie one behind another, and what is
reported names what has gone wrong.
-/

namespace S5LBox.Firmware

open List Attempt
open BitVec (eq_of_getLsbD_eq eq_of_toNat_eq getLsbD_setWidth getLsbD_shiftLeft getLsbD_ushiftRight
  getLsbD_xor le_def ofNat toNat_add toNat_sub_of_le)

def crc32Poly : Word := 0xedb88320

/-- CRC-32 by its polynomial, octet by octet. -/
def crc32 (data : List Octet) : Word :=
  ~~~(data.foldl (fun crc octet ↦ Crc.steps crc32Poly 8 (crc ^^^ octet.setWidth 32)) (~~~0))

theorem crc32Table_eq (octet : Octet) :
    crc32Table.getD octet.toNat 0 = Crc.steps crc32Poly 8 (octet.setWidth 32) := by
  revert octet
  decide +kernel

/-- A register is its low octet and what is above it. -/
theorem word_split (x : Word) : x = (x.setWidth 8).setWidth 32 ^^^ x >>> 8 <<< 8 := by
  refine eq_of_getLsbD_eq fun i hi ↦ ?_
  rw [getLsbD_xor, getLsbD_shiftLeft, getLsbD_ushiftRight,
    getLsbD_setWidth, getLsbD_setWidth, decide_eq_true hi]
  by_cases hlow : i < 8
  · simp [hlow]
  · rw [decide_eq_false hlow, show 8 + (i - 8) = i by omega]
    simp

theorem crc32Octet_eq (crc : Word) (octet : Octet) :
    crc32Octet crc octet = Crc.steps crc32Poly 8 (crc ^^^ octet.setWidth 32) := by
  obtain ⟨x, hx⟩ : ∃ x, crc ^^^ octet.setWidth 32 = x := ⟨_, rfl⟩
  have hshift : crc >>> 8 = x >>> 8 := by
    refine eq_of_getLsbD_eq fun i _ ↦ ?_
    rw [← hx, getLsbD_ushiftRight, getLsbD_ushiftRight, getLsbD_xor,
      getLsbD_setWidth, BitVec.getLsbD_of_ge octet (8 + i) (by omega)]
    simp
  have hlow : (x &&& 0xff).toNat = (x.setWidth 8).toNat := by
    rw [BitVec.toNat_and, BitVec.toNat_setWidth]
    exact Nat.and_two_pow_sub_one_eq_mod _ 8
  have hclear : ∀ i < 8, (x >>> 8 <<< 8).getLsbD i = false := by
    intro i hi
    rw [getLsbD_shiftLeft, decide_eq_true hi]
    simp
  have hback : x >>> 8 <<< 8 >>> 8 = x >>> 8 := by
    refine eq_of_getLsbD_eq fun i hi ↦ ?_
    rw [getLsbD_ushiftRight, getLsbD_shiftLeft, show 8 + i - 8 = i by omega]
    by_cases hin : 8 + i < 32
    · simp [hin]
    · rw [getLsbD_ushiftRight, BitVec.getLsbD_of_ge x (8 + i) (by omega), Bool.and_false]
  rw [crc32Octet, hx, hshift, hlow, crc32Table_eq]
  calc Crc.steps crc32Poly 8 ((x.setWidth 8).setWidth 32) ^^^ x >>> 8
      = Crc.steps crc32Poly 8 ((x.setWidth 8).setWidth 32) ^^^
          Crc.steps crc32Poly 8 (x >>> 8 <<< 8) := by
        rw [Crc.steps_of_clear hclear, hback]
    _ = Crc.steps crc32Poly 8 x := by
        rw [← Crc.steps_xor, ← word_split]

theorem vmfwCrc32_zero (data : List Octet) : vmfwCrc32 0 data = crc32 data := by
  unfold vmfwCrc32 crc32
  congr 2
  funext crc octet
  exact crc32Octet_eq crc octet

theorem vmfwCrc32_append (crc : Word) (data more : List Octet) :
    vmfwCrc32 crc (data ++ more) = vmfwCrc32 (vmfwCrc32 crc data) more := by
  unfold vmfwCrc32
  rw [BitVec.not_not, foldl_append]

section

variable {ω α β : Type} {ch : Channel ω} {size : DWord} {st t u : ZipWorld ω}

/-- Every read lies inside the file, and no sum of offsets has wrapped. -/
structure ZipWorld.Inside (size : DWord) (st : ZipWorld ω) : Prop where
  reads : ∀ read ∈ st.reads, read.1.toNat + read.2 ≤ size.toNat
  sums : st.wrapped = false

/-- What visits and extraction leave behind. -/
structure Kept (st t : ZipWorld ω) : Prop where
  visited : t.visited = st.visited
  given : t.given = st.given
  refused : t.refused = st.refused
  stream : t.stream = st.stream

theorem Kept.refl (st : ZipWorld ω) : Kept st st := ⟨rfl, rfl, rfl, rfl⟩

theorem Kept.trans (h : Kept st t) (h' : Kept t u) : Kept st u :=
  ⟨h'.visited.trans h.visited, h'.given.trans h.given, h'.refused.trans h.refused,
    h'.stream.trans h.stream⟩

/-- Nothing has gone wrong so far. -/
structure Fine (size : DWord) (st : ZipWorld ω) : Prop extends st.Inside size where
  short : st.short = false

/-- An operation stops with a status, which is the one for a failed read where a read came short. -/
structure Stopped (size : DWord) (e : ZipStop) (st : ZipWorld ω) : Prop extends
    st.Inside size where
  status : ∃ s, e = .status s ∧ s ≠ .sink ∧ s ≠ .inflate
  short : st.short = true ↔ e = .status .read

/-- A status that does not speak of the callbacks or the inflater. -/
def ZipStatus.Own (s : ZipStatus) : Prop := s ∉ [ZipStatus.read, .sink, .inflate]

instance (s : ZipStatus) : Decidable s.Own := inferInstanceAs (Decidable (_ ∉ _))

variable {s : ZipStatus} {off : DWord} {zip : Zip} {first last : ℕ}

theorem Fine.stopped (h : Fine size st) (hs : s.Own) : Stopped size (.status s) st := by
  unfold ZipStatus.Own at hs
  simp only [mem_cons, not_mem_nil, or_false, not_or] at hs
  refine ⟨h.toInside, ⟨s, rfl, hs.2⟩, ?_⟩
  rw [h.short]
  exact ⟨fun hshort ↦ absurd hshort Bool.false_ne_true,
    fun he ↦ absurd (ZipStop.status.inj he) hs.1⟩

/-- Where nothing has gone wrong, the step ends well with `post` or stops as it should. -/
def Behaves (size : DWord) (post : α → Prop) (p : Zipping ω α) : Prop :=
  ∀ st, Fine size st → Ends (fun a t ↦ Fine size t ∧ Kept st t ∧ post a)
    (fun e t ↦ Stopped size e t ∧ Kept st t) p st

variable {post : α → Prop} {post' : β → Prop} {p : Zipping ω α}

theorem behaves_pure {a : α} (h : post a) : Behaves size post (pure a : Zipping ω α) :=
  fun st hst ↦ ends_pure.2 ⟨hst, .refl st, h⟩

theorem behaves_refuse (hs : s.Own) : Behaves size post (refuse (.status s) : Zipping ω α) :=
  fun st hst ↦ ends_refuse.2 ⟨hst.stopped hs, .refl st⟩

theorem behaves_require {condition : Prop} [Decidable condition] (hs : s.Own) :
    Behaves size (fun _ ↦ condition) (require condition (.status s) : Zipping ω Unit) :=
  fun st hst ↦ ends_require.2 ⟨fun h ↦ ⟨hst, .refl st, h⟩, fun _ ↦ ⟨hst.stopped hs, .refl st⟩⟩

theorem behaves_expect {value : Option α} (hs : s.Own) :
    Behaves size (fun a ↦ value = some a) (expect value (.status s) : Zipping ω α) :=
  fun st hst ↦ ends_expect.2
    ⟨fun _ h ↦ ⟨hst, .refl st, h⟩, fun _ ↦ ⟨hst.stopped hs, .refl st⟩⟩

theorem Behaves.bind {f : α → Zipping ω β} (h : Behaves size post p)
    (next : ∀ a, post a → Behaves size post' (f a)) : Behaves size post' (p >>= f) := by
  intro st hst
  rw [ends_bind]
  refine (h st hst).mono ?_ fun _ _ hfail ↦ hfail
  rintro a t ⟨ht, hkept, ha⟩
  exact (next a ha t ht).mono (fun _ _ hend ↦ ⟨hend.1, hkept.trans hend.2.1, hend.2.2⟩)
    fun _ _ hfail ↦ ⟨hfail.1, hkept.trans hfail.2⟩

theorem addOff_behaves {a b : DWord} (h : a.toNat + b.toNat < 2 ^ 64) :
    Behaves size (fun sum ↦ sum.toNat = a.toNat + b.toNat) (addOff a b : Zipping ω DWord) := by
  intro st hst
  have hsum : (a + b).toNat = a.toNat + b.toNat := by
    rw [toNat_add]
    exact Nat.mod_eq_of_lt h
  unfold Ends addOff
  refine ⟨⟨⟨hst.reads, ?_⟩, hst.short⟩, ⟨rfl, rfl, rfl, rfl⟩, hsum⟩
  dsimp only
  rw [hst.sums, decide_eq_false (not_le.2 h)]
  rfl

theorem Inside.snoc (h : st.Inside size) {len : ℕ} (hin : off.toNat + len ≤ size.toNat) :
    ∀ read ∈ st.reads ++ [(off, len)], read.1.toNat + read.2 ≤ size.toNat := by
  intro read hread
  rcases mem_append.1 hread with hold | hnew
  · exact h.reads read hold
  · obtain rfl := mem_singleton.1 hnew
    exact hin

/-- A read inside the file delivers what was asked for, or comes short. -/
theorem readExact_behaves {len : ℕ} (h : off.toNat + len ≤ size.toNat) :
    Behaves size (fun data ↦ data.length = len) (readExact ch size off len) := by
  intro st hst
  unfold readExact
  split
  · next hzero => exact ends_pure.2 ⟨hst, .refl st, hzero.symm⟩
  · have hoff : off ≤ size := le_def.2 (by omega)
    have hroom : ¬(size < off ∨ (size - off).toNat < len) := by
      rw [not_or, BitVec.not_lt, toNat_sub_of_le hoff]
      exact ⟨hoff, by omega⟩
    rw [if_neg hroom, ends_bind]
    have hreads := Inside.snoc hst.toInside h
    rw [ends_lift]
    unfold ZipWorld.pread
    dsimp only
    obtain ⟨data, hdata⟩ : ∃ data, (ch.pread st.world off.toNat len).2.filter
        (fun data ↦ data.length = len) = data := ⟨_, rfl⟩
    rw [hdata]
    cases data with
    | none =>
      exact ends_refuse.2
        ⟨⟨⟨hreads, hst.sums⟩, ⟨_, rfl, by decide, by decide⟩, by simp⟩, ⟨rfl, rfl, rfl, rfl⟩⟩
    | some data =>
      have hlength : data.length = len := by
        have hfilter := (Option.filter_eq_some_iff.1 hdata).2
        exact of_decide_eq_true hfilter
      refine ends_pure.2 ⟨⟨⟨hreads, hst.sums⟩, ?_⟩, ⟨rfl, rfl, rfl, rfl⟩, hlength⟩
      dsimp only
      rw [hst.short]
      rfl

theorem Behaves.at {st : ZipWorld ω} (h : Behaves size post p) (hst : Fine size st) :
    Ends (fun a t ↦ Fine size t ∧ Kept st t ∧ post a) (fun e t ↦ Stopped size e t ∧ Kept st t)
      p st := h st hst

theorem toNat_ofNat_of_lt {n : ℕ} (h : n < 2 ^ 64) : (ofNat 64 n).toNat = n := by
  rw [BitVec.toNat_ofNat]
  exact Nat.mod_eq_of_lt h

/-- How far behind a record its fields can point. -/
def zipReach : ℕ := 3 * 65535

theorem zipRd16_lt (data : List Octet) (index : ℕ) : (zipRd16 data index).toNat ≤ 65535 :=
  Nat.le_of_lt_succ (zipRd16 data index).isLt

/-- The record of a file that a window has found. -/
def Located (size : DWord) (found : Option DWord) : Prop :=
  ∀ place, found = some place → place.toNat + eocdSize ≤ size.toNat

theorem scanWindow_behaves (hsize : size.toNat + zipReach < 2 ^ 64) {start : DWord}
    {win : List Octet} {count : ℕ} (h : start.toNat + count ≤ size.toNat) :
    Behaves size (Located size) (scanWindow size start win count : Zipping ω (Option DWord)) := by
  unfold zipReach at hsize
  induction count with
  | zero => exact behaves_pure fun _ hplace ↦ absurd hplace (by simp)
  | succ i ih =>
    have hi : (ofNat 64 i).toNat = i := toNat_ofNat_of_lt (by omega)
    have hrecord : (ofNat 64 eocdSize).toNat = 22 := by decide
    unfold scanWindow
    refine (addOff_behaves (by omega)).bind fun place hplace ↦ ?_
    refine (addOff_behaves (by omega)).bind fun stop hstop ↦ ?_
    split
    · exact ih (by omega)
    · next hfits =>
      split
      · refine behaves_pure ?_
        rintro _ ⟨⟩
        have hle := le_def.1 (BitVec.not_lt.1 hfits)
        unfold eocdSize
        omega
      · exact ih (by omega)

theorem scanLoop_behaves (hsize : size.toNat + zipReach < 2 ^ 64) {scanStart winEnd : DWord}
    {turns : ℕ} (hstart : scanStart.toNat ≤ winEnd.toNat) (hend : winEnd.toNat ≤ size.toNat)
    (hpos : 0 < turns) (hturns : winEnd.toNat - scanStart.toNat ≤ turns) :
    Behaves size (Located size) (scanLoop ch size scanStart turns winEnd) := by
  induction turns generalizing winEnd with
  | zero => exact absurd hpos (Nat.lt_irrefl 0)
  | succ turns ih =>
    have hspan : (winEnd - scanStart).toNat = winEnd.toNat - scanStart.toNat :=
      toNat_sub_of_le (le_def.2 hstart)
    obtain ⟨chunk, hchunk⟩ : ∃ chunk, min (winEnd - scanStart).toNat scanWindowSize = chunk :=
      ⟨_, rfl⟩
    have hle : chunk ≤ winEnd.toNat - scanStart.toNat := by
      rw [← hchunk, hspan]
      exact min_le_left _ _
    have hsmall : chunk ≤ 4096 := by
      rw [← hchunk]
      exact min_le_right _ _
    have hwidth : (ofNat 64 chunk).toNat = chunk := toNat_ofNat_of_lt (by omega)
    have hwin : (winEnd - ofNat 64 chunk).toNat = winEnd.toNat - chunk := by
      rw [toNat_sub_of_le (le_def.2 (by omega)), hwidth]
    unfold scanLoop
    dsimp only
    rw [hchunk]
    split
    · exact behaves_pure fun _ hplace ↦ absurd hplace (by simp)
    · next hroom =>
      refine (readExact_behaves (by omega)).bind fun win _ ↦ ?_
      refine (scanWindow_behaves hsize (by omega)).bind fun found hfound ↦ ?_
      split
      · exact behaves_pure hfound
      · next hmore =>
        -- The window was a full one, since its start is not that of the scan.
        have hfull : chunk = 4096 := by
          by_contra hpart
          refine hmore (.inr (eq_of_toNat_eq ?_))
          have hmin : chunk = winEnd.toNat - scanStart.toNat := by
            unfold scanWindowSize at hchunk
            omega
          omega
        have hoverlap : scanOverlap.toNat = 3 := rfl
        refine (addOff_behaves (by omega)).bind fun next hnext ↦ ?_
        have hdiff : scanStart.toNat ≠ winEnd.toNat - chunk := by
          intro hsame
          exact hmore (.inr (eq_of_toNat_eq (hwin.trans hsame.symm)))
        exact ih (by omega) (by omega) (by omega) (by omega)

theorem readZip64_behaves (hzip : zip.size = size) {eocdOff : DWord}
    (hoff : eocdOff.toNat ≤ size.toNat) :
    Behaves size (fun other ↦ other.size = size) (readZip64 ch zip eocdOff) := by
  have hwidth : (ofNat 64 eocd64LocSize).toNat = 20 := by decide
  unfold readZip64
  rw [hzip]
  split
  · exact behaves_pure hzip
  · next hroom =>
    unfold eocd64LocSize at hroom
    have hloc : (eocdOff - ofNat 64 eocd64LocSize).toNat = eocdOff.toNat - 20 := by
      rw [toNat_sub_of_le (le_def.2 (by omega)), hwidth]
    refine (readExact_behaves (by unfold eocd64LocSize at *; omega)).bind fun loc _ ↦ ?_
    split
    · exact behaves_pure hzip
    · refine (behaves_require (by decide)).bind fun _ _ ↦ ?_
      refine (behaves_require (by decide)).bind fun _ _ ↦ ?_
      refine (behaves_require (by decide)).bind fun _ hrecord ↦ ?_
      have hsub := toNat_sub_of_le hrecord.1
      have hle := le_def.1 hrecord.1
      refine (readExact_behaves (by omega)).bind fun record _ ↦ ?_
      refine (behaves_require (by decide)).bind fun _ _ ↦ ?_
      refine (behaves_require (by decide)).bind fun _ _ ↦ ?_
      refine (behaves_require (by decide)).bind fun _ _ ↦ ?_
      exact behaves_pure rfl

/-- What holds of a reader that was opened. -/
structure Zip.Opened (size : DWord) (zip : Zip) : Prop where
  size_eq : zip.size = size
  directory : zip.cdOffset.toNat + zip.cdSize.toNat ≤ size.toNat
  entries : zip.entryCount.toNat * centralMinSize ≤ zip.cdSize.toNat

theorem vmfwZipOpen_ends (hsize : size.toNat + zipReach < 2 ^ 64) (h : st.Inside size) :
    Ends (fun zip t ↦ Fine size t ∧ Kept st t ∧ zip.Opened size)
      (fun e t ↦ Stopped size e t ∧ Kept st t) (vmfwZipOpen ch size) st := by
  unfold vmfwZipOpen
  rw [ends_bind, ends_modify]
  have hfresh : Fine size { st with short := false } := ⟨⟨h.reads, h.sums⟩, rfl⟩
  refine (Behaves.at ?_ hfresh).mono
    (fun _ _ hend ↦ ⟨hend.1, ⟨hend.2.1.visited, hend.2.1.given, hend.2.1.refused, hend.2.1.stream⟩,
      hend.2.2⟩)
    fun _ _ hfail ↦ ⟨hfail.1, ⟨hfail.2.visited, hfail.2.given, hfail.2.refused, hfail.2.stream⟩⟩
  refine (behaves_require (by decide)).bind fun _ hleast ↦ ?_
  have hlen : min size.toNat eocdMaxScan ≤ size.toNat := min_le_left _ _
  have hmax : min size.toNat eocdMaxScan ≤ eocdMaxScan := min_le_right _ _
  have hwidth : (ofNat 64 (min size.toNat eocdMaxScan)).toNat = min size.toNat eocdMaxScan :=
    toNat_ofNat_of_lt (by omega)
  have hstart : (size - ofNat 64 (min size.toNat eocdMaxScan)).toNat =
      size.toNat - min size.toNat eocdMaxScan := by
    rw [toNat_sub_of_le (le_def.2 (by omega)), hwidth]
  dsimp only
  refine (scanLoop_behaves hsize (by omega) le_rfl (by decide) ?_).bind fun found hfound ↦ ?_
  · unfold scanTurns
    omega
  refine (behaves_expect (by decide)).bind fun place hplace ↦ ?_
  have hfits := hfound place hplace
  have hoff : place.toNat ≤ size.toNat := by omega
  refine (readExact_behaves hfits).bind fun eocd _ ↦ ?_
  refine (behaves_require (by decide)).bind fun _ _ ↦ ?_
  refine (behaves_require (by decide)).bind fun _ _ ↦ ?_
  have hclassic : (classicZip size eocd).1.size = size := rfl
  refine (readZip64_behaves hclassic hoff).bind fun zip hzip ↦ ?_
  refine (behaves_require (by decide)).bind fun _ _ ↦ ?_
  refine (behaves_require (by decide)).bind fun _ hdirectory ↦ ?_
  refine (behaves_require (by decide)).bind fun _ hentries ↦ ?_
  have hle := le_def.1 hdirectory.1
  have hroom := le_def.1 hdirectory.2
  rw [toNat_sub_of_le hdirectory.1] at hroom
  exact behaves_pure ⟨hzip, by omega, hentries⟩

theorem applyZip64Extra_behaves (hsize : size.toNat < 2 ^ 64) (hzip : zip.size = size)
    {extraOff : DWord} {extraLen : ℕ} (hextra : extraOff.toNat + extraLen ≤ size.toNat)
    {e : ZipEntry} {need : Zip64Need} {turns off : ℕ} (hoff : off ≤ extraLen)
    (hturns : extraLen < turns + off) :
    Behaves size (fun _ ↦ True) (applyZip64Extra ch zip extraOff extraLen e need turns off) := by
  induction turns generalizing off with
  | zero => omega
  | succ turns ih =>
    have hwidth : (ofNat 64 off).toNat = off := toNat_ofNat_of_lt (by omega)
    have hfour : (4 : DWord).toNat = 4 := rfl
    unfold applyZip64Extra
    rw [hzip]
    split
    · exact behaves_refuse (by decide)
    · refine (addOff_behaves (by omega)).bind fun place hplace ↦ ?_
      refine (readExact_behaves (by omega)).bind fun hdr _ ↦ ?_
      refine (behaves_require (by decide)).bind fun _ hlen ↦ ?_
      split
      · refine (behaves_require (by decide)).bind fun _ hwant ↦ ?_
        refine (addOff_behaves (by omega)).bind fun body hbody ↦ ?_
        refine (readExact_behaves (by omega)).bind fun _ _ ↦ ?_
        exact behaves_pure trivial
      · exact ih hlen (by omega)

theorem readRecord_behaves (hsize : size.toNat < 2 ^ 64) (hzip : zip.size = size)
    {hdr : List Octet} (h : off.toNat + recordLength hdr ≤ size.toNat) :
    Behaves size (fun _ ↦ True) (readRecord ch zip off hdr) := by
  have hwidth : (ofNat 64 centralMinSize).toNat = 46 := by decide
  have hname : (ofNat 64 (zipRd16 hdr 28).toNat).toNat = (zipRd16 hdr 28).toNat :=
    toNat_ofNat_of_lt (by have := zipRd16_lt hdr 28; omega)
  unfold recordLength centralMinSize at h
  unfold readRecord
  rw [hzip]
  refine (behaves_require (by decide)).bind fun _ _ ↦ ?_
  refine (behaves_require (by decide)).bind fun _ _ ↦ ?_
  refine (addOff_behaves (by omega)).bind fun nameOff hnameOff ↦ ?_
  refine (readExact_behaves (by omega)).bind fun name _ ↦ ?_
  refine (behaves_require (by decide)).bind fun _ _ ↦ ?_
  dsimp only
  split
  · refine (addOff_behaves (by omega)).bind fun extraOff hextraOff ↦ ?_
    exact applyZip64Extra_behaves hsize hzip (by omega) (Nat.zero_le _) (by omega)
  · exact behaves_pure trivial

/-- Records one behind another, between two places. -/
structure Laid (first last : ℕ) (records : List (DWord × ℕ)) : Prop where
  apart : records.Pairwise fun a b ↦ a.1.toNat + a.2 ≤ b.1.toNat
  inside : ∀ record ∈ records, first ≤ record.1.toNat ∧ record.1.toNat + record.2 ≤ last

theorem laid_nil (first last : ℕ) : Laid first last [] := ⟨.nil, by simp⟩

theorem Laid.push {stop length : ℕ} {records : List (DWord × ℕ)} (h : Laid first last records)
    (hfirst : first ≤ last) (hoff : last ≤ off.toNat) (hstop : off.toNat + length ≤ stop) :
    Laid first stop (records ++ [(off, length)]) := by
  refine ⟨pairwise_append.2 ⟨h.apart, pairwise_singleton _ _, ?_⟩, ?_⟩
  · intro a ha b hb
    obtain rfl := mem_singleton.1 hb
    exact (h.inside a ha).2.trans hoff
  · intro record hrecord
    rcases mem_append.1 hrecord with hold | hnew
    · have hin := h.inside record hold
      exact ⟨hin.1, by omega⟩
    · obtain rfl := mem_singleton.1 hnew
      exact ⟨by dsimp only; omega, hstop⟩

theorem Laid.mono {stop : ℕ} {records : List (DWord × ℕ)} (h : Laid first last records)
    (hle : last ≤ stop) : Laid first stop records :=
  ⟨h.apart, fun record hrecord ↦
    ⟨(h.inside record hrecord).1, (h.inside record hrecord).2.trans hle⟩⟩

/-- What the walk through the directory leaves. -/
structure Walked (first last : ℕ) (st t : ZipWorld ω) : Prop where
  laid : Laid first last t.visited
  given : t.given = st.given
  refused : t.refused = st.refused
  stream : t.stream = st.stream

theorem Walked.kept (h : Walked first last st t) (hkept : Kept t u) : Walked first last st u :=
  ⟨hkept.visited ▸ h.laid, hkept.given.trans h.given, hkept.refused.trans h.refused,
    hkept.stream.trans h.stream⟩

theorem Walked.mono {stop : ℕ} (h : Walked first last st t) (hle : last ≤ stop) :
    Walked first stop st t := ⟨h.laid.mono hle, h.given, h.refused, h.stream⟩

theorem Behaves.walk (h : Behaves size post p) (ht : Fine size t)
    (hwalked : Walked first last st t) :
    Ends (fun a u ↦ post a ∧ Fine size u ∧ Walked first last st u)
      (fun e u ↦ Stopped size e u ∧ Walked first last st u) p t :=
  (h t ht).mono (fun _ _ hend ↦ ⟨hend.2.2, hend.1, hwalked.kept hend.2.1⟩)
    fun _ _ hfail ↦ ⟨hfail.1, hwalked.kept hfail.2⟩

theorem iterateLoop_ends (hsize : size.toNat + zipReach < 2 ^ 64) {visit : ZipVisit ω}
    (hzip : zip.size = size) {stop : DWord} (hstop : stop.toNat ≤ size.toNat) {count index : ℕ}
    (hfirst : first ≤ off.toNat) (hoff : off.toNat ≤ stop.toNat) (ht : Fine size t)
    (hwalked : Walked first off.toNat st t) :
    Ends (fun _ u ↦ Fine size u ∧ Walked first stop.toNat st u)
      (fun e u ↦ Stopped size e u ∧ Walked first stop.toNat st u)
      (iterateLoop ch visit zip stop count index off) t := by
  unfold zipReach at hsize
  induction count generalizing index off t with
  | zero => exact ends_pure.2 ⟨ht, hwalked.mono hoff⟩
  | succ count ih =>
    have hwidth : (ofNat 64 centralMinSize).toNat = 46 := by decide
    have hfail : ∀ (e : ZipStop) (u : ZipWorld ω), Stopped size e u ∧ Walked first off.toNat st u →
        Stopped size e u ∧ Walked first stop.toNat st u :=
      fun _ _ h ↦ ⟨h.1, h.2.mono hoff⟩
    unfold iterateLoop
    rw [hzip]
    rw [ends_bind]
    refine ((addOff_behaves (by omega)).walk ht hwalked).mono ?_ hfail
    rintro headerEnd t ⟨hheader, ht, hwalked⟩
    rw [ends_bind]
    refine ((behaves_require (by decide)).walk ht hwalked).mono ?_ hfail
    rintro _ t ⟨hin, ht, hwalked⟩
    have hle := le_def.1 hin
    rw [ends_bind]
    have hfits : off.toNat + centralMinSize ≤ size.toNat := by
      unfold centralMinSize
      omega
    refine ((readExact_behaves hfits).walk ht hwalked).mono ?_ hfail
    rintro hdr t ⟨-, ht, hwalked⟩
    rw [ends_bind]
    refine ((behaves_require (by decide)).walk ht hwalked).mono ?_ hfail
    rintro _ t ⟨-, ht, hwalked⟩
    have hname := zipRd16_lt hdr 28
    have hextra := zipRd16_lt hdr 30
    have hcomment := zipRd16_lt hdr 32
    have hlength : recordLength hdr ≤ 46 + zipReach := by
      unfold recordLength centralMinSize zipReach
      omega
    unfold zipReach at hlength
    have hrecord : (ofNat 64 (recordLength hdr)).toNat = recordLength hdr :=
      toNat_ofNat_of_lt (by omega)
    rw [ends_bind]
    refine ((addOff_behaves (by omega)).walk ht hwalked).mono ?_ hfail
    rintro recordEnd t ⟨hend, ht, hwalked⟩
    rw [ends_bind]
    refine ((behaves_require (by decide)).walk ht hwalked).mono ?_ hfail
    rintro _ t ⟨hin, ht, hwalked⟩
    have hlast := le_def.1 hin
    rw [ends_bind]
    refine ((readRecord_behaves (by omega) hzip (by omega)).walk ht hwalked).mono ?_ hfail
    rintro e t ⟨-, ht, hwalked⟩
    rw [ends_bind]
    refine ((behaves_require (by decide)).walk ht hwalked).mono ?_ hfail
    rintro _ t ⟨-, ht, hwalked⟩
    have hnext : Walked first recordEnd.toNat st
        { t with
          world := (visit t.world e index).1
          visited := t.visited ++ [(off, recordLength hdr)] } :=
      ⟨hwalked.laid.push hfirst le_rfl (by omega), hwalked.given, hwalked.refused, hwalked.stream⟩
    have hfine : Fine size
        { t with
          world := (visit t.world e index).1
          visited := t.visited ++ [(off, recordLength hdr)] } :=
      ⟨⟨ht.reads, ht.sums⟩, ht.short⟩
    rw [ends_bind]
    unfold visitEntry
    refine ends_iff.2 ⟨?_, ?_⟩
    · rintro more u ⟨⟩
      split
      · exact ih (by omega) hlast hfine hnext
      · exact ends_pure.2 ⟨hfine, hnext.mono hlast⟩
    · rintro e u ⟨⟩

theorem vmfwZipIterate_ends (hsize : size.toNat + zipReach < 2 ^ 64) (h : st.Inside size)
    (visit : ZipVisit ω) (hzip : zip.Opened size) : Ends (fun _ t ↦ Fine size t ∧
        Laid zip.cdOffset.toNat (zip.cdOffset.toNat + zip.cdSize.toNat) t.visited)
      (fun e t ↦ Stopped size e t ∧
        Laid zip.cdOffset.toNat (zip.cdOffset.toNat + zip.cdSize.toNat) t.visited)
      (vmfwZipIterate ch visit zip) st := by
  unfold vmfwZipIterate
  rw [ends_bind, ends_modify, ends_bind]
  have hdirectory := hzip.directory
  have hwalk : Walked zip.cdOffset.toNat zip.cdOffset.toNat st
      { st with visited := [], short := false } := ⟨laid_nil _ _, rfl, rfl, rfl⟩
  have hend : zip.cdOffset.toNat + zip.cdSize.toNat < 2 ^ 64 := by omega
  have hfresh : Fine size { st with visited := [], short := false } :=
    ⟨⟨h.reads, h.sums⟩, rfl⟩
  refine ((addOff_behaves hend).walk hfresh hwalk).mono ?_ ?_
  · rintro stop t ⟨hstop, ht, hwalked⟩
    rw [← hstop]
    exact (iterateLoop_ends hsize hzip.size_eq (by omega) le_rfl (by omega) ht hwalked).mono
      (fun _ _ hend ↦ ⟨hend.1, hend.2.laid⟩) fun _ _ hfail ↦ ⟨hfail.1, hfail.2.laid⟩
  · exact fun _ _ hfail ↦ ⟨hfail.1, (hfail.2.mono (Nat.le_add_right _ _)).laid⟩

/-- How an extraction stops: with a status that names what has gone wrong. -/
structure Refusal (size : DWord) (e : ZipStop) (st : ZipWorld ω) : Prop extends
    st.Inside size where
  status : ∃ s, e = .status s
  short : st.short = true ↔ e = .status .read
  refused : st.refused = true ↔ e = .status .sink
  corrupt : (st.stream.isSome = true ∧ st.short = false ∧ st.refused = false) ↔ e = .status .inflate

theorem Stopped.refusal {e : ZipStop} (h : Stopped size e st) (hrefused : st.refused = false)
    (hstream : st.stream = none) : Refusal size e st := by
  obtain ⟨s, rfl, hsink, hinflate⟩ := h.status
  refine ⟨h.toInside, ⟨s, rfl⟩, h.short, ?_, ?_⟩
  · rw [hrefused]
    exact ⟨fun htrue ↦ absurd htrue Bool.false_ne_true,
      fun he ↦ absurd (ZipStop.status.inj he) hsink⟩
  · rw [hstream]
    exact ⟨fun hall ↦ absurd hall.1 Bool.false_ne_true,
      fun he ↦ absurd (ZipStop.status.inj he) hinflate⟩

variable {m v : Member ω}

/-- A member of which all that was delivered was read inside the file and taken by the sink. -/
structure Good (size : DWord) (m : Member ω) : Prop where
  fine : Fine size m.reading
  room : m.off.toNat + m.remaining.toNat ≤ size.toNat
  failed : m.failed = false
  innerRefused : m.innerRefused = false
  refused : m.reading.refused = false
  stream : m.reading.stream = none
  crc : m.crc = vmfwCrc32 0 m.reading.given
  total : m.total = ofNat 64 m.reading.given.length

/-- A member for which `s` is to be reported. -/
structure Broken (size : DWord) (s : ZipStatus) (m : Member ω) : Prop where
  inside : m.reading.Inside size
  short : m.reading.short = true ↔ s = .read
  refused : m.reading.refused = true ↔ s = .sink
  stream : m.reading.stream = none
  reported : inflateStatus m = s
  cause : s = .read ∨ s = .sink ∨ s = .inflate

theorem Good.broken (h : Good size m) : Broken size .inflate m := by
  refine ⟨h.fine.toInside, ?_, ?_, h.stream, ?_, .inr (.inr rfl)⟩
  · rw [h.fine.short]
    decide
  · rw [h.refused]
    decide
  · unfold inflateStatus
    rw [h.innerRefused, h.failed]
    rfl

theorem Broken.refusal (h : Broken size s m) (hs : s ≠ .inflate) :
    Refusal size (.status s) m.reading := by
  refine ⟨h.inside, ⟨s, rfl⟩, ?_, ?_, ?_⟩
  · rw [h.short, ZipStop.status.injEq]
  · rw [h.refused, ZipStop.status.injEq]
  · rw [h.stream]
    exact ⟨fun hall ↦ absurd hall.1 Bool.false_ne_true,
      fun he ↦ absurd (ZipStop.status.inj he) hs⟩

theorem Broken.inflated (h : Broken size s m) (e : InflateError) :
    Refusal size (.status (inflateStatus m)) { m.reading with stream := some e } := by
  rw [h.reported]
  refine ⟨⟨h.inside.reads, h.inside.sums⟩, ⟨s, rfl⟩, ?_, ?_, ?_⟩
  · rw [ZipStop.status.injEq]
    exact h.short
  · rw [ZipStop.status.injEq]
    exact h.refused
  · dsimp only
    rw [Option.isSome_some, eq_self_iff_true, true_and, ZipStop.status.injEq,
      ← Bool.not_eq_true, ← Bool.not_eq_true, h.short, h.refused]
    rcases h.cause with rfl | rfl | rfl <;> decide

theorem memberRead_some {cap : ℕ} {data : List Octet} (h : memberRead ch m cap = (v, some data)) :
    v.reading.given = m.reading.given ∧ v.remaining.toNat + data.length = m.remaining.toNat ∧
      data.length = min cap m.remaining.toNat := by
  unfold memberRead at h
  split at h
  · next hzero =>
    obtain ⟨rfl, hdata⟩ := Prod.mk.inj h
    obtain rfl := Option.some.inj hdata
    rw [hzero]
    exact ⟨rfl, rfl, (Nat.min_zero _).symm⟩
  · dsimp only at h
    obtain ⟨want, hwant⟩ : ∃ want, min cap m.remaining.toNat = want := ⟨_, rfl⟩
    have hle : want ≤ m.remaining.toNat := hwant ▸ min_le_right _ _
    rw [hwant] at h ⊢
    have hwidth : (ofNat 64 want).toNat = want :=
      toNat_ofNat_of_lt (by have := m.remaining.isLt; omega)
    have hsub : (m.remaining - ofNat 64 want).toNat = m.remaining.toNat - want := by
      rw [toNat_sub_of_le (le_def.2 (by omega)), hwidth]
    split at h
    · cases (Prod.mk.inj h).2
    · next answer reading hread =>
      obtain ⟨rfl, hdata⟩ := Prod.mk.inj h
      obtain rfl := Option.some.inj hdata
      obtain ⟨hfilter, rfl⟩ := Prod.mk.inj hread
      have hlength : answer.length = want :=
        of_decide_eq_true (Option.filter_eq_some_iff.1 hfilter).2
      exact ⟨rfl, by dsimp only; omega, hlength⟩

/-- Where nothing has gone wrong, nothing has after a read either, or it is a failure. -/
theorem memberRead_good (h : Good size m) (cap : ℕ) :
    (∀ v data, memberRead ch m cap = (v, some data) → Good size v) ∧
    ∀ v, memberRead ch m cap = (v, none) → Broken size .read v := by
  have hsize := size.isLt
  unfold memberRead
  split
  · refine ⟨?_, fun v hv ↦ by cases (Prod.mk.inj hv).2⟩
    rintro v data ⟨⟩
    exact h
  · obtain ⟨want, hwant⟩ : ∃ want, min cap m.remaining.toNat = want := ⟨_, rfl⟩
    have hle : want ≤ m.remaining.toNat := hwant ▸ min_le_right _ _
    have hroom := h.room
    have hwidth : (ofNat 64 want).toNat = want := toNat_ofNat_of_lt (by omega)
    have hin : m.off.toNat + want ≤ size.toNat := by omega
    have hreads := Inside.snoc h.fine.toInside hin
    dsimp only
    rw [hwant]
    unfold ZipWorld.pread
    dsimp only
    obtain ⟨answer, hanswer⟩ : ∃ answer, (ch.pread m.reading.world m.off.toNat want).2.filter
        (fun data ↦ data.length = want) = answer := ⟨_, rfl⟩
    rw [hanswer]
    cases answer with
    | none =>
      refine ⟨fun v data hv ↦ (by cases (Prod.mk.inj hv).2), ?_⟩
      rintro v ⟨⟩
      refine ⟨⟨hreads, h.fine.sums⟩, by simp, ?_, h.stream, ?_, .inl rfl⟩
      · dsimp only
        rw [h.refused]
        decide
      · unfold inflateStatus
        dsimp only
        rw [h.innerRefused]
        rfl
    | some data =>
      refine ⟨?_, fun v hv ↦ by cases (Prod.mk.inj hv).2⟩
      rintro v more ⟨⟩
      have hsub : (m.remaining - ofNat 64 want).toNat = m.remaining.toNat - want := by
        rw [toNat_sub_of_le (le_def.2 (by omega)), hwidth]
      have hadd : (m.off + ofNat 64 want).toNat = m.off.toNat + want := by
        rw [toNat_add, hwidth]
        exact Nat.mod_eq_of_lt (by omega)
      refine ⟨⟨⟨hreads, ?_⟩, ?_⟩, ?_, h.failed, h.innerRefused, h.refused, h.stream, h.crc, h.total⟩
      · unfold addOff
        dsimp only
        rw [h.fine.sums, hwidth, decide_eq_false (by omega)]
        rfl
      · unfold addOff
        dsimp only
        rw [h.fine.short]
        rfl
      · dsimp only
        omega

theorem crcSinkWrite_given (m : Member ω) (data : List Octet) :
    (crcSinkWrite ch m data).1.reading.given = m.reading.given ++ data ∧
      (crcSinkWrite ch m data).1.remaining = m.remaining := by
  unfold crcSinkWrite
  dsimp only
  split <;> exact ⟨rfl, rfl⟩

theorem crcSinkWrite_good (h : Good size m) (data : List Octet) :
    (∀ v, crcSinkWrite ch m data = (v, true) → Good size v) ∧
    ∀ v, crcSinkWrite ch m data = (v, false) → Broken size .sink v := by
  unfold crcSinkWrite
  dsimp only
  obtain ⟨answer, hanswer⟩ : ∃ answer, ch.sink m.reading.world data = answer := ⟨_, rfl⟩
  rw [hanswer]
  obtain ⟨world, taken⟩ := answer
  cases taken with
  | true =>
    refine ⟨?_, fun v hv ↦ by cases (Prod.mk.inj hv).2⟩
    rintro v ⟨⟩
    refine ⟨⟨⟨h.fine.reads, h.fine.sums⟩, h.fine.short⟩, h.room, h.failed, h.innerRefused, ?_,
      h.stream, ?_, ?_⟩
    · dsimp only
      rw [h.refused]
      rfl
    · dsimp only
      rw [h.crc, vmfwCrc32_append]
    · dsimp only
      rw [h.total, length_append, BitVec.ofNat_add]
  | false =>
    refine ⟨fun v hv ↦ (by cases (Prod.mk.inj hv).2), ?_⟩
    rintro v ⟨⟩
    refine ⟨⟨h.fine.reads, h.fine.sums⟩, ?_, by simp, h.stream, rfl, .inr (.inl rfl)⟩
    dsimp only
    rw [h.fine.short]
    decide

/-- How the payload of a member ends. -/
def Delivered (size : DWord) (usize : ℕ) (result : Except ZipStop Unit × Member ω) : Prop :=
  match result.1 with
  | .ok () => Good size result.2 ∧ result.2.reading.given.length ≤ usize
  | .error e => Refusal size e result.2.reading

theorem storeLoop_delivers {turns usize : ℕ} (h : Good size m) (hturns : m.remaining.toNat < turns)
    (husize : m.reading.given.length + m.remaining.toNat = usize) :
    Delivered size usize (storeLoop ch turns m) := by
  induction turns generalizing m with
  | zero => omega
  | succ turns ih =>
    unfold storeLoop
    split
    · exact ⟨h, by dsimp only; omega⟩
    · next hmore =>
      have hpos : 0 < m.remaining.toNat := by
        rw [Nat.pos_iff_ne_zero]
        exact fun hzero ↦ hmore (eq_of_toNat_eq hzero)
      obtain ⟨hread, hfailed⟩ := @memberRead_good _ ch _ _ h storeBuffer
      split
      · next v hv => exact (hfailed v hv).refusal (by decide)
      · next v hv =>
        obtain ⟨-, -, hlength⟩ := memberRead_some hv
        rw [length_nil] at hlength
        unfold storeBuffer at hlength
        omega
      · next v octet rest hv =>
        obtain ⟨hgiven, hleft, hlength⟩ := memberRead_some hv
        obtain ⟨htaken, hrefused⟩ := @crcSinkWrite_good _ ch _ _ (hread v _ hv) (octet :: rest)
        have hkept := @crcSinkWrite_given _ ch v (octet :: rest)
        have hcount : (octet :: rest).length = rest.length + 1 := length_cons
        split
        · next w hw => exact (hrefused w hw).refusal (by decide)
        · next w hw =>
          rw [hw] at hkept
          refine ih (htaken w hw) ?_ ?_
          · rw [hkept.2]
            omega
          · rw [hkept.1, hkept.2, hgiven, length_append]
            omega

/-- The callbacks of the inflater, beside themselves. -/
theorem member_alike : Alike (memberEndpoints ch) (memberEndpoints ch)
    (fun m m' ↦ m = m' ∧ Good size m) fun _ m ↦ ∃ s, Broken size s m := by
  refine ⟨?_, ?_⟩
  · rintro m _ ⟨rfl, h⟩
    obtain ⟨hread, hfailed⟩ := @memberRead_good _ ch _ _ h inBuf
    exact ⟨fun v data hv ↦ ⟨v, hv, rfl, hread v data hv⟩, fun v hv ↦ ⟨_, hfailed v hv⟩⟩
  · rintro m _ data ⟨rfl, h⟩
    obtain ⟨htaken, hrefused⟩ := @crcSinkWrite_good _ ch _ _ h data
    exact ⟨fun v hv ↦ ⟨v, hv, rfl, htaken v hv⟩, fun v hv ↦ ⟨_, hrefused v hv⟩⟩

/-- The source delivers the octets of the member at most, and what the sink is given is recorded. -/
theorem member_watched : Watched (memberEndpoints ch) (fun m ↦ m.reading.given)
    fun m ↦ m.remaining.toNat := by
  refine ⟨?_, ?_, fun m data ↦ (crcSinkWrite_given m data).1,
    fun m data ↦ (congrArg BitVec.toNat (crcSinkWrite_given m data).2).le⟩
  · intro m
    change (memberRead ch m inBuf).1.reading.given = _
    unfold memberRead ZipWorld.pread
    dsimp only
    split
    · rfl
    · split
      · next hv => rw [← (Prod.mk.inj hv).2]
      · next hv => rw [← (Prod.mk.inj hv).2]; rfl
  · intro m data hdata _
    have hread : memberRead ch m inBuf = ((memberRead ch m inBuf).1, some data) :=
      Prod.ext rfl hdata
    exact (memberRead_some hread).2.1.le

theorem inflateMember_delivers (h : Good size m) (hgiven : m.reading.given = []) (usize : DWord) :
    Delivered size usize.toNat (inflateMember ch usize m) := by
  have hends := @inflateEntry_ends _ _ _ _ (@member_watched _ ch) m (8 * m.remaining.toNat + 1)
    usize false hgiven (Nat.lt_succ_self _)
  have hmirrors := @inflateEntry_mirrors _ _ _ _ _ _ (@member_alike _ ch size)
    (8 * m.remaining.toNat + 1) usize false m m ⟨rfl, h⟩
  rw [ends_iff] at hends
  unfold inflateMember vmfwInflate
  obtain ⟨result, hresult⟩ : ∃ result, inflateEntry (memberEndpoints ch)
      (8 * m.remaining.toNat + 1) m usize false = result := ⟨_, rfl⟩
  rw [hresult] at hmirrors ⊢
  obtain ⟨outcome, t⟩ := result
  dsimp only
  cases outcome with
  | ok u =>
    obtain ⟨hflushed, -⟩ := hends.1 u t hresult
    obtain ⟨v, -, -, hgood⟩ := hmirrors.1 t rfl
    have hsunk := hflushed.sunk
    have hlength := hflushed.length
    have hlimited := hflushed.limited
    refine ⟨hgood, ?_⟩
    dsimp only
    rw [hsunk]
    omega
  | error e =>
    obtain ⟨status, rfl⟩ := (hends.2 e t hresult).status
    rcases hmirrors.2 _ t rfl with ⟨s, hbroken⟩ | ⟨v, -, -, hgood⟩
    · exact hbroken.inflated status
    · exact hgood.broken.inflated status

theorem extractPayload_delivers (h : Good size m) (hgiven : m.reading.given = [])
    {entry : ZipEntry} (hremaining : m.remaining = entry.compressedSize) :
    Delivered size entry.uncompressedSize.toNat (extractPayload ch entry m) := by
  unfold extractPayload
  split
  · split
    · exact (h.fine.stopped (by decide)).refusal h.refused h.stream
    · next hsame =>
      refine storeLoop_delivers h (Nat.lt_succ_self _) ?_
      rw [hgiven, hremaining, not_not.1 hsame]
      exact Nat.zero_add _
  · exact inflateMember_delivers h hgiven _

theorem extractData_ends (h : Fine size st) (hgiven : st.given = []) (hrefused : st.refused = false)
    (hstream : st.stream = none) (entry : ZipEntry) {dataOff : DWord}
    (hroom : dataOff.toNat + entry.compressedSize.toNat ≤ size.toNat) :
    Ends (fun sums t ↦ Fine size t ∧ t.refused = false ∧ t.stream = none ∧
        sums.1 = crc32 t.given ∧ sums.2 = ofNat 64 t.given.length ∧
        t.given.length ≤ entry.uncompressedSize.toNat)
      (Refusal size) (extractData ch entry dataOff) st := by
  have hgood : Good size (Member.start st dataOff entry.compressedSize) := by
    refine ⟨h, hroom, rfl, rfl, hrefused, hstream, ?_, ?_⟩
    · change 0 = vmfwCrc32 0 st.given
      rw [hgiven]
      rfl
    · change 0 = ofNat 64 st.given.length
      rw [hgiven]
      rfl
  have hdelivers := @extractPayload_delivers _ ch _ _ hgood hgiven entry rfl
  unfold Ends extractData
  obtain ⟨⟨outcome, m⟩, hresult⟩ : ∃ result, extractPayload ch entry
      (Member.start st dataOff entry.compressedSize) = result := ⟨_, rfl⟩
  rw [hresult] at hdelivers ⊢
  cases outcome with
  | ok _ =>
    obtain ⟨hm, hle⟩ := hdelivers
    exact ⟨hm.fine, hm.refused, hm.stream, hm.crc.trans (vmfwCrc32_zero _), hm.total, hle⟩
  | error e => exact hdelivers

/-- What comes before the payload does not touch the sink or the inflater. -/
theorem Behaves.before {goal : β → ZipWorld ω → Prop} {f : α → Zipping ω β}
    (h : Behaves size post p) (ht : Fine size t) (hgiven : t.given = [])
    (hrefused : t.refused = false) (hstream : t.stream = none)
    (next : ∀ a u, post a → Fine size u → u.given = [] → u.refused = false → u.stream = none →
      Ends goal (Refusal size) (f a) u) : Ends goal (Refusal size) (p >>= f) t := by
  rw [ends_bind]
  refine (h t ht).mono ?_ ?_
  · rintro a u ⟨hu, hkept, ha⟩
    exact next a u ha hu (hkept.given.trans hgiven) (hkept.refused.trans hrefused)
      (hkept.stream.trans hstream)
  · rintro e u ⟨hstopped, hkept⟩
    exact hstopped.refusal (hkept.refused.trans hrefused) (hkept.stream.trans hstream)

/-- After success the sink was given just what the entry says; otherwise the status names what has
gone wrong. -/
theorem vmfwZipExtract_ends (hsize : size.toNat + zipReach < 2 ^ 64) (h : st.Inside size)
    (hzip : zip.size = size) (entry : ZipEntry) : Ends (fun _ t ↦ Fine size t ∧ t.refused = false ∧
        t.given.length = entry.uncompressedSize.toNat ∧ crc32 t.given = entry.crc32)
      (Refusal size) (vmfwZipExtract ch zip entry) st := by
  unfold zipReach at hsize
  have hwidth : (ofNat 64 localMinSize).toNat = 30 := by decide
  unfold vmfwZipExtract
  rw [ends_bind, ends_modify, hzip]
  have hfresh : Fine size
      { st with given := [], refused := false, stream := none, short := false } :=
    ⟨⟨h.reads, h.sums⟩, rfl⟩
  refine (behaves_require (by decide)).before hfresh rfl rfl rfl fun _ t _ ht hg hr hs ↦ ?_
  refine (behaves_require (by decide)).before ht hg hr hs fun _ t hheader ht hg hr hs ↦ ?_
  have hle := le_def.1 hheader.1
  have hroom := hheader.2
  rw [toNat_sub_of_le hheader.1] at hroom
  unfold localMinSize at hroom
  refine (readExact_behaves (by unfold localMinSize; omega)).before ht hg hr hs
    fun lh t _ ht hg hr hs ↦ ?_
  have hname := zipRd16_lt lh 26
  have hextra := zipRd16_lt lh 28
  have hname64 : ((zipRd16 lh 26).setWidth 64).toNat = (zipRd16 lh 26).toNat :=
    BitVec.toNat_setWidth_of_le (by decide)
  have hextra64 : ((zipRd16 lh 28).setWidth 64).toNat = (zipRd16 lh 28).toNat :=
    BitVec.toNat_setWidth_of_le (by decide)
  refine (behaves_require (by decide)).before ht hg hr hs fun _ t _ ht hg hr hs ↦ ?_
  refine (addOff_behaves (by omega)).before ht hg hr hs fun nameOff t hnameOff ht hg hr hs ↦ ?_
  refine (addOff_behaves (by omega)).before ht hg hr hs fun extraOff t hextraOff ht hg hr hs ↦ ?_
  refine (addOff_behaves (by omega)).before ht hg hr hs fun dataOff t hdataOff ht hg hr hs ↦ ?_
  refine (behaves_require (by decide)).before ht hg hr hs fun _ t hfits ht hg hr hs ↦ ?_
  have hstart := le_def.1 hfits.1
  have hdata := le_def.1 hfits.2
  rw [toNat_sub_of_le hfits.1] at hdata
  refine (extractData_ends ht hg hr hs entry (by omega)).bind ?_
  rintro sums u ⟨hu, hrefused, hstream, hcrc, htotal, hlength⟩
  rw [ends_bind, ends_require]
  refine ⟨fun hsame ↦ ?_, fun _ ↦ (hu.stopped (by decide)).refusal hrefused hstream⟩
  rw [ends_require]
  refine ⟨fun hsum ↦ ?_, fun _ ↦ (hu.stopped (by decide)).refusal hrefused hstream⟩
  have hcount : u.given.length = entry.uncompressedSize.toNat := by
    rw [← hsame, htotal, toNat_ofNat_of_lt (hlength.trans_lt entry.uncompressedSize.isLt)]
  exact ⟨hu, hrefused, hcount, hcrc ▸ hsum⟩

end

end S5LBox.Firmware
