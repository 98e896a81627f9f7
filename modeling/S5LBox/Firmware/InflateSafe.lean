import S5LBox.Firmware.Huffman
import S5LBox.Firmware.InflateWindow

/-!
# Safety of the inflater

Whatever the input is, the decoder comes to an end with a status. What bounds its loops is the
number of bits that are left, of which every turn uses one at least.
-/

namespace S5LBox.Firmware

open Attempt

variable {ω : Type} {ep : Endpoints ω} {given : ω → List Octet} {left : ω → ℕ} {limit : ℕ}
  {st t u : Inflater ω}

/-- What the sink was given is recorded, and `left` bounds what the source has yet to deliver. -/
structure Watched (ep : Endpoints ω) (given : ω → List Octet) (left : ω → ℕ) : Prop where
  source : ∀ w, given (ep.source w inBuf).1 = given w
  finite : ∀ w data, (ep.source w inBuf).2 = some data → data.length ≤ inBuf →
    left (ep.source w inBuf).1 + data.length ≤ left w
  sink : ∀ w data, given (ep.sink w data).1 = given w ++ data
  sink_left : ∀ w data, left (ep.sink w data).1 ≤ left w

/-- What reading input leaves as it is. -/
structure Fed (given : ω → List Octet) (st t : Inflater ω) : Prop where
  sunk : given t.world = given st.world
  limit : t.limit = st.limit
  produced : t.produced = st.produced
  adlerA : t.adlerA = st.adlerA
  adlerB : t.adlerB = st.adlerB
  wpos : t.wpos = st.wpos
  window : t.window = st.window
  lengths : t.lengths = st.lengths
  lencode : t.lencode = st.lencode
  distcode : t.distcode = st.distcode
  clcode : t.clcode = st.clcode
  output : t.output = st.output

namespace Fed

theorem of_world (st : Inflater ω) {w : ω} (hw : given w = given st.world) (bitbuf : Word)
    (bitcnt : ℕ) (input : List Octet) (inEof : Bool) :
    Fed given st { st with world := w, bitbuf, bitcnt, input, inEof } :=
  ⟨hw, rfl, rfl, rfl, rfl, rfl, rfl, rfl, rfl, rfl, rfl, rfl⟩

theorem refl (st : Inflater ω) : Fed given st st := .of_world st rfl _ _ _ _

theorem trans (h : Fed given st t) (h' : Fed given t u) : Fed given st u :=
  ⟨h'.sunk.trans h.sunk, h'.limit.trans h.limit, h'.produced.trans h.produced,
    h'.adlerA.trans h.adlerA, h'.adlerB.trans h.adlerB, h'.wpos.trans h.wpos,
    h'.window.trans h.window, h'.lengths.trans h.lengths, h'.lencode.trans h.lencode,
    h'.distcode.trans h.distcode, h'.clcode.trans h.clcode, h'.output.trans h.output⟩

theorem counted (h : Fed given st t) (hst : Counted limit st) : Counted limit t := by
  refine ⟨?_, h.limit.trans hst.bound, ?_⟩
  · rw [h.output, h.produced, hst.length]
  · rw [h.produced]
    exact hst.limited

theorem sound (h : Fed given st t) (hst : Sound given limit st) : Sound given limit t := by
  refine ⟨⟨h.counted hst.toCounted, ?_, ?_, ?_, ?_, ?_⟩, ?_⟩
  · rw [h.produced, h.wpos]
    exact hst.position
  · rw [h.wpos]
    exact hst.room
  · rw [h.sunk, h.output, h.produced, h.wpos, hst.sunk]
  · rw [h.output, h.produced, h.window]
    exact hst.window
  · rw [h.adlerA, h.adlerB, h.sunk]
    exact hst.summed
  · rw [h.wpos]
    exact hst.free

theorem flushed (h : Fed given st t) (hst : Flushed given limit st) : Flushed given limit t :=
  ⟨h.counted hst.toCounted, by rw [h.sunk, h.output, hst.sunk],
    by rw [h.adlerA, h.adlerB, h.output]; exact hst.summed⟩

end Fed

/-- The bits that are left. -/
def bitsLeft (left : ω → ℕ) (st : Inflater ω) : ℕ :=
  st.bitcnt + 8 * (st.input.length + left st.world)

/-- Reading stopped with a status. -/
def Halted (given : ω → List Octet) (st : Inflater ω) (e : Stop) (t : Inflater ω) : Prop :=
  (∃ status, e = .error status) ∧ Fed given st t

/-- Reading went on, and used `count` bits. -/
def Read (given : ω → List Octet) (left : ω → ℕ) (count : ℕ) (st t : Inflater ω) : Prop :=
  Fed given st t ∧ bitsLeft left t + count ≤ bitsLeft left st

variable {n fuel : ℕ} {lengths : List ℕ}

theorem Read.trans {m : ℕ} (h : Read given left m st t) (h' : Read given left n t u) :
    Read given left (m + n) st u := by
  refine ⟨h.1.trans h'.1, ?_⟩
  have hle := h.2
  have hle' := h'.2
  omega

theorem Fed.halted {e : Stop} (h : Fed given st t) (h' : Halted given t e u) :
    Halted given st e u := ⟨h'.1, h.trans h'.2⟩

section

variable (hep : Watched ep given left)

include hep

theorem nextByte_ends (st : Inflater ω) :
    Ends (fun _ t ↦ Read given left 8 st t ∧ t.bitcnt = st.bitcnt) (Halted given st)
      (nextByte ep) st := by
  unfold Ends nextByte
  cases hinput : st.input with
  | cons octet rest =>
    refine ⟨⟨.of_world st rfl st.bitbuf st.bitcnt rest st.inEof, ?_⟩, rfl⟩
    unfold bitsLeft
    dsimp only
    rw [hinput, List.length_cons]
    omega
  | nil =>
    dsimp only
    split
    case h_1 heq =>
      split at heq
      · cases (Prod.mk.inj heq).1
      · split at heq
        · cases (Prod.mk.inj heq).1
        case h_2 world data hsource =>
          split at heq
          · cases (Prod.mk.inj heq).1
          case isFalse hfits =>
            have hgiven := hep.source st.world
            have hfinite := hep.finite st.world data
            rw [hsource] at hgiven hfinite
            cases data with
            | nil => cases (Prod.mk.inj heq).1
            | cons octet rest =>
              obtain ⟨-, rfl⟩ := Prod.mk.inj heq
              refine ⟨⟨.of_world st hgiven st.bitbuf st.bitcnt rest st.inEof, ?_⟩, rfl⟩
              have hless := hfinite rfl (Nat.le_of_not_lt hfits)
              unfold bitsLeft
              dsimp only at hless ⊢
              rw [List.length_cons] at hless
              rw [hinput, List.length_nil]
              omega
    case h_2 e t heq =>
      split at heq
      · obtain ⟨he, rfl⟩ := Prod.mk.inj heq
        exact ⟨⟨_, (Except.error.inj he).symm⟩, .refl st⟩
      · have hgiven := hep.source st.world
        split at heq
        case h_1 world hsource =>
          obtain ⟨he, rfl⟩ := Prod.mk.inj heq
          rw [hsource] at hgiven
          exact ⟨⟨_, (Except.error.inj he).symm⟩,
            .of_world st hgiven _ _ _ _⟩
        case h_2 world data hsource =>
          rw [hsource] at hgiven
          split at heq
          · obtain ⟨he, rfl⟩ := Prod.mk.inj heq
            exact ⟨⟨_, (Except.error.inj he).symm⟩,
              .of_world st hgiven _ _ _ _⟩
          · cases data with
            | nil =>
              obtain ⟨he, rfl⟩ := Prod.mk.inj heq
              exact ⟨⟨_, (Except.error.inj he).symm⟩,
                .of_world st hgiven _ _ _ _⟩
            | cons octet rest => cases (Prod.mk.inj heq).1

theorem needBitsLoop_ends {turns : ℕ} (h : n ≤ st.bitcnt + 8 * turns) :
    Ends (fun _ t ↦ Read given left 0 st t ∧ n ≤ t.bitcnt) (Halted given st)
      (needBitsLoop ep n turns) st := by
  induction turns generalizing st with
  | zero => exact ends_pure.2 ⟨⟨.refl st, le_rfl⟩, h⟩
  | succ turns ih =>
    rw [needBitsLoop, ends_bind, ends_get]
    split
    case isTrue henough => exact ends_pure.2 ⟨⟨.refl st, le_rfl⟩, henough⟩
    case isFalse =>
      refine (nextByte_ends hep st).bind ?_
      rintro octet t ⟨⟨hfed, hbits⟩, hcnt⟩
      rw [ends_bind, ends_modify]
      have hpush : Fed given st (t.pushByte octet) := hfed.trans (.of_world t rfl _ _ _ _)
      have hleft : bitsLeft left (t.pushByte octet) + 0 ≤ bitsLeft left st := by
        unfold bitsLeft Inflater.pushByte at *
        dsimp only
        omega
      refine (ih ?_).mono ?_ ?_
      · change n ≤ t.bitcnt + 8 + 8 * turns
        omega
      · rintro _ u ⟨hread, henough⟩
        exact ⟨(Read.trans ⟨hpush, hleft⟩ hread), henough⟩
      · exact fun e u hhalted ↦ hpush.halted hhalted

theorem needBits_ends (n : ℕ) (st : Inflater ω) :
    Ends (fun _ t ↦ Read given left 0 st t ∧ n ≤ t.bitcnt) (Halted given st) (needBits ep n) st :=
  needBitsLoop_ends hep (by omega)

variable (given left) in
omit hep in
theorem takeBits_ends (h : n ≤ st.bitcnt) :
    Ends (fun _ t ↦ Read given left n st t) (Halted given st) (takeBits n) st := by
  unfold Ends takeBits
  refine ⟨.of_world st rfl _ _ st.input st.inEof, ?_⟩
  unfold bitsLeft
  dsimp only
  omega

theorem getBits_ends (n : ℕ) (st : Inflater ω) :
    Ends (fun _ t ↦ Read given left n st t) (Halted given st) (getBits ep n) st := by
  refine (needBits_ends hep n st).bind ?_
  rintro _ t ⟨hread, henough⟩
  refine (takeBits_ends given left henough).mono ?_ fun e u hhalted ↦ hread.1.halted hhalted
  intro _ u hread'
  exact Nat.zero_add n ▸ hread.trans hread'

variable (given left) in
omit hep in
theorem alignToByte_ends (st : Inflater ω) :
    Ends (fun _ t ↦ Read given left 0 st t) (Halted given st) alignToByte st := by
  unfold alignToByte
  rw [ends_bind, ends_get, ends_bind]
  refine (takeBits_ends given left (Nat.mod_le _ _)).weaken ?_
  rintro _ t ⟨hfed, hbits⟩
  exact ends_pure.2 ⟨hfed, by omega⟩

theorem alignedByte_ends (st : Inflater ω) :
    Ends (fun _ t ↦ Read given left 0 st t) (Halted given st) (alignedByte ep) st := by
  unfold alignedByte
  rw [ends_bind, ends_get]
  split
  case isTrue henough =>
    rw [ends_bind]
    refine (takeBits_ends given left henough).weaken ?_
    rintro _ t ⟨hfed, hbits⟩
    exact ends_pure.2 ⟨hfed, by omega⟩
  case isFalse =>
    refine (nextByte_ends hep st).weaken ?_
    rintro _ t ⟨⟨hfed, hbits⟩, -⟩
    exact ⟨hfed, by omega⟩

theorem readExtra_ends (base extra : List ℕ) (sym : ℕ) (st : Inflater ω) :
    Ends (fun _ t ↦ Read given left 0 st t) (Halted given st) (readExtra ep base extra sym) st := by
  refine (getBits_ends hep _ st).bind ?_
  rintro v t ⟨hfed, hbits⟩
  exact ends_pure.2 ⟨hfed, by omega⟩

omit hep in
/-- The table is the one of some code. -/
def Ready (h : Huff) : Prop := ∃ lengths, h.Codes lengths

omit hep in
theorem decodeLoop_ends (hep : Watched ep given left) {h : Huff} {lengths : List ℕ}
    (hcodes : h.Codes lengths) {turns len code first : ℕ} (hlen : 0 < len) :
    Ends (fun _ t ↦ Read given left 1 st t) (Halted given st)
      (decodeLoop ep h turns len code first (Canonical.start lengths len)) st := by
  induction turns generalizing st len code first with
  | zero => exact ends_refuse.2 ⟨⟨_, rfl⟩, .refl st⟩
  | succ turns ih =>
    rw [decodeLoop]
    refine (needBits_ends hep 1 st).bind ?_
    rintro _ t ⟨hneed, henough⟩
    rw [ends_bind]
    refine (takeBits_ends given left henough).mono ?_ fun e u hhalted ↦ hneed.1.halted hhalted
    intro bit u htake
    have hread : Read given left 1 st u := Nat.zero_add 1 ▸ hneed.trans htake
    dsimp only
    split
    case isTrue hmatch =>
      obtain ⟨s, -, -, hsymbol⟩ := hcodes.exists_symbol hlen hmatch.2
      rw [hsymbol, ends_expect]
      exact ⟨fun _ _ ↦ hread, fun hnone ↦ by cases hnone⟩
    case isFalse =>
      rw [hcodes.count len hlen, ← Canonical.start_succ]
      refine (ih (Nat.succ_pos len)).mono ?_ fun e v hhalted ↦ hread.1.halted hhalted
      intro _ v hread'
      have hboth := hread.trans hread'
      exact ⟨hboth.1, by have := hboth.2; omega⟩

theorem huffDecode_ends {h : Huff} (hready : Ready h) (st : Inflater ω) :
    Ends (fun _ t ↦ Read given left 1 st t) (Halted given st) (huffDecode ep h) st := by
  obtain ⟨lengths, hcodes⟩ := hready
  unfold huffDecode
  split
  · exact ends_refuse.2 ⟨⟨_, rfl⟩, .refl st⟩
  · have hone : Canonical.start lengths 1 = 0 := by
      rw [Canonical.start_succ, Canonical.start_zero]
      rfl
    have hloop (turns : ℕ) := @decodeLoop_ends _ _ _ _ st hep h lengths hcodes turns 1 0 0 Nat.one_pos
    rw [hone] at hloop
    exact hloop maxBits

omit hep in
/-- The window is sound and each table is the one of some code. -/
structure Steady (given : ω → List Octet) (limit : ℕ) (st : Inflater ω) : Prop where
  sound : Sound given limit st
  lencode : Ready st.lencode
  distcode : Ready st.distcode
  clcode : Ready st.clcode

omit hep in
/-- Still steady, with `count` bits fewer. -/
def Stays (given : ω → List Octet) (left : ω → ℕ) (limit count : ℕ) (st t : Inflater ω) : Prop :=
  Steady given limit t ∧ bitsLeft left t + count ≤ bitsLeft left st

omit hep in
theorem Stays.trans {m : ℕ} (h : Stays given left limit m st t)
    (h' : Stays given left limit n t u) : Stays given left limit (m + n) st u := by
  refine ⟨h'.1, ?_⟩
  have hle := h.2
  have hle' := h'.2
  omega

omit hep in
theorem Steady.refl (h : Steady given limit st) : Stays given left limit 0 st st := ⟨h, le_rfl⟩

omit hep in
theorem Read.stays {count : ℕ} (h : Read given left count st t) (hst : Steady given limit st) :
    Stays given left limit count st t := by
  obtain ⟨hfed, hbits⟩ := h
  refine ⟨⟨hfed.sound hst.sound, ?_, ?_, ?_⟩, hbits⟩
  · rw [hfed.lencode]
    exact hst.lencode
  · rw [hfed.distcode]
    exact hst.distcode
  · rw [hfed.clcode]
    exact hst.clcode

omit hep in
theorem Steady.refused (h : Steady given limit st) (status : InflateError) :
    Refused given limit (.error status) st := h.sound.toStaged.refused status

omit hep in
theorem Halted.refused {e : Stop} (h : Halted given st e t) (hst : Steady given limit st) :
    Refused given limit e t := by
  obtain ⟨⟨status, rfl⟩, hfed⟩ := h
  exact (hfed.sound hst.sound).toStaged.refused status

omit hep in
theorem Steady.read {α : Type} {p : Inflating ω α} {count : ℕ} (h : Steady given limit st)
    (hread : Ends (fun _ t ↦ Read given left count st t) (Halted given st) p st) :
    Ends (fun _ t ↦ Stays given left limit count st t ∧ t.lengths = st.lengths)
      (Refused given limit) p st :=
  hread.mono (fun _ _ hread ↦ ⟨hread.stays h, hread.1.lengths⟩) fun _ _ hhalted ↦ hhalted.refused h

theorem Watched.records (bound : ℕ) : Records ep given fun w ↦ left w ≤ bound :=
  fun w data hbound ↦ ⟨(hep.sink_left w data).trans hbound, hep.sink w data⟩

omit hep in
theorem Steady.emitting {p : Inflating ω Unit} (h : Steady given limit st) {output : List Octet}
    {fail : Stop → Inflater ω → Prop}
    (hemit : Ends (fun _ t ↦ Sound given limit t ∧ left t.world ≤ left st.world ∧ Frame st t ∧
      t.output = output) (fun e t ↦ Refused given limit e t ∧ fail e t) p st) :
    Ends (fun _ t ↦ Stays given left limit 0 st t ∧ t.input = st.input) (Refused given limit) p st :=
    by
  refine hemit.mono ?_ fun _ _ hfail ↦ hfail.1
  rintro _ t ⟨hsound, hleft, hframe, -⟩
  refine ⟨⟨⟨hsound, ?_, ?_, ?_⟩, ?_⟩, hframe.input⟩
  · rw [hframe.lencode]
    exact h.lencode
  · rw [hframe.distcode]
    exact h.distcode
  · rw [hframe.clcode]
    exact h.clcode
  · unfold bitsLeft
    rw [hframe.bitcnt, hframe.input]
    omega

theorem emitByte_stays (h : Steady given limit st) (octet : Octet) :
    Ends (fun _ t ↦ Stays given left limit 0 st t ∧ t.input = st.input) (Refused given limit)
      (emitByte ep octet) st :=
  h.emitting (emitByte_ends (hep.records (left st.world)) h.sound le_rfl octet)

theorem emitRun_stays (h : Steady given limit st) (data : List Octet) :
    Ends (fun _ t ↦ Stays given left limit 0 st t ∧ t.input = st.input) (Refused given limit)
      (emitRun ep data.length data) st :=
  h.emitting (emitRun_ends (hep.records (left st.world)) h.sound le_rfl le_rfl)

theorem emitMatch_stays (h : Steady given limit st) {length distance : ℕ} (hpos : 0 < distance)
    (hdistance : distance ≤ windowSize) :
    Ends (fun _ t ↦ Stays given left limit 0 st t ∧ t.input = st.input) (Refused given limit)
      (emitMatch ep length distance) st := by
  have hmatch (length : ℕ) := @emitMatch_ends _ _ _ _ _ _ (hep.records (left st.world)) length _
    h.sound le_rfl hpos hdistance
  refine @Steady.emitting _ _ _ _ _ _ h (copied st.output distance length) _
    ((hmatch length).weaken ?_)
  rintro _ t ⟨hsound, hleft, hframe, -, houtput⟩
  exact ⟨hsound, hleft, hframe, houtput⟩

omit hep in
theorem Steady.setTable (h : Steady given limit st) (table : Buffer ℕ (maxLit + maxDist)) :
    Stays given left limit 0 st { st with lengths := table } := by
  refine ⟨⟨⟨⟨⟨h.sound.length, h.sound.bound, h.sound.limited⟩, h.sound.position, h.sound.room,
    h.sound.sunk, h.sound.window, h.sound.summed⟩, h.sound.free⟩, h.lencode, h.distcode, h.clcode⟩, le_rfl⟩

variable (left) in
omit hep in
theorem setLengths_stays (h : Steady given limit st) (start : ℕ) (lengths : List ℕ)
    (hroom : start + lengths.length ≤ maxLit + maxDist) :
    Ends (fun _ t ↦ Stays given left limit 0 st t ∧ t.lengths.Holds start lengths ∧
        ∀ index, index < start ∨ start + lengths.length ≤ index →
          t.lengths.read index = st.lengths.read index)
      (Refused given limit) (setLengths start lengths) st := by
  obtain ⟨table, hwrite, hholds, hframe⟩ := @Buffer.exists_writeAll _ _ st.lengths start lengths hroom
  unfold setLengths
  rw [ends_bind, ends_get, ends_bind, ends_expect, hwrite]
  refine ⟨?_, fun hnone ↦ by cases hnone⟩
  intro table' htable
  obtain rfl := Option.some.inj htable
  exact ends_modify.2 ⟨h.setTable table, hholds, hframe⟩

variable (left) in
omit hep in
theorem append_stays (h : Steady given limit st) {run : List ℕ}
    (hlengths : st.lengths.Holds 0 lengths)
    (hroom : lengths.length + run.length ≤ maxLit + maxDist) :
    Ends (fun _ t ↦ Stays given left limit 0 st t ∧ t.lengths.Holds 0 (lengths ++ run))
      (Refused given limit) (setLengths lengths.length run) st := by
  refine (setLengths_stays left h _ _ hroom).weaken ?_
  rintro _ t ⟨hstays, hrun, hframe⟩
  exact ⟨hstays, hlengths.append hrun hframe⟩

omit hep in
theorem buildCode_ends (old : Inflater ω → Huff) {start : ℕ} {allowIncomplete : Bool}
    (hst : Steady given limit st) (hlengths : st.lengths.Holds start lengths)
    (hn : lengths.length = n) (hmax : n ≤ maxLit) :
    Ends (fun h t ↦ h.Codes lengths ∧ t = st) (Refused given limit)
      (buildCode old start n allowIncomplete) st := by
  unfold buildCode
  have hslice := Buffer.slice_of_holds hlengths
  rw [hn] at hslice
  rw [ends_bind, ends_get, ends_bind, ends_expect, hslice]
  refine ⟨?_, fun hnone ↦ by cases hnone⟩
  intro data hdata
  obtain rfl := Option.some.inj hdata
  rcases @huffBuild_spec lengths (old st).symbol allowIncomplete (hn.trans_le hmax) with
    ⟨huff, hbuild, hcodes⟩ | hbuild
  · rw [hbuild]
    exact ends_pure.2 ⟨hcodes, rfl⟩
  · rw [hbuild]
    exact ends_refuse.2 (hst.refused _)

variable (left) in
omit hep in
theorem buildLencode_stays (h : Steady given limit st) (hlengths : st.lengths.Holds 0 lengths)
    (hn : lengths.length = n) (hmax : n ≤ maxLit) :
    Ends (fun _ t ↦ Stays given left limit 0 st t ∧ t.lengths = st.lengths) (Refused given limit)
      (buildLencode n) st := by
  refine (buildCode_ends Inflater.lencode h hlengths hn hmax).bind ?_
  rintro huff t ⟨hcodes, rfl⟩
  exact ends_modify.2 ⟨⟨⟨h.sound.tables .., ⟨lengths, hcodes⟩, h.distcode, h.clcode⟩, le_rfl⟩, rfl⟩

variable (left) in
omit hep in
theorem buildDistcode_stays (h : Steady given limit st) {start : ℕ} {allowIncomplete : Bool}
    (hlengths : st.lengths.Holds start lengths) (hn : lengths.length = n) (hmax : n ≤ maxLit) :
    Ends (fun _ t ↦ Stays given left limit 0 st t) (Refused given limit)
      (buildDistcode start n allowIncomplete) st := by
  refine (buildCode_ends Inflater.distcode h hlengths hn hmax).bind ?_
  rintro huff t ⟨hcodes, rfl⟩
  exact ends_modify.2 ⟨⟨h.sound.tables .., h.lencode, ⟨lengths, hcodes⟩, h.clcode⟩, le_rfl⟩

variable (left) in
omit hep in
theorem buildClcode_stays (h : Steady given limit st) (hlengths : st.lengths.Holds 0 lengths)
    (hn : lengths.length = maxClen) :
    Ends (fun _ t ↦ Stays given left limit 0 st t) (Refused given limit) buildClcode st := by
  refine (buildCode_ends Inflater.clcode h hlengths hn (by decide)).bind ?_
  rintro huff t ⟨hcodes, rfl⟩
  exact ends_modify.2 ⟨⟨h.sound.tables .., h.lencode, h.distcode, ⟨lengths, hcodes⟩⟩, le_rfl⟩

omit hep in
theorem fixedLengths_length : fixedLengths.length = 288 := by
  unfold fixedLengths
  simp only [List.length_append, List.length_replicate]

variable (left) in
omit hep in
theorem buildFixed_stays (h : Steady given limit st) :
    Ends (fun _ t ↦ Stays given left limit 0 st t) (Refused given limit) buildFixed st := by
  have hlength := fixedLengths_length
  have hlength' : (List.replicate 32 5).length = 32 := List.length_replicate
  unfold buildFixed
  generalize fixedLengths = lengths at *
  generalize List.replicate 32 5 = lengths' at *
  refine (setLengths_stays left h 0 lengths ?_).bind ?_
  · rw [hlength]
    decide
  rintro _ t ⟨hstays, hholds, -⟩
  refine (buildLencode_stays left hstays.1 hholds hlength le_rfl).bind ?_
  rintro _ u ⟨hstays', -⟩
  have huntil := hstays.trans hstays'
  refine (setLengths_stays left huntil.1 0 lengths' ?_).bind ?_
  · rw [hlength']
    decide
  rintro _ v ⟨hstays'', hholds, -⟩
  refine (buildDistcode_stays left hstays''.1 hholds hlength' (by decide)).weaken ?_
  intro _ w hlast
  exact (huntil.trans hstays'').trans hlast

theorem readClens_stays {order : List ℕ} (h : Steady given limit st)
    (horder : ∀ symbol ∈ order, symbol < maxClen) (hlengths : st.lengths.Holds 0 lengths)
    (hn : lengths.length = maxClen) : Ends (fun _ t ↦ Stays given left limit 0 st t ∧
        ∃ lengths, lengths.length = maxClen ∧ t.lengths.Holds 0 lengths)
      (Refused given limit) (readClens ep order) st := by
  induction order generalizing st lengths with
  | nil => exact ends_pure.2 ⟨h.refl, lengths, hn, hlengths⟩
  | cons symbol rest ih =>
    have hsymbol := horder symbol List.mem_cons_self
    refine (h.read (getBits_ends hep 3 st)).bind ?_
    rintro v t ⟨hstays, htable⟩
    have hroom : symbol + [v.toNat].length ≤ maxLit + maxDist := by
      rw [List.length_singleton]
      unfold maxClen at hsymbol
      unfold maxLit maxDist
      omega
    refine (setLengths_stays left hstays.1 _ _ hroom).bind ?_
    rintro _ u ⟨hstays', hwritten, hframe⟩
    rw [htable] at hframe
    have hset := hlengths.set hwritten hframe
    refine (ih hstays'.1 (fun s hs ↦ horder s (List.mem_cons_of_mem _ hs)) hset
      (by rwa [List.length_set])).weaken ?_
    rintro _ w ⟨hlast, hfinal⟩
    refine ⟨?_, hfinal⟩
    have hall := (hstays.trans hstays').trans hlast
    exact ⟨hall.1, by have := hall.2; omega⟩

theorem readRepeat_stays {sym : ℕ} (h : Steady given limit st)
    (hlengths : st.lengths.Holds 0 lengths) :
    Ends (fun run t ↦ 0 < run.1 ∧ Stays given left limit 0 st t ∧ t.lengths = st.lengths)
      (Refused given limit) (readRepeat ep lengths.length sym) st := by
  have hget (n : ℕ) : Ends (fun _ t ↦ Stays given left limit 0 st t ∧ t.lengths = st.lengths)
      (Refused given limit) (getBits ep n) st := by
    refine (h.read (getBits_ends hep n st)).weaken ?_
    rintro _ t ⟨hstays, htable⟩
    exact ⟨⟨hstays.1, by have := hstays.2; omega⟩, htable⟩
  unfold readRepeat
  split
  · rw [ends_bind, ends_require]
    refine ⟨?_, fun _ ↦ h.refused _⟩
    · intro hi
      have hread := hlengths (lengths.length - 1) (by omega)
      rw [zero_add] at hread
      rw [ends_bind, ends_get, ends_bind, ends_expect, hread]
      refine ⟨?_, fun hnone ↦ by cases hnone⟩
      intro value _
      exact (hget 2).bind fun v t ht ↦ ends_pure.2 ⟨by omega, ht⟩
  split
  · exact (hget 3).bind fun v t ht ↦ ends_pure.2 ⟨by omega, ht⟩
  · exact (hget 7).bind fun v t ht ↦ ends_pure.2 ⟨by omega, ht⟩

omit hep in
theorem readLengths_stays (hep : Watched ep given left) {total turns : ℕ} {lengths : List ℕ}
    (h : Steady given limit st) (hlengths : st.lengths.Holds 0 lengths)
    (hle : lengths.length ≤ total) (hturns : total ≤ lengths.length + turns)
    (hmax : total ≤ maxLit + maxDist) : Ends (fun _ t ↦ Stays given left limit 0 st t ∧
        ∃ lengths, lengths.length = total ∧ t.lengths.Holds 0 lengths)
      (Refused given limit) (readLengths ep total turns lengths.length) st := by
  induction turns generalizing st lengths with
  | zero =>
    rw [readLengths, ends_require]
    exact ⟨fun _ ↦ ⟨h.refl, lengths, by omega, hlengths⟩, fun hless ↦ absurd hless (by omega)⟩
  | succ turns ih =>
    rw [readLengths]
    split
    case isTrue hdone => exact ends_pure.2 ⟨h.refl, lengths, by omega, hlengths⟩
    case isFalse hmore =>
      rw [ends_bind, ends_get]
      refine (h.read (huffDecode_ends hep h.clcode st)).bind ?_
      rintro sym t ⟨hstays, htable⟩
      rw [← htable] at hlengths
      -- Both kinds of code append to the table.
      have happend (v : Inflater ω) (hv : Stays given left limit 0 st v)
          (hheld : v.lengths.Holds 0 lengths) (run : List ℕ) (hrun : 0 < run.length)
          (hroom : lengths.length + run.length ≤ total) :
          Ends (fun _ t ↦ Stays given left limit 0 st t ∧
              ∃ lengths, lengths.length = total ∧ t.lengths.Holds 0 lengths)
            (Refused given limit) (do
              setLengths lengths.length run
              readLengths ep total turns (lengths.length + run.length)) v := by
        refine (append_stays left hv.1 hheld (hroom.trans hmax)).bind ?_
        rintro _ u ⟨hstays', hholds⟩
        have hlength : (lengths ++ run).length = lengths.length + run.length := List.length_append
        rw [← hlength]
        refine (ih hstays'.1 hholds (by omega) (by omega)).weaken ?_
        rintro _ w ⟨hlast, hfinal⟩
        exact ⟨(hv.trans hstays').trans hlast, hfinal⟩
      have hweak : Stays given left limit 0 st t := ⟨hstays.1, by have := hstays.2; omega⟩
      split
      · exact happend t hweak hlengths [sym] Nat.one_pos (by simpa using hmore)
      · refine (readRepeat_stays hep hstays.1 hlengths).bind ?_
        rintro ⟨count, value⟩ u ⟨hcount, hstays', htable'⟩
        rw [ends_bind, ends_require]
        refine ⟨?_, fun _ ↦ hstays'.1.refused _⟩
        · intro hfits
          dsimp only at hfits ⊢
          have hlast := happend u (hweak.trans hstays') (htable' ▸ hlengths)
            (List.replicate count value)
          rw [List.length_replicate] at hlast
          exact hlast hcount (by omega)

theorem readDynamic_stays (h : Steady given limit st) :
    Ends (fun _ t ↦ Stays given left limit 0 st t) (Refused given limit) (readDynamic ep) st := by
  have hzeros : (List.replicate maxClen 0).length = maxClen := List.length_replicate
  have horder (count : ℕ) : ∀ symbol ∈ clenOrder.take count, symbol < maxClen := by
    intro symbol hmem
    have hall : ∀ symbol ∈ clenOrder, symbol < maxClen := by decide
    exact hall symbol (List.mem_of_mem_take hmem)
  unfold readDynamic
  generalize List.replicate maxClen 0 = zeros at *
  refine (h.read (getBits_ends hep 5 st)).bind ?_
  rintro hlit a ⟨ha, -⟩
  refine (ha.1.read (getBits_ends hep 5 a)).bind ?_
  rintro hdist b ⟨hb, -⟩
  refine (hb.1.read (getBits_ends hep 4 b)).bind ?_
  rintro hclen c ⟨hc, -⟩
  have hheader := (ha.trans hb).trans hc
  rw [ends_bind, ends_require]
  refine ⟨?_, fun _ ↦ hc.1.refused _⟩
  · intro hcounts
    refine (setLengths_stays left hc.1 0 zeros ?_).bind ?_
    · rw [hzeros]
      decide
    rintro _ d ⟨hd, hholds, -⟩
    refine (readClens_stays hep hd.1 (horder _) hholds hzeros).bind ?_
    rintro _ e ⟨he, clens, hclens, hholds⟩
    refine (buildClcode_stays left he.1 hholds hclens).bind ?_
    intro _ f hf
    have htotal : hlit.toNat + 257 + (hdist.toNat + 1) ≤ maxLit + maxDist := by
      unfold maxLit maxDist
      omega
    refine (@readLengths_stays _ _ _ _ _ _ hep _ _ [] hf.1 Buffer.holds_nil (Nat.zero_le _)
      (Nat.le_add_left _ _) htotal).bind ?_
    rintro _ g ⟨hg, lengths, hlengths, hholds⟩
    -- The table holds the lengths of the two codes one behind the other.
    have hsplit := List.take_append_drop (hlit.toNat + 257) lengths
    have htake : (lengths.take (hlit.toNat + 257)).length = hlit.toNat + 257 := by
      rw [List.length_take, hlengths]
      omega
    have hdrop : (lengths.drop (hlit.toNat + 257)).length = hdist.toNat + 1 := by
      rw [List.length_drop, hlengths]
      omega
    rw [← hsplit, Buffer.holds_append, htake, zero_add] at hholds
    refine (buildLencode_stays left hg.1 hholds.1 htake ?_).bind ?_
    · unfold maxLit
      omega
    rintro _ i ⟨hi, htable⟩
    refine (buildDistcode_stays left hi.1 (htable ▸ hholds.2) hdrop ?_).weaken ?_
    · unfold maxLit
      omega
    intro _ j hj
    have hall := ((((((hheader.trans hd).trans he).trans hf).trans hg).trans hi).trans hj)
    exact ⟨hall.1, by have := hall.2; omega⟩

theorem storedBits_stays {remaining : ℕ} (h : Steady given limit st) :
    Ends (fun _ t ↦ Stays given left limit 0 st t) (Refused given limit) (storedBits ep remaining) st
    := by
  induction remaining generalizing st with
  | zero => exact ends_pure.2 h.refl
  | succ remaining ih =>
    rw [storedBits, ends_bind, ends_get]
    split
    case isTrue henough =>
      refine (h.read (takeBits_ends given left henough)).bind ?_
      rintro bits t ⟨hstays, -⟩
      refine (emitByte_stays hep hstays.1 _).bind ?_
      rintro _ u ⟨hstays', -⟩
      refine (ih hstays'.1).weaken ?_
      intro _ v hlast
      have hall := (hstays.trans hstays').trans hlast
      exact ⟨hall.1, by have := hall.2; omega⟩
    case isFalse => exact ends_pure.2 h.refl

omit hep in
theorem Steady.dropInput (h : Steady given limit st) (count : ℕ) :
    Stays given left limit 0 st { st with input := st.input.drop count } := by
  have hfed : Fed given st { st with input := st.input.drop count } := .of_world st rfl _ _ _ _
  refine Read.stays ⟨hfed, ?_⟩ h
  unfold bitsLeft
  dsimp only
  rw [List.length_drop]
  omega

theorem storedBytes_stays {turns remaining : ℕ} (h : Steady given limit st)
    (hturns : remaining ≤ turns) :
    Ends (fun _ t ↦ Stays given left limit 0 st t) (Refused given limit)
      (storedBytes ep turns remaining) st := by
  induction turns generalizing st remaining with
  | zero =>
    rw [storedBytes, ends_require]
    exact ⟨fun _ ↦ h.refl, fun hmore ↦ absurd (Nat.le_zero.1 hturns) hmore⟩
  | succ turns ih =>
    rw [storedBytes]
    split
    case isTrue => exact ends_pure.2 h.refl
    case isFalse hmore =>
      rw [ends_bind, ends_get]
      split
      case isTrue =>
        have hnext : Ends (fun _ t ↦ Read given left 8 st t) (Halted given st) (nextByte ep) st :=
          (nextByte_ends hep st).weaken fun _ _ hread ↦ hread.1
        refine (h.read hnext).bind ?_
        rintro octet t ⟨hstays, -⟩
        refine (emitByte_stays hep hstays.1 _).bind ?_
        rintro _ u ⟨hstays', -⟩
        refine (ih hstays'.1 (by omega)).weaken ?_
        intro _ v hlast
        have hall := (hstays.trans hstays').trans hlast
        exact ⟨hall.1, by have := hall.2; omega⟩
      case isFalse hinput =>
        have hpos := List.length_pos_of_ne_nil hinput
        have hlength : (st.input.take remaining).length = min remaining st.input.length :=
          List.length_take
        dsimp only
        generalize st.input.take remaining = data at *
        refine (emitRun_stays hep h data).bind ?_
        rintro _ t ⟨hstays, -⟩
        rw [ends_bind, ends_modify]
        have hdrop : Stays given left limit 0 t { t with input := t.input.drop data.length } :=
          hstays.1.dropInput _
        refine (ih hdrop.1 (by omega)).weaken ?_
        intro _ v hlast
        exact (hstays.trans hdrop).trans hlast

theorem storedBlock_stays (h : Steady given limit st) :
    Ends (fun _ t ↦ Stays given left limit 0 st t) (Refused given limit) (storedBlock ep) st := by
  unfold storedBlock
  refine (h.read (alignToByte_ends given left st)).bind ?_
  rintro _ a ⟨ha, -⟩
  refine (ha.1.read (getBits_ends hep 16 a)).bind ?_
  rintro len b ⟨hb, -⟩
  refine (hb.1.read (getBits_ends hep 16 b)).bind ?_
  rintro nlen c ⟨hc, -⟩
  rw [ends_bind, ends_require]
  refine ⟨?_, fun _ ↦ hc.1.refused _⟩
  · intro _
    refine (storedBits_stays hep hc.1).bind ?_
    intro remaining d hd
    refine (storedBytes_stays hep hd.1 le_rfl).weaken ?_
    intro _ e he
    have hall := (((ha.trans hb).trans hc).trans hd).trans he
    exact ⟨hall.1, by have := hall.2; omega⟩

omit hep in
theorem distBase_pos (sym value : ℕ) (h : sym < 30) : 0 < distBase.getD sym 0 + value := by
  have hall : ∀ sym < 30, 0 < distBase.getD sym 0 := by decide
  exact Nat.lt_of_lt_of_le (hall sym h) (Nat.le_add_right _ _)

omit hep in
theorem distBase_le (sym value : ℕ) (h : sym < 30) (hvalue : value < 2 ^ distExtra.getD sym 0) :
    distBase.getD sym 0 + value ≤ windowSize := by
  have hall : ∀ sym < 30, distBase.getD sym 0 + 2 ^ distExtra.getD sym 0 ≤ windowSize + 1 := by
    decide
  have hsum := hall sym h
  omega

omit hep in
theorem takeBits_lt (n : ℕ) (hn : n ≤ 16) (st : Inflater ω) :
    (st.bitbuf &&& ((1 : Word) <<< n - 1)).toNat < 2 ^ n := by
  have hpow : 2 ^ n ≤ 2 ^ 16 := Nat.pow_le_pow_right (by decide) hn
  have hpos := Nat.two_pow_pos n
  have hmask : ((1 : Word) <<< n - 1).toNat = 2 ^ n - 1 := by
    have hone : ((1 : Word) <<< n).toNat = 2 ^ n := by
      rw [BitVec.toNat_shiftLeft, Nat.shiftLeft_eq]
      have hval : (1 : Word).toNat = 1 := rfl
      rw [hval, one_mul, Nat.mod_eq_of_lt (by omega)]
    have hval : (1 : Word).toNat = 1 := rfl
    rw [BitVec.toNat_sub, hone, hval]
    omega
  rw [BitVec.toNat_and, hmask]
  exact Nat.lt_of_le_of_lt Nat.and_le_right (by omega)

theorem readDistance_ends {sym : ℕ} (h : sym < 30) (st : Inflater ω) :
    Ends (fun distance t ↦ Read given left 0 st t ∧ 0 < distance ∧ distance ≤ windowSize)
      (Halted given st) (readExtra ep distBase distExtra sym) st := by
  unfold readExtra getBits
  have hextra : distExtra.getD sym 0 ≤ 16 := by
    have hall : ∀ sym < 30, distExtra.getD sym 0 ≤ 16 := by decide
    exact hall sym h
  rw [ends_bind]
  refine (needBits_ends hep _ st).bind ?_
  rintro _ t ⟨hneed, henough⟩
  have htake := takeBits_ends given left henough
  unfold Ends takeBits at htake ⊢
  dsimp only at htake ⊢
  refine ⟨⟨hneed.1.trans htake.1, ?_⟩, distBase_pos sym _ h,
    distBase_le sym _ h (takeBits_lt _ hextra t)⟩
  have hle := htake.2
  have hle' := hneed.2
  omega

theorem codedBlock_stays (h : Steady given limit st) (hfuel : bitsLeft left st < fuel) :
    Ends (fun _ t ↦ Stays given left limit 0 st t) (Refused given limit) (codedBlock ep fuel) st := by
  induction fuel generalizing st with
  | zero => exact absurd hfuel (Nat.not_lt_zero _)
  | succ fuel ih =>
    -- A turn that is not the last one uses a bit.
    have hturn (t : Inflater ω) (ht : Stays given left limit 1 st t) :
        Ends (fun _ t ↦ Stays given left limit 0 st t) (Refused given limit) (codedBlock ep fuel) t
        := by
      have hless := ht.2
      refine (ih ht.1 (by omega)).weaken ?_
      rintro _ u ⟨hsteady, hbits⟩
      exact ⟨hsteady, by omega⟩
    rw [codedBlock, ends_bind, ends_get]
    refine (h.read (huffDecode_ends hep h.lencode st)).bind ?_
    rintro sym a ⟨ha, -⟩
    split
    · refine (emitByte_stays hep ha.1 _).bind ?_
      rintro _ b ⟨hb, -⟩
      exact hturn b (ha.trans hb)
    split
    · exact ends_pure.2 ⟨ha.1, by have := ha.2; omega⟩
    · rw [ends_bind, ends_require]
      refine ⟨?_, fun _ ↦ ha.1.refused _⟩
      · intro _
        have hlength := ha.1.read (readExtra_ends hep lenBase lenExtra (sym - 257) a)
        rw [ends_bind]
        refine hlength.weaken ?_
        rintro length b ⟨hb, -⟩
        rw [ends_bind, ends_get]
        refine (hb.1.read (huffDecode_ends hep hb.1.distcode b)).bind ?_
        rintro dsym c ⟨hc, -⟩
        rw [ends_bind, ends_require]
        refine ⟨?_, fun _ ↦ hc.1.refused _⟩
        · intro hdsym
          rw [ends_bind]
          refine (readDistance_ends hep hdsym c).mono ?_ fun e u hhalted ↦ hhalted.refused hc.1
          rintro distance d ⟨hread, hpos, hnear⟩
          have hd := hread.stays hc.1
          refine (emitMatch_stays hep hd.1 hpos hnear).bind ?_
          rintro _ e ⟨he, -⟩
          have hall := (((ha.trans hb).trans hc).trans hd).trans he
          exact hturn e ⟨hall.1, by have := hall.2; omega⟩

theorem inflateBlock_stays {kind : ℕ} (h : Steady given limit st)
    (hfuel : bitsLeft left st < fuel) :
    Ends (fun _ t ↦ Stays given left limit 0 st t) (Refused given limit) (inflateBlock ep fuel kind)
      st := by
  unfold inflateBlock
  split
  · exact storedBlock_stays hep h
  · rw [ends_bind]
    refine (buildFixed_stays left h).weaken ?_
    intro _ t ht
    refine (codedBlock_stays hep ht.1 (by have := ht.2; omega)).weaken ?_
    exact fun _ u hu ↦ ht.trans hu
  · refine (readDynamic_stays hep h).bind ?_
    intro _ t ht
    refine (codedBlock_stays hep ht.1 (by have := ht.2; omega)).weaken ?_
    exact fun _ u hu ↦ ht.trans hu
  · exact ends_refuse.2 (h.refused _)

theorem inflateBlocks_stays (h : Steady given limit st) (hfuel : bitsLeft left st < fuel) :
    Ends (fun _ t ↦ Stays given left limit 0 st t) (Refused given limit) (inflateBlocks ep fuel) st
    := by
  induction fuel generalizing st with
  | zero => exact absurd hfuel (Nat.not_lt_zero _)
  | succ fuel ih =>
    rw [inflateBlocks]
    refine (h.read (getBits_ends hep 1 st)).bind ?_
    rintro final a ⟨ha, -⟩
    refine (ha.1.read (getBits_ends hep 2 a)).bind ?_
    rintro kind b ⟨hb, -⟩
    have hheader := ha.trans hb
    refine (inflateBlock_stays hep hb.1 (by have := hheader.2; omega)).bind ?_
    intro _ c hc
    have hblock := hheader.trans hc
    split
    · exact ends_pure.2 ⟨hc.1, by have := hblock.2; omega⟩
    · refine (ih hc.1 (by have := hblock.2; omega)).weaken ?_
      intro _ d hd
      have hall := hblock.trans hd
      exact ⟨hall.1, by have := hall.2; omega⟩

omit hep in
theorem Flushed.read {α : Type} {p : Inflating ω α} {count : ℕ} (h : Flushed given limit st)
    (hread : Ends (fun _ t ↦ Read given left count st t) (Halted given st) p st) :
    Ends (fun _ t ↦ Flushed given limit t) (Refused given limit) p st := by
  refine hread.mono (fun _ t hread ↦ hread.1.flushed h) ?_
  rintro e t ⟨⟨status, rfl⟩, hfed⟩
  exact (hfed.flushed h).refused status

theorem readTrailer_ends {turns : ℕ} (want : Word) (h : Flushed given limit st) :
    Ends (fun _ t ↦ Flushed given limit t) (Refused given limit) (readTrailer ep turns want) st := by
  induction turns generalizing st want with
  | zero => exact ends_pure.2 h
  | succ turns ih =>
    refine (h.read (alignedByte_ends hep st)).bind ?_
    intro octet t ht
    exact ih _ ht

theorem zlibTrailer_ends (h : Flushed given limit st) :
    Ends (fun _ t ↦ Flushed given limit t) (Refused given limit) (zlibTrailer ep) st := by
  refine (h.read (alignToByte_ends given left st)).bind ?_
  intro _ a ha
  refine (readTrailer_ends hep 0 ha).bind ?_
  intro want b hb
  rw [ends_bind, ends_get, ends_require]
  exact ⟨fun _ ↦ hb, fun _ ↦ hb.refused _⟩

theorem zlibHeader_ends (h : Steady given limit st) :
    Ends (fun _ t ↦ Stays given left limit 0 st t) (Refused given limit) (zlibHeader ep) st := by
  have hnext (st : Inflater ω) :
      Ends (fun _ t ↦ Read given left 8 st t) (Halted given st) (nextByte ep) st :=
    (nextByte_ends hep st).weaken fun _ _ hread ↦ hread.1
  refine (h.read (hnext st)).bind ?_
  rintro cmf a ⟨ha, -⟩
  refine (ha.1.read (hnext a)).bind ?_
  rintro flg b ⟨hb, -⟩
  rw [ends_require]
  refine ⟨?_, fun _ ↦ hb.1.refused _⟩
  · intro _
    have hall := ha.trans hb
    exact ⟨hall.1, by have := hall.2; omega⟩

theorem inflateRun_ends (zlibWrapped : Bool) (h : Steady given limit st)
    (hfuel : bitsLeft left st < fuel) :
    Ends (fun _ t ↦ Flushed given limit t ∧ (limit = noExpectation.toNat ∨ t.produced = limit))
      (Refused given limit) (inflateRun ep fuel zlibWrapped) st := by
  have hheader : Ends (fun _ t ↦ Stays given left limit 0 st t) (Refused given limit)
      (wrapped zlibWrapped (zlibHeader ep)) st := by
    cases zlibWrapped
    · exact ends_pure.2 h.refl
    · exact zlibHeader_ends hep h
  have htrailer (t : Inflater ω) (ht : Flushed given limit t) :
      Ends (fun _ t ↦ Flushed given limit t) (Refused given limit)
        (wrapped zlibWrapped (zlibTrailer ep)) t := by
    cases zlibWrapped
    · exact ends_pure.2 ht
    · exact zlibTrailer_ends hep ht
  unfold inflateRun
  refine hheader.bind ?_
  intro _ a ha
  refine (inflateBlocks_stays hep ha.1 (by have := ha.2; omega)).bind ?_
  intro _ b hb
  rw [ends_bind]
  refine (windowFlush_ends (hep.records (left b.world)) hb.1.sound.toStaged le_rfl).mono ?_
    fun _ _ hfail ↦ hfail.1
  rintro _ c ⟨hc, -⟩
  refine (htrailer c hc).bind ?_
  intro _ d hd
  rw [ends_bind, ends_get, ends_require]
  refine ⟨?_, fun _ ↦ hd.refused _⟩
  intro hsize
  rw [hd.bound] at hsize
  exact ⟨hd, hsize⟩

end

theorem ready_blank : Ready .blank := by
  refine ⟨[], ?_, ?_, ?_⟩
  · intro len _
    unfold Canonical.number
    split <;> rfl
  · rfl
  · intro s hs
    cases hs

theorem steady_start {world : ω} {expectOut : DWord} (hgiven : given world = []) :
    Steady given expectOut.toNat (.start world expectOut) := by
  have hfree : 0 < windowSize := by decide
  refine ⟨⟨⟨⟨rfl, rfl, Nat.zero_le _⟩, ⟨0, rfl⟩, Nat.zero_le _, hgiven, ?_, ?_⟩, hfree⟩,
    ready_blank, ready_blank, ready_blank⟩
  · intro i hi
    cases hi
  · change Summed 1 0 (given world)
    rw [hgiven]
    exact summed_nil

/-- The decoder ends with a status as soon as it has fuel for the bits of its input. What the sink
was given is the beginning of the output and within the limit, and all of the expected size after
success. -/
theorem inflateEntry_ends (hep : Watched ep given left) {world : ω} {fuel : ℕ}
    (expectOut : DWord) (zlibWrapped : Bool) (hgiven : given world = [])
    (hfuel : 8 * left world < fuel) : Ends (fun _ t ↦ Flushed given expectOut.toNat t ∧
        (expectOut ≠ noExpectation → t.produced = expectOut.toNat))
      (Refused given expectOut.toNat) (inflateRun ep fuel zlibWrapped) (.start world expectOut) := by
  refine (inflateRun_ends hep zlibWrapped (steady_start hgiven) ?_).weaken ?_
  · unfold bitsLeft Inflater.start
    dsimp only
    rw [List.length_nil]
    omega
  · rintro _ t ⟨hflushed, hsize⟩
    refine ⟨hflushed, ?_⟩
    intro hexpect
    refine hsize.resolve_left ?_
    intro hsame
    exact hexpect (BitVec.eq_of_toNat_eq hsame)

/-- A source with a list of answers, then the end of input, and any sink, which is watched. -/
structure Feed (κ : Type) where
  reads : List (Option (List Octet))
  host : κ
  sunk : List Octet

def feeding {κ : Type} (sink : κ → List Octet → κ × Bool) : Endpoints (Feed κ) where
  source w _ := ({ w with reads := w.reads.tail }, w.reads.headD (some []))
  sink w data :=
    ({ w with host := (sink w.host data).1, sunk := w.sunk ++ data }, (sink w.host data).2)

/-- The octets that the answers hold. -/
def Feed.size {κ : Type} (w : Feed κ) : ℕ := (w.reads.map fun read ↦ (read.getD []).length).sum

theorem feeding_watched {κ : Type} (sink : κ → List Octet → κ × Bool) :
    Watched (feeding sink) Feed.sunk Feed.size := by
  refine ⟨fun _ ↦ rfl, ?_, fun _ _ ↦ rfl, fun _ _ ↦ le_rfl⟩
  rintro ⟨reads, host, sunk⟩ data hdata _
  cases reads with
  | nil =>
    obtain rfl := Option.some.inj hdata
    exact le_rfl
  | cons read rest =>
    change read = some data at hdata
    subst hdata
    change (rest.map _).sum + data.length ≤ (_ :: rest.map _).sum
    rw [List.sum_cons, Nat.add_comm]
    rfl

/-- For every input, cut up in any way, every expectation and every sink: the decoder ends with a
status, so that it never reads a cell of its window that this stream has not written and never
leaves an array; what the sink was given is the beginning of what was produced and no more than
expected, and after success with an expectation just as much. -/
theorem inflateEntry_safe {κ : Type} (sink : κ → List Octet → κ × Bool) (host : κ)
    (reads : List (Option (List Octet))) (expectOut : DWord) (zlibWrapped : Bool) :
    ∃ bound, ∀ fuel > bound,
      let result := inflateEntry (feeding sink) fuel ⟨reads, host, []⟩ expectOut zlibWrapped
      (result.1 = .ok () ∨ ∃ status, result.1 = .error (.error status)) ∧
        result.2.world.sunk <+: result.2.output ∧
        result.2.output.length = result.2.produced ∧
        result.2.world.sunk.length ≤ expectOut.toNat ∧
        (result.1 = .ok () → expectOut ≠ noExpectation →
          result.2.world.sunk.length = expectOut.toNat) := by
  refine ⟨8 * Feed.size ⟨reads, host, []⟩, ?_⟩
  intro fuel hfuel
  have hends := @inflateEntry_ends _ _ _ _ (feeding_watched sink) ⟨reads, host, []⟩ fuel expectOut
    zlibWrapped rfl hfuel
  unfold Ends at hends
  unfold inflateEntry
  dsimp only
  split at hends
  case h_1 t heq =>
    obtain ⟨hflushed, hsize⟩ := hends
    have hlength := hflushed.length
    have hlimited := hflushed.limited
    rw [heq]
    dsimp only
    rw [hflushed.sunk]
    refine ⟨.inl rfl, List.prefix_rfl, hlength, by omega, ?_⟩
    intro _ hexpect
    rw [hlength]
    exact hsize hexpect
  case h_2 e t heq =>
    obtain ⟨status, rfl⟩ := hends.status
    have hlength := hends.length
    have hlimited := hends.limited
    have hle := hends.sunk.length_le
    rw [heq]
    refine ⟨.inr ⟨status, rfl⟩, hends.sunk, hlength, ?_, ?_⟩
    · dsimp only
      omega
    · intro hok
      cases hok

end S5LBox.Firmware
