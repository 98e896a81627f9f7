import S5LBox.Firmware.InflateStored
import S5LBox.Firmware.InflateTables

/-!
# Whole streams

Every stream of the format is expanded, whatever the pieces in which its octets arrive, and a
wrapped one is accepted just when its trailer is the checksum of the expansion.
-/

namespace S5LBox.Firmware

open List Attempt Bits Canonical

variable {ω : Type} {ep : Endpoints ω} {given rest : ω → List Octet} {good : ω → Prop} {limit : ℕ}
  {st t u : Inflater ω} {bits more : List Bool} {output : List Octet}

theorem length_word (lengths : List ℕ) (s : ℕ) : (word lengths s).length = lengths.getD s 0 := by
  unfold word
  rw [length_msb]

theorem length_itemsBits {lit dist : List ℕ} {items : List Item}
    (hvalid : ItemsValid lit dist output items) (hend : lit.getD 256 0 ≠ 0) :
    items.length < (itemsBits lit dist items).length := by
  unfold itemsBits
  rw [length_append, length_word]
  have hle : items.length ≤ (items.flatMap (Item.bits lit dist)).length := by
    induction items generalizing output with
    | nil => exact le_rfl
    | cons item items ih =>
      obtain ⟨hitem, hitems⟩ := hvalid
      have hrest := ih hitems
      have hone : 1 ≤ (item.bits lit dist).length := by
        cases item with
        | literal octet =>
          rw [Item.bits, length_word]
          exact Nat.one_le_iff_ne_zero.2 hitem
        | copy lengthSym lengthExtra distSym distBits =>
          obtain ⟨-, -, -, -, hlit, -⟩ := hitem
          rw [Item.bits, length_append, length_append, length_append, length_word]
          omega
      rw [flatMap_cons, length_append, length_cons]
      omega
  omega

theorem length_le_expand_block (output : List Octet) (block : Block) :
    output.length ≤ (block.expand output).length := by
  cases block with
  | stored padding data =>
    rw [Block.expand, length_append]
    exact Nat.le_add_right _ _
  | fixed items => exact length_le_foldl_expand output items
  | dynamic header items => exact length_le_foldl_expand output items

theorem length_le_foldl_block (output : List Octet) (blocks : List Block) :
    output.length ≤ (blocks.foldl Block.expand output).length := by
  induction blocks generalizing output with
  | nil => exact le_rfl
  | cons block rest ih => exact (length_le_expand_block output block).trans (ih _)

/-- What kind of block it is, as a number of two bits. -/
def Block.kind : Block → ℕ
  | stored _ _ => 0
  | fixed _ => 1
  | dynamic _ _ => 2

/-- The bits of a block behind its kind. -/
def Block.body : Block → List Bool
  | stored padding data =>
    padding ++ lsb 16 data.length ++ lsb 16 (65535 - data.length) ++ octetBits data
  | fixed items => itemsBits fixedLengths fixedDist items
  | dynamic header items => header.bits ++ itemsBits header.lit header.dist items

theorem Block.bits_eq (block : Block) : block.bits = lsb 2 block.kind ++ block.body := by
  cases block with
  | stored padding data =>
    simp only [Block.bits, Block.kind, Block.body, append_assoc]
  | fixed items => rfl
  | dynamic header items =>
    simp only [Block.bits, Block.kind, Block.body, append_assoc]

theorem Block.kind_lt (block : Block) : block.kind < 2 ^ 2 := by
  cases block with
  | stored padding data => exact Nat.lt_of_sub_eq_succ rfl
  | fixed items => exact Nat.lt_of_sub_eq_succ rfl
  | dynamic header items => exact Nat.lt_of_sub_eq_succ rfl

theorem fixedLengths_end : fixedLengths.getD 256 0 ≠ 0 := by decide +kernel

section

variable (hep : Carries ep given rest good)

include hep

theorem inflateBlock_does {block : Block} {pos fuel : ℕ} (hvalid : block.Valid pos output)
    (h : Decoding given rest good limit st (block.body ++ more) output)
    (hwhole : (pos + 3 + (block.body ++ more).length) % 8 = 0)
    (hlimit : (block.expand output).length ≤ limit) (hfuel : block.body.length ≤ fuel) :
    Ends (fun _ t ↦ Decoding given rest good limit t more (block.expand output)) Never
      (inflateBlock ep fuel block.kind) st := by
  cases block with
  | stored padding data =>
    obtain ⟨hdata, hpadding, haligned⟩ := hvalid
    rw [Block.expand, length_append] at hlimit
    unfold Block.body at h hwhole
    rw [append_assoc, append_assoc, append_assoc] at h hwhole
    have hmore : more.length % 8 = 0 := by
      rw [length_append, length_append, length_append, length_append,
        length_lsb, length_lsb, length_octetBits] at hwhole
      omega
    exact storedBlock_does hep h hpadding hdata hmore hlimit
  | fixed items =>
    have hend := fixedLengths_end
    have hlength := length_itemsBits hvalid hend
    rw [Block.body] at h hfuel
    have hbuild := buildFixed_does h
    unfold Block.Valid at hvalid
    rw [Block.expand] at hlimit ⊢
    unfold inflateBlock Block.kind
    generalize fixedLengths = lit at *
    generalize fixedDist = dist at *
    refine hbuild.bind ?_
    rintro _ t ⟨ht, hcoded⟩
    exact codedBlock_does hep hcoded hvalid hend hlimit (by omega) ht
  | dynamic header items =>
    obtain ⟨hheader, hend, hitems⟩ := hvalid
    have hlength := length_itemsBits hitems hend
    rw [Block.body, append_assoc] at h
    rw [Block.body, length_append] at hfuel
    rw [Block.expand] at hlimit ⊢
    refine (readDynamic_does hep hheader h).bind ?_
    rintro _ t ⟨ht, hcoded⟩
    exact codedBlock_does hep hcoded hitems hend hlimit (by omega) ht

theorem inflateBlocks_does {blocks : List Block} {pos fuel : ℕ} (hsome : blocks ≠ [])
    (hvalid : StreamValid pos output blocks)
    (h : Decoding given rest good limit st (streamBits blocks ++ more) output)
    (hwhole : (pos + (streamBits blocks ++ more).length) % 8 = 0)
    (hlimit : (blocks.foldl Block.expand output).length ≤ limit)
    (hfuel : (streamBits blocks).length < fuel) :
    Ends (fun _ t ↦ Decoding given rest good limit t more (blocks.foldl Block.expand output)) Never
      (inflateBlocks ep fuel) st := by
  induction blocks generalizing st output pos fuel with
  | nil => exact absurd rfl hsome
  | cons block blocks ih =>
    obtain ⟨fuel, rfl⟩ := Nat.exists_eq_succ_of_ne_zero (Nat.ne_of_gt (Nat.zero_lt_of_lt hfuel))
    obtain ⟨hblock, hblocks⟩ := hvalid
    have hsplit : streamBits (block :: blocks) ++ more =
        lsb 1 (decide (blocks = [])).toNat ++ (lsb 2 block.kind ++
          (block.body ++ (streamBits blocks ++ more))) := by
      have hone : lsb 1 (decide (blocks = [])).toNat = [decide (blocks = [])] := by
        cases decide (blocks = []) <;> rfl
      rw [streamBits, block.bits_eq, hone]
      simp only [cons_append, append_assoc, nil_append]
    have hbits : block.bits.length = 2 + block.body.length := by
      rw [block.bits_eq, length_append, length_lsb]
    rw [streamBits, cons_append, length_cons, length_append, hbits] at hfuel
    rw [hsplit] at h hwhole
    rw [length_append, length_append, length_lsb, length_lsb] at hwhole
    rw [foldl_cons] at hlimit ⊢
    have hroom := (length_le_foldl_block (block.expand output) blocks).trans hlimit
    have hfinal : (decide (blocks = [])).toNat < 2 ^ 1 := Bool.toNat_lt _
    rw [inflateBlocks]
    refine (h.getBits hep (by decide) hfinal).bind ?_
    rintro final a ⟨hvalue, ha, -⟩
    refine (ha.getBits hep (by decide) block.kind_lt).bind ?_
    rintro kind b ⟨hkind, hb, -⟩
    rw [hkind]
    refine (inflateBlock_does hep hblock hb (by omega) hroom (by omega)).bind ?_
    intro _ c hc
    split
    case isTrue hlast =>
      have hnil : blocks = [] := by
        by_contra hmore
        rw [decide_eq_false hmore] at hvalue
        exact hlast (BitVec.eq_of_toNat_eq hvalue)
      subst hnil
      exact ends_pure.2 hc
    case isFalse hlater =>
      have hmore : blocks ≠ [] := by
        rintro rfl
        rw [not_not] at hlater
        rw [hlater] at hvalue
        cases hvalue
      refine ih hmore hblocks hc ?_ hlimit (by omega)
      rw [hbits]
      rw [length_append] at hwhole
      omega

omit hep in
theorem zlibHeader_iff (cmf flg : Octet) : (cmf &&& 0x0f = 8 ∧ cmf >>> 4 ≤ 7 ∧ flg >>> 5 &&& 1 = 0 ∧
      (cmf.toNat * 256 + flg.toNat) % 31 = 0) ↔ ZlibHeader cmf flg := by
  have hmethod : cmf &&& 0x0f = 8 ↔ cmf.toNat % 16 = 8 := by
    have hmask : (0x0f : Octet).toNat = 2 ^ 4 - 1 := rfl
    rw [← BitVec.toNat_inj, BitVec.toNat_and, hmask, Nat.and_two_pow_sub_one_eq_mod]
    rfl
  have hwindow : cmf >>> 4 ≤ 7 ↔ cmf.toNat / 16 ≤ 7 := by
    rw [BitVec.le_def, BitVec.toNat_ushiftRight, Nat.shiftRight_eq_div_pow]
    rfl
  have hdict : flg >>> 5 &&& 1 = 0 ↔ flg.toNat / 32 % 2 = 0 := by
    have hmask : (1 : Octet).toNat = 2 ^ 1 - 1 := rfl
    rw [← BitVec.toNat_inj, BitVec.toNat_and, hmask, Nat.and_two_pow_sub_one_eq_mod,
      BitVec.toNat_ushiftRight, Nat.shiftRight_eq_div_pow]
    rfl
  rw [hmethod, hwindow, hdict]
  rfl

/-- An octet in front of everything else, while the bit buffer is empty. -/
theorem Decoding.nextByte {octet : Octet} {tail : List Octet}
    (h : Decoding given rest good limit st (octetBits (octet :: tail)) output)
    (hempty : st.bitcnt = 0) :
    Ends (fun value t ↦ value = octet ∧ Decoding given rest good limit t (octetBits tail) output ∧
        t.bitcnt = 0) Never (nextByte ep) st := by
  rw [← append_nil (octetBits (octet :: tail))] at h
  have hinput := octetBits_inj ((h.input_eq hempty).trans (append_nil _))
  have hahead : st.input ++ rest st.world ≠ [] := by
    rw [hinput]
    exact cons_ne_nil _ _
  refine (nextByte_does hep h.reading.good h.reading.more hahead).weaken ?_
  rintro value t ⟨hsplit, hgood, hopen, hbitbuf, hbitcnt, hfed⟩
  rw [hinput] at hsplit
  obtain ⟨rfl, rfl⟩ := List.cons.inj hsplit
  have hzero : t.bitcnt = 0 := hbitcnt.trans hempty
  refine ⟨rfl, h.fed ⟨?_, ?_, ?_, hopen, hgood⟩ hfed, hzero⟩
  · rw [hzero]
    rfl
  · rw [hbitbuf, hbitcnt]
    exact h.reading.small
  · rw [hbitcnt]
    exact h.reading.narrow

theorem zlibHeader_does {cmf flg : Octet} {tail : List Octet} (hheader : ZlibHeader cmf flg)
    (h : Decoding given rest good limit st (octetBits (cmf :: flg :: tail)) output)
    (hempty : st.bitcnt = 0) :
    Ends (fun _ t ↦ Decoding given rest good limit t (octetBits tail) output) Never
      (zlibHeader ep) st := by
  refine (h.nextByte hep hempty).bind ?_
  rintro _ a ⟨rfl, ha, hempty⟩
  refine (ha.nextByte hep hempty).bind ?_
  rintro _ b ⟨rfl, hb, -⟩
  rw [ends_require]
  exact ⟨fun _ ↦ hb, fun hno ↦ absurd ((zlibHeader_iff _ _).2 hheader) hno⟩

theorem readTrailer_does {trailer : List Octet} (want : Word)
    (h : Reading rest good st (octetBits trailer ++ more)) (hwhole : more.length % 8 = 0) :
    Ends (fun value t ↦ value = trailer.foldl
        (fun (value : Word) (octet : Octet) ↦ value <<< 8 ||| octet.setWidth 32) want ∧ Fed given st t)
      Never (readTrailer ep trailer.length want) st := by
  induction trailer generalizing st want with
  | nil => exact ends_pure.2 ⟨rfl, .refl st⟩
  | cons octet trailer ih =>
    have hmore : (octetBits trailer ++ more).length % 8 = 0 := by
      rw [length_append, length_octetBits]
      omega
    rw [octetBits_cons, append_assoc] at h
    refine (alignedByte_does hep h hmore).bind ?_
    rintro _ t ⟨rfl, hreading, hfed⟩
    refine (ih _ hreading).weaken ?_
    rintro value u ⟨hvalue, hfed'⟩
    exact ⟨hvalue, hfed.trans hfed'⟩

theorem zlibTrailer_does {padding : List Bool} {trailer : List Octet}
    (hflushed : Flushed given limit st) (hpadding : padding.length < 8)
    (htrailer : trailer.length = 4)
    (h : Reading rest good st (padding ++ (octetBits trailer ++ more)))
    (hwhole : more.length % 8 = 0) :
    Ends (fun _ t ↦ Fed given st t ∧ bigEndian trailer = adler32 st.output)
      (fun _ t ↦ Fed given st t ∧ bigEndian trailer ≠ adler32 st.output) (zlibTrailer ep) st := by
  have hmore : (octetBits trailer ++ more).length % 8 = 0 := by
    rw [length_append, length_octetBits]
    omega
  have halign := @alignToByte_does _ given _ _ _ _ _ h hpadding hmore
  refine (halign.mono (fun _ _ h ↦ h) fun _ _ hno ↦ hno.elim).bind ?_
  rintro _ a ⟨hreading, hfed⟩
  have hread := readTrailer_does hep 0 hreading hwhole
  rw [htrailer] at hread
  refine (hread.mono (fun _ _ h ↦ h) fun _ _ hno ↦ hno.elim).bind ?_
  rintro want b ⟨hwant, hfed'⟩
  have hall := hfed.trans hfed'
  have hsums : b.adlerB <<< 16 ||| b.adlerA = adler32 st.output := by
    rw [hall.adlerA, hall.adlerB]
    exact hflushed.summed.eq_adler32
  obtain rfl : want = bigEndian trailer := hwant
  rw [ends_bind, ends_get, ends_require, hsums]
  exact ⟨fun hsame ↦ ⟨hall, hsame⟩, fun hdiffers ↦ ⟨hall, hdiffers⟩⟩

theorem inflateRun_does {blocks : List Block} {fuel : ℕ} {zlibWrapped : Bool} {verdict : Prop}
    (hsome : blocks ≠ []) (hvalid : StreamValid 0 [] blocks)
    (hwhole : (streamBits blocks ++ more).length % 8 = 0)
    (hlimit : (expansion blocks).length ≤ limit)
    (hexpect : limit = noExpectation.toNat ∨ (expansion blocks).length = limit)
    (hfuel : (streamBits blocks).length < fuel)
    (hheader : Ends (fun _ t ↦ Decoding given rest good limit t (streamBits blocks ++ more) [])
      Never (wrapped zlibWrapped (zlibHeader ep)) st)
    (htrailer : ∀ t, Flushed given limit t → t.output = expansion blocks → Reading rest good t more →
      Ends (fun _ u ↦ Fed given t u ∧ verdict) (fun _ u ↦ Fed given t u ∧ ¬verdict)
        (wrapped zlibWrapped (zlibTrailer ep)) t) :
    Ends (fun _ t ↦ verdict ∧ Flushed given limit t ∧ t.output = expansion blocks)
      (fun _ t ↦ ¬verdict ∧ Flushed given limit t ∧ t.output = expansion blocks)
      (inflateRun ep fuel zlibWrapped) st := by
  unfold inflateRun
  refine (hheader.mono (fun _ _ h ↦ h) fun _ _ hno ↦ hno.elim).bind ?_
  intro _ a ha
  have hblocks := inflateBlocks_does hep hsome hvalid ha (by rwa [Nat.zero_add]) hlimit hfuel
  refine (hblocks.mono (fun _ _ h ↦ h) fun _ _ hno ↦ hno.elim).bind ?_
  intro _ b hb
  have hflush := windowFlush_ends (hep.records (rest b.world)) hb.sound.toStaged
    ⟨hb.reading.good, rfl⟩
  refine (hflush.mono (fun _ _ h ↦ h) fun _ _ hfail ↦
    absurd (hep.accepting (rest b.world)) hfail.2).bind ?_
  rintro _ c ⟨hflushed, hgood, hframe, houtput, -⟩
  have hreading : Reading rest good c more := by
    refine ⟨?_, ?_, ?_, ?_, hgood.1⟩
    · rw [hframe.bitcnt, hframe.bitbuf, hframe.input, hgood.2]
      exact hb.reading.ahead
    · rw [hframe.bitcnt, hframe.bitbuf]
      exact hb.reading.small
    · rw [hframe.bitcnt]
      exact hb.reading.narrow
    · rw [hframe.inEof]
      exact hb.reading.more
  have hexpansion : c.output = expansion blocks := houtput.trans hb.output
  refine ((htrailer c hflushed hexpansion hreading).mono (fun _ _ h ↦ h) ?_).bind ?_
  · rintro _ u ⟨hfed, hno⟩
    exact ⟨hno, hfed.flushed hflushed, hfed.output.trans hexpansion⟩
  rintro _ d ⟨hfed, hverdict⟩
  have hflushed' := hfed.flushed hflushed
  have houtput' : d.output = expansion blocks := hfed.output.trans hexpansion
  rw [ends_bind, ends_get, ends_require]
  refine ⟨fun _ ↦ ⟨hverdict, hflushed', houtput'⟩, fun hno ↦ absurd ?_ hno⟩
  rw [hflushed'.bound, ← hflushed'.length, houtput']
  exact hexpect

end

variable {κ : Type} {sink : κ → List Octet → κ × Bool}

/-- The octets that are still to come. -/
def Feed.ahead (w : Feed κ) : List Octet := w.reads.flatMap fun read ↦ read.getD []

/-- The source neither fails nor ends before its last chunk. -/
def Feed.Good (w : Feed κ) : Prop :=
  ∀ read ∈ w.reads, ∃ data, read = some data ∧ data ≠ [] ∧ data.length ≤ inBuf

theorem feeding_carries (haccepts : ∀ host data, (sink host data).2 = true) :
    Carries (feeding sink) Feed.sunk Feed.ahead Feed.Good := by
  refine ⟨?_, fun w data hgood ↦ ⟨haccepts _ _, rfl, rfl, hgood⟩⟩
  rintro ⟨reads, host, sunk⟩ hgood
  cases reads with
  | nil => exact ⟨[], rfl, Nat.zero_le _, fun hne ↦ absurd rfl hne, rfl, rfl, hgood⟩
  | cons read reads =>
    obtain ⟨data, rfl, hne, hle⟩ := hgood read mem_cons_self
    exact ⟨data, rfl, hle, fun _ ↦ hne, rfl, rfl,
      fun read hread ↦ hgood read (mem_cons_of_mem _ hread)⟩

theorem decoding_start {chunks : List (List Octet)} (host : κ) (expectOut : DWord)
    (hchunks : ∀ chunk ∈ chunks, chunk ≠ [] ∧ chunk.length ≤ inBuf) :
    Decoding Feed.sunk Feed.ahead Feed.Good expectOut.toNat
      (.start ⟨chunks.map some, host, []⟩ expectOut) (octetBits chunks.flatten) [] := by
  have hrest : Feed.ahead (⟨chunks.map some, host, []⟩ : Feed κ) = chunks.flatten := by
    unfold Feed.ahead
    rw [flatMap_map, flatten_eq_flatMap]
    rfl
  refine ⟨⟨?_, Nat.one_pos, Nat.zero_le _, rfl, ?_⟩, (steady_start rfl).sound, rfl⟩
  · change _ = octetBits ([] ++ Feed.ahead ⟨chunks.map some, host, []⟩)
    rw [hrest]
    rfl
  · intro read hread
    obtain ⟨chunk, hchunk, rfl⟩ := mem_map.1 hread
    exact ⟨chunk, rfl, hchunks chunk hchunk⟩

/-- How the decoder is done with a stream. -/
structure Inflated (expanded : List Octet) (accepted : Prop)
    (result : Except Stop Unit × Inflater (Feed κ)) : Prop where
  status : result.1 = .ok () ↔ accepted
  sunk : result.2.world.sunk = expanded
  produced : result.2.produced = expanded.length

theorem inflated_of_ends {expanded : List Octet} {verdict : Prop}
    {p : Inflating (Feed κ) Unit} {st : Inflater (Feed κ)}
    (h : Ends (fun _ t ↦ verdict ∧ Flushed Feed.sunk limit t ∧ t.output = expanded)
      (fun _ t ↦ ¬verdict ∧ Flushed Feed.sunk limit t ∧ t.output = expanded) p st) :
    Inflated expanded verdict (p st) := by
  unfold Ends at h
  rcases hp : p st with ⟨_ | _, t⟩
  · rw [hp] at h
    obtain ⟨hno, hflushed, rfl⟩ := h
    refine ⟨⟨?_, fun hyes ↦ absurd hyes hno⟩, hflushed.sunk, hflushed.length.symm⟩
    intro hok
    cases hok
  · rw [hp] at h
    obtain ⟨hyes, hflushed, rfl⟩ := h
    exact ⟨⟨fun _ ↦ hyes, fun _ ↦ rfl⟩, hflushed.sunk, hflushed.length.symm⟩

/-- A stream of any blocks is expanded, however its octets are cut into chunks and whatever
follows them; wrapped, it is accepted exactly when the trailer is the Adler-32 of the expansion. -/
theorem inflate_expands (haccepts : ∀ host data, (sink host data).2 = true) (host : κ)
    {blocks : List Block} (hsome : blocks ≠ []) (hvalid : StreamValid 0 [] blocks)
    {stream : List Octet} {padding : List Bool} (hpadding : padding.length < 8)
    (hstream : octetBits stream = streamBits blocks ++ padding) {expectOut : DWord}
    (hlimit : (expansion blocks).length ≤ expectOut.toNat)
    (hexpect : expectOut = noExpectation ∨ (expansion blocks).length = expectOut.toNat) :
    (∀ (chunks : List (List Octet)) (tail : List Octet),
      (∀ chunk ∈ chunks, chunk ≠ [] ∧ chunk.length ≤ inBuf) → chunks.flatten = stream ++ tail →
      ∀ fuel > 8 * chunks.flatten.length, Inflated (expansion blocks) True
          (vmfwInflate (feeding sink) fuel ⟨chunks.map some, host, []⟩ expectOut)) ∧
      ∀ (chunks : List (List Octet)) (cmf flg : Octet) (trailer tail : List Octet),
        (∀ chunk ∈ chunks, chunk ≠ [] ∧ chunk.length ≤ inBuf) →
        chunks.flatten = cmf :: flg :: (stream ++ trailer ++ tail) →
        ZlibHeader cmf flg → trailer.length = 4 → ∀ fuel > 8 * chunks.flatten.length,
          Inflated (expansion blocks) (bigEndian trailer = adler32 (expansion blocks))
            (vmfwZlibInflate (feeding sink) fuel ⟨chunks.map some, host, []⟩ expectOut) := by
  have hexpect' : expectOut.toNat = noExpectation.toNat ∨
      (expansion blocks).length = expectOut.toNat := by
    rcases hexpect with rfl | hsize
    · exact .inl rfl
    · exact .inr hsize
  have hbits := congrArg List.length hstream
  rw [length_octetBits, length_append] at hbits
  constructor
  · intro chunks tail hchunks hflatten fuel hfuel
    have hstart := decoding_start host expectOut hchunks
    rw [hflatten, length_append] at hfuel
    rw [hflatten, octetBits_append, hstream, append_assoc] at hstart
    refine inflated_of_ends (inflateRun_does (feeding_carries haccepts) hsome hvalid ?_ hlimit
      hexpect' (by omega) (ends_pure.2 hstart) ?_)
    · rw [length_append, length_append, length_octetBits]
      omega
    · intro t _ _ _
      exact ends_pure.2 ⟨.refl t, trivial⟩
  · intro chunks cmf flg trailer tail hchunks hflatten hheader htrailer fuel hfuel
    have hstart := decoding_start host expectOut hchunks
    rw [hflatten, length_cons, length_cons, length_append, length_append]
      at hfuel
    rw [hflatten] at hstart
    have hpassed := zlibHeader_does (feeding_carries haccepts) hheader hstart rfl
    rw [octetBits_append, octetBits_append, hstream, append_assoc, append_assoc] at hpassed
    refine inflated_of_ends (inflateRun_does (feeding_carries haccepts) hsome hvalid ?_ hlimit
      hexpect' (by omega) hpassed ?_)
    · rw [length_append, length_append, length_append, length_octetBits, length_octetBits]
      omega
    · intro t hflushed houtput hreading
      rw [← houtput]
      refine zlibTrailer_does (feeding_carries haccepts) hflushed hpadding htrailer hreading ?_
      rw [length_octetBits]
      omega

/-- A sink that takes everything. -/
def devour (host : Unit) (_ : List Octet) : Unit × Bool := (host, true)

/-- A fixed block with a literal and an overlapping copy of it. -/
def repeated : List Block := [.fixed [.literal 0x61, .copy 0 0 0 0]]

theorem repeated_valid : StreamValid 0 [] repeated := by
  simp only [repeated, StreamValid, Block.Valid, ItemsValid, Item.Valid]
  decide +kernel

theorem inflate_expands_repeated :
    Inflated [0x61, 0x61, 0x61, 0x61] True (vmfwInflate (feeding devour) 100
        ⟨[some [0x4b], some [0x04, 0x02, 0x00]], (), []⟩ noExpectation) ∧
      Inflated [0x61, 0x61, 0x61, 0x61] (bigEndian [0x03, 0xce, 0x01, 0x85] =
          adler32 [0x61, 0x61, 0x61, 0x61])
        (vmfwZlibInflate (feeding devour) 100
          ⟨[some [0x78, 0x9c, 0x4b], some [0x04, 0x02, 0x00, 0x03, 0xce, 0x01, 0x85]], (), []⟩
          noExpectation) := by
  have hall := @inflate_expands Unit devour (fun _ _ ↦ rfl) () repeated (by decide)
    repeated_valid [0x4b, 0x04, 0x02, 0x00] [false, false] (by decide)
    (by decide +kernel) noExpectation (by decide +kernel) (.inl rfl)
  refine ⟨hall.1 [[0x4b], [0x04, 0x02, 0x00]] [] (by decide) rfl 100 (by decide), ?_⟩
  exact hall.2 [[0x78, 0x9c, 0x4b], [0x04, 0x02, 0x00, 0x03, 0xce, 0x01, 0x85]] 0x78 0x9c
    [0x03, 0xce, 0x01, 0x85] [] (by decide) rfl (by unfold ZlibHeader; decide) rfl 100 (by decide)

end S5LBox.Firmware
