import S5LBox.Firmware.InflateRead

/-!
# Decoding blocks

The decoder between two reads, when the bits ahead and the output so far are known: what it does
with the items of a coded block, the octets of a stored one and the tables of a dynamic one.
-/

namespace S5LBox.Firmware

open List Attempt Bits

variable {ω : Type} {ep : Endpoints ω} {given rest : ω → List Octet} {good : ω → Prop} {limit : ℕ}
  {st t u : Inflater ω} {bits more : List Bool} {output : List Octet}

/-- The bits ahead and the output so far. -/
structure Decoding (given rest : ω → List Octet) (good : ω → Prop) (limit : ℕ) (st : Inflater ω)
    (bits : List Bool) (output : List Octet) : Prop where
  reading : Reading rest good st bits
  sound : Sound given limit st
  output : st.output = output

theorem Decoding.fed (h : Decoding given rest good limit st bits output)
    (hreading : Reading rest good t more) (hfed : Fed given st t) :
    Decoding given rest good limit t more output :=
  ⟨hreading, hfed.sound h.sound, hfed.output.trans h.output⟩

section

variable (hep : Carries ep given rest good)

include hep

theorem Decoding.getBits {n value : ℕ} (hn : n ≤ 16) (hvalue : value < 2 ^ n)
    (h : Decoding given rest good limit st (lsb n value ++ more) output) :
    Ends (fun v t ↦ v.toNat = value ∧ Decoding given rest good limit t more output ∧ Fed given st t)
      Never (getBits ep n) st := by
  refine (getBits_does hep hn h.reading).weaken ?_
  rintro v t ⟨hv, hreading, hfed⟩
  exact ⟨hv.trans (Nat.mod_eq_of_lt hvalue), h.fed hreading hfed, hfed⟩

theorem Decoding.huffDecode {huff : Huff} {lengths : List ℕ} (hcodes : huff.Codes lengths)
    (hfits : Canonical.Fits lengths maxBits) (hrange : ∀ l ∈ lengths, l ≤ maxBits) {s : ℕ}
    (hlen : lengths.getD s 0 ≠ 0)
    (h : Decoding given rest good limit st (Canonical.word lengths s ++ more) output) :
    Ends (fun v t ↦ v = s ∧ Decoding given rest good limit t more output ∧ Fed given st t) Never
      (huffDecode ep huff) st := by
  have hmax : lengths.getD s 0 ≤ maxBits := by
    rcases Nat.lt_or_ge s lengths.length with hs | hs
    · have hget : lengths.getD s 0 = lengths[s] := by simp [List.getD, hs]
      rw [hget]
      exact hrange _ (getElem_mem hs)
    · simp [List.getD, hs]
  refine (huffDecode_does hep hcodes hfits hlen hmax h.reading).weaken ?_
  rintro v t ⟨hv, hreading, hfed⟩
  exact ⟨hv, h.fed hreading hfed, hfed⟩

/-- While something is emitted the source stays where it is. -/
theorem Carries.records (ahead : List Octet) :
    Records ep given fun w ↦ good w ∧ rest w = ahead := by
  rintro w data ⟨hgood, hrest⟩
  obtain ⟨-, hsame, hgiven, hgood'⟩ := hep.sink w data hgood
  exact ⟨⟨hgood', hsame.trans hrest⟩, hgiven⟩

theorem Carries.accepting (ahead : List Octet) : Accepting ep fun w ↦ good w ∧ rest w = ahead :=
  fun w data hgood ↦ (hep.sink w data hgood.1).1

omit hep in
theorem Decoding.emitted (h : Decoding given rest good limit st bits output)
    {output' : List Octet} (hsound : Sound given limit t)
    (hgood : good t.world ∧ rest t.world = rest st.world) (hframe : Frame st t)
    (houtput : t.output = output') : Decoding given rest good limit t bits output' := by
  refine ⟨⟨?_, ?_, ?_, ?_, hgood.1⟩, hsound, houtput⟩
  · rw [hframe.bitcnt, hframe.bitbuf, hframe.input, hgood.2]
    exact h.reading.ahead
  · rw [hframe.bitcnt, hframe.bitbuf]
    exact h.reading.small
  · rw [hframe.bitcnt]
    exact h.reading.narrow
  · rw [hframe.inEof]
    exact h.reading.more

theorem Decoding.emitByte (octet : Octet) (h : Decoding given rest good limit st bits output)
    (hroom : output.length + 1 ≤ limit) :
    Ends (fun _ t ↦ Decoding given rest good limit t bits (output ++ [octet]) ∧ Frame st t) Never
      (emitByte ep octet) st := by
  have hemit := emitByte_ends (hep.records (rest st.world)) h.sound ⟨h.reading.good, rfl⟩ octet
  refine hemit.mono ?_ ?_
  · rintro _ t ⟨hsound, hgood, hframe, houtput⟩
    rw [h.output] at houtput
    exact ⟨h.emitted hsound hgood hframe houtput, hframe⟩
  · rintro e t ⟨-, hover⟩
    have hless := hover (hep.accepting (rest st.world))
    rw [h.output] at hless
    exact absurd hless (Nat.not_lt_of_le hroom)

theorem Decoding.emitRun (data : List Octet) (h : Decoding given rest good limit st bits output)
    (hroom : output.length + data.length ≤ limit) :
    Ends (fun _ t ↦ Decoding given rest good limit t bits (output ++ data) ∧ Frame st t) Never
      (emitRun ep data.length data) st := by
  have hemit := emitRun_ends (hep.records (rest st.world)) h.sound ⟨h.reading.good, rfl⟩
    (le_refl data.length)
  refine hemit.mono ?_ ?_
  · rintro _ t ⟨hsound, hgood, hframe, houtput⟩
    rw [h.output] at houtput
    exact ⟨h.emitted hsound hgood hframe houtput, hframe⟩
  · rintro e t ⟨-, hover⟩
    have hless := hover (hep.accepting (rest st.world))
    rw [h.output] at hless
    exact absurd hless (Nat.not_lt_of_le hroom)

theorem Decoding.emitMatch {length distance : ℕ}
    (h : Decoding given rest good limit st bits output) (hpos : 0 < distance)
    (hwindow : distance ≤ windowSize) (hback : distance ≤ output.length)
    (hroom : output.length + length ≤ limit) :
    Ends (fun _ t ↦ Decoding given rest good limit t bits (copied output distance length) ∧
        Frame st t) Never (emitMatch ep length distance) st := by
  have hemit := @emitMatch_ends _ _ _ _ _ _ (hep.records (rest st.world)) length distance h.sound
    ⟨h.reading.good, rfl⟩ hpos hwindow
  refine hemit.mono ?_ ?_
  · rintro _ t ⟨hsound, hgood, hframe, -, houtput⟩
    rw [h.output] at houtput
    exact ⟨h.emitted hsound hgood hframe houtput, hframe⟩
  · rintro e t ⟨-, hover⟩
    rw [h.output] at hover
    exact absurd (hover hback (hep.accepting (rest st.world))) (Nat.not_lt_of_le hroom)

end

theorem length_copied (output : List Octet) (distance length : ℕ) :
    (copied output distance length).length = output.length + length := by
  induction length generalizing output with
  | zero => rfl
  | succ length ih =>
    rw [copied, ih, length_append, length_singleton]
    omega

theorem length_le_expand (output : List Octet) (item : Item) :
    output.length ≤ (item.expand output).length := by
  cases item with
  | literal octet =>
    rw [Item.expand, length_append]
    exact Nat.le_add_right _ _
  | copy lengthSym lengthExtra distSym distBits =>
    rw [Item.expand, length_copied]
    exact Nat.le_add_right _ _

theorem length_le_foldl_expand (output : List Octet) (items : List Item) :
    output.length ≤ (items.foldl Item.expand output).length := by
  induction items generalizing output with
  | nil => exact le_rfl
  | cons item rest ih => exact (length_le_expand output item).trans (ih _)

/-- The decoder has the two codes of a block. -/
structure Coded (lit dist : List ℕ) (st : Inflater ω) : Prop where
  lencode : st.lencode.Codes lit
  distcode : st.distcode.Codes dist
  lit_fits : Canonical.Fits lit maxBits
  dist_fits : Canonical.Fits dist maxBits
  lit_range : ∀ l ∈ lit, l ≤ maxBits
  dist_range : ∀ l ∈ dist, l ≤ maxBits

theorem Coded.fed {lit dist : List ℕ} (h : Coded lit dist st) (hfed : Fed given st t) :
    Coded lit dist t := by
  refine ⟨?_, ?_, h.lit_fits, h.dist_fits, h.lit_range, h.dist_range⟩
  · rw [hfed.lencode]
    exact h.lencode
  · rw [hfed.distcode]
    exact h.distcode

theorem Coded.frame {lit dist : List ℕ} (h : Coded lit dist st) (hframe : Frame st t) :
    Coded lit dist t := by
  refine ⟨?_, ?_, h.lit_fits, h.dist_fits, h.lit_range, h.dist_range⟩
  · rw [hframe.lencode]
    exact h.lencode
  · rw [hframe.distcode]
    exact h.distcode

theorem Decoding.readExtra (hep : Carries ep given rest good) {base extra : List ℕ}
    {sym value : ℕ} (hextra : extra.getD sym 0 ≤ 16) (hvalue : value < 2 ^ extra.getD sym 0)
    (h : Decoding given rest good limit st (lsb (extra.getD sym 0) value ++ more) output) :
    Ends (fun v t ↦ v = base.getD sym 0 + value ∧ Decoding given rest good limit t more output ∧
        Fed given st t) Never (readExtra ep base extra sym) st := by
  refine (h.getBits hep hextra hvalue).bind ?_
  rintro v t ⟨hv, hdecoding, hfed⟩
  exact ends_pure.2 ⟨by rw [hv], hdecoding, hfed⟩

theorem lenExtra_le (sym : ℕ) (h : sym < 29) : lenExtra.getD sym 0 ≤ 16 := by
  have hall : ∀ sym < 29, lenExtra.getD sym 0 ≤ 16 := by decide
  exact hall sym h

theorem distExtra_le (sym : ℕ) (h : sym < 30) : distExtra.getD sym 0 ≤ 16 := by
  have hall : ∀ sym < 30, distExtra.getD sym 0 ≤ 16 := by decide
  exact hall sym h

theorem codedBlock_does (hep : Carries ep given rest good) {lit dist : List ℕ} {items : List Item}
    {fuel : ℕ} (hcoded : Coded lit dist st) (hvalid : ItemsValid lit dist output items)
    (hend : lit.getD 256 0 ≠ 0) (hlimit : (items.foldl Item.expand output).length ≤ limit)
    (hfuel : items.length < fuel)
    (h : Decoding given rest good limit st (itemsBits lit dist items ++ more) output) :
    Ends (fun _ t ↦ Decoding given rest good limit t more (items.foldl Item.expand output)) Never
      (codedBlock ep fuel) st := by
  induction items generalizing st output fuel with
  | nil =>
    obtain ⟨fuel, rfl⟩ := Nat.exists_eq_succ_of_ne_zero (Nat.ne_of_gt hfuel)
    rw [codedBlock, ends_bind, ends_get]
    refine (h.huffDecode hep hcoded.lencode hcoded.lit_fits hcoded.lit_range hend).bind ?_
    rintro sym t ⟨rfl, hdecoding, -⟩
    rw [if_neg (by decide), if_pos rfl]
    exact ends_pure.2 hdecoding
  | cons item items ih =>
    obtain ⟨fuel, rfl⟩ := Nat.exists_eq_succ_of_ne_zero (Nat.ne_of_gt (Nat.zero_lt_of_lt hfuel))
    rw [length_cons] at hfuel
    obtain ⟨hitem, hitems⟩ := hvalid
    have hgrow := length_le_foldl_expand (item.expand output) items
    rw [foldl_cons] at hlimit
    have hroom := hgrow.trans hlimit
    have hsplit : itemsBits lit dist (item :: items) ++ more =
        item.bits lit dist ++ (itemsBits lit dist items ++ more) := by
      unfold itemsBits
      rw [flatMap_cons, append_assoc, append_assoc, append_assoc]
    rw [hsplit] at h
    rw [codedBlock, ends_bind, ends_get, foldl_cons]
    cases item with
    | literal octet =>
      refine (h.huffDecode hep hcoded.lencode hcoded.lit_fits hcoded.lit_range hitem).bind ?_
      rintro sym t ⟨rfl, hdecoding, hfed⟩
      rw [if_pos (by exact octet.isLt)]
      rw [Item.expand, length_append, length_singleton] at hroom
      refine (hdecoding.emitByte hep _ hroom).bind ?_
      rintro _ u ⟨hdecoding', hframe⟩
      rw [BitVec.ofNat_toNat, BitVec.setWidth_eq] at hdecoding'
      exact ih ((hcoded.fed hfed).frame hframe) hitems hlimit (by omega) hdecoding'
    | copy lengthSym lengthExtra distSym distBits =>
      obtain ⟨hlengthSym, hlengthExtra, hdistSym, hdistBits, hlit, hdist, hback⟩ := hitem
      rw [Item.bits, append_assoc, append_assoc, append_assoc] at h
      refine (h.huffDecode hep hcoded.lencode hcoded.lit_fits hcoded.lit_range hlit).bind ?_
      rintro sym a ⟨rfl, ha, hfed⟩
      have hcoded := hcoded.fed hfed
      rw [if_neg (by omega), if_neg (by omega), ends_bind, ends_require, Nat.add_sub_cancel_left]
      refine ⟨fun _ ↦ ?_, fun hno ↦ absurd hlengthSym hno⟩
      rw [ends_bind]
      refine (ha.readExtra hep (lenExtra_le _ hlengthSym) hlengthExtra).weaken ?_
      rintro length b ⟨hlength, hb, hfed⟩
      have hcoded := hcoded.fed hfed
      rw [ends_bind, ends_get]
      refine (hb.huffDecode hep hcoded.distcode hcoded.dist_fits hcoded.dist_range hdist).bind ?_
      rintro dsym c ⟨rfl, hc, hfed⟩
      have hcoded := hcoded.fed hfed
      rw [ends_bind, ends_require]
      refine ⟨fun _ ↦ ?_, fun hno ↦ absurd hdistSym hno⟩
      rw [ends_bind]
      refine (hc.readExtra hep (distExtra_le _ hdistSym) hdistBits).weaken ?_
      rintro distance d ⟨hdistance, hd, hfed⟩
      have hcoded := hcoded.fed hfed
      have hpos : 0 < distance := hdistance ▸ distBase_pos _ _ hdistSym
      have hwindow : distance ≤ windowSize := hdistance ▸ distBase_le _ _ hdistSym hdistBits
      rw [Item.expand, length_copied] at hroom
      have hsame : copyDistance dsym distBits = distance := hdistance.symm
      have hsame' : copyLength lengthSym lengthExtra = length := hlength.symm
      rw [hsame'] at hroom
      rw [hsame] at hback
      refine (hd.emitMatch hep hpos hwindow hback hroom).bind ?_
      rintro _ e ⟨he, hframe⟩
      have hexpand : (Item.copy lengthSym lengthExtra dsym distBits).expand output =
          copied output distance length := by rw [Item.expand, hsame, hsame']
      rw [hexpand] at hitems hlimit ⊢
      exact ih (hcoded.frame hframe) hitems hlimit (by omega) he

end S5LBox.Firmware
