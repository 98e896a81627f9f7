import S5LBox.Firmware.Deflate
import S5LBox.Firmware.InflateSafe

/-!
# Reading a stream

What the reading functions return when the bits ahead are known: fields, code words, octets. The
bits ahead are those of the bit buffer, of the input buffer and of the source, in that order.
-/

namespace S5LBox.Firmware

open List Attempt Bits Nat

variable {ω : Type} {ep : Endpoints ω} {given rest : ω → List Octet} {good : ω → Prop} {limit : ℕ}
  {st t u : Inflater ω} {bits more : List Bool} {output : List Octet}

/-- The source delivers `rest` and the sink takes everything, as long as the state is good. -/
structure Carries (ep : Endpoints ω) (given rest : ω → List Octet) (good : ω → Prop) : Prop where
  source : ∀ w, good w → ∃ data, (ep.source w inBuf).2 = some data ∧ data.length ≤ inBuf ∧
    (rest w ≠ [] → data ≠ []) ∧ rest w = data ++ rest (ep.source w inBuf).1 ∧
    given (ep.source w inBuf).1 = given w ∧ good (ep.source w inBuf).1
  sink : ∀ w data, good w → (ep.sink w data).2 = true ∧ rest (ep.sink w data).1 = rest w ∧
    given (ep.sink w data).1 = given w ++ data ∧ good (ep.sink w data).1

/-- The bits that are ahead. -/
structure Reading (rest : ω → List Octet) (good : ω → Prop) (st : Inflater ω)
    (bits : List Bool) : Prop where
  ahead : bits = lsb st.bitcnt st.bitbuf.toNat ++ octetBits (st.input ++ rest st.world)
  small : st.bitbuf.toNat < 2 ^ st.bitcnt
  narrow : st.bitcnt ≤ 24
  more : st.inEof = false
  good : good st.world

theorem octetBits_cons (octet : Octet) (data : List Octet) :
    octetBits (octet :: data) = lsb 8 octet.toNat ++ octetBits data := rfl

theorem octetBits_append (data data' : List Octet) :
    octetBits (data ++ data') = octetBits data ++ octetBits data' := by
  unfold octetBits
  rw [flatMap_append]

@[simp] theorem length_octetBits (data : List Octet) :
    (octetBits data).length = 8 * data.length := by
  induction data with
  | nil => rfl
  | cons octet rest ih =>
    rw [octetBits_cons, length_append, length_lsb, ih, length_cons]
    omega

theorem octetBits_append_inj {data data' : List Octet} {bits bits' : List Bool}
    (hlength : data.length = data'.length)
    (h : octetBits data ++ bits = octetBits data' ++ bits') : data = data' ∧ bits = bits' := by
  induction data generalizing data' with
  | nil =>
    obtain rfl := eq_nil_of_length_eq_zero hlength.symm
    exact ⟨rfl, h⟩
  | cons octet rest ih =>
    cases data' with
    | nil => cases hlength
    | cons octet' rest' =>
      rw [octetBits_cons, octetBits_cons, append_assoc, append_assoc] at h
      obtain ⟨hoctet, hrest⟩ := append_inj h (by rw [length_lsb, length_lsb])
      obtain ⟨rfl, hbits⟩ := ih (succ.inj hlength) hrest
      have hsame := lsb_inj.1 hoctet
      rw [mod_eq_of_lt octet.isLt, mod_eq_of_lt octet'.isLt] at hsame
      rw [BitVec.eq_of_toNat_eq hsame]
      exact ⟨rfl, hbits⟩

theorem octetBits_inj {data data' : List Octet} (h : octetBits data = octetBits data') :
    data = data' := by
  have hlength := congrArg List.length h
  rw [length_octetBits, length_octetBits] at hlength
  have hnil : octetBits data ++ [] = octetBits data' ++ [] := by rw [h]
  exact (octetBits_append_inj (by omega) hnil).1

theorem nextByte_does (hep : Carries ep given rest good) (hgood : good st.world)
    (hopen : st.inEof = false) (hahead : st.input ++ rest st.world ≠ []) :
    Ends (fun octet t ↦ st.input ++ rest st.world = octet :: (t.input ++ rest t.world) ∧
        good t.world ∧ t.inEof = false ∧ t.bitbuf = st.bitbuf ∧ t.bitcnt = st.bitcnt ∧
        Fed given st t) Never (nextByte ep) st := by
  unfold Ends nextByte
  cases hinput : st.input with
  | cons octet tail =>
    exact ⟨rfl, hgood, hopen, rfl, rfl, .of_world st rfl _ _ _ _⟩
  | nil =>
    rw [hinput, nil_append] at hahead
    obtain ⟨data, hdata, hlength, hmore, hrest, hgiven, hgood'⟩ := hep.source st.world hgood
    have hne := hmore hahead
    dsimp only
    rw [hopen]
    rcases hsource : ep.source st.world inBuf with ⟨world, read⟩
    rw [hsource] at hdata hrest hgiven hgood'
    obtain rfl : read = some data := hdata
    dsimp only at hrest hgiven hgood' ⊢
    rw [if_neg (Nat.not_lt_of_le hlength)]
    cases data with
    | nil => exact absurd rfl hne
    | cons octet tail => exact ⟨hrest, hgood', rfl, rfl, rfl, .of_world st hgiven _ _ _ _⟩

theorem pushByte_value (octet : Octet) {bitbuf : Word} {bitcnt : ℕ}
    (hsmall : bitbuf.toNat < 2 ^ bitcnt) (hnarrow : bitcnt < 24) :
    (bitbuf ||| octet.setWidth 32 <<< bitcnt).toNat = bitbuf.toNat + octet.toNat * 2 ^ bitcnt := by
  have hoctet := octet.isLt
  have hpow : 2 ^ bitcnt ≤ 2 ^ 24 := Nat.pow_le_pow_right (by decide) (Nat.le_of_lt hnarrow)
  have hprod : octet.toNat * 2 ^ bitcnt < 2 ^ 32 := by
    calc octet.toNat * 2 ^ bitcnt ≤ 255 * 2 ^ 24 := Nat.mul_le_mul (by omega) hpow
      _ < 2 ^ 32 := by decide
  have hshift : (octet.setWidth 32 <<< bitcnt : Word).toNat = octet.toNat * 2 ^ bitcnt := by
    rw [BitVec.toNat_shiftLeft, BitVec.toNat_setWidth, mod_eq_of_lt (by omega : octet.toNat < 2 ^ 32),
      shiftLeft_eq, mod_eq_of_lt hprod]
  rw [BitVec.toNat_or, hshift, Nat.or_comm, Nat.mul_comm, ← two_pow_add_eq_or_of_lt hsmall]
  omega

theorem Reading.length (h : Reading rest good st bits) :
    bits.length = st.bitcnt + 8 * (st.input ++ rest st.world).length := by
  rw [h.ahead, length_append, length_lsb, length_octetBits]

variable {n value : ℕ}

theorem needBitsLoop_does (hep : Carries ep given rest good) {turns : ℕ} (hn : n ≤ 16)
    (hturns : n ≤ st.bitcnt + 8 * turns) (h : Reading rest good st bits) (hbits : n ≤ bits.length) :
    Ends (fun _ t ↦ n ≤ t.bitcnt ∧ Reading rest good t bits ∧ Fed given st t) Never
      (needBitsLoop ep n turns) st := by
  induction turns generalizing st with
  | zero => exact ends_pure.2 ⟨hturns, h, .refl st⟩
  | succ turns ih =>
    have hlength := h.length
    rw [needBitsLoop, ends_bind, ends_get]
    split
    case isTrue henough => exact ends_pure.2 ⟨henough, h, .refl st⟩
    case isFalse hfew =>
      have hahead : st.input ++ rest st.world ≠ [] := by
        intro hnil
        rw [hnil, length_nil] at hlength
        omega
      refine (nextByte_does hep h.good h.more hahead).bind ?_
      rintro octet t ⟨hsplit, hgood, hopen, hbitbuf, hbitcnt, hfed⟩
      rw [ends_bind, ends_modify]
      have hvalue := pushByte_value octet h.small (by omega)
      have hoctet := octet.isLt
      have hpush : Reading rest good (t.pushByte octet) bits := by
        refine ⟨?_, ?_, ?_, hopen, hgood⟩
        · unfold Inflater.pushByte
          dsimp only
          rw [h.ahead, hsplit, octetBits_cons, hbitbuf, hbitcnt, hvalue, lsb_push h.small,
            append_assoc]
        · unfold Inflater.pushByte
          dsimp only
          rw [hbitbuf, hbitcnt, hvalue, pow_add]
          have hsmall := h.small
          have hle : octet.toNat * 2 ^ st.bitcnt ≤ 255 * 2 ^ st.bitcnt :=
            Nat.mul_le_mul_right _ (by omega)
          omega
        · change t.bitcnt + 8 ≤ 24
          omega
      have hroom : n ≤ (t.pushByte octet).bitcnt + 8 * turns := by
        change n ≤ t.bitcnt + 8 + 8 * turns
        omega
      refine (ih hroom hpush).weaken ?_
      rintro _ u ⟨henough, hreading, hfed'⟩
      exact ⟨henough, hreading, (hfed.trans (.of_world t rfl _ _ _ _)).trans hfed'⟩

theorem takeBits_value (hn : n ≤ 16) (word : Word) :
    (word &&& ((1 : Word) <<< n - 1)).toNat = word.toNat % 2 ^ n := by
  have hpow : 2 ^ n ≤ 2 ^ 16 := Nat.pow_le_pow_right (by decide) hn
  have hpos := Nat.two_pow_pos n
  have hval : (1 : Word).toNat = 1 := rfl
  have hone : ((1 : Word) <<< n).toNat = 2 ^ n := by
    rw [BitVec.toNat_shiftLeft, shiftLeft_eq, hval, one_mul, mod_eq_of_lt (by omega)]
  have hmask : ((1 : Word) <<< n - 1).toNat = 2 ^ n - 1 := by
    rw [BitVec.toNat_sub, hone, hval]
    omega
  rw [BitVec.toNat_and, hmask, and_two_pow_sub_one_eq_mod]

variable (given) in
theorem takeBits_does (hn : n ≤ 16) (henough : n ≤ st.bitcnt)
    (h : Reading rest good st (lsb n value ++ more)) :
    Ends (fun v t ↦ v.toNat = value % 2 ^ n ∧ Reading rest good t more ∧ Fed given st t ∧
        t.bitcnt = st.bitcnt - n) Never (takeBits n) st := by
  obtain ⟨hvalue, hmore⟩ := lsb_append_eq henough h.ahead.symm
  unfold Ends takeBits
  refine ⟨by rw [takeBits_value hn, hvalue], ⟨?_, ?_, (sub_le _ _).trans h.narrow, h.more,
    h.good⟩, .of_world st rfl _ _ _ _, rfl⟩
  · dsimp only
    rw [BitVec.toNat_ushiftRight, shiftRight_eq_div_pow, hmore]
  · dsimp only
    rw [BitVec.toNat_ushiftRight, shiftRight_eq_div_pow]
    apply Nat.div_lt_of_lt_mul
    rw [← pow_add, Nat.add_sub_cancel' henough]
    exact h.small

theorem getBits_does (hep : Carries ep given rest good) (hn : n ≤ 16)
    (h : Reading rest good st (lsb n value ++ more)) :
    Ends (fun v t ↦ v.toNat = value % 2 ^ n ∧ Reading rest good t more ∧ Fed given st t) Never
      (getBits ep n) st := by
  have hlength : n ≤ (lsb n value ++ more).length := by
    rw [length_append, length_lsb]
    exact Nat.le_add_right _ _
  refine (needBitsLoop_does hep hn (by omega) h hlength).bind ?_
  rintro _ t ⟨henough, hreading, hfed⟩
  refine (takeBits_does given hn henough hreading).weaken ?_
  rintro v u ⟨hvalue, hreading', hfed', -⟩
  exact ⟨hvalue, hreading', hfed.trans hfed'⟩

/-- The padding up to a whole octet is what the buffer holds of one. -/
theorem alignToByte_does {padding : List Bool} (h : Reading rest good st (padding ++ more))
    (hpadding : padding.length < 8) (hmore : more.length % 8 = 0) :
    Ends (fun _ t ↦ Reading rest good t more ∧ Fed given st t) Never alignToByte st := by
  have hlength := h.length
  rw [length_append] at hlength
  have hcount : st.bitcnt % 8 = padding.length := by omega
  have hsplit : padding = lsb padding.length (st.bitbuf.toNat) := by
    have hle : padding.length ≤ st.bitcnt := by omega
    have hahead := h.ahead
    obtain ⟨k, hk⟩ := Nat.exists_eq_add_of_le hle
    rw [hk, lsb_add, append_assoc] at hahead
    exact (append_inj hahead (by rw [length_lsb])).1
  unfold alignToByte
  rw [ends_bind, ends_get, ends_bind, hcount]
  rw [hsplit] at h
  refine (takeBits_does given (by omega) (by omega) h).weaken ?_
  rintro v t ⟨-, hreading, hfed, -⟩
  exact ends_pure.2 ⟨hreading, hfed⟩

theorem alignedByte_does (hep : Carries ep given rest good) {octet : Octet}
    (h : Reading rest good st (lsb 8 octet.toNat ++ more)) (hmore : more.length % 8 = 0) :
    Ends (fun value t ↦ value = octet ∧ Reading rest good t more ∧ Fed given st t) Never
      (alignedByte ep) st := by
  have hlength := h.length
  rw [length_append, length_lsb] at hlength
  unfold alignedByte
  rw [ends_bind, ends_get]
  split
  case isTrue henough =>
    rw [ends_bind]
    refine (takeBits_does given (by decide) henough h).weaken ?_
    rintro v t ⟨hvalue, hreading, hfed, -⟩
    refine ends_pure.2 ⟨?_, hreading, hfed⟩
    apply BitVec.eq_of_toNat_eq
    rw [BitVec.toNat_setWidth, hvalue, mod_mod, mod_eq_of_lt octet.isLt]
  case isFalse hfew =>
    have hzero : st.bitcnt = 0 := by omega
    have hahead : octetBits (st.input ++ rest st.world) = lsb 8 octet.toNat ++ more := by
      rw [h.ahead, hzero]
      rfl
    have hne : st.input ++ rest st.world ≠ [] := by
      intro hnil
      rw [hnil] at hlength
      rw [length_nil] at hlength
      omega
    refine (nextByte_does hep h.good h.more hne).weaken ?_
    rintro value t ⟨hsplit, hgood, hopen, hbitbuf, hbitcnt, hfed⟩
    rw [hsplit, octetBits_cons] at hahead
    obtain ⟨hoctet, hrest⟩ := append_inj hahead (by rw [length_lsb, length_lsb])
    have hsame := lsb_inj.1 hoctet
    rw [mod_eq_of_lt octet.isLt, mod_eq_of_lt value.isLt] at hsame
    have hbits : t.bitcnt = 0 := hbitcnt.trans hzero
    refine ⟨BitVec.eq_of_toNat_eq hsame, ⟨?_, ?_, ?_, hopen, hgood⟩, hfed⟩
    · rw [hbits, ← hrest]
      rfl
    · rw [hbitbuf, hbitcnt]
      exact h.small
    · rw [hbitcnt]
      exact h.narrow

theorem Reading.bit {tail : List Bool}
    (h : Reading rest good st (Canonical.msb (n + 1) value ++ tail)) :
    Reading rest good st (lsb 1 (value.testBit n).toNat ++ (Canonical.msb n value ++ tail)) := by
  have hone : lsb 1 (value.testBit n).toNat = [value.testBit n] := by
    cases value.testBit n <;> rfl
  rw [hone]
  exact h

theorem decodeTurn_does (hep : Carries ep given rest good) {huff : Huff}
    {turns len first index k : ℕ} {goal : ℕ → Inflater ω → Prop}
    (h : Reading rest good st (Canonical.msb (k + 1) value ++ more))
    (next : ∀ t, Reading rest good t (Canonical.msb k value ++ more) → Fed given st t →
      Ends goal Never
        (if first ≤ value / 2 ^ k ∧ value / 2 ^ k - first < huff.count len then
          expect (huff.symbol.read (index + (value / 2 ^ k - first))) .undefined
        else decodeLoop ep huff turns (len + 1) (value / 2 ^ k * 2) ((first + huff.count len) * 2)
          (index + huff.count len)) t) :
    Ends goal Never
      (decodeLoop ep huff (turns + 1) len (value / 2 ^ (k + 1) * 2) first index) st := by
  have hlength : 1 ≤ (lsb 1 (value.testBit k).toNat ++ (Canonical.msb k value ++ more)).length := by
    rw [length_append, length_lsb]
    exact Nat.le_add_right _ _
  rw [decodeLoop]
  refine (needBitsLoop_does hep (by decide) (by omega) h.bit hlength).bind ?_
  rintro _ t ⟨henough, hreading, hfed⟩
  refine (takeBits_does given (by decide) henough hreading).bind ?_
  rintro bit u ⟨hvalue, hreading', hfed', -⟩
  have hbit : (value.testBit k).toNat < 2 := Bool.toNat_lt _
  have hcode : value / 2 ^ (k + 1) * 2 ||| bit.toNat = value / 2 ^ k := by
    rw [hvalue, pow_one, mod_eq_of_lt hbit, Canonical.div_two_pow_succ value k, Nat.mul_comm]
    exact (two_pow_add_eq_or_of_lt (i := 1) (by omega) _).symm
  dsimp only
  rw [hcode]
  exact next u hreading' (hfed.trans hfed')

theorem decodeLoop_does (hep : Carries ep given rest good) {huff : Huff} {lengths : List ℕ}
    (hcodes : huff.Codes lengths) {s : ℕ} (hs : s < lengths.length) {turns done extra : ℕ}
    (hturns : lengths.getD s 0 = done + (turns + 1))
    (h : Reading rest good st (Canonical.msb (turns + 1) (Canonical.code lengths s) ++ more)) :
    Ends (fun v t ↦ v = s ∧ Reading rest good t more ∧ Fed given st t) Never
      (decodeLoop ep huff (turns + 1 + extra) (done + 1)
        (Canonical.code lengths s / 2 ^ (turns + 1) * 2)
        (Canonical.first lengths (done + 1)) (Canonical.start lengths (done + 1))) st := by
  induction turns generalizing st done with
  | zero =>
    have hlen : lengths.getD s 0 = done + 1 := hturns
    have hrank := Canonical.rank_lt hs (by omega)
    rw [hlen] at hrank
    have hcode : Canonical.code lengths s / 2 ^ 0 - Canonical.first lengths (done + 1) =
        Canonical.rank lengths s := by
      rw [pow_zero, Nat.div_one, Canonical.code, hlen, Nat.add_sub_cancel_left]
    have hfirst : Canonical.first lengths (done + 1) ≤ Canonical.code lengths s / 2 ^ 0 := by
      rw [pow_zero, Nat.div_one, Canonical.code, hlen]
      exact Nat.le_add_right _ _
    have hsymbol := hcodes.symbol s hs (by omega)
    rw [hlen] at hsymbol
    rw [Nat.zero_add, Nat.add_comm 1]
    refine decodeTurn_does hep h ?_
    intro t hreading hfed
    rw [hcodes.count (done + 1) (succ_pos _), hcode, if_pos ⟨hfirst, hrank⟩, hsymbol,
      ends_expect]
    refine ⟨?_, fun hnone ↦ by cases hnone⟩
    rintro v hv
    exact ⟨(Option.some.inj hv).symm, hreading, hfed⟩
  | succ turns ih =>
    have hlonger : done + 1 < lengths.getD s 0 := by omega
    have hpast := Canonical.le_code_div hlonger
    have hexp : lengths.getD s 0 - (done + 1) = turns + 1 := by omega
    rw [hexp] at hpast
    rw [Nat.add_right_comm]
    refine decodeTurn_does hep h ?_
    intro t hreading hfed
    rw [hcodes.count (done + 1) (succ_pos _), if_neg (by omega), ← Canonical.start_succ]
    refine (ih (by omega) hreading).weaken ?_
    rintro v u ⟨hv, hreading', hfed'⟩
    exact ⟨hv, hreading', hfed.trans hfed'⟩

theorem huffDecode_does (hep : Carries ep given rest good) {huff : Huff} {lengths : List ℕ}
    (hcodes : huff.Codes lengths) (hfits : Canonical.Fits lengths maxBits) {s : ℕ}
    (hlen : lengths.getD s 0 ≠ 0) (hmax : lengths.getD s 0 ≤ maxBits)
    (h : Reading rest good st (Canonical.word lengths s ++ more)) :
    Ends (fun v t ↦ v = s ∧ Reading rest good t more ∧ Fed given st t) Never
      (huffDecode ep huff) st := by
  have hs : s < lengths.length := by
    by_contra hge
    exact hlen (by simp [List.getD, Nat.le_of_not_lt hge])
  have hcoded : huff.coded ≠ 0 := by
    have hrank := Canonical.rank_lt hs hlen
    have hmono := @Canonical.start_mono lengths (lengths.getD s 0 + 1) (maxBits + 1) (by omega)
    rw [Canonical.start_succ] at hmono
    rw [hcodes.coded]
    omega
  have hcode := Canonical.code_lt hfits hs hlen hmax
  obtain ⟨turns, hturns⟩ := exists_eq_succ_of_ne_zero hlen
  obtain ⟨extra, hextra⟩ := Nat.exists_eq_add_of_le hmax
  have hzero : Canonical.code lengths s / 2 ^ (turns + 1) * 2 = 0 := by
    rw [← succ_eq_add_one, ← hturns, div_eq_of_lt hcode]
  have hfirst : Canonical.first lengths 1 = 0 := by
    simp [Canonical.first, Canonical.number]
  have hstart : Canonical.start lengths 1 = 0 := by
    rw [Canonical.start_succ, Canonical.start_zero]
    rfl
  unfold huffDecode
  rw [if_neg hcoded, hextra, hturns]
  unfold Canonical.word at h
  rw [hturns] at h
  have hloop := @decodeLoop_does _ _ _ _ _ _ _ hep huff lengths hcodes s hs turns 0 extra
    (by rw [hturns, Nat.zero_add]) h
  rwa [Nat.zero_add, hzero, hfirst, hstart] at hloop

end S5LBox.Firmware
