import S5LBox.Firmware.InflateItems

/-!
# Stored blocks

The octets of a stored block come out of the bit buffer as long as it holds whole ones, and then
straight out of the input buffer.
-/

namespace S5LBox.Firmware

open List Attempt Bits

variable {ω : Type} {ep : Endpoints ω} {given rest : ω → List Octet} {good : ω → Prop} {limit : ℕ}
  {st t u : Inflater ω} {more : List Bool} {output data : List Octet}

theorem storedBits_does (hep : Carries ep given rest good)
    (h : Decoding given rest good limit st (octetBits data ++ more) output)
    (hwhole : more.length % 8 = 0) (hroom : output.length + data.length ≤ limit) :
    Ends (fun remaining t ↦ ∃ front back, data = front ++ back ∧ remaining = back.length ∧
        Decoding given rest good limit t (octetBits back ++ more) (output ++ front) ∧
        (back = [] ∨ t.bitcnt = 0)) Never (storedBits ep data.length) st := by
  induction data generalizing st output with
  | nil =>
    rw [← append_nil output] at h
    exact ends_pure.2 ⟨[], [], rfl, rfl, h, .inl rfl⟩
  | cons octet tail ih =>
    have hlength := h.reading.length
    rw [length_append, length_octetBits] at hlength
    rw [length_cons, storedBits, ends_bind, ends_get]
    split
    case isTrue henough =>
      have hreading := h.reading
      rw [octetBits_cons, append_assoc] at hreading
      rw [ends_bind]
      refine (takeBits_does given (by decide) henough hreading).weaken ?_
      rintro v t ⟨hvalue, hreading', hfed, -⟩
      have hsame : v.setWidth 8 = octet := by
        apply BitVec.eq_of_toNat_eq
        rw [BitVec.toNat_setWidth, hvalue, Nat.mod_mod, Nat.mod_eq_of_lt octet.isLt]
      rw [length_cons] at hroom
      rw [hsame]
      refine ((h.fed hreading' hfed).emitByte hep octet (by omega)).bind ?_
      rintro _ u ⟨hdecoding, -⟩
      have hroom' : (output ++ [octet]).length + tail.length ≤ limit := by
        rw [length_append, length_singleton]
        omega
      refine (ih hdecoding hroom').weaken ?_
      rintro remaining w ⟨front, back, rfl, hremaining, hlast, hempty⟩
      rw [append_assoc] at hlast
      exact ⟨octet :: front, back, rfl, hremaining, hlast, hempty⟩
    case isFalse hfew =>
      rw [← append_nil output] at h
      exact ends_pure.2 ⟨[], octet :: tail, rfl, rfl, h, .inr (by omega)⟩

theorem Decoding.input_eq (h : Decoding given rest good limit st (octetBits data ++ more) output)
    (hempty : st.bitcnt = 0) : octetBits (st.input ++ rest st.world) = octetBits data ++ more := by
  rw [h.reading.ahead, hempty]
  rfl

theorem Decoding.front (h : Decoding given rest good limit st (octetBits data ++ more) output)
    (hempty : st.bitcnt = 0) {n : ℕ} (hn : n ≤ data.length) (hn' : n ≤ st.input.length) :
    st.input.take n = data.take n ∧
      octetBits (st.input.drop n ++ rest st.world) = octetBits (data.drop n) ++ more := by
  have hinput := h.input_eq hempty
  have hsplit := take_append_drop n data
  have hsplit' := take_append_drop n st.input
  rw [← hsplit, ← hsplit', append_assoc, octetBits_append (st.input.take n),
    octetBits_append (data.take n), append_assoc] at hinput
  refine octetBits_append_inj ?_ hinput
  rw [length_take, length_take, Nat.min_eq_left hn, Nat.min_eq_left hn']

theorem Decoding.skip {bits : List Bool} (h : Decoding given rest good limit st bits output)
    (hempty : st.bitcnt = 0) {input : List Octet}
    (hmore : octetBits (input ++ rest st.world) = more) :
    Decoding given rest good limit { st with input := input } more output := by
  have hfed : Fed given st { st with input := input } := .of_world st rfl _ _ _ _
  refine h.fed ⟨?_, h.reading.small, h.reading.narrow, h.reading.more, h.reading.good⟩ hfed
  dsimp only
  rw [hempty, hmore]
  rfl

theorem storedBytes_does (hep : Carries ep given rest good) {turns : ℕ}
    (h : Decoding given rest good limit st (octetBits data ++ more) output)
    (hempty : data = [] ∨ st.bitcnt = 0) (hturns : data.length ≤ turns)
    (hroom : output.length + data.length ≤ limit) :
    Ends (fun _ t ↦ Decoding given rest good limit t more (output ++ data)) Never
      (storedBytes ep turns data.length) st := by
  induction turns generalizing st output data with
  | zero =>
    obtain rfl := eq_nil_of_length_eq_zero (Nat.le_zero.1 hturns)
    rw [storedBytes, ends_require, append_nil]
    exact ⟨fun _ ↦ h, fun hmore ↦ absurd rfl hmore⟩
  | succ turns ih =>
    rw [storedBytes]
    cases data with
    | nil =>
      rw [length_nil, if_pos rfl, append_nil]
      exact ends_pure.2 h
    | cons octet tail =>
      have hbitcnt := hempty.resolve_left (cons_ne_nil _ _)
      have hinput := h.input_eq hbitcnt
      rw [length_cons] at hroom hturns
      rw [if_neg (length_pos_iff.2 (cons_ne_nil octet tail)).ne', ends_bind, ends_get]
      split
      case isTrue hnone =>
        have hahead : st.input ++ rest st.world ≠ [] := by
          intro hnil
          rw [hnil] at hinput
          cases hinput
        refine (nextByte_does hep h.reading.good h.reading.more hahead).bind ?_
        rintro octet' t ⟨hsplit, hgood, hopen, hbitbuf, hsame, hfed⟩
        rw [hsplit, octetBits_cons, octetBits_cons, append_assoc] at hinput
        obtain ⟨hoctet, htail⟩ := append_inj hinput (by rw [length_lsb, length_lsb])
        have hvalue := lsb_inj.1 hoctet
        rw [Nat.mod_eq_of_lt octet.isLt, Nat.mod_eq_of_lt octet'.isLt] at hvalue
        obtain rfl := BitVec.eq_of_toNat_eq hvalue
        have hzero : t.bitcnt = 0 := hsame.trans hbitcnt
        have hreading : Reading rest good t (octetBits tail ++ more) := by
          refine ⟨?_, ?_, ?_, hopen, hgood⟩
          · rw [hzero, htail]
            rfl
          · rw [hbitbuf, hsame]
            exact h.reading.small
          · rw [hsame]
            exact h.reading.narrow
        refine ((h.fed hreading hfed).emitByte hep octet' (by omega)).bind ?_
        rintro _ u ⟨hdecoding, hframe⟩
        have hroom' : (output ++ [octet']).length + tail.length ≤ limit := by
          rw [length_append, length_singleton]
          omega
        have hlast := ih hdecoding (.inr (hframe.bitcnt.trans hzero)) (by omega) hroom'
        rwa [append_assoc] at hlast
      case isFalse hsome =>
        have hpos := length_pos_of_ne_nil hsome
        have hcount : (octet :: tail).length = tail.length + 1 := length_cons
        generalize octet :: tail = all at *
        obtain ⟨n, hn⟩ : ∃ n, n = min all.length st.input.length := ⟨_, rfl⟩
        obtain ⟨hfront, -⟩ := h.front hbitcnt (n := n) (by omega) (by omega)
        have htake : st.input.take all.length = all.take n := by
          rw [← hfront, hn]
          exact take_eq_take_iff.2 (by omega)
        have hlength : (all.take n).length = n := by
          rw [length_take]
          omega
        rw [htake]
        refine (h.emitRun hep (all.take n) (by omega)).bind ?_
        rintro _ t ⟨hdecoding, hframe⟩
        have hzero : t.bitcnt = 0 := hframe.bitcnt.trans hbitcnt
        obtain ⟨-, hback⟩ := hdecoding.front hzero (n := n) (by omega)
          (by rw [hframe.input]; omega)
        rw [ends_bind, ends_modify, hlength]
        have hroom' : (output ++ all.take n).length + (all.drop n).length ≤ limit := by
          rw [length_append, length_drop]
          omega
        have hturns' : (all.drop n).length ≤ turns := by
          rw [length_drop]
          omega
        have hlast := ih (hdecoding.skip hzero hback) (.inr hzero) hturns' hroom'
        rwa [append_assoc, take_append_drop, length_drop] at hlast

theorem complement_eq {len nlen : Word} {n : ℕ} (hn : n ≤ 65535) (hlen : len.toNat = n)
    (hnlen : nlen.toNat = 65535 - n) : len = ~~~nlen &&& 0xffff := by
  have hmask : (0xffff : Word).toNat = 2 ^ 16 - 1 := rfl
  apply BitVec.eq_of_toNat_eq
  rw [BitVec.toNat_and, hmask, Nat.and_two_pow_sub_one_eq_mod, BitVec.toNat_not, hlen, hnlen]
  omega

theorem storedBlock_does (hep : Carries ep given rest good) {padding : List Bool}
    (h : Decoding given rest good limit st (padding ++ (lsb 16 data.length ++
      (lsb 16 (65535 - data.length) ++ (octetBits data ++ more)))) output)
    (hpadding : padding.length < 8) (hdata : data.length ≤ 65535) (hwhole : more.length % 8 = 0)
    (hroom : output.length + data.length ≤ limit) :
    Ends (fun _ t ↦ Decoding given rest good limit t more (output ++ data)) Never
      (storedBlock ep) st := by
  have hmore : (lsb 16 data.length ++ (lsb 16 (65535 - data.length) ++
      (octetBits data ++ more))).length % 8 = 0 := by
    rw [length_append, length_append, length_append, length_lsb, length_lsb, length_octetBits]
    omega
  refine (@alignToByte_does _ given _ _ _ _ _ h.reading hpadding hmore).bind ?_
  rintro _ a ⟨hreading, hfed⟩
  refine ((h.fed hreading hfed).getBits hep le_rfl (by omega)).bind ?_
  rintro len b ⟨hlen, hb, -⟩
  refine (hb.getBits hep le_rfl (by omega)).bind ?_
  rintro nlen c ⟨hnlen, hc, -⟩
  rw [ends_bind, ends_require]
  refine ⟨fun _ ↦ ?_, fun hno ↦ absurd (complement_eq hdata hlen hnlen) hno⟩
  rw [hlen]
  refine (storedBits_does hep hc hwhole hroom).bind ?_
  rintro remaining d ⟨front, back, rfl, rfl, hd, hempty⟩
  rw [length_append] at hroom
  have hroom' : (output ++ front).length + back.length ≤ limit := by
    rw [length_append]
    omega
  have hlast := storedBytes_does hep hd hempty le_rfl hroom'
  rwa [append_assoc] at hlast

end S5LBox.Firmware
