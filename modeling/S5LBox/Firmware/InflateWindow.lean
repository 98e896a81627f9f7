import S5LBox.Firmware.Adler

/-!
# The window

The window holds the last octets of the output, each at its own index, and the sink has got all
but those that are still staged. So a copy from no further back than the output goes reads what
this stream produced.
-/

namespace S5LBox.Firmware

open Attempt Nat

variable {ω : Type} {ep : Endpoints ω} {given : ω → List Octet} {good : ω → Prop} {limit : ℕ}

/-- What the sink was given is recorded in its state; a call keeps `good`. -/
def Records (ep : Endpoints ω) (given : ω → List Octet) (good : ω → Prop) : Prop :=
  ∀ w data, good w → good (ep.sink w data).1 ∧ given (ep.sink w data).1 = given w ++ data

/-- The sink takes everything. -/
def Accepting (ep : Endpoints ω) (good : ω → Prop) : Prop :=
  ∀ w data, good w → (ep.sink w data).2 = true

/-- The output is counted and within the limit. -/
structure Counted (limit : ℕ) (st : Inflater ω) : Prop where
  length : st.output.length = st.produced
  bound : st.limit = limit
  limited : st.produced ≤ limit

/-- The window is the last part of the output, of which the first `wpos` cells are staged. -/
structure Staged (given : ω → List Octet) (limit : ℕ) (st : Inflater ω) : Prop extends
    Counted limit st where
  position : ∃ turns, st.produced = turns * windowSize + st.wpos
  room : st.wpos ≤ windowSize
  sunk : given st.world = st.output.take (st.produced - st.wpos)
  window : ∀ i < st.output.length, st.produced ≤ i + windowSize →
    st.window.read (i % windowSize) = st.output[i]?
  summed : Summed st.adlerA st.adlerB (given st.world)

/-- There is room in the window. -/
structure Sound (given : ω → List Octet) (limit : ℕ) (st : Inflater ω) : Prop extends
    Staged given limit st where
  free : st.wpos < windowSize

theorem Sound.tables {given : ω → List Octet} {limit : ℕ} {st : Inflater ω} (h : Sound given limit st)
    (lengths : Buffer ℕ (maxLit + maxDist)) (lencode distcode clcode : Huff) :
    Sound given limit { st with lengths, lencode, distcode, clcode } :=
  ⟨⟨⟨h.length, h.bound, h.limited⟩, h.position, h.room, h.sunk, h.window, h.summed⟩, h.free⟩

/-- How a decoder may stop: with a status, and with part of the output given to the sink. -/
structure Refused (given : ω → List Octet) (limit : ℕ) (e : Stop) (st : Inflater ω) : Prop extends
    Counted limit st where
  status : ∃ status, e = .error status
  sunk : given st.world <+: st.output

/-- What emitting leaves as it is. -/
structure Frame (st t : Inflater ω) : Prop where
  bitbuf : t.bitbuf = st.bitbuf
  bitcnt : t.bitcnt = st.bitcnt
  input : t.input = st.input
  inEof : t.inEof = st.inEof
  lengths : t.lengths = st.lengths
  lencode : t.lencode = st.lencode
  distcode : t.distcode = st.distcode
  clcode : t.clcode = st.clcode

variable {st t u : Inflater ω}

namespace Frame

theorem refl (st : Inflater ω) : Frame st st := ⟨rfl, rfl, rfl, rfl, rfl, rfl, rfl, rfl⟩

theorem trans (h : Frame st t) (h' : Frame t u) : Frame st u :=
  ⟨h'.bitbuf.trans h.bitbuf, h'.bitcnt.trans h.bitcnt, h'.input.trans h.input,
    h'.inEof.trans h.inEof, h'.lengths.trans h.lengths, h'.lencode.trans h.lencode,
    h'.distcode.trans h.distcode, h'.clcode.trans h.clcode⟩

end Frame

theorem frame_emitted (st : Inflater ω) (window : Buffer Octet windowSize) (data : List Octet) :
    Frame st (st.emitted window data) := ⟨rfl, rfl, rfl, rfl, rfl, rfl, rfl, rfl⟩

theorem Staged.refused (h : Staged given limit st) (status : InflateError) :
    Refused given limit (.error status) st := by
  refine ⟨h.toCounted, ⟨status, rfl⟩, ?_⟩
  rw [h.sunk]
  exact List.take_prefix _ _

theorem Staged.slice (h : Staged given limit st) :
    st.window.slice 0 st.wpos = some (st.output.drop (st.produced - st.wpos)) := by
  obtain ⟨turns, hturns⟩ := h.position
  have hlength := h.length
  have hcount : st.wpos = (st.output.drop (st.produced - st.wpos)).length := by
    rw [List.length_drop]
    omega
  have hholds : st.window.Holds 0 (st.output.drop (st.produced - st.wpos)) := by
    intro k hk
    rw [← hcount] at hk
    have hroom := h.room
    have hread := h.window (st.produced - st.wpos + k) (by omega) (by omega)
    have hindex : (st.produced - st.wpos + k) % windowSize = k := by
      have hstart : st.produced - st.wpos = turns * windowSize := by omega
      rw [hstart, mul_add_mod_self_right]
      exact mod_eq_of_lt (by omega)
    rw [hindex] at hread
    rw [zero_add, hread, List.getElem_drop]
    exact List.getElem?_eq_getElem _
  have hslice := Buffer.slice_of_holds hholds
  rwa [← hcount] at hslice

/-- Everything emitted was given to the sink. -/
structure Flushed (given : ω → List Octet) (limit : ℕ) (st : Inflater ω) : Prop extends
    Counted limit st where
  sunk : given st.world = st.output
  summed : Summed st.adlerA st.adlerB st.output

theorem Flushed.refused (h : Flushed given limit st) (status : InflateError) :
    Refused given limit (.error status) st :=
  ⟨h.toCounted, ⟨status, rfl⟩, h.sunk ▸ List.prefix_rfl⟩

theorem windowFlush_ends (hsink : Records ep given good) (h : Staged given limit st)
    (hgood : good st.world) :
    Ends (fun _ t ↦ Flushed given limit t ∧ good t.world ∧ Frame st t ∧ t.output = st.output ∧
        t.wpos = 0 ∧ t.window = st.window)
      (fun e t ↦ Refused given limit e t ∧ ¬Accepting ep good) (windowFlush ep) st := by
  have hlength := h.length
  obtain ⟨turns, hturns⟩ := h.position
  unfold Ends windowFlush
  by_cases hzero : st.wpos = 0
  · rw [if_pos hzero]
    have hall : given st.world = st.output := by
      rw [h.sunk, hzero, List.take_of_length_le (by omega)]
    exact ⟨⟨h.toCounted, hall, hall ▸ h.summed⟩, hgood, .refl st, rfl, hzero, rfl⟩
  · rw [if_neg hzero, h.slice]
    dsimp only
    have hcall := hsink st.world (st.output.drop (st.produced - st.wpos)) hgood
    rw [h.sunk, List.take_append_drop] at hcall
    split
    case h_1 heq =>
      split at heq
      · cases (Prod.mk.inj heq).1
      case h_2 world hsunk =>
        obtain ⟨-, rfl⟩ := Prod.mk.inj heq
        rw [hsunk] at hcall
        have hsummed := h.summed.append (st.output.drop (st.produced - st.wpos))
        rw [h.sunk, List.take_append_drop] at hsummed
        exact ⟨⟨⟨h.length, h.bound, h.limited⟩, hcall.2, hsummed⟩, hcall.1,
          ⟨rfl, rfl, rfl, rfl, rfl, rfl, rfl, rfl⟩, rfl, rfl, rfl⟩
    case h_2 heq =>
      split at heq
      case h_1 world hsunk =>
        obtain ⟨he, rfl⟩ := Prod.mk.inj heq
        obtain rfl := Except.error.inj he
        rw [hsunk] at hcall
        refine ⟨⟨⟨h.length, h.bound, h.limited⟩, ⟨_, rfl⟩, ?_⟩, ?_⟩
        · change given world <+: st.output
          rw [hcall.2]
        · intro haccepting
          have htrue := haccepting st.world (st.output.drop (st.produced - st.wpos)) hgood
          rw [hsunk] at htrue
          cases htrue
      · cases (Prod.mk.inj heq).1

theorem flushWhenFull_ends (hsink : Records ep given good) (h : Staged given limit st)
    (hgood : good st.world) :
    Ends (fun _ t ↦ Sound given limit t ∧ good t.world ∧ Frame st t ∧ t.output = st.output)
      (fun e t ↦ Refused given limit e t ∧ ¬Accepting ep good) (flushWhenFull ep) st := by
  unfold flushWhenFull
  rw [ends_bind, ends_get]
  split
  case isTrue hfull =>
    refine (windowFlush_ends hsink h hgood).weaken ?_
    rintro _ t ⟨hflushed, hgood, hframe, houtput, hwpos, hwindow⟩
    obtain ⟨turns, hturns⟩ := h.position
    have hproduced : t.produced = st.produced := by
      rw [← hflushed.length, houtput, h.length]
    refine ⟨⟨⟨hflushed.toCounted, ⟨turns + 1, ?_⟩, ?_, ?_, ?_, ?_⟩, ?_⟩, hgood, hframe, houtput⟩
    · rw [hproduced, hturns, hfull, hwpos]
      ring
    · rw [hwpos]
      exact Nat.zero_le _
    · rw [hflushed.sunk, hwpos, List.take_of_length_le (by rw [hflushed.length]; omega)]
    · rw [hwindow, hproduced]
      intro i hi hnear
      have hread := h.window i (by rwa [houtput] at hi) hnear
      rw [hread, houtput]
    · rw [hflushed.sunk]
      exact hflushed.summed
    · rw [hwpos]
      decide
  case isFalse hroom =>
    exact ends_pure.2 ⟨⟨h, lt_of_le_of_ne h.room hroom⟩, hgood, .refl st, rfl⟩

theorem Sound.emitted (h : Sound given limit st) {window : Buffer Octet windowSize}
    {data : List Octet} (hlimit : st.produced + data.length ≤ limit)
    (hroom : st.wpos + data.length ≤ windowSize) (hwritten : window.Holds st.wpos data)
    (hframe : ∀ index, index < st.wpos ∨ st.wpos + data.length ≤ index →
      window.read index = st.window.read index) :
    Staged given limit (st.emitted window data) := by
  obtain ⟨turns, hturns⟩ := h.position
  have hlength := h.length
  refine ⟨⟨?_, h.bound, hlimit⟩, ⟨turns, ?_⟩, hroom, ?_, ?_, h.summed⟩
  · change (st.output ++ data).length = st.produced + data.length
    rw [List.length_append, hlength]
  · change st.produced + data.length = turns * windowSize + (st.wpos + data.length)
    omega
  · change given st.world = (st.output ++ data).take (st.produced + data.length - (st.wpos + data.length))
    rw [h.sunk, Nat.add_sub_add_right, List.take_append_of_le_length (by omega)]
  · intro i hi hnear
    change i < (st.output ++ data).length at hi
    change st.produced + data.length ≤ i + windowSize at hnear
    change window.read (i % windowSize) = (st.output ++ data)[i]?
    rw [List.length_append] at hi
    by_cases hnew : st.output.length ≤ i
    · have hindex : i % windowSize = st.wpos + (i - st.output.length) := by
        have hsplit : i = turns * windowSize + (st.wpos + (i - st.output.length)) := by omega
        have hlt : st.wpos + (i - st.output.length) < windowSize := by omega
        generalize st.wpos + (i - st.output.length) = place at *
        rw [hsplit, mul_add_mod_self_right, mod_eq_of_lt hlt]
      rw [hindex, hwritten _ (by omega), List.getElem?_append_right hnew]
      exact (List.getElem?_eq_getElem _).symm
    · have hold : i < st.output.length := Nat.lt_of_not_le hnew
      have hpos : 0 < windowSize := by decide
      have hdiv := div_add_mod i windowSize
      -- An index that this write covers belongs to an octet a whole window back.
      have hout : i % windowSize < st.wpos ∨ st.wpos + data.length ≤ i % windowSize := by
        by_contra hin
        have hquot : i / windowSize < turns ∨ turns ≤ i / windowSize := Nat.lt_or_ge _ _
        rcases hquot with hless | hmore
        · have hle : windowSize * (i / windowSize + 1) ≤ windowSize * turns :=
            Nat.mul_le_mul_left _ hless
          rw [Nat.mul_comm windowSize turns, mul_succ] at hle
          omega
        · have hle : windowSize * turns ≤ windowSize * (i / windowSize) :=
            Nat.mul_le_mul_left _ hmore
          rw [Nat.mul_comm windowSize turns] at hle
          omega
      rw [hframe _ hout, h.window i hold (by omega), List.getElem?_append_left hold]

/-- How emitting fails: an accepting sink and a limit that is not below `size` rule it out. -/
def Overrun (ep : Endpoints ω) (given : ω → List Octet) (good : ω → Prop) (limit size : ℕ) (e : Stop)
    (t : Inflater ω) : Prop :=
  Refused given limit e t ∧ (Accepting ep good → limit < size)

theorem emitByte_ends (hsink : Records ep given good) (h : Sound given limit st)
    (hgood : good st.world) (octet : Octet) :
    Ends (fun _ t ↦ Sound given limit t ∧ good t.world ∧ Frame st t ∧
        t.output = st.output ++ [octet])
      (Overrun ep given good limit (st.output.length + 1)) (emitByte ep octet) st := by
  unfold emitByte
  have hlength := h.length
  rw [ends_bind, ends_get, ends_bind, ends_require, h.bound]
  refine ⟨?_, fun hfull ↦ ⟨h.refused _, fun _ ↦ by omega⟩⟩
  intro hlimit
  rw [ends_bind, ends_expect]
  obtain ⟨written, hwrite⟩ := @Buffer.exists_write _ _ st.window _ octet h.free
  refine ⟨?_, fun hnone ↦ by rw [hwrite] at hnone; cases hnone⟩
  rintro window hwindow
  rw [ends_bind, ends_modify]
  have hstaged : Staged given limit (st.emitted window [octet]) := by
    refine h.emitted hlimit h.free ?_ ?_
    · exact Buffer.holds_cons.2 ⟨Buffer.read_write_same hwindow, Buffer.holds_nil⟩
    · intro index hindex
      rw [List.length_singleton] at hindex
      exact Buffer.read_write_ne hwindow (by omega)
  refine (flushWhenFull_ends hsink hstaged hgood).mono ?_ ?_
  · rintro _ t ⟨hsound, hgood, hframe, houtput⟩
    exact ⟨hsound, hgood, (frame_emitted st window [octet]).trans hframe, houtput⟩
  · exact fun _ _ hfail ↦ ⟨hfail.1, fun haccepting ↦ absurd haccepting hfail.2⟩

theorem emitRun_ends (hsink : Records ep given good) {turns : ℕ} {data : List Octet}
    (h : Sound given limit st) (hgood : good st.world) (hturns : data.length ≤ turns) :
    Ends (fun _ t ↦ Sound given limit t ∧ good t.world ∧ Frame st t ∧ t.output = st.output ++ data)
      (Overrun ep given good limit (st.output.length + data.length)) (emitRun ep turns data) st := by
  induction turns generalizing st data with
  | zero =>
    obtain rfl := List.eq_nil_of_length_eq_zero (Nat.le_zero.1 hturns)
    rw [emitRun, ends_require]
    exact ⟨fun _ ↦ ⟨h, hgood, .refl st, (List.append_nil _).symm⟩, fun hmore ↦ absurd rfl hmore⟩
  | succ turns ih =>
    rw [emitRun]
    split
    case isTrue hnil =>
      subst hnil
      exact ends_pure.2 ⟨h, hgood, .refl st, (List.append_nil _).symm⟩
    case isFalse hmore =>
      have hpos := List.length_pos_of_ne_nil hmore
      have hcount := h.length
      have hbound := h.bound
      rw [ends_bind, ends_get, ends_bind, ends_require]
      refine ⟨?_, fun hfull ↦ ⟨h.refused _, fun _ ↦ by omega⟩⟩
      · intro hlimit
        have hfree := h.free
        rw [ends_bind, ends_expect]
        generalize hchunk : min (min (windowSize - st.wpos) data.length) (st.limit - st.produced) =
          chunk
        have hlength : (data.take chunk).length = chunk := by
          rw [List.length_take]
          omega
        obtain ⟨written, hwrite, hholds, hsame⟩ :=
          @Buffer.exists_writeAll _ _ st.window st.wpos (data.take chunk) (by omega)
        rw [hwrite]
        refine ⟨?_, fun hnone ↦ by cases hnone⟩
        rintro window hwindow
        obtain rfl := Option.some.inj hwindow
        rw [ends_bind, ends_modify, ends_bind]
        have hstaged : Staged given limit (st.emitted written (data.take chunk)) :=
          h.emitted (by omega) (by omega) hholds hsame
        refine (flushWhenFull_ends hsink hstaged hgood).mono ?_ ?_
        · rintro _ t ⟨hsound, hgood, hframe, houtput⟩
          have hsplit : t.output ++ data.drop chunk = st.output ++ data := by
            rw [houtput]
            change st.output ++ data.take chunk ++ data.drop chunk = _
            rw [List.append_assoc, List.take_append_drop]
          refine (ih hsound hgood (by rw [List.length_drop]; omega)).mono ?_ ?_
          · rintro _ u ⟨hsound, hgood, hframe', houtput'⟩
            refine ⟨hsound, hgood, (frame_emitted st written _).trans (hframe.trans hframe'), ?_⟩
            rw [houtput', hsplit]
          · rintro e u ⟨hrefused, hover⟩
            rw [← List.length_append, hsplit, List.length_append] at hover
            exact ⟨hrefused, hover⟩
        · exact fun _ _ hfail ↦ ⟨hfail.1, fun haccepting ↦ absurd haccepting hfail.2⟩

/-- The output after a copy of `length` octets from `distance` back: each octet is appended before
the next one is read. -/
def copied (output : List Octet) (distance : ℕ) : ℕ → List Octet
  | 0 => output
  | length + 1 => copied (output ++ [octetAt output (output.length - distance)]) distance length

theorem matchStart_eq {wpos distance : ℕ} (hwpos : wpos < windowSize)
    (hdistance : distance ≤ windowSize) :
    matchStart wpos distance = (wpos + windowSize - distance) % windowSize := by
  have hmask : (0x7fff : BitVec 32) = BitVec.ofNat 32 (2 ^ 15 - 1) := rfl
  unfold matchStart windowSize at *
  rw [hmask, BitVec.toNat_and, BitVec.toNat_sub, BitVec.toNat_ofNat, BitVec.toNat_ofNat,
    BitVec.toNat_ofNat, mod_eq_of_lt (by omega : 2 ^ 15 - 1 < 2 ^ 32), and_two_pow_sub_one_eq_mod]
  omega

theorem copyLoop_ends (hsink : Records ep given good) {length start distance : ℕ}
    (h : Sound given limit st) (hgood : good st.world) (hpos : 0 < distance)
    (hdistance : distance ≤ windowSize) (hback : distance ≤ st.produced)
    (hstart : start = (st.produced - distance) % windowSize) :
    Ends (fun _ t ↦ Sound given limit t ∧ good t.world ∧ Frame st t ∧
        t.output = copied st.output distance length)
      (Overrun ep given good limit (st.output.length + length)) (copyLoop ep length start) st := by
  induction length generalizing st start with
  | zero => exact ends_pure.2 ⟨h, hgood, .refl st, rfl⟩
  | succ length ih =>
    have hlength := h.length
    have hread := h.window (st.produced - distance) (by omega) (by omega)
    rw [copyLoop, ends_bind, ends_get, ends_bind, ends_expect, hstart, hread]
    refine ⟨?_, fun hnone ↦ absurd (List.getElem?_eq_none_iff.1 hnone) (by omega)⟩
    intro octet hoctet
    rw [ends_bind]
    refine (emitByte_ends hsink h hgood _).mono ?_ ?_
    case refine_2 =>
      rintro e t ⟨hrefused, hover⟩
      exact ⟨hrefused, fun haccepting ↦ (hover haccepting).trans_le (by omega)⟩
    rintro _ t ⟨hsound, hgood, hframe, houtput⟩
    have hproduced : t.produced = st.produced + 1 := by
      rw [← hsound.length, houtput, List.length_append, hlength, List.length_singleton]
    have hlonger := hsound.length
    refine (ih hsound hgood (by omega) ?_).mono ?_ ?_
    · rw [hproduced, mod_add_mod]
      congr 1
      omega
    · rintro _ u ⟨hsound, hgood, hframe', houtput'⟩
      refine ⟨hsound, hgood, hframe.trans hframe', ?_⟩
      have hsame : octetAt st.output (st.output.length - distance) = octet := by
        unfold octetAt List.getD
        rw [hlength, hoctet]
        rfl
      rw [houtput', houtput, copied, hsame]
    · rintro e u ⟨hrefused, hover⟩
      exact ⟨hrefused, fun haccepting ↦ (hover haccepting).trans_le (by omega)⟩

/-- A copy reads nothing but what this stream produced: the octet `distance` back, each time. -/
theorem emitMatch_ends (hsink : Records ep given good) {length distance : ℕ}
    (h : Sound given limit st) (hgood : good st.world) (hpos : 0 < distance)
    (hdistance : distance ≤ windowSize) :
    Ends (fun _ t ↦ Sound given limit t ∧ good t.world ∧ Frame st t ∧
        distance ≤ st.output.length ∧ t.output = copied st.output distance length)
      (fun e t ↦ Refused given limit e t ∧
        (distance ≤ st.output.length → Accepting ep good → limit < st.output.length + length))
      (emitMatch ep length distance) st := by
  unfold emitMatch
  have hlength := h.length
  rw [ends_bind, ends_get, ends_bind, ends_require]
  refine ⟨?_, fun hshort ↦ ⟨h.refused _, fun hback ↦ absurd (hlength ▸ hback) hshort⟩⟩
  · intro hback
    have hfree := h.free
    obtain ⟨turns, hturns⟩ := h.position
    refine (copyLoop_ends hsink h hgood hpos hdistance hback ?_).mono ?_ fun _ _ hfail ↦
      ⟨hfail.1, fun _ ↦ hfail.2⟩
    · rw [matchStart_eq hfree hdistance, hturns]
      rcases le_or_gt distance st.wpos with hle | hgt
      · rw [Nat.add_sub_assoc hle, mul_add_mod_self_right, Nat.add_comm st.wpos,
          Nat.add_sub_assoc hle, add_mod_left]
      · obtain ⟨turns, rfl⟩ : ∃ n, turns = n + 1 := by
          refine exists_eq_succ_of_ne_zero ?_
          rintro rfl
          omega
        have hsplit : (turns + 1) * windowSize + st.wpos - distance =
            turns * windowSize + (st.wpos + windowSize - distance) := by
          rw [succ_mul]
          omega
        rw [hsplit, mul_add_mod_self_right]
    · rintro _ t ⟨hsound, hgood, hframe, houtput⟩
      exact ⟨hsound, hgood, hframe, h.length ▸ hback, houtput⟩

end S5LBox.Firmware
