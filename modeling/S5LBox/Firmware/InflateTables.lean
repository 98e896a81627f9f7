import S5LBox.Firmware.InflateItems

/-!
# The codes of a block

How the decoder comes by its codes: from the fixed lengths, or from the header of a dynamic block,
whose lengths are themselves coded and in part repeats of one another.
-/

namespace S5LBox.Firmware

open List Attempt Bits Canonical

variable {ω : Type} {ep : Endpoints ω} {given rest : ω → List Octet} {good : ω → Prop} {limit : ℕ}
  {st t u : Inflater ω} {bits more : List Bool} {output : List Octet}

variable {lengths : List ℕ} {allowIncomplete : Bool}

theorem CompleteCode.buildable (h : CompleteCode lengths) (allowIncomplete : Bool) :
    Buildable lengths allowIncomplete := by
  obtain ⟨hrange, hfits, hfull⟩ := h
  refine ⟨hrange, hfits, .inl ?_⟩
  unfold unclaimed
  rw [hfull, Nat.sub_self]

/-- A code that has no more than one word, of one bit. -/
theorem fits_of_single (hshort : ∀ l ∈ lengths, l ≤ 1) (hsingle : lengths.count 1 ≤ 1) (len : ℕ) :
    first lengths len + number lengths len ≤ 2 ^ len := by
  induction len with
  | zero => simp [first, number]
  | succ len ih =>
    rw [first, pow_succ]
    cases len with
    | zero =>
      have hone : number lengths (0 + 1) = lengths.count 1 := rfl
      have hzero : first lengths 0 + number lengths 0 = 0 := rfl
      omega
    | succ len =>
      have hnone : number lengths (len + 1 + 1) = 0 := by
        unfold number
        rw [if_neg (Nat.succ_ne_zero _), count_eq_zero]
        intro hmem
        have hle := hshort _ hmem
        omega
      omega

theorem DistanceCode.buildable (h : DistanceCode lengths) : Buildable lengths true := by
  rcases h with hcomplete | ⟨hshort, hsingle⟩
  · exact hcomplete.buildable true
  · refine ⟨?_, fun len _ ↦ fits_of_single hshort hsingle len, .inr ⟨rfl, hshort⟩⟩
    intro l hl
    exact (hshort l hl).trans (by decide)

section

variable (h : Decoding given rest good limit st bits output)

include h

theorem Decoding.tables (lengths : Buffer ℕ (maxLit + maxDist)) (lencode distcode clcode : Huff) :
    Decoding given rest good limit { st with lengths, lencode, distcode, clcode } bits output :=
  ⟨⟨h.reading.ahead, h.reading.small, h.reading.narrow, h.reading.more, h.reading.good⟩,
    h.sound.tables lengths lencode distcode clcode, h.output⟩

theorem Decoding.setLengths (start : ℕ) (lengths : List ℕ)
    (hroom : start + lengths.length ≤ maxLit + maxDist) :
    Ends (fun _ t ↦ Decoding given rest good limit t bits output ∧ t.lengths.Holds start lengths ∧
        (∀ index, index < start ∨ start + lengths.length ≤ index →
          t.lengths.read index = st.lengths.read index) ∧
        t.lencode = st.lencode ∧ t.clcode = st.clcode) Never (setLengths start lengths) st := by
  obtain ⟨table, hwrite, hholds, hframe⟩ := @Buffer.exists_writeAll _ _ st.lengths start lengths hroom
  unfold Firmware.setLengths
  rw [ends_bind, ends_get, ends_bind, ends_expect, hwrite]
  refine ⟨?_, fun hnone ↦ by cases hnone⟩
  intro table' htable
  obtain rfl := Option.some.inj htable
  exact ends_modify.2 ⟨h.tables table _ _ _, hholds, hframe, rfl, rfl⟩

omit h in
theorem buildCode_does (old : Inflater ω → Huff) {start n : ℕ}
    (hlengths : st.lengths.Holds start lengths) (hn : lengths.length = n) (hmax : n ≤ maxLit)
    (hbuild : Buildable lengths allowIncomplete) :
    Ends (fun h t ↦ h.Codes lengths ∧ t = st) Never (buildCode old start n allowIncomplete) st := by
  obtain ⟨huff, hbuilt, hcodes⟩ :=
    @exists_huffBuild lengths (old st).symbol allowIncomplete (hn.trans_le hmax) hbuild
  have hslice := Buffer.slice_of_holds hlengths
  rw [hn] at hslice
  unfold buildCode
  rw [ends_bind, ends_get, ends_bind, ends_expect, hslice]
  refine ⟨?_, fun hnone ↦ by cases hnone⟩
  intro data hdata
  obtain rfl := Option.some.inj hdata
  rw [hbuilt]
  exact ends_pure.2 ⟨hcodes, rfl⟩

theorem Decoding.buildLencode {n : ℕ} (hlengths : st.lengths.Holds 0 lengths)
    (hn : lengths.length = n) (hmax : n ≤ maxLit) (hbuild : Buildable lengths false) :
    Ends (fun _ t ↦ Decoding given rest good limit t bits output ∧ t.lencode.Codes lengths ∧
        t.lengths = st.lengths) Never (buildLencode n) st := by
  refine (buildCode_does Inflater.lencode hlengths hn hmax hbuild).bind ?_
  rintro huff t ⟨hcodes, rfl⟩
  exact ends_modify.2 ⟨h.tables _ huff _ _, hcodes, rfl⟩

theorem Decoding.buildDistcode {start n : ℕ} (hlengths : st.lengths.Holds start lengths)
    (hn : lengths.length = n) (hmax : n ≤ maxLit) (hbuild : Buildable lengths allowIncomplete) :
    Ends (fun _ t ↦ Decoding given rest good limit t bits output ∧ t.distcode.Codes lengths ∧
        t.lencode = st.lencode) Never (buildDistcode start n allowIncomplete) st := by
  refine (buildCode_does Inflater.distcode hlengths hn hmax hbuild).bind ?_
  rintro huff t ⟨hcodes, rfl⟩
  exact ends_modify.2 ⟨h.tables _ _ huff _, hcodes, rfl⟩

theorem Decoding.buildClcode (hlengths : st.lengths.Holds 0 lengths)
    (hn : lengths.length = maxClen) (hbuild : Buildable lengths false) :
    Ends (fun _ t ↦ Decoding given rest good limit t bits output ∧ t.clcode.Codes lengths) Never
      buildClcode st := by
  refine (buildCode_does Inflater.clcode hlengths hn (by decide) hbuild).bind ?_
  rintro huff t ⟨hcodes, rfl⟩
  exact ends_modify.2 ⟨h.tables _ _ _ huff, hcodes⟩

omit h in
theorem fixedLengths_complete : CompleteCode fixedLengths := by
  unfold CompleteCode Complete Canonical.Fits
  decide +kernel

omit h in
theorem fixedDist_complete : CompleteCode fixedDist := by
  unfold CompleteCode Complete Canonical.Fits
  decide +kernel

omit h in
theorem Coded.of_codes {lit dist : List ℕ} (hlit : st.lencode.Codes lit)
    (hdist : st.distcode.Codes dist) (hlit' : Buildable lit false)
    (hdist' : Buildable dist allowIncomplete) : Coded lit dist st :=
  ⟨hlit, hdist, hlit'.2.1, hdist'.2.1, hlit'.1, hdist'.1⟩

theorem buildFixed_does : Ends (fun _ t ↦ Decoding given rest good limit t bits output ∧
        Coded fixedLengths fixedDist t) Never buildFixed st := by
  have hlength := fixedLengths_length
  have hlength' : fixedDist.length = 32 := length_replicate
  have hbuild := fixedLengths_complete.buildable false
  have hbuild' := fixedDist_complete.buildable false
  have hsame : List.replicate 32 5 = fixedDist := rfl
  unfold buildFixed
  rw [hsame]
  generalize fixedLengths = lengths at *
  generalize fixedDist = lengths' at *
  refine (h.setLengths 0 lengths ?_).bind ?_
  · rw [hlength]
    decide
  rintro _ a ⟨ha, hholds, -⟩
  refine (ha.buildLencode hholds hlength le_rfl hbuild).bind ?_
  rintro _ b ⟨hb, hlit, -⟩
  refine (hb.setLengths 0 lengths' ?_).bind ?_
  · rw [hlength']
    decide
  rintro _ c ⟨hc, hholds, -, hkept, -⟩
  refine (hc.buildDistcode hholds hlength' (by decide) hbuild').weaken ?_
  rintro _ d ⟨hd, hdist, hkept'⟩
  rw [← hkept, ← hkept'] at hlit
  exact ⟨hd, .of_codes hlit hdist hbuild hbuild'⟩

end

/-- Lengths that are put in place one by one. -/
def arranged (clens order lengths : List ℕ) : List ℕ :=
  order.foldl (fun lengths symbol ↦ lengths.set symbol (clens.getD symbol 0)) lengths

theorem readClens_does (hep : Carries ep given rest good) {clens order : List ℕ}
    (hclens : ∀ l ∈ clens, l < 8) (horder : ∀ symbol ∈ order, symbol < maxClen)
    (hlengths : st.lengths.Holds 0 lengths) (h : Decoding given rest good limit st
      (order.flatMap (fun symbol ↦ lsb 3 (clens.getD symbol 0)) ++ more) output) :
    Ends (fun _ t ↦ Decoding given rest good limit t more output ∧
        t.lengths.Holds 0 (arranged clens order lengths)) Never (readClens ep order) st := by
  induction order generalizing st lengths with
  | nil => exact ends_pure.2 ⟨h, hlengths⟩
  | cons symbol order ih =>
    have hvalue : clens.getD symbol 0 < 2 ^ 3 := by
      rcases Nat.lt_or_ge symbol clens.length with hs | hs
      · have hget : clens.getD symbol 0 = clens[symbol] := by simp [List.getD, hs]
        rw [hget]
        exact hclens _ (getElem_mem hs)
      · simp [List.getD, hs]
    have hroom : symbol + 1 ≤ maxLit + maxDist := by
      have hsymbol := horder symbol mem_cons_self
      unfold maxClen at hsymbol
      unfold maxLit maxDist
      omega
    rw [flatMap_cons, append_assoc] at h
    refine (h.getBits hep (by decide) hvalue).bind ?_
    rintro v a ⟨hv, ha, hfed⟩
    rw [hv]
    refine (ha.setLengths symbol [clens.getD symbol 0] hroom).bind ?_
    rintro _ b ⟨hb, hwritten, hframe, -⟩
    rw [hfed.lengths] at hframe
    exact ih (fun s hs ↦ horder s (mem_cons_of_mem _ hs)) (hlengths.set hwritten hframe) hb

theorem getElem?_arranged {clens order : List ℕ} {i : ℕ} (hi : i < lengths.length) :
    (arranged clens order lengths)[i]? =
      if i ∈ order then some (clens.getD i 0) else lengths[i]? := by
  induction order generalizing lengths with
  | nil => rfl
  | cons symbol order ih =>
    unfold arranged at *
    rw [foldl_cons, ih (by rwa [length_set]), getElem?_set]
    by_cases hmem : i ∈ order
    · rw [if_pos hmem, if_pos (mem_cons_of_mem _ hmem)]
    · rw [if_neg hmem]
      by_cases hsame : symbol = i
      · rw [if_pos hsame, hsame, if_pos hi, if_pos mem_cons_self]
      · rw [if_neg hsame, if_neg]
        rw [mem_cons]
        rintro (rfl | hlater)
        · exact hsame rfl
        · exact hmem hlater

theorem length_arranged (clens order lengths : List ℕ) :
    (arranged clens order lengths).length = lengths.length := by
  induction order generalizing lengths with
  | nil => rfl
  | cons symbol order ih =>
    unfold arranged at *
    rw [foldl_cons, ih, length_set]

/-- Every length is written or zero. -/
theorem Header.Valid.arranged_eq {header : Header} (h : header.Valid) :
    arranged header.clens (clenOrder.take header.hclen) (List.replicate maxClen 0) =
      header.clens := by
  have hlength : (List.replicate maxClen 0).length = maxClen := length_replicate
  apply ext_getElem?
  intro i
  rcases Nat.lt_or_ge i maxClen with hi | hi
  · have hget : header.clens[i]? = some (header.clens.getD i 0) := by
      have hi' : i < header.clens.length := h.clens_length.symm ▸ hi
      simp [List.getD, hi']
    rw [getElem?_arranged (hlength.symm ▸ hi), hget]
    split
    case isTrue => rfl
    case isFalse hunwritten =>
      have hall : ∀ i < maxClen, i ∈ clenOrder := by decide
      have hmem := hall i hi
      rw [← take_append_drop header.hclen clenOrder, mem_append] at hmem
      rw [h.unwritten i (hmem.resolve_left hunwritten), getElem?_replicate, if_pos hi]
  · rw [getElem?_eq_none, getElem?_eq_none]
    · exact h.clens_length.trans_le hi
    · rw [length_arranged, hlength]
      exact hi

theorem Run.Valid.length_pos {before : List ℕ} {run : Run} (h : run.Valid before) :
    0 < (run.lengths before).length := by
  cases run with
  | length len => exact Nat.one_pos
  | previous count =>
    rw [Run.lengths, length_replicate]
    exact Nat.lt_of_lt_of_le (by decide) h.2.1
  | zeros count =>
    rw [Run.lengths, length_replicate]
    exact Nat.lt_of_lt_of_le (by decide) h.1
  | manyZeros count =>
    rw [Run.lengths, length_replicate]
    exact Nat.lt_of_lt_of_le (by decide) h.1

theorem length_le_runLengths (before : List ℕ) (runs : List Run) :
    before.length ≤ (runLengths before runs).length := by
  induction runs generalizing before with
  | nil => exact le_rfl
  | cons run runs ih =>
    have hrest := ih (before ++ run.lengths before)
    rw [length_append] at hrest
    exact (Nat.le_add_right _ _).trans hrest

theorem readRepeat_does (hep : Carries ep given rest good) {before : List ℕ} {run : Run}
    (hrun : run.Valid before) (hrepeat : ¬run.symbol < 16) (hheld : st.lengths.Holds 0 before)
    (h : Decoding given rest good limit st (run.extra ++ more) output) :
    Ends (fun repeated t ↦ List.replicate repeated.1 repeated.2 = run.lengths before ∧
        Decoding given rest good limit t more output ∧ Fed given st t) Never
      (readRepeat ep before.length run.symbol) st := by
  cases run with
  | length len =>
    have hlen : len ≤ 15 := hrun
    exact absurd (Nat.lt_succ_of_le hlen) hrepeat
  | previous count =>
    obtain ⟨hsome, hlow, hhigh⟩ := hrun
    have hpos := length_pos_of_ne_nil hsome
    have hread := hheld (before.length - 1) (by omega)
    rw [zero_add] at hread
    have hget : before.getD (before.length - 1) 0 = before[before.length - 1] := by
      simp [List.getD, hpos]
    unfold readRepeat Run.symbol
    rw [if_pos rfl, ends_bind, ends_require]
    refine ⟨fun _ ↦ ?_, fun hno ↦ absurd hpos.ne' hno⟩
    rw [ends_bind, ends_get, ends_bind, ends_expect, hread]
    refine ⟨?_, fun hnone ↦ by cases hnone⟩
    intro value hvalue
    obtain rfl := Option.some.inj hvalue
    refine (h.getBits hep (by decide) (by omega)).bind ?_
    rintro v t ⟨hv, hdecoding, hfed⟩
    refine ends_pure.2 ⟨?_, hdecoding, hfed⟩
    dsimp only [Run.lengths]
    rw [hv, Nat.add_sub_cancel' hlow, hget]
  | zeros count =>
    obtain ⟨hlow, hhigh⟩ := hrun
    have hsymbol : (Run.zeros count).symbol = 17 := rfl
    unfold readRepeat
    rw [hsymbol, if_neg (by decide), if_pos rfl]
    refine (h.getBits hep (by decide) (by omega)).bind ?_
    rintro v t ⟨hv, hdecoding, hfed⟩
    refine ends_pure.2 ⟨?_, hdecoding, hfed⟩
    dsimp only [Run.lengths]
    rw [hv, Nat.add_sub_cancel' hlow]
  | manyZeros count =>
    obtain ⟨hlow, hhigh⟩ := hrun
    have hsymbol : (Run.manyZeros count).symbol = 18 := rfl
    unfold readRepeat
    rw [hsymbol, if_neg (by decide), if_neg (by decide)]
    refine (h.getBits hep (by decide) (by omega)).bind ?_
    rintro v t ⟨hv, hdecoding, hfed⟩
    refine ends_pure.2 ⟨?_, hdecoding, hfed⟩
    dsimp only [Run.lengths]
    rw [hv, Nat.add_sub_cancel' hlow]

theorem readLengths_does (hep : Carries ep given rest good) {clens before : List ℕ}
    {runs : List Run} {total turns : ℕ} (hcodes : st.clcode.Codes clens)
    (hclens : CompleteCode clens) (hruns : RunsValid clens before runs)
    (htotal : (runLengths before runs).length = total) (hheld : st.lengths.Holds 0 before)
    (hturns : total ≤ before.length + turns) (hmax : total ≤ maxLit + maxDist)
    (h : Decoding given rest good limit st
      (runs.flatMap (fun run ↦ word clens run.symbol ++ run.extra) ++ more) output) :
    Ends (fun _ t ↦ Decoding given rest good limit t more output ∧
        t.lengths.Holds 0 (runLengths before runs)) Never
      (readLengths ep total turns before.length) st := by
  induction runs generalizing st before turns with
  | nil =>
    rw [runLengths] at htotal
    cases turns with
    | zero =>
      rw [readLengths, ends_require]
      exact ⟨fun _ ↦ ⟨h, hheld⟩, fun hless ↦ absurd htotal.ge hless⟩
    | succ turns =>
      rw [readLengths, if_pos htotal.ge]
      exact ends_pure.2 ⟨h, hheld⟩
  | cons run runs ih =>
    obtain ⟨hrun, hword, hruns⟩ := hruns
    have hpos := hrun.length_pos
    have hle := length_le_runLengths (before ++ run.lengths before) runs
    rw [runLengths] at htotal ⊢
    rw [htotal, length_append] at hle
    obtain ⟨turns, rfl⟩ : ∃ n, turns = n + 1 := Nat.exists_eq_succ_of_ne_zero (by omega)
    rw [flatMap_cons, append_assoc, append_assoc] at h
    rw [readLengths, if_neg (by omega), ends_bind, ends_get]
    refine (h.huffDecode hep hcodes hclens.2.1 hclens.1 hword).bind ?_
    rintro sym a ⟨rfl, ha, hfed⟩
    -- Both kinds of code append the lengths of the run.
    have happend (v : Inflater ω) (hv : Fed given st v)
        (hdecoding : Decoding given rest good limit v
          (runs.flatMap (fun run ↦ word clens run.symbol ++ run.extra) ++ more) output) :
        Ends (fun _ t ↦ Decoding given rest good limit t more output ∧
            t.lengths.Holds 0 (runLengths (before ++ run.lengths before) runs)) Never (do
          setLengths before.length (run.lengths before)
          readLengths ep total turns (before.length + (run.lengths before).length)) v := by
      refine (hdecoding.setLengths _ _ (hle.trans hmax)).bind ?_
      rintro _ u ⟨hu, hwritten, hframe, -, hkept⟩
      rw [hv.lengths] at hframe
      have hcodes' : u.clcode.Codes clens := by
        rw [hkept, hv.clcode]
        exact hcodes
      rw [← length_append]
      exact ih hcodes' hruns htotal (hheld.append hwritten hframe)
        (by rw [length_append]; omega) hu
    split
    case isTrue hlength =>
      cases run with
      | length len => exact happend a hfed ha
      | previous count => exact absurd (show 16 < 16 from hlength) (by decide)
      | zeros count => exact absurd (show 17 < 16 from hlength) (by decide)
      | manyZeros count => exact absurd (show 18 < 16 from hlength) (by decide)
    case isFalse hrepeat =>
      refine (readRepeat_does hep hrun hrepeat (hfed.lengths ▸ hheld) ha).bind ?_
      rintro ⟨count, value⟩ b ⟨hrepeated, hb, hfed'⟩
      dsimp only at hrepeated ⊢
      have hcount : (run.lengths before).length = count := by
        rw [← hrepeated, length_replicate]
      rw [ends_bind, ends_require]
      refine ⟨fun _ ↦ ?_, fun hno ↦ absurd (by omega) hno⟩
      rw [hrepeated, ← hcount]
      exact happend b (hfed.trans hfed') hb

theorem readDynamic_does (hep : Carries ep given rest good) {header : Header}
    (hheader : header.Valid) (h : Decoding given rest good limit st (header.bits ++ more) output) :
    Ends (fun _ t ↦ Decoding given rest good limit t more output ∧
        Coded header.lit header.dist t) Never (readDynamic ep) st := by
  have hlit := hheader.lit_length
  have hdist := hheader.dist_length
  have hclen := hheader.hclen
  have harranged := hheader.arranged_eq
  have hzeros : (List.replicate maxClen 0).length = maxClen := length_replicate
  have horder : ∀ symbol ∈ clenOrder.take header.hclen, symbol < maxClen := by
    intro symbol hmem
    have hall : ∀ symbol ∈ clenOrder, symbol < maxClen := by decide
    exact hall symbol (mem_of_mem_take hmem)
  have hmax : header.lit.length + header.dist.length ≤ maxLit + maxDist := by
    unfold maxLit maxDist
    omega
  have hmaxClen : maxClen = 19 := rfl
  unfold Header.bits at h
  rw [append_assoc, append_assoc, append_assoc, append_assoc] at h
  unfold readDynamic
  generalize List.replicate maxClen 0 = zeros at *
  refine (h.getBits hep (by decide) (by omega)).bind ?_
  rintro v a ⟨hv, ha, -⟩
  refine (ha.getBits hep (by decide) (by omega)).bind ?_
  rintro v' b ⟨hv', hb, -⟩
  refine (hb.getBits hep (by decide) (by omega)).bind ?_
  rintro v'' c ⟨hv'', hc, -⟩
  have hnlen : v.toNat + 257 = header.lit.length := by omega
  have hndist : v'.toNat + 1 = header.dist.length := by omega
  have hnclen : v''.toNat + 4 = header.hclen := by omega
  dsimp only
  rw [hnlen, hndist, hnclen, ends_bind, ends_require]
  refine ⟨fun _ ↦ ?_, fun hno ↦ absurd ⟨hlit.2, hdist.2⟩ hno⟩
  refine (hc.setLengths 0 zeros ?_).bind ?_
  · rw [hzeros]
    decide
  rintro _ d ⟨hd, hholds, -⟩
  refine (readClens_does hep hheader.clens_code.1 horder hholds hd).bind ?_
  rintro _ e ⟨he, hholds⟩
  rw [harranged] at hholds
  refine (he.buildClcode hholds hheader.clens_length
    (hheader.clens_code.2.buildable false)).bind ?_
  rintro _ f ⟨hf, hclcode⟩
  have htotal : (runLengths [] header.runs).length = header.lit.length + header.dist.length := by
    rw [hheader.lengths, length_append]
  refine (@readLengths_does _ _ _ _ _ _ _ _ _ hep _ [] _ _ _ hclcode hheader.clens_code.2
    hheader.runs htotal Buffer.holds_nil (Nat.le_add_left _ _) hmax hf).bind ?_
  rintro _ g ⟨hg, hholds⟩
  rw [hheader.lengths, Buffer.holds_append, zero_add] at hholds
  have hbuild := hheader.lit_code.buildable false
  have hbuild' := hheader.dist_code.buildable
  refine (hg.buildLencode hholds.1 rfl ?_ hbuild).bind ?_
  · unfold maxLit
    omega
  rintro _ i ⟨hi, hlencode, htable⟩
  refine (hi.buildDistcode (htable ▸ hholds.2) rfl ?_ hbuild').weaken ?_
  · unfold maxLit
    omega
  rintro _ j ⟨hj, hdistcode, hkept⟩
  rw [← hkept] at hlencode
  exact ⟨hj, .of_codes hlencode hdistcode hbuild hbuild'⟩

end S5LBox.Firmware
