import S5LBox.Library.Crc
import S5LBox.Ppp.Peer

/-!
# Framing round trip

A frame of `ppp_frame` comes back out of the deframer as it went in, whatever the deframer was in
the middle of: the opening flag puts it in a known state, the escapes are undone octet by octet and
the check sequence leaves the good residue.
-/

namespace S5LBox.Ppp

open List

/-- The polynomial of the FCS-16, reflected. -/
def fcsPoly : Half := 0x8408

theorem fcsBit_eq (fcs : Half) : fcsBit fcs = Crc.step fcsPoly fcs := by
  have hlow : (fcs &&& 1 ≠ 0) ↔ fcs.getLsbD 0 = true := by
    have hone : fcs &&& 1 = (BitVec.ofBool (fcs.getLsbD 0)).setWidth 16 :=
      BitVec.and_one_eq_setWidth_ofBool_getLsbD
    rw [hone]
    cases fcs.getLsbD 0 <;> decide
  unfold fcsBit Crc.step
  simp only [hlow, fcsPoly]

theorem fcsOctet_eq (fcs : Half) (octet : Octet) :
    fcsOctet fcs octet = Crc.steps fcsPoly 8 (fcs ^^^ octet.zeroExtend 16) := by
  unfold fcsOctet
  simp only [fcsBit_eq]
  rfl

/-- Two octets leave in the register what the word they make up, low octet first, leaves. -/
theorem fcsOctet_pair (fcs : Half) (low high : Octet) :
    fcsOctet (fcsOctet fcs low) high = Crc.steps fcsPoly 16 (fcs ^^^ (high ++ low)) := by
  have hword : (high ++ low : Half) = low.zeroExtend 16 ^^^ (high.zeroExtend 16 <<< 8) := by
    apply BitVec.eq_of_getLsbD_eq
    intro i hi
    simp only [BitVec.getLsbD_append, BitVec.getLsbD_xor, BitVec.getLsbD_shiftLeft,
      BitVec.getLsbD_setWidth]
    by_cases hlow : i < 8
    · simp [hlow, hi]
    · have hnone : low.getLsbD i = false := BitVec.getLsbD_of_ge _ _ (by omega)
      have hlt : i - 8 < 16 := by omega
      simp [hlow, hi, hnone, hlt]
  have hhigh : Crc.steps fcsPoly 8 (high.zeroExtend 16 <<< 8) = high.zeroExtend 16 := by
    have hclear (i : ℕ) (hi : i < 8) : (high.zeroExtend 16 <<< 8 : Half).getLsbD i = false := by
      simp [hi]
    rw [Crc.steps_of_clear hclear]
    apply BitVec.eq_of_getLsbD_eq
    intro i hi
    by_cases hlow : i < 8
    · have hlt : 8 + i < 16 := by omega
      simp [hlow, hlt, hi]
    · have hnone : high.getLsbD i = false := BitVec.getLsbD_of_ge _ _ (by omega)
      simp [hnone]
  calc fcsOctet (fcsOctet fcs low) high
      = Crc.steps fcsPoly 8 (Crc.steps fcsPoly 8 (fcs ^^^ low.zeroExtend 16) ^^^
          Crc.steps fcsPoly 8 (high.zeroExtend 16 <<< 8)) := by
        rw [fcsOctet_eq, fcsOctet_eq, hhigh]
    _ = Crc.steps fcsPoly 16 (fcs ^^^ low.zeroExtend 16 ^^^ (high.zeroExtend 16 <<< 8)) := by
        rw [← Crc.steps_xor, ← Crc.steps_add]
    _ = Crc.steps fcsPoly 16 (fcs ^^^ (high ++ low)) := by
        rw [hword, BitVec.xor_assoc]

theorem xor_eq_iff (x y z : Half) : x ^^^ y = z ↔ y = x ^^^ z := by
  constructor
  · rintro rfl
    rw [← BitVec.xor_assoc, BitVec.xor_self, BitVec.zero_xor]
  · rintro rfl
    rw [← BitVec.xor_assoc, BitVec.xor_self, BitVec.zero_xor]

/-- The residue test accepts a string exactly when it ends in the complement of the check
sequence of what comes before, low octet first. -/
theorem fcs_residue (data : List Octet) (low high : Octet) :
    pppFcs16 fcsInit (data ++ [low, high]) = fcsGood ↔
      (high ++ low : Half) = pppFcs16 fcsInit data ^^^ 0xffff := by
  have hgood : fcsGood = Crc.steps fcsPoly 16 0xffff := by decide +kernel
  have hsplit : pppFcs16 fcsInit (data ++ [low, high]) =
      Crc.steps fcsPoly 16 (pppFcs16 fcsInit data ^^^ (high ++ low)) := by
    rw [← fcsOctet_pair]
    exact foldl_append
  rw [hsplit, hgood, (Crc.steps_injective (by decide) 16).eq_iff]
  exact xor_eq_iff _ _ _

def pppInput (p : Peer) (octets : List Octet) : Peer := octets.foldl inputByte p

/-- The packet in a frame, if there is one. -/
def Frame.packets : Frame → List (Half × List Octet)
  | .packet proto info => [(proto, info)]
  | _ => []

/-- What one octet makes the deframer hand to the dispatcher. -/
def handed (p : Peer) (octet : Octet) : List (Half × List Octet) :=
  if octet = flag then (p.completed.elim [] fun frame ↦ (decodeFrame frame).packets) else []

/-- What a string makes the deframer hand to the dispatcher, in order. -/
def handedAll (p : Peer) : List Octet → List (Half × List Octet)
  | [] => []
  | octet :: rest => handed p octet ++ handedAll (inputByte p octet) rest

theorem handedAll_append (p : Peer) (first second : List Octet) :
    handedAll p (first ++ second) = handedAll p first ++ handedAll (pppInput p first) second := by
  induction first generalizing p with
  | nil => rfl
  | cons octet rest ih =>
    rw [cons_append, handedAll, ih, ← append_assoc]
    rfl

variable {p : Peer} {octet : Octet} {proto : Half} {frame : List Octet}

theorem inputByte_of_handed {info : List Octet} (h : handed p octet = [(proto, info)]) :
    inputByte p octet =
      { dispatch { p with stats := { p.stats with
          rxBytes := p.stats.rxBytes + 1, framesIn := p.stats.framesIn + 1 } } proto info with
        rxbuf := [], escaped := false, overlong := false, inFrame := true } := by
  unfold handed at h
  split at h
  · rename_i hflag
    cases hcompleted : p.completed with
    | none => simp [hcompleted] at h
    | some frame =>
      rw [hcompleted, Option.elim_some] at h
      have hdecode : decodeFrame frame = .packet proto info := by
        cases hframe : decodeFrame frame <;> simp_all [Frame.packets]
      have hcompleted' : Peer.completed { p with stats :=
          { p.stats with rxBytes := p.stats.rxBytes + 1 } } = some frame := hcompleted
      rw [inputByte, if_pos hflag]
      simp only [flagInput, hcompleted', frameInput, hdecode]
  · cases h

/-- The deframer is in a frame, of which it has these octets. -/
structure Receiving (p : Peer) (frame : List Octet) : Prop where
  inFrame : p.inFrame = true
  escaped : p.escaped = false
  overlong : p.overlong = false
  rxbuf : p.rxbuf = frame

/-- A flag starts a frame, whatever came before it. -/
theorem receiving_flag (p : Peer) : Receiving (inputByte p flag) [] := by
  rw [inputByte, if_pos rfl]
  exact ⟨rfl, rfl, rfl, rfl⟩

theorem handed_of_receiving (h : Receiving p frame) (hne : frame ≠ []) :
    handed p flag = (decodeFrame frame).packets := by
  obtain ⟨hin, hplain, hshort, rfl⟩ := h
  have hcompleted : p.completed = some p.rxbuf := by
    unfold Peer.completed
    rw [if_neg]
    simp [hin, hplain, hshort, hne]
  rw [handed, if_pos rfl, hcompleted, Option.elim_some]

theorem not_special_of_needsEscape {accm : Word} (h : needsEscape octet accm = true) :
    octet ^^^ trans ≠ flag ∧ octet ^^^ trans ≠ escape := by
  have hall : ∀ octet : Octet, octet = flag ∨ octet = escape ∨ octet < 0x20 →
      octet ^^^ trans ≠ flag ∧ octet ^^^ trans ≠ escape := by decide +kernel
  apply hall
  unfold needsEscape at h
  split at h
  · rename_i hspecial
    exact hspecial.imp_right .inl
  · split at h
    · rename_i hcontrol
      exact .inr (.inr hcontrol)
    · cases h

theorem not_special_of_plain {accm : Word} (h : needsEscape octet accm = false) :
    octet ≠ flag ∧ octet ≠ escape := by
  unfold needsEscape at h
  split at h
  · cases h
  · rename_i hspecial
    exact not_or.1 hspecial

theorem receiving_octet (hin : p.inFrame = true) (hshort : p.overlong = false)
    (hroom : p.rxbuf.length < maxFrame) (hflag : octet ≠ flag) (hescape : octet ≠ escape) :
    Receiving (inputByte p octet)
      (p.rxbuf ++ [if p.escaped then octet ^^^ trans else octet]) := by
  have hfits : ¬maxFrame ≤ p.rxbuf.length := Nat.not_le.2 hroom
  have hin' : ¬(!p.inFrame) = true := by rw [hin]; decide
  rw [inputByte]
  simp only [if_neg hflag, if_neg hescape, if_neg hin', if_neg hfits]
  exact ⟨hin, rfl, hshort, rfl⟩

theorem receiving_emit (h : Receiving p frame) (hroom : frame.length < maxFrame) (accm : Word)
    (octet : Octet) : Receiving (pppInput p (emit accm octet)) (frame ++ [octet]) ∧
      handedAll p (emit accm octet) = [] := by
  obtain ⟨hin, hplain, hshort, rfl⟩ := h
  unfold emit
  cases hneeds : needsEscape octet accm with
  | false =>
    obtain ⟨hflag, hescape⟩ := not_special_of_plain hneeds
    have hnext := receiving_octet hin hshort hroom hflag hescape
    rw [hplain] at hnext
    refine ⟨hnext, ?_⟩
    show handed p octet ++ [] = []
    rw [handed, if_neg hflag, append_nil]
  | true =>
    obtain ⟨hflag, hescape⟩ := not_special_of_needsEscape hneeds
    have hne : escape ≠ flag := by decide
    have hin' : ¬(!p.inFrame) = true := by rw [hin]; decide
    have hmid : inputByte p escape = { p with
        stats := { p.stats with rxBytes := p.stats.rxBytes + 1 }, escaped := true } := by
      rw [inputByte]
      simp only [if_neg hne, if_neg hin', if_true]
    have hback : octet ^^^ trans ^^^ trans = octet := by
      rw [BitVec.xor_assoc, BitVec.xor_self, BitVec.xor_zero]
    constructor
    · show Receiving (inputByte (inputByte p escape) (octet ^^^ trans)) _
      rw [hmid]
      have hnext := receiving_octet (p := { p with
        stats := { p.stats with rxBytes := p.stats.rxBytes + 1 }, escaped := true })
        hin hshort hroom hflag hescape
      rw [if_pos rfl, hback] at hnext
      exact hnext
    · show handed p escape ++ (handed (inputByte p escape) (octet ^^^ trans) ++ []) = []
      rw [handed, if_neg hne, handed, if_neg hflag]
      rfl

theorem receiving_body (h : Receiving p frame) (accm : Word) {body : List Octet}
    (hroom : frame.length + body.length ≤ maxFrame) :
    Receiving (pppInput p (body.flatMap (emit accm))) (frame ++ body) ∧
      handedAll p (body.flatMap (emit accm)) = [] := by
  induction body generalizing p frame with
  | nil =>
    rw [append_nil]
    exact ⟨h, rfl⟩
  | cons octet rest ih =>
    rw [length_cons] at hroom
    obtain ⟨hfirst, hquiet⟩ := receiving_emit h (by omega) accm octet
    have hroom' : (frame ++ [octet]).length + rest.length ≤ maxFrame := by
      rw [length_append, length_singleton]
      omega
    obtain ⟨hrest, hquiet'⟩ := ih hfirst hroom'
    rw [flatMap_cons, handedAll_append, hquiet, hquiet']
    refine ⟨?_, rfl⟩
    rw [append_assoc] at hrest
    rw [pppInput, foldl_append]
    exact hrest

theorem append_octets (value : Half) :
    (value.extractLsb' 8 8 ++ value.extractLsb' 0 8 : Half) = value := by
  apply BitVec.eq_of_getLsbD_eq
  intro i hi
  simp only [BitVec.getLsbD_append, BitVec.getLsbD_extractLsb']
  by_cases hlow : i < 8
  · simp [hlow]
  · have hlt : i - 8 < 8 := by omega
    have hsum : 8 + (i - 8) = i := by omega
    simp [hlow, hlt, hsum]

/-- What `ppp_frame` puts between the flags, before the escapes. -/
def frameBody (proto : Half) (info : List Octet) : List Octet :=
  let header := [allStations, unnumberedInformation] ++ putBe16 proto
  let fcs := pppFcs16 (pppFcs16 fcsInit header) info ^^^ 0xffff
  header ++ info ++ [fcs.extractLsb' 0 8, fcs.extractLsb' 8 8]

theorem length_frameBody (proto : Half) (info : List Octet) :
    (frameBody proto info).length = info.length + 6 := by
  simp only [frameBody, putBe16, length_append, length_cons, length_nil]
  omega

theorem frameBody_ne_nil (proto : Half) (info : List Octet) : frameBody proto info ≠ [] := by
  intro hnil
  have hlength := length_frameBody proto info
  rw [hnil, length_nil] at hlength
  omega

theorem decodeFrame_frameBody (info : List Octet) (heven : proto.getLsbD 8 = false) :
    decodeFrame (frameBody proto info) = .packet proto info := by
  have hlength := length_frameBody proto info
  have hgood : pppFcs16 fcsInit (frameBody proto info) = fcsGood := by
    apply (fcs_residue _ _ _).2
    rw [append_octets]
    congr 1
  have htake : (frameBody proto info).take ((frameBody proto info).length - 2) =
      [allStations, unnumberedInformation] ++ putBe16 proto ++ info := by
    rw [hlength, frameBody]
    apply take_left'
    simp only [putBe16, length_append, length_cons, length_nil]
    omega
  have hstrip : stripAddress ([allStations, unnumberedInformation] ++ putBe16 proto ++ info) =
      proto.extractLsb' 8 8 :: proto.extractLsb' 0 8 :: info := rfl
  have hfirst : ¬proto.extractLsb' 8 8 &&& 1 ≠ 0 := by
    rw [not_not]
    have hone : proto.extractLsb' 8 8 &&& 1 =
        (BitVec.ofBool ((proto.extractLsb' 8 8).getLsbD 0)).setWidth 8 :=
      BitVec.and_one_eq_setWidth_ofBool_getLsbD
    have hbit : (proto.extractLsb' 8 8).getLsbD 0 = proto.getLsbD 8 := by simp
    rw [hone, hbit, heven]
    rfl
  have hlong : ¬(frameBody proto info).length < 4 := by omega
  rw [decodeFrame, if_neg hlong, if_neg (not_not.2 hgood), htake, hstrip]
  simp only [if_neg hfirst]
  rw [append_octets]

theorem pppFrame_eq {info : List Octet} {accm : Word} {cap : ℕ}
    (hlength : info.length ≤ mruDefault) : pppFrame proto info accm cap =
      if cap < (flag :: (frameBody proto info).flatMap (emit accm) ++ [flag]).length then []
      else flag :: (frameBody proto info).flatMap (emit accm) ++ [flag] := by
  rw [pppFrame, if_neg (Nat.not_lt.2 hlength)]
  rfl

theorem length_emit (accm : Word) (octet : Octet) : (emit accm octet).length ≤ 2 := by
  unfold emit
  split
  · exact Nat.le_refl 2
  · exact Nat.le_succ 1

theorem length_flatMap_emit (accm : Word) (body : List Octet) :
    (body.flatMap (emit accm)).length ≤ 2 * body.length := by
  induction body with
  | nil => exact Nat.le_refl 0
  | cons octet rest ih =>
    have hfirst := length_emit accm octet
    rw [flatMap_cons, length_append, length_cons]
    omega

/-- The framing loses nothing: whatever the deframer was in the middle of, it hands the packet of
a frame on once, after what the opening flag completes, and the closing flag runs the dispatcher on
it. The buffer of `tx_frame` is large enough for every frame, and the residue test is the
comparison of the check sequence. -/
theorem handedAll_pppFrame (p : Peer) (proto : Half) (info : List Octet) (accm : Word) (cap : ℕ)
    (heven : proto.getLsbD 8 = false) (hlength : info.length ≤ mruDefault) :
    let frame := pppFrame proto info accm cap
    let last := pppInput p frame.dropLast
    (2 * maxFrame + 2 ≤ cap → frame ≠ []) ∧ (frame ≠ [] →
        handedAll p frame = handed p flag ++ [(proto, info)] ∧ pppInput p frame =
            { dispatch { last with stats := { last.stats with
                rxBytes := last.stats.rxBytes + 1, framesIn := last.stats.framesIn + 1 } }
                proto info with
              rxbuf := [], escaped := false, overlong := false, inFrame := true }) ∧
      ∀ (data : List Octet) (low high : Octet), pppFcs16 fcsInit (data ++ [low, high]) = fcsGood ↔
          (high ++ low : Half) = pppFcs16 fcsInit data ^^^ 0xffff := by
  intro frame last
  set encoded := flag :: (frameBody proto info).flatMap (emit accm) with hencoded
  have hframe : frame = if cap < (encoded ++ [flag]).length then [] else encoded ++ [flag] :=
    pppFrame_eq hlength
  refine ⟨fun hcap ↦ ?_, fun hsome ↦ ?_, fcs_residue⟩
  · have hbody := length_flatMap_emit accm (frameBody proto info)
    have hfits : ¬cap < (encoded ++ [flag]).length := by
      rw [length_append, hencoded, length_cons, length_singleton]
      rw [length_frameBody] at hbody
      unfold maxFrame at hcap
      omega
    rw [hframe, if_neg hfits]
    exact append_ne_nil_of_right_ne_nil _ (cons_ne_nil _ _)
  · have hwhole : frame = encoded ++ [flag] := by
      rw [hframe]
      split
      · rename_i hshort
        rw [hframe, if_pos hshort] at hsome
        exact absurd rfl hsome
      · rfl
    have hroom : ([] : List Octet).length + (frameBody proto info).length ≤ maxFrame := by
      rw [length_frameBody, length_nil]
      unfold maxFrame
      omega
    obtain ⟨hreceiving, hquiet⟩ := receiving_body (receiving_flag p) accm hroom
    have hlast : last = pppInput (inputByte p flag) ((frameBody proto info).flatMap (emit accm)) := by
      show pppInput p frame.dropLast = _
      rw [hwhole, dropLast_concat]
      rfl
    have hhanded : handed last flag = [(proto, info)] := by
      rw [hlast, handed_of_receiving hreceiving (frameBody_ne_nil proto info), nil_append,
        decodeFrame_frameBody info heven]
      rfl
    constructor
    · rw [hwhole, hencoded, cons_append, handedAll, handedAll_append, hquiet, ← hlast,
        nil_append, handedAll, hhanded]
      rfl
    · rw [← inputByte_of_handed hhanded, hlast, hwhole, hencoded, pppInput, foldl_append]
      rfl

/-- A frame that breaks into another one, in the middle of an escape. -/
theorem handedAll_pppFrame_garbage :
    handedAll (pppInput (pppInit configDefault) [0x41, 0x7e, 0xff, 0x03, 0x7d])
      (pppFrame 0xc021 [0x09, 0x00, 0x00, 0x04] 0xffffffff 3014) =
        handed (pppInput (pppInit configDefault) [0x41, 0x7e, 0xff, 0x03, 0x7d]) flag ++
          [(0xc021, [0x09, 0x00, 0x00, 0x04])] :=
  ((handedAll_pppFrame _ 0xc021 [0x09, 0x00, 0x00, 0x04] 0xffffffff 3014 (by decide)
    (by decide)).2.1
    ((handedAll_pppFrame (pppInit configDefault) 0xc021 [0x09, 0x00, 0x00, 0x04] 0xffffffff 3014
      (by decide) (by decide)).1 (by decide))).1

end S5LBox.Ppp
