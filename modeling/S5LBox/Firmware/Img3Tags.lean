import S5LBox.Firmware.Img3

/-!
# Containers as sequences of tags

A container that is accepted is a header followed by complete tags up to its declared end, and every
such container is accepted. What the parser finds is stated about the list of tags: the last
payload, the first key bag that is understood and the last version.
-/

namespace S5LBox.Firmware

open List LittleEndian Span

/-- A tag: its payload, and the padding up to its total length. -/
structure Img3Tag where
  magic : ℕ
  data : List Octet
  pad : List Octet
  magic_lt : magic < 2 ^ 32
  fits : img3TagHeader + data.length + pad.length < 2 ^ 32

def Img3Tag.total (t : Img3Tag) : ℕ := img3TagHeader + t.data.length + t.pad.length

def Img3Tag.encode (t : Img3Tag) : List Octet :=
  put 4 t.magic ++ put 4 t.total ++ put 4 t.data.length ++ t.data ++ t.pad

/-- The payloads of the tags of one kind. -/
def dataOf (magic : ℕ) (tags : List Img3Tag) : List (List Octet) :=
  (tags.filter (·.magic = magic)).map Img3Tag.data

/-- A header whose sizes fit and complete tags up to the end it declares. -/
structure Container (buf : List Octet) (tags : List Img3Tag) : Prop where
  header : img3HeaderSize ≤ buf.length
  magic : rd32 buf 0 = img3Magic
  least : img3HeaderSize ≤ rd32 buf 4
  fits : rd32 buf 4 ≤ buf.length
  data : rd32 buf 8 + img3HeaderSize ≤ rd32 buf 4
  tags : (buf.take (rd32 buf 4)).drop img3HeaderSize = tags.flatMap Img3Tag.encode

def img3Encode (dataSize signedSize ident : ℕ) (tags : List Img3Tag) : List Octet :=
  put 4 img3Magic ++ put 4 (img3HeaderSize + (tags.flatMap Img3Tag.encode).length) ++
    put 4 dataSize ++ put 4 signedSize ++ put 4 ident ++ tags.flatMap Img3Tag.encode

theorem Img3Tag.length_encode (t : Img3Tag) : t.encode.length = t.total := by
  simp only [Img3Tag.encode, Img3Tag.total, length_append, length_put, img3TagHeader]

theorem Img3Tag.words (t : Img3Tag) : rd32 t.encode 0 = t.magic ∧ rd32 t.encode 4 = t.total ∧
    rd32 t.encode 8 = t.data.length ∧
      (t.encode.drop img3TagHeader).take t.data.length = t.data := by
  have hfits : img3TagHeader + t.data.length + t.pad.length < 2 ^ 32 := t.fits
  have hwhole : t.encode =
      (put 4 t.magic ++ put 4 t.total ++ put 4 t.data.length) ++ (t.data ++ t.pad) := by
    simp only [Img3Tag.encode, append_assoc]
  refine ⟨?_, ?_, ?_, ?_⟩
  · have h := rd32_put [] (put 4 t.total ++ put 4 t.data.length ++ t.data ++ t.pad)
      length_nil t.magic_lt
    simpa only [Img3Tag.encode, nil_append, append_assoc] using h
  · have h := rd32_put (put 4 t.magic) (put 4 t.data.length ++ t.data ++ t.pad) (length_put 4 _)
      t.fits
    simpa only [Img3Tag.encode, Img3Tag.total, append_assoc] using h
  · have h := rd32_put (put 4 t.magic ++ put 4 t.total) (t.data ++ t.pad)
      (by rw [length_append, length_put, length_put]) (show t.data.length < 2 ^ 32 by omega)
    simpa only [Img3Tag.encode, append_assoc] using h
  · have hhead :
        (put 4 t.magic ++ put 4 t.total ++ put 4 t.data.length).length = img3TagHeader := by
      simp only [length_append, length_put, img3TagHeader]
    rw [hwhole, drop_left' hhead, take_left' rfl]

/-- The loop's effect: the tags one after the other, the first of them at `off`. -/
def seeAll : List Img3Tag → ℕ → Img3 → Img3
  | [], _, img => img
  | t :: tags, off, img =>
    seeAll tags (off + t.total) (img.see t.magic (off + img3TagHeader) t.data)

theorem seeAll_cons (t : Img3Tag) (tags : List Img3Tag) (off : ℕ) (img : Img3) :
    seeAll (t :: tags) off img =
      seeAll tags (off + t.total) (img.see t.magic (off + img3TagHeader) t.data) := rfl

variable {buf : List Octet} {stop off : ℕ} {tags : List Img3Tag} {img : Img3}

theorem drop_of_cons {t : Img3Tag} (hoff : off ≤ stop) (hstop : stop ≤ buf.length)
    (h : (buf.take stop).drop off = (t :: tags).flatMap Img3Tag.encode) :
    buf.drop off = t.encode ++ (tags.flatMap Img3Tag.encode ++ buf.drop stop) ∧
      off + t.total ≤ stop ∧
        (buf.take stop).drop (off + t.total) = tags.flatMap Img3Tag.encode := by
  rw [flatMap_cons] at h
  have hlength := congrArg List.length h
  rw [length_drop, length_take, length_append, t.length_encode] at hlength
  refine ⟨?_, by omega, ?_⟩
  · calc buf.drop off
        = (buf.take stop ++ buf.drop stop).drop off := by rw [take_append_drop]
      _ = (buf.take stop).drop off ++ buf.drop stop :=
        drop_append_of_le_length (by rw [length_take]; omega)
      _ = _ := by rw [h, append_assoc]
  · rw [← drop_drop, h, drop_left' t.length_encode]

theorem tagLoop_encode (hoff : off ≤ stop) (hstop : stop ≤ buf.length)
    (h : (buf.take stop).drop off = tags.flatMap Img3Tag.encode) :
    tagLoop buf stop off img = .ok (seeAll tags off img) := by
  induction tags generalizing off img with
  | nil =>
    have hlength := congrArg List.length h
    rw [flatMap_nil, length_drop, length_take, length_nil] at hlength
    have hend : off = stop := by omega
    rw [tagLoop, if_neg (by unfold img3TagHeader; omega), if_neg (fun hne ↦ hne hend)]
    rfl
  | cons t tags ih =>
    obtain ⟨hdrop, hroom, hrest⟩ := drop_of_cons hoff hstop h
    obtain ⟨hmagic, htotal, hdata, hbody⟩ := t.words
    have hleast : img3TagHeader + t.data.length ≤ t.total := by
      unfold Img3Tag.total
      omega
    have hencode : img3TagHeader ≤ t.encode.length := by
      rw [t.length_encode]
      omega
    have hword {n : ℕ} (hn : n + 4 ≤ img3TagHeader) : rd32 buf (off + n) = rd32 t.encode n :=
      rd32_of_drop hdrop (hn.trans hencode)
    have hbody' : (buf.drop (off + img3TagHeader)).take t.data.length = t.data := by
      rw [← drop_drop, hdrop, drop_append_of_le_length hencode,
        take_append_of_le_length (by rw [length_drop, t.length_encode]; omega), hbody]
    rw [tagLoop, if_pos (by omega)]
    dsimp only
    rw [hword (n := 4) (by decide), hword (n := 8) (by decide), htotal, hdata,
      if_neg (by omega), if_neg (by omega), if_neg (by omega), hbody',
      show rd32 buf off = t.magic from (hword (n := 0) (by decide)).trans hmagic,
      ih hroom hrest, seeAll_cons]

theorem exists_tag (hstop : stop ≤ buf.length) (hleast : img3TagHeader ≤ rd32 buf (off + 4))
    (hroom : off + rd32 buf (off + 4) ≤ stop)
    (hdata : rd32 buf (off + 8) + img3TagHeader ≤ rd32 buf (off + 4)) :
    ∃ t : Img3Tag, t.total = rd32 buf (off + 4) ∧
      t.encode = (buf.drop off).take (rd32 buf (off + 4)) := by
  generalize htotal : rd32 buf (off + 4) = total at *
  generalize hlen : rd32 buf (off + 8) = len at *
  have hlt : total < 2 ^ 32 := htotal ▸ rd32_lt buf (off + 4)
  unfold img3TagHeader at hleast hdata
  have hpayload : ((buf.drop (off + 12)).take len).length = len := by
    rw [length_take, length_drop]
    omega
  have hpad : ((buf.drop (off + 12 + len)).take (total - 12 - len)).length = total - 12 - len := by
    rw [length_take, length_drop]
    omega
  have hwhole : img3TagHeader + ((buf.drop (off + 12)).take len).length +
      ((buf.drop (off + 12 + len)).take (total - 12 - len)).length = total := by
    rw [hpayload, hpad, img3TagHeader]
    omega
  refine ⟨⟨rd32 buf off, (buf.drop (off + 12)).take len,
    (buf.drop (off + 12 + len)).take (total - 12 - len), rd32_lt buf off, hwhole.trans_lt hlt⟩,
    hwhole, ?_⟩
  have hsum : total = 4 + 4 + 4 + len + (total - 12 - len) := by omega
  rw [Img3Tag.encode, Img3Tag.total]
  dsimp only
  rw [hwhole, hpayload, put_rd32 (by omega), ← htotal, put_rd32 (by omega), ← hlen,
    put_rd32 (by omega), htotal, hlen]
  conv_rhs => rw [hsum, take_add, take_add, take_add, take_add]
  simp only [drop_drop, Nat.add_assoc, Nat.reduceAdd]

theorem tags_of_tagLoop (hoff : off ≤ stop) (hstop : stop ≤ buf.length) {found : Img3}
    (h : tagLoop buf stop off img = .ok found) :
    ∃ tags : List Img3Tag, (buf.take stop).drop off = tags.flatMap Img3Tag.encode := by
  fun_induction tagLoop buf stop off img with
  | case1 | case2 | case3 | case5 => exact absurd h (by simp)
  | case4 off img hroom total len hleast hfits hdata ih =>
    obtain ⟨t, htotal, ht⟩ := exists_tag hstop (Nat.le_of_not_lt hleast) (Nat.le_of_not_lt hfits)
      (Nat.le_of_not_lt hdata)
    obtain ⟨tags, htags⟩ := ih (Nat.le_of_not_lt hfits) h
    refine ⟨t :: tags, ?_⟩
    have hsplit : stop - off = total + (stop - (off + total)) := by omega
    rw [flatMap_cons, ht, ← htags, drop_take, drop_take, hsplit, take_add, drop_drop]
  | case6 off img hroom hend =>
    refine ⟨[], drop_eq_nil_of_le ?_⟩
    rw [length_take]
    omega

/-- A key bag the parser understands. -/
def Understood (d : List Octet) : Prop :=
  24 ≤ d.length ∧ (rd32 d 4 = 128 ∨ rd32 d 4 = 192 ∨ rd32 d 4 = 256) ∧ 24 + rd32 d 4 / 8 ≤ d.length

instance : DecidablePred Understood := fun _ ↦ instDecidableAnd

/-- The string of a version tag, if its length fits. -/
def versText (d : List Octet) : Option (List Octet) :=
  if 4 ≤ d.length ∧ rd32 d 0 + 4 ≤ d.length then some ((d.drop 4).take (rd32 d 0)) else none

/-- What the parser returns about the tags of a container. -/
structure Describes (buf : List Octet) (tags : List Img3Tag) (img : Img3) : Prop where
  payload : img.data.map (fun place ↦ (buf.drop place.1).take place.2) =
    (dataOf tagData tags).getLast?
  inside : ∀ start len, img.data = some (start, len) → start + len ≤ rd32 buf 4
  kbag : match (dataOf tagKbag tags).find? fun d ↦ Understood d with
    | some d => img.kbag = ⟨rd32 d 0, rd32 d 4, (d.drop 8).take 16,
        (d.drop 24).take (rd32 d 4 / 8), true, false⟩
    | none => img.kbag.present = false ∧ (img.kbag.malformed = true ↔ dataOf tagKbag tags ≠ [])
  vers : match ((dataOf tagVers tags).filterMap versText).getLast? with
    | some text => ∃ rest, img.vers = text.take 63 ++ 0 :: rest
    | none => img.vers = List.replicate 64 0

theorem dataOf_cons (magic : ℕ) (t : Img3Tag) (tags : List Img3Tag) : dataOf magic (t :: tags) =
    if t.magic = magic then t.data :: dataOf magic tags else dataOf magic tags := by
  unfold dataOf
  rw [filter_cons]
  split <;> simp_all

theorem see_data (img : Img3) (magic start : ℕ) (d : List Octet) : (img.see magic start d).data =
      if magic = tagData then some (start, d.length) else img.data := by
  unfold Img3.see
  split_ifs <;> rfl

theorem see_kbag (img : Img3) (magic start : ℕ) (d : List Octet) :
    (img.see magic start d).kbag = if magic = tagKbag then
      if img.kbag.present then img.kbag else parseKbag d img.kbag else img.kbag := by
  unfold Img3.see
  by_cases hdata : magic = tagData
  · rw [if_pos hdata, hdata, if_neg (by decide)]
  · rw [if_neg hdata]
    split_ifs <;> rfl

/-- What a version tag does to the buffer of the string. -/
def seeVers (vers : List Octet) (d : List Octet) : List Octet :=
  match versText d with
  | some text => text.take 63 ++ 0 :: vers.drop (min (rd32 d 0) 63 + 1)
  | none => vers

theorem see_vers (img : Img3) (magic start : ℕ) (d : List Octet) : (img.see magic start d).vers =
      if magic = tagVers then seeVers img.vers d else img.vers := by
  by_cases hvers : magic = tagVers
  · rw [if_pos hvers, hvers, Img3.see, if_neg (by decide), if_neg (by decide), if_neg (by decide),
      if_pos rfl, seeVers, versText]
    split_ifs
    · dsimp only
      rw [take_take, Nat.min_comm]
    · rfl
  · rw [if_neg hvers, Img3.see, if_neg hvers]
    split_ifs <;> rfl

theorem kbag_seeAll (tags : List Img3Tag) (off : ℕ) (img : Img3) : (seeAll tags off img).kbag =
    (dataOf tagKbag tags).foldl (fun k d ↦ if k.present then k else parseKbag d k) img.kbag := by
  induction tags generalizing off img with
  | nil => rfl
  | cons t tags ih =>
    rw [seeAll_cons, ih, see_kbag, dataOf_cons]
    split
    · rw [foldl_cons]
    · rfl

theorem vers_seeAll (tags : List Img3Tag) (off : ℕ) (img : Img3) :
    (seeAll tags off img).vers = (dataOf tagVers tags).foldl seeVers img.vers := by
  induction tags generalizing off img with
  | nil => rfl
  | cons t tags ih =>
    rw [seeAll_cons, ih, see_vers, dataOf_cons]
    split
    · rw [foldl_cons]
    · rfl

theorem foldl_seeVers (bodies : List (List Octet)) (vers : List Octet) :
    match (bodies.filterMap versText).getLast? with
    | some text => ∃ rest, bodies.foldl seeVers vers = text.take 63 ++ 0 :: rest
    | none => bodies.foldl seeVers vers = vers := by
  induction bodies using List.reverseRecOn with
  | nil => rfl
  | append_singleton bodies d ih =>
    rw [filterMap_append, foldl_append, foldl_cons, foldl_nil, seeVers]
    cases htext : versText d with
    | some text =>
      rw [filterMap_cons_some htext, filterMap_nil, getLast?_concat]
      exact ⟨_, rfl⟩
    | none =>
      rw [filterMap_cons_none htext, filterMap_nil, append_nil]
      exact ih

theorem parseKbag_understood {d : List Octet} (h : Understood d) (k : Img3Kbag) :
    parseKbag d k = ⟨rd32 d 0, rd32 d 4, (d.drop 8).take 16, (d.drop 24).take (rd32 d 4 / 8),
      true, false⟩ := by
  obtain ⟨hleast, hbits, hkey⟩ := h
  rw [parseKbag]
  dsimp only
  rw [if_neg (by omega), if_neg (by omega), if_neg (by omega)]

theorem parseKbag_not_understood {d : List Octet} (h : ¬Understood d) {k : Img3Kbag}
    (hk : k.present = false) :
    (parseKbag d k).present = false ∧ (parseKbag d k).malformed = true := by
  unfold Understood at h
  rw [parseKbag]
  dsimp only
  split_ifs with hleast hbits hkey
  · exact ⟨hk, rfl⟩
  · exact ⟨hk, rfl⟩
  · exact ⟨hk, rfl⟩
  · exact absurd ⟨by omega, by omega, by omega⟩ h

theorem foldl_kbag_of_present (bodies : List (List Octet)) {k : Img3Kbag} (hk : k.present = true) :
    bodies.foldl (fun k d ↦ if k.present then k else parseKbag d k) k = k := by
  induction bodies with
  | nil => rfl
  | cons d bodies ih => rw [foldl_cons, if_pos hk, ih]

/-- The first key bag that is understood wins, whatever was malformed before it. -/
theorem foldl_kbag (bodies : List (List Octet)) {k : Img3Kbag} (hk : k.present = false) :
    match bodies.find? fun d ↦ Understood d with
    | some d => bodies.foldl (fun k d ↦ if k.present then k else parseKbag d k) k =
        ⟨rd32 d 0, rd32 d 4, (d.drop 8).take 16, (d.drop 24).take (rd32 d 4 / 8), true, false⟩
    | none =>
      let found := bodies.foldl (fun k d ↦ if k.present then k else parseKbag d k) k
      found.present = false ∧ (found.malformed = true ↔ k.malformed = true ∨ bodies ≠ []) := by
  induction bodies generalizing k with
  | nil => exact ⟨hk, by simp⟩
  | cons d bodies ih =>
    rw [foldl_cons, if_neg (by rw [hk]; decide)]
    by_cases hd : Understood d
    · rw [find?_cons_of_pos (by exact decide_eq_true hd), parseKbag_understood hd]
      exact foldl_kbag_of_present bodies rfl
    · obtain ⟨hpresent, hmalformed⟩ := parseKbag_not_understood hd hk
      have hrest := ih hpresent
      rw [find?_cons_of_neg (by simpa using hd)]
      cases hfind : bodies.find? fun d ↦ Understood d with
      | some found =>
        rw [hfind] at hrest
        exact hrest
      | none =>
        rw [hfind] at hrest
        exact ⟨hrest.1, hrest.2.trans (by simp [hmalformed])⟩

theorem data_seeAll (img : Img3) (hoff : off ≤ stop) (hstop : stop ≤ buf.length)
    (h : (buf.take stop).drop off = tags.flatMap Img3Tag.encode) :
    (seeAll tags off img).data.map (fun place ↦ (buf.drop place.1).take place.2) =
        (dataOf tagData tags).getLast?.or
          (img.data.map fun place ↦ (buf.drop place.1).take place.2) ∧
      ∀ start len, (seeAll tags off img).data = some (start, len) →
        img.data = some (start, len) ∨ start + len ≤ stop := by
  induction tags generalizing off img with
  | nil => exact ⟨rfl, fun start len hdata ↦ .inl hdata⟩
  | cons t tags ih =>
    obtain ⟨hdrop, hroom, hrest⟩ := drop_of_cons hoff hstop h
    obtain ⟨hpayload, hinside⟩ := ih (img.see t.magic (off + img3TagHeader) t.data) hroom hrest
    have htotal : t.total = img3TagHeader + t.data.length + t.pad.length := rfl
    have hbody : (buf.drop (off + img3TagHeader)).take t.data.length = t.data := by
      rw [← drop_drop, hdrop, drop_append_of_le_length (by rw [t.length_encode]; omega),
        take_append_of_le_length (by rw [length_drop, t.length_encode]; omega),
        t.words.2.2.2]
    rw [seeAll_cons, hpayload, dataOf_cons]
    refine ⟨?_, fun start len hdata ↦ ?_⟩
    · rw [see_data]
      split
      · rw [Option.map_some, hbody, getLast?_cons]
        cases (dataOf tagData tags).getLast? <;> rfl
      · rfl
    · have hcases := hinside start len hdata
      rw [see_data] at hcases
      split at hcases
      · rcases hcases with hcases | hcases
        · obtain ⟨rfl, rfl⟩ := Prod.mk.inj (Option.some.inj hcases)
          right
          omega
        · exact .inr hcases
      · exact hcases

theorem img3Parse_container (h : Container buf tags) :
    img3Parse buf = .ok (seeAll tags img3HeaderSize (img3Header buf)) := by
  rw [img3Parse, if_neg (Nat.not_lt.2 h.header), if_neg (fun hne ↦ hne h.magic)]
  dsimp only [img3Header]
  rw [if_neg (not_or.2 ⟨Nat.not_lt.2 h.least, Nat.not_lt.2 h.fits⟩), if_neg (Nat.not_lt.2 h.data)]
  exact tagLoop_encode h.least h.fits h.tags

theorem container_of_img3Parse (h : img3Parse buf = .ok img) : ∃ tags, Container buf tags := by
  rw [img3Parse] at h
  dsimp only [img3Header] at h
  split_ifs at h with hheader hmagic hsizes hdata
  obtain ⟨hleast, hfits⟩ := not_or.1 hsizes
  obtain ⟨tags, htags⟩ := tags_of_tagLoop (Nat.le_of_not_lt hleast) (Nat.le_of_not_lt hfits) h
  exact ⟨tags, Nat.le_of_not_lt hheader, not_not.1 hmagic, Nat.le_of_not_lt hleast,
    Nat.le_of_not_lt hfits, Nat.le_of_not_lt hdata, htags⟩

theorem describes_of_container (h : Container buf tags) (hparse : img3Parse buf = .ok img) :
    Describes buf tags img := by
  obtain rfl : seeAll tags img3HeaderSize (img3Header buf) = img :=
    Except.ok.inj ((img3Parse_container h).symm.trans hparse)
  obtain ⟨hpayload, hinside⟩ := data_seeAll (img3Header buf) h.least h.fits h.tags
  refine ⟨hpayload.trans (by simp [img3Header]), fun start len hdata ↦ ?_, ?_, ?_⟩
  · exact (hinside start len hdata).resolve_left (by simp [img3Header])
  · have hkbag := foldl_kbag (dataOf tagKbag tags) (k := (img3Header buf).kbag) rfl
    rw [← kbag_seeAll tags img3HeaderSize] at hkbag
    cases hfind : (dataOf tagKbag tags).find? fun d ↦ Understood d with
    | some d =>
      rw [hfind] at hkbag
      exact hkbag
    | none =>
      rw [hfind] at hkbag
      exact ⟨hkbag.1, hkbag.2.trans (by simp [img3Header])⟩
  · rw [vers_seeAll]
    exact foldl_seeVers (dataOf tagVers tags) (List.replicate 64 0)

theorem container_img3Encode {dataSize : ℕ} (signedSize ident : ℕ) (rest : List Octet)
    (hfits : img3HeaderSize + (tags.flatMap Img3Tag.encode).length < 2 ^ 32)
    (hdata : dataSize ≤ (tags.flatMap Img3Tag.encode).length) :
    Container (img3Encode dataSize signedSize ident tags ++ rest) tags := by
  generalize hbody : tags.flatMap Img3Tag.encode = body at *
  have hfull : rd32 (img3Encode dataSize signedSize ident tags ++ rest) 4 =
      img3HeaderSize + body.length := by
    have h := rd32_put (put 4 img3Magic)
      (put 4 dataSize ++ put 4 signedSize ++ put 4 ident ++ body ++ rest) (length_put 4 _) hfits
    simpa only [img3Encode, hbody, append_assoc] using h
  have hdataSize : rd32 (img3Encode dataSize signedSize ident tags ++ rest) 8 = dataSize := by
    have h := rd32_put (put 4 img3Magic ++ put 4 (img3HeaderSize + body.length))
      (put 4 signedSize ++ put 4 ident ++ body ++ rest)
      (by rw [length_append, length_put, length_put]) (show dataSize < 2 ^ 32 by omega)
    simpa only [img3Encode, hbody, append_assoc] using h
  have hmagic : rd32 (img3Encode dataSize signedSize ident tags ++ rest) 0 = img3Magic := by
    have h := rd32_put [] (put 4 (img3HeaderSize + body.length) ++ put 4 dataSize ++
      put 4 signedSize ++ put 4 ident ++ body ++ rest) length_nil
      (show img3Magic < 2 ^ 32 by decide)
    simpa only [img3Encode, hbody, nil_append, append_assoc] using h
  have hlength : (img3Encode dataSize signedSize ident tags).length =
      img3HeaderSize + body.length := by
    simp only [img3Encode, hbody, length_append, length_put, img3HeaderSize]
  refine ⟨?_, hmagic, ?_, ?_, ?_, ?_⟩
  · rw [length_append, hlength]
    omega
  · rw [hfull]
    omega
  · rw [hfull, length_append, hlength]
    omega
  · rw [hfull, hdataSize]
    omega
  · rw [hfull, ← hlength, take_left' rfl, img3Encode, hbody]
    exact drop_left' (by simp only [length_append, length_put, img3HeaderSize])

end S5LBox.Firmware
