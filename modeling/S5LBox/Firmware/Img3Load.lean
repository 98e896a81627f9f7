import S5LBox.Firmware.Img3Tags

/-!
# Loading a container

A load that is refused leaves the machine as it was. One that succeeds changes guest memory where
the payload goes and nowhere else, and what it puts there is the payload, decrypted block by block
when there is a key bag; a key bag that was not understood is never taken for none.
-/

namespace S5LBox.Firmware

open List LittleEndian Span BlockCipher

/-- A payload in the clear: its whole blocks decrypted, and what is left of it as it is. -/
def clear (ctx : AesCtx) (iv : AesBlock) (payload : List Octet) : List Octet :=
  octetsOf (chainDecrypt (aesDecryptBlock ctx) xorBlock iv
    (blocksAt (overwrite (fun _ ↦ 0) 0 payload) 0 (payload.length / 16))) ++
    payload.drop (16 * (payload.length / 16))

/-- What a call of the loader has done, when it ends with the core `cpu`. -/
def Loaded (m : Machine) (buf : List Octet) (key : Option (List Octet)) (iv : Option AesBlock)
    (loadAddr : ℕ) (cpu : Arm.Core) (r : FwStatus × Machine × Option FwImage) : Prop :=
  (r.1 ≠ .ok → r.2.1 = m) ∧
  (r.1 = .ok → ∃ img start len ram, img3Parse buf = .ok img ∧ img.data = some (start, len) ∧
    r.2.1 = { m with ram := ram, cpu := cpu } ∧
    m.ramBase ≤ loadAddr ∧ loadAddr - m.ramBase + len ≤ m.ramSize ∧
    (∀ p, ¬(loadAddr - m.ramBase ≤ p ∧ p < loadAddr - m.ramBase + len) → ram p = m.ram p) ∧
    img.kbag.malformed = false ∧
    (img.kbag.present = false → window ram (loadAddr - m.ramBase) len = (buf.drop start).take len) ∧
    (img.kbag.present = true → ∃ bits vector ctx, key = some bits ∧ iv = some vector ∧
      aesInit bits img.kbag.keyBits = some ctx ∧
        window ram (loadAddr - m.ramBase) len = clear ctx vector ((buf.drop start).take len)))

theorem length_clear (ctx : AesCtx) (iv : AesBlock) (payload : List Octet) :
    (clear ctx iv payload).length = payload.length := by
  rw [clear, length_append, length_octetsOf, length_chainDecrypt, length_blocksAt, length_drop]
  omega

theorem blocksAt_congr {mem other : Store} {p q n : ℕ}
    (h : ∀ i < 16 * n, mem (p + i) = other (q + i)) : blocksAt mem p n = blocksAt other q n := by
  refine map_congr_left fun k hk ↦ Vector.ext fun i hi ↦ ?_
  have hlt := mem_range.1 hk
  rw [getElem_readBlock, getElem_readBlock, Nat.add_assoc, Nat.add_assoc, h _ (by omega)]

theorem decryptWhole_eq {ctx : AesCtx} {iv : AesBlock} {mem : Store} {src dst len : ℕ}
    (hapart : dst + len ≤ src) : (if len / aesBlockSize * aesBlockSize ≠ 0 then
        aesCbcDecrypt ctx iv src dst (len / aesBlockSize * aesBlockSize) mem
      else some mem) =
      some (overwrite mem dst (octetsOf (chainDecrypt (aesDecryptBlock ctx) xorBlock iv
        (blocksAt mem src (len / 16))))) := by
  have hwhole : len / aesBlockSize * aesBlockSize = 16 * (len / 16) := Nat.mul_comm _ _
  have hapart' : Apart src dst (16 * (len / 16)) := by
    unfold Apart
    omega
  split
  case isTrue => rw [hwhole, aesCbcDecrypt_eq hapart']
  case isFalse hzero =>
    have hnone : len / 16 = 0 := by omega
    rw [hnone]
    exact congrArg some (overwrite_nil mem dst).symm

theorem img3DecryptDataIv_eq {img : Img3} {key : Option (List Octet)} {keyBits : ℕ}
    {iv : Option AesBlock} {src dst cap start len written : ℕ} {mem after : Store}
    {payload : List Octet} (hdata : img.data = some (start, len))
    (hpayload : payload = window mem (src + start) len) (hapart : dst + len ≤ src)
    (h : img3DecryptDataIv img key keyBits iv src dst cap mem = some (after, written)) :
    ∃ bits vector ctx, key = some bits ∧ iv = some vector ∧
      aesInit bits img.kbag.keyBits = some ctx ∧ written = len ∧
        after = overwrite mem dst (clear ctx vector payload) := by
  have hlength : payload.length = len := by rw [hpayload, length_window]
  have hblocks : blocksAt mem (src + start) (len / 16) =
      blocksAt (overwrite (fun _ ↦ 0) 0 payload) 0 (len / 16) := by
    refine blocksAt_congr fun i hi ↦ ?_
    have hlt : i < payload.length := by omega
    rw [overwrite_at hlt]
    simp only [hpayload, window, getElem_map, getElem_range]
  unfold img3DecryptDataIv at h
  rw [hdata] at h
  cases key with
  | none => cases h
  | some bits =>
    cases iv with
    | none => cases h
    | some vector =>
      dsimp only at h
      split at h
      case isTrue => cases h
      case isFalse hchecks =>
        have hbits : keyBits = img.kbag.keyBits := by
          by_contra hne
          exact hchecks (by simp [hne])
        cases hinit : aesInit bits keyBits with
        | none =>
          rw [hinit] at h
          cases h
        | some ctx =>
          rw [hinit] at h
          dsimp only at h
          rw [decryptWhole_eq (by omega)] at h
          dsimp only [aesBlockSize] at h
          rw [Nat.mul_comm] at h
          obtain ⟨rfl, rfl⟩ := Prod.mk.inj (Option.some.inj h)
          refine ⟨bits, vector, ctx, rfl, rfl, hbits ▸ hinit, rfl, ?_⟩
          -- the octets past the last whole block have not been written over
          rw [window_overwrite_of_disjoint
              (by rw [length_octetsOf, length_chainDecrypt, length_blocksAt]; omega),
            ← drop_window mem (src + start) _ len (by omega), ← hpayload, clear,
            overwrite_append, length_octetsOf, length_chainDecrypt, length_blocksAt, hlength,
            hblocks]

variable {m : Machine} {buf : List Octet} {key : Option (List Octet)} {iv : Option AesBlock}
  {keyBits loadAddr : ℕ}

/-- What the check of the room says about the machine with something laid at the load address. -/
theorem stored_overwrite (mem : Store) (off : ℕ) (data : List Octet)
    (hmem : ∀ p < m.ramSize, mem p = m.ram p) (hroom : off + data.length ≤ m.ramSize) :
    m.stored (overwrite mem off data) = { m with ram := overwrite m.ram off data } := by
  refine congrArg (fun ram ↦ { m with ram := ram }) (funext fun p ↦ ?_)
  split
  case isTrue hp => rw [overwrite_apply, overwrite_apply, hmem p hp]
  case isFalse hp => exact (overwrite_of_not_mem (by omega)).symm

theorem window_host {start len : ℕ} (h : start + len ≤ buf.length) :
    window (m.host buf) (m.ramSize + start) len = (buf.drop start).take len := by
  have hwhole : window (m.host buf) m.ramSize buf.length = buf := window_overwrite _ _ _
  calc window (m.host buf) (m.ramSize + start) len
      = ((window (m.host buf) m.ramSize buf.length).drop start).take len := by
        rw [drop_window _ _ _ _ (by omega), take_window _ _ _ _ (by omega)]
    _ = (buf.drop start).take len := by rw [hwhole]

theorem loaded_refused {cpu : Arm.Core} {st : FwStatus} (hst : st ≠ .ok) :
    Loaded m buf key iv loadAddr cpu (st, m, none) :=
  ⟨fun _ ↦ rfl, fun h ↦ absurd h hst⟩

theorem fwLoadImg3Common_loaded :
    Loaded m buf key iv loadAddr m.cpu (fwLoadImg3Common m buf key keyBits iv loadAddr) := by
  unfold fwLoadImg3Common
  cases hparse : img3Parse buf with
  | error => exact loaded_refused (show FwStatus.parse ≠ .ok by decide)
  | ok img =>
    dsimp only
    cases hdata : img.data with
    | none => exact loaded_refused (show FwStatus.noPayload ≠ .ok by decide)
    | some place =>
      obtain ⟨start, len⟩ := place
      obtain ⟨tags, htags⟩ := container_of_img3Parse hparse
      have hinside := (describes_of_container htags hparse).inside start len hdata
      have hfits : start + len ≤ buf.length := hinside.trans htags.fits
      have hlength : ((buf.drop start).take len).length = len := by
        rw [length_take, length_drop]
        omega
      dsimp only
      split_ifs with hzero hbase hroom hmalformed hpresent hkey hiv
      · exact loaded_refused (by decide)
      · exact loaded_refused (by decide)
      · exact loaded_refused (by decide)
      · exact loaded_refused (by decide)
      · exact loaded_refused (by decide)
      · exact loaded_refused (by decide)
      · cases hdecrypt : img3DecryptDataIv img key keyBits iv m.ramSize (loadAddr - m.ramBase)
          (m.ramSize - (loadAddr - m.ramBase)) (m.host buf) with
        | none => exact loaded_refused (by decide)
        | some result =>
          obtain ⟨mem, written⟩ := result
          obtain ⟨bits, vector, ctx, rfl, rfl, hinit, rfl, rfl⟩ :=
            img3DecryptDataIv_eq hdata (window_host hfits).symm (by omega) hdecrypt
          have hclear : (clear ctx vector ((buf.drop start).take written)).length = written :=
            (length_clear ctx vector _).trans hlength
          have hstored := stored_overwrite (m.host buf) (loadAddr - m.ramBase)
            (clear ctx vector ((buf.drop start).take written))
            (fun p hp ↦ overwrite_of_lt hp) (by rw [hclear]; omega)
          dsimp only
          rw [if_neg (not_not.2 rfl)]
          refine ⟨fun hne ↦ absurd rfl hne, fun _ ↦ ⟨img, start, written, _, hparse, hdata, hstored,
            Nat.le_of_not_lt hbase, Nat.le_of_not_lt hroom, fun p hp ↦ ?_,
            eq_false_of_ne_true hmalformed, fun hnone ↦ absurd hpresent (by rw [hnone]; decide),
            fun _ ↦ ⟨bits, vector, ctx, rfl, rfl, hinit, ?_⟩⟩⟩
          · exact overwrite_of_not_mem (by rw [hclear]; exact hp)
          · nth_rewrite 2 [← hclear]
            exact window_overwrite _ _ _
      · have hstored := stored_overwrite m.ram (loadAddr - m.ramBase)
          ((buf.drop start).take len) (fun _ _ ↦ rfl) (by rw [hlength]; omega)
        refine ⟨fun hne ↦ absurd rfl hne, fun _ ↦ ⟨img, start, len, _, hparse, hdata, hstored,
          Nat.le_of_not_lt hbase, Nat.le_of_not_lt hroom, fun p hp ↦ ?_,
          eq_false_of_ne_true hmalformed, fun _ ↦ ?_, fun hkbag ↦ absurd hkbag hpresent⟩⟩
        · exact overwrite_of_not_mem (by rw [hlength]; exact hp)
        · nth_rewrite 2 [← hlength]
          exact window_overwrite _ _ _

theorem loaded_entered {r : FwStatus × Machine × Option FwImage}
    (h : Loaded m buf key iv loadAddr m.cpu r) :
    Loaded m buf key iv loadAddr (m.entered loadAddr).cpu (fwEnter r loadAddr) := by
  unfold fwEnter
  split
  case isTrue hok =>
    refine ⟨fun hne ↦ absurd rfl hne, fun _ ↦ ?_⟩
    obtain ⟨img, start, len, ram, hparse, hdata, hm, hrest⟩ := h.2 hok
    refine ⟨img, start, len, ram, hparse, hdata, ?_, hrest⟩
    rw [hm]
    rfl
  case isFalse hok => exact ⟨h.1, fun hr ↦ absurd hr hok⟩

/-- The parser accepts the containers and describes their tags; the loader leaves the machine alone
unless it succeeds, and puts nothing but the payload, in the clear, at the load address. -/
theorem img3_load (buf : List Octet) :
    ((∃ img, img3Parse buf = .ok img) ↔ ∃ tags, Container buf tags) ∧
    (∀ tags, Container buf tags → ∃ img, img3Parse buf = .ok img ∧ Describes buf tags img) ∧
    (∀ (tags : List Img3Tag) (dataSize signedSize ident : ℕ) (rest : List Octet),
      img3HeaderSize + (tags.flatMap Img3Tag.encode).length < 2 ^ 32 →
        dataSize ≤ (tags.flatMap Img3Tag.encode).length →
          Container (img3Encode dataSize signedSize ident tags ++ rest) tags) ∧
    ∀ (m : Machine) (key : Option (List Octet)) (keyBits : ℕ) (iv : AesBlock) (loadAddr : ℕ),
      Loaded m buf key none loadAddr m.cpu (fwLoadImg3 m buf key keyBits loadAddr) ∧
      Loaded m buf key (some iv) loadAddr m.cpu
        (fwLoadImg3Iv m buf key keyBits (some iv) loadAddr) ∧
      Loaded m buf key none loadAddr (m.entered loadAddr).cpu
        (fwBootImg3 m buf key keyBits loadAddr) ∧
      Loaded m buf key (some iv) loadAddr (m.entered loadAddr).cpu
        (fwBootImg3Iv m buf key keyBits (some iv) loadAddr) := by
  refine ⟨⟨fun ⟨img, h⟩ ↦ container_of_img3Parse h, fun ⟨tags, h⟩ ↦ ⟨_, img3Parse_container h⟩⟩,
    fun tags h ↦ ⟨_, img3Parse_container h, describes_of_container h (img3Parse_container h)⟩,
    fun tags dataSize signedSize ident rest hfits hdata ↦ container_img3Encode _ _ rest hfits hdata,
    fun m key keyBits iv loadAddr ↦ ⟨fwLoadImg3Common_loaded, fwLoadImg3Common_loaded,
      loaded_entered fwLoadImg3Common_loaded, loaded_entered fwLoadImg3Common_loaded⟩⟩

/-- A key bag that is understood, and a payload of one octet. -/
def shortTags : List Img3Tag :=
  [⟨tagKbag, put 4 1 ++ put 4 128 ++ List.replicate 32 0, [], by decide, by decide⟩,
    ⟨tagData, [0x5a], [], by decide, by decide⟩]

def shortImage : List Octet := img3Encode 65 0 0x69626f74 shortTags

def blankMachine : Machine := ⟨fun _ ↦ 0, 0, 16, Arm.coreReset .v6Arm1176⟩

theorem container_shortImage : Container shortImage shortTags := by
  have h := container_img3Encode 0 0x69626f74 [] (show img3HeaderSize +
    (shortTags.flatMap Img3Tag.encode).length < 2 ^ 32 by decide) (show 65 ≤ _ by decide)
  rwa [append_nil] at h

/-- Whatever the key and the vector, the octet of the payload is in memory as it is in the image. -/
theorem fwLoadImg3Iv_shortImage :
    ∃ img, img3Parse shortImage = .ok img ∧ img.kbag.present = true ∧ img.data = some (84, 1) ∧
      ∀ (key : List Octet) (iv : AesBlock), ∃ m info,
        fwLoadImg3Iv blankMachine shortImage (some key) 128 (some iv) 0 = (.ok, m, some info) ∧
          window m.ram 0 1 = (shortImage.drop 84).take 1 := by
  have hparse := img3Parse_container container_shortImage
  have hkbag : (seeAll shortTags img3HeaderSize (img3Header shortImage)).kbag =
      ⟨1, 128, List.replicate 16 0, List.replicate 16 0, true, false⟩ := by decide
  have hdata : (seeAll shortTags img3HeaderSize (img3Header shortImage)).data = some (84, 1) := by
    decide
  have hdecrypt (key : List Octet) (iv : AesBlock) (mem : Store) :
      img3DecryptDataIv (seeAll shortTags img3HeaderSize (img3Header shortImage)) (some key) 128
        (some iv) 16 0 16 mem = some (overwrite mem 0 (window mem 100 1), 1) := by
    unfold img3DecryptDataIv
    rw [hdata]
    dsimp only
    rw [hkbag]
    rfl
  refine ⟨_, hparse, by rw [hkbag], hdata, fun key iv ↦ ?_⟩
  have hload : fwLoadImg3Iv blankMachine shortImage (some key) 128 (some iv) 0 =
      (.ok, blankMachine.stored (overwrite (blankMachine.host shortImage) 0
        (window (blankMachine.host shortImage) 100 1)),
        some ((seeAll shortTags img3HeaderSize (img3Header shortImage)).image 0 1)) := by
    rw [fwLoadImg3Iv, fwLoadImg3Common, hparse]
    dsimp only
    rw [hdata]
    dsimp only
    rw [hkbag, show blankMachine.ramSize = 16 from rfl, show blankMachine.ramBase = 0 from rfl,
      hdecrypt]
    rfl
  exact ⟨_, _, hload, rfl⟩

end S5LBox.Firmware
