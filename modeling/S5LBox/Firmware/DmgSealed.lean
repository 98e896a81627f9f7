import S5LBox.Firmware.AesChain
import S5LBox.Firmware.DmgReader
import S5LBox.Firmware.Sha1

/-!
# Reading what was encrypted

The reader of the wrapper with the cipher and the digest of the sources. A file whose blocks are
an image, each encrypted under the address of its own block, reads as that image at every place.
-/

namespace S5LBox.Firmware

open List Span BlockCipher

/-- A pass of the chaining mode over one buffer. -/
def inPlace (pass : AesCtx → AesBlock → ℕ → ℕ → ℕ → Store → Option Store)
    (key iv data : List Octet) : List Octet :=
  match aesInit key 128 with
  | none => data
  | some ctx =>
    match pass ctx (Vector.ofFn fun i ↦ octetAt iv i) 0 0 data.length
      (overwrite (fun _ ↦ 0) 0 data) with
    | none => data
    | some mem => window mem 0 data.length

theorem length_inPlace (pass : AesCtx → AesBlock → ℕ → ℕ → ℕ → Store → Option Store)
    (key iv data : List Octet) : (inPlace pass key iv data).length = data.length := by
  unfold inPlace
  split
  · rfl
  split
  · rfl
  · exact length_window ..

/-- `vmfw_hmac_sha1` and `aes_cbc_decrypt`, as `vmfw_dmg_reader_pread` calls them. -/
def imageCipher : Cipher where
  hmacSha1 key text := (vmfwHmacSha1 (.octets key) (.octets text) []).2
  cbcDecrypt := inPlace aesCbcDecrypt
  length_cbcDecrypt := length_inPlace aesCbcDecrypt

/-- What a writer of the wrapper puts into the place of a block. -/
def DmgReader.sealBlock (r : DmgReader) (index : ℕ) (block : List Octet) : List Octet :=
  inPlace aesCbcEncrypt r.aesKey
    ((imageCipher.hmacSha1 r.hmacKey (putBe32 (BitVec.ofNat 32 index))).take 16) block

theorem inPlace_inPlace (key iv data : List Octet) :
    inPlace aesCbcDecrypt key iv (inPlace aesCbcEncrypt key iv data) = data := by
  obtain ⟨ctx, hctx⟩ : ∃ ctx, aesInit key 128 = some ctx := ⟨_, rfl⟩
  rw [inPlace, length_inPlace, inPlace, hctx]
  dsimp only
  by_cases hwhole : data.length % aesBlockSize = 0
  case neg =>
    rw [aesCbcEncrypt, if_pos hwhole]
    dsimp only
    rw [aesCbcDecrypt, if_pos hwhole]
  obtain ⟨n, hn⟩ : 16 ∣ data.length := Nat.dvd_of_mod_eq_zero hwhole
  have hdata : octetsOf (blocksAt (overwrite (fun _ ↦ 0) 0 data) 0 n) = data := by
    rw [octetsOf_blocksAt, ← hn, window_overwrite]
  rw [hn, aesCbcEncrypt_eq (.inl rfl)]
  dsimp only
  rw [window_of_length (by rw [length_chainEncrypt, length_blocksAt]), aesCbcDecrypt_eq (.inl rfl)]
  dsimp only
  rw [window_of_length (by rw [length_chainDecrypt, length_blocksAt]),
    blocksAt_of_length (by rw [length_chainEncrypt, length_blocksAt]),
    chainDecrypt_chainEncrypt (aesDecryptBlock_aesEncryptBlock ctx) xorBlock_xorBlock, hdata]

theorem flatMap_slices (image : List Octet) (width n : ℕ) :
    ((List.range n).flatMap fun i ↦ (image.drop (i * width)).take width) =
      image.take (n * width) := by
  induction n with
  | zero => rw [Nat.zero_mul]; rfl
  | succ n ih =>
    rw [range_succ, flatMap_append, flatMap_singleton, ih, Nat.succ_mul, take_add]

variable {ω : Type} {ch : Channel ω} {r : DmgReader} {file image : List Octet}

/-- The file holds an image: every block of it is there, encrypted. -/
structure DmgReader.Seals (r : DmgReader) (file image : List Octet) : Prop where
  reaches : ∀ index, index * r.blockSize < r.plainSize → r.Reaches index
  sealed : ∀ index, index * r.blockSize < r.plainSize → r.ciphertext file index =
    r.sealBlock index ((image.drop (index * r.blockSize)).take r.blockSize)

theorem DmgReader.Seals.plaintext (h : r.Seals file image) (hpos : 0 < r.blockSize) :
    r.plaintext imageCipher file = image.take r.plainSize := by
  have hblocks : ((List.range ((r.plainSize + r.blockSize - 1) / r.blockSize)).flatMap fun index ↦
      r.decryptBlock imageCipher index (r.ciphertext file index)) =
        (List.range ((r.plainSize + r.blockSize - 1) / r.blockSize)).flatMap fun index ↦
          (image.drop (index * r.blockSize)).take r.blockSize := by
    refine flatMap_congr fun index hindex ↦ ?_
    have hle := (Nat.le_div_iff_mul_le hpos).1 (Nat.succ_le_of_lt (mem_range.1 hindex))
    rw [Nat.succ_mul] at hle
    rw [h.sealed index (by omega), DmgReader.decryptBlock, DmgReader.sealBlock]
    exact inPlace_inPlace _ _ _
  rw [DmgReader.plaintext, hblocks, flatMap_slices, take_take, Nat.min_eq_left]
  have hcover := Nat.lt_mul_div_succ (r.plainSize + r.blockSize - 1) hpos
  rw [Nat.mul_succ, Nat.mul_comm] at hcover
  omega

/-- A file that an image was encrypted into, block by block, reads as that image: every read within
the logical size gives the octets of the image at its place. -/
theorem vmfwDmgReaderPread_sealed {key : Option (List Octet)} {w w' : ω} {offset len : ℕ}
    (hserves : ch.Serves file) (hopen : vmfwDmgReaderOpen ch file.length key w = (.ok r, w'))
    (hencrypted : r.encrypted = true) (hbuffer : r.blockSize ≤ dmgBlockBuffer)
    (hseals : r.Seals file image) (hrange : offset + len ≤ r.plainSize) (u : ω) :
    (vmfwDmgReaderPread ch imageCipher r offset len u).1 = .ok ((image.drop offset).take len) := by
  have hopened := opened_of_open hopen hencrypted
  rw [vmfwDmgReaderPread_outcome hserves hopened hencrypted hrange, DmgReader.outcome,
    if_neg fun h ↦ Nat.not_le.2 h.2 hbuffer, if_neg, hseals.plaintext hopened.blockSize_pos, drop_take,
    take_take, Nat.min_eq_left (by omega)]
  rintro ⟨hlen, hout⟩
  refine hout (hseals.reaches _ ?_)
  have hle := Nat.div_mul_le_self (offset + len - 1) r.blockSize
  omega

/-- A file of one block. -/
def sealedFile : List Octet := smallImage 0x10 (smallReader.sealBlock 0 (List.replicate 16 7))

theorem vmfwDmgReaderPread_sealed_small :
    (vmfwDmgReaderPread (fileChannel sealedFile) imageCipher smallReader 14 2 ()).1 =
      .ok [7, 7] := by
  have hopen : vmfwDmgReaderOpen (fileChannel sealedFile) sealedFile.length
      (some (List.replicate 36 1)) () = (.ok smallReader, ()) := rfl
  have hfirst {index : ℕ} (h : index * smallReader.blockSize < smallReader.plainSize) :
      index = 0 := by
    change index * 16 < 16 at h
    omega
  have hseals : smallReader.Seals sealedFile (List.replicate 16 7) :=
    { reaches := fun index h ↦ by rw [hfirst h]; decide
      sealed := fun index h ↦ by rw [hfirst h]; rfl }
  exact vmfwDmgReaderPread_sealed (fun _ _ _ _ ↦ rfl) hopen rfl (by decide) hseals (by decide) ()

end S5LBox.Firmware
