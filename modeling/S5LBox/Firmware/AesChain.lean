import S5LBox.Firmware.Aes

/-!
# Chained blocks in buffers

What the chaining mode leaves in memory, when the two buffers of a call are the same or apart: the
chain over the blocks that were there. Decryption in pieces goes on with the last block of the
ciphertext before it.
-/

namespace S5LBox.Firmware

open List Span BlockCipher

def octetsOf (blocks : List AesBlock) : List Octet := blocks.flatMap Vector.toList

def blocksAt (mem : Store) (p n : ℕ) : List AesBlock :=
  (List.range n).map fun k ↦ readBlock mem (p + 16 * k)

/-- The buffers of a call, the same one or two that do not overlap. -/
def Apart (inp out len : ℕ) : Prop := inp = out ∨ inp + len ≤ out ∨ out + len ≤ inp

theorem octetsOf_cons (b : AesBlock) (blocks : List AesBlock) :
    octetsOf (b :: blocks) = b.toList ++ octetsOf blocks := flatMap_cons

theorem octetsOf_append (first second : List AesBlock) :
    octetsOf (first ++ second) = octetsOf first ++ octetsOf second := flatMap_append

theorem length_octetsOf (blocks : List AesBlock) :
    (octetsOf blocks).length = 16 * blocks.length := by
  induction blocks with
  | nil => rfl
  | cons b blocks ih =>
    rw [octetsOf_cons, length_append, ih, Vector.length_toList, length_cons]
    omega

theorem getElem_readBlock (mem : Store) (p i : ℕ) (hi : i < 16) :
    (readBlock mem p)[i] = mem (p + i) := by
  rw [readBlock, Vector.getElem_ofFn]

theorem toList_readBlock (mem : Store) (p : ℕ) : (readBlock mem p).toList = window mem p 16 := by
  apply ext_getElem
  · rw [Vector.length_toList, length_window]
  · intro i hi hi'
    rw [length_window] at hi'
    simp only [Vector.getElem_toList, getElem_readBlock, window, getElem_map, getElem_range]

theorem readBlock_congr {mem other : Store} {p : ℕ}
    (h : ∀ i < 16, mem (p + i) = other (p + i)) : readBlock mem p = readBlock other p := by
  apply Vector.ext
  intro i hi
  rw [getElem_readBlock, getElem_readBlock, h i hi]

theorem readBlock_overwrite_of_disjoint {mem : Store} {p q : ℕ} {data : List Octet}
    (h : p + 16 ≤ q ∨ q + data.length ≤ p) :
    readBlock (overwrite mem q data) p = readBlock mem p := by
  apply readBlock_congr
  intro i hi
  apply overwrite_of_not_mem
  omega

theorem readBlock_writeBlock (mem : Store) (p : ℕ) (b : AesBlock) :
    readBlock (writeBlock mem p b) p = b := by
  apply Vector.ext
  intro i hi
  rw [getElem_readBlock, writeBlock, overwrite_at (by rw [Vector.length_toList]; exact hi),
    Vector.getElem_toList]

theorem blocksAt_add (mem : Store) (p m n : ℕ) :
    blocksAt mem p (m + n) = blocksAt mem p m ++ blocksAt mem (p + 16 * m) n := by
  unfold blocksAt
  rw [range_add, map_append, map_map]
  refine congrArg _ (map_congr_left fun k _ ↦ ?_)
  rw [Function.comp_apply, Nat.mul_add, Nat.add_assoc]

theorem blocksAt_succ (mem : Store) (p n : ℕ) :
    blocksAt mem p (n + 1) = readBlock mem p :: blocksAt mem (p + 16) n := by
  rw [Nat.add_comm, blocksAt_add]
  rfl

theorem length_blocksAt (mem : Store) (p n : ℕ) : (blocksAt mem p n).length = n := by
  rw [blocksAt, length_map, length_range]

theorem octetsOf_blocksAt (mem : Store) (p n : ℕ) :
    octetsOf (blocksAt mem p n) = window mem p (16 * n) := by
  induction n generalizing p with
  | zero => rfl
  | succ n ih =>
    rw [blocksAt_succ, octetsOf_cons, ih, toList_readBlock, Nat.mul_succ, Nat.add_comm (16 * n),
      window_append]

theorem blocksAt_overwrite_of_disjoint {mem : Store} {p q n : ℕ} {data : List Octet}
    (h : p + 16 * n ≤ q ∨ q + data.length ≤ p) :
    blocksAt (overwrite mem q data) p n = blocksAt mem p n := by
  refine map_congr_left fun k hk ↦ readBlock_overwrite_of_disjoint ?_
  have hlt := mem_range.1 hk
  omega

theorem blocksAt_overwrite (mem : Store) (p : ℕ) (blocks : List AesBlock) :
    blocksAt (overwrite mem p (octetsOf blocks)) p blocks.length = blocks := by
  induction blocks generalizing mem p with
  | nil => rfl
  | cons b blocks ih =>
    rw [octetsOf_cons, overwrite_append, Vector.length_toList, length_cons,
      blocksAt_succ, ih, readBlock_overwrite_of_disjoint (.inl le_rfl)]
    exact congrArg (· :: blocks) (readBlock_writeBlock mem p b)

variable {ctx : AesCtx} {p q n : ℕ}

theorem blocksAt_writeBlock {mem : Store} {b : AesBlock} (h : Apart p q (16 * (n + 1))) :
    blocksAt (writeBlock mem q b) (p + 16) n = blocksAt mem (p + 16) n := by
  apply blocksAt_overwrite_of_disjoint
  rw [Vector.length_toList]
  unfold Apart at h
  omega

theorem Apart.tail (h : Apart p q (16 * (n + 1))) : Apart (p + 16) (q + 16) (16 * n) := by
  unfold Apart at h ⊢
  omega

theorem cbcDecryptLoop_eq {inp out off : ℕ} {prev : AesBlock} {mem : Store}
    (h : Apart (inp + off) (out + off) (16 * n)) : cbcDecryptLoop ctx inp out n off prev mem =
      overwrite mem (out + off) (octetsOf
        (chainDecrypt (aesDecryptBlock ctx) xorBlock prev (blocksAt mem (inp + off) n))) := by
  induction n generalizing off prev mem with
  | zero => exact (overwrite_nil mem _).symm
  | succ n ih =>
    have htail : Apart (inp + (off + aesBlockSize)) (out + (off + aesBlockSize)) (16 * n) := h.tail
    have hkeep (b : AesBlock) : blocksAt (writeBlock mem (out + off) b)
        (inp + (off + aesBlockSize)) n = blocksAt mem (inp + off + 16) n := blocksAt_writeBlock h
    rw [cbcDecryptLoop, ih htail, hkeep, blocksAt_succ, chainDecrypt, octetsOf_cons,
      overwrite_append, Vector.length_toList]
    rfl

theorem cbcEncryptLoop_eq {inp out off : ℕ} {prev : AesBlock} {mem : Store}
    (h : Apart (inp + off) (out + off) (16 * n)) : cbcEncryptLoop ctx inp out n off prev mem =
      overwrite mem (out + off) (octetsOf
        (chainEncrypt (aesEncryptBlock ctx) xorBlock prev (blocksAt mem (inp + off) n))) := by
  induction n generalizing off prev mem with
  | zero => exact (overwrite_nil mem _).symm
  | succ n ih =>
    have htail : Apart (inp + (off + aesBlockSize)) (out + (off + aesBlockSize)) (16 * n) := h.tail
    have hkeep (b : AesBlock) : blocksAt (writeBlock mem (out + off) b)
        (inp + (off + aesBlockSize)) n = blocksAt mem (inp + off + 16) n := blocksAt_writeBlock h
    rw [cbcEncryptLoop, ih htail, hkeep, blocksAt_succ, chainEncrypt, octetsOf_cons,
      overwrite_append, Vector.length_toList]
    rfl

variable {iv : AesBlock} {mem : Store}

theorem aesCbcDecrypt_eq (h : Apart p q (16 * n)) : aesCbcDecrypt ctx iv p q (16 * n) mem =
      some (overwrite mem q (octetsOf
        (chainDecrypt (aesDecryptBlock ctx) xorBlock iv (blocksAt mem p n)))) := by
  have h' : Apart (p + 0) (q + 0) (16 * n) := h
  rw [aesCbcDecrypt, aesBlockSize, if_neg (by omega), Nat.mul_div_cancel_left n (by decide),
    cbcDecryptLoop_eq h']
  rfl

theorem aesCbcEncrypt_eq (h : Apart p q (16 * n)) : aesCbcEncrypt ctx iv p q (16 * n) mem =
      some (overwrite mem q (octetsOf
        (chainEncrypt (aesEncryptBlock ctx) xorBlock iv (blocksAt mem p n)))) := by
  have h' : Apart (p + 0) (q + 0) (16 * n) := h
  rw [aesCbcEncrypt, aesBlockSize, if_neg (by omega), Nat.mul_div_cancel_left n (by decide),
    cbcEncryptLoop_eq h']
  rfl

/-- Decrypt piece by piece; the last block of the ciphertext of a piece, taken before it may be
written over, is where the next one goes on. -/
def decryptPieces (ctx : AesCtx) : AesBlock → ℕ → ℕ → List ℕ → Store → Option Store
  | _, _, _, [], mem => some mem
  | iv, inp, out, len :: rest, mem =>
    let next := if len = 0 then iv else readBlock mem (inp + len - aesBlockSize)
    match aesCbcDecrypt ctx iv inp out len mem with
    | none => none
    | some mem => decryptPieces ctx next (inp + len) (out + len) rest mem

theorem getLastD_blocksAt (mem : Store) (p n : ℕ) (iv : AesBlock) : (blocksAt mem p n).getLastD iv =
      if 16 * n = 0 then iv else readBlock mem (p + 16 * n - aesBlockSize) := by
  cases n with
  | zero => rfl
  | succ n =>
    have hlast : p + 16 * (n + 1) - aesBlockSize = p + 16 * n := by
      unfold aesBlockSize
      omega
    rw [blocksAt_add, if_neg (by omega), hlast]
    exact getLastD_concat

theorem decryptPieces_eq {pieces : List ℕ} (hwhole : ∀ len ∈ pieces, len % aesBlockSize = 0)
    (h : Apart p q pieces.sum) :
    decryptPieces ctx iv p q pieces mem = aesCbcDecrypt ctx iv p q pieces.sum mem := by
  induction pieces generalizing iv p q mem with
  | nil => rfl
  | cons len rest ih =>
    obtain ⟨n, rfl⟩ := Nat.dvd_of_mod_eq_zero (hwhole len mem_cons_self)
    have hrest : ∀ len ∈ rest, len % 16 = 0 :=
      fun len hmem ↦ hwhole len (mem_cons_of_mem _ hmem)
    obtain ⟨m, hm⟩ : 16 ∣ rest.sum :=
      dvd_sum fun len hmem ↦ Nat.dvd_of_mod_eq_zero (hrest len hmem)
    rw [sum_cons] at h ⊢
    change Apart p q (16 * n + rest.sum) at h
    change decryptPieces ctx iv p q (16 * n :: rest) mem =
      aesCbcDecrypt ctx iv p q (16 * n + rest.sum) mem
    have hfirst : Apart p q (16 * n) := by
      unfold Apart at h ⊢
      omega
    have hsecond : Apart (p + 16 * n) (q + 16 * n) rest.sum := by
      unfold Apart at h ⊢
      omega
    have hkeep {data : List Octet} (hlength : data.length = 16 * n) :
        blocksAt (overwrite mem q data) (p + 16 * n) m = blocksAt mem (p + 16 * n) m := by
      apply blocksAt_overwrite_of_disjoint
      unfold Apart at h
      omega
    rw [decryptPieces, aesCbcDecrypt_eq hfirst]
    dsimp only
    rw [ih hrest hsecond, ← getLastD_blocksAt, hm, aesCbcDecrypt_eq (hm ▸ hsecond), ← Nat.mul_add,
      aesCbcDecrypt_eq (by rw [Nat.mul_add, ← hm]; exact h), blocksAt_add, chainDecrypt_append,
      octetsOf_append, overwrite_append, length_octetsOf, length_chainDecrypt, length_blocksAt,
      hkeep (by rw [length_octetsOf, length_chainDecrypt, length_blocksAt])]

theorem xorBlock_xorBlock (a b : AesBlock) : xorBlock (xorBlock a b) b = a := by
  apply Vector.ext
  intro i hi
  rw [xorBlock, xorBlock, Vector.getElem_zipWith, Vector.getElem_zipWith, BitVec.xor_assoc,
    BitVec.xor_self, BitVec.xor_zero]

theorem blocksAt_of_length {blocks : List AesBlock} (h : blocks.length = n) :
    blocksAt (overwrite mem p (octetsOf blocks)) p n = blocks :=
  h ▸ blocksAt_overwrite mem p blocks

theorem window_of_length {blocks : List AesBlock} (h : blocks.length = n) :
    window (overwrite mem p (octetsOf blocks)) p (16 * n) = octetsOf blocks := by
  rw [← octetsOf_blocksAt, blocksAt_of_length h]

theorem decrypt_encrypt {a b c : ℕ} (hab : Apart a b (16 * n)) (hbc : Apart b c (16 * n)) :
    ∃ mid last, aesCbcEncrypt ctx iv a b (16 * n) mem = some mid ∧
      aesCbcDecrypt ctx iv b c (16 * n) mid = some last ∧
        window last c (16 * n) = window mem a (16 * n) := by
  refine ⟨_, _, aesCbcEncrypt_eq hab, aesCbcDecrypt_eq hbc, ?_⟩
  rw [window_of_length (by rw [length_chainDecrypt, length_blocksAt]),
    blocksAt_of_length (by rw [length_chainEncrypt, length_blocksAt]),
    chainDecrypt_chainEncrypt (aesDecryptBlock_aesEncryptBlock ctx) xorBlock_xorBlock,
    octetsOf_blocksAt]

theorem encrypt_decrypt {a b c : ℕ} (hab : Apart a b (16 * n)) (hbc : Apart b c (16 * n)) :
    ∃ mid last, aesCbcDecrypt ctx iv a b (16 * n) mem = some mid ∧
      aesCbcEncrypt ctx iv b c (16 * n) mid = some last ∧
        window last c (16 * n) = window mem a (16 * n) := by
  refine ⟨_, _, aesCbcDecrypt_eq hab, aesCbcEncrypt_eq hbc, ?_⟩
  rw [window_of_length (by rw [length_chainEncrypt, length_blocksAt]),
    blocksAt_of_length (by rw [length_chainDecrypt, length_blocksAt]),
    chainEncrypt_chainDecrypt (aesEncryptBlock_aesDecryptBlock ctx) xorBlock_xorBlock,
    octetsOf_blocksAt]

/-- For every key, the two directions undo each other, in place and from buffer to buffer, and a
message may be decrypted in pieces. -/
theorem aesCbc_inverse {keyBits : ℕ} (hbits : keyBits = 128 ∨ keyBits = 192 ∨ keyBits = 256)
    (key : List Octet) :
    ∃ ctx, aesInit key keyBits = some ctx ∧ ∀ (iv : AesBlock) (mem : Store) (a b c len : ℕ),
      len % aesBlockSize = 0 → Apart a b len → Apart b c len →
        (∃ mid last, aesCbcEncrypt ctx iv a b len mem = some mid ∧
          aesCbcDecrypt ctx iv b c len mid = some last ∧ window last c len = window mem a len) ∧
        (∃ mid last, aesCbcDecrypt ctx iv a b len mem = some mid ∧
          aesCbcEncrypt ctx iv b c len mid = some last ∧ window last c len = window mem a len) ∧
        ∀ pieces : List ℕ, (∀ piece ∈ pieces, piece % aesBlockSize = 0) → pieces.sum = len →
          decryptPieces ctx iv a b pieces mem = aesCbcDecrypt ctx iv a b len mem := by
  obtain ⟨ctx, hctx⟩ : ∃ ctx, aesInit key keyBits = some ctx := by
    rcases hbits with rfl | rfl | rfl <;> exact ⟨_, rfl⟩
  refine ⟨ctx, hctx, fun iv mem a b c len hwhole hab hbc ↦ ?_⟩
  obtain ⟨n, rfl⟩ : 16 ∣ len := Nat.dvd_of_mod_eq_zero hwhole
  refine ⟨decrypt_encrypt hab hbc, encrypt_decrypt hab hbc, fun pieces hpieces hsum ↦ ?_⟩
  rw [← hsum]
  exact decryptPieces_eq hpieces (hsum ▸ hab)

theorem aesCbc_inverse_zero : ∃ ctx, aesInit (List.replicate 16 0) 128 = some ctx ∧
      decryptPieces ctx (Vector.replicate 16 0) 0 0 [16, 32] (fun p ↦ BitVec.ofNat 8 p) =
        aesCbcDecrypt ctx (Vector.replicate 16 0) 0 0 48 fun p ↦ BitVec.ofNat 8 p := by
  obtain ⟨ctx, hctx, h⟩ := aesCbc_inverse (.inl rfl) (List.replicate 16 0)
  refine ⟨ctx, hctx, (h _ _ 0 0 0 48 (by decide) (.inl rfl) (.inl rfl)).2.2 [16, 32] ?_ rfl⟩
  decide

end S5LBox.Firmware
