import S5LBox.Library.BlockCipher
import S5LBox.Library.Span
import S5LBox.Word

/-!
# AES and its chaining mode

The byte-oriented block cipher with keys of three sizes, and the chaining mode over buffers of a
memory. The inverse S-box is derived from the forward one. The input of a call may be its output.
-/

namespace S5LBox.Firmware

open BitVec
open BitVec (ofNat)

def aesBlockSize : ℕ := 16

/-- A block, or the state of the cipher: four columns of four octets. -/
abbrev AesBlock := Vector Octet 16

/-- `SBOX`. -/
def sboxTable : List Octet :=
  [0x63, 0x7c, 0x77, 0x7b, 0xf2, 0x6b, 0x6f, 0xc5, 0x30, 0x01, 0x67, 0x2b, 0xfe, 0xd7, 0xab, 0x76,
    0xca, 0x82, 0xc9, 0x7d, 0xfa, 0x59, 0x47, 0xf0, 0xad, 0xd4, 0xa2, 0xaf, 0x9c, 0xa4, 0x72, 0xc0,
    0xb7, 0xfd, 0x93, 0x26, 0x36, 0x3f, 0xf7, 0xcc, 0x34, 0xa5, 0xe5, 0xf1, 0x71, 0xd8, 0x31, 0x15,
    0x04, 0xc7, 0x23, 0xc3, 0x18, 0x96, 0x05, 0x9a, 0x07, 0x12, 0x80, 0xe2, 0xeb, 0x27, 0xb2, 0x75,
    0x09, 0x83, 0x2c, 0x1a, 0x1b, 0x6e, 0x5a, 0xa0, 0x52, 0x3b, 0xd6, 0xb3, 0x29, 0xe3, 0x2f, 0x84,
    0x53, 0xd1, 0x00, 0xed, 0x20, 0xfc, 0xb1, 0x5b, 0x6a, 0xcb, 0xbe, 0x39, 0x4a, 0x4c, 0x58, 0xcf,
    0xd0, 0xef, 0xaa, 0xfb, 0x43, 0x4d, 0x33, 0x85, 0x45, 0xf9, 0x02, 0x7f, 0x50, 0x3c, 0x9f, 0xa8,
    0x51, 0xa3, 0x40, 0x8f, 0x92, 0x9d, 0x38, 0xf5, 0xbc, 0xb6, 0xda, 0x21, 0x10, 0xff, 0xf3, 0xd2,
    0xcd, 0x0c, 0x13, 0xec, 0x5f, 0x97, 0x44, 0x17, 0xc4, 0xa7, 0x7e, 0x3d, 0x64, 0x5d, 0x19, 0x73,
    0x60, 0x81, 0x4f, 0xdc, 0x22, 0x2a, 0x90, 0x88, 0x46, 0xee, 0xb8, 0x14, 0xde, 0x5e, 0x0b, 0xdb,
    0xe0, 0x32, 0x3a, 0x0a, 0x49, 0x06, 0x24, 0x5c, 0xc2, 0xd3, 0xac, 0x62, 0x91, 0x95, 0xe4, 0x79,
    0xe7, 0xc8, 0x37, 0x6d, 0x8d, 0xd5, 0x4e, 0xa9, 0x6c, 0x56, 0xf4, 0xea, 0x65, 0x7a, 0xae, 0x08,
    0xba, 0x78, 0x25, 0x2e, 0x1c, 0xa6, 0xb4, 0xc6, 0xe8, 0xdd, 0x74, 0x1f, 0x4b, 0xbd, 0x8b, 0x8a,
    0x70, 0x3e, 0xb5, 0x66, 0x48, 0x03, 0xf6, 0x0e, 0x61, 0x35, 0x57, 0xb9, 0x86, 0xc1, 0x1d, 0x9e,
    0xe1, 0xf8, 0x98, 0x11, 0x69, 0xd9, 0x8e, 0x94, 0x9b, 0x1e, 0x87, 0xe9, 0xce, 0x55, 0x28, 0xdf,
    0x8c, 0xa1, 0x89, 0x0d, 0xbf, 0xe6, 0x42, 0x68, 0x41, 0x99, 0x2d, 0x0f, 0xb0, 0x54, 0xbb, 0x16]

def sbox (a : Octet) : Octet := sboxTable.getD a.toNat 0

/-- `build_tables`. -/
def invSboxTable : List Octet :=
  (List.range 256).foldl (fun t i ↦ t.set (sboxTable.getD i 0).toNat (ofNat 8 i))
    (List.replicate 256 0)

def invSbox (a : Octet) : Octet := invSboxTable.getD a.toNat 0

theorem testBit_foldl_entries (table : List Octet) (mask k : ℕ) :
    (table.foldl (fun mask entry ↦ mask ||| 1 <<< entry.toNat) mask).testBit k =
      (mask.testBit k || decide (∃ entry ∈ table, entry.toNat = k)) := by
  induction table generalizing mask with
  | nil => simp
  | cons entry table ih =>
    rw [List.foldl_cons, ih, Nat.testBit_or, Nat.one_shiftLeft, Nat.testBit_two_pow]
    simp [Bool.or_assoc]

theorem mem_sboxTable (a : Octet) : a ∈ sboxTable := by
  have hall : sboxTable.foldl (fun mask entry ↦ mask ||| 1 <<< entry.toNat) 0 = 2 ^ 256 - 1 := by
    decide +kernel
  have hbit := testBit_foldl_entries sboxTable 0 a.toNat
  rw [hall, Nat.testBit_two_pow_sub_one, decide_eq_true a.isLt, Nat.zero_testBit, Bool.false_or]
    at hbit
  obtain ⟨entry, hmem, heq⟩ := of_decide_eq_true hbit.symm
  rwa [← eq_of_toNat_eq heq]

theorem sbox_injective : Function.Injective sbox := by
  have : Finite Octet := Finite.of_injective BitVec.toFin fun a b h ↦ eq_of_toFin_eq h
  refine Finite.injective_iff_surjective.2 fun a ↦ ?_
  obtain ⟨i, hi, hget⟩ := List.getElem_of_mem (mem_sboxTable a)
  have hlength : sboxTable.length = 256 := by decide +kernel
  refine ⟨ofNat 8 i, ?_⟩
  rw [sbox, toNat_ofNat, Nat.mod_eq_of_lt (by omega),
    List.getD_eq_getElem?_getD, List.getElem?_eq_getElem hi, Option.getD_some, hget]

/-- Every entry of the forward table has put its index into the inverse one, and no later entry has
written over it. -/
theorem getD_foldl_set (n : ℕ) (hn : n ≤ 256) : ∃ table, (List.range n).foldl
        (fun t i ↦ t.set (sboxTable.getD i 0).toNat (ofNat 8 i)) (List.replicate 256 0) =
          table ∧ table.length = 256 ∧
      ∀ i < n, table.getD (sboxTable.getD i 0).toNat 0 = ofNat 8 i := by
  induction n with
  | zero => exact ⟨_, rfl, List.length_replicate, fun i hi ↦ absurd hi (Nat.not_lt_zero i)⟩
  | succ n ih =>
    obtain ⟨table, htable, hlength, hentries⟩ := ih (by omega)
    rw [List.range_succ, List.foldl_append, htable, List.foldl_cons, List.foldl_nil]
    refine ⟨_, rfl, by rw [List.length_set, hlength], fun i hi ↦ ?_⟩
    have hlt : (sboxTable.getD n 0).toNat < table.length := hlength ▸ BitVec.isLt _
    rw [List.getD_eq_getElem?_getD, List.getElem?_set]
    by_cases heq : (sboxTable.getD n 0).toNat = (sboxTable.getD i 0).toNat
    · have hsame : sbox (ofNat 8 n) = sbox (ofNat 8 i) := by
        rw [sbox, sbox, toNat_ofNat, toNat_ofNat, Nat.mod_eq_of_lt (by omega),
          Nat.mod_eq_of_lt (by omega)]
        exact eq_of_toNat_eq heq
      rw [if_pos heq, if_pos hlt, Option.getD_some, sbox_injective hsame]
    · have hne : i ≠ n := by
        rintro rfl
        exact heq rfl
      rw [if_neg heq, ← List.getD_eq_getElem?_getD, hentries i (by omega)]

theorem invSbox_sbox (a : Octet) : invSbox (sbox a) = a := by
  obtain ⟨table, htable, -, hentries⟩ := getD_foldl_set 256 le_rfl
  rw [invSbox, invSboxTable, htable, sbox, hentries a.toNat a.isLt, ofNat_toNat, setWidth_eq]

theorem sbox_invSbox (a : Octet) : sbox (invSbox a) = a := by
  have hleft : Function.LeftInverse invSbox sbox := invSbox_sbox
  have : Finite Octet := Finite.of_injective BitVec.toFin fun a b h ↦ eq_of_toFin_eq h
  exact hleft.rightInverse_of_surjective (Finite.surjective_of_injective sbox_injective) a

/-- Multiply by `x` modulo the polynomial of the field. -/
def xtime (a : Octet) : Octet := (a <<< 1) ^^^ (if a &&& 0x80 ≠ 0 then 0x1b else 0)

/-- The loop of `gmul`, over the bits of `b`. -/
def gmulLoop : ℕ → Octet → Octet → Octet → Octet
  | 0, _, _, r => r
  | turns + 1, a, b, r =>
    if b = 0 then r
    else gmulLoop turns (xtime a) (b >>> 1) (if b &&& 1 ≠ 0 then r ^^^ a else r)

def gmul (a b : Octet) : Octet := gmulLoop 8 a b 0

theorem xor_left_comm {n : ℕ} (a b c : BitVec n) : a ^^^ (b ^^^ c) = b ^^^ (a ^^^ c) := by
  rw [← xor_assoc, BitVec.xor_comm a b, xor_assoc]

/-- What is mixed in twice is gone. -/
theorem xor_xor_self {n : ℕ} (a b : BitVec n) : a ^^^ (a ^^^ b) = b := by
  rw [← xor_assoc, BitVec.xor_self, BitVec.zero_xor]

theorem xtime_xor (a b : Octet) : xtime (a ^^^ b) = xtime a ^^^ xtime b := by
  have hbit (c : Octet) : c &&& 0x80 ≠ 0 ↔ c.getLsbD 7 = true := by
    revert c
    decide
  simp only [xtime, hbit, getLsbD_xor, shiftLeft_xor_distrib]
  cases a.getLsbD 7 <;> cases b.getLsbD 7 <;>
    simp [BitVec.xor_comm, xor_left_comm, xor_assoc]

theorem gmul_nine (a : Octet) : gmul a 9 = a ^^^ xtime (xtime (xtime a)) := by
  simp [gmul, gmulLoop]

theorem gmul_eleven (a : Octet) : gmul a 11 = a ^^^ xtime a ^^^ xtime (xtime (xtime a)) := by
  simp [gmul, gmulLoop]

theorem gmul_thirteen (a : Octet) :
    gmul a 13 = a ^^^ xtime (xtime a) ^^^ xtime (xtime (xtime a)) := by
  simp [gmul, gmulLoop]

theorem gmul_fourteen (a : Octet) :
    gmul a 14 = xtime a ^^^ xtime (xtime a) ^^^ xtime (xtime (xtime a)) := by
  simp [gmul, gmulLoop]

def subWord (w : Word) : Word :=
  sbox (w.extractLsb' 24 8) ++ sbox (w.extractLsb' 16 8) ++ sbox (w.extractLsb' 8 8) ++
    sbox (w.extractLsb' 0 8)

def rotWord (w : Word) : Word := (w <<< 8) ||| (w >>> 24)

/-- `aes_ctx_t`: a round key of four words for every round and one more. -/
structure AesCtx where
  rk : List Word
  rounds : ℕ
  pos : 0 < rounds
  full : rk.length = 4 * (rounds + 1)

/-- The loop of `aes_init`: the next `n` words behind those that are there. -/
def expandLoop (nk : ℕ) : ℕ → List Word → Octet → List Word
  | 0, rk, _ => rk
  | n + 1, rk, rcon =>
    let i := rk.length
    let t := rk.getD (i - 1) 0
    if i % nk = 0 then
      let t := subWord (rotWord t) ^^^ (rcon.setWidth 32 <<< 24)
      expandLoop nk n (rk ++ [rk.getD (i - nk) 0 ^^^ t]) (xtime rcon)
    else
      let t := if 6 < nk ∧ i % nk = 4 then subWord t else t
      expandLoop nk n (rk ++ [rk.getD (i - nk) 0 ^^^ t]) rcon

theorem length_expandLoop (nk n : ℕ) (rk : List Word) (rcon : Octet) :
    (expandLoop nk n rk rcon).length = rk.length + n := by
  induction n generalizing rk rcon with
  | zero => rfl
  | succ n ih =>
    unfold expandLoop
    dsimp only
    split <;> rw [ih, List.length_append, List.length_singleton] <;> omega

/-- The words of a key. -/
def keyWords (key : List Octet) (nk : ℕ) : List Word :=
  (List.range nk).map fun i ↦ getBe32 key (4 * i)

def expandKey (key : List Octet) (nk rounds : ℕ) : List Word :=
  expandLoop nk (4 * (rounds + 1) - nk) (keyWords key nk) 1

theorem length_expandKey (key : List Octet) {nk rounds : ℕ} (h : nk ≤ 4 * (rounds + 1)) :
    (expandKey key nk rounds).length = 4 * (rounds + 1) := by
  rw [expandKey, length_expandLoop, keyWords, List.length_map, List.length_range]
  omega

/-- Other key sizes than three are refused. -/
def aesInit (key : List Octet) (keyBits : ℕ) : Option AesCtx :=
  match keyBits with
  | 128 => some ⟨expandKey key 4 10, 10, by decide, length_expandKey key (by decide)⟩
  | 192 => some ⟨expandKey key 6 12, 12, by decide, length_expandKey key (by decide)⟩
  | 256 => some ⟨expandKey key 8 14, 14, by decide, length_expandKey key (by decide)⟩
  | _ => none

def addRoundKey (ctx : AesCtx) (r : ℕ) (s : AesBlock) : AesBlock :=
  Vector.ofFn fun i : Fin 16 ↦
    s[i] ^^^ (ctx.rk.getD (4 * r + i.val / 4) 0).extractLsb' (24 - 8 * (i.val % 4)) 8

def subBytes (s : AesBlock) : AesBlock := s.map sbox

def invSubBytes (s : AesBlock) : AesBlock := s.map invSbox

/-- Octet `i` of the state is in row `i % 4` of column `i / 4`; row `r` moves by `r` columns. -/
def shiftRows (s : AesBlock) : AesBlock :=
  Vector.ofFn fun i : Fin 16 ↦ s[4 * ((i.val / 4 + i.val % 4) % 4) + i.val % 4]

def invShiftRows (s : AesBlock) : AesBlock :=
  Vector.ofFn fun i : Fin 16 ↦ s[4 * ((i.val / 4 + 4 - i.val % 4) % 4) + i.val % 4]

abbrev AesColumn := Vector Octet 4

def column (s : AesBlock) (c : Fin 4) : AesColumn :=
  Vector.ofFn fun r : Fin 4 ↦ s[4 * c.val + r.val]

def mapColumns (f : AesColumn → AesColumn) (s : AesBlock) : AesBlock :=
  Vector.ofFn fun i : Fin 16 ↦ (f (column s ⟨i.val / 4, by omega⟩))[i.val % 4]

def mixColumn (p : AesColumn) : AesColumn :=
  let x := p[0] ^^^ p[1] ^^^ p[2] ^^^ p[3]
  #v[p[0] ^^^ (x ^^^ xtime (p[0] ^^^ p[1])), p[1] ^^^ (x ^^^ xtime (p[1] ^^^ p[2])),
    p[2] ^^^ (x ^^^ xtime (p[2] ^^^ p[3])), p[3] ^^^ (x ^^^ xtime (p[3] ^^^ p[0]))]

def invMixColumn (p : AesColumn) : AesColumn :=
  #v[gmul p[0] 14 ^^^ gmul p[1] 11 ^^^ gmul p[2] 13 ^^^ gmul p[3] 9,
    gmul p[0] 9 ^^^ gmul p[1] 14 ^^^ gmul p[2] 11 ^^^ gmul p[3] 13,
    gmul p[0] 13 ^^^ gmul p[1] 9 ^^^ gmul p[2] 14 ^^^ gmul p[3] 11,
    gmul p[0] 11 ^^^ gmul p[1] 13 ^^^ gmul p[2] 9 ^^^ gmul p[3] 14]

def mixColumns : AesBlock → AesBlock := mapColumns mixColumn

def invMixColumns : AesBlock → AesBlock := mapColumns invMixColumn

def encryptRound (ctx : AesCtx) (r : ℕ) (s : AesBlock) : AesBlock :=
  addRoundKey ctx r (mixColumns (shiftRows (subBytes s)))

def aesEncryptBlock (ctx : AesCtx) (block : AesBlock) : AesBlock :=
  let s := (List.range' 1 (ctx.rounds - 1)).foldl (fun s r ↦ encryptRound ctx r s)
    (addRoundKey ctx 0 block)
  addRoundKey ctx ctx.rounds (shiftRows (subBytes s))

def decryptRound (ctx : AesCtx) (r : ℕ) (s : AesBlock) : AesBlock :=
  invMixColumns (addRoundKey ctx r (invSubBytes (invShiftRows s)))

def aesDecryptBlock (ctx : AesCtx) (block : AesBlock) : AesBlock :=
  let s := (List.range' 1 (ctx.rounds - 1)).reverse.foldl (fun s r ↦ decryptRound ctx r s)
    (addRoundKey ctx ctx.rounds block)
  addRoundKey ctx 0 (invSubBytes (invShiftRows s))

theorem exists_column (p : AesColumn) : ∃ a b c d, p = #v[a, b, c, d] := by
  refine ⟨p[0], p[1], p[2], p[3], ?_⟩
  apply Vector.ext
  intro i hi
  interval_cases i <;> rfl

/-- A row of the mixed column, from the rows from it on. -/
def mixRow (a b c d : Octet) : Octet := a ^^^ (a ^^^ b ^^^ c ^^^ d ^^^ xtime (a ^^^ b))

theorem mixColumn_four (a b c d : Octet) : mixColumn #v[a, b, c, d] =
    #v[mixRow a b c d, mixRow b c d a, mixRow c d a b, mixRow d a b c] := by
  apply Vector.ext
  intro i hi
  interval_cases i <;>
    simp [mixColumn, mixRow, BitVec.xor_comm, xor_left_comm, xor_assoc]

/-- Mixing twice: the rest of the column and the neighbours fall out. -/
theorem mixRow_mixRow (a b c d : Octet) :
    mixRow (mixRow a b c d) (mixRow b c d a) (mixRow c d a b) (mixRow d a b c) =
      a ^^^ xtime (xtime (a ^^^ c)) := by
  have hb : mixRow b c d a = b ^^^ (a ^^^ b ^^^ c ^^^ d ^^^ xtime (b ^^^ c)) := by
    simp only [mixRow, BitVec.xor_comm, xor_left_comm]
  have hc : mixRow c d a b = c ^^^ (a ^^^ b ^^^ c ^^^ d ^^^ xtime (c ^^^ d)) := by
    simp only [mixRow, BitVec.xor_comm, xor_left_comm]
  have hd : mixRow d a b c = d ^^^ (a ^^^ b ^^^ c ^^^ d ^^^ xtime (d ^^^ a)) := by
    simp only [mixRow, BitVec.xor_comm, xor_left_comm]
  have hsum : mixRow a b c d ^^^ mixRow b c d a ^^^ mixRow c d a b ^^^ mixRow d a b c =
      a ^^^ b ^^^ c ^^^ d := by
    rw [hb, hc, hd, mixRow]
    generalize hx : a ^^^ b ^^^ c ^^^ d = x
    simp only [← hx, xtime_xor, BitVec.xor_comm, xor_left_comm, xor_assoc, xor_xor_self,
      BitVec.xor_self, xor_zero]
  have hpair : mixRow a b c d ^^^ mixRow b c d a = a ^^^ b ^^^ xtime (a ^^^ c) := by
    rw [hb, mixRow]
    simp only [xtime_xor, xor_left_comm, xor_assoc, xor_xor_self]
  rw [mixRow, hsum, hpair, mixRow, xtime_xor (a ^^^ b)]
  simp only [xor_left_comm, xor_assoc, xor_xor_self]

theorem mixColumn_mixColumn (a b c d : Octet) : mixColumn (mixColumn #v[a, b, c, d]) =
    #v[a ^^^ xtime (xtime (a ^^^ c)), b ^^^ xtime (xtime (b ^^^ d)), c ^^^ xtime (xtime (c ^^^ a)),
      d ^^^ xtime (xtime (d ^^^ b))] := by
  rw [mixColumn_four, mixColumn_four, mixRow_mixRow, mixRow_mixRow, mixRow_mixRow, mixRow_mixRow]

theorem mixColumn_fourth (p : AesColumn) : mixColumn (mixColumn (mixColumn (mixColumn p))) = p := by
  obtain ⟨a, b, c, d, rfl⟩ := exists_column p
  have htwice (u v : Octet) : u ^^^ xtime (xtime (u ^^^ v)) ^^^
      xtime (xtime (u ^^^ xtime (xtime (u ^^^ v)) ^^^ (v ^^^ xtime (xtime (v ^^^ u))))) = u := by
    simp only [xtime_xor, BitVec.xor_comm, xor_left_comm, BitVec.xor_self, xor_zero]
  rw [mixColumn_mixColumn, mixColumn_mixColumn, htwice, htwice, htwice, htwice]

theorem mixRow_twice (a b c d : Octet) :
    mixRow (a ^^^ xtime (xtime (a ^^^ c))) (b ^^^ xtime (xtime (b ^^^ d)))
        (c ^^^ xtime (xtime (c ^^^ a))) (d ^^^ xtime (xtime (d ^^^ b))) =
      gmul a 14 ^^^ gmul b 11 ^^^ gmul c 13 ^^^ gmul d 9 := by
  rw [gmul_fourteen, gmul_eleven, gmul_thirteen, gmul_nine, mixRow]
  simp only [xtime_xor, BitVec.xor_comm, xor_left_comm, xor_assoc, xor_xor_self]

/-- The inverse matrix is the third power of the matrix. -/
theorem invMixColumn_eq (p : AesColumn) : invMixColumn p = mixColumn (mixColumn (mixColumn p)) := by
  obtain ⟨a, b, c, d, rfl⟩ := exists_column p
  have hturn (x y z w : Octet) : x ^^^ y ^^^ z ^^^ w = w ^^^ x ^^^ y ^^^ z := by
    rw [BitVec.xor_comm, xor_assoc, xor_assoc, xor_assoc]
  rw [mixColumn_mixColumn, mixColumn_four, mixRow_twice, mixRow_twice, mixRow_twice, mixRow_twice,
    hturn (gmul b 14), hturn (gmul c 14), hturn (gmul b 9), ← hturn (gmul a 11)]
  rfl

theorem invMixColumn_mixColumn (p : AesColumn) : invMixColumn (mixColumn p) = p := by
  rw [invMixColumn_eq, mixColumn_fourth]

theorem mixColumn_invMixColumn (p : AesColumn) : mixColumn (invMixColumn p) = p := by
  rw [invMixColumn_eq, mixColumn_fourth]

theorem column_mapColumns (f : AesColumn → AesColumn) (s : AesBlock) (c : Fin 4) :
    column (mapColumns f s) c = f (column s c) := by
  apply Vector.ext
  intro r hr
  have hdiv : (4 * c.val + r) / 4 = c.val := by omega
  have hmod : (4 * c.val + r) % 4 = r := by omega
  simp only [column, mapColumns, Vector.getElem_ofFn, hdiv, hmod]

theorem mapColumns_mapColumns {f g : AesColumn → AesColumn} (h : ∀ p, f (g p) = p)
    (s : AesBlock) : mapColumns f (mapColumns g s) = s := by
  apply Vector.ext
  intro i hi
  have hindex : 4 * (i / 4) + i % 4 = i := Nat.div_add_mod i 4
  unfold mapColumns
  rw [Vector.getElem_ofFn]
  change (f (column (mapColumns g s) _))[i % 4] = s[i]
  simp only [column_mapColumns, h]
  simp only [column, Vector.getElem_ofFn, hindex]

theorem addRoundKey_addRoundKey (ctx : AesCtx) (r : ℕ) (s : AesBlock) :
    addRoundKey ctx r (addRoundKey ctx r s) = s := by
  apply Vector.ext
  intro i hi
  simp [addRoundKey, xor_assoc]

theorem invSubBytes_subBytes (s : AesBlock) : invSubBytes (subBytes s) = s := by
  apply Vector.ext
  intro i hi
  rw [invSubBytes, subBytes, Vector.getElem_map, Vector.getElem_map, invSbox_sbox]

theorem subBytes_invSubBytes (s : AesBlock) : subBytes (invSubBytes s) = s := by
  apply Vector.ext
  intro i hi
  rw [invSubBytes, subBytes, Vector.getElem_map, Vector.getElem_map, sbox_invSbox]

theorem invShiftRows_shiftRows (s : AesBlock) : invShiftRows (shiftRows s) = s := by
  apply Vector.ext
  intro i hi
  simp only [invShiftRows, shiftRows, Vector.getElem_ofFn]
  congr 1
  omega

theorem shiftRows_invShiftRows (s : AesBlock) : shiftRows (invShiftRows s) = s := by
  apply Vector.ext
  intro i hi
  simp only [invShiftRows, shiftRows, Vector.getElem_ofFn]
  congr 1
  omega

theorem invMixColumns_mixColumns (s : AesBlock) : invMixColumns (mixColumns s) = s :=
  mapColumns_mapColumns invMixColumn_mixColumn s

theorem mixColumns_invMixColumns (s : AesBlock) : mixColumns (invMixColumns s) = s :=
  mapColumns_mapColumns mixColumn_invMixColumn s

theorem aesDecryptBlock_aesEncryptBlock (ctx : AesCtx) (block : AesBlock) :
    aesDecryptBlock ctx (aesEncryptBlock ctx block) = block := by
  have hround (r : ℕ) (s : AesBlock) :
      decryptRound ctx r (shiftRows (subBytes (encryptRound ctx r s))) =
        shiftRows (subBytes s) := by
    rw [decryptRound, invShiftRows_shiftRows, invSubBytes_subBytes, encryptRound,
      addRoundKey_addRoundKey, invMixColumns_mixColumns]
  unfold aesDecryptBlock aesEncryptBlock
  dsimp only
  rw [addRoundKey_addRoundKey,
    @BlockCipher.foldl_reverse_cancel _ _ _ _ _ (fun s ↦ shiftRows (subBytes s)) hround,
    invShiftRows_shiftRows, invSubBytes_subBytes, addRoundKey_addRoundKey]

theorem aesEncryptBlock_aesDecryptBlock (ctx : AesCtx) (block : AesBlock) :
    aesEncryptBlock ctx (aesDecryptBlock ctx block) = block := by
  have hround (r : ℕ) (s : AesBlock) :
      encryptRound ctx r (invSubBytes (invShiftRows (decryptRound ctx r s))) =
        invSubBytes (invShiftRows s) := by
    rw [encryptRound, subBytes_invSubBytes, shiftRows_invShiftRows, decryptRound,
      mixColumns_invMixColumns, addRoundKey_addRoundKey]
  have hcancel := @BlockCipher.foldl_reverse_cancel _ _ _ _ _
    (fun s ↦ invSubBytes (invShiftRows s)) hround (List.range' 1 (ctx.rounds - 1)).reverse
    (addRoundKey ctx ctx.rounds block)
  rw [List.reverse_reverse] at hcancel
  unfold aesEncryptBlock aesDecryptBlock
  dsimp only
  rw [addRoundKey_addRoundKey, hcancel, subBytes_invSubBytes, shiftRows_invShiftRows,
    addRoundKey_addRoundKey]

/-- A memory with an octet at every address. -/
abbrev Store := ℕ → Octet

def xorBlock (a b : AesBlock) : AesBlock := Vector.zipWith (· ^^^ ·) a b

def readBlock (mem : Store) (p : ℕ) : AesBlock := Vector.ofFn fun i : Fin 16 ↦ mem (p + i.val)

def writeBlock (mem : Store) (p : ℕ) (block : AesBlock) : Store :=
  Span.overwrite mem p block.toList

/-- The loop of `aes_cbc_decrypt`; the ciphertext is copied before it is written over. -/
def cbcDecryptLoop (ctx : AesCtx) (inp out : ℕ) : ℕ → ℕ → AesBlock → Store → Store
  | 0, _, _, mem => mem
  | n + 1, off, prev, mem =>
    let cipher := readBlock mem (inp + off)
    let plain := xorBlock (aesDecryptBlock ctx cipher) prev
    cbcDecryptLoop ctx inp out n (off + aesBlockSize) cipher (writeBlock mem (out + off) plain)

/-- Decrypt `len` octets at `inp` into those at `out`; only whole blocks are taken. -/
def aesCbcDecrypt (ctx : AesCtx) (iv : AesBlock) (inp out len : ℕ) (mem : Store) : Option Store :=
  if len % aesBlockSize ≠ 0 then none
  else some (cbcDecryptLoop ctx inp out (len / aesBlockSize) 0 iv mem)

/-- The loop of `aes_cbc_encrypt`. -/
def cbcEncryptLoop (ctx : AesCtx) (inp out : ℕ) : ℕ → ℕ → AesBlock → Store → Store
  | 0, _, _, mem => mem
  | n + 1, off, prev, mem =>
    let prev := aesEncryptBlock ctx (xorBlock (readBlock mem (inp + off)) prev)
    cbcEncryptLoop ctx inp out n (off + aesBlockSize) prev (writeBlock mem (out + off) prev)

def aesCbcEncrypt (ctx : AesCtx) (iv : AesBlock) (inp out len : ℕ) (mem : Store) : Option Store :=
  if len % aesBlockSize ≠ 0 then none
  else some (cbcEncryptLoop ctx inp out (len / aesBlockSize) 0 iv mem)

end S5LBox.Firmware
