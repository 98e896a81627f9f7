import S5LBox.Library.LittleEndian
import S5LBox.Word

/-!
# Persistent storage

`storage_save_nand`, `storage_load_nand`, `storage_save_nor` and `storage_load_nor` of `storage.c`,
over files whose reads and writes do not fail, with the scan that rebuilds the directory of the NOR.
-/

namespace S5LBox.Soc

open List

/-- `storage_status_t`, as far as the octets of a file decide it. -/
inductive StorageStatus where
  | ok
  | format
  | version
  | geometry
  | truncated
  | checksum
  | trailing
  deriving DecidableEq, Repr

def storageMagic : Word := 0x334f4956
def storageNorMagic : Word := 0x524f4e56
def storageVersion : Word := 1
def storageFlagChecksum : Word := 1
def storageFnv64Offset : DWord := 14695981039346656037
def storageFnv64Prime : DWord := 1099511628211

def hashBytes (h : DWord) (data : List Octet) : DWord :=
  data.foldl (fun h octet ↦ (h ^^^ octet.setWidth 64) * storageFnv64Prime) h

def wr32 (v : Word) : List Octet := LittleEndian.put 4 v.toNat

/-- The reads of some buffers one after the other, up to the first that comes short. -/
def freadAll : List ℕ → List Octet → Option (List (List Octet) × List Octet)
  | [], file => some ([], file)
  | size :: sizes, file =>
    if file.length < size then none
    else (freadAll sizes (file.drop size)).map fun x ↦ (file.take size :: x.1, x.2)

/-- The word that `rd32` makes of four octets. -/
def wordOf (octets : List Octet) : Word := .ofNat 32 (LittleEndian.get octets)

/-- A file of a header, some buffers and their hash. -/
def saveImage (header : List Word) (buffers : List (List Octet)) : List Octet :=
  header.flatMap wr32 ++ buffers.flatten ++
    LittleEndian.put 8 (buffers.foldl hashBytes storageFnv64Offset).toNat

/-- The trailer of a file, where its flags promise one. -/
def checkHash (flags : Word) (buffers : List (List Octet)) (file : List Octet) :
    Except StorageStatus (List Octet) :=
  if flags &&& storageFlagChecksum ≠ 0 then
    match freadAll [8] file with
    | none => .error .truncated
    | some (recorded, rest) =>
      if buffers.foldl hashBytes storageFnv64Offset ≠
          .ofNat 64 (LittleEndian.get recorded.flatten) then .error .checksum
      else .ok rest
  else .ok file

/-- The common part of the two loads, with what they ask of the header and of the buffers. -/
def loadImage (words flagAt : ℕ) (check : List Word → StorageStatus) (sizes : List ℕ)
    (valid : List (List Octet) → Bool) (file : List Octet) :
    Except StorageStatus (List (List Octet)) :=
  match freadAll (List.replicate words 4) file with
  | none => .error .truncated
  | some (header, body) =>
    let status := check (header.map wordOf)
    if status ≠ .ok then .error status
    else
      match freadAll sizes body with
      | none => .error .truncated
      | some (buffers, rest) =>
        match checkHash ((header.map wordOf).getD flagAt 0) buffers rest with
        | .error e => .error e
        | .ok rest =>
          if !valid buffers then .error .format
          else if rest ≠ [] then .error .trailing
          else .ok buffers

/-- `nand_t`, as far as it is stored. -/
structure Nand where
  pageSize : Word
  spareSize : Word
  pagesPerBlock : Word
  blockCount : Word
  data : List Octet
  spare : List Octet
  bad : List Octet

def nandTotalPages (n : Nand) : Word := n.pagesPerBlock * n.blockCount

/-- The sizes of the three buffers. -/
def Nand.sizes (n : Nand) : List ℕ :=
  [(nandTotalPages n).toNat * n.pageSize.toNat, (nandTotalPages n).toNat * n.spareSize.toNat,
    n.blockCount.toNat]

/-- The header of a file for the device. -/
def Nand.header (n : Nand) (flags : Word) : List Word :=
  [storageMagic, storageVersion, n.pageSize, n.spareSize, n.pagesPerBlock, n.blockCount, flags, 0]

/-- The bad-block table holds zeros and ones only. -/
def badTableValid (bad : List Octet) : Bool := bad.all (· ≤ 1)

/-- `storage_save_nand`: the file that takes the place of the old one. -/
def storageSaveNand (n : Nand) : Except StorageStatus (List Octet) :=
  if !badTableValid n.bad then .error .format
  else .ok (saveImage (n.header storageFlagChecksum) [n.data, n.spare, n.bad])

/-- The checks of `storage_load_nand` on the header. -/
def nandHeaderCheck (n : Nand) : List Word → StorageStatus
  | [magic, version, pageSize, spareSize, pagesPerBlock, blockCount, flags, reserved] =>
    if magic ≠ storageMagic then .format
    else if version ≠ storageVersion then .version
    else if flags &&& ~~~storageFlagChecksum ≠ 0 ∨ reserved ≠ 0 then .trailing
    else if pageSize ≠ n.pageSize ∨ spareSize ≠ n.spareSize ∨ pagesPerBlock ≠ n.pagesPerBlock ∨
        blockCount ≠ n.blockCount then .geometry
    else .ok
  | _ => .truncated

def storageLoadNand (n : Nand) (file : List Octet) : StorageStatus × Nand :=
  match loadImage 8 6 (nandHeaderCheck n) n.sizes (fun x ↦ badTableValid (x.getD 2 [])) file with
  | .error e => (e, n)
  | .ok buffers => (.ok, { n with
      data := buffers.getD 0 [], spare := buffers.getD 1 [], bad := buffers.getD 2 [] })

/-- `s5l_nor_entry_t`. -/
structure NorEntry where
  ident : ℕ
  offset : ℕ
  size : ℕ
  deriving DecidableEq, Repr

/-- `s5l_nor_t`, the directory up to its count. -/
structure Nor where
  size : Word
  data : List Octet
  images : List NorEntry

/-- The loop of `s5l_nor_scan`. -/
def norScanLoop (data : List Octet) : ℕ → ℕ → List NorEntry → List NorEntry
  | 0, _, images => images
  | fuel + 1, off, images =>
    let word (place : ℕ) := LittleEndian.get ((data.drop place).take 4)
    let full := word (off + 4)
    if data.length < off + 20 then images
    else if word off ≠ 0x496d6733 then norScanLoop data fuel (off + 4) images
    else if full < 20 ∨ data.length < off + full then norScanLoop data fuel (off + 4) images
    else
      let images := images ++ [⟨word (off + 16), off, full⟩]
      let next := (off + full + 3) / 4 * 4 % 2 ^ 32
      if images.length = 16 ∨ next ≤ off then images else norScanLoop data fuel next images

def norScan (data : List Octet) : List NorEntry := norScanLoop data data.length 0 []

/-- The header of a file for the device. -/
def Nor.header (n : Nor) (flags : Word) : List Word :=
  [storageNorMagic, storageVersion, n.size, flags]

def storageSaveNor (n : Nor) : List Octet := saveImage (n.header storageFlagChecksum) [n.data]

/-- The checks of `storage_load_nor` on the header. -/
def norHeaderCheck (n : Nor) : List Word → StorageStatus
  | [magic, version, size, flags] =>
    if magic ≠ storageNorMagic then .format
    else if version ≠ storageVersion then .version
    else if size ≠ n.size then .geometry
    else if flags &&& ~~~storageFlagChecksum ≠ 0 then .trailing
    else .ok
  | _ => .truncated

def storageLoadNor (n : Nor) (file : List Octet) : StorageStatus × Nor :=
  match loadImage 4 3 (norHeaderCheck n) [n.size.toNat] (fun _ ↦ true) file with
  | .error e => (e, n)
  | .ok buffers => (.ok, { n with data := buffers.flatten, images := norScan buffers.flatten })


/-- What follows the buffers in a file with these flags. -/
def trailer (flags : Word) (buffers : List (List Octet)) : List Octet :=
  if flags &&& storageFlagChecksum ≠ 0 then
    LittleEndian.put 8 (buffers.foldl hashBytes storageFnv64Offset).toNat
  else []

/-- A file with one octet changed, cut short or continued. -/
def Damaged (file other : List Octet) : Prop :=
  (∃ i octet, i < file.length ∧ file[i]? ≠ some octet ∧ other = file.set i octet) ∨
    (∃ k < file.length, other = file.take k) ∨ ∃ rest ≠ [], other = file ++ rest

theorem mul_prime_injective {x y : DWord} (h : x * storageFnv64Prime = y * storageFnv64Prime) :
    x = y := by
  have hinverse : storageFnv64Prime * 0xce965057aff6957b = 1 := by decide
  calc
    x = x * storageFnv64Prime * 0xce965057aff6957b := by
      rw [BitVec.mul_assoc, hinverse]
      exact (BitVec.mul_one x).symm
    _ = y * storageFnv64Prime * 0xce965057aff6957b := by rw [h]
    _ = y := by
      rw [BitVec.mul_assoc, hinverse]
      exact BitVec.mul_one y

theorem hashBytes_injective (data : List Octet) {h h' : DWord}
    (hsame : hashBytes h data = hashBytes h' data) : h = h' := by
  induction data generalizing h h' with
  | nil => exact hsame
  | cons octet data ih => exact BitVec.xor_left_inj _ |>.1 (mul_prime_injective (ih hsame))

theorem getElem?_of_hashBytes_set {data : List Octet} {i : ℕ} {octet : Octet} {h : DWord}
    (hi : i < data.length) (hsame : hashBytes h (data.set i octet) = hashBytes h data) :
    data[i]? = some octet := by
  induction data generalizing h i with
  | nil => cases hi
  | cons first data ih =>
    cases i with
    | zero =>
      have hstep := mul_prime_injective (hashBytes_injective data hsame)
      have hwide := (BitVec.xor_right_inj _).1 hstep
      have hoctet : octet = first := by
        apply BitVec.eq_of_toNat_eq
        have hnumber := congrArg BitVec.toNat hwide
        rwa [BitVec.toNat_setWidth_of_le (by decide), BitVec.toNat_setWidth_of_le (by decide)]
          at hnumber
      rw [hoctet]
      rfl
    | succ i => exact ih (Nat.lt_of_succ_lt_succ hi) hsame

theorem freadAll_eq_some {sizes : List ℕ} {file rest : List Octet} {buffers : List (List Octet)} :
    freadAll sizes file = some (buffers, rest) ↔
      buffers.map List.length = sizes ∧ file = buffers.flatten ++ rest := by
  induction sizes generalizing file buffers with
  | nil =>
    rw [freadAll, map_eq_nil_iff]
    constructor
    · rintro ⟨rfl, rfl⟩
      exact ⟨rfl, rfl⟩
    · rintro ⟨rfl, rfl⟩
      rfl
  | cons size sizes ih =>
    rw [freadAll]
    constructor
    · intro h
      split at h
      · cases h
      rename_i hroom
      obtain ⟨⟨later, rest'⟩, hlater, hpair⟩ := Option.map_eq_some_iff.1 h
      cases hpair
      obtain ⟨hsizes, hfile⟩ := ih.1 hlater
      refine ⟨?_, ?_⟩
      · rw [map_cons, hsizes, length_take_of_le (Nat.le_of_not_lt hroom)]
      · rw [flatten_cons, append_assoc, ← hfile, take_append_drop]
    · rintro ⟨hsizes, rfl⟩
      cases buffers with
      | nil => cases hsizes
      | cons buffer later =>
        obtain ⟨rfl, hrest⟩ := List.cons.inj hsizes
        have hlater := ih.2 ⟨hrest, rfl⟩
        rw [flatten_cons, append_assoc, if_neg (by simp), drop_left, take_left, hlater]
        rfl

theorem wordOf_wr32 (v : Word) : wordOf (wr32 v) = v := by
  rw [wordOf, wr32, LittleEndian.get_put v.isLt, BitVec.ofNat_toNat, BitVec.setWidth_eq]

theorem wr32_wordOf {octets : List Octet} (h : octets.length = 4) :
    wr32 (wordOf octets) = octets := by
  have hlt : LittleEndian.get octets < 2 ^ 32 := by
    simpa [h] using LittleEndian.get_lt octets
  rw [wr32, wordOf, BitVec.toNat_ofNat, Nat.mod_eq_of_lt hlt, ← h, LittleEndian.put_get]

theorem checkHash_eq_ok {flags : Word} {buffers : List (List Octet)} {file rest : List Octet} :
    checkHash flags buffers file = .ok rest ↔ file = trailer flags buffers ++ rest := by
  unfold checkHash trailer
  split
  case isFalse => exact ⟨fun h ↦ Except.ok.inj h, congrArg _⟩
  case isTrue =>
    constructor
    · intro h
      split at h
      · cases h
      rename_i recorded rest' hread
      split at h
      · cases h
      rename_i hsame
      cases h
      obtain ⟨hsizes, rfl⟩ := freadAll_eq_some.1 hread
      have hlength : recorded.flatten.length = 8 := by
        rw [length_flatten, hsizes, sum_singleton]
      have hlt : LittleEndian.get recorded.flatten < 2 ^ 64 := by
        simpa [hlength] using LittleEndian.get_lt recorded.flatten
      rw [not_not.1 hsame, BitVec.toNat_ofNat, Nat.mod_eq_of_lt hlt, ← hlength,
        LittleEndian.put_get]
    · rintro rfl
      generalize hhash : buffers.foldl hashBytes storageFnv64Offset = hash
      have hread : freadAll [8] (LittleEndian.put 8 hash.toNat ++ rest) =
          some ([LittleEndian.put 8 hash.toNat], rest) :=
        freadAll_eq_some.2 ⟨by simp, by simp⟩
      have hnumber : LittleEndian.get (LittleEndian.put 8 hash.toNat) = hash.toNat :=
        LittleEndian.get_put hash.isLt
      simp [hread, hnumber]

theorem freadAll_words (header : List Word) (rest : List Octet) :
    freadAll (List.replicate header.length 4) (header.flatMap wr32 ++ rest) =
      some (header.map wr32, rest) :=
  freadAll_eq_some.2 ⟨by simp [wr32, Function.comp_def], by rw [flatMap_def]⟩

theorem flatMap_wr32_injective {header header' : List Word}
    (hwords : header.length = header'.length)
    (h : header.flatMap wr32 = header'.flatMap wr32) : header = header' := by
  have hread := freadAll_words header []
  rw [h, hwords, freadAll_words header' []] at hread
  have hoctets := (Prod.mk.inj (Option.some.inj hread)).1
  exact (map_injective_iff.2 (Function.LeftInverse.injective wordOf_wr32) hoctets).symm

theorem length_flatMap_wr32 (header : List Word) :
    (header.flatMap wr32).length = 4 * header.length := by
  simp [length_flatMap, wr32, mul_comm]

/-- The octets of a file. -/
def fileOf (flagAt : ℕ) (header : List Word) (buffers : List (List Octet)) : List Octet :=
  header.flatMap wr32 ++ (buffers.flatten ++ trailer (header.getD flagAt 0) buffers)

theorem saveImage_eq (flagAt : ℕ) {header : List Word} (hflag : header.getD flagAt 0 = 1)
    (buffers : List (List Octet)) : saveImage header buffers = fileOf flagAt header buffers := by
  rw [saveImage, fileOf, hflag, append_assoc]
  rfl

variable {words flagAt : ℕ} {check : List Word → StorageStatus} {sizes : List ℕ}
  {valid : List (List Octet) → Bool} {head : Word → List Word} {buffers : List (List Octet)}
  {file : List Octet}

theorem loadImage_steps : loadImage words flagAt check sizes valid file = .ok buffers ↔
      ∃ octets body rest, freadAll (List.replicate words 4) file = some (octets, body) ∧
        check (octets.map wordOf) = .ok ∧ freadAll sizes body = some (buffers, rest) ∧
        checkHash ((octets.map wordOf).getD flagAt 0) buffers rest = .ok [] ∧
        valid buffers = true := by
  unfold loadImage
  grind

theorem loadImage_eq_ok : loadImage words flagAt check sizes valid file = .ok buffers ↔
      ∃ header : List Word, header.length = words ∧ check header = .ok ∧
        buffers.map List.length = sizes ∧ valid buffers = true ∧
        file = fileOf flagAt header buffers := by
  simp only [loadImage_steps, freadAll_eq_some, checkHash_eq_ok, append_nil]
  constructor
  · rintro ⟨octets, _, _, ⟨hwords, rfl⟩, hcheck, ⟨hsizes, rfl⟩, rfl, hvalid⟩
    have hfour : ∀ o ∈ octets, wr32 (wordOf o) = o := fun o ho ↦
      wr32_wordOf (eq_of_mem_replicate (hwords ▸ mem_map_of_mem ho))
    refine ⟨octets.map wordOf, ?_, hcheck, hsizes, hvalid, ?_⟩
    · rw [length_map, ← length_map (f := List.length), hwords, length_replicate]
    · rw [fileOf, flatMap_map, flatMap_congr hfour, flatMap_id']
  · rintro ⟨header, rfl, hcheck, hsizes, hvalid, rfl⟩
    have hwords : (header.map wr32).map wordOf = header := by
      simp [Function.comp_def, wordOf_wr32]
    obtain ⟨hlengths, hfront⟩ := freadAll_eq_some.1 (freadAll_words header
      (buffers.flatten ++ trailer (header.getD flagAt 0) buffers))
    refine ⟨_, _, _, ⟨hlengths, hfront⟩, hwords.symm ▸ hcheck, ⟨hsizes, rfl⟩, ?_, hvalid⟩
    rw [hwords]

theorem getElem?_of_set_eq {l : List Octet} {i : ℕ} {octet : Octet} (hi : i < l.length)
    (h : l.set i octet = l) : l[i]? = some octet := by
  rw [← h, getElem?_set_self hi]

theorem getElem?_of_set_hashed {front body body' : List Octet} {i : ℕ} {octet : Octet} {h : DWord}
    (hbody : body'.length = body.length)
    (hi : i < (front ++ (body ++ LittleEndian.put 8 (hashBytes h body).toNat)).length)
    (hsame : (front ++ (body ++ LittleEndian.put 8 (hashBytes h body).toNat)).set i octet =
      front ++ (body' ++ LittleEndian.put 8 (hashBytes h body').toNat)) :
    (front ++ (body ++ LittleEndian.put 8 (hashBytes h body).toNat))[i]? = some octet := by
  rw [set_append] at hsame
  split at hsame
  case isTrue hfront =>
    rw [getElem?_append_left hfront]
    exact getElem?_of_set_eq hfront (append_inj hsame (length_set ..)).1
  case isFalse hfront =>
    have hrest := append_cancel_left hsame
    rw [getElem?_append_right (Nat.le_of_not_lt hfront)]
    have hinside : i - front.length <
        (body ++ LittleEndian.put 8 (hashBytes h body).toNat).length := by
      rw [length_append] at hi
      omega
    generalize i - front.length = j at *
    rw [set_append] at hrest
    split at hrest
    case isTrue hj =>
      obtain ⟨rfl, hhash⟩ := append_inj hrest (by rw [length_set, hbody])
      have hnumber := congrArg LittleEndian.get hhash
      rw [LittleEndian.get_put (BitVec.isLt _), LittleEndian.get_put (BitVec.isLt _)] at hnumber
      rw [getElem?_append_left hj]
      exact getElem?_of_hashBytes_set hj (BitVec.eq_of_toNat_eq hnumber).symm
    case isFalse hj =>
      obtain ⟨rfl, hhash⟩ := append_inj hrest hbody.symm
      rw [getElem?_append_right (Nat.le_of_not_lt hj)]
      rw [length_append] at hinside
      exact getElem?_of_set_eq (by omega) hhash

/-- The headers of a device are checked for, up to the flag. -/
structure HeaderOf (words flagAt : ℕ) (check : List Word → StorageStatus)
    (head : Word → List Word) : Prop where
  length : ∀ flags, (head flags).length = words
  flag : ∀ flags, (head flags).getD flagAt 0 = flags
  check : ∀ header, check header = .ok ↔ header = head 0 ∨ header = head 1

theorem loadImage_fileOf (hhead : HeaderOf words flagAt check head)
    (hsizes : buffers.map List.length = sizes) (hvalid : valid buffers = true) {flags : Word}
    (hflags : flags = 0 ∨ flags = 1) :
    loadImage words flagAt check sizes valid (fileOf flagAt (head flags) buffers) = .ok buffers :=
  loadImage_eq_ok.2 ⟨_, hhead.length _, (hhead.check _).2 (hflags.imp (congrArg _) (congrArg _)),
    hsizes, hvalid, rfl⟩

theorem loadImage_damaged (hhead : HeaderOf words flagAt check head)
    (hsizes : buffers.map List.length = sizes) (h : Damaged (fileOf flagAt (head 1) buffers) file)
    (loaded : List (List Octet)) : loadImage words flagAt check sizes valid file ≠ .ok loaded := by
  intro hload
  obtain ⟨header, hwords, hok, hloaded, -, hfile⟩ := loadImage_eq_ok.1 hload
  have hbody : loaded.flatten.length = buffers.flatten.length := by
    rw [length_flatten, length_flatten, hloaded, hsizes]
  have hfront : (header.flatMap wr32).length = ((head 1).flatMap wr32).length := by
    rw [length_flatMap_wr32, length_flatMap_wr32, hwords, hhead.length]
  have hhash (x : List (List Octet)) : trailer 1 x =
      LittleEndian.put 8 (hashBytes storageFnv64Offset x.flatten).toNat := by
    rw [hashBytes, foldl_flatten]
    rfl
  have height (x : List (List Octet)) : (trailer 1 x).length = 8 := LittleEndian.length_put ..
  unfold fileOf at hfile h
  rw [hhead.flag] at h
  have htotal := congrArg List.length hfile
  simp only [length_append, hfront, hbody] at htotal
  rcases (hhead.check _).1 hok with rfl | rfl
  · have hnone : trailer 0 loaded = [] := rfl
    rw [hhead.flag, hnone] at hfile htotal
    rcases h with ⟨i, octet, -, -, rfl⟩ | ⟨k, hk, rfl⟩ | ⟨rest, -, rfl⟩
    · simp only [length_set, length_append, height, length_nil] at htotal
      omega
    · have hcut := congrArg (List.take ((head 1).flatMap wr32).length) hfile
      rw [length_take_of_le hk.le] at htotal
      rw [take_take, min_eq_left (by omega), take_left, ← hfront, take_left] at hcut
      have hsame := flatMap_wr32_injective (by rw [hhead.length, hhead.length]) hcut
      have hflag := congrArg (fun x ↦ x.getD flagAt 0) hsame
      rw [hhead.flag, hhead.flag] at hflag
      exact absurd hflag (by decide)
    · simp only [length_append, height, length_nil] at htotal
      omega
  · rw [hhead.flag] at hfile htotal
    rcases h with ⟨i, octet, hi, hne, rfl⟩ | ⟨k, hk, rfl⟩ | ⟨rest, hrest, rfl⟩
    · rw [hhash, hhash] at hfile
      rw [hhash] at hi hne
      exact hne (getElem?_of_set_hashed hbody hi hfile)
    · rw [length_take_of_le hk.le] at htotal
      simp only [length_append, height] at htotal hk
      omega
    · simp only [length_append, height] at htotal
      exact hrest (length_eq_zero_iff.1 (by omega))

theorem loadImage_legacy (hhead : HeaderOf words flagAt check head) {place : ℕ}
    (hplace : ∀ rest, ((head 1).flatMap wr32 ++ rest)[place]? = some 1)
    (hlegacy : file[place]? = some 0) {loaded : List (List Octet)}
    (hload : loadImage words flagAt check sizes valid file = .ok loaded) :
    file.length = 4 * words + sizes.sum := by
  obtain ⟨header, hwords, hok, rfl, -, rfl⟩ := loadImage_eq_ok.1 hload
  rcases (hhead.check _).1 hok with rfl | rfl
  · have hnone : trailer 0 loaded = [] := rfl
    rw [fileOf, hhead.flag, hnone, append_nil, length_append, length_flatMap_wr32, hwords,
      length_flatten]
  · rw [fileOf, hplace] at hlegacy
    cases hlegacy

theorem loadImage_error {e : StorageStatus}
    (h : loadImage words flagAt check sizes valid file = .error e) : e ≠ .ok := by
  unfold loadImage checkHash at h
  grind

variable {σ : Type} {load : σ → List Octet → StorageStatus × σ} {m : σ}

/-- The file takes the device to another state, and damaged leaves it as it is. -/
def Survives (load : σ → List Octet → StorageStatus × σ) (m restored : σ) (file : List Octet) :
    Prop :=
  load m file = (.ok, restored) ∧
    ∀ other, Damaged file other → (load m other).1 ≠ .ok ∧ (load m other).2 = m

theorem survives_fileOf {restore : List (List Octet) → σ}
    (hload : ∀ file, load m file = match loadImage words flagAt check sizes valid file with
      | .error e => (e, m)
      | .ok loaded => (.ok, restore loaded))
    (hhead : HeaderOf words flagAt check head) (hsizes : buffers.map List.length = sizes)
    (hvalid : valid buffers = true) :
    Survives load m (restore buffers) (fileOf flagAt (head 1) buffers) := by
  refine ⟨by rw [hload, loadImage_fileOf hhead hsizes hvalid (.inr rfl)], fun other h ↦ ?_⟩
  rw [hload]
  cases hother : loadImage words flagAt check sizes valid other with
  | error e => exact ⟨loadImage_error hother, rfl⟩
  | ok loaded => exact absurd hother (loadImage_damaged hhead hsizes h loaded)

theorem known_flags (flags : Word) :
    flags &&& ~~~storageFlagChecksum = 0 ↔ flags = 0 ∨ flags = 1 := by
  constructor
  · intro h
    have hbit (i : ℕ) (hi : 0 < i) : flags.getLsbD i = false := by
      have hclear := congrArg (fun w ↦ w.getLsbD i) h
      by_cases hlt : i < 32
      · rw [BitVec.getLsbD_and, BitVec.getLsbD_not, storageFlagChecksum] at hclear
        simpa [BitVec.getLsbD_one, hlt, hi.ne'] using hclear
      · exact BitVec.getLsbD_of_ge _ _ (Nat.le_of_not_lt hlt)
    cases hlow : flags.getLsbD 0
    · left
      apply BitVec.eq_of_getLsbD_eq
      intro i _
      rcases Nat.eq_zero_or_pos i with rfl | hi
      · simpa using hlow
      · simpa using hbit i hi
    · right
      apply BitVec.eq_of_getLsbD_eq
      intro i _
      rcases Nat.eq_zero_or_pos i with rfl | hi
      · simpa using hlow
      · simpa [BitVec.getLsbD_one, hi.ne'] using hbit i hi
  · rintro (rfl | rfl) <;> decide

def Nand.geometry (n : Nand) : Word × Word × Word × Word :=
  (n.pageSize, n.spareSize, n.pagesPerBlock, n.blockCount)

theorem headerOf_nand (n : Nand) : HeaderOf 8 6 (nandHeaderCheck n) n.header where
  length _ := rfl
  flag _ := rfl
  check header := by
    unfold nandHeaderCheck
    split
    · have hflags := known_flags
      grind [Nand.header]
    · grind [Nand.header]

theorem headerOf_nor (n : Nor) : HeaderOf 4 3 (norHeaderCheck n) n.header where
  length _ := rfl
  flag _ := rfl
  check header := by
    unfold norHeaderCheck
    split
    · have hflags := known_flags
      grind [Nor.header]
    · grind [Nor.header]

/-- The devices and their buffers. -/
def Nand.Sized (n : Nand) : Prop := [n.data, n.spare, n.bad].map List.length = n.sizes

def Nor.Sized (n : Nor) : Prop := n.data.length = n.size.toNat

/-- What is saved is what is loaded into a device of the same geometry, a damaged file leaves the
device as it is, and a file without the flag is loaded at its exact length only. -/
theorem storage_exact (n : Nand) (r : Nor) (hn : n.Sized) (hr : r.Sized) :
    ((∃ file, storageSaveNand n = .ok file) ↔ ∀ octet ∈ n.bad, octet ≤ 1) ∧
    (∀ file, storageSaveNand n = .ok file → ∀ m : Nand, m.geometry = n.geometry →
      Survives storageLoadNand m { m with data := n.data, spare := n.spare, bad := n.bad } file) ∧
    (∀ m : Nor, m.size = r.size → Survives storageLoadNor m
      { m with data := r.data, images := norScan r.data } (storageSaveNor r)) ∧
    (∀ (m : Nand) (file : List Octet), file[24]? = some 0 → (storageLoadNand m file).1 = .ok →
      file.length = 32 + m.sizes.sum) ∧
    ∀ (m : Nor) (file : List Octet), file[12]? = some 0 → (storageLoadNor m file).1 = .ok →
      file.length = 16 + m.size.toNat := by
  refine ⟨?_, fun file hfile m hgeometry ↦ ?_, fun m hsize ↦ ?_, fun m file hlegacy h ↦ ?_,
    fun m file hlegacy h ↦ ?_⟩
  · have hvalid : badTableValid n.bad = true ↔ ∀ octet ∈ n.bad, octet ≤ 1 := by
      simp [badTableValid]
    rw [← hvalid]
    cases h : badTableValid n.bad <;> simp [storageSaveNand, h]
  · unfold storageSaveNand at hfile
    split at hfile
    · cases hfile
    rename_i hbad
    cases hfile
    obtain ⟨hpage, hspare, hblock, hcount⟩ := by simpa [Nand.geometry] using hgeometry
    have hheader : m.header = n.header := by
      funext flags
      rw [Nand.header, Nand.header, hpage, hspare, hblock, hcount]
    have hsizes : m.sizes = n.sizes := by
      simp only [Nand.sizes, nandTotalPages, hpage, hspare, hblock, hcount]
    have hsurvives := @survives_fileOf 8 6 (nandHeaderCheck m) m.sizes
      (fun x ↦ badTableValid (x.getD 2 [])) m.header [n.data, n.spare, n.bad] Nand storageLoadNand m
      (fun x ↦ { m with data := x.getD 0 [], spare := x.getD 1 [], bad := x.getD 2 [] })
      (fun _ ↦ rfl) (headerOf_nand m) (hn.trans hsizes.symm) (by simpa using hbad)
    rwa [saveImage_eq 6 rfl, ← hheader]
  · have hheader : m.header = r.header := by
      funext flags
      rw [Nor.header, Nor.header, hsize]
    have hsurvives := @survives_fileOf 4 3 (norHeaderCheck m) [m.size.toNat] (fun _ ↦ true) m.header
      [r.data] Nor storageLoadNor m
      (fun x ↦ { m with data := x.flatten, images := norScan x.flatten }) (fun _ ↦ rfl)
      (headerOf_nor m) (by rw [hsize, ← hr]; rfl) rfl
    rw [flatten_singleton] at hsurvives
    rwa [storageSaveNor, saveImage_eq 3 rfl, ← hheader]
  · unfold storageLoadNand at h
    split at h
    · exact absurd h (loadImage_error (by assumption))
    rename_i hload
    exact loadImage_legacy (headerOf_nand m) (fun _ ↦ rfl) hlegacy hload
  · unfold storageLoadNor at h
    split at h
    · exact absurd h (loadImage_error (by assumption))
    rename_i hload
    have hlength := loadImage_legacy (headerOf_nor m) (fun _ ↦ rfl) hlegacy hload
    rwa [sum_singleton] at hlength

/-- An erased device of one octet. -/
def erased : Nor := ⟨1, [0xff], []⟩

theorem storage_exact_erased :
    Survives storageLoadNor erased { erased with images := norScan [0xff] }
      (storageSaveNor erased) :=
  (storage_exact ⟨1, 1, 1, 1, [0xff], [0xff], [0]⟩ erased rfl rfl).2.2.1 erased rfl

end S5LBox.Soc
