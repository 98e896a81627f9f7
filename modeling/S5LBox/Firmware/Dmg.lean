import S5LBox.Firmware.Base64
import S5LBox.Firmware.Inflate

/-!
# Disk images

The root filesystem, two containers deep: an `encrcdsa` wrapper, decrypted block by block as it is
read, around a UDIF image whose chunks are expanded into a sink. The declared fields are 64-bit
numbers that nobody has checked, and they are added as such. The block cipher and the message
digest are given.
-/

namespace S5LBox.Firmware

open Attempt

/-- What the reader is built on: a read of `len` octets at an offset, which fails when fewer
come, and a sink. Both may change a state that they share. -/
structure Channel (ω : Type) where
  pread : ω → (offset len : ℕ) → ω × Option (List Octet)
  sink : ω → List Octet → ω × Bool

/-- `vmfw_hmac_sha1` and `aes_cbc_decrypt`, which decrypts in place. -/
structure Cipher where
  hmacSha1 : (key text : List Octet) → List Octet
  cbcDecrypt : (key iv data : List Octet) → List Octet
  length_cbcDecrypt : ∀ key iv data, (cbcDecrypt key iv data).length = data.length

inductive DmgStatus
  | invalidArgument | read | encrcdsaVersion | badBlockSize | badGeometry | keyRequired
  | badKeyLength | wrongKey | noKoly | badKoly | xml | noPartition | badBlkx | badChunk | chunkType
  | chunkSize | inflate | sink | tooManyChunks | scratchTooSmall | notContiguous
deriving DecidableEq, Repr

def encrcdsaHeader : ℕ := 0x48
def kolySize : ℕ := 512
def mishHeader : ℕ := 0xcc
def mishChunk : ℕ := 40
def maxChunks : ℕ := 1048576
def dmgKeyBlobSize : ℕ := 36
def dmgSectorSize : DWord := 512
def dmgMaxPartitions : ℕ := 32
def dmgMaxName : ℕ := 128
def dmgBlockBuffer : ℕ := 4096

def chunkZero : Word := 0x00000000
def chunkRaw : Word := 0x00000001
def chunkIgnore : Word := 0x00000002
def chunkZlib : Word := 0x80000005
def chunkComment : Word := 0x7ffffffe
def chunkEnd : Word := 0xffffffff

structure DmgReader where
  fileSize : ℕ
  encrypted : Bool
  dataOffset : ℕ
  plainSize : ℕ
  blockSize : ℕ
  aesKey : List Octet
  hmacKey : List Octet
deriving DecidableEq, Repr

section

variable {ω : Type} (ch : Channel ω) (cipher : Cipher)

/-- All of `len` octets at an offset. -/
def readAll (offset len : ℕ) : Attempt DmgStatus ω (List Octet) := do
  let data ← lift fun w ↦ ((ch.pread w offset len).2, (ch.pread w offset len).1)
  let data ← expect data .read
  require (data.length = len) .read
  pure data

def plainReader (fileSize : ℕ) : DmgReader := ⟨fileSize, false, 0, fileSize, 0, [], []⟩

def vmfwDmgReaderOpen (fileSize : ℕ) (key : Option (List Octet)) : Attempt DmgStatus ω DmgReader :=
  if fileSize < encrcdsaHeader then pure (plainReader fileSize)
  else do
    let h ← readAll ch 0 encrcdsaHeader
    if h.take 8 ≠ ascii "encrcdsa" then pure (plainReader fileSize)
    else
      require (getBe32 h 8 = 2) .encrcdsaVersion
      let blockSize := (getBe32 h 0x34).toNat
      let plainSize := (getBe64 h 0x38).toNat
      let dataOffset := (getBe64 h 0x40).toNat
      require (blockSize ≠ 0 ∧ blockSize ≤ 65536 ∧ blockSize % 16 = 0) .badBlockSize
      require (dataOffset ≤ fileSize) .badGeometry
      require (plainSize ≤ fileSize - dataOffset) .badGeometry
      let key ← expect key .keyRequired
      require (key.length = dmgKeyBlobSize) .badKeyLength
      pure ⟨fileSize, true, dataOffset, plainSize, blockSize, key.take 16, key.drop 16⟩

/-- The plaintext of the block with a number, from its ciphertext. -/
def DmgReader.decryptBlock (r : DmgReader) (index : ℕ) (block : List Octet) : List Octet :=
  cipher.cbcDecrypt r.aesKey ((cipher.hmacSha1 r.hmacKey (putBe32 (BitVec.ofNat 32 index))).take 16)
    block

/-- The blocks that a read touches; every turn yields an octet. -/
def decryptLoop (r : DmgReader) : ℕ → (pos len : ℕ) → Attempt DmgStatus ω (List Octet)
  | 0, _, _ => pure []
  | turns + 1, pos, len =>
    if len = 0 then pure []
    else do
      let index := pos / r.blockSize
      let within := pos - index * r.blockSize
      require (index ≤ 0xffffffff) .badGeometry
      let phys := r.dataOffset + index * r.blockSize
      require (phys ≤ r.fileSize ∧ r.blockSize ≤ r.fileSize - phys) .badGeometry
      let block ← readAll ch phys r.blockSize
      let take := min (r.blockSize - within) len
      let rest ← decryptLoop r turns (pos + take) (len - take)
      pure (((r.decryptBlock cipher index block).drop within).take take ++ rest)

def vmfwDmgReaderPread (r : DmgReader) (offset len : ℕ) : Attempt DmgStatus ω (List Octet) :=
  if len = 0 then pure []
  else do
    require (offset ≤ r.plainSize ∧ len ≤ r.plainSize - offset) .badGeometry
    if r.encrypted = false then readAll ch offset len
    else
      require (r.blockSize ≤ dmgBlockBuffer) .badBlockSize
      decryptLoop ch cipher r len offset len

structure DmgPartition where
  name : List Octet
  firstSector : DWord
  sectorCount : DWord
  blkxDataOffset : DWord
  b64Offset : ℕ
  b64Length : ℕ
  chunkCount : ℕ
deriving DecidableEq, Repr

structure DmgInfo where
  dataForkOffset : DWord
  dataForkLength : DWord
  xmlOffset : DWord
  xmlLength : DWord
  sectorCount : DWord
  partitions : List DmgPartition
deriving DecidableEq, Repr

/-- The fields of the trailer. -/
def readKoly (koly : List Octet) : DmgInfo where
  dataForkOffset := getBe64 koly 0x18
  dataForkLength := getBe64 koly 0x20
  xmlOffset := getBe64 koly 0xd8
  xmlLength := getBe64 koly 0xe0
  sectorCount := getBe64 koly 0x1ec
  partitions := []

/-- What `vmfw_dmg_probe` does before it reports how much room it needs, which is `xmlLength`. -/
def probeTrailer (r : DmgReader) : Attempt DmgStatus ω DmgInfo := do
  require (kolySize ≤ r.plainSize) .noKoly
  let koly ← vmfwDmgReaderPread ch cipher r (r.plainSize - kolySize) kolySize
  require (koly.take 4 = ascii "koly") (if r.encrypted then .wrongKey else .noKoly)
  let out := readKoly koly
  require (out.xmlLength ≠ 0) .badKoly
  require (out.xmlOffset.toNat ≤ r.plainSize ∧
    out.xmlLength.toNat ≤ r.plainSize - out.xmlOffset.toNat) .badKoly
  require (out.dataForkOffset.toNat ≤ r.plainSize ∧
    out.dataForkLength.toNat ≤ r.plainSize - out.dataForkOffset.toNat) .badKoly
  pure out

end

/-- `resource-fork/blkx/<i>/<leaf>`. -/
def blkxPath (i : ℕ) (leaf : String) : List Octet :=
  ascii "resource-fork/blkx/" ++ (if 10 ≤ i then [BitVec.ofNat 8 (0x30 + i / 10)] else []) ++
    BitVec.ofNat 8 (0x30 + i % 10) :: 0x2f :: ascii leaf

/-- The fields of a table's header. -/
def readMish (name mish : List Octet) (b64Offset b64Length : ℕ) : DmgPartition where
  name := name
  firstSector := getBe64 mish 0x08
  sectorCount := getBe64 mish 0x10
  blkxDataOffset := getBe64 mish 0x18
  b64Offset := b64Offset
  b64Length := b64Length
  chunkCount := (getBe32 mish 0xc8).toNat

def probePartition (xml : List Octet) (i : ℕ) : Except DmgStatus DmgPartition :=
  match vmfwPlistGetString xml (blkxPath i "Name") dmgMaxName with
  | .error _ => .error .xml
  | .ok name =>
    match vmfwPlistGetDataSpan xml (blkxPath i "Data") with
    | .error _ => .error .xml
    | .ok (b64Offset, b64Length) =>
      match decodeB64Prefix ((xml.drop b64Offset).take b64Length) mishHeader mishHeader with
      | .error _ => .error .badBlkx
      | .ok mish =>
        if mish.take 4 ≠ ascii "mish" then .error .badBlkx
        else
          let part := readMish name mish b64Offset b64Length
          if maxChunks < part.chunkCount then .error .tooManyChunks else .ok part

/-- The partitions that the resource fork names, the first 32 of them. -/
def probePartitions (xml : List Octet) : Except DmgStatus (List DmgPartition) :=
  match vmfwPlistInit xml, vmfwPlistArrayCount xml (ascii "resource-fork/blkx") with
  | .error _, _ => .error .xml
  | .ok _, .error _ => .error .xml
  | .ok _, .ok count =>
    if count = 0 then .error .xml
    else (List.range (min count dmgMaxPartitions)).mapM (probePartition xml)

/-- Whether a C string has another in it. -/
def strstr (text needle : List Octet) : Bool := (leading needle text).isSome || needle = []

def vmfwDmgFindPartition (info : DmgInfo) (needle : List Octet) : Except DmgStatus ℕ :=
  match info.partitions.findIdx? fun part ↦ strstr part.name needle with
  | none => .error .noPartition
  | some i => .ok i

section

variable {ω : Type} (ch : Channel ω) (cipher : Cipher)

/-- Parse trailer and resource fork into a buffer of `cap` octets; the result is what the buffer
holds and what the image says about itself. -/
def vmfwDmgProbe (r : DmgReader) (cap : ℕ) : Attempt DmgStatus ω (List Octet × DmgInfo) := do
  let info ← probeTrailer ch cipher r
  require (info.xmlLength.toNat ≤ cap) .invalidArgument
  let xml ← vmfwDmgReaderPread ch cipher r info.xmlOffset.toNat info.xmlLength.toNat
  match probePartitions xml with
  | .error e => refuse e
  | .ok partitions => pure (xml, { info with partitions })

/-- The counting sink, with what is behind it. -/
structure Walk (ω : Type) where
  world : ω
  total : DWord
  refused : Bool

/-- A chunk of an image on its way to the inflater. -/
structure ChunkSource (ω : Type) where
  walk : Walk ω
  off : DWord
  remaining : DWord
  failed : Bool

structure DmgChunk where
  type : Word
  sector : DWord
  count : DWord
  coff : DWord
  clen : DWord
deriving DecidableEq, Repr

def countingWrite (w : Walk ω) (data : List Octet) : Walk ω × Bool :=
  match ch.sink w.world data with
  | (world, false) => ({ w with world, refused := true }, false)
  | (world, true) => ({ w with world, total := w.total + BitVec.ofNat 64 data.length }, true)

/-- Hand octets to the counting sink. -/
def write (data : List Octet) : Attempt DmgStatus (Walk ω) Unit := do
  let ok ← lift fun w ↦ ((countingWrite ch w data).2, (countingWrite ch w data).1)
  require (ok = true) .sink

/-- A read of the image while the walk is on. -/
def readImage (r : DmgReader) (offset len : ℕ) : Attempt DmgStatus (Walk ω) (List Octet) :=
  fun w ↦
    let result := vmfwDmgReaderPread ch cipher r offset len w.world
    (result.1, { w with world := result.2 })

def chunkRead (r : DmgReader) (c : ChunkSource ω) (cap : ℕ) : ChunkSource ω × Option (List Octet) :=
  if c.remaining = 0 then (c, some [])
  else
    let want := min cap c.remaining.toNat
    match readImage ch cipher r c.off.toNat want c.walk with
    | (.error _, walk) => ({ c with walk, failed := true }, none)
    | (.ok data, walk) =>
      ({ c with
          walk
          off := c.off + BitVec.ofNat 64 want
          remaining := c.remaining - BitVec.ofNat 64 want }, some data)

def chunkEndpoints (r : DmgReader) : Endpoints (ChunkSource ω) where
  source := chunkRead ch cipher r
  sink c data := ({ c with walk := (countingWrite ch c.walk data).1 },
    (countingWrite ch c.walk data).2)

/-- Zeros, at most 4096 at a time; every turn emits some. -/
def emitZeros : ℕ → ℕ → Attempt DmgStatus (Walk ω) Unit
  | 0, _ => pure ()
  | turns + 1, count =>
    if count = 0 then pure ()
    else do
      let n := min count 4096
      write ch (List.replicate n 0)
      emitZeros turns (count - n)

/-- Octets of the image, at most 8192 at a time; every turn copies some. -/
def copyRaw (r : DmgReader) : ℕ → (pos left : ℕ) → Attempt DmgStatus (Walk ω) Unit
  | 0, _, _ => pure ()
  | turns + 1, pos, left =>
    if left = 0 then pure ()
    else do
      let n := min left 8192
      let buf ← readImage ch cipher r pos n
      write ch buf
      copyRaw r turns (pos + n) (left - n)

/-- Expand a compressed chunk that is `clen` octets at `abs` into `want` octets. The fuel is as many
turns as there are bits, which the inflater does not use up. -/
def expandZlib (r : DmgReader) (abs clen want : DWord) : Attempt DmgStatus (Walk ω) Unit :=
  fun w ↦
    let (result, inflater) := vmfwZlibInflate (chunkEndpoints ch cipher r) (8 * clen.toNat + 1)
      ⟨w, abs, clen, false⟩ want
    let walk := inflater.world.walk
    match result with
    | .error _ =>
      (.error (if walk.refused then .sink else if inflater.world.failed then .read else .inflate),
        walk)
    | .ok () => if walk.total - w.total ≠ want then (.error .chunkSize, walk) else (.ok (), walk)

/-- One chunk; `expectSector` is the sector that the partition goes on with. -/
def expandChunk (r : DmgReader) (part : DmgPartition) (dataBase expectSector : DWord) (c : DmgChunk) :
    Attempt DmgStatus (Walk ω) DWord :=
  if c.type = chunkComment ∨ c.type = chunkEnd then do
    require (c.count = 0) .badChunk
    pure expectSector
  else do
    require (c.sector = expectSector) .notContiguous
    require (c.count ≤ part.sectorCount - c.sector) .badChunk
    let next := c.sector + c.count
    let want := c.count * dmgSectorSize
    require (c.count = 0 ∨ want / c.count = dmgSectorSize) .badChunk
    if c.type = chunkZero ∨ c.type = chunkIgnore then
      emitZeros ch want.toNat want.toNat
      pure next
    else
      let abs := dataBase + c.coff
      require (c.coff.toNat ≤ r.plainSize ∧ abs.toNat ≤ r.plainSize ∧
        c.clen.toNat ≤ r.plainSize - abs.toNat) .badChunk
      if c.type = chunkRaw then
        require (c.clen = want) .chunkSize
        copyRaw ch cipher r c.clen.toNat abs.toNat c.clen.toNat
        pure next
      else
        require (c.type = chunkZlib) .chunkType
        expandZlib ch cipher r abs c.clen want
        pure next

/-- The walk over the table. -/
def expandChunks (r : DmgReader) (part : DmgPartition) (dataBase : DWord) :
    List DmgChunk → (expectSector : DWord) → Attempt DmgStatus (Walk ω) DWord
  | [], expectSector => pure expectSector
  | c :: rest, expectSector => do
    let expectSector ← expandChunk ch cipher r part dataBase expectSector c
    expandChunks r part dataBase rest expectSector

/-- An entry of the table. -/
def readChunk (table : List Octet) (i : ℕ) : DmgChunk where
  type := getBe32 table (mishHeader + i * mishChunk)
  sector := getBe64 table (mishHeader + i * mishChunk + 0x08)
  count := getBe64 table (mishHeader + i * mishChunk + 0x10)
  coff := getBe64 table (mishHeader + i * mishChunk + 0x18)
  clen := getBe64 table (mishHeader + i * mishChunk + 0x20)

/-- The chunk table of a partition, decoded into a buffer of `cap` octets. -/
def chunkTable (part : DmgPartition) (xml : List Octet) (cap : ℕ) :
    Except DmgStatus (List DmgChunk) :=
  let tableBytes := mishHeader + part.chunkCount * mishChunk
  if xml.length < part.b64Offset ∨ xml.length - part.b64Offset < part.b64Length then
    .error .badBlkx
  else if cap < tableBytes then .error .scratchTooSmall
  else
    match decodeB64Prefix ((xml.drop part.b64Offset).take part.b64Length) cap tableBytes with
    | .error _ => .error .badBlkx
    | .ok table =>
      if table.take 4 ≠ ascii "mish" then .error .badBlkx
      else .ok ((List.range part.chunkCount).map (readChunk table))

/-- The walk with its closing checks, on a walk that has produced nothing; the result is how many
octets came out. -/
def expandPartition (r : DmgReader) (part : DmgPartition) (dataBase : DWord)
    (chunks : List DmgChunk) : Attempt DmgStatus (Walk ω) DWord := do
  let expectSector ← expandChunks ch cipher r part dataBase chunks 0
  require (expectSector = part.sectorCount) .notContiguous
  let w ← get
  require (w.total = part.sectorCount * dmgSectorSize) .chunkSize
  pure w.total

def vmfwDmgExtractPartition (r : DmgReader) (info : DmgInfo) (xml : List Octet) (index cap : ℕ) :
    Attempt DmgStatus ω DWord :=
  match info.partitions[index]? with
  | none => refuse .noPartition
  | some part =>
    match chunkTable part xml cap with
    | .error e => refuse e
    | .ok chunks => fun world ↦
      let result := expandPartition ch cipher r part (info.dataForkOffset + part.blkxDataOffset)
        chunks ⟨world, 0, false⟩
      (result.1, result.2.world)

end

end S5LBox.Firmware
