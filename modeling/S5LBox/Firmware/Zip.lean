import S5LBox.Firmware.Dmg
import S5LBox.Firmware.Inflate
import S5LBox.Library.Crc
import S5LBox.Library.LittleEndian

/-!
# The archive reader

Members of a ZIP archive are found through its central directory, and extracted with their
checksum recomputed on the way. The archive is read through a callback that may fail at any time;
what the reader was told and what it asked for is kept beside the state of the callbacks.
-/

namespace S5LBox.Firmware

open Attempt
open BitVec (ofNat)

/-- `vmfw_zip_status_t` without success. -/
inductive ZipStatus
  | invalidArgument | read | notZip | multiDisk | zip64 | badDirectory | tooMany | nameTooLong
  | encrypted | badMethod | badLocalHeader | memberTruncated | inflate | crcMismatch | sink
deriving DecidableEq, Repr

/-- Why an operation on an archive stops early. The last is no status of the source: the theorems
show that it does not come about. -/
inductive ZipStop
  | status (s : ZipStatus)
  | lost
deriving DecidableEq, Repr

def zipRd16 (data : List Octet) (index : ℕ) : Half :=
  ofNat 16 (LittleEndian.get ((data.drop index).take 2))

def zipRd32 (data : List Octet) (index : ℕ) : Word :=
  ofNat 32 (LittleEndian.get ((data.drop index).take 4))

def zipRd64 (data : List Octet) (index : ℕ) : DWord :=
  ofNat 64 (LittleEndian.get ((data.drop index).take 8))

def sigLocal : Word := 0x04034b50
def sigCentral : Word := 0x02014b50
def sigEocd : Word := 0x06054b50
def sigEocd64 : Word := 0x06064b50
def sigEocd64Loc : Word := 0x07064b50

def eocdSize : ℕ := 22
def eocd64LocSize : ℕ := 20
def eocd64MinSize : ℕ := 56
def centralMinSize : ℕ := 46
def localMinSize : ℕ := 30
def eocdMaxScan : ℕ := eocdSize + 0xffff
def zip64Sentinel32 : Word := 0xffffffff
def zip64Sentinel16 : Half := 0xffff
def zipMaxName : ℕ := 256
def zipMethodStore : Half := 0
def zipMethodDeflate : Half := 8

def crc32Table : List Word :=
  [0x00000000, 0x77073096, 0xee0e612c, 0x990951ba, 0x076dc419, 0x706af48f, 0xe963a535,
    0x9e6495a3, 0x0edb8832, 0x79dcb8a4, 0xe0d5e91e, 0x97d2d988, 0x09b64c2b, 0x7eb17cbd,
    0xe7b82d07, 0x90bf1d91, 0x1db71064, 0x6ab020f2, 0xf3b97148, 0x84be41de, 0x1adad47d,
    0x6ddde4eb, 0xf4d4b551, 0x83d385c7, 0x136c9856, 0x646ba8c0, 0xfd62f97a, 0x8a65c9ec,
    0x14015c4f, 0x63066cd9, 0xfa0f3d63, 0x8d080df5, 0x3b6e20c8, 0x4c69105e, 0xd56041e4,
    0xa2677172, 0x3c03e4d1, 0x4b04d447, 0xd20d85fd, 0xa50ab56b, 0x35b5a8fa, 0x42b2986c,
    0xdbbbc9d6, 0xacbcf940, 0x32d86ce3, 0x45df5c75, 0xdcd60dcf, 0xabd13d59, 0x26d930ac,
    0x51de003a, 0xc8d75180, 0xbfd06116, 0x21b4f4b5, 0x56b3c423, 0xcfba9599, 0xb8bda50f,
    0x2802b89e, 0x5f058808, 0xc60cd9b2, 0xb10be924, 0x2f6f7c87, 0x58684c11, 0xc1611dab,
    0xb6662d3d, 0x76dc4190, 0x01db7106, 0x98d220bc, 0xefd5102a, 0x71b18589, 0x06b6b51f,
    0x9fbfe4a5, 0xe8b8d433, 0x7807c9a2, 0x0f00f934, 0x9609a88e, 0xe10e9818, 0x7f6a0dbb,
    0x086d3d2d, 0x91646c97, 0xe6635c01, 0x6b6b51f4, 0x1c6c6162, 0x856530d8, 0xf262004e,
    0x6c0695ed, 0x1b01a57b, 0x8208f4c1, 0xf50fc457, 0x65b0d9c6, 0x12b7e950, 0x8bbeb8ea,
    0xfcb9887c, 0x62dd1ddf, 0x15da2d49, 0x8cd37cf3, 0xfbd44c65, 0x4db26158, 0x3ab551ce,
    0xa3bc0074, 0xd4bb30e2, 0x4adfa541, 0x3dd895d7, 0xa4d1c46d, 0xd3d6f4fb, 0x4369e96a,
    0x346ed9fc, 0xad678846, 0xda60b8d0, 0x44042d73, 0x33031de5, 0xaa0a4c5f, 0xdd0d7cc9,
    0x5005713c, 0x270241aa, 0xbe0b1010, 0xc90c2086, 0x5768b525, 0x206f85b3, 0xb966d409,
    0xce61e49f, 0x5edef90e, 0x29d9c998, 0xb0d09822, 0xc7d7a8b4, 0x59b33d17, 0x2eb40d81,
    0xb7bd5c3b, 0xc0ba6cad, 0xedb88320, 0x9abfb3b6, 0x03b6e20c, 0x74b1d29a, 0xead54739,
    0x9dd277af, 0x04db2615, 0x73dc1683, 0xe3630b12, 0x94643b84, 0x0d6d6a3e, 0x7a6a5aa8,
    0xe40ecf0b, 0x9309ff9d, 0x0a00ae27, 0x7d079eb1, 0xf00f9344, 0x8708a3d2, 0x1e01f268,
    0x6906c2fe, 0xf762575d, 0x806567cb, 0x196c3671, 0x6e6b06e7, 0xfed41b76, 0x89d32be0,
    0x10da7a5a, 0x67dd4acc, 0xf9b9df6f, 0x8ebeeff9, 0x17b7be43, 0x60b08ed5, 0xd6d6a3e8,
    0xa1d1937e, 0x38d8c2c4, 0x4fdff252, 0xd1bb67f1, 0xa6bc5767, 0x3fb506dd, 0x48b2364b,
    0xd80d2bda, 0xaf0a1b4c, 0x36034af6, 0x41047a60, 0xdf60efc3, 0xa867df55, 0x316e8eef,
    0x4669be79, 0xcb61b38c, 0xbc66831a, 0x256fd2a0, 0x5268e236, 0xcc0c7795, 0xbb0b4703,
    0x220216b9, 0x5505262f, 0xc5ba3bbe, 0xb2bd0b28, 0x2bb45a92, 0x5cb36a04, 0xc2d7ffa7,
    0xb5d0cf31, 0x2cd99e8b, 0x5bdeae1d, 0x9b64c2b0, 0xec63f226, 0x756aa39c, 0x026d930a,
    0x9c0906a9, 0xeb0e363f, 0x72076785, 0x05005713, 0x95bf4a82, 0xe2b87a14, 0x7bb12bae,
    0x0cb61b38, 0x92d28e9b, 0xe5d5be0d, 0x7cdcefb7, 0x0bdbdf21, 0x86d3d2d4, 0xf1d4e242,
    0x68ddb3f8, 0x1fda836e, 0x81be16cd, 0xf6b9265b, 0x6fb077e1, 0x18b74777, 0x88085ae6,
    0xff0f6a70, 0x66063bca, 0x11010b5c, 0x8f659eff, 0xf862ae69, 0x616bffd3, 0x166ccf45,
    0xa00ae278, 0xd70dd2ee, 0x4e048354, 0x3903b3c2, 0xa7672661, 0xd06016f7, 0x4969474d,
    0x3e6e77db, 0xaed16a4a, 0xd9d65adc, 0x40df0b66, 0x37d83bf0, 0xa9bcae53, 0xdebb9ec5,
    0x47b2cf7f, 0x30b5ffe9, 0xbdbdf21c, 0xcabac28a, 0x53b39330, 0x24b4a3a6, 0xbad03605,
    0xcdd70693, 0x54de5729, 0x23d967bf, 0xb3667a2e, 0xc4614ab8, 0x5d681b02, 0x2a6f2b94,
    0xb40bbe37, 0xc30c8ea1, 0x5a05df1b, 0x2d02ef8d]

def crc32Octet (crc : Word) (octet : Octet) : Word :=
  crc32Table.getD ((crc ^^^ octet.setWidth 32) &&& 0xff).toNat 0 ^^^ crc >>> 8

def vmfwCrc32 (crc : Word) (data : List Octet) : Word := ~~~(data.foldl crc32Octet (~~~crc))

/-- The state of the callbacks, and what goes on between them and the reader: the reads that were
issued, whether a sum of offsets has wrapped, and for one operation whether a read came short, the
records of the directory whose entries were visited, the octets that the sink was given, whether it
has refused some, and the status with which the inflater stopped. Only the first is a part of the
source. -/
structure ZipWorld (ω : Type) where
  world : ω
  reads : List (DWord × ℕ)
  short : Bool
  wrapped : Bool
  visited : List (DWord × ℕ)
  given : List Octet
  refused : Bool
  stream : Option InflateError

def ZipWorld.start {ω : Type} (world : ω) : ZipWorld ω :=
  ⟨world, [], false, false, [], [], false, none⟩

/-- `vmfw_zip_t` without its callback. -/
structure Zip where
  size : DWord
  cdOffset : DWord
  cdSize : DWord
  entryCount : Word
deriving DecidableEq, Repr

structure ZipEntry where
  name : List Octet
  compressedSize : DWord
  uncompressedSize : DWord
  localHeaderOffset : DWord
  crc32 : Word
  method : Half
  isDirectory : Bool
deriving DecidableEq, Repr

abbrev Zipping (ω α : Type) := Attempt ZipStop (ZipWorld ω) α

section

variable {ω : Type}

/-- The sum of an offset and a number, as the source computes it. -/
def addOff (a b : DWord) : Zipping ω DWord := fun st ↦
  (.ok (a + b), { st with wrapped := st.wrapped || decide (2 ^ 64 ≤ a.toNat + b.toNat) })

/-- The callback is asked for `len` octets; anything but all of them is a failure. -/
def ZipWorld.pread (st : ZipWorld ω) (ch : Channel ω) (off : DWord) (len : ℕ) :
    Option (List Octet) × ZipWorld ω :=
  let answer := ch.pread st.world off.toNat len
  let data := answer.2.filter fun data ↦ data.length = len
  (data, { st with
    world := answer.1
    reads := st.reads ++ [(off, len)]
    short := st.short || data.isNone })

variable (ch : Channel ω)

/-- `read_exact`, whose callers all report a failure as the same status. -/
def readExact (size off : DWord) (len : ℕ) : Zipping ω (List Octet) :=
  if len = 0 then pure []
  else if size < off ∨ (size - off).toNat < len then refuse (.status .read)
  else do
    let data ← lift fun st ↦ st.pread ch off len
    expect data (.status .read)

def readZip64 (zip : Zip) (eocdOff : DWord) : Zipping ω Zip :=
  if eocdOff.toNat < eocd64LocSize then pure zip
  else do
    let loc ← readExact ch zip.size (eocdOff - ofNat 64 eocd64LocSize) eocd64LocSize
    if zipRd32 loc 0 ≠ sigEocd64Loc then pure zip
    else do
      require (zipRd32 loc 4 = 0) (.status .multiDisk)
      require (zipRd32 loc 16 ≤ 1) (.status .multiDisk)
      let recOff := zipRd64 loc 8
      require (recOff ≤ zip.size ∧ eocd64MinSize ≤ (zip.size - recOff).toNat) (.status .zip64)
      let record ← readExact ch zip.size recOff eocd64MinSize
      require (zipRd32 record 0 = sigEocd64) (.status .zip64)
      require (zipRd32 record 16 = 0 ∧ zipRd32 record 20 = 0) (.status .multiDisk)
      let total := zipRd64 record 32
      require (total ≤ 0xffffffff) (.status .tooMany)
      pure { zip with
        entryCount := total.setWidth 32
        cdSize := zipRd64 record 40
        cdOffset := zipRd64 record 48 }

/-- The last place in a window, of the first `count` ones, where a record may start that fits in
the file. -/
def scanWindow (size start : DWord) (win : List Octet) : ℕ → Zipping ω (Option DWord)
  | 0 => pure none
  | i + 1 => do
    let place ← addOff start (ofNat 64 i)
    let stop ← addOff place (ofNat 64 eocdSize)
    if size < stop then scanWindow size start win i
    else if zipRd32 win i = sigEocd then pure (some place)
    else scanWindow size start win i

def scanWindowSize : ℕ := 4096
def scanOverlap : DWord := 3

/-- The windows, from the end of the file backwards. -/
def scanLoop (size scanStart : DWord) : ℕ → DWord → Zipping ω (Option DWord)
  | 0, _ => refuse .lost
  | turns + 1, winEnd => do
    let chunk := min (winEnd - scanStart).toNat scanWindowSize
    if chunk < 4 then pure none
    else do
      let start := winEnd - ofNat 64 chunk
      let win ← readExact ch size start chunk
      let found ← scanWindow size start win (chunk - 3)
      if found.isSome ∨ start = scanStart then pure found
      else do
        let winEnd ← addOff start scanOverlap
        scanLoop size scanStart turns winEnd

/-- What the classic record says, and whether the true values are elsewhere. -/
def classicZip (size : DWord) (eocd : List Octet) : Zip × Bool :=
  (⟨size, (zipRd32 eocd 16).setWidth 64, (zipRd32 eocd 12).setWidth 64,
      (zipRd16 eocd 10).setWidth 32⟩,
    decide (zipRd16 eocd 10 = zip64Sentinel16 ∨ zipRd32 eocd 12 = zip64Sentinel32 ∨
      zipRd32 eocd 16 = zip64Sentinel32))

/-- The turns that the scan takes at most. -/
def scanTurns : ℕ := eocdMaxScan

def vmfwZipOpen (size : DWord) : Zipping ω Zip := do
  modify fun st ↦ { st with short := false }
  require (eocdSize ≤ size.toNat) (.status .notZip)
  let scanLen := min size.toNat eocdMaxScan
  let scanStart := size - ofNat 64 scanLen
  let found ← scanLoop ch size scanStart scanTurns size
  let eocdOff ← expect found (.status .notZip)
  let eocd ← readExact ch size eocdOff eocdSize
  require (zipRd16 eocd 4 = 0 ∧ zipRd16 eocd 6 = 0) (.status .multiDisk)
  require (zipRd16 eocd 8 = zipRd16 eocd 10) (.status .multiDisk)
  let classic := classicZip size eocd
  let zip ← readZip64 ch classic.1 eocdOff
  require (¬(classic.2 = true ∧ (zip.cdOffset = zip64Sentinel32.setWidth 64 ∨
    zip.cdSize = zip64Sentinel32.setWidth 64 ∨
    zip.entryCount = zip64Sentinel16.setWidth 32))) (.status .zip64)
  require (zip.cdOffset ≤ size ∧ zip.cdSize ≤ size - zip.cdOffset) (.status .badDirectory)
  require (zip.entryCount.toNat * centralMinSize ≤ zip.cdSize.toNat) (.status .tooMany)
  pure zip

/-- Which of the 32-bit fields of a record hold the sentinel. -/
structure Zip64Need where
  usize : Bool
  csize : Bool
  offset : Bool
deriving DecidableEq, Repr

def Zip64Need.want (need : Zip64Need) : ℕ :=
  (if need.usize then 8 else 0) + (if need.csize then 8 else 0) + if need.offset then 8 else 0

/-- The 64-bit values stand one after another, those alone that are needed. -/
def ZipEntry.widen (e : ZipEntry) (need : Zip64Need) (body : List Octet) : ZipEntry :=
  let e := if need.usize then { e with uncompressedSize := zipRd64 body 0 } else e
  let p := if need.usize then 8 else 0
  let e := if need.csize then { e with compressedSize := zipRd64 body p } else e
  let p := if need.csize then p + 8 else p
  if need.offset then { e with localHeaderOffset := zipRd64 body p } else e

/-- `apply_zip64_extra`, from `off` on. -/
def applyZip64Extra (zip : Zip) (extraOff : DWord) (extraLen : ℕ) (e : ZipEntry)
    (need : Zip64Need) : ℕ → ℕ → Zipping ω ZipEntry
  | 0, _ => refuse .lost
  | turns + 1, off =>
    if extraLen < off + 4 then refuse (.status .zip64)
    else do
      let place ← addOff extraOff (ofNat 64 off)
      let hdr ← readExact ch zip.size place 4
      let len := (zipRd16 hdr 2).toNat
      require (off + 4 + len ≤ extraLen) (.status .badDirectory)
      if zipRd16 hdr 0 = 1 then do
        require (need.want ≤ len ∧ need.want ≤ 24) (.status .zip64)
        let place ← addOff place 4
        let body ← readExact ch zip.size place need.want
        pure (e.widen need body)
      else applyZip64Extra zip extraOff extraLen e need turns (off + 4 + len)

/-- The visitor, which says whether it wants more. -/
abbrev ZipVisit (ω : Type) := ω → ZipEntry → ℕ → ω × Bool

def visitEntry (visit : ZipVisit ω) (e : ZipEntry) (index : ℕ) (record : DWord × ℕ) :
    Zipping ω Bool := fun st ↦
  let answer := visit st.world e index
  (.ok answer.2, { st with world := answer.1, visited := st.visited ++ [record] })

/-- How long a record of the directory says that it is. -/
def recordLength (hdr : List Octet) : ℕ :=
  centralMinSize + (zipRd16 hdr 28).toNat + (zipRd16 hdr 30).toNat + (zipRd16 hdr 32).toNat

/-- The entry that a record gives before its extra field is looked at. -/
def centralEntry (hdr name : List Octet) : ZipEntry where
  name := name
  compressedSize := (zipRd32 hdr 20).setWidth 64
  uncompressedSize := (zipRd32 hdr 24).setWidth 64
  localHeaderOffset := (zipRd32 hdr 42).setWidth 64
  crc32 := zipRd32 hdr 16
  method := zipRd16 hdr 10
  isDirectory := name.getLast? = some 0x2f

def zip64Need (hdr : List Octet) : Zip64Need where
  usize := zipRd32 hdr 24 = zip64Sentinel32
  csize := zipRd32 hdr 20 = zip64Sentinel32
  offset := zipRd32 hdr 42 = zip64Sentinel32

/-- The name of a record and its entry. -/
def readRecord (zip : Zip) (off : DWord) (hdr : List Octet) : Zipping ω ZipEntry := do
  let flags := zipRd16 hdr 8
  let nameLen := (zipRd16 hdr 28).toNat
  require (flags &&& 0x0001 = 0 ∧ flags &&& 0x0040 = 0) (.status .encrypted)
  require (nameLen < zipMaxName) (.status .nameTooLong)
  let nameOff ← addOff off (ofNat 64 centralMinSize)
  let name ← readExact ch zip.size nameOff nameLen
  require (0 ∉ name) (.status .badDirectory)
  let e := centralEntry hdr name
  let need := zip64Need hdr
  let extraLen := (zipRd16 hdr 30).toNat
  if need.usize || need.csize || need.offset then do
    let extraOff ← addOff nameOff (ofNat 64 nameLen)
    applyZip64Extra ch zip extraOff extraLen e need (extraLen + 1) 0
  else pure e

/-- The records that are left, of which the first has the index `index` and starts at `off`. -/
def iterateLoop (visit : ZipVisit ω) (zip : Zip) (stop : DWord) : ℕ → ℕ → DWord → Zipping ω Unit
  | 0, _, _ => pure ()
  | count + 1, index, off => do
    let headerEnd ← addOff off (ofNat 64 centralMinSize)
    require (headerEnd ≤ stop) (.status .badDirectory)
    let hdr ← readExact ch zip.size off centralMinSize
    require (zipRd32 hdr 0 = sigCentral) (.status .badDirectory)
    let recordEnd ← addOff off (ofNat 64 (recordLength hdr))
    require (recordEnd ≤ stop) (.status .badDirectory)
    let e ← readRecord ch zip off hdr
    require (e.localHeaderOffset ≤ zip.size) (.status .badDirectory)
    let more ← visitEntry visit e index (off, recordLength hdr)
    if more then iterateLoop visit zip stop count (index + 1) recordEnd else pure ()

def vmfwZipIterate (visit : ZipVisit ω) (zip : Zip) : Zipping ω Unit := do
  modify fun st ↦ { st with visited := [], short := false }
  let stop ← addOff zip.cdOffset zip.cdSize
  iterateLoop ch visit zip stop zip.entryCount.toNat 0 zip.cdOffset

/-- `member_source_t` and `crc_sink_t`. -/
structure Member (ω : Type) where
  reading : ZipWorld ω
  off : DWord
  remaining : DWord
  failed : Bool
  crc : Word
  total : DWord
  innerRefused : Bool

def Member.start (reading : ZipWorld ω) (off remaining : DWord) : Member ω :=
  ⟨reading, off, remaining, false, 0, 0, false⟩

def memberRead (m : Member ω) (cap : ℕ) : Member ω × Option (List Octet) :=
  if m.remaining = 0 then (m, some [])
  else
    let want := min cap m.remaining.toNat
    match m.reading.pread ch m.off want with
    | (none, reading) => ({ m with reading, failed := true }, none)
    | (some data, reading) =>
      let sum := addOff m.off (ofNat 64 want) reading
      ({ m with
        reading := sum.2
        off := m.off + ofNat 64 want
        remaining := m.remaining - ofNat 64 want }, some data)

/-- `crc_sink_write`, over the sink of the caller. -/
def crcSinkWrite (m : Member ω) (data : List Octet) : Member ω × Bool :=
  let answer := ch.sink m.reading.world data
  let m := { m with
    crc := vmfwCrc32 m.crc data
    total := m.total + ofNat 64 data.length
    reading := { m.reading with
      world := answer.1
      given := m.reading.given ++ data
      refused := m.reading.refused || !answer.2 } }
  if answer.2 then (m, true) else ({ m with innerRefused := true }, false)

/-- What the inflater works between. -/
def memberEndpoints : Endpoints (Member ω) := ⟨memberRead ch, crcSinkWrite ch⟩

def storeBuffer : ℕ := 8192

/-- The loop over a stored member. -/
def storeLoop : ℕ → Member ω → Except ZipStop Unit × Member ω
  | 0, m => (.error .lost, m)
  | turns + 1, m =>
    if m.remaining = 0 then (.ok (), m)
    else
      match memberRead ch m storeBuffer with
      | (m, none) => (.error (.status .read), m)
      | (m, some []) => (.error (.status .memberTruncated), m)
      | (m, some (octet :: rest)) =>
        match crcSinkWrite ch m (octet :: rest) with
        | (m, false) => (.error (.status .sink), m)
        | (m, true) => storeLoop turns m

/-- What is reported when the inflater has stopped. -/
def inflateStatus (m : Member ω) : ZipStatus :=
  if m.innerRefused then .sink else if m.failed then .read else .inflate

/-- The inflater over a member; it has fuel for the bits of the member. -/
def inflateMember (usize : DWord) (m : Member ω) : Except ZipStop Unit × Member ω :=
  let result := vmfwInflate (memberEndpoints ch) (8 * m.remaining.toNat + 1) m usize
  let m := result.2.world
  match result.1 with
  | .ok () => (.ok (), m)
  | .error (.error e) =>
    (.error (.status (inflateStatus m)), { m with reading := { m.reading with stream := some e } })
  | .error _ => (.error .lost, m)

/-- The payload of a member, by its method. -/
def extractPayload (entry : ZipEntry) (m : Member ω) : Except ZipStop Unit × Member ω :=
  if entry.method = zipMethodStore then
    if entry.compressedSize ≠ entry.uncompressedSize then (.error (.status .badDirectory), m)
    else storeLoop ch (m.remaining.toNat + 1) m
  else inflateMember ch entry.uncompressedSize m

/-- The payload of a member at `dataOff`; the result is its checksum and its length. -/
def extractData (entry : ZipEntry) (dataOff : DWord) : Zipping ω (Word × DWord) := fun st ↦
  let result := extractPayload ch entry (.start st dataOff entry.compressedSize)
  (result.1.map fun _ ↦ (result.2.crc, result.2.total), result.2.reading)

def vmfwZipExtract (zip : Zip) (entry : ZipEntry) : Zipping ω Unit := do
  modify fun st ↦ { st with given := [], refused := false, stream := none, short := false }
  require (entry.method = zipMethodStore ∨ entry.method = zipMethodDeflate) (.status .badMethod)
  require (entry.localHeaderOffset ≤ zip.size ∧
    localMinSize ≤ (zip.size - entry.localHeaderOffset).toNat) (.status .badLocalHeader)
  let lh ← readExact ch zip.size entry.localHeaderOffset localMinSize
  require (zipRd32 lh 0 = sigLocal) (.status .badLocalHeader)
  let nameOff ← addOff entry.localHeaderOffset (ofNat 64 localMinSize)
  let extraOff ← addOff nameOff ((zipRd16 lh 26).setWidth 64)
  let dataOff ← addOff extraOff ((zipRd16 lh 28).setWidth 64)
  require (dataOff ≤ zip.size ∧ entry.compressedSize ≤ zip.size - dataOff)
    (.status .memberTruncated)
  let sums ← extractData ch entry dataOff
  require (sums.2 = entry.uncompressedSize) (.status .memberTruncated)
  require (sums.1 = entry.crc32) (.status .crcMismatch)

end

end S5LBox.Firmware
