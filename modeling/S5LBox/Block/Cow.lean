import S5LBox.Block.Device
import S5LBox.Library.LittleEndian

/-!
# Copy-on-write overlays

`VMSnapshotCow.c`: the facade that saves a block to an overlay before the first write to it, and
the replay of an overlay onto a disk. The overlay is a file, a list of octets; what the host's
calls do about it is a parameter.
-/

namespace S5LBox.Block

def blockBytes : ℕ := 4096

theorem blockBytes_lt : blockBytes < 2 ^ 64 := by decide

theorem twoBlocks_lt : 8192 < 2 ^ 64 := by decide

def headerBytes : ℕ := 32
def indexBytes : ℕ := 8
def recordBytes : ℕ := indexBytes + blockBytes

/-- `VM_COW_MAGIC`, without the terminator. -/
def magic : List Octet := [0x53, 0x35, 0x4c, 0x42, 0x6f, 0x78, 0x43, 0x4f, 0x57]

def version : ℕ := 1

def header (size : ℕ) : List Octet :=
  magic ++ List.replicate 3 0 ++ LittleEndian.put 4 version ++ LittleEndian.put 4 blockBytes ++
    LittleEndian.put 8 size ++ List.replicate 4 0

/-- `get_le32`, `get_le64`: the number at an offset of a file. -/
def getLe (width : ℕ) (file : List Octet) (offset : ℕ) : ℕ :=
  LittleEndian.get ((file.drop offset).take width)

/-- The checks on a header that open and replay share. -/
def formatOk (file : List Octet) : Bool :=
  headerBytes ≤ file.length && file.take magic.length = magic && getLe 4 file 12 = version &&
    getLe 4 file 16 = blockBytes

inductive CowStatus where
  | ok
  | badArgument
  | io
  | badFormat
  | sizeMismatch
  | truncated
  | outOfMemory
  deriving DecidableEq, Repr

/-- What the host's memory and file calls do. `fopen` finds the file or, where that is asked for,
makes one; `accepts` is how much of a file's next write it takes, by the file's length. -/
structure Host where
  memory : Bool := true
  opens : Bool := true
  reads : Bool := true
  seeks : Bool := true
  closes : Bool := true
  accepts : ℕ → ℕ := fun _ ↦ recordBytes

/-- `read_exact`, with the octets read so far and the calls in a row that brought none. -/
def readExact (dev : Device) (s : dev.State) (offset want : ℕ) (done : List Octet) (stalls : ℕ) :
    Option (List Octet) × dev.State :=
  if want ≤ done.length then (some done, s)
  else
    let answer := dev.readAt s ((offset + done.length) % 2 ^ 64) (want - done.length)
    if answer.1 = .error then (none, answer.2.2)
    else if answer.2.1.length = 0 then
      if 64 < stalls + 1 then (none, answer.2.2)
      else readExact dev answer.2.2 offset want done (stalls + 1)
    else readExact dev answer.2.2 offset want (done ++ answer.2.1) 0
termination_by (want - done.length, 65 - stalls)
decreasing_by
  · exact Prod.Lex.right _ (by omega)
  · refine Prod.Lex.left _ _ ?_
    have hdata : answer.2.1.length ≠ 0 := ‹_›
    rw [List.length_append]
    change want - (done.length + answer.2.1.length) < want - done.length
    omega

/-- `write_exact`, with the number of octets written so far; it answers with their number at the
end. -/
def writeExact (dev : Device) (s : dev.State) (offset : ℕ) (source : List Octet)
    (done stalls : ℕ) : Bool × ℕ × dev.State :=
  if source.length ≤ done then (true, done, s)
  else
    let answer := dev.writeAt s ((offset + done) % 2 ^ 64) (source.drop done)
    if answer.1 = .error then (false, done, answer.2.2)
    else if answer.2.1 = 0 then
      if 64 < stalls + 1 then (false, done, answer.2.2)
      else writeExact dev answer.2.2 offset source done (stalls + 1)
    else writeExact dev answer.2.2 offset source (done + answer.2.1) 0
termination_by (source.length - done, 65 - stalls)
decreasing_by
  · exact Prod.Lex.right _ (by omega)
  · refine Prod.Lex.left _ _ ?_
    have htaken : answer.2.1 ≠ 0 := ‹_›
    change source.length - (done + answer.2.1) < source.length - done
    omega

/-- `struct vm_cow`: the disk under the facade, the overlay and the blocks that are in it. -/
structure Cow (dev : Device) where
  under : dev.State
  overlay : List Octet
  overlayBytes : ℕ
  saved : ℕ → Bool
  poisoned : Bool

def blockCount (dev : Device) : ℕ := dev.size / blockBytes

/-- `bit_set` on the bitmap. -/
def bitSet (saved : ℕ → Bool) (block : ℕ) : ℕ → Bool := Function.update saved block true

/-- The index of record `i` of an overlay. -/
def recordIndex (overlay : List Octet) (i : ℕ) : ℕ :=
  getLe indexBytes overlay (headerBytes + i * recordBytes)

/-- The loop of `index_existing`. -/
def indexRecords (count : ℕ) (overlay : List Octet) : List ℕ → (ℕ → Bool) → Option (ℕ → Bool)
  | [], saved => some saved
  | i :: rest, saved =>
    if count ≤ recordIndex overlay i then none
    else indexRecords count overlay rest (bitSet saved (recordIndex overlay i))

def indexExisting (host : Host) (dev : Device) (overlay : List Octet) :
    Except CowStatus (ℕ → Bool) :=
  if !host.seeks then .error .io
  else if overlay.length < headerBytes then .ok fun _ ↦ false
  else if (overlay.length - headerBytes) % recordBytes ≠ 0 then .error .truncated
  else if !host.reads then .error .io
  else
    match indexRecords (blockCount dev) overlay
      (List.range ((overlay.length - headerBytes) / recordBytes)) fun _ ↦ false with
    | none => .error .sizeMismatch
    | some saved => .ok saved

/-- `vm_cow_open` on an overlay that may not exist yet; it answers with the file as it leaves
it. -/
def vmCowOpen (host : Host) (dev : Device) (under : dev.State) (file : Option (List Octet)) :
    Except CowStatus (Cow dev) × Option (List Octet) :=
  if dev.size = 0 ∨ dev.size % blockBytes ≠ 0 then (.error .badArgument, file)
  else if !host.memory then (.error .outOfMemory, file)
  else if !host.opens then (.error .io, file)
  else
    match file with
    | none =>
      let overlay := (header dev.size).take (host.accepts 0)
      if overlay.length ≠ headerBytes then (.error .io, some overlay)
      else if !host.seeks then (.error .io, some overlay)
      else (.ok ⟨under, overlay, headerBytes, fun _ ↦ false, false⟩, some overlay)
    | some overlay =>
      if !host.reads || !formatOk overlay then (.error .badFormat, file)
      else if getLe 8 overlay 20 ≠ dev.size then (.error .sizeMismatch, file)
      else
        match indexExisting host dev overlay with
        | .error status => (.error status, file)
        | .ok saved => (.ok ⟨under, overlay, overlay.length, saved, false⟩, file)

/-- One turn of the saving loop of `cow_write_at`. -/
def saveBlock (host : Host) {dev : Device} (cow : Cow dev) (block : ℕ) : Bool × Cow dev :=
  if cow.saved block then (true, cow)
  else
    match readExact dev cow.under (block * blockBytes) blockBytes [] 0 with
    | (none, under) => (false, { cow with under := under, poisoned := true })
    | (some scratch, under) =>
      let record := LittleEndian.put indexBytes block ++ scratch
      let taken := record.take (host.accepts cow.overlay.length)
      if taken.length ≠ recordBytes then
        (false, { cow with under := under, overlay := cow.overlay ++ taken, poisoned := true })
      else
        (true, { cow with
          under := under
          overlay := cow.overlay ++ taken
          overlayBytes := cow.overlayBytes + recordBytes
          saved := bitSet cow.saved block })

def saveBlocks (host : Host) {dev : Device} : List ℕ → Cow dev → Bool × Cow dev
  | [], cow => (true, cow)
  | block :: rest, cow =>
    match saveBlock host cow block with
    | (false, cow) => (false, cow)
    | (true, cow) => saveBlocks host rest cow

/-- `cow_write_at`: save first, then write. -/
def cowWriteAt (host : Host) {dev : Device} (cow : Cow dev) (offset : DWord)
    (source : List Octet) : IoStatus × ℕ × Cow dev :=
  if cow.poisoned then (.error, 0, cow)
  else if source.length = 0 then (.ok, 0, cow)
  else
    let first := offset.toNat / blockBytes
    let last := ((offset.toNat + source.length - 1) % 2 ^ 64) / blockBytes
    if blockCount dev ≤ last then (.error, 0, cow)
    else
      match saveBlocks host (List.range' first (last + 1 - first)) cow with
      | (false, cow) => (.error, 0, cow)
      | (true, cow) =>
        let (ok, done, under) := writeExact dev cow.under offset.toNat source 0 0
        (if ok then .ok else .error, done, { cow with under := under })

/-- `cow_read_at`: straight through. -/
def cowReadAt {dev : Device} (cow : Cow dev) (offset : DWord) (requested : ℕ) :
    IoStatus × List Octet × Cow dev :=
  let (status, data, under) := dev.readAt cow.under offset.toNat requested
  (status, data, { cow with under := under })

def cowFlush (host : Host) {dev : Device} (cow : Cow dev) : IoStatus × Cow dev :=
  if !host.closes then (.error, cow)
  else
    let (status, under) := dev.flush cow.under
    (status, { cow with under := under })

/-- `vm_cow_close`; what the file holds afterwards is the overlay only if it ends well. -/
def vmCowClose (host : Host) {dev : Device} (cow : Cow dev) : CowStatus × dev.State × List Octet :=
  (if host.closes then .ok else .io, cow.under, cow.overlay)

/-- The loop of `vm_cow_replay`. -/
def replayRecords (host : Host) (dev : Device) (overlay : List Octet) :
    List ℕ → dev.State → CowStatus × dev.State
  | [], onto => (.ok, onto)
  | i :: rest, onto =>
    if !host.reads then (.io, onto)
    else
      let offset := (recordIndex overlay i * blockBytes) % 2 ^ 64
      let block := (overlay.drop (headerBytes + i * recordBytes + indexBytes)).take blockBytes
      if dev.size < (offset + blockBytes) % 2 ^ 64 then (.sizeMismatch, onto)
      else
        match writeExact dev onto offset block 0 0 with
        | (false, _, onto) => (.io, onto)
        | (true, _, onto) => replayRecords host dev overlay rest onto

def vmCowReplay (host : Host) (dev : Device) (onto : dev.State) (file : Option (List Octet)) :
    CowStatus × dev.State :=
  match file with
  | none => (.io, onto)
  | some overlay =>
    if !host.opens then (.io, onto)
    else if !host.reads || !formatOk overlay then (.badFormat, onto)
    else if getLe 8 overlay 20 ≠ dev.size then (.sizeMismatch, onto)
    else if !host.seeks then (.io, onto)
    else if (overlay.length - headerBytes) % recordBytes ≠ 0 then (.truncated, onto)
    else if !host.memory then (.outOfMemory, onto)
    else
      match replayRecords host dev overlay
        (List.range ((overlay.length - headerBytes) / recordBytes)) onto with
      | (.ok, onto) =>
        let (status, onto) := dev.flush onto
        (if status = .ok then .ok else .io, onto)
      | refused => refused

end S5LBox.Block
