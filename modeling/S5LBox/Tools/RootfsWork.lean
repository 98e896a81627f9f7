import S5LBox.Library.Attempt
import S5LBox.Library.Numeral
import S5LBox.Library.Program
import S5LBox.Word

/-!
# The work image

`rootfs_work_create` of `rootfs_work.c`, in its builds for POSIX and for Windows, over a file layer
any call of which may fail. The passes over an image are parameters: a check is any program that
reads the file it is given, an edit any program that reads, writes and resizes it.
-/

namespace S5LBox.Tools

open Function (update)
open Attempt (refuse require expect lift)

/-- `rootfs_work_status_t`, as far as the creation itself gives one. -/
inductive WorkStatus where
  | ok
  | invalidArgument
  | noMemory
  | pathUnsafe
  | sourceOpenFailed
  | sourceNotRegular
  | sourceAlias
  | sourceBusy
  | destinationExists
  | destinationOpenFailed
  | tempCreateFailed
  | readFailed
  | writeFailed
  | syncFailed
  | sourceChanged
  | sourceIdentityMismatch
  | hfsInvalid
  | rangeError
  | publishFailed
  | publishDurabilityFailed
  | refusedByPass (number : ℕ)
  deriving DecidableEq

inductive WorkStage where
  | none
  | arguments
  | sourcePath
  | destinationPath
  | sourceOpen
  | sourceValidate
  | sourceIdentity
  | tempCreate
  | copy
  | copyVerify
  | provisionPlan
  | finalValidate
  | flush
  | publish
  | directorySync
  | cleanup
  | pass (number : ℕ)
  deriving DecidableEq

/-- What `result_fail` notes, without the text. -/
structure WorkFailure where
  status : WorkStatus
  stage : WorkStage
  error : ℕ := 0

/-- `rootfs_work_result_t`, without what only the passes report. -/
structure WorkResult where
  status : WorkStatus := .ok
  stage : WorkStage := .none
  systemError : ℕ := 0
  cleanupSystemError : ℕ := 0
  sourceSize : ℕ := 0
  finalSize : ℕ := 0
  bytesCopied : ℕ := 0
  sourceSha256 : Option (List Octet) := none
  ioBufferBytes : ℕ := 0
  sourceIdentityVerified : Bool := false
  published : Bool := false
  temporaryLeft : Bool := false

inductive Platform where
  | posix
  | windows
  deriving DecidableEq

abbrev Leaf := List Octet

/-- A directory and a name in it. -/
abbrev FileName := ℕ × Leaf

abbrev Files := FileName → Option (List Octet)

/-- How a call turns out where the file layer has a say: whether it fails and how, how much of a
write that fails has landed, and what a stamp shows besides the size. -/
structure Fault where
  fails : Bool := false
  error : ℕ := 0
  part : ℕ := 0
  mark : ℕ := 0

/-- The platform, the process id, the directories that paths lead to, the paths as Windows spells
them out, and how every call turns out. -/
structure Surrounding where
  platform : Platform
  pid : ℕ
  directories : List Octet → Except WorkStatus ℕ
  fullPath : List Octet → List Octet
  faults : ℕ → Fault

inductive Handle where
  | source
  | temporary

/-- The file layer and the locals of `rootfs_work_create`. Beside them, the files as they have been
from the start and after every call. -/
structure Work where
  files : Files
  calls : ℕ := 0
  history : List Files
  source : Option FileName := none
  temporary : Option FileName := none
  created : Option FileName := none
  target : Option FileName := none
  result : WorkResult := {}

variable (around : Surrounding)

/-- A call of the file layer. -/
def Work.call {α : Type} (act : Fault → Work → α × Work) (w : Work) : α × Work :=
  let answer := act (around.faults w.calls) w
  (answer.1, { answer.2 with
    calls := w.calls + 1
    history := w.history ++ [answer.2.files] })

abbrev Step (α : Type) := Attempt WorkFailure Work α

def ask {α : Type} (act : Fault → Work → α × Work) : Step α := lift (Work.call around act)

def Work.name (w : Work) : Handle → Option FileName
  | .source => w.source
  | .temporary => w.temporary

/-- Octets written at an offset, zeros in between where the file was shorter. -/
def splice (octets : List Octet) (offset : ℕ) (data : List Octet) : List Octet :=
  (octets ++ List.replicate (offset - octets.length) 0).take offset ++ data ++
    octets.drop (offset + data.length)

/-- A call that answers with nothing but its outcome, and its error. -/
def outcome (fault : Fault) : Except ℕ Unit := if fault.fails then .error fault.error else .ok ()

def hostFileRead (handle : Handle) (offset length : ℕ) (fault : Fault) (w : Work) :
    Except ℕ (List Octet) × Work :=
  match (w.name handle).bind w.files with
  | none => (.error fault.error, w)
  | some octets =>
    let data := (octets.drop offset).take length
    if fault.fails ∨ data.length ≠ length then (.error fault.error, w) else (.ok data, w)

/-- `host_file_write`; the source is open for reading only. -/
def hostFileWrite (handle : Handle) (offset : ℕ) (data : List Octet) (fault : Fault) (w : Work) :
    Except ℕ Unit × Work :=
  match handle, w.temporary with
  | .temporary, some name =>
    let landed := if fault.fails then data.take fault.part else data
    (outcome fault, { w with
      files := update w.files name
        ((w.files name).map fun octets ↦ splice octets offset landed) })
  | _, _ => (.error fault.error, w)

def hostFileResize (handle : Handle) (size : ℕ) (fault : Fault) (w : Work) : Except ℕ Unit × Work :=
  match handle, w.temporary with
  | .temporary, some name =>
    if fault.fails then (.error fault.error, w)
    else (.ok (), { w with
      files := update w.files name
        ((w.files name).map fun octets ↦ splice (octets.take size) size []) })
  | _, _ => (.error fault.error, w)

/-- `file_stamp_t`: the size and all else it compares. -/
structure FileStamp where
  size : ℕ
  mark : ℕ
  deriving DecidableEq

def hostFileStamp (handle : Handle) (fault : Fault) (w : Work) : Except ℕ FileStamp × Work :=
  match (w.name handle).bind w.files with
  | none => (.error fault.error, w)
  | some octets =>
    if fault.fails then (.error fault.error, w) else (.ok ⟨octets.length, fault.mark⟩, w)

/-- `host_file_close`: whatever it answers, the handle is not used again. -/
def hostFileClose (handle : Handle) (fault : Fault) (w : Work) : Except ℕ Unit × Work :=
  match handle with
  | .source => (outcome fault, { w with source := none })
  | .temporary => (outcome fault, { w with temporary := none })

/-- A call that looks at something or synchronises it. -/
def observe (fault : Fault) (w : Work) : Except ℕ Unit × Work := (outcome fault, w)

/-- Go on only if the call ends well. -/
def must {α : Type} (status : WorkStatus) (stage : WorkStage)
    (act : Fault → Work → Except ℕ α × Work) : Step α := do
  match ← ask around act with
  | .ok value => pure value
  | .error error => refuse ⟨status, stage, error⟩

/-- The checks that end with a status of their own each. -/
def probes : List (WorkStatus × WorkStage) → Step Unit
  | [] => pure ()
  | (status, stage) :: rest => do
    must around status stage observe
    probes rest

/-- A path as its directory and its last component, which names a file. -/
def splitAt (isSeparator : Octet → Bool) (path : List Octet) : Option (List Octet × Leaf) :=
  let leaf := (path.reverse.takeWhile fun octet ↦ !isSeparator octet).reverse
  let before := path.take (path.length - leaf.length)
  let parent := if before.length ≤ 1 then before else before.dropLast
  if leaf = [] ∨ leaf = [0x2e] ∨ leaf = [0x2e, 0x2e] then none
  else some (parent, leaf)

/-- `split_path`; no slash means the current directory. -/
def splitPath (path : List Octet) : Option (List Octet × Leaf) :=
  (splitAt (fun octet ↦ octet = 0x2f) path).map fun (parent, leaf) ↦
    (if parent = [] then [0x2e] else parent, leaf)

/-- The split of `windows_split_destination`. -/
def splitWindows (path : List Octet) : Option (List Octet × Leaf) :=
  (splitAt (fun octet ↦ octet = 0x2f || octet = 0x5c) path).filter fun (parent, _) ↦ parent ≠ []

/-- Names that Windows takes for the same. -/
def foldCase (leaf : Leaf) : Leaf :=
  leaf.map fun octet ↦ if 0x41 ≤ octet ∧ octet ≤ 0x5a then octet + 0x20 else octet

/-- `open_directory_no_links`: what it says about a path, or that it could not be opened now. -/
def openDirectory (status : WorkStatus) (stage : WorkStage) (parent : List Octet) : Step ℕ := do
  must around status stage observe
  match around.directories parent with
  | .ok directory => pure directory
  | .error status => refuse ⟨status, stage, 0⟩

/-- The call that opens the source for reading. -/
def openForReading (name : FileName) (fault : Fault) (w : Work) : Except ℕ Unit × Work :=
  if fault.fails ∨ w.files name = none then (.error fault.error, w)
  else (.ok (), { w with source := some name })

def posixOpenSource (path : List Octet) : Step FileStamp := do
  let (parent, leaf) ← expect (splitPath path) ⟨.pathUnsafe, .sourcePath, 0⟩
  let directory ← openDirectory around .sourceOpenFailed .sourcePath parent
  probes around [(.sourceOpenFailed, .sourcePath), (.pathUnsafe, .sourcePath)]
  must around .sourceOpenFailed .sourceOpen (openForReading (directory, leaf))
  probes around [(.sourceOpenFailed, .sourceOpen), (.pathUnsafe, .sourceOpen),
    (.sourceNotRegular, .sourceOpen), (.sourceAlias, .sourceOpen), (.sourceBusy, .sourceOpen)]
  must around .sourceOpenFailed .sourceOpen (hostFileStamp .source)

def windowsOpenSource (path : List Octet) : Step FileStamp := do
  probes around [(.noMemory, .sourcePath), (.sourceOpenFailed, .sourcePath),
    (.pathUnsafe, .sourcePath), (.sourceOpenFailed, .sourcePath), (.sourceBusy, .sourceOpen)]
  let (parent, leaf) ← expect (splitWindows (around.fullPath path))
    ⟨.sourceOpenFailed, .sourceOpen, 0⟩
  let directory ← openDirectory around .sourceOpenFailed .sourceOpen parent
  must around .sourceOpenFailed .sourceOpen (openForReading (directory, foldCase leaf))
  probes around [(.pathUnsafe, .sourceOpen), (.sourceOpenFailed, .sourceOpen),
    (.pathUnsafe, .sourceOpen), (.sourceNotRegular, .sourceOpen), (.sourceAlias, .sourceOpen)]
  must around .sourceOpenFailed .sourceOpen (hostFileStamp .source)

def openSource (path : List Octet) : Step FileStamp :=
  match around.platform with
  | .posix => posixOpenSource around path
  | .windows => windowsOpenSource around path

/-- The look at whether the destination is there already. -/
def lookFor (name : FileName) (fault : Fault) (w : Work) : (Bool ⊕ ℕ) × Work :=
  if fault.fails then (.inr fault.error, w) else (.inl (w.files name).isSome, w)

/-- The destination has to be absent; it is what will be published. -/
def absent (target : FileName) : Step FileName := do
  match ← ask around (lookFor target) with
  | .inl true => refuse ⟨.destinationExists, .destinationPath, 0⟩
  | .inr error => refuse ⟨.destinationOpenFailed, .destinationPath, error⟩
  | .inl false =>
    Attempt.modify fun w ↦ { w with target := some target }
    pure target

def posixOpenDestination (path : List Octet) : Step FileName := do
  let (parent, leaf) ← expect (splitPath path) ⟨.pathUnsafe, .destinationPath, 0⟩
  let directory ← openDirectory around .destinationOpenFailed .destinationPath parent
  absent around (directory, leaf)

def windowsSplitDestination (path : List Octet) : Step FileName := do
  probes around [(.noMemory, .destinationPath), (.destinationOpenFailed, .destinationPath),
    (.pathUnsafe, .destinationPath)]
  let (parent, leaf) ← expect (splitWindows (around.fullPath path))
    ⟨.pathUnsafe, .destinationPath, 0⟩
  probes around [(.noMemory, .destinationPath), (.pathUnsafe, .destinationPath),
    (.destinationOpenFailed, .destinationPath)]
  let directory ← openDirectory around .destinationOpenFailed .destinationPath parent
  let target ← absent around (directory, foldCase leaf)
  probes around [(.destinationOpenFailed, .destinationPath), (.pathUnsafe, .destinationPath)]
  pure target

def openDestination (path : List Octet) : Step FileName :=
  match around.platform with
  | .posix => posixOpenDestination around path
  | .windows => windowsSplitDestination around path

def tempAttempts : ℕ := 128

/-- `".rootfs-work-%lu-%u.tmp"`. -/
def temporaryLeaf (pid attempt : ℕ) : Leaf :=
  [0x2e, 0x72, 0x6f, 0x6f, 0x74, 0x66, 0x73, 0x2d, 0x77, 0x6f, 0x72, 0x6b, 0x2d] ++
    Numeral.text (Numeral.plain 10 pid) ++ [0x2d] ++ Numeral.text (Numeral.plain 10 attempt) ++
      [0x2e, 0x74, 0x6d, 0x70]

inductive Creation where
  | made
  | taken
  | failed (error : ℕ)

/-- The call that makes a file of a name that is free, and opens it. -/
def createNew (name : FileName) (fault : Fault) (w : Work) : Creation × Work :=
  if fault.fails then (.failed fault.error, w)
  else if (w.files name).isSome then (.taken, w)
  else (.made, { w with
    files := update w.files name (some [])
    temporary := some name
    created := some name })

/-- Checks that only Windows makes. -/
def onWindows (list : List (WorkStatus × WorkStage)) : Step Unit :=
  match around.platform with
  | .posix => pure ()
  | .windows => probes around list

/-- The loop of `destination_temp_create`. -/
def tempCreateLoop (target : FileName) : List ℕ → Step Unit
  | [] => refuse ⟨.tempCreateFailed, .tempCreate, 0⟩
  | attempt :: rest => do
    onWindows around [(.noMemory, .tempCreate)]
    let name := (target.1, temporaryLeaf around.pid attempt)
    if name = target then tempCreateLoop target rest
    else
      match ← ask around (createNew name) with
      | .made => onWindows around [(.pathUnsafe, .tempCreate)]
      | .failed error => refuse ⟨.tempCreateFailed, .tempCreate, error⟩
      | .taken => tempCreateLoop target rest

def destinationTempCreate (target : FileName) : Step Unit := do
  onWindows around [(.pathUnsafe, .tempCreate)]
  tempCreateLoop around target (List.range tempAttempts)

inductive ReadOp where
  | read (offset length : ℕ)

/-- What a check may ask for. -/
def Reads : Interface := ⟨ReadOp, fun _ ↦ Except ℕ (List Octet)⟩

inductive EditOp where
  | read (offset length : ℕ)
  | write (offset : ℕ) (data : List Octet)
  | resize (size : ℕ)

/-- What an edit may ask for. -/
def Edits : Interface where
  Op := EditOp
  Ret
    | .read _ _ => Except ℕ (List Octet)
    | _ => Except ℕ Unit

def readsHandler (handle : Handle) : Program.Handler Reads Work
  | .read offset length => Work.call around (hostFileRead handle offset length)

/-- Edits are made to the temporary file. -/
def editsHandler : Program.Handler Edits Work
  | .read offset length => Work.call around (hostFileRead .temporary offset length)
  | .write offset data => Work.call around (hostFileWrite .temporary offset data)
  | .resize size => Work.call around (hostFileResize .temporary size)

/-- The passes over an image and the digest of the source. A volume is what a validation has read,
and a pass that refuses says how. -/
structure Passes where
  Volume : Type
  decidableVolume : DecidableEq Volume
  totalBlocks : Volume → ℕ
  hfsValidate : (size : ℕ) → (stage : WorkStage) → Program Reads (Except WorkFailure Volume)
  fstabRewrite : (size : ℕ) → (line : List Octet) → Program Edits (Except WorkFailure Unit)
  caPlistRewrite : (size : ℕ) → Program Edits (Except WorkFailure Unit)
  pppPlistRewrite : (size : ℕ) → Program Edits (Except WorkFailure Unit)
  growVolume : (size growth : ℕ) → Volume → Program Edits (Except WorkFailure ℕ)
  provisionVolume : (size : ℕ) → Volume → Program Edits (Except WorkFailure Unit)
  Digest : Type
  sha256Init : Option Digest
  sha256Update : Digest → List Octet → Option Digest
  sha256Final : Digest → Option (List Octet)

instance (passes : Passes) : DecidableEq passes.Volume := passes.decidableVolume

/-- A pass that has refused ends the creation. -/
def orRefuse {α : Type} : Except WorkFailure α → Step α
  | .ok value => pure value
  | .error failure => refuse failure

def check {α : Type} (handle : Handle) (pass : Program Reads (Except WorkFailure α)) : Step α := do
  orRefuse (← lift (Program.run (readsHandler around handle) pass))

def edit {α : Type} (pass : Program Edits (Except WorkFailure α)) : Step α := do
  orRefuse (← lift (Program.run (editsHandler around) pass))

def maxIoBuffer : ℕ := 1048576
def sha256MaxInput : ℕ := (2 ^ 64 - 1) / 8

/-- `rootfs_work_options_t`, without what only a pass reads. -/
structure WorkOptions where
  fstabLine : List Octet
  caSoftwareRender : Bool := false
  pppLaunchdJob : Bool := false
  growthBytes : ℕ := 0
  ioBufferBytes : ℕ := 0
  entryCount : ℕ := 0
  identity : Option (ℕ × List Octet) := none

def report (change : WorkResult → WorkResult) : Step Unit :=
  Attempt.modify fun w ↦ { w with result := change w.result }

/-- The bounds of the turns of `copy_source`. -/
def chunks (size buffer : ℕ) : List (ℕ × ℕ) :=
  (List.range ((size + buffer - 1) / buffer)).map fun i ↦
    (i * buffer, min buffer (size - i * buffer))

def checkedRead (handle : Handle) (size offset length : ℕ) (stage : WorkStage) :
    Step (List Octet) := do
  require (offset ≤ size ∧ length ≤ size - offset) ⟨.rangeError, stage, 0⟩
  must around .readFailed stage (hostFileRead handle offset length)

def checkedWrite (handle : Handle) (size offset : ℕ) (data : List Octet) (stage : WorkStage) :
    Step Unit := do
  require (offset ≤ size ∧ data.length ≤ size - offset) ⟨.rangeError, stage, 0⟩
  must around .writeFailed stage (hostFileWrite handle offset data)

def copySource (passes : Passes) (size : ℕ) : List (ℕ × ℕ) → passes.Digest → Step passes.Digest
  | [], digest => pure digest
  | (offset, amount) :: rest, digest => do
    let data ← checkedRead around .source size offset amount .copy
    let digest ← expect (passes.sha256Update digest data) ⟨.rangeError, .sourceIdentity, 0⟩
    checkedWrite around .temporary size offset data .copy
    report fun result ↦ { result with bytesCopied := offset + amount }
    copySource passes size rest digest

/-- The digest that the options may require. -/
def verifyIdentity (options : WorkOptions) (sha256 : List Octet) : Step Unit :=
  match options.identity with
  | none => pure ()
  | some (_, expected) => do
    require (sha256 = expected) ⟨.sourceIdentityMismatch, .sourceIdentity, 0⟩
    report fun result ↦ { result with sourceIdentityVerified := true }

/-- The copy of the source, and what shows that it is one. -/
def copyVerified (passes : Passes) (options : WorkOptions) (before : FileStamp)
    (volume : passes.Volume) : Step Unit := do
  must around .writeFailed .copy (hostFileResize .temporary before.size)
  let digest ← expect passes.sha256Init ⟨.rangeError, .sourceIdentity, 0⟩
  let digest ← copySource around passes before.size (chunks before.size options.ioBufferBytes)
    digest
  let after ← must around .sourceChanged .copyVerify (hostFileStamp .source)
  require (before = after) ⟨.sourceChanged, .copyVerify, 0⟩
  let sha256 ← expect (passes.sha256Final digest) ⟨.rangeError, .sourceIdentity, 0⟩
  report fun result ↦ { result with sourceSha256 := some sha256 }
  verifyIdentity options sha256
  let stamp ← must around .sourceChanged .copyVerify (hostFileStamp .temporary)
  require (stamp.size = before.size) ⟨.sourceChanged, .copyVerify, 0⟩
  let copied ← check around .temporary (passes.hfsValidate before.size .copyVerify)
  require (volume = copied) ⟨.sourceChanged, .copyVerify, 0⟩
  must around .sourceChanged .copyVerify (hostFileClose .source)

def optionally (wanted : Bool) (step : Step Unit) : Step Unit := if wanted then step else pure ()

/-- The entries of the catalog, into the volume as it has been grown. -/
def provision (passes : Passes) (size : ℕ) : Step Unit := do
  let grown ← check around .temporary (passes.hfsValidate size .provisionPlan)
  edit around (passes.provisionVolume size grown)

/-- The edits that the options ask for, and the size they leave. -/
def transform (passes : Passes) (options : WorkOptions) (size : ℕ) (copied : passes.Volume) :
    Step ℕ := do
  edit around (passes.fstabRewrite size options.fstabLine)
  optionally options.caSoftwareRender (edit around (passes.caPlistRewrite size))
  optionally options.pppLaunchdJob (edit around (passes.pppPlistRewrite size))
  let size ← edit around (passes.growVolume size options.growthBytes copied)
  optionally (decide (options.entryCount ≠ 0)) (provision around passes size)
  pure size

/-- `rootfs_work_create` up to the publication, with every validation and every edit. -/
def prepare (passes : Passes) (source destination : List Octet) (options : WorkOptions) :
    Step Unit := do
  -- a refusal of the first three has nothing to clean up
  require (source ≠ [] ∧ destination ≠ [] ∧ options.ioBufferBytes ≤ maxIoBuffer)
    ⟨.invalidArgument, .arguments, 0⟩
  report fun result ↦ { result with ioBufferBytes := options.ioBufferBytes }
  must around .noMemory .arguments observe
  let before ← openSource around source
  let target ← openDestination around destination
  report fun result ↦ { result with sourceSize := before.size }
  require (before.size ≤ sha256MaxInput) ⟨.rangeError, .sourceIdentity, 0⟩
  require (∀ expected ∈ options.identity, expected.1 = before.size)
    ⟨.sourceIdentityMismatch, .sourceIdentity, 0⟩
  let volume ← check around .source (passes.hfsValidate before.size .sourceValidate)
  destinationTempCreate around target
  copyVerified around passes options before volume
  let size ← transform around passes options before.size volume
  let final ← check around .temporary (passes.hfsValidate size .finalValidate)
  require
    (options.growthBytes ≠ 0 → passes.totalBlocks volume < passes.totalBlocks final)
    ⟨.hfsInvalid, .finalValidate, 0⟩
  report fun result ↦ { result with finalSize := size }
  must around .syncFailed .flush observe
  must around .syncFailed .flush (hostFileClose .temporary)

inductive Publication where
  | done
  | exists
  | failed (error : ℕ)

/-- `linkat`: the file has both names afterwards. -/
def linkTemporary (fault : Fault) (w : Work) : Publication × Work :=
  match w.created, w.target with
  | some name, some target =>
    if fault.fails then (.failed fault.error, w)
    else if (w.files target).isSome then (.exists, w)
    else (.done, { w with
      files := update w.files target (w.files name)
      result := { w.result with published := true } })
  | _, _ => (.failed fault.error, w)

/-- `MoveFileExA` without replacement. -/
def moveTemporary (fault : Fault) (w : Work) : Publication × Work :=
  match w.created, w.target with
  | some name, some target =>
    if fault.fails then (.failed fault.error, w)
    else if (w.files target).isSome then (.exists, w)
    else (.done, { w with
      files := update (update w.files target (w.files name)) name none
      result := { w.result with published := true } })
  | _, _ => (.failed fault.error, w)

/-- `unlinkat` and `DeleteFileA` on the temporary name. -/
def removeTemporary (fault : Fault) (w : Work) : Except ℕ Unit × Work :=
  match w.created with
  | none => (.ok (), w)
  | some name =>
    if fault.fails then (.error fault.error, w)
    else (.ok (), { w with files := update w.files name none })

def leave : Step Unit := report fun result ↦ { result with temporaryLeft := true }

def publish : Step Unit := do
  match around.platform with
  | .windows =>
    must around .pathUnsafe .publish observe
    match ← ask around moveTemporary with
    | .done => pure ()
    | .exists => refuse ⟨.destinationExists, .publish, 0⟩
    | .failed error => refuse ⟨.publishFailed, .publish, error⟩
  | .posix =>
    match ← ask around linkTemporary with
    | .exists => refuse ⟨.destinationExists, .publish, 0⟩
    | .failed error => refuse ⟨.publishFailed, .publish, error⟩
    | .done =>
      match ← ask around observe with
      | .error error =>
        leave
        refuse ⟨.publishDurabilityFailed, .directorySync, error⟩
      | .ok () =>
        match ← ask around removeTemporary with
        | .error error =>
          leave
          refuse ⟨.publishFailed, .cleanup, error⟩
        | .ok () => must around .publishDurabilityFailed .directorySync observe

/-- An error of the cleanup; the first one is kept. -/
def WorkResult.noteCleanup (result : WorkResult) (error : ℕ) : WorkResult :=
  if result.cleanupSystemError = 0 then { result with cleanupSystemError := error } else result

def cleanupUnpublished (w : Work) : Work :=
  if w.created.isNone ∨ w.result.published then w
  else
    match Work.call around removeTemporary w with
    | (.ok (), w) => w
    | (.error error, w) =>
      { w with result := { w.result.noteCleanup error with temporaryLeft := true } }

def closeSource (w : Work) : Work :=
  if w.source.isNone then w
  else
    match Work.call around (hostFileClose .source) w with
    | (.ok (), w) => w
    | (.error error, w) => { w with result := w.result.noteCleanup error }

def closeTemporary (w : Work) : Work :=
  if w.temporary.isNone then w
  else
    match Work.call around (hostFileClose .temporary) w with
    | (.ok (), w) => w
    | (.error error, w) =>
      { w with result := { w.result.noteCleanup error with
        temporaryLeft := w.result.temporaryLeft || w.created.isSome } }

/-- What stands behind the label `done`. -/
def finish (success : Bool) (w : Work) : Work :=
  let w := closeTemporary around (closeSource around w)
  if success then w else cleanupUnpublished around w

def WorkResult.fail (result : WorkResult) (failure : WorkFailure) : WorkResult :=
  { result with status := failure.status, stage := failure.stage, systemError := failure.error }

/-- The options with their defaults. -/
def WorkOptions.selected (options : WorkOptions) : WorkOptions :=
  { options with
    ioBufferBytes := if options.ioBufferBytes = 0 then maxIoBuffer else options.ioBufferBytes }

/-- Nothing done yet. -/
def Work.first (files : Files) : Work := { files := files, history := [files] }

def rootfsWorkCreate (passes : Passes) (source destination : List Octet) (options : WorkOptions)
    (files : Files) : Work :=
  let attempt := do
    prepare around passes source destination options.selected
    publish around
  match attempt (.first files) with
  | (.error failure, w) => finish around false { w with result := w.result.fail failure }
  | (.ok (), w) =>
    finish around true { w with
      result := { w.result with status := .ok, stage := .none, systemError := 0 } }

end S5LBox.Tools
