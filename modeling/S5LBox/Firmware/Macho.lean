import S5LBox.Firmware.DeviceTree

/-!
# The Mach-O parser

`macho_parse`: the segments of a 32-bit kernel image, its entry point and the span of virtual
addresses that the segments take. The span is what a loader lays memory out by, so every segment
with contents has to be inside it.
-/

namespace S5LBox.Firmware

def mhMagic32 : ℕ := 0xfeedface
def mhCpuTypeArm : ℕ := 12
def mhExecute : ℕ := 2

def lcSegment : ℕ := 0x01
def lcSymtab : ℕ := 0x02
def lcUnixthread : ℕ := 0x05
def lcUuid : ℕ := 0x1b

def machoMaxSegments : ℕ := 16

/-- `macho_status_t`, without its success. -/
inductive MachoStatus where
  | tooSmall
  | badMagic
  | notArm
  | malformed
  | tooMany
  deriving DecidableEq, Repr

structure MachoSegment where
  name : List Octet
  vmaddr : ℕ
  vmsize : ℕ
  fileoff : ℕ
  filesize : ℕ
  deriving DecidableEq, Repr

structure Macho where
  cputype : ℕ := 0
  cpusubtype : ℕ := 0
  filetype : ℕ := 0
  segments : List MachoSegment := []
  hasEntry : Bool := false
  entry : ℕ := 0
  entrySp : ℕ := 0
  hasSymtab : Bool := false
  symoff : ℕ := 0
  nsyms : ℕ := 0
  stroff : ℕ := 0
  strsize : ℕ := 0
  uuid : Option (List Octet) := none
  vmLow : ℕ := 0
  vmHigh : ℕ := 0
  deriving DecidableEq, Repr

variable (buf : List Octet)

/-- The segment that the command at `off` describes. -/
def segmentAt (off : ℕ) : MachoSegment where
  name := (buf.drop (off + 8)).take 16
  vmaddr := rd32 buf (off + 24)
  vmsize := rd32 buf (off + 28)
  fileoff := rd32 buf (off + 32)
  filesize := rd32 buf (off + 36)

/-- The branch for `LC_SEGMENT`. -/
def segmentCommand (off cmdsize : ℕ) (out : Macho) : Except MachoStatus Macho :=
  let s := segmentAt buf off
  if cmdsize < 56 ∨ 56 + rd32 buf (off + 48) * 68 ≠ cmdsize then .error .malformed
  else if machoMaxSegments ≤ out.segments.length then .error .tooMany
  else if buf.length < s.fileoff + s.filesize ∨ s.vmsize < s.filesize then .error .malformed
  else if s.vmsize = 0 then .ok { out with segments := out.segments ++ [s] }
  else if 0xffffffff < s.vmaddr + s.vmsize then .error .malformed
  else .ok { out with
    segments := out.segments ++ [s]
    vmLow := min s.vmaddr out.vmLow
    vmHigh := max (s.vmaddr + s.vmsize) out.vmHigh }

/-- The branch for `LC_SYMTAB`. -/
def symtabCommand (off cmdsize : ℕ) (out : Macho) : Except MachoStatus Macho :=
  let symoff := rd32 buf (off + 8)
  let nsyms := rd32 buf (off + 12)
  let stroff := rd32 buf (off + 16)
  let strsize := rd32 buf (off + 20)
  if cmdsize < 24 ∨ buf.length < symoff + nsyms * 12 ∨ buf.length < stroff + strsize then
    .error .malformed
  else .ok { out with
    hasSymtab := true
    symoff := symoff
    nsyms := nsyms
    stroff := stroff
    strsize := strsize }

/-- The branch for `LC_UNIXTHREAD`; a command too short for the registers is passed over. -/
def unixthreadCommand (off cmdsize : ℕ) (out : Macho) : Macho :=
  if 8 + 8 + 17 * 4 ≤ cmdsize then
    { out with
      hasEntry := true
      entry := rd32 buf (off + 16 + 15 * 4)
      entrySp := rd32 buf (off + 16 + 13 * 4) }
  else out

/-- The branch for `LC_UUID`. -/
def uuidCommand (off cmdsize : ℕ) (out : Macho) : Except MachoStatus Macho :=
  if cmdsize ≠ 24 ∨ out.uuid.isSome then .error .malformed
  else .ok { out with uuid := some ((buf.drop (off + 8)).take 16) }

def loadCommand (off cmd cmdsize : ℕ) (out : Macho) : Except MachoStatus Macho :=
  if cmd = lcSegment then segmentCommand buf off cmdsize out
  else if cmd = lcSymtab then symtabCommand buf off cmdsize out
  else if cmd = lcUnixthread then .ok (unixthreadCommand buf off cmdsize out)
  else if cmd = lcUuid then uuidCommand buf off cmdsize out
  else .ok out

/-- The loop over `n` commands; where it ends the commands have to end too. -/
def commandLoop (cmdsEnd : ℕ) : (n off : ℕ) → Macho → Except MachoStatus Macho
  | 0, off, out => if off = cmdsEnd then .ok out else .error .malformed
  | n + 1, off, out =>
    if cmdsEnd < off + 8 then .error .malformed
    else
      let cmdsize := rd32 buf (off + 4)
      if cmdsize < 8 ∨ cmdsEnd < off + cmdsize then .error .malformed
      else
        match loadCommand buf off (rd32 buf off) cmdsize out with
        | .error status => .error status
        | .ok out => commandLoop cmdsEnd n (off + cmdsize) out

/-- What the header says, and a span that is still empty. -/
def headerOf : Macho where
  cputype := rd32 buf 4
  cpusubtype := rd32 buf 8
  filetype := rd32 buf 12
  vmLow := 0xffffffff

def machoParse : Except MachoStatus Macho :=
  if buf.length < 28 then .error .tooSmall
  else if rd32 buf 0 ≠ mhMagic32 then .error .badMagic
  else if rd32 buf 4 ≠ mhCpuTypeArm then .error .notArm
  else
    let cmdsEnd := 28 + rd32 buf 20
    if buf.length < cmdsEnd then .error .malformed
    else
      match commandLoop buf cmdsEnd (rd32 buf 16) 28 (headerOf buf) with
      | .error status => .error status
      | .ok out => .ok { out with vmLow := if out.vmLow = 0xffffffff then 0 else out.vmLow }

variable {buf}

/-- A segment lies in the file, and in the span if it takes any addresses. -/
structure MachoSegment.Inside (s : MachoSegment) (length vmLow vmHigh : ℕ) : Prop where
  file : s.fileoff + s.filesize ≤ length
  filled : s.filesize ≤ s.vmsize
  low : s.vmsize ≠ 0 → vmLow ≤ s.vmaddr
  high : s.vmsize ≠ 0 → s.vmaddr + s.vmsize ≤ vmHigh

theorem MachoSegment.Inside.mono {s : MachoSegment} {length low low' high high' : ℕ}
    (h : s.Inside length low high) (hlow : low' ≤ low) (hhigh : high ≤ high') :
    s.Inside length low' high' :=
  ⟨h.file, h.filled, fun hs ↦ hlow.trans (h.low hs), fun hs ↦ (h.high hs).trans hhigh⟩

/-- Every segment read so far is inside the span, which ends in the address space. -/
structure Macho.Spanned (out : Macho) (length : ℕ) : Prop where
  segments : ∀ s ∈ out.segments, s.Inside length out.vmLow out.vmHigh
  high : out.vmHigh < 2 ^ 32

theorem segmentCommand_spanned {off cmdsize : ℕ} {out out' : Macho}
    (h : out.Spanned buf.length) (hrun : segmentCommand buf off cmdsize out = .ok out') :
    out'.Spanned buf.length := by
  unfold segmentCommand at hrun
  dsimp only at hrun
  split_ifs at hrun with hsize hmany hfile hempty hspan
  · obtain rfl := Except.ok.inj hrun
    refine ⟨?_, h.high⟩
    intro s hs
    rcases List.mem_append.1 hs with hold | hnew
    · exact h.segments s hold
    · obtain rfl := List.mem_singleton.1 hnew
      exact ⟨by omega, by omega, fun hs ↦ absurd hempty hs, fun hs ↦ absurd hempty hs⟩
  · obtain rfl := Except.ok.inj hrun
    constructor
    case segments =>
      intro s hs
      rcases List.mem_append.1 hs with hold | hnew
      · exact (h.segments s hold).mono (min_le_right _ _) (le_max_right _ _)
      · obtain rfl := List.mem_singleton.1 hnew
        exact ⟨by omega, by omega, fun _ ↦ min_le_left _ _, fun _ ↦ le_max_left _ _⟩
    case high =>
      have hhigh := h.high
      exact max_lt (by omega) hhigh

theorem loadCommand_spanned {off cmd cmdsize : ℕ} {out out' : Macho}
    (h : out.Spanned buf.length) (hrun : loadCommand buf off cmd cmdsize out = .ok out') :
    out'.Spanned buf.length := by
  unfold loadCommand at hrun
  split_ifs at hrun
  · exact segmentCommand_spanned h hrun
  · unfold symtabCommand at hrun
    dsimp only at hrun
    split_ifs at hrun
    obtain rfl := Except.ok.inj hrun
    exact ⟨h.segments, h.high⟩
  · obtain rfl := Except.ok.inj hrun
    unfold unixthreadCommand
    split_ifs
    · exact ⟨h.segments, h.high⟩
    · exact h
  · unfold uuidCommand at hrun
    split_ifs at hrun
    obtain rfl := Except.ok.inj hrun
    exact ⟨h.segments, h.high⟩
  · obtain rfl := Except.ok.inj hrun
    exact h

theorem commandLoop_spanned {cmdsEnd n off : ℕ} {out out' : Macho}
    (h : out.Spanned buf.length) (hrun : commandLoop buf cmdsEnd n off out = .ok out') :
    out'.Spanned buf.length := by
  induction n generalizing off out with
  | zero =>
    rw [commandLoop] at hrun
    split_ifs at hrun
    obtain rfl := Except.ok.inj hrun
    exact h
  | succ n ih =>
    rw [commandLoop] at hrun
    dsimp only at hrun
    split_ifs at hrun
    rcases hcommand : loadCommand buf off (rd32 buf off) (rd32 buf (off + 4)) out with status | next
    · rw [hcommand] at hrun
      cases hrun
    · rw [hcommand] at hrun
      exact ih (loadCommand_spanned h hcommand) hrun

theorem machoParse_spanned {image : Macho} (hrun : machoParse buf = .ok image) :
    image.Spanned buf.length := by
  unfold machoParse at hrun
  dsimp only at hrun
  split_ifs at hrun
  rcases hloop : commandLoop buf (28 + rd32 buf 20) (rd32 buf 16) 28 (headerOf buf) with
    status | out
  · rw [hloop] at hrun
    cases hrun
  · rw [hloop] at hrun
    obtain rfl := Except.ok.inj hrun
    have hheader : (headerOf buf).Spanned buf.length := ⟨nofun, Nat.two_pow_pos 32⟩
    have hspanned := commandLoop_spanned hheader hloop
    refine ⟨fun s hs ↦ ?_, hspanned.high⟩
    apply (hspanned.segments s hs).mono _ le_rfl
    split_ifs
    · exact Nat.zero_le _
    · exact le_rfl

end S5LBox.Firmware
