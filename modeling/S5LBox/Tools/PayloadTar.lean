import S5LBox.Word

/-!
# The payload reader

A jailbreak payload, read from a tar into the entries the provisioner creates. A C string is the
list of its octets before the terminator; content that the source points at inside the archive is
the list of its octets.
-/

namespace S5LBox.Tools

def tarBlock : ℕ := 512
def maxEntries : ℕ := 1024
def maxEntryBytes : ℕ := 16 * 1024 * 1024

inductive EntryKind
  | directory | file | symlink
deriving DecidableEq, Repr

structure WorkEntry where
  kind : EntryKind
  path : List Octet
  content : List Octet
  permissions : ℕ
deriving DecidableEq, Repr

/-- Why a payload is refused, with what the message names. -/
inductive TarRefusal
  | empty
  | checksum (off : ℕ)
  | octal (name : List Octet)
  | truncated (name : List Octet) (size : ℕ)
  | longName
  | unsafePath (name : List Octet)
  | tooMany
  | pathArena
  | linkTarget (name : List Octet)
  | linkArena
  | hardLink (name link : List Octet)
  | tooBig (name : List Octet) (size : ℕ)
  | noMembers
deriving DecidableEq, Repr

/-- The octets of a header from `off` on. -/
def field (h : List Octet) (off len : ℕ) : List Octet := (h.drop off).take len

/-- The C string in a field. -/
def cString (field : List Octet) : List Octet := field.takeWhile (· ≠ 0)

def isPad (octet : Octet) : Bool := octet = 0x20 || octet = 0

/-- The digits of an octal field, up to padding or its end. -/
def octalDigits (v : ℕ) : List Octet → Option ℕ
  | [] => some v
  | c :: rest =>
    if isPad c then some v
    else if c < 0x30 ∨ 0x37 < c then none
    else if (2 ^ 64 - 1) / 8 < v then none
    else octalDigits (v * 8 + (c.toNat - 0x30)) rest

/-- An octal field, which may begin with padding; one that is all padding is zero. -/
def octalField (p : List Octet) : Option ℕ := octalDigits 0 (p.dropWhile isPad)

/-- The sum of a header, with the checksum itself read as spaces. -/
def headerSum (h : List Octet) : ℕ :=
  ((h.take 148 ++ List.replicate 8 0x20 ++ h.drop 156).map BitVec.toNat).sum

def checksumOk (h : List Octet) : Bool := octalField (field h 148 8) = some (headerSum h)

def printablePath (s : List Octet) : Bool := s.all fun c ↦ 0x20 ≤ c && c ≤ 0x7e && c ≠ 0x5c

/-- Whether a path could leave the tree: it is absolute or has a component `..`. -/
def traverses (s : List Octet) : Bool :=
  s.head? = some 0x2f || [0x2e, 0x2e, 0x2f].isPrefixOf s || s = [0x2e, 0x2e] ||
    s.tails.any [0x2f, 0x2e, 0x2e, 0x2f].isPrefixOf || [0x2f, 0x2e, 0x2e].isSuffixOf s

/-- The name of a member, joined from the two fields that hold it. -/
def memberName (h : List Octet) : List Octet :=
  let pfx := cString (field h 345 155)
  let base := cString (field h 0 100)
  if pfx = [] then base else pfx ++ 0x2f :: base

def stripSlashes (name : List Octet) : List Octet := (name.reverse.dropWhile (· = 0x2f)).reverse

/-- What was planned so far, and how much of the name arena is taken. -/
structure TarPlan where
  entries : List WorkEntry
  namesUsed : ℕ

/-- Where a member goes: below the prefix, with a separator unless the prefix ends in one. -/
def joined (root name : List Octet) : List Octet :=
  if root.getLast? = some 0x2f then root ++ name else root ++ 0x2f :: name

/-- Put a joined path into an arena of `cap` octets of which `used` are taken; the result is how
many are taken then. -/
def arenaPut (cap used : ℕ) (root name : List Octet) : Option ℕ :=
  if cap < used + (root.length + name.length + 2) then none
  else some (used + (joined root name).length + 1)

/-- The earlier regular file that a hard link is taken to name: the first whose path ends so. -/
def linkSource (entries : List WorkEntry) (link : List Octet) : Option WorkEntry :=
  entries.find? fun e ↦ link.isSuffixOf e.path && e.kind = .file

/-- The fields of a member that its entry is made from. -/
structure RawMember where
  name : List Octet
  mode : ℕ
  size : ℕ
  type : Octet
  link : List Octet
  content : List Octet

def skippedTypes : List Octet := [0x78, 0x67, 0x56, 0x33, 0x34, 0x36]

/-- Plan the entry of a member; members of kinds the payload does not need are skipped. -/
def addMember (cap : ℕ) (root : List Octet) (plan : TarPlan) (m : RawMember) :
    Except TarRefusal TarPlan :=
  if m.type = 0x4c ∨ m.type = 0x4b then .error .longName
  else if m.type ∈ skippedTypes then .ok plan
  else
    let name := stripSlashes m.name
    if name = [] ∨ name = [0x2e] then .ok plan
    else if traverses name || !printablePath name then .error (.unsafePath name)
    else if maxEntries ≤ plan.entries.length then .error .tooMany
    else
      match arenaPut cap plan.namesUsed root name with
      | none => .error .pathArena
      | some used =>
        let put (kind : EntryKind) (content : List Octet) (used : ℕ) : TarPlan :=
          { entries := plan.entries ++ [⟨kind, joined root name, content, m.mode % 2 ^ 12⟩]
            namesUsed := used }
        if m.type = 0x35 then .ok (put .directory [] used)
        else if m.type = 0x32 then
          if m.link = [] ∨ !printablePath m.link then .error (.linkTarget name)
          else
            match arenaPut cap used [] m.link with
            | none => .error .linkArena
            | some used => .ok (put .symlink m.link used)
        else if m.type = 0x31 then
          match linkSource plan.entries m.link with
          | none => .error (.hardLink name m.link)
          | some src => .ok (put .file src.content used)
        else if m.type = 0x30 ∨ m.type = 0 then
          if maxEntryBytes < m.size then .error (.tooBig name m.size)
          else .ok (put .file m.content used)
        -- the path of a member of an unknown type stays in the arena
        else .ok { plan with namesUsed := used }

/-- Read members from a place in the archive that is `off` octets from its start. -/
def tarLoop (cap : ℕ) (root : List Octet) (off : ℕ) (rest : List Octet) (plan : TarPlan) :
    Except TarRefusal TarPlan :=
  if hend : rest.length < tarBlock then .ok plan
  else
    let h := rest.take tarBlock
    if h.all (· = 0) then .ok plan
    else if !checksumOk h then .error (.checksum off)
    else
      match octalField (field h 100 8), octalField (field h 124 12) with
      | some mode, some size =>
        let body := (size + (tarBlock - 1)) / tarBlock * tarBlock
        if rest.length < tarBlock + body then .error (.truncated (memberName h) size)
        else
          let m : RawMember :=
            { name := memberName h
              mode, size
              type := octetAt h 156
              link := cString (field h 157 100)
              content := (rest.drop tarBlock).take size }
          match addMember cap root plan m with
          | .error e => .error e
          | .ok plan =>
            have : (rest.drop (tarBlock + body)).length < rest.length := by
              rw [List.length_drop]
              unfold tarBlock at hend ⊢
              omega
            tarLoop cap root (off + (tarBlock + body)) (rest.drop (tarBlock + body)) plan
      | _, _ => .error (.octal (memberName h))
termination_by rest.length
decreasing_by exact this

/-- How much the name arena holds, given the size of the archive. -/
def namesCap (imageSize : ℕ) : ℕ := imageSize / tarBlock * 300 + 4096

/-- The entries of an archive, below a root that may be empty. -/
def payloadTarOpen (image root : List Octet) : Except TarRefusal (List WorkEntry) :=
  if image = [] then .error .empty
  else
    match tarLoop (namesCap image.length) root 0 image ⟨[], 0⟩ with
    | .error e => .error e
    | .ok plan => if plan.entries = [] then .error .noMembers else .ok plan.entries

end S5LBox.Tools
