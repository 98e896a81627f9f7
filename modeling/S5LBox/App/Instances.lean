import S5LBox.Library.Buffer
import S5LBox.Library.Scan
import S5LBox.Word

/-!
# The list of machines

The named machines of the app, the operations that change the list, and the line-oriented text it is
saved as. A C string is the list of its octets before the terminator. A list that an operation
refuses to change stays as it was; a text that cannot be read leaves the list empty.
-/

namespace S5LBox.App

open Numeral

inductive InstanceStatus
  | full | range | nameEmpty | nameLong | nameControl | idInvalid | idTaken | parse
deriving DecidableEq, Repr

def instanceMax : ℕ := 16
def instanceIdLen : ℕ := 16
def instanceNameMax : ℕ := 48
def instanceOptionMax : ℕ := 32
def instanceFormatVersion : ℕ := 1

structure Instance where
  id : List Octet
  name : List Octet
  createdUnix : DWord
  lastOpenedUnix : DWord
  retiredTotal : DWord
  options : Fin instanceOptionMax → Bool
deriving DecidableEq

def isControl (octet : Octet) : Bool := octet < 0x20 || octet = 0x7f

def nameCheck (name : List Octet) : Except InstanceStatus Unit :=
  if instanceNameMax < name.length then .error .nameLong
  else if name.any isControl then .error .nameControl
  else if name.all (· = 0x20) then .error .nameEmpty
  else .ok ()

def isIdOctet (octet : Octet) : Bool :=
  0x30 ≤ octet && octet ≤ 0x39 || 0x61 ≤ octet && octet ≤ 0x66

def idCheck (id : List Octet) : Except InstanceStatus Unit :=
  if id.length = instanceIdLen ∧ id.all isIdOctet then .ok () else .error .idInvalid

def indexOfId (list : List Instance) (id : List Octet) : Option ℕ :=
  match idCheck id with
  | .error _ => none
  | .ok () => list.findIdx? (·.id = id)

/-- Append a machine; the result is also where it stands. -/
def instanceAdd (list : List Instance) (id name : List Octet) (options : List Bool)
    (createdUnix : DWord) : Except InstanceStatus (List Instance × ℕ) := do
  idCheck id
  nameCheck name
  if instanceMax ≤ list.length then throw .full
  if (indexOfId list id).isSome then throw .idTaken
  let row :=
    { id, name, createdUnix
      lastOpenedUnix := 0
      retiredTotal := 0
      options := fun i ↦ options.getD i false }
  pure (list ++ [row], list.length)

def instanceRemove (list : List Instance) (index : ℕ) : Except InstanceStatus (List Instance) :=
  if index < list.length then .ok (list.eraseIdx index) else .error .range

def instanceRename (list : List Instance) (index : ℕ) (name : List Octet) :
    Except InstanceStatus (List Instance) := do
  if list.length ≤ index then throw .range
  nameCheck name
  pure (list.modify index fun row ↦ { row with name })

/-- Copy the configuration of a machine, and nothing of its history. -/
def instanceDuplicate (list : List Instance) (index : ℕ) (newId newName : List Octet)
    (createdUnix : DWord) : Except InstanceStatus (List Instance × ℕ) :=
  match list[index]? with
  | none => .error .range
  | some source => instanceAdd list newId newName (List.ofFn source.options) createdUnix

/-- What is done to a list; the two counters are set in place by the store. -/
inductive Mutation
  | add (id name : List Octet) (options : List Bool) (createdUnix : DWord)
  | remove (index : ℕ)
  | rename (index : ℕ) (name : List Octet)
  | duplicate (index : ℕ) (newId newName : List Octet) (createdUnix : DWord)
  | opened (index : ℕ) (lastOpenedUnix : DWord)
  | retired (index : ℕ) (retiredTotal : DWord)

/-- The list as an operation leaves it. -/
def Mutation.apply (list : List Instance) : Mutation → List Instance
  | add id name options createdUnix =>
    match instanceAdd list id name options createdUnix with
    | .ok (list, _) => list
    | .error _ => list
  | remove index =>
    match instanceRemove list index with
    | .ok list => list
    | .error _ => list
  | rename index name =>
    match instanceRename list index name with
    | .ok list => list
    | .error _ => list
  | duplicate index newId newName createdUnix =>
    match instanceDuplicate list index newId newName createdUnix with
    | .ok (list, _) => list
    | .error _ => list
  | opened index lastOpenedUnix => list.modify index fun row ↦ { row with lastOpenedUnix }
  | retired index retiredTotal => list.modify index fun row ↦ { row with retiredTotal }

/-- The header `ios3vm-instances`. -/
def instanceHeader : List Octet :=
  [0x69, 0x6f, 0x73, 0x33, 0x76, 0x6d, 0x2d, 0x69, 0x6e, 0x73, 0x74, 0x61, 0x6e, 0x63, 0x65, 0x73]

def optionsToBits (options : Fin instanceOptionMax → Bool) : Word :=
  (List.finRange instanceOptionMax).foldl
    (fun bits i ↦ if options i then bits ||| (1 : Word) <<< i.val else bits) 0

def bitsToOptions (bits : Word) (i : Fin instanceOptionMax) : Bool :=
  bits &&& (1 : Word) <<< i.val ≠ 0

/-- A decimal number as it is printed. -/
def decimal (n : ℕ) : List Octet := text (plain 10 n)

def headerLine : List Octet := instanceHeader ++ 0x20 :: decimal instanceFormatVersion ++ [0x0a]

/-- The line of a machine, without its end. -/
def Instance.line (row : Instance) : List Octet :=
  row.id ++ 0x20 :: (decimal row.createdUnix.toNat ++ 0x20 :: (decimal row.lastOpenedUnix.toNat ++
    0x20 :: (decimal row.retiredTotal.toNat ++
      0x20 :: (text (padded 16 8 (optionsToBits row.options).toNat) ++ 0x20 :: row.name))))

/-- What is printed, piece by piece. -/
def pieces (list : List Instance) : List (List Octet) :=
  headerLine :: list.map fun row ↦ row.line ++ [0x0a]

/-- Where the next piece goes, how much room is left there, and how long the text is so far. -/
structure Cursor (cap : ℕ) where
  out : Buffer Octet cap
  pos : ℕ
  left : ℕ
  total : ℕ

variable {cap : ℕ}

/-- Print a piece, or as much of it as there is room for, and a terminator. -/
def emit (c : Cursor cap) (piece : List Octet) : Option (Cursor cap) := do
  let out ←
    if c.left = 0 then some c.out else c.out.writeAll c.pos (piece.take (c.left - 1) ++ [0])
  let total := c.total + piece.length
  if piece.length < c.left then
    some { out, pos := c.pos + piece.length, left := c.left - piece.length, total }
  else if 0 < c.left then some { out, pos := c.pos + (c.left - 1), left := 1, total }
  else some { c with out, total }

/-- Write the list to a buffer; the result is also the length of the whole text. It is `none` when
a write falls outside the buffer. -/
def instanceSerialize (list : List Instance) (out : Buffer Octet cap) :
    Option (Buffer Octet cap × ℕ) := do
  let out ← if 0 < cap then out.write 0 0 else some out
  let c ← (pieces list).foldlM emit { out, pos := 0, left := cap, total := 0 }
  some (c.out, c.total)

/-- What reading a line comes to. -/
inductive NextLine
  | ended
  | overflow
  | line (content rest : List Octet)

/-- A line without its end, of either kind, and what follows it. -/
def nextLine (cap : ℕ) (p : List Octet) : NextLine :=
  if p = [] then .ended
  else
    let content := p.takeWhile (· ≠ 0x0a)
    if cap ≤ content.length then .overflow
    else
      .line (if content.getLast? = some 0x0d then content.dropLast else content)
        (p.drop (content.length + 1))

theorem length_of_nextLine {cap : ℕ} {p content rest : List Octet}
    (h : nextLine cap p = .line content rest) : rest.length < p.length := by
  unfold nextLine at h
  split at h
  case isTrue => cases h
  case isFalse hne =>
    have hpos := List.length_pos_of_ne_nil hne
    dsimp only at h
    split at h
    case isTrue => cases h
    case isFalse =>
      cases h
      rw [List.length_drop]
      omega

def lineCap : ℕ := instanceNameMax + 128

/-- The format `%31s %u`. -/
def scanHeader (line : List Octet) : Option (List Octet × Word) := do
  let (tag, rest) ← Scan.word 31 line
  let (version, _) ← Scan.unsigned 10 rest.length rest
  some (tag, version.setWidth 32)

/-- The format `%23s %llu %llu %llu %8x %n`; the name is what it leaves. -/
def scanRow (line : List Octet) : Option Instance := do
  let (id, rest) ← Scan.word (instanceIdLen + 7) line
  let (created, rest) ← Scan.unsigned 10 rest.length rest
  let (opened, rest) ← Scan.unsigned 10 rest.length rest
  let (retired, rest) ← Scan.unsigned 10 rest.length rest
  let (bits, rest) ← Scan.unsigned 16 8 rest
  some
    { id
      name := Scan.skipSpace rest
      createdUnix := created
      lastOpenedUnix := opened
      retiredTotal := retired
      options := bitsToOptions (bits.setWidth 32) }

/-- Add a machine that was read, with its counters. -/
def addRow (list : List Instance) (row : Instance) : Except InstanceStatus (List Instance) :=
  match instanceAdd list row.id row.name (List.ofFn row.options) row.createdUnix with
  | .error .full => .error .full
  | .error _ => .error .parse
  | .ok (list, added) =>
    .ok (list.modify added fun added ↦
      { added with lastOpenedUnix := row.lastOpenedUnix, retiredTotal := row.retiredTotal })

/-- Read the lines behind the header. A line that is too long ends the loop before its check for
one is reached. -/
def readRows (p : List Octet) (list : List Instance) : Except InstanceStatus (List Instance) :=
  match h : nextLine lineCap p with
  | .ended => .ok list
  | .overflow => .ok list
  | .line content rest =>
    have := length_of_nextLine h
    if content = [] then readRows rest list
    else
      match scanRow content with
      | none => .error .parse
      | some row =>
        match addRow list row with
        | .error e => .error e
        | .ok list => readRows rest list
termination_by p.length

def instanceDeserialize (p : List Octet) : Except InstanceStatus (List Instance) :=
  match nextLine lineCap p with
  | .ended => .error .parse
  | .overflow => .error .parse
  | .line content rest =>
    match scanHeader content with
    | none => .error .parse
    | some (tag, version) =>
      if tag = instanceHeader ∧ version = BitVec.ofNat 32 instanceFormatVersion then
        readRows rest []
      else .error .parse

end S5LBox.App
