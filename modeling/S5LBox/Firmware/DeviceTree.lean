import S5LBox.Library.LittleEndian
import S5LBox.Library.Walk
import S5LBox.Word

/-!
# The device tree parser

The read-only parser of flattened device trees. A node is a header with the numbers of its
properties and children, then the properties, then the children; a lookup passes over whatever comes
before. Offsets are those into the blob; offset 0, which the source returns for an error, is `none`.
-/

namespace S5LBox.Firmware

def dtPropNameLen : ℕ := 32
def dtMaxDepth : ℕ := 32
def propHeader : ℕ := dtPropNameLen + 4
def nodeHeader : ℕ := 8

inductive DtStatus
  | truncated | notFound
deriving DecidableEq, Repr

structure DtNode where
  offset : ℕ
  nProps : ℕ
  nChildren : ℕ
  propsOff : ℕ
deriving DecidableEq, Repr

def align4 (v : ℕ) : ℕ := (v + 3) / 4 * 4

/-- `strncmp` finds no difference. -/
def sameString (a b : List Octet) (n : ℕ) : Bool :=
  (a.take n).takeWhile (· ≠ 0) = (b.take n).takeWhile (· ≠ 0)

section

variable (blob : List Octet)

def rd32 (off : ℕ) : ℕ := LittleEndian.get ((blob.drop off).take 4)

/-- The length of the value of the property at `off`; its top bit is a flag. -/
def propLen (off : ℕ) : ℕ := rd32 blob (off + dtPropNameLen) % 2 ^ 31

/-- Whether `need` octets from `off` on are inside the blob. -/
abbrev Fits (off need : ℕ) : Prop := off + need ≤ blob.length

def readNode (off : ℕ) : Except DtStatus DtNode :=
  if Fits blob off nodeHeader then
    .ok ⟨off, rd32 blob off, rd32 blob (off + 4), off + nodeHeader⟩
  else .error .truncated

/-- The offset just past a property. -/
def skipProperty (off : ℕ) : Option ℕ :=
  if Fits blob off propHeader then
    let next := align4 (off + propHeader + propLen blob off)
    if next ≤ blob.length then some next else none
  else none

/-- The offset just past a node and everything below it, down to a number of levels. -/
def skipNode : ℕ → ℕ → Option ℕ
  | 0, _ => none
  | levels + 1, off =>
    match readNode blob off with
    | .error _ => none
    | .ok n =>
      (walk (skipProperty blob) n.nProps n.propsOff).bind (walk (skipNode levels) n.nChildren)

/-- Check the whole tree and return its root. -/
def dtParse : Except DtStatus DtNode :=
  if blob.length < nodeHeader then .error .truncated
  else
    match skipNode blob (dtMaxDepth + 1) 0 with
    | none => .error .truncated
    | some _ => readNode blob 0

/-- Look through `n` properties; the result is where the value is and how long. -/
def propertyLoop (name : List Octet) : ℕ → ℕ → Except DtStatus (ℕ × ℕ)
  | 0, _ => .error .notFound
  | n + 1, cur =>
    if Fits blob cur propHeader then
      if sameString (blob.drop cur) name dtPropNameLen then
        if Fits blob (cur + propHeader) (propLen blob cur) then
          .ok (cur + propHeader, propLen blob cur)
        else .error .truncated
      else
        match skipProperty blob cur with
        | none => .error .truncated
        | some next => propertyLoop name n next
    else .error .truncated

def dtProperty (node : DtNode) (name : List Octet) : Except DtStatus (ℕ × ℕ) :=
  propertyLoop blob name node.nProps node.propsOff

/-- The name of the property `name`. -/
def nameKey : List Octet := [0x6e, 0x61, 0x6d, 0x65]

/-- Whether a node is called `name`; the stored name may or may not include its terminator. -/
def isNamed (child : DtNode) (name : List Octet) : Bool :=
  match dtProperty blob child nameKey with
  | .error _ => false
  | .ok (v, n) =>
    name.length ≤ n && sameString (blob.drop v) name name.length &&
      (n = name.length || octetAt blob (v + name.length) = 0)

/-- Look through `n` children. -/
def childLoop (name : List Octet) : ℕ → ℕ → Except DtStatus DtNode
  | 0, _ => .error .notFound
  | n + 1, cur =>
    match readNode blob cur with
    | .error _ => .error .truncated
    | .ok child =>
      if isNamed blob child name then .ok child
      else
        match skipNode blob (dtMaxDepth + 1) cur with
        | none => .error .truncated
        | some next => childLoop name n next

def dtChild (parent : DtNode) (name : List Octet) : Except DtStatus DtNode :=
  match walk (skipProperty blob) parent.nProps parent.propsOff with
  | none => .error .truncated
  | some cur => childLoop blob name parent.nChildren cur

/-- The octets of a path from its first component on. -/
def skipSlashes (path : List Octet) : List Octet := path.dropWhile (· = 0x2f)

theorem length_skipSlashes_le (path : List Octet) : (skipSlashes path).length ≤ path.length :=
  (List.dropWhile_sublist _).length_le

/-- Go down along the components of a path; separators before, between and after them count for
nothing. -/
def dtPath (cur : DtNode) (path : List Octet) : Except DtStatus DtNode :=
  match h : skipSlashes path with
  | [] => .ok cur
  | first :: rest =>
    let seg := (first :: rest).takeWhile (· ≠ 0x2f)
    if hlong : seg.length = 0 ∨ dtPropNameLen ≤ seg.length then .error .notFound
    else
      match dtChild blob cur seg with
      | .error e => .error e
      | .ok child =>
        have : ((first :: rest).drop seg.length).length < path.length := by
          have hle := length_skipSlashes_le path
          rw [h, List.length_cons] at hle
          rw [not_or] at hlong
          rw [List.length_drop, List.length_cons]
          omega
        dtPath child ((first :: rest).drop seg.length)
termination_by path.length
decreasing_by exact this

end

open LittleEndian

theorem rd32_append {head body rest : List Octet} {n : ℕ} (hhead : head.length = n)
    (hbody : body.length = 4) : rd32 (head ++ body ++ rest) n = get body := by
  rw [rd32, List.append_assoc, List.drop_left' hhead, List.take_left' hbody]

theorem rd32_put (head rest : List Octet) {n v : ℕ} (hhead : head.length = n) (hv : v < 2 ^ 32) :
    rd32 (head ++ put 4 v ++ rest) n = v := by
  rw [rd32_append hhead (length_put 4 v), get_put hv]

theorem rd32_lt (buf : List Octet) (off : ℕ) : rd32 buf off < 2 ^ 32 := by
  have hlength : ((buf.drop off).take 4).length ≤ 4 := List.length_take_le 4 _
  calc get ((buf.drop off).take 4)
      < 256 ^ ((buf.drop off).take 4).length := get_lt _
    _ ≤ 256 ^ 4 := Nat.pow_le_pow_right (by decide) hlength
    _ = 2 ^ 32 := by norm_num

theorem put_rd32 {buf : List Octet} {off : ℕ} (h : off + 4 ≤ buf.length) :
    put 4 (rd32 buf off) = (buf.drop off).take 4 := by
  have hlength : ((buf.drop off).take 4).length = 4 := by
    rw [List.length_take, List.length_drop]
    omega
  calc put 4 (rd32 buf off)
      = put ((buf.drop off).take 4).length (get ((buf.drop off).take 4)) := by rw [hlength]; rfl
    _ = (buf.drop off).take 4 := put_get _

theorem rd32_of_drop {buf part rest : List Octet} {off : ℕ} (h : buf.drop off = part ++ rest)
    {n : ℕ} (hn : n + 4 ≤ part.length) : rd32 buf (off + n) = rd32 part n := by
  rw [rd32, rd32, ← List.drop_drop, h, List.drop_append_of_le_length (by omega),
    List.take_append_of_le_length (by rw [List.length_drop]; omega)]

end S5LBox.Firmware
