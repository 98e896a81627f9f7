import S5LBox.Firmware.DeviceTree
import S5LBox.Library.Checked

/-!
# The device tree parser reads inside the blob

The parser with every read checked: a word, an octet or a comparison past the end of the blob is a
fault. It ends with what the parser ends with, so it has met none.
-/

namespace S5LBox.Firmware

open Checked

/-- An outcome without a fault. -/
def sound {ε α : Type} : Except ε α → Checked ε α
  | .ok a => .ok a
  | .error e => report e

section

variable (blob : List Octet)

def wordChecked (off : ℕ) : Checked DtStatus ℕ :=
  if off + 4 ≤ blob.length then .ok (rd32 blob off) else .error .overrun

/-- `strncmp`, which may read all of the `n` octets from `off` on. -/
def sameChecked (off n : ℕ) (text : List Octet) : Checked DtStatus Bool :=
  if off + n ≤ blob.length then .ok (sameString (blob.drop off) text n) else .error .overrun

def readNodeChecked (off : ℕ) : Checked DtStatus DtNode :=
  if Fits blob off nodeHeader then do
    let nProps ← wordChecked blob off
    let nChildren ← wordChecked blob (off + 4)
    pure ⟨off, nProps, nChildren, off + nodeHeader⟩
  else report .truncated

def propLenChecked (off : ℕ) : Checked DtStatus ℕ := do
  let len ← wordChecked blob (off + dtPropNameLen)
  pure (len % 2 ^ 31)

def skipPropertyChecked (off : ℕ) : Checked DtStatus (Option ℕ) :=
  if Fits blob off propHeader then do
    let len ← propLenChecked blob off
    let next := align4 (off + propHeader + len)
    pure (if next ≤ blob.length then some next else none)
  else pure none

/-- Steps that end early where one fails. -/
def walkChecked (step : ℕ → Checked DtStatus (Option ℕ)) : ℕ → ℕ → Checked DtStatus (Option ℕ)
  | 0, off => pure (some off)
  | n + 1, off => do
    match ← step off with
    | none => pure none
    | some next => walkChecked step n next

def skipNodeChecked : ℕ → ℕ → Checked DtStatus (Option ℕ)
  | 0, _ => pure none
  | levels + 1, off =>
    if Fits blob off nodeHeader then do
      let n ← readNodeChecked blob off
      match ← walkChecked (skipPropertyChecked blob) n.nProps n.propsOff with
      | none => pure none
      | some children => walkChecked (skipNodeChecked levels) n.nChildren children
    else pure none

def dtParseChecked : Checked DtStatus DtNode :=
  if blob.length < nodeHeader then report .truncated
  else do
    match ← skipNodeChecked blob (dtMaxDepth + 1) 0 with
    | none => report .truncated
    | some _ => readNodeChecked blob 0

def propertyLoopChecked (name : List Octet) : ℕ → ℕ → Checked DtStatus (ℕ × ℕ)
  | 0, _ => report .notFound
  | n + 1, cur =>
    if Fits blob cur propHeader then do
      if ← sameChecked blob cur dtPropNameLen name then
        let len ← propLenChecked blob cur
        if Fits blob (cur + propHeader) len then pure (cur + propHeader, len) else report .truncated
      else
        match ← skipPropertyChecked blob cur with
        | none => report .truncated
        | some next => propertyLoopChecked name n next
    else report .truncated

def dtPropertyChecked (node : DtNode) (name : List Octet) : Checked DtStatus (ℕ × ℕ) :=
  propertyLoopChecked blob name node.nProps node.propsOff

def isNamedChecked (child : DtNode) (name : List Octet) : Checked DtStatus Bool :=
  match dtPropertyChecked blob child nameKey with
  | .error (.report _) => pure false
  | .error fault => .error fault
  | .ok (v, n) =>
    if name.length ≤ n then do
      if ← sameChecked blob v name.length name then
        if n = name.length then pure true
        else do
          let octet ← read blob (v + name.length)
          pure (octet = 0)
      else pure false
    else pure false

def childLoopChecked (name : List Octet) : ℕ → ℕ → Checked DtStatus DtNode
  | 0, _ => report .notFound
  | n + 1, cur => do
    let child ← readNodeChecked blob cur
    if ← isNamedChecked blob child name then pure child
    else
      match ← skipNodeChecked blob (dtMaxDepth + 1) cur with
      | none => report .truncated
      | some next => childLoopChecked name n next

def dtChildChecked (parent : DtNode) (name : List Octet) : Checked DtStatus DtNode := do
  match ← walkChecked (skipPropertyChecked blob) parent.nProps parent.propsOff with
  | none => report .truncated
  | some cur => childLoopChecked blob name parent.nChildren cur

/-- A path, component by component. -/
def followPath (cur : DtNode) : List (List Octet) → Except DtStatus DtNode
  | [] => .ok cur
  | name :: names =>
    if dtPropNameLen ≤ name.length then .error .notFound
    else
      match dtChild blob cur name with
      | .error e => .error e
      | .ok child => followPath child names

def dtPathChecked (cur : DtNode) : List (List Octet) → Checked DtStatus DtNode
  | [] => pure cur
  | name :: names =>
    if dtPropNameLen ≤ name.length then report .notFound
    else do
      let child ← dtChildChecked blob cur name
      dtPathChecked child names

end

variable {blob name : List Octet} {off n : ℕ}

theorem wordChecked_eq (h : off + 4 ≤ blob.length) : wordChecked blob off = .ok (rd32 blob off) :=
  if_pos h

theorem sameChecked_eq (h : off + n ≤ blob.length) :
    sameChecked blob off n name = .ok (sameString (blob.drop off) name n) := if_pos h

theorem readNodeChecked_eq (off : ℕ) : readNodeChecked blob off = sound (readNode blob off) := by
  unfold readNodeChecked readNode
  split
  case isTrue h =>
    unfold Fits nodeHeader at h
    rw [wordChecked_eq (by omega), wordChecked_eq (by omega)]
    rfl
  case isFalse => rfl

theorem propLenChecked_eq (h : Fits blob off propHeader) :
    propLenChecked blob off = .ok (propLen blob off) := by
  unfold Fits propHeader at h
  rw [propLenChecked, wordChecked_eq (by omega)]
  rfl

theorem skipPropertyChecked_eq (off : ℕ) :
    skipPropertyChecked blob off = .ok (skipProperty blob off) := by
  unfold skipPropertyChecked skipProperty
  split
  case isTrue h =>
    rw [propLenChecked_eq h]
    rfl
  case isFalse => rfl

theorem walkChecked_eq {step : ℕ → Checked DtStatus (Option ℕ)} {plain : ℕ → Option ℕ}
    (hstep : ∀ off, step off = .ok (plain off)) (n off : ℕ) :
    walkChecked step n off = .ok (walk plain n off) := by
  induction n generalizing off with
  | zero => rfl
  | succ n ih =>
    rw [walkChecked, hstep, walk]
    cases plain off with
    | none => rfl
    | some next => exact ih next

theorem skipNodeChecked_eq (levels off : ℕ) :
    skipNodeChecked blob levels off = .ok (skipNode blob levels off) := by
  induction levels generalizing off with
  | zero => rfl
  | succ levels ih =>
    rw [skipNodeChecked, skipNode, readNodeChecked_eq]
    unfold readNode
    split
    case isTrue =>
      dsimp only [sound, ok_bind]
      rw [walkChecked_eq skipPropertyChecked_eq]
      dsimp only [ok_bind]
      cases walk (skipProperty blob) (rd32 blob off) (off + nodeHeader) with
      | none => rfl
      | some children => exact walkChecked_eq ih _ _
    case isFalse => rfl

theorem dtParseChecked_eq : dtParseChecked blob = sound (dtParse blob) := by
  unfold dtParseChecked dtParse
  split
  case isTrue => rfl
  case isFalse =>
    rw [skipNodeChecked_eq, ok_bind]
    cases skipNode blob (dtMaxDepth + 1) 0 with
    | none => rfl
    | some last => exact readNodeChecked_eq 0

theorem propertyLoopChecked_eq (n off : ℕ) :
    propertyLoopChecked blob name n off = sound (propertyLoop blob name n off) := by
  induction n generalizing off with
  | zero => rfl
  | succ n ih =>
    rw [propertyLoopChecked, propertyLoop]
    split
    case isTrue h =>
      rw [sameChecked_eq (by unfold Fits propHeader at h; omega), ok_bind]
      split
      case isTrue =>
        rw [propLenChecked_eq h, ok_bind]
        split <;> rfl
      case isFalse =>
        rw [skipPropertyChecked_eq, ok_bind]
        cases skipProperty blob off with
        | none => rfl
        | some next => exact ih next
    case isFalse => rfl

theorem value_inside {v len : ℕ} (h : propertyLoop blob name n off = .ok (v, len)) :
    v + len ≤ blob.length := by
  induction n generalizing off with
  | zero => cases h
  | succ n ih =>
    rw [propertyLoop] at h
    split at h
    case isTrue =>
      split at h
      case isTrue =>
        split at h
        case isTrue hfits =>
          obtain ⟨rfl, rfl⟩ := Prod.mk.inj (Except.ok.inj h)
          exact hfits
        case isFalse => cases h
      case isFalse =>
        split at h
        case h_1 => cases h
        case h_2 => exact ih h
    case isFalse => cases h

theorem isNamedChecked_eq (child : DtNode) :
    isNamedChecked blob child name = .ok (isNamed blob child name) := by
  unfold isNamedChecked isNamed dtPropertyChecked
  rw [propertyLoopChecked_eq]
  unfold dtProperty
  cases hfind : propertyLoop blob nameKey child.nProps child.propsOff with
  | error => rfl
  | ok place =>
    obtain ⟨v, len⟩ := place
    have hinside := value_inside hfind
    dsimp only [sound]
    split
    case isTrue hle =>
      rw [sameChecked_eq (by omega), ok_bind, decide_eq_true hle, Bool.true_and]
      cases sameString (blob.drop v) name name.length with
      | false => rfl
      | true =>
        rw [if_pos rfl, Bool.true_and]
        split
        case isTrue hlength =>
          rw [decide_eq_true hlength]
          rfl
        case isFalse hlength =>
          have hlt : v + name.length < blob.length := by omega
          rw [read_eq (List.getElem?_eq_getElem hlt), ok_bind, decide_eq_false hlength,
            Bool.false_or, octetAt, List.getD_eq_getElem?_getD, List.getElem?_eq_getElem hlt]
          rfl
    case isFalse hle =>
      rw [decide_eq_false hle]
      rfl

theorem childLoopChecked_eq (n off : ℕ) :
    childLoopChecked blob name n off = sound (childLoop blob name n off) := by
  induction n generalizing off with
  | zero => rfl
  | succ n ih =>
    rw [childLoopChecked, childLoop, readNodeChecked_eq]
    cases hnode : readNode blob off with
    | error e =>
      obtain rfl : e = .truncated := by
        unfold readNode at hnode
        split at hnode
        case isTrue => cases hnode
        case isFalse => exact (Except.error.inj hnode).symm
      rfl
    | ok child =>
      dsimp only [sound, ok_bind]
      rw [isNamedChecked_eq, ok_bind]
      split
      case isTrue => rfl
      case isFalse =>
        rw [skipNodeChecked_eq, ok_bind]
        cases skipNode blob (dtMaxDepth + 1) off with
        | none => rfl
        | some next => exact ih next

theorem dtChildChecked_eq (parent : DtNode) :
    dtChildChecked blob parent name = sound (dtChild blob parent name) := by
  unfold dtChildChecked dtChild
  rw [walkChecked_eq skipPropertyChecked_eq, ok_bind]
  cases walk (skipProperty blob) parent.nProps parent.propsOff with
  | none => rfl
  | some cur => exact childLoopChecked_eq _ _

theorem dtPathChecked_eq (cur : DtNode) (names : List (List Octet)) :
    dtPathChecked blob cur names = sound (followPath blob cur names) := by
  induction names generalizing cur with
  | nil => rfl
  | cons name names ih =>
    rw [dtPathChecked, followPath]
    split
    case isTrue => rfl
    case isFalse =>
      rw [dtChildChecked_eq]
      cases dtChild blob cur name with
      | error e => rfl
      | ok child => exact ih child

end S5LBox.Firmware
