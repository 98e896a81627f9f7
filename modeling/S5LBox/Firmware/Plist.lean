import Mathlib.Data.List.DropRight
import S5LBox.Library.Numeral
import S5LBox.Word

/-!
# The property list scanner

A bounded, read-only scanner over XML property lists. Nothing is built: a lookup walks the octets
of the document, descends into a dictionary by its keys and into an array by counting. A view is a
beginning of the document, so that an offset into a view is one into the document.
-/

namespace S5LBox.Firmware

def plistMaxDepth : ℕ := 32

/-- `vmfw_plist_status_t` without success. -/
inductive PlistStatus
  | invalidArgument | notXml | malformed | tooDeep | notFound | wrongType | tooLong | badBase64
deriving DecidableEq, Repr

def isWs (c : Octet) : Bool := c = 0x20 || c = 0x09 || c = 0x0d || c = 0x0a

def isNameChar (c : Octet) : Bool :=
  (0x61 ≤ c && c ≤ 0x7a) || (0x41 ≤ c && c ≤ 0x5a) || (0x30 ≤ c && c ≤ 0x39) ||
    c = 0x5f || c = 0x2d || c = 0x3a || c = 0x2e || 0x80 ≤ c

/-- How many octets stand in front of the first `needle`. -/
def leading (needle : List Octet) : List Octet → Option ℕ
  | [] => none
  | c :: rest => if needle.isPrefixOf (c :: rest) then some 0 else (leading needle rest).map (· + 1)

def findSeq (x : List Octet) (start : ℕ) (needle : List Octet) : Option ℕ :=
  (leading needle (x.drop start)).map (start + ·)

structure PlistTag where
  start : ℕ
  stop : ℕ
  name : List Octet
  selfClosing : Bool
deriving DecidableEq, Repr

/-- What comes next: nothing, the end of the container or something that begins. -/
inductive Next (α : Type)
  | none
  | closed (tag : PlistTag)
  | opened (a : α)

/-- An octet inside or outside of quotes changes whether what follows is quoted. -/
def quoteStep (quote : Option Octet) (c : Octet) : Option Octet :=
  match quote with
  | some q => if c = q then none else some q
  | none => if c = 0x22 ∨ c = 0x27 then some c else none

/-- The octets of a `<!DOCTYPE …>` up to its `>`, from behind the `<!` on. -/
def doctypeLength : List Octet → (subset : Word) → (quote : Option Octet) → Option ℕ
  | [], _, _ => none
  | c :: rest, subset, quote =>
    if quote = none ∧ c = 0x3e ∧ subset = 0 then some 1
    else
      let subset :=
        if quote = none ∧ c = 0x5b then subset + 1
        else if quote = none ∧ c = 0x5d ∧ subset ≠ 0 then subset - 1
        else subset
      (doctypeLength rest subset (quoteStep quote c)).map (· + 1)

/-- How many octets stand in front of the `>` that ends a tag. -/
def tagLength : List Octet → (quote : Option Octet) → Option ℕ
  | [], _ => none
  | c :: rest, quote =>
    if quote = none ∧ c = 0x3e then some 0
    else (tagLength rest (quoteStep quote c)).map (· + 1)

/-- The element tag whose `<` is at `i`. -/
def elementTag (x : List Octet) (i : ℕ) : Except PlistStatus (Next PlistTag) :=
  let closing : Bool := x[i + 1]? = some 0x2f
  let nameOff := if closing then i + 2 else i + 1
  let name := (x.drop nameOff).takeWhile isNameChar
  let j := nameOff + name.length
  if name = [] then .error .malformed
  else
    match tagLength (x.drop j) none with
    | none => .error .malformed
    | some length =>
      let rest := (x.drop j).take length
      let tag : PlistTag := ⟨i, j + length + 1, name, rest.getLast? = some 0x2f⟩
      if closing then
        if rest.all isWs then .ok (.closed tag) else .error .malformed
      else .ok (.opened tag)

/-- The loop of `next_tag`. Every turn passes over an octet, so the turns do not run out. -/
def nextTagLoop (x : List Octet) : ℕ → ℕ → Except PlistStatus (Next PlistTag)
  | 0, _ => .ok .none
  | turns + 1, pos =>
    let i := pos + ((x.drop pos).takeWhile (· ≠ 0x3c)).length
    match x.drop i with
    | [] => .ok .none
    | [_] => .error .malformed
    | _ :: c :: _ =>
      if c = 0x21 then
        if (ascii "<!--").isPrefixOf (x.drop i) then
          match findSeq x (i + 4) (ascii "-->") with
          | none => .error .malformed
          | some e => nextTagLoop x turns (e + 3)
        else if (ascii "<![CDATA[").isPrefixOf (x.drop i) then .error .malformed
        else
          match doctypeLength (x.drop (i + 2)) 0 none with
          | none => .error .malformed
          | some length => nextTagLoop x turns (i + 2 + length)
      else if c = 0x3f then
        match findSeq x (i + 2) (ascii "?>") with
        | none => .error .malformed
        | some e => nextTagLoop x turns (e + 2)
      else elementTag x i

def nextTag (x : List Octet) (pos : ℕ) : Except PlistStatus (Next PlistTag) :=
  nextTagLoop x (x.length + 1) pos

structure PlistElem where
  name : List Octet
  contentOff : ℕ
  contentEnd : ℕ
  stop : ℕ
  selfClosing : Bool
deriving DecidableEq, Repr

/-- The loop of `read_element`, with the names of the open containers; the result is the end tag of
the outermost. -/
def readLoop (x : List Octet) (depth : ℕ) : ℕ → List (List Octet) → ℕ → Except PlistStatus PlistTag
  | 0, _, _ => .error .malformed
  | turns + 1, stk, cur =>
    match nextTag x cur with
    | .error e => .error e
    | .ok .none => .error .malformed
    | .ok (.opened u) =>
      if u.selfClosing then readLoop x depth turns stk u.stop
      else if plistMaxDepth ≤ stk.length ∨ plistMaxDepth < depth + stk.length then .error .tooDeep
      else readLoop x depth turns (u.name :: stk) u.stop
    | .ok (.closed u) =>
      match stk with
      | [] => .error .malformed
      | top :: stk =>
        if u.name ≠ top then .error .malformed
        else if stk = [] then .ok u
        else readLoop x depth turns stk u.stop

def readElement (x : List Octet) (pos depth : ℕ) : Except PlistStatus (Next PlistElem) :=
  match nextTag x pos with
  | .error e => .error e
  | .ok .none => .ok .none
  | .ok (.closed t) => .ok (.closed t)
  | .ok (.opened t) =>
    if t.selfClosing then .ok (.opened ⟨t.name, t.stop, t.stop, t.stop, true⟩)
    else
      match readLoop x depth (x.length + 1) [t.name] t.stop with
      | .error e => .error e
      | .ok u => .ok (.opened ⟨t.name, t.stop, u.start, u.stop, false⟩)

def innerView (x : List Octet) (e : PlistElem) : List Octet := x.take e.contentEnd

/-- The octets of the content of an element. -/
def PlistElem.content (x : List Octet) (e : PlistElem) : List Octet :=
  (x.take e.contentEnd).drop e.contentOff

def entities : List (List Octet × Octet) :=
  [(ascii "amp;", 0x26), (ascii "lt;", 0x3c), (ascii "gt;", 0x3e), (ascii "quot;", 0x22),
    (ascii "apos;", 0x27)]

/-- The next octet of a text, decoded, and what follows it. -/
def textNext (c : Octet) (rest : List Octet) : Except PlistStatus (Octet × List Octet) :=
  if c = 0x3c then .error .malformed
  else if c ≠ 0x26 then .ok (c, rest)
  else
    match entities.find? fun entity ↦ entity.1.isPrefixOf rest with
    | some entity => .ok (entity.2, rest.drop entity.1.length)
    | none => .error .malformed

theorem textNext_shorter {c : Octet} {rest : List Octet} {b : Octet} {tail : List Octet}
    (h : textNext c rest = .ok (b, tail)) : tail.length < rest.length + 1 := by
  unfold textNext at h
  split at h
  · cases h
  · split at h
    · cases h
      exact Nat.lt_succ_self _
    · split at h
      · cases h
        rw [List.length_drop]
        omega
      · cases h

/-- `text_copy`, behind `n` octets that are copied already. -/
def textCopy (cap n : ℕ) : List Octet → Except PlistStatus (List Octet)
  | [] => if cap ≤ n then .error .tooLong else .ok []
  | c :: rest =>
    match h : textNext c rest with
    | .error e => .error e
    | .ok (b, tail) =>
      if cap ≤ n + 1 then .error .tooLong
      else
        have := textNext_shorter h
        (textCopy cap (n + 1) tail).map (b :: ·)
termination_by text => text.length

/-- The whole text, decoded. -/
def decodeText : List Octet → Except PlistStatus (List Octet)
  | [] => .ok []
  | c :: rest =>
    match h : textNext c rest with
    | .error e => .error e
    | .ok (b, tail) =>
      have := textNext_shorter h
      (decodeText tail).map (b :: ·)
termination_by text => text.length

/-- `text_equals`; the text is decoded to its end whether it differs or not. -/
def textEquals (text s : List Octet) : Except PlistStatus Bool :=
  (decodeText text).map fun decoded ↦ decide (decoded = s)

def sizeMax : ℕ := 2 ^ 64 - 1

/-- `comp_is_index`: what a component of digits indexes; a large index saturates. -/
def compIsIndex (comp : List Octet) : Option ℕ :=
  if comp ≠ [] ∧ comp.all (Numeral.isDigit 10) then
    some (min (Numeral.value 10 (comp.map Numeral.octetDigit)) sizeMax)
  else none

/-- The child of an array at an index; every turn passes over a child. -/
def arrayChild (sub : List Octet) (depth : ℕ) : ℕ → ℕ → ℕ → Except PlistStatus PlistElem
  | 0, _, _ => .error .notFound
  | turns + 1, index, cpos =>
    match readElement sub cpos depth with
    | .error e => .error e
    | .ok .none => .error .notFound
    | .ok (.closed _) => .error .malformed
    | .ok (.opened child) =>
      if index = 0 then .ok child else arrayChild sub depth turns (index - 1) child.stop

/-- The value of a dictionary for a key; every turn passes over a key and its value. -/
def dictChild (sub : List Octet) (depth : ℕ) (comp : List Octet) :
    ℕ → ℕ → Except PlistStatus PlistElem
  | 0, _ => .error .notFound
  | turns + 1, cpos =>
    match readElement sub cpos depth with
    | .error e => .error e
    | .ok .none => .error .notFound
    | .ok (.closed _) => .error .malformed
    | .ok (.opened key) =>
      if key.name ≠ ascii "key" then .error .malformed
      else
        match readElement sub key.stop depth with
        | .error e => .error e
        | .ok .none => .error .malformed
        | .ok (.closed _) => .error .malformed
        | .ok (.opened val) =>
          if val.name = ascii "key" then .error .malformed
          else
            match textEquals (key.content sub) comp with
            | .error e => .error e
            | .ok true => .ok val
            | .ok false => dictChild sub depth comp turns val.stop

/-- One component of a path, in the element `cur` at level `depth`. -/
def childOf (x : List Octet) (cur : PlistElem) (depth : ℕ) (comp : List Octet) :
    Except PlistStatus PlistElem :=
  match compIsIndex comp with
  | some index =>
    if cur.name ≠ ascii "array" ∨ cur.selfClosing then .error .notFound
    else arrayChild (innerView x cur) (depth + 1) (x.length + 1) index cur.contentOff
  | none =>
    if cur.name ≠ ascii "dict" ∨ cur.selfClosing then .error .notFound
    else dictChild (innerView x cur) (depth + 1) comp (x.length + 1) cur.contentOff

/-- The components of a path from `cur` on; the result is an element and its level. -/
def descend (x : List Octet) : List (List Octet) → PlistElem → ℕ →
    Except PlistStatus (PlistElem × ℕ)
  | [], cur, depth => .ok (cur, depth)
  | comp :: rest, cur, depth =>
    if comp = [] ∨ rest = [[]] then .error .invalidArgument
    else
      match childOf x cur depth comp with
      | .error e => .error e
      | .ok found => descend x rest found (depth + 1)

/-- What a path names; the empty path names the root object. -/
def components (path : List Octet) : List (List Octet) :=
  if path = [] then [] else path.splitOn 0x2f

/-- The `<plist>` element; every turn passes over an element in front of it. -/
def findWrap (x : List Octet) : ℕ → ℕ → Except PlistStatus PlistElem
  | 0, _ => .error .notXml
  | turns + 1, scan =>
    match readElement x scan 1 with
    | .error e => .error e
    | .ok .none => .error .notXml
    | .ok (.closed _) => .error .malformed
    | .ok (.opened wrap) =>
      if wrap.name = ascii "plist" then .ok wrap else findWrap x turns wrap.stop

def resolve (x path : List Octet) : Except PlistStatus (PlistElem × ℕ) :=
  match findWrap x (x.length + 1) 0 with
  | .error e => .error e
  | .ok wrap =>
    match readElement (innerView x wrap) wrap.contentOff 2 with
    | .error e => .error e
    | .ok .none => .error .notFound
    | .ok (.closed _) => .error .notFound
    | .ok (.opened cur) => descend x (components path) cur 2

/-- The loop of `vmfw_plist_init`: whether there is a `<plist>` tag. -/
def plistInitLoop (x : List Octet) : ℕ → ℕ → Except PlistStatus Unit
  | 0, _ => .error .notXml
  | turns + 1, pos =>
    match nextTag x pos with
    | .error e => .error e
    | .ok .none => .error .notXml
    | .ok (.closed t) => plistInitLoop x turns t.stop
    | .ok (.opened t) =>
      if t.name = ascii "plist" then .ok () else plistInitLoop x turns t.stop

def vmfwPlistInit (x : List Octet) : Except PlistStatus Unit := plistInitLoop x (x.length + 1) 0

/-- The string at a path, for a buffer of `cap` octets with a terminator. -/
def vmfwPlistGetString (x path : List Octet) (cap : ℕ) : Except PlistStatus (List Octet) :=
  if cap = 0 then .error .invalidArgument
  else
    match resolve x path with
    | .error e => .error e
    | .ok (e, _) =>
      if e.name ≠ ascii "string" then .error .wrongType else textCopy cap 0 (e.content x)

/-- Count the children from `pos` on; every turn passes over one. -/
def countChildren (sub : List Octet) (depth : ℕ) : ℕ → ℕ → Except PlistStatus ℕ
  | 0, _ => .ok 0
  | turns + 1, pos =>
    match readElement sub pos depth with
    | .error e => .error e
    | .ok .none => .ok 0
    | .ok (.closed _) => .error .malformed
    | .ok (.opened child) => (countChildren sub depth turns child.stop).map (· + 1)

def vmfwPlistArrayCount (x path : List Octet) : Except PlistStatus ℕ :=
  match resolve x path with
  | .error e => .error e
  | .ok (e, depth) =>
    if e.name ≠ ascii "array" then .error .wrongType
    else if e.selfClosing then .ok 0
    else countChildren (innerView x e) (depth + 1) (x.length + 1) e.contentOff

/-- The encoded text of a data element, by where it is and how long, without the white space around
it. -/
def vmfwPlistGetDataSpan (x path : List Octet) : Except PlistStatus (ℕ × ℕ) :=
  match resolve x path with
  | .error e => .error e
  | .ok (e, _) =>
    if e.name ≠ ascii "data" then .error .wrongType
    else
      let content := e.content x
      let front := (content.takeWhile isWs).length
      .ok (e.contentOff + front, ((content.drop front).rdropWhile isWs).length)

end S5LBox.Firmware
