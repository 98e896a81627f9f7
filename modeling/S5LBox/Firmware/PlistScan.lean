import S5LBox.Firmware.Plist
import S5LBox.Library.Checked

/-!
# The property list scanner, octet by octet

The scanner as it walks the document: every read names its offset and is a fault past the end of
the document, every loop has its turns, and the names of the open containers stand on a stack of a
fixed size. A view shortens what the loops see; offsets stay those of the document.
-/

namespace S5LBox.Firmware

open Checked

/-- `vmfw_plist_t`: the document and how much of it a scan sees. -/
structure VmfwPlist where
  xml : List Octet
  len : ℕ

abbrev Scanning := Checked PlistStatus

/-- The loop of `find_seq`. -/
def findSeqLoop (x : List Octet) (len : ℕ) (needle : List Octet) : ℕ → ℕ → Scanning (Option ℕ)
  | 0, _ => .error .endless
  | turns + 1, i =>
    if i + needle.length ≤ len then do
      let c ← read x i
      let found ← (if needle.head? = some c then same x i needle else pure false)
      if found then pure (some i) else findSeqLoop x len needle turns (i + 1)
    else pure none

def scanFindSeq (x : List Octet) (len start : ℕ) (needle : List Octet) : Scanning (Option ℕ) :=
  if needle.length = 0 ∨ len < needle.length then pure none
  else findSeqLoop x len needle (len + 1) start

inductive TokKind
  | none | opened | closed
deriving DecidableEq, Repr

/-- `plist_tag_t`. -/
structure ScanTag where
  start : ℕ
  stop : ℕ
  nameOff : ℕ
  nameLen : ℕ
  selfClosing : Bool
deriving DecidableEq, Repr

def ScanTag.zero : ScanTag := ⟨0, 0, 0, 0, false⟩

/-- The loop over a `<!DOCTYPE …>`; the result is the offset behind its `>`. -/
def doctypeLoop (x : List Octet) (n : ℕ) : ℕ → ℕ → Word → Octet → Scanning (Option ℕ)
  | 0, _, _, _ => .error .endless
  | turns + 1, j, subset, quote =>
    if j < n then do
      let c ← read x j
      if quote ≠ 0 then doctypeLoop x n turns (j + 1) subset (if c = quote then 0 else quote)
      else if c = 0x22 ∨ c = 0x27 then doctypeLoop x n turns (j + 1) subset c
      else if c = 0x5b then doctypeLoop x n turns (j + 1) (subset + 1) quote
      else if c = 0x5d then
        doctypeLoop x n turns (j + 1) (if subset ≠ 0 then subset - 1 else subset) quote
      else if c = 0x3e ∧ subset = 0 then pure (some (j + 1))
      else doctypeLoop x n turns (j + 1) subset quote
    else pure none

/-- The loop over the attributes of a tag; the result is the offset of its `>`. -/
def attributeLoop (x : List Octet) (n : ℕ) : ℕ → ℕ → Octet → Scanning (Option ℕ)
  | 0, _, _ => .error .endless
  | turns + 1, k, quote =>
    if k < n then do
      let c ← read x k
      if quote ≠ 0 then attributeLoop x n turns (k + 1) (if c = quote then 0 else quote)
      else if c = 0x22 ∨ c = 0x27 then attributeLoop x n turns (k + 1) c
      else if c = 0x3e then pure (some k)
      else attributeLoop x n turns (k + 1) quote
    else pure none

/-- The element tag whose `<` is at `i`. -/
def scanElementTag (pl : VmfwPlist) (i : ℕ) : Scanning (ScanTag × TokKind) := do
  let x := pl.xml
  let n := pl.len
  let closing := decide ((← read x (i + 1)) = 0x2f)
  let nameOff := i + if closing then 2 else 1
  let j ← passWhile x isNameChar n (n + 1) nameOff
  if j = nameOff then report .malformed
  else
    match ← attributeLoop x n (n + 1) j 0 with
    | none => report .malformed
    | some k =>
      let selfClosing ←
        (if j < k then return decide ((← read x (k - 1)) = 0x2f) else pure false)
      let tag : ScanTag := ⟨i, k + 1, nameOff, j - nameOff, selfClosing⟩
      if closing then
        let q ← passWhile x isWs k (n + 1) j
        if q < k then report .malformed else pure (tag, .closed)
      else pure (tag, .opened)

/-- The loop of `next_tag`. -/
def scanNextTagLoop (pl : VmfwPlist) : ℕ → ℕ → Scanning (ScanTag × TokKind)
  | 0, _ => .error .endless
  | turns + 1, pos => do
    let x := pl.xml
    let n := pl.len
    let i ← passWhile x (· ≠ 0x3c) n (n + 1) pos
    if n ≤ i then pure (.zero, .none)
    else if n ≤ i + 1 then report .malformed
    else
      let c ← read x (i + 1)
      if c = 0x21 then
        let comment ← (if i + 4 ≤ n then same x i (ascii "<!--") else pure false)
        if comment then
          match ← scanFindSeq x n (i + 4) (ascii "-->") with
          | none => report .malformed
          | some e => scanNextTagLoop pl turns (e + 3)
        else
          let cdata ← (if i + 9 ≤ n then same x i (ascii "<![CDATA[") else pure false)
          if cdata then report .malformed
          else
            match ← doctypeLoop x n (n + 1) (i + 2) 0 0 with
            | none => report .malformed
            | some pos => scanNextTagLoop pl turns pos
      else if c = 0x3f then
        match ← scanFindSeq x n (i + 2) (ascii "?>") with
        | none => report .malformed
        | some e => scanNextTagLoop pl turns (e + 2)
      else scanElementTag pl i

/-- `next_tag`. -/
def scanNextTag (pl : VmfwPlist) (pos : ℕ) : Scanning (ScanTag × TokKind) :=
  scanNextTagLoop pl (pl.len + 1) pos

/-- `plist_elem_t`. -/
structure ScanElem where
  start : ℕ
  nameOff : ℕ
  nameLen : ℕ
  contentOff : ℕ
  contentEnd : ℕ
  stop : ℕ
  selfClosing : Bool
deriving DecidableEq, Repr

def ScanElem.zero : ScanElem := ⟨0, 0, 0, 0, 0, 0, false⟩

/-- A comparison of two ranges of the document; both are read. -/
def sameOctets (x : List Octet) (a b n : ℕ) : Scanning Bool :=
  if b + n ≤ x.length then same x a ((x.drop b).take n) else .error .overrun

/-- The loop of `read_element`, with where the names of the open containers are and how long; the
result is the end tag of the outermost. -/
def scanReadLoop (pl : VmfwPlist) (depth : ℕ) : ℕ → List (ℕ × ℕ) → ℕ → Scanning ScanTag
  | 0, _, _ => .error .endless
  | turns + 1, stk, cur => do
    let (u, kind) ← scanNextTag pl cur
    match kind with
    | .none => report .malformed
    | .opened =>
      if u.selfClosing then scanReadLoop pl depth turns stk u.stop
      else if plistMaxDepth ≤ stk.length ∨ plistMaxDepth < depth + stk.length then report .tooDeep
      else
        let stk ← push plistMaxDepth (u.nameOff, u.nameLen) stk
        scanReadLoop pl depth turns stk u.stop
    | .closed =>
      match stk with
      | [] => report .malformed
      | top :: stk =>
        let matching ←
          (if u.nameLen ≠ top.2 then pure false else sameOctets pl.xml u.nameOff top.1 u.nameLen)
        if !matching then report .malformed
        else if stk = [] then pure u
        else scanReadLoop pl depth turns stk u.stop

/-- `read_element`. -/
def scanReadElement (pl : VmfwPlist) (pos depth : ℕ) : Scanning (ScanElem × TokKind) := do
  let (t, kind) ← scanNextTag pl pos
  match kind with
  | .none => pure (.zero, .none)
  | .closed => pure (.zero, .closed)
  | .opened =>
    if t.selfClosing then
      pure (⟨t.start, t.nameOff, t.nameLen, t.stop, t.stop, t.stop, true⟩, .opened)
    else
      let stk ← push plistMaxDepth (t.nameOff, t.nameLen) []
      let u ← scanReadLoop pl depth (pl.len + 1) stk t.stop
      pure (⟨t.start, t.nameOff, t.nameLen, t.stop, u.start, u.stop, false⟩, .opened)

def scanInnerView (pl : VmfwPlist) (e : ScanElem) : VmfwPlist := ⟨pl.xml, e.contentEnd⟩

def nameIs (pl : VmfwPlist) (e : ScanElem) (s : List Octet) : Scanning Bool :=
  if e.nameLen = s.length then same pl.xml e.nameOff s else pure false

/-- The loop of `text_next` over the entities, with `rest` octets behind the ampersand. -/
def scanEntity (x : List Octet) (pos rest : ℕ) :
    List (List Octet × Octet) → Scanning (Option (List Octet × Octet))
  | [] => pure none
  | entity :: others => do
    let found ← (if entity.1.length ≤ rest then same x (pos + 1) entity.1 else pure false)
    if found then pure (some entity) else scanEntity x pos rest others

/-- `text_next`: the next octet and the offset behind it, or nothing at `stop`. -/
def scanTextNext (x : List Octet) (pos stop : ℕ) : Scanning (Option (Octet × ℕ)) :=
  if stop ≤ pos then pure none
  else do
    let c ← read x pos
    if c = 0x3c then report .malformed
    else if c ≠ 0x26 then pure (some (c, pos + 1))
    else
      match ← scanEntity x pos (stop - pos - 1) entities with
      | some entity => pure (some (entity.2, pos + (1 + entity.1.length)))
      | none => report .malformed

/-- The loop of `text_copy`. -/
def scanTextCopyLoop (x : List Octet) (cap stop : ℕ) : ℕ → ℕ → List Octet → Scanning (List Octet)
  | 0, _, _ => .error .endless
  | turns + 1, pos, out => do
    match ← scanTextNext x pos stop with
    | none => if cap ≤ out.length then report .tooLong else pure out
    | some (b, pos) =>
      if cap ≤ out.length + 1 then report .tooLong
      else scanTextCopyLoop x cap stop turns pos (out ++ [b])

def scanTextCopy (pl : VmfwPlist) (e : ScanElem) (cap : ℕ) : Scanning (List Octet) :=
  scanTextCopyLoop pl.xml cap e.contentEnd (pl.len + 1) e.contentOff []

/-- The loop of `text_equals`, behind `n` octets of `s` that are the same. -/
def scanTextEqualsLoop (x s : List Octet) (stop : ℕ) : ℕ → ℕ → ℕ → Bool → Scanning Bool
  | 0, _, _, _ => .error .endless
  | turns + 1, pos, n, differs => do
    match ← scanTextNext x pos stop with
    | none => pure (!differs && n = s.length)
    | some (b, pos) =>
      if differs then scanTextEqualsLoop x s stop turns pos n true
      else if s[n]? ≠ some b then scanTextEqualsLoop x s stop turns pos n true
      else scanTextEqualsLoop x s stop turns pos (n + 1) false

def scanTextEquals (pl : VmfwPlist) (e : ScanElem) (s : List Octet) : Scanning Bool :=
  scanTextEqualsLoop pl.xml s e.contentEnd (pl.len + 1) e.contentOff 0 false

/-- The loop over the children of an array, up to the one with the index. -/
def scanArrayLoop (sub : VmfwPlist) (depth index : ℕ) : ℕ → ℕ → ℕ → Scanning ScanElem
  | 0, _, _ => .error .endless
  | turns + 1, position, cpos => do
    let (child, kind) ← scanReadElement sub cpos depth
    match kind with
    | .none => report .notFound
    | .closed => report .malformed
    | .opened =>
      if position = index then pure child
      else scanArrayLoop sub depth index turns (position + 1) child.stop

/-- The loop over the keys and values of a dictionary. -/
def scanDictLoop (pl sub : VmfwPlist) (depth : ℕ) (comp : List Octet) : ℕ → ℕ → Scanning ScanElem
  | 0, _ => .error .endless
  | turns + 1, cpos => do
    let (key, kind) ← scanReadElement sub cpos depth
    match kind with
    | .none => report .notFound
    | .closed => report .malformed
    | .opened =>
      if !(← nameIs pl key (ascii "key")) then report .malformed
      else
        let (val, kind) ← scanReadElement sub key.stop depth
        if kind ≠ .opened then report .malformed
        else if ← nameIs pl val (ascii "key") then report .malformed
        else if ← scanTextEquals pl key comp then pure val
        else scanDictLoop pl sub depth comp turns val.stop

/-- One component of a path, in the element `cur` at level `depth`. -/
def scanChild (pl : VmfwPlist) (cur : ScanElem) (depth : ℕ) (comp : List Octet) :
    Scanning ScanElem := do
  let sub := scanInnerView pl cur
  match compIsIndex comp with
  | some index =>
    if !(← nameIs pl cur (ascii "array")) || cur.selfClosing then report .notFound
    else scanArrayLoop sub (depth + 1) index (pl.len + 1) 0 cur.contentOff
  | none =>
    if !(← nameIs pl cur (ascii "dict")) || cur.selfClosing then report .notFound
    else scanDictLoop pl sub (depth + 1) comp (pl.len + 1) cur.contentOff

/-- The loop of `resolve` over the components of the path. -/
def scanDescend (pl : VmfwPlist) : List (List Octet) → ScanElem → ℕ → Scanning (ScanElem × ℕ)
  | [], cur, depth => pure (cur, depth)
  | comp :: rest, cur, depth =>
    if comp = [] ∨ rest = [[]] then report .invalidArgument
    else do
      let found ← scanChild pl cur depth comp
      scanDescend pl rest found (depth + 1)

/-- The loop of `resolve` up to the `<plist>` element. -/
def scanWrapLoop (pl : VmfwPlist) : ℕ → ℕ → Scanning ScanElem
  | 0, _ => .error .endless
  | turns + 1, scan => do
    let (wrap, kind) ← scanReadElement pl scan 1
    match kind with
    | .none => report .notXml
    | .closed => report .malformed
    | .opened =>
      if ← nameIs pl wrap (ascii "plist") then pure wrap
      else scanWrapLoop pl turns wrap.stop

def scanResolve (pl : VmfwPlist) (path : List Octet) : Scanning (ScanElem × ℕ) := do
  let wrap ← scanWrapLoop pl (pl.len + 1) 0
  let (cur, kind) ← scanReadElement (scanInnerView pl wrap) wrap.contentOff 2
  if kind ≠ .opened then report .notFound
  else scanDescend pl (components path) cur 2

/-- The loop of `vmfw_plist_init`. -/
def scanInitLoop (pl : VmfwPlist) : ℕ → ℕ → Scanning Unit
  | 0, _ => .error .endless
  | turns + 1, pos => do
    let (t, kind) ← scanNextTag pl pos
    if kind = .none then report .notXml
    else
      let found ←
        (if kind = .opened ∧ t.nameLen = 5 then same pl.xml t.nameOff (ascii "plist")
        else pure false)
      if found then pure () else scanInitLoop pl turns t.stop

def scanInit (pl : VmfwPlist) : Scanning Unit := scanInitLoop pl (pl.len + 1) 0

def scanGetString (pl : VmfwPlist) (path : List Octet) (cap : ℕ) : Scanning (List Octet) :=
  if cap = 0 then report .invalidArgument
  else do
    let (e, _) ← scanResolve pl path
    if !(← nameIs pl e (ascii "string")) then report .wrongType else scanTextCopy pl e cap

/-- The loop of `vmfw_plist_array_count`, with the children counted so far. -/
def scanCountLoop (sub : VmfwPlist) (depth : ℕ) : ℕ → ℕ → ℕ → Scanning ℕ
  | 0, _, _ => .error .endless
  | turns + 1, n, pos => do
    let (child, kind) ← scanReadElement sub pos depth
    match kind with
    | .none => pure n
    | .closed => report .malformed
    | .opened => scanCountLoop sub depth turns (n + 1) child.stop

def scanArrayCount (pl : VmfwPlist) (path : List Octet) : Scanning ℕ := do
  let (e, depth) ← scanResolve pl path
  if !(← nameIs pl e (ascii "array")) then report .wrongType
  else if e.selfClosing then pure 0
  else scanCountLoop (scanInnerView pl e) (depth + 1) (pl.len + 1) 0 e.contentOff

/-- The loop over the white space in front of `t`, down to `s`. -/
def trimLoop (x : List Octet) (s : ℕ) : ℕ → ℕ → Scanning ℕ
  | 0, _ => .error .endless
  | turns + 1, t =>
    if s < t then do
      if isWs (← read x (t - 1)) then trimLoop x s turns (t - 1) else pure t
    else pure t

/-- Where the encoded text of a data element is and how long. -/
def scanGetDataSpan (pl : VmfwPlist) (path : List Octet) : Scanning (ℕ × ℕ) := do
  let (e, _) ← scanResolve pl path
  if !(← nameIs pl e (ascii "data")) then report .wrongType
  else
    let s ← passWhile pl.xml isWs e.contentEnd (pl.len + 1) e.contentOff
    let t ← trimLoop pl.xml s (pl.len + 1) e.contentEnd
    pure (s, t - s)

end S5LBox.Firmware
