import S5LBox.Tools.Hle

/-!
# The native rectangle

`hle_ogl_poly_scan_known_rect` draws an axis-aligned rectangle by the scanline routine. Its rows go
to a scratch first, and the scanline reads through a facade that shows it the rows and the chunk
already in the scratch; the spans are published together at the end.
-/

namespace S5LBox.Hle

open S5LBox.Arm

def oglRectMaxWidth : ℕ := 320
def oglRectMaxHeight : ℕ := 480
def oglRectRealLimit : ℕ := 0x40000000
def oglRectFakeStack : Word := 0x7fffd000
def oglRectFakeStart : Word := 0x7fffd100
def oglRectFakeDelta : Word := 0x7fffd200

/-- `ogl_rect_scan_mem_t`, with the rows and the octets of the current one that it points to. -/
structure Shadow where
  stack : List Octet
  start : List Octet
  delta : List Octet
  prior : List Span
  current : Span := ⟨0, []⟩
  writes : ℕ := 0
  expectedLen : ℕ
  expectedWrites : ℕ

/-- `ogl_rect_range_contains`, with the octets that are asked for. -/
def contained (base : Word) (data : List Octet) (va : Word) (len : ℕ) : Option (List Octet) :=
  if base ≤ va ∧ va.toNat + len ≤ base.toNat + data.length then
    some ((data.drop (va - base).toNat).take len)
  else none

def rangesOverlap (a : Word) (alen : ℕ) (b : Word) (blen : ℕ) : Bool :=
  a.toNat < b.toNat + blen && b.toNat < a.toNat + alen

def overlayBytes (va : Word) (data : List Octet) (span : Span) : List Octet :=
  data.mapIdx fun i octet ↦
    if span.va.toNat ≤ va.toNat + i ∧ va.toNat + i < span.va.toNat + span.src.length then
      octetAt span.src (va.toNat + i - span.va.toNat)
    else octet

/-- The search of the earlier rows for one that holds the request, which only counts while nothing
before it overlaps. Without one, whether anything overlaps. -/
def searchPrior (va : Word) (len : ℕ) : Bool → List Span → List Octet ⊕ Bool
  | overlapping, [] => .inr overlapping
  | overlapping, span :: rest =>
    match if overlapping then none else contained span.va span.src va len with
    | some data => .inl data
    | none =>
      searchPrior va len (overlapping || rangesOverlap span.va span.src.length va len) rest

/-- The search of the scratch, the current row first. -/
def Shadow.search (s : Shadow) (va : Word) (len : ℕ) : List Octet ⊕ Bool :=
  if s.current.src = [] then searchPrior va len false s.prior
  else
    match contained s.current.va s.current.src va len with
    | some data => .inl data
    | none =>
      searchPrior va len (rangesOverlap s.current.va s.current.src.length va len) s.prior

/-- The operands the facade makes up. -/
def Shadow.operands (s : Shadow) (va : Word) (len : ℕ) : Option (List Octet) :=
  contained oglRectFakeStack s.stack va len <|> contained oglRectFakeStart s.start va len <|>
    contained oglRectFakeDelta s.delta va len

/-- Memory with the scratch laid over it, in the order it was written. -/
def Shadow.overlay (s : Shadow) (va : Word) (data : List Octet) : List Octet :=
  overlayBytes va (s.prior.foldl (overlayBytes va) data) s.current

def oglRectScanRead (s : Shadow) (op : ReadOp) : Program hleInterface (Option (List Octet)) :=
  if op.len = 0 then pure none
  else
    match s.operands op.va op.len with
    | some data => pure (some data)
    | none =>
      if oglRectRealLimit < op.va.toNat + op.len then pure none
      else
        match s.search op.va op.len with
        | .inl data => pure (some data)
        | .inr overlapping => do
          let data ← Program.ask (I := hleInterface) op
          pure (data.map fun data ↦ if overlapping then s.overlay op.va data else data)

def oglRectScanWrite (s : Shadow) (span : Span) : Option Shadow :=
  if span.src = [] ∨ oglRectMaxHeight ≤ s.prior.length ∨ s.expectedWrites ≤ s.writes ∨
      s.expectedLen < s.current.src.length ∨
      s.expectedLen - s.current.src.length < span.src.length ∨
      oglRectRealLimit < span.va.toNat + span.src.length then none
  else if s.writes ≠ 0 ∧ s.current.va.toNat + s.current.src.length ≠ span.va.toNat then none
  else
    some { s with
      current := ⟨if s.writes = 0 then span.va else s.current.va, s.current.src ++ span.src⟩
      writes := s.writes + 1 }

/-- A routine whose reads go through the facade. -/
def shadowed {α : Type} (s : Shadow) (routine : Routine α) : Routine α :=
  OptionT.mk (Program.translate (I := hleInterface) (oglRectScanRead s) routine.run)

variable (fpu : HostFpu)

def oglRectAdvancedStart (start delta : Word) (count : ℕ) : Word :=
  fadd fpu start (fmul fpu delta (fofInt fpu (BitVec.ofNat 32 count)))

/-- `ogl_rect_textured_chunks`, which reads past the facade. Where a read is refused it answers
no. -/
def oglRectTexturedChunks (ctx mask : Word) (count : ℕ) : Routine Bool :=
  (do
    require (mask = 0x0308 && swScanlineChunkMax < count && count ≤ oglRectMaxWidth)
    let render ← readU32At ctx 0x00
    let minSampler ← readU32At ctx 0x14
    let magSampler ← readU32At ctx 0x18
    let units ← readU32At ctx 0x68
    let state ← readU32At render 0x04
    let aux ← readU32At render 0x100
    let stateMode ← readU8At state 0x08
    let stateFlags ← readU8At state 0x3c
    pure (units = 1 ∧ aux = 0 ∧ stateFlags = 0x12 ∧ (stateMode = 1 ∨ stateMode = 2) ∧
      minSampler = magSampler ∧ (minSampler = swSampleNearestBgra8 ∨
        minSampler = swSampleNearestBgrx8 ∨ (stateMode = 1 ∧ minSampler = swSampleBilinearBgra8)))) <|>
    pure false

/-- What a row of the rectangle is drawn from. -/
structure Row where
  ctx : Word
  mask : Word
  x : Word
  y : Word
  count : ℕ
  u : Word
  v : Word
  du : Word

/-- The fake stack of a row. -/
def Row.stack (row : Row) : List Octet :=
  [oglRectFakeDelta, 0, 0, row.mask, row.ctx].flatMap leOctets

/-- The start vertex of a chunk. -/
def startOctets (u v : Word) : List Octet :=
  [0, 0, 0, fone, 0, 0, 0, 0, u, v, 0, 0, 0, 0].flatMap leOctets

/-- The delta vertex of a row. -/
def Row.delta (row : Row) : List Octet :=
  [0, 0, 0, 0, 0, 0, 0, 0, if row.mask &&& 0x0100 ≠ 0 then row.du else fzero, 0, 0, 0, 0,
    0].flatMap leOctets

/-- The registers the scanline is called with. -/
def Row.regs (row : Row) (offset chunk : ℕ) : Reg → Word := fun n ↦
  if n = 0 then row.x + BitVec.ofNat 32 offset
  else if n = 1 then row.y
  else if n = 2 then BitVec.ofNat 32 chunk
  else if n = 3 then oglRectFakeStart
  else if n = 13 then oglRectFakeStack
  else if n = 14 then 0x7fffd300
  else if n = 15 then 0x3122d180
  else 0

/-- The facade as a row starts with it. -/
def Row.shadow (row : Row) (prior : List Span) (chunks : ℕ) : Shadow where
  stack := row.stack
  start := startOctets fzero fzero
  delta := row.delta
  prior := prior
  expectedLen := row.count * 4
  expectedWrites := chunks

/-- One call of the scanline, with what it publishes caught in the scratch. -/
def renderChunk (row : Row) (s : Shadow) (chunk : ℕ × ℕ) : Routine Shadow := do
  let s := { s with start := startOctets (oglRectAdvancedStart fpu row.u row.du chunk.1) row.v }
  let spans ← shadowed s (hleSwScanlineKnownPaths fpu true (row.regs chunk.1 chunk.2))
  OptionT.mk (pure (spans.foldlM oglRectScanWrite s))

/-- The offsets and lengths of the calls a row is drawn by. -/
def rowChunks (count : ℕ) (split : Bool) : List (ℕ × ℕ) :=
  if split then [(0, swScanlineChunkMax), (swScanlineChunkMax, count - swScanlineChunkMax)]
  else [(0, count)]

def oglRectRenderRow (row : Row) (prior : List Span) : Routine Span := do
  let split ←
    if swScanlineChunkMax < row.count then oglRectTexturedChunks row.ctx row.mask row.count
    else pure false
  let chunks := rowChunks row.count split
  let s ← chunks.foldlM (renderChunk fpu row) (row.shadow prior chunks.length)
  require (s.writes = chunks.length && s.current.src.length = s.expectedLen)
  pure s.current

def fle (a b : Word) : Bool := fpu.lt32 a b || fpu.eq32 a b

def oglRectBoundedF32 (value : Word) : Bool := fle fpu 0xc7000000 value && fle fpu value 0x47000000

/-- `(int32_t)` of a `float` in range. -/
def ftrunc (value : Word) : Word := fpu.toInt32 (fpu.widen value).1

def oglRectExactI32 (value : Word) : Option Word :=
  if oglRectBoundedF32 fpu value ∧ fpu.eq32 (fofInt fpu (ftrunc fpu value)) value then
    some (ftrunc fpu value)
  else none

/-- `0.5f`. -/
def fhalf : Word := 0x3f000000
/-- `0.5`. -/
def dhalf : DWord := 0x3fe0000000000000

def oglRectFirstScanY (edge : Word) : Option Word :=
  if !oglRectBoundedF32 fpu edge then none
  else
    let shifted := fsub fpu edge fhalf
    let scan := ftrunc fpu shifted
    let scan := if fpu.lt32 (fofInt fpu scan) shifted then scan + 1 else scan
    some (if fpu.eq32 (fsub fpu edge (fofInt fpu scan)) fhalf then scan + 1 else scan)

def oglRectEndScanY (edge : Word) : Option Word :=
  if !oglRectBoundedF32 fpu edge then none
  else
    let shifted := fadd fpu edge fhalf
    let scan := ftrunc fpu shifted
    some (if fpu.lt32 shifted (fofInt fpu scan) then scan - 1 else scan)

def oglRectPixelCenterOffset (pixel edge : Word) : DWord :=
  (fpu.f64 0 .add (fpu.f64 0 .sub dhalf (fpu.widen edge).1).1 (fpu.ofInt32 pixel)).1

def oglRectInterpolatedStart (base delta : Word) (pixelOffset : DWord) : Word :=
  let scaled := (fpu.f64 0 .mul (fpu.widen delta).1 pixelOffset).1
  (fpu.narrow 0 (fpu.f64 0 .add (fpu.ofInt32 base) scaled).1).1

/-- A quotient of two integers, as the root rounds it. -/
def oglRectDelta (texture geometry : Word) : Word :=
  (fpu.narrow 0 (fpu.f64 0 .div (fpu.ofInt32 texture) (fpu.ofInt32 geometry)).1).1

/-- A vertex the root accepts; `y` is not an integer where `exactY` has none. -/
structure Vertex where
  x : Word
  y : Word
  exactY : Option Word
  u : Word := 0
  v : Word := 0

/-- `ogl_rect_read_vert` and the checks on what it reads. -/
def oglRectReadVert (poly : Word) (textured : Bool) (index : ℕ) : Routine Vertex := do
  let base := poly.toNat + 4 + index * 0x38
  require (base + 0x0f < 2 ^ 32)
  let field (offset : ℕ) : Routine Word := readU32 (BitVec.ofNat 32 (base + offset))
  let x ← field 0x00
  let y ← field 0x04
  let w ← field 0x0c
  let uv ←
    if textured then do
      require (base + 0x27 < 2 ^ 32)
      let u ← field 0x20
      let v ← field 0x24
      pure (u, v)
    else pure (fzero, fzero)
  require (fpu.eq32 w fone)
  let ix ← OptionT.mk (pure (oglRectExactI32 fpu x))
  let iu ← if textured then OptionT.mk (pure (oglRectExactI32 fpu uv.1)) else pure 0
  let iv ← if textured then OptionT.mk (pure (oglRectExactI32 fpu uv.2)) else pure 0
  require ((oglRectExactI32 fpu y).isSome || oglRectBoundedF32 fpu y)
  pure ⟨ix, y, oglRectExactI32 fpu y, iu, iv⟩

/-- What the root is called with. -/
structure Call where
  poly : Word
  ctx : Word
  clipXmin : Word
  clipYmin : Word
  clipXmax : Word
  clipYmax : Word
  flags : Half

def Call.textured (call : Call) : Bool := call.flags = 0x030b

/-- The first checks of the root, up to the header of the polygon. -/
def readCall (r : Reg → Word) : Routine Call := do
  require (r 0 < 0x40000000)
  let clipXmax ← readU32At (r 13) 0x00
  let clipYmax ← readU32At (r 13) 0x04
  let callback ← readU32At (r 13) 0x08
  let ctx ← readU32At (r 13) 0x0c
  require (r 1 = 0 && r 2 < clipXmax && r 3 < clipYmax && clipXmax.toNat ≤ oglRectMaxWidth &&
    clipYmax.toNat ≤ oglRectMaxHeight && callback = 0x3122d180 && ctx ≠ 0 && ctx < 0x40000000)
  let count ← readU16 (r 0)
  let flags ← readU16 (r 0 + 2)
  require (count = 4 && (flags = 0x000b || flags = 0x030b))
  pure ⟨r 0, ctx, r 2, r 3, clipXmax, clipYmax, flags⟩

/-- The rectangle, clipped: its first pixel, its size, and where the texture starts. -/
structure Rect where
  ctx : Word
  mask : Word
  x : Word
  y : Word
  width : ℕ
  height : ℕ
  u : Word
  v : Word
  du : Word
  dv : Word

/-- The geometry of the four vertices: the lines it scans, if the root knows it. -/
def rectScan (textured : Bool) (a b c d : Vertex) : Option (Word × Word) := do
  let height ← oglRectExactI32 fpu (fsub fpu c.y a.y)
  let integerVertical := [a, b, c, d].all fun vertex ↦ vertex.exactY.isSome
  if a.x ≠ d.x ∨ b.x ≠ c.x ∨ !fpu.eq32 a.y b.y ∨ !fpu.eq32 c.y d.y ∨ a.x.toInt < 0 ∨
      b.x.toInt ≤ a.x.toInt ∨ 320 < b.x.toInt ∨ height.toInt ≤ 0 ∨ 480 < height.toInt ∨
      (integerVertical ∧ ((a.exactY.getD 0).toInt < 0 ∨ 480 < (c.exactY.getD 0).toInt)) ∨
      (!integerVertical ∧ !textured) then none
  let first ← oglRectFirstScanY fpu a.y
  let last ← oglRectEndScanY fpu c.y
  if last.toInt ≤ first.toInt then none
  pure (first, last)

/-- The texture deltas, if the root knows the mapping. -/
def rectDeltas (height : Word) (a b c d : Vertex) : Option (Word × Word) :=
  let geometryWidth := b.x - a.x
  let textureWidth := b.u - a.u
  let textureHeight := c.v - a.v
  if a.u ≠ d.u ∨ b.u ≠ c.u ∨ a.v ≠ b.v ∨ c.v ≠ d.v ∨ textureWidth.toInt < 0 ∨
      textureHeight.toInt < 0 ∨ textureHeight ≠ height ∨
      (textureWidth ≠ geometryWidth ∧ (geometryWidth ≠ 320 ∨ textureWidth ≠ 1)) then none
  else some (oglRectDelta fpu textureWidth geometryWidth, oglRectDelta fpu textureHeight height)

def smax (a b : Word) : Word := if a.toInt > b.toInt then a else b
def smin (a b : Word) : Word := if a.toInt < b.toInt then a else b

/-- The geometry, the texture map and the clip of the root, which are all on values already read. -/
def rectOf (call : Call) (a b c d : Vertex) : Option Rect := do
  let (first, last) ← rectScan fpu call.textured a b c d
  let height ← oglRectExactI32 fpu (fsub fpu c.y a.y)
  let (du, dv) ← if call.textured then rectDeltas fpu height a b c d else some (fzero, fzero)
  let x := smax a.x call.clipXmin
  let y := smax first call.clipYmin
  let xmax := smin b.x call.clipXmax
  let ymax := smin last call.clipYmax
  if xmax.toInt ≤ x.toInt ∨ ymax.toInt ≤ y.toInt then none
  let left := (fpu.f64 0 .add (fpu.ofInt32 (x - a.x)) dhalf).1
  let u := if call.textured then oglRectInterpolatedStart fpu a.u du left else fzero
  let v :=
    if call.textured then
      (fun v ↦ oglRectAdvancedStart fpu v dv 1)^[(y - first).toNat]
        (oglRectInterpolatedStart fpu a.v dv (oglRectPixelCenterOffset fpu first a.y))
    else fzero
  pure ⟨call.ctx, (call.flags &&& ~~~3).setWidth 32, x, y, (xmax - x).toNat, (ymax - y).toNat, u, v,
    du, dv⟩

/-- The root up to its first row. -/
def readRect (r : Reg → Word) : Routine Rect := do
  let call ← readCall r
  let a ← oglRectReadVert fpu call.poly call.textured 0
  let b ← oglRectReadVert fpu call.poly call.textured 1
  let c ← oglRectReadVert fpu call.poly call.textured 2
  let d ← oglRectReadVert fpu call.poly call.textured 3
  OptionT.mk (pure (rectOf fpu call a b c d))

/-- A row of a rectangle. -/
def Rect.row (rect : Rect) (index : ℕ) (v : Word) : Row where
  ctx := rect.ctx
  mask := rect.mask
  x := rect.x
  y := rect.y + BitVec.ofNat 32 index
  count := rect.width
  u := rect.u
  v := v
  du := rect.du

/-- The rows that are left, from a row and its texture line on, with the rows already drawn. -/
def renderRows (rect : Rect) : (left : ℕ) → (v : Word) → (prior : List Span) → Routine (List Span)
  | 0, _, prior => pure prior
  | left + 1, v, prior => do
    let span ← oglRectRenderRow fpu (rect.row prior.length v) prior
    require (span.src.length = rect.width * 4)
    require (prior.all fun earlier ↦
      !rangesOverlap span.va span.src.length earlier.va earlier.src.length)
    renderRows rect left
      (if rect.mask = 0x0308 then oglRectAdvancedStart fpu v rect.dv 1 else v) (prior ++ [span])

/-- `hle_ogl_poly_scan_known_rect`, with the spans it hands to `writev`. -/
def hleOglPolyScanKnownRect (r : Reg → Word) : Routine (List Span) := do
  let rect ← readRect fpu r
  renderRows fpu rect rect.height rect.v []

end S5LBox.Hle
