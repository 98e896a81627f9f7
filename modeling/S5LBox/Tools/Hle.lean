import S5LBox.Library.Program
import S5LBox.Arm.Vfp

/-!
# Native raster routines

The routines of `ios3_hle.c` that stand in for a guest function read guest memory, refuse on
anything they do not know, and publish at most one list of spans at their end. Here a routine is
a program over its reads that answers with the spans, so that a refusal cannot have written
anything. Arithmetic on `float` and `double` is the host's; the tracing is left out.
-/

namespace S5LBox.Hle

open S5LBox.Arm
open BitVec (ofNat)

/-- `ios3_hle_write_span_t`. -/
structure Span where
  va : Word
  src : List Octet
  deriving DecidableEq

/-- A call of `mem->read`. -/
structure ReadOp where
  va : Word
  len : ℕ

abbrev hleInterface : Interface := ⟨ReadOp, fun _ ↦ Option (List Octet)⟩

/-- A routine that may refuse. -/
abbrev Routine (α : Type) := OptionT (Program hleInterface) α

/-- A read that the routine goes on from whether or not it is granted. -/
def tryRead (va : Word) (len : ℕ) : Routine (Option (List Octet)) :=
  OptionT.lift (Program.ask (I := hleInterface) ⟨va, len⟩)

/-- A read that refuses with the memory. -/
def readBytes (va : Word) (len : ℕ) : Routine (List Octet) :=
  OptionT.mk (Program.ask (I := hleInterface) ⟨va, len⟩)

/-- A little-endian word of an octet string. -/
def leWord (data : List Octet) (i : ℕ) : Word :=
  octetAt data (i + 3) ++ octetAt data (i + 2) ++ octetAt data (i + 1) ++ octetAt data i

/-- The octets of a word, in guest order. -/
def leOctets (value : Word) : List Octet :=
  [value.extractLsb' 0 8, value.extractLsb' 8 8, value.extractLsb' 16 8, value.extractLsb' 24 8]

/-- The words of a span of memory. -/
def wordsOf (data : List Octet) (count : ℕ) : List Word :=
  (List.range count).map fun k ↦ leWord data (4 * k)

/-- `read_u32`; `read_f32` reads the same bits. -/
def readU32 (va : Word) : Routine Word := do
  let data ← readBytes va 4
  pure (leWord data 0)

def readU16 (va : Word) : Routine Half := do
  let data ← readBytes va 2
  pure (octetAt data 1 ++ octetAt data 0)

/-- Refusal, unless a condition holds. -/
def require (condition : Bool) : Routine Unit := if condition then pure () else failure

/-- `read_u32_at` and `read_f32_at`. -/
def readU32At (base offset : Word) : Routine Word := do
  require (base.toNat + offset.toNat < 2 ^ 32)
  readU32 (base + offset)

def readU8At (base offset : Word) : Routine Octet := do
  require (base.toNat + offset.toNat < 2 ^ 32)
  let data ← readBytes (base + offset) 1
  pure (octetAt data 0)

variable (fpu : HostFpu)

def fzero : Word := 0
def fone : Word := 0x3f800000
/-- `65536.0f`. -/
def ffixed : Word := 0x47800000

def fmul (a b : Word) : Word := (fpu.f32 0 .mul a b).1
def fadd (a b : Word) : Word := (fpu.f32 0 .add a b).1
def fsub (a b : Word) : Word := (fpu.f32 0 .sub a b).1
def fdiv (a b : Word) : Word := (fpu.f32 0 .div a b).1
/-- `(float)` of an `int32_t`. -/
def fofInt (value : Word) : Word := (fpu.narrow 0 (fpu.ofInt32 value)).1

def f32ToI32 (value : Word) : Option Word :=
  let d := (fpu.widen value).1
  if (fpu.lt64 negTwoPow31 d || fpu.eq64 d negTwoPow31) && fpu.lt64 d twoPow31 then
    some (fpu.toInt32 d)
  else none

def toFixed (value : Word) : Routine Word := OptionT.mk (pure (f32ToI32 fpu value))

def swSpanMax : ℕ := 320

/-- The four words of an `SWTexture`. -/
structure Texture where
  base : Word
  pitch : Word
  maxX : Word
  maxY : Word

/-- What a sampler reads of its start and delta vertices. -/
structure Walk where
  w : Word
  dw : Word
  u : Word
  v : Word
  du : Word
  dv : Word

/-- Whether a span of pixels touches a range. -/
def spanTouches (out : Word) (count : ℕ) (address bytes : ℕ) : Bool :=
  address < out.toNat + count * 4 && out.toNat < address + bytes

/-- The checks and reads every sampler starts with. -/
def readTexture (tex : Word) (unit count : ℕ) (out : Word) : Routine Texture := do
  require (count ≤ swSpanMax && unit ≤ 2)
  require (tex.toNat + 0x0f < 2 ^ 32 && (count = 0 || out.toNat + count * 4 ≤ 2 ^ 32))
  let base ← readU32At tex 0x00
  let pitch ← readU32At tex 0x04
  let maxX ← readU32At tex 0x08
  let maxY ← readU32At tex 0x0c
  require (maxX ≤ 0x7fffffff && maxY ≤ 0x7fffffff)
  pure ⟨base, pitch, maxX, maxY⟩

def readWalk (unit : ℕ) (start delta : Word) : Routine Walk := do
  let uvOff := 0x20 + unit * 8
  require (start.toNat + uvOff + 7 < 2 ^ 32 && delta.toNat + uvOff + 7 < 2 ^ 32)
  let w ← readU32At start 0x0c
  let dw ← readU32At delta 0x0c
  let su ← readU32At start (ofNat 32 uvOff)
  let sv ← readU32At start (ofNat 32 (uvOff + 4))
  let du ← readU32At delta (ofNat 32 uvOff)
  let dv ← readU32At delta (ofNat 32 (uvOff + 4))
  let u ← toFixed fpu (fmul fpu su ffixed)
  let v ← toFixed fpu (fmul fpu sv ffixed)
  let du ← toFixed fpu (fmul fpu du ffixed)
  let dv ← toFixed fpu (fmul fpu dv ffixed)
  pure ⟨w, dw, u, v, du, dv⟩

def hleIdentityTextureRow (t : Texture) (walk : Walk) (count : ℕ) (out : Word) : Option Word :=
  if count = 0 ∨ !fpu.eq32 walk.w fone ∨ !fpu.eq32 walk.dw fzero ∨ walk.du ≠ 65536 ∨
      walk.dv ≠ 0 ∨ walk.u.toInt < 0 ∨ walk.v.toInt < 0 ∨ walk.u &&& 0x7fff ≠ 0 ∨
      walk.v &&& 0x7fff ≠ 0 then none
  else
    let lastU := walk.u.toNat + (count - 1) * 65536
    if 0x7fffffff < lastU ∨ t.maxX.toNat ≤ lastU ∨ t.maxY.toNat ≤ walk.v.toNat then none
    else
      let address := t.base.toNat + t.pitch.toNat * (walk.v >>> 16).toNat +
        (walk.u >>> 16).toNat * 4
      if 2 ^ 32 < address + count * 4 ∨ spanTouches out count address (count * 4) then none
      else some (ofNat 32 address)

def hleConstantTextureRow (t : Texture) (walk : Walk) (count : ℕ) (out : Word) : Option Word :=
  if count = 0 ∨ !fpu.eq32 walk.w fone ∨ !fpu.eq32 walk.dw fzero ∨ walk.u.toInt < 0 ∨
      walk.v.toInt < 0 ∨ walk.du.toInt < 0 ∨ walk.dv.toInt < 0 then none
  else
    let lastU := walk.u.toNat + (count - 1) * walk.du.toNat
    let lastV := walk.v.toNat + (count - 1) * walk.dv.toNat
    if 0x7fffffff < lastU ∨ 0x7fffffff < lastV then none
    else do
      let firstX ← f32ToI32 fpu (fofInt fpu walk.u)
      let firstY ← f32ToI32 fpu (fofInt fpu walk.v)
      let lastX ← f32ToI32 fpu (fofInt fpu (ofNat 32 lastU))
      let lastY ← f32ToI32 fpu (fofInt fpu (ofNat 32 lastV))
      if firstX >>> 16 ≠ lastX >>> 16 ∨ firstY >>> 16 ≠ lastY >>> 16 ∨ t.maxX ≤ lastX ∨
          t.maxY ≤ lastY then none
      else
        let address := t.base.toNat + t.pitch.toNat * (firstY >>> 16).toNat +
          (firstX >>> 16).toNat * 4
        if 2 ^ 32 < address + 4 ∨ spanTouches out count address 4 then none
        else some (ofNat 32 address)

/-- The clamps of a fixed-point coordinate: zero when negative, the limit when not below it. -/
def clampFixed (value limit : Word) : Word :=
  if value.toInt < 0 then if (0 : Word).toInt ≥ limit.toInt then limit else 0
  else if value.toInt ≥ limit.toInt then limit else value

/-- `texel |= 0xff000000` where the surface has no alpha. -/
def opaqueIf (forceOpaque : Bool) (texel : Word) : Word :=
  if forceOpaque then texel ||| 0xff000000 else texel

/-- The scalar loop over the pixels that are left, from the current coordinates. -/
def nearestLoop (t : Texture) (walk : Walk) (count : ℕ) (out : Word) (forceOpaque : Bool) :
    (left : ℕ) → (w u v : Word) → Routine (List Word)
  | 0, _, _, _ => pure []
  | left + 1, w, u, v => do
    require !(fpu.eq32 w fzero)
    let inv := fdiv fpu fone w
    let x ← toFixed fpu (fmul fpu (fofInt fpu u) inv)
    let y ← toFixed fpu (fmul fpu (fofInt fpu v) inv)
    let x := clampFixed x t.maxX
    let y := clampFixed y t.maxY
    let address := t.base.toNat + t.pitch.toNat * (y >>> 16).toNat + (x >>> 16).toNat * 4
    require (address + 3 < 2 ^ 32 && !spanTouches out count address 4)
    let texel ← readU32 (ofNat 32 address)
    let rest ← nearestLoop t walk count out forceOpaque left (fadd fpu w walk.dw) (u + walk.du)
      (v + walk.dv)
    pure (opaqueIf forceOpaque texel :: rest)

/-- The shortcut for a texel that a whole row repeats, which only the rectangle root takes. -/
def constantOrLoop (root : Bool) (t : Texture) (walk : Walk) (count : ℕ) (out : Word)
    (forceOpaque : Bool) : Routine (List Word) := do
  let scalar := nearestLoop fpu t walk count out forceOpaque count walk.w walk.u walk.v
  match if root then hleConstantTextureRow fpu t walk count out else none with
  | none => scalar
  | some source =>
    match ← tryRead source 4 with
    | some data => pure (List.replicate count (opaqueIf forceOpaque (leWord data 0)))
    | none => scalar

/-- `hle_sample_nearest_32_pixels`; `root` is whether the reads are the rectangle root's. -/
def hleSampleNearest32Pixels (root : Bool) (tex : Word) (unit : ℕ) (start delta : Word)
    (count : ℕ) (out : Word) (forceOpaque : Bool) : Routine (List Word) := do
  let t ← readTexture tex unit count out
  let walk ← readWalk fpu unit start delta
  if count = 0 then pure []
  else
    match hleIdentityTextureRow fpu t walk count out with
    | none => constantOrLoop fpu root t walk count out forceOpaque
    | some source =>
      match ← tryRead source (count * 4) with
      | some data => pure ((wordsOf data count).map (opaqueIf forceOpaque))
      | none => constantOrLoop fpu root t walk count out forceOpaque

def hleBilinearBgra8Vertical (top bottom weight : Word) : Word :=
  let lanes : Word := 0x00ff00ff
  let topEven := top &&& lanes
  let topOdd := (top >>> 8) &&& lanes
  let even := topEven + ((weight * ((bottom &&& lanes) - topEven)) >>> 8)
  let odd := topOdd + ((weight * (((bottom >>> 8) &&& lanes) - topOdd)) >>> 8)
  (even &&& lanes) ||| ((odd &&& lanes) <<< 8)

/-- The clamp of a coordinate half a pixel away from its texel. -/
def clampRaw (raw : ℤ) (limit : ℕ) : ℕ := min raw.toNat limit

/-- One pixel of a row wider than a texel: all four taps are read, the right pair with no
weight. -/
def bilinearTaps (t : Texture) (count : ℕ) (out : Word) (topAddress bottomAddress : ℕ)
    (blend : Bool) (yWeight : Word) (u : ℕ) : Routine Word := do
  let raw : ℤ := u - 32768
  let x0 := clampRaw raw t.maxX.toNat
  let x1 := clampRaw (raw + 65536) t.maxX.toNat
  require (x0 = x1 || x0 % 65536 / 256 = 0)
  let addresses := [topAddress + x0 / 65536 * 4, bottomAddress + x0 / 65536 * 4,
    topAddress + x1 / 65536 * 4, bottomAddress + x1 / 65536 * 4]
  require (addresses.all fun address ↦ address + 4 ≤ 2 ^ 32 && !spanTouches out count address 4)
  let taps ← addresses.mapM fun address ↦ readU32 (ofNat 32 address)
  let top := taps.getD 0 0
  pure (if blend then hleBilinearBgra8Vertical top (taps.getD 1 0) yWeight else top)

def hleSampleBilinearBgra8RootPixels (root : Bool) (tex : Word) (unit : ℕ) (start delta : Word)
    (count : ℕ) (out : Word) : Routine (List Word) := do
  require root
  let t ← readTexture tex unit count out
  let walk ← readWalk fpu unit start delta
  require (fpu.eq32 walk.w fone && fpu.eq32 walk.dw fzero && 0 ≤ walk.u.toInt && 0 ≤ walk.v.toInt &&
    0 ≤ walk.du.toInt && walk.dv = 0 && walk.v.toNat ≤ 0x7fffffff - 32768)
  if count = 0 then pure []
  else do
    let lastU := walk.u.toNat + (count - 1) * walk.du.toNat
    require (lastU ≤ 0x7fffffff)
    let raw : ℤ := walk.v.toNat - 32768
    let y0Fixed := clampRaw raw t.maxY.toNat
    let y0 := y0Fixed / 65536
    let y1 := clampRaw (raw + 65536) t.maxY.toNat / 65536
    let yWeight := ofNat 32 (y0Fixed % 65536 / 256)
    let blend : Bool := y0 ≠ y1 ∧ yWeight ≠ 0
    let topAddress := t.base.toNat + t.pitch.toNat * y0
    let bottomAddress := t.base.toNat + t.pitch.toNat * y1
    if t.maxX = 0xffff then do
      require ([topAddress, bottomAddress].all fun address ↦
        address + 4 ≤ 2 ^ 32 && !spanTouches out count address 4)
      let top ← readU32 (ofNat 32 topAddress)
      let bottom ← readU32 (ofNat 32 bottomAddress)
      pure (List.replicate count
        (if blend then hleBilinearBgra8Vertical top bottom yWeight else top))
    else do
      require (0x00010000 ≤ t.maxX && walk.du = 65536 && lastU ≤ 0x7fffffff - 32768)
      (List.range count).mapM fun k ↦
        bilinearTaps t count out topAddress bottomAddress blend yWeight
          (walk.u.toNat + k * 65536)

/-- A span of pixels, or none where there is no pixel. -/
def pixelSpan (out : Word) (pixels : List Word) : List Span :=
  if pixels.isEmpty then [] else [⟨out, pixels.flatMap leOctets⟩]

/-- `hle_sw_sample_nearest_bgra8` and, with the alpha forced, `hle_sw_sample_nearest_bgrx8`. -/
def hleSwSampleNearest (forceOpaque : Bool) (r : Reg → Word) : Routine (List Span) := do
  let delta ← readU32At (r 13) 0x00
  let count ← readU32At (r 13) 0x0c
  let out ← readU32At (r 13) 0x10
  require (count.toNat ≤ swSpanMax && (count = 0 || out.toNat + count.toNat * 4 ≤ 2 ^ 32))
  require (r 1 ≤ 2)
  let pixels ← hleSampleNearest32Pixels fpu false (r 0) (r 1).toNat (r 3) delta count.toNat out
    forceOpaque
  pure (pixelSpan out pixels)

def swSampleNearestBgrx8 : Word := 0x3122b698
def swSampleNearestBgra8 : Word := 0x3122b8bc
def swSampleBilinearBgra8 : Word := 0x3122bad8
def swScanlineChunkMax : ℕ := 256

def ror8 (value : Word) : Word := (value >>> 8) ||| (value <<< 24)

def swBlendPremultipliedOver (dst src : Word) : Word :=
  let inv := 256 - (src >>> 24)
  let even := (dst &&& 0x00ff00ff) * inv
  let odd := (ror8 dst &&& 0x00ff00ff) * inv
  ((ror8 even &&& 0x00ff00ff) ||| (odd &&& 0xff00ff00)) + src

def swModulateTextureColor (texture color : Word) : Word :=
  let channel (shift : ℕ) : Word :=
    ((((texture >>> shift) &&& 0xff) + 1) * ((color >>> shift) &&& 0xff)) >>> 8
  channel 0 ||| (channel 8 <<< 8) ||| (channel 16 <<< 16) ||| (channel 24 <<< 24)

/-- What `sw_scanline` is called with and reads of its context before it looks at the texture. -/
structure ScanTarget where
  count : ℕ
  mask : Word
  ctx : Word
  delta : Word
  state : Word
  out : Word
  aux : Word
  units : Word
  flags : Octet
  sentinel : Word

/-- The common part of `hle_sw_scanline_known_paths`: the destination and the context. -/
def readScanTarget (r : Reg → Word) : Routine ScanTarget := do
  let sp := r 13
  let count := (r 2).toNat
  let delta ← readU32At sp 0x00
  let _ ← readU32At sp 0x04
  let _ ← readU32At sp 0x08
  let mask ← readU32At sp 0x0c
  let ctx ← readU32At sp 0x10
  let render ← readU32At ctx 0x00
  let state ← readU32At render 0x04
  let outBase ← readU32At render 0xfc
  let aux ← readU32At render 0x100
  require (outBase ≠ 0)
  let pitch ← readU32At render 0x104
  let bytesPerPixel ← readU32At render 0x10c
  let xOrigin ← readU32At render 0x110
  let width ← readU32At render 0x114
  let yOrigin ← readU32At render 0x118
  let height ← readU32At render 0x11c
  require (xOrigin ≤ r 0 && yOrigin ≤ r 1 && (r 1 - yOrigin) < height &&
    (r 0 - xOrigin).toNat + count ≤ width.toNat)
  let out := outBase.toNat + pitch.toNat * (r 1 - yOrigin).toNat +
    bytesPerPixel.toNat * (r 0 - xOrigin).toNat
  require (out < 2 ^ 32)
  if aux ≠ 0 then do
    let auxPitch ← readU32At render 0x108
    require (aux.toNat + auxPitch.toNat * (r 1 - yOrigin).toNat + (r 0 - xOrigin).toNat < 2 ^ 32)
  let units ← readU32At ctx 0x68
  let flags ← readU8At state 0x3c
  let sentinel ← readU32At ctx 0x64
  require (bytesPerPixel = 4 && (count = 0 || out + count * 4 ≤ 2 ^ 32))
  pure ⟨count, mask, ctx, delta, state, ofNat 32 out, aux, units, flags, sentinel⟩

/-- The destination pixels a blend starts from. -/
def readDestination (t : ScanTarget) : Routine (List Word) :=
  if t.count = 0 then pure []
  else do
    let data ← readBytes t.out (t.count * 4)
    pure (wordsOf data t.count)

/-- The arms with no texture: a constant colour, stored or blended. -/
def scanSolid (t : ScanTarget) : Routine (List Word) := do
  require (t.mask = 0x0008)
  if t.flags = 0x02 then do
    require (t.count ≤ swSpanMax)
    pure (List.replicate t.count t.sentinel)
  else do
    require (t.flags = 0x12 && t.aux = 0 && t.count ≤ swSpanMax)
    let destination ← readDestination t
    pure (destination.map fun dst ↦ swBlendPremultipliedOver dst t.sentinel)

/-- The nearest samplers by their address. -/
def nearestOpaque (sampler : Word) : Option Bool :=
  if sampler = swSampleNearestBgra8 then some false
  else if sampler = swSampleNearestBgrx8 then some true
  else none

/-- The arm that samples into the destination. -/
def scanDirect (root : Bool) (start : Word) (t : ScanTarget) (sampler : Word) :
    Routine (List Word) := do
  require (t.count ≤ swSpanMax && t.sentinel = 0xffffffff)
  let forceOpaque ← OptionT.mk (pure (nearestOpaque sampler))
  require (t.ctx.toNat + 4 < 2 ^ 32)
  hleSampleNearest32Pixels fpu root (t.ctx + 4) 0 start t.delta t.count t.out forceOpaque

/-- The arms that sample into a temporary and blend it over the destination. -/
def scanBlend (root : Bool) (start : Word) (t : ScanTarget) (sampler : Word) :
    Routine (List Word) := do
  require (t.count ≤ swScanlineChunkMax && t.flags = 0x12 && t.aux = 0)
  let mode ← readU8At t.state 0x08
  require (t.ctx.toNat + 4 < 2 ^ 32)
  let bilinear : Bool := sampler = swSampleBilinearBgra8
  let admitted : Bool :=
    if mode = 1 then
      t.sentinel = 0xffffffff ∧ (sampler = swSampleNearestBgra8 ∨ (bilinear ∧ root))
    else if mode = 2 then (nearestOpaque sampler).isSome
    else false
  require admitted
  let sampled ←
    if bilinear then
      hleSampleBilinearBgra8RootPixels fpu root (t.ctx + 4) 0 start t.delta t.count t.out
    else
      hleSampleNearest32Pixels fpu root (t.ctx + 4) 0 start t.delta t.count t.out
        (sampler = swSampleNearestBgrx8)
  let destination ← readDestination t
  pure (List.zipWith (fun dst src ↦ swBlendPremultipliedOver dst
    (if mode = 2 then swModulateTextureColor src t.sentinel else src)) destination sampled)

def hleSwScanlineKnownPaths (root : Bool) (r : Reg → Word) : Routine (List Span) := do
  let t ← readScanTarget r
  let pixels ←
    if t.units = 0 then scanSolid t
    else do
      require (t.units = 1 && t.mask = 0x0308)
      let minSampler ← readU32At t.ctx 0x14
      let magSampler ← readU32At t.ctx 0x18
      require (minSampler = magSampler)
      if t.flags &&& 0x10 = 0 then scanDirect fpu root (r 3) t minSampler
      else scanBlend fpu root (r 3) t minSampler
  pure (pixelSpan t.out pixels)

end S5LBox.Hle
