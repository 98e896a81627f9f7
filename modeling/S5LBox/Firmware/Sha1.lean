import S5LBox.Library.BlockStream
import S5LBox.Library.Span
import S5LBox.Word

/-!
# SHA-1 and its keyed use

The digest of a message as the standard defines it, and the code that computes it from pieces: a
context with a block buffer, refusals, and the padding that may need a block of its own.
-/

namespace S5LBox.Firmware

open BlockStream

/-- The five words of the state. -/
structure Sha1State where
  a : Word
  b : Word
  c : Word
  d : Word
  e : Word

def sha1Initial : Sha1State :=
  ⟨0x67452301, 0xefcdab89, 0x98badcfe, 0x10325476, 0xc3d2e1f0⟩

/-- Word `t` of the schedule of a block. -/
def schedule (block : List Octet) (t : ℕ) : Word :=
  if t < 16 then getBe32 block (4 * t)
  else (schedule block (t - 3) ^^^ schedule block (t - 8) ^^^ schedule block (t - 14) ^^^
    schedule block (t - 16)).rotateLeft 1

/-- The logical function of round `t`. -/
def roundFunction (t : ℕ) (b c d : Word) : Word :=
  if t < 20 then (b &&& c) ||| (~~~b &&& d)
  else if t < 40 then b ^^^ c ^^^ d
  else if t < 60 then (b &&& c) ||| (b &&& d) ||| (c &&& d)
  else b ^^^ c ^^^ d

def roundConstant (t : ℕ) : Word :=
  if t < 20 then 0x5a827999
  else if t < 40 then 0x6ed9eba1
  else if t < 60 then 0x8f1bbcdc
  else 0xca62c1d6

def sha1Round (word : ℕ → Word) (s : Sha1State) (t : ℕ) : Sha1State where
  a := s.a.rotateLeft 5 + roundFunction t s.b s.c s.d + s.e + roundConstant t + word t
  b := s.a
  c := s.b.rotateLeft 30
  d := s.c
  e := s.d

def Sha1State.add (s t : Sha1State) : Sha1State :=
  ⟨s.a + t.a, s.b + t.b, s.c + t.c, s.d + t.d, s.e + t.e⟩

def compress (s : Sha1State) (block : List Octet) : Sha1State :=
  s.add ((List.range 80).foldl (sha1Round (schedule block)) s)

/-- The length of the message in bits, in eight octets. -/
def lengthOctets (bits : ℕ) : List Octet :=
  (List.range 8).map fun i ↦ BitVec.ofNat 8 (bits >>> (56 - 8 * i))

/-- The number of zeros that make room for the length at the end of a block. -/
def padZeros (length : ℕ) : ℕ := (119 - length % 64) % 64

def padding (message : List Octet) : List Octet :=
  0x80 :: List.replicate (padZeros message.length) 0 ++ lengthOctets (8 * message.length)

def Sha1State.octets (s : Sha1State) : List Octet :=
  putBe32 s.a ++ putBe32 s.b ++ putBe32 s.c ++ putBe32 s.d ++ putBe32 s.e

/-- The digest of a message. -/
def sha1 (message : List Octet) : List Octet :=
  (absorb compress 64 sha1Initial (message ++ padding message)).octets

/-- A key of the size of a block. -/
def blockKey (key : List Octet) : List Octet :=
  let key := if 64 < key.length then sha1 key else key
  key ++ List.replicate (64 - key.length) 0

/-- The keyed digest over a hash function with blocks of 64 octets. -/
def hmacSha1 (key message : List Octet) : List Octet :=
  let pad (c : Octet) := (blockKey key).map (· ^^^ c)
  sha1 (pad 0x5c ++ sha1 (pad 0x36 ++ message))

def sha1MaxInputBytes : ℕ := (2 ^ 64 - 1) / 8

def sha1BlockSize : ℕ := 64

def sha1DigestSize : ℕ := 20

def rotateLeft (value : Word) (count : ℕ) : Word := (value <<< count) ||| (value >>> (32 - count))

/-- The words of `transform`, the first sixteen loaded and the others made from earlier ones. -/
def transformWords (block : List Octet) : List Word :=
  (List.range' 16 64).foldl (fun words index ↦ words ++
      [rotateLeft (words.getD (index - 3) 0 ^^^ words.getD (index - 8) 0 ^^^
        words.getD (index - 14) 0 ^^^ words.getD (index - 16) 0) 1])
    ((List.range 16).map fun index ↦ getBe32 block (index * 4))

/-- A turn of the second loop of `transform`. -/
def transformRound (words : List Word) (s : Sha1State) (index : ℕ) : Sha1State :=
  let mixed : Word × Word :=
    if index < 20 then ((s.b &&& s.c) ||| (~~~s.b &&& s.d), 0x5a827999)
    else if index < 40 then (s.b ^^^ s.c ^^^ s.d, 0x6ed9eba1)
    else if index < 60 then ((s.b &&& s.c) ||| (s.b &&& s.d) ||| (s.c &&& s.d), 0x8f1bbcdc)
    else (s.b ^^^ s.c ^^^ s.d, 0xca62c1d6)
  let temp := rotateLeft s.a 5 + mixed.1 + s.e + mixed.2 + words.getD index 0
  ⟨temp, s.a, rotateLeft s.b 30, s.c, s.d⟩

def transform (s : Sha1State) (block : List Octet) : Sha1State :=
  let t := (List.range 80).foldl (transformRound (transformWords block)) s
  ⟨s.a + t.a, s.b + t.b, s.c + t.c, s.d + t.d, s.e + t.e⟩

/-- `vmfw_sha1_ctx_t`. -/
structure Sha1Ctx where
  state : Sha1State
  totalBytes : ℕ
  block : ℕ → Octet
  blockUsed : ℕ
  finalized : Bool

def sha1Init : Sha1Ctx := ⟨sha1Initial, 0, fun _ ↦ 0, 0, false⟩

/-- A pointer with a length: to that many octets, or to nothing. -/
inductive Input where
  | null (length : ℕ)
  | octets (data : List Octet)

/-- A length without data. -/
def Input.bad : Input → Bool
  | .null length => length ≠ 0
  | .octets _ => false

def Input.data : Input → List Octet
  | .null _ => []
  | .octets data => data

def Input.length : Input → ℕ
  | .null length => length
  | .octets data => data.length

/-- The whole blocks of `vmfw_sha1_update`, straight out of the caller's buffer. -/
def updateBlocks (s : Sha1State) (bytes : List Octet) : Sha1State × List Octet :=
  if sha1BlockSize ≤ bytes.length then
    updateBlocks (transform s (bytes.take sha1BlockSize)) (bytes.drop sha1BlockSize)
  else (s, bytes)
termination_by bytes.length
decreasing_by
  rw [List.length_drop]
  unfold sha1BlockSize at *
  omega

/-- The head of `vmfw_sha1_update`: what fills the block that was begun, and what is left. -/
def updateHead (ctx : Sha1Ctx) (bytes : List Octet) : Sha1Ctx × List Octet :=
  if ctx.blockUsed ≠ 0 then
    let take := min bytes.length (sha1BlockSize - ctx.blockUsed)
    let block := Span.overwrite ctx.block ctx.blockUsed (bytes.take take)
    if ctx.blockUsed + take = sha1BlockSize then
      ({ ctx with
        block := block
        state := transform ctx.state (Span.window block 0 sha1BlockSize)
        blockUsed := 0 }, bytes.drop take)
    else ({ ctx with block := block, blockUsed := ctx.blockUsed + take }, bytes.drop take)
  else (ctx, bytes)

def sha1Update (ctx : Sha1Ctx) (input : Input) : Bool × Sha1Ctx :=
  if input.bad || ctx.finalized || sha1BlockSize ≤ ctx.blockUsed ||
      sha1MaxInputBytes < ctx.totalBytes then (false, ctx)
  else if sha1MaxInputBytes - ctx.totalBytes < input.length then (false, ctx)
  else if input.length = 0 then (true, ctx)
  else
    let (ctx, bytes) :=
      updateHead { ctx with totalBytes := ctx.totalBytes + input.length } input.data
    let (state, bytes) := updateBlocks ctx.state bytes
    let ctx := { ctx with state := state }
    if bytes ≠ [] then
      (true, { ctx with block := Span.overwrite ctx.block 0 bytes, blockUsed := bytes.length })
    else (true, ctx)

/-- The last block of `vmfw_sha1_final`, behind the octet that ends the message; where the length
does not fit any more, the block is put through and the length goes into one of its own. -/
def finalBlock (ctx : Sha1Ctx) : Sha1Ctx :=
  let ctx := { ctx with
    block := Span.overwrite ctx.block ctx.blockUsed [0x80], blockUsed := ctx.blockUsed + 1 }
  if 56 < ctx.blockUsed then
    let block := Span.overwrite ctx.block ctx.blockUsed
      (List.replicate (sha1BlockSize - ctx.blockUsed) 0)
    { ctx with
      block := block
      state := transform ctx.state (Span.window block 0 sha1BlockSize)
      blockUsed := 0 }
  else ctx

def sha1Final (ctx : Sha1Ctx) : Option (List Octet) × Sha1Ctx :=
  if ctx.finalized || sha1BlockSize ≤ ctx.blockUsed || sha1MaxInputBytes < ctx.totalBytes then
    (none, ctx)
  else
    let totalBits := ctx.totalBytes * 8 % 2 ^ 64
    let ctx := finalBlock ctx
    let block := Span.overwrite (Span.overwrite ctx.block ctx.blockUsed
      (List.replicate (56 - ctx.blockUsed) 0)) 56 (lengthOctets totalBits)
    let state := transform ctx.state (Span.window block 0 sha1BlockSize)
    (some state.octets, { ctx with
      state := state
      block := fun _ ↦ 0
      blockUsed := 0
      finalized := true })

def vmfwSha1 (input : Input) : Option (List Octet) :=
  if input.bad then none
  else
    let (ok, ctx) := sha1Update sha1Init input
    if ok then (sha1Final ctx).1 else none

/-- The digest of two inputs, one behind the other. -/
def sha1Pair (first second : Input) : Option (List Octet) :=
  let (ok, ctx) := sha1Update sha1Init first
  if ok then
    let (ok, ctx) := sha1Update ctx second
    if ok then (sha1Final ctx).1 else none
  else none

/-- `vmfw_hmac_sha1`, with what the output holds: it is left alone where the arguments or the key
are refused, and zeros where a pass fails. -/
def vmfwHmacSha1 (key message : Input) (out : List Octet) : Bool × List Octet :=
  if key.bad || message.bad then (false, out)
  else
    let hashed := if sha1BlockSize < key.length then vmfwSha1 key else some key.data
    match hashed with
    | none => (false, out)
    | some short =>
      let blockKey := short ++ List.replicate (sha1BlockSize - short.length) 0
      match sha1Pair (.octets (blockKey.map (· ^^^ 0x36))) message with
      | none => (false, List.replicate sha1DigestSize 0)
      | some inner =>
        match sha1Pair (.octets (blockKey.map (· ^^^ 0x5c))) (.octets inner) with
        | none => (false, List.replicate sha1DigestSize 0)
        | some digest => (true, digest)

end S5LBox.Firmware
