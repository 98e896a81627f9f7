import S5LBox.Library.Attempt
import S5LBox.Library.Buffer
import S5LBox.Word

/-!
# The inflater

DEFLATE and zlib expansion between a source that is pulled and a sink that is pushed. The window
is history and staging buffer in one, so its cells are tracked: reading one that this stream has
not written, or any access past the end of an array, is the outcome `undefined`. The two loops
without a bound of their own run on fuel.
-/

namespace S5LBox.Firmware

open Attempt

/-- The two callbacks of a decoder; what they share is one state. A source that fails is `none`. -/
structure Endpoints (ω : Type) where
  source : ω → ℕ → ω × Option (List Octet)
  sink : ω → List Octet → ω × Bool

inductive InflateError
  | truncated | read | badBlock | badStored | badHuffman | badSymbol | badDistance | sizeMismatch
  | sink | badZlibHeader
deriving DecidableEq, Repr

/-- Why the decoder stops early. The last two are no statuses of the source: the theorems show that
they do not come about. -/
inductive Stop
  | error (e : InflateError)
  | undefined
  | outOfFuel
deriving DecidableEq, Repr

def windowSize : ℕ := 32768
def inBuf : ℕ := 4096
def maxBits : ℕ := 15
def maxLit : ℕ := 288
def maxDist : ℕ := 32
def maxClen : ℕ := 19

/-- No expectation about the size of the output. -/
def noExpectation : DWord := BitVec.allOnes 64

/-- A canonical code: how many code words there are of each length, and the symbols in order of
their code words. -/
structure Huff where
  count : ℕ → ℕ
  symbol : Buffer ℕ maxLit
  coded : ℕ

/-- The decoder; `input` is the unread part of its input buffer. `output` is no part of the source:
it records every octet that was emitted. -/
structure Inflater (ω : Type) where
  world : ω
  limit : ℕ
  produced : ℕ
  adlerA : Word
  adlerB : Word
  bitbuf : Word
  bitcnt : ℕ
  input : List Octet
  inEof : Bool
  wpos : ℕ
  window : Buffer Octet windowSize
  lengths : Buffer ℕ (maxLit + maxDist)
  lencode : Huff
  distcode : Huff
  clcode : Huff
  output : List Octet

abbrev Inflating (ω α : Type) := Attempt Stop (Inflater ω) α

def lenBase : List ℕ :=
  [3, 4, 5, 6, 7, 8, 9, 10, 11, 13, 15, 17, 19, 23, 27, 31, 35, 43, 51, 59, 67, 83, 99, 115, 131,
    163, 195, 227, 258]

def lenExtra : List ℕ :=
  [0, 0, 0, 0, 0, 0, 0, 0, 1, 1, 1, 1, 2, 2, 2, 2, 3, 3, 3, 3, 4, 4, 4, 4, 5, 5, 5, 5, 0]

def distBase : List ℕ :=
  [1, 2, 3, 4, 5, 7, 9, 13, 17, 25, 33, 49, 65, 97, 129, 193, 257, 385, 513, 769, 1025, 1537, 2049,
    3073, 4097, 6145, 8193, 12289, 16385, 24577]

def distExtra : List ℕ :=
  [0, 0, 0, 0, 1, 1, 2, 2, 3, 3, 4, 4, 5, 5, 6, 6, 7, 7, 8, 8, 9, 9, 10, 10, 11, 11, 12, 12, 13, 13]

/-- The order in which the lengths of the code-length code appear. -/
def clenOrder : List ℕ := [16, 17, 18, 0, 8, 7, 9, 6, 10, 5, 11, 4, 12, 3, 13, 2, 14, 1, 15]

def adlerStep (sums : Word × Word) (octet : Octet) : Word × Word :=
  let a := sums.1 + octet.setWidth 32
  (a, sums.2 + a)

/-- The sums are reduced once every 5552 octets. -/
def adlerUpdate : ℕ → Word × Word → List Octet → Word × Word
  | 0, sums, _ => sums
  | turns + 1, sums, data =>
    if data = [] then sums
    else
      let sums := (data.take 5552).foldl adlerStep sums
      adlerUpdate turns (sums.1 % 65521, sums.2 % 65521) (data.drop 5552)

section

variable {ω : Type} (ep : Endpoints ω)

/-- Hand the window to the sink, up to the write position, and start it again. -/
def windowFlush : Inflating ω Unit := fun st ↦
  if st.wpos = 0 then (.ok (), st)
  else
    match st.window.slice 0 st.wpos with
    | none => (.error .undefined, st)
    | some data =>
      let sums := adlerUpdate data.length (st.adlerA, st.adlerB) data
      let st := { st with adlerA := sums.1, adlerB := sums.2 }
      match ep.sink st.world data with
      | (world, false) => (.error (.error .sink), { st with world })
      | (world, true) => (.ok (), { st with world, wpos := 0 })

/-- What writing octets to the window does to the counters. -/
def Inflater.emitted (st : Inflater ω) (window : Buffer Octet windowSize) (data : List Octet) :
    Inflater ω :=
  { st with
    window
    wpos := st.wpos + data.length
    produced := st.produced + data.length
    output := st.output ++ data }

def flushWhenFull : Inflating ω Unit := do
  let st ← get
  if st.wpos = windowSize then windowFlush ep else pure ()

def emitByte (octet : Octet) : Inflating ω Unit := do
  let st ← get
  require (st.produced < st.limit) (.error .sizeMismatch)
  let window ← expect (st.window.write st.wpos octet) .undefined
  modify fun st ↦ st.emitted window [octet]
  flushWhenFull ep

/-- Emit octets in pieces that fit the window and the limit. -/
def emitRun : ℕ → List Octet → Inflating ω Unit
  | 0, data => require (data = []) .outOfFuel
  | turns + 1, data =>
    if data = [] then pure ()
    else do
      let st ← get
      require (st.produced < st.limit) (.error .sizeMismatch)
      let chunk := min (min (windowSize - st.wpos) data.length) (st.limit - st.produced)
      let window ← expect (st.window.writeAll st.wpos (data.take chunk)) .undefined
      modify fun st ↦ st.emitted window (data.take chunk)
      flushWhenFull ep
      emitRun turns (data.drop chunk)

/-- Copy within the window, an octet at a time, since a copy may overlap what it writes. -/
def copyLoop : ℕ → ℕ → Inflating ω Unit
  | 0, _ => pure ()
  | length + 1, start => do
    let st ← get
    let octet ← expect (st.window.read start) .undefined
    emitByte ep octet
    copyLoop length ((start + 1) % windowSize)

/-- Where a copy from `distance` octets back starts. -/
def matchStart (wpos distance : ℕ) : ℕ :=
  ((BitVec.ofNat 32 wpos - BitVec.ofNat 32 distance) &&& 0x7fff).toNat

def emitMatch (length distance : ℕ) : Inflating ω Unit := do
  let st ← get
  require (distance ≤ st.produced) (.error .badDistance)
  copyLoop ep length (matchStart st.wpos distance)

def nextByte : Inflating ω Octet := fun st ↦
  match st.input with
  | octet :: rest => (.ok octet, { st with input := rest })
  | [] =>
    if st.inEof then (.error (.error .truncated), st)
    else
      match ep.source st.world inBuf with
      | (world, none) => (.error (.error .read), { st with world })
      | (world, some data) =>
        if inBuf < data.length then (.error (.error .read), { st with world })
        else
          match data with
          | [] => (.error (.error .truncated), { st with world, inEof := true })
          | octet :: rest => (.ok octet, { st with world, input := rest })

/-- Put an octet behind the bits of the buffer. -/
def Inflater.pushByte (st : Inflater ω) (octet : Octet) : Inflater ω :=
  { st with
    bitbuf := st.bitbuf ||| octet.setWidth 32 <<< st.bitcnt
    bitcnt := st.bitcnt + 8 }

/-- At most `n` turns are needed, since each adds bits. -/
def needBitsLoop (n : ℕ) : ℕ → Inflating ω Unit
  | 0 => pure ()
  | turns + 1 => do
    let st ← get
    if n ≤ st.bitcnt then pure ()
    else
      let octet ← nextByte ep
      modify fun st ↦ st.pushByte octet
      needBitsLoop n turns

def needBits (n : ℕ) : Inflating ω Unit := needBitsLoop ep n n

def takeBits (n : ℕ) : Inflating ω Word := fun st ↦
  (.ok (st.bitbuf &&& ((1 : Word) <<< n - 1)),
    { st with bitbuf := st.bitbuf >>> n, bitcnt := st.bitcnt - n })

def getBits (n : ℕ) : Inflating ω Word := do
  needBits ep n
  takeBits n

def alignToByte : Inflating ω Unit := do
  let st ← get
  let _ ← takeBits (st.bitcnt % 8)

def alignedByte : Inflating ω Octet := do
  let st ← get
  if 8 ≤ st.bitcnt then
    let bits ← takeBits 8
    pure (bits.setWidth 8)
  else nextByte ep

end

/-- How much of the code space the lengths from `len` on leave unclaimed, given what those before
leave; `none` when they claim too much. -/
def kraftLoop (count : ℕ → ℕ) : ℕ → ℕ → ℕ → Option ℕ
  | 0, _, left => some left
  | turns + 1, len, left =>
    if 2 * left < count len then none else kraftLoop count turns (len + 1) (2 * left - count len)

/-- The place of the first symbol with a code word of length `len`. -/
def offs (count : ℕ → ℕ) : ℕ → ℕ
  | 0 => 0
  | len + 1 => offs count len + if len = 0 then 0 else count len

/-- Sort symbols by the length of their code word. -/
def placeSymbols : List ℕ → ℕ → (ℕ → ℕ) → Buffer ℕ maxLit → Option (Buffer ℕ maxLit)
  | [], _, _, symbol => some symbol
  | len :: rest, s, place, symbol =>
    if len = 0 then placeSymbols rest (s + 1) place symbol
    else
      (symbol.write (place len) s).bind
        (placeSymbols rest (s + 1) (Function.update place len (place len + 1)))

/-- Build the canonical code with these lengths, over the symbol table `symbol`. -/
def huffBuild (symbol : Buffer ℕ maxLit) (lengths : List ℕ) (allowIncomplete : Bool) :
    Except Stop Huff :=
  if lengths.any (maxBits < ·) then .error (.error .badHuffman)
  else
    let count := fun len ↦ lengths.count len
    match kraftLoop count maxBits 1 1 with
    | none => .error (.error .badHuffman)
    | some left =>
      if 0 < left ∧ !(allowIncomplete && lengths.all (· ≤ 1)) then .error (.error .badHuffman)
      else
        match placeSymbols lengths 0 (offs count) symbol with
        | none => .error .undefined
        | some symbol => .ok { count, symbol, coded := lengths.length - count 0 }

section

variable {ω : Type} (ep : Endpoints ω)

/-- The comparison of the source is one of unsigned numbers; `first` never exceeds `code`. -/
def decodeLoop (h : Huff) : ℕ → ℕ → ℕ → ℕ → ℕ → Inflating ω ℕ
  | 0, _, _, _, _ => refuse (.error .badHuffman)
  | turns + 1, len, code, first, index => do
    needBits ep 1
    let bit ← takeBits 1
    let code := code ||| bit.toNat
    let count := h.count len
    if first ≤ code ∧ code - first < count then
      expect (h.symbol.read (index + (code - first))) .undefined
    else decodeLoop h turns (len + 1) (code * 2) ((first + count) * 2) (index + count)

/-- Read one code word and return its symbol. -/
def huffDecode (h : Huff) : Inflating ω ℕ :=
  if h.coded = 0 then refuse (.error .badHuffman) else decodeLoop ep h maxBits 1 0 0 0

/-- The fixed lengths of the literal and length code. -/
def fixedLengths : List ℕ :=
  List.replicate 144 8 ++ List.replicate 112 9 ++ List.replicate 24 7 ++ List.replicate 8 8

/-- Write lengths into the table, from `start` on. -/
def setLengths (start : ℕ) (lengths : List ℕ) : Inflating ω Unit := do
  let st ← get
  let table ← expect (st.lengths.writeAll start lengths) .undefined
  modify fun st ↦ { st with lengths := table }

/-- Build a code from the table, over the symbols that `old` has. -/
def buildCode (old : Inflater ω → Huff) (start n : ℕ) (allowIncomplete : Bool) :
    Inflating ω Huff := do
  let st ← get
  let lengths ← expect (st.lengths.slice start n) .undefined
  match huffBuild (old st).symbol lengths allowIncomplete with
  | .error e => refuse e
  | .ok h => pure h

def buildLencode (n : ℕ) : Inflating ω Unit := do
  let h ← buildCode Inflater.lencode 0 n false
  modify fun st ↦ { st with lencode := h }

def buildDistcode (start n : ℕ) (allowIncomplete : Bool) : Inflating ω Unit := do
  let h ← buildCode Inflater.distcode start n allowIncomplete
  modify fun st ↦ { st with distcode := h }

def buildClcode : Inflating ω Unit := do
  let h ← buildCode Inflater.clcode 0 maxClen false
  modify fun st ↦ { st with clcode := h }

def buildFixed : Inflating ω Unit := do
  setLengths 0 fixedLengths
  buildLencode 288
  setLengths 0 (List.replicate 32 5)
  buildDistcode 0 32 false

/-- The lengths of the code-length code, for the symbols in the order they appear in. -/
def readClens : List ℕ → Inflating ω Unit
  | [] => pure ()
  | symbol :: rest => do
    let v ← getBits ep 3
    setLengths symbol [v.toNat]
    readClens rest

/-- The octet that a repeat code stands for, and how many of it. -/
def readRepeat (i sym : ℕ) : Inflating ω (ℕ × ℕ) :=
  if sym = 16 then do
    require (i ≠ 0) (.error .badHuffman)
    let st ← get
    let value ← expect (st.lengths.read (i - 1)) .undefined
    let v ← getBits ep 2
    pure (3 + v.toNat, value)
  else if sym = 17 then do
    let v ← getBits ep 3
    pure (3 + v.toNat, 0)
  else do
    let v ← getBits ep 7
    pure (11 + v.toNat, 0)

/-- Read lengths until there are `total` of them. -/
def readLengths (total : ℕ) : ℕ → ℕ → Inflating ω Unit
  | 0, i => require (total ≤ i) .outOfFuel
  | turns + 1, i =>
    if total ≤ i then pure ()
    else do
      let st ← get
      let sym ← huffDecode ep st.clcode
      if sym < 16 then
        setLengths i [sym]
        readLengths total turns (i + 1)
      else
        let run ← readRepeat ep i sym
        require (run.1 ≤ total - i) (.error .badHuffman)
        setLengths i (List.replicate run.1 run.2)
        readLengths total turns (i + run.1)

def readDynamic : Inflating ω Unit := do
  let hlit ← getBits ep 5
  let hdist ← getBits ep 5
  let hclen ← getBits ep 4
  let nlen := hlit.toNat + 257
  let ndist := hdist.toNat + 1
  require (nlen ≤ 286 ∧ ndist ≤ 30) (.error .badSymbol)
  setLengths 0 (List.replicate maxClen 0)
  readClens ep (clenOrder.take (hclen.toNat + 4))
  buildClcode
  readLengths ep (nlen + ndist) (nlen + ndist) 0
  buildLencode nlen
  buildDistcode nlen ndist true

/-- The octets of a stored block that are in the bit buffer; the result is how many remain. -/
def storedBits : ℕ → Inflating ω ℕ
  | 0 => pure 0
  | remaining + 1 => do
    let st ← get
    if 8 ≤ st.bitcnt then
      let bits ← takeBits 8
      emitByte ep (bits.setWidth 8)
      storedBits remaining
    else pure (remaining + 1)

/-- The octets of a stored block that are in the input. -/
def storedBytes : ℕ → ℕ → Inflating ω Unit
  | 0, remaining => require (remaining = 0) .outOfFuel
  | turns + 1, remaining =>
    if remaining = 0 then pure ()
    else do
      let st ← get
      if st.input = [] then
        let octet ← nextByte ep
        emitByte ep octet
        storedBytes turns (remaining - 1)
      else
        let data := st.input.take remaining
        emitRun ep data.length data
        modify fun st ↦ { st with input := st.input.drop data.length }
        storedBytes turns (remaining - data.length)

def storedBlock : Inflating ω Unit := do
  alignToByte
  let len ← getBits ep 16
  let nlen ← getBits ep 16
  require (len = ~~~nlen &&& 0xffff) (.error .badStored)
  let remaining ← storedBits ep len.toNat
  storedBytes ep remaining remaining

/-- A length or a distance: its base and the extra bits that follow. -/
def readExtra (base extra : List ℕ) (sym : ℕ) : Inflating ω ℕ := do
  let v ← getBits ep (extra.getD sym 0)
  pure (base.getD sym 0 + v.toNat)

def codedBlock : ℕ → Inflating ω Unit
  | 0 => refuse .outOfFuel
  | fuel + 1 => do
    let st ← get
    let sym ← huffDecode ep st.lencode
    if sym < 256 then
      emitByte ep (BitVec.ofNat 8 sym)
      codedBlock fuel
    else if sym = 256 then pure ()
    else
      require (sym - 257 < 29) (.error .badSymbol)
      let length ← readExtra ep lenBase lenExtra (sym - 257)
      let st ← get
      let dsym ← huffDecode ep st.distcode
      require (dsym < 30) (.error .badSymbol)
      let distance ← readExtra ep distBase distExtra dsym
      emitMatch ep length distance
      codedBlock fuel

def inflateBlock (fuel kind : ℕ) : Inflating ω Unit :=
  match kind with
  | 0 => storedBlock ep
  | 1 => do
    buildFixed
    codedBlock ep fuel
  | 2 => do
    readDynamic ep
    codedBlock ep fuel
  | _ => refuse (.error .badBlock)

def inflateBlocks : ℕ → Inflating ω Unit
  | 0 => refuse .outOfFuel
  | fuel + 1 => do
    let final ← getBits ep 1
    let kind ← getBits ep 2
    inflateBlock ep fuel kind.toNat
    if final ≠ 0 then pure () else inflateBlocks fuel

def zlibHeader : Inflating ω Unit := do
  let cmf ← nextByte ep
  let flg ← nextByte ep
  require (cmf &&& 0x0f = 8 ∧ cmf >>> 4 ≤ 7 ∧ flg >>> 5 &&& 1 = 0 ∧
    (cmf.toNat * 256 + flg.toNat) % 31 = 0) (.error .badZlibHeader)

/-- The checksum of the trailer, which is big-endian. -/
def readTrailer : ℕ → Word → Inflating ω Word
  | 0, want => pure want
  | turns + 1, want => do
    let octet ← alignedByte ep
    readTrailer turns (want <<< 8 ||| octet.setWidth 32)

def zlibTrailer : Inflating ω Unit := do
  alignToByte
  let want ← readTrailer ep 4 0
  let st ← get
  require (want = st.adlerB <<< 16 ||| st.adlerA) (.error .badZlibHeader)

/-- A step of the zlib wrapping. -/
def wrapped (zlibWrapped : Bool) (p : Inflating ω Unit) : Inflating ω Unit :=
  if zlibWrapped then p else pure ()

def inflateRun (fuel : ℕ) (zlibWrapped : Bool) : Inflating ω Unit := do
  wrapped zlibWrapped (zlibHeader ep)
  inflateBlocks ep fuel
  windowFlush ep
  wrapped zlibWrapped (zlibTrailer ep)
  let st ← get
  require (st.limit = noExpectation.toNat ∨ st.produced = st.limit) (.error .sizeMismatch)

end

def Huff.blank : Huff := { count := fun _ ↦ 0, symbol := .empty, coded := 0 }

def Inflater.start {ω : Type} (world : ω) (expectOut : DWord) : Inflater ω where
  world := world
  limit := expectOut.toNat
  produced := 0
  adlerA := 1
  adlerB := 0
  bitbuf := 0
  bitcnt := 0
  input := []
  inEof := false
  wpos := 0
  window := .empty
  lengths := .empty
  lencode := .blank
  distcode := .blank
  clcode := .blank
  output := []

variable {ω : Type} (ep : Endpoints ω) (fuel : ℕ) (world : ω) (expectOut : DWord)

def inflateEntry (zlibWrapped : Bool) : Except Stop Unit × Inflater ω :=
  inflateRun ep fuel zlibWrapped (.start world expectOut)

def vmfwInflate : Except Stop Unit × Inflater ω := inflateEntry ep fuel world expectOut false

def vmfwZlibInflate : Except Stop Unit × Inflater ω := inflateEntry ep fuel world expectOut true

end S5LBox.Firmware
