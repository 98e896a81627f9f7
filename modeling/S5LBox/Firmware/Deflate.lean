import S5LBox.Firmware.Huffman
import S5LBox.Firmware.InflateWindow
import S5LBox.Library.Bits

/-!
# The DEFLATE format

What a stream is made of and what it expands to, independently of how it is decoded: blocks of
literals and copies, and the bits that stand for them. Numbers are written with the low bit first
and code words with the high bit first; the padding before a stored block is arbitrary.
-/

namespace S5LBox.Firmware

open Bits Canonical

def octetBits (data : List Octet) : List Bool := data.flatMap fun octet ↦ lsb 8 octet.toNat

/-- A literal, or a copy given by its two symbols and their extra bits. -/
inductive Item
  | literal (octet : Octet)
  | copy (lengthSym lengthExtra distSym distBits : ℕ)

def copyLength (lengthSym lengthExtra : ℕ) : ℕ := lenBase.getD lengthSym 0 + lengthExtra

def copyDistance (distSym distBits : ℕ) : ℕ := distBase.getD distSym 0 + distBits

/-- The output after an item. -/
def Item.expand (output : List Octet) : Item → List Octet
  | literal octet => output ++ [octet]
  | copy lengthSym lengthExtra distSym distBits =>
    copied output (copyDistance distSym distBits) (copyLength lengthSym lengthExtra)

/-- The item makes sense after `output`, and the codes have code words for its symbols. -/
def Item.Valid (lit dist : List ℕ) (output : List Octet) : Item → Prop
  | literal octet => lit.getD octet.toNat 0 ≠ 0
  | copy lengthSym lengthExtra distSym distBits =>
    lengthSym < 29 ∧ lengthExtra < 2 ^ lenExtra.getD lengthSym 0 ∧
      distSym < 30 ∧ distBits < 2 ^ distExtra.getD distSym 0 ∧
      lit.getD (257 + lengthSym) 0 ≠ 0 ∧ dist.getD distSym 0 ≠ 0 ∧
      copyDistance distSym distBits ≤ output.length

def Item.bits (lit dist : List ℕ) : Item → List Bool
  | literal octet => word lit octet.toNat
  | copy lengthSym lengthExtra distSym distBits =>
    word lit (257 + lengthSym) ++ lsb (lenExtra.getD lengthSym 0) lengthExtra ++
      word dist distSym ++ lsb (distExtra.getD distSym 0) distBits

/-- Each item makes sense after the ones before it. -/
def ItemsValid (lit dist : List ℕ) : List Octet → List Item → Prop
  | _, [] => True
  | output, item :: rest => item.Valid lit dist output ∧ ItemsValid lit dist (item.expand output) rest

/-- The items of a block and its end. -/
def itemsBits (lit dist : List ℕ) (items : List Item) : List Bool :=
  items.flatMap (Item.bits lit dist) ++ word lit 256

/-- A complete code. -/
def CompleteCode (lengths : List ℕ) : Prop :=
  (∀ l ∈ lengths, l ≤ maxBits) ∧ Complete lengths maxBits

/-- A code of distances: complete, or none at all, or a single one-bit code. -/
def DistanceCode (lengths : List ℕ) : Prop :=
  CompleteCode lengths ∨ (∀ l ∈ lengths, l ≤ 1) ∧ lengths.count 1 ≤ 1

/-- How a list of code lengths is written: a length, or a repeat. -/
inductive Run
  | length (len : ℕ)
  | previous (count : ℕ)
  | zeros (count : ℕ)
  | manyZeros (count : ℕ)

def Run.symbol : Run → ℕ
  | length len => len
  | previous _ => 16
  | zeros _ => 17
  | manyZeros _ => 18

def Run.extra : Run → List Bool
  | length _ => []
  | previous count => lsb 2 (count - 3)
  | zeros count => lsb 3 (count - 3)
  | manyZeros count => lsb 7 (count - 11)

def Run.lengths (before : List ℕ) : Run → List ℕ
  | length len => [len]
  | previous count => List.replicate count (before.getD (before.length - 1) 0)
  | zeros count => List.replicate count 0
  | manyZeros count => List.replicate count 0

def Run.Valid (before : List ℕ) : Run → Prop
  | length len => len ≤ maxBits
  | previous count => before ≠ [] ∧ 3 ≤ count ∧ count ≤ 6
  | zeros count => 3 ≤ count ∧ count ≤ 10
  | manyZeros count => 11 ≤ count ∧ count ≤ 138

/-- The lengths that `runs` add to `before`. -/
def runLengths : List ℕ → List Run → List ℕ
  | before, [] => before
  | before, run :: rest => runLengths (before ++ run.lengths before) rest

def RunsValid (clens : List ℕ) : List ℕ → List Run → Prop
  | _, [] => True
  | before, run :: rest =>
    run.Valid before ∧ clens.getD run.symbol 0 ≠ 0 ∧
      RunsValid clens (before ++ run.lengths before) rest

/-- The header of a dynamic block: the lengths of its codes, and how they are written. -/
structure Header where
  lit : List ℕ
  dist : List ℕ
  clens : List ℕ
  hclen : ℕ
  runs : List Run

structure Header.Valid (h : Header) : Prop where
  lit_length : 257 ≤ h.lit.length ∧ h.lit.length ≤ 286
  dist_length : 1 ≤ h.dist.length ∧ h.dist.length ≤ 30
  lit_code : CompleteCode h.lit
  dist_code : DistanceCode h.dist
  clens_length : h.clens.length = maxClen
  clens_code : (∀ l ∈ h.clens, l < 8) ∧ CompleteCode h.clens
  hclen : 4 ≤ h.hclen ∧ h.hclen ≤ maxClen
  unwritten : ∀ symbol ∈ clenOrder.drop h.hclen, h.clens.getD symbol 0 = 0
  runs : RunsValid h.clens [] h.runs
  lengths : runLengths [] h.runs = h.lit ++ h.dist

def Header.bits (h : Header) : List Bool :=
  lsb 5 (h.lit.length - 257) ++ lsb 5 (h.dist.length - 1) ++ lsb 4 (h.hclen - 4) ++
    (clenOrder.take h.hclen).flatMap (fun symbol ↦ lsb 3 (h.clens.getD symbol 0)) ++
    h.runs.flatMap fun run ↦ word h.clens run.symbol ++ run.extra

inductive Block
  | stored (padding : List Bool) (data : List Octet)
  | fixed (items : List Item)
  | dynamic (header : Header) (items : List Item)

def fixedDist : List ℕ := List.replicate 32 5

def Block.expand (output : List Octet) : Block → List Octet
  | stored _ data => output ++ data
  | fixed items => items.foldl Item.expand output
  | dynamic _ items => items.foldl Item.expand output

/-- The bits of a block behind the one that says whether it is the last. -/
def Block.bits : Block → List Bool
  | stored padding data =>
    lsb 2 0 ++ padding ++ lsb 16 data.length ++ lsb 16 (65535 - data.length) ++ octetBits data
  | fixed items => lsb 2 1 ++ itemsBits fixedLengths fixedDist items
  | dynamic header items => lsb 2 2 ++ header.bits ++ itemsBits header.lit header.dist items

/-- The block makes sense after `pos` bits and after `output`; a stored one is padded to a whole
octet. -/
def Block.Valid (pos : ℕ) (output : List Octet) : Block → Prop
  | stored padding data =>
    data.length ≤ 65535 ∧ padding.length < 8 ∧ (pos + 3 + padding.length) % 8 = 0
  | fixed items => ItemsValid fixedLengths fixedDist output items
  | dynamic header items =>
    header.Valid ∧ header.lit.getD 256 0 ≠ 0 ∧ ItemsValid header.lit header.dist output items

/-- A stream: blocks of which just the last one is marked. -/
def streamBits : List Block → List Bool
  | [] => []
  | block :: rest => decide (rest = []) :: block.bits ++ streamBits rest

def StreamValid : ℕ → List Octet → List Block → Prop
  | _, _, [] => True
  | pos, output, block :: rest =>
    block.Valid pos output ∧ StreamValid (pos + 1 + block.bits.length) (block.expand output) rest

/-- What a stream expands to. -/
def expansion (blocks : List Block) : List Octet := blocks.foldl Block.expand []

/-- The two octets before a stream: the method, a window that is not too large, no dictionary, and
the check. -/
def ZlibHeader (cmf flg : Octet) : Prop :=
  cmf.toNat % 16 = 8 ∧ cmf.toNat / 16 ≤ 7 ∧ flg.toNat / 32 % 2 = 0 ∧
    (cmf.toNat * 256 + flg.toNat) % 31 = 0

/-- A number whose high octets come first. -/
def bigEndian (data : List Octet) : Word :=
  data.foldl (fun value octet ↦ value <<< 8 ||| octet.setWidth 32) 0

end S5LBox.Firmware
