import Mathlib.Tactic

/-!
# Machine words and octet strings

The C sources compute on fixed-width unsigned integers; they are bit vectors here. An octet
string is a list. The big-endian and little-endian accessors are those shared by the PPP
peer, the NAT and the snapshot reader.
-/

namespace S5LBox

abbrev Octet := BitVec 8
abbrev Half := BitVec 16
abbrev Word := BitVec 32
abbrev DWord := BitVec 64

instance : LawfulBEq Octet := inferInstance

instance : LawfulBEq Word := inferInstance

/-- Octet `at` of a string; the callers bound the index, so the default is never read. -/
def octetAt (data : List Octet) (index : ℕ) : Octet := data.getD index 0

def getBe16 (data : List Octet) (index : ℕ) : Half :=
  octetAt data index ++ octetAt data (index + 1)

def getBe32 (data : List Octet) (index : ℕ) : Word :=
  getBe16 data index ++ getBe16 data (index + 2)

def getBe64 (data : List Octet) (index : ℕ) : DWord :=
  getBe32 data index ++ getBe32 data (index + 4)

def putBe16 (value : Half) : List Octet :=
  [value.extractLsb' 8 8, value.extractLsb' 0 8]

def putBe32 (value : Word) : List Octet :=
  putBe16 (value.extractLsb' 16 16) ++ putBe16 (value.extractLsb' 0 16)

/-- A C string of ASCII characters. -/
def ascii (text : String) : List Octet := text.toList.map fun c ↦ BitVec.ofNat 8 c.toNat

end S5LBox
