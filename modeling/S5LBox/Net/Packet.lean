import Mathlib.Data.List.GetD
import S5LBox.Library.OnesComplement
import S5LBox.Word

/-!
# Checksums and headers

The two checksums of the NAT and the IPv4 header it puts in front of a payload. A checksum is
written into a field that is zero, at an even place, and the string it is written into then has a
checksum of zero.
-/

namespace S5LBox.Net

open List OnesComplement

def netMtu : ℕ := 1500
def ipv4HdrLen : ℕ := 20
def tcpHdrLen : ℕ := 20
def udpHdrLen : ℕ := 8
def icmpHdrLen : ℕ := 8

def protoIcmp : Octet := 1
def protoTcp : Octet := 6
def protoUdp : Octet := 17

/-- `net_wr16`: the octets at `index` and after it are those of `value`. -/
def writeBe16 (data : List Octet) (index : ℕ) (value : Half) : List Octet :=
  data.take index ++ putBe16 value ++ data.drop (index + 2)

/-- The sum is taken in 32 bits. -/
def netChecksum (data : List Octet) : Half :=
  BitVec.ofNat 16 (complement (wordSum data % 2 ^ 32))

def pseudoHeader (src dst : Word) (proto : Octet) (length : ℕ) : List Octet :=
  putBe32 src ++ putBe32 dst ++ [0, proto] ++ putBe16 (BitVec.ofNat 16 length)

def netL4Checksum (src dst : Word) (proto : Octet) (seg : List Octet) : Half :=
  BitVec.ofNat 16
    (complement ((wordSum (pseudoHeader src dst proto seg.length) + wordSum seg) % 2 ^ 32))

/-- The header before its checksum: five words, not fragmented and not to be, a TTL of 64. -/
def bareHeader (src dst : Word) (proto : Octet) (ident : Half) (payloadLen : ℕ) : List Octet :=
  [0x45, 0] ++ putBe16 (BitVec.ofNat 16 (ipv4HdrLen + payloadLen)) ++ putBe16 ident ++
    putBe16 0x4000 ++ [64, proto] ++ putBe16 0 ++ putBe32 src ++ putBe32 dst

/-- The header for a payload, or nothing when the datagram would not fit the link. -/
def netBuildIpv4 (cap : ℕ) (src dst : Word) (proto : Octet) (ident : Half) (payloadLen : ℕ) :
    Option (List Octet) :=
  if cap < ipv4HdrLen ∨ netMtu < payloadLen + ipv4HdrLen then none
  else
    let header := bareHeader src dst proto ident payloadLen
    some (writeBe16 header 10 (netChecksum header))

theorem getBe16_putBe16 (value : Half) (rest : List Octet) :
    getBe16 (putBe16 value ++ rest) 0 = value := by
  change value.extractLsb' 8 8 ++ value.extractLsb' 0 8 = value
  apply BitVec.eq_of_getLsbD_eq
  intro i hi
  rw [BitVec.getLsbD_append]
  by_cases hlow : i < 8
  · simp [hlow]
  · have hsame : 8 + (i - 8) = i := by omega
    have hhigh : i - 8 < 8 := by omega
    simp [hlow, hhigh, hsame]

theorem getBe32_putBe32 (value : Word) (rest : List Octet) :
    getBe32 (putBe32 value ++ rest) 0 = value := by
  have hhigh := getBe16_putBe16 (value.extractLsb' 16 16) (putBe16 (value.extractLsb' 0 16) ++ rest)
  have hlow := getBe16_putBe16 (value.extractLsb' 0 16) rest
  change getBe16 (putBe16 (value.extractLsb' 16 16) ++ (putBe16 (value.extractLsb' 0 16) ++ rest)) 0 ++
    getBe16 (putBe16 (value.extractLsb' 0 16) ++ rest) 0 = value
  rw [hhigh, hlow]
  apply BitVec.eq_of_getLsbD_eq
  intro i hi
  rw [BitVec.getLsbD_append]
  by_cases hbit : i < 16
  · simp [hbit]
  · have hsame : 16 + (i - 16) = i := by omega
    have hlt : i - 16 < 16 := by omega
    simp [hbit, hlt, hsame]

variable {index : ℕ} {data : List Octet}

theorem octetAt_append_right {first second : List Octet} (h : first.length ≤ index) :
    octetAt (first ++ second) index = octetAt second (index - first.length) := by
  unfold octetAt
  exact getD_append_right _ _ _ _ h

@[simp] theorem length_putBe16 (value : Half) : (putBe16 value).length = 2 := rfl

@[simp] theorem length_putBe32 (value : Word) : (putBe32 value).length = 4 := rfl

theorem length_writeBe16 (h : index + 2 ≤ data.length) (value : Half) :
    (writeBe16 data index value).length = data.length := by
  simp only [writeBe16, length_append, length_take, length_drop, length_putBe16]
  omega

theorem wordSum_putBe16 (value : Half) (rest : List Octet) :
    wordSum (putBe16 value ++ rest) = value.toNat + wordSum rest := by
  have hvalue := value.isLt
  change (value.extractLsb' 8 8).toNat * 256 + (value.extractLsb' 0 8).toNat + wordSum rest = _
  rw [BitVec.extractLsb'_toNat, BitVec.extractLsb'_toNat, Nat.shiftRight_zero,
    Nat.shiftRight_eq_div_pow]
  omega

theorem writeBe16_zero (hlen : index + 2 ≤ data.length) (hzero : octetAt data index = 0)
    (hnext : octetAt data (index + 1) = 0) : writeBe16 data index 0 = data := by
  have hfirst : data.drop index = 0 :: data.drop (index + 1) := by
    rw [drop_eq_getElem_cons (by omega)]
    congr 1
    rw [← hzero]
    exact (getD_eq_getElem data 0 (by omega)).symm
  have hsecond : data.drop (index + 1) = 0 :: data.drop (index + 2) := by
    rw [drop_eq_getElem_cons (by omega)]
    congr 1
    rw [← hnext]
    exact (getD_eq_getElem data 0 (by omega)).symm
  have hfield : putBe16 0 = [0, 0] := by decide
  calc writeBe16 data index 0
      = data.take index ++ ([0, 0] ++ data.drop (index + 2)) := by
        rw [writeBe16, hfield, append_assoc]
    _ = data.take index ++ data.drop index := by
        rw [hfirst, hsecond]
        rfl
    _ = data := take_append_drop index data

theorem wordSum_writeBe16 (heven : index % 2 = 0) (hlen : index + 2 ≤ data.length)
    (hzero : octetAt data index = 0) (hnext : octetAt data (index + 1) = 0) (value : Half) :
    wordSum (writeBe16 data index value) = wordSum data + value.toNat := by
  have hfront : (data.take index).length % 2 = 0 := by
    rw [length_take]
    omega
  have hsum (field : Half) : wordSum (writeBe16 data index field) =
      wordSum (data.take index) + (field.toNat + wordSum (data.drop (index + 2))) := by
    rw [writeBe16, append_assoc, wordSum_append hfront, wordSum_putBe16]
  calc wordSum (writeBe16 data index value)
      = wordSum (writeBe16 data index 0) + value.toNat := by
        have hnone : (0 : Half).toNat = 0 := rfl
        rw [hsum, hsum]
        omega
    _ = wordSum data + value.toNat := by rw [writeBe16_zero hlen hzero hnext]

theorem toNat_complement (sum : ℕ) : (BitVec.ofNat 16 (complement sum)).toNat = complement sum := by
  rw [BitVec.toNat_ofNat]
  apply Nat.mod_eq_of_lt
  have hle : complement sum ≤ 65535 := Nat.sub_le ..
  omega

theorem netChecksum_writeBe16 (hshort : data.length ≤ 65535) (heven : index % 2 = 0)
    (hlen : index + 2 ≤ data.length) (hzero : octetAt data index = 0)
    (hnext : octetAt data (index + 1) = 0) :
    netChecksum (writeBe16 data index (netChecksum data)) = 0 := by
  have hle := wordSum_le data
  have hbound : wordSum data + 65535 < 2 ^ 32 := by omega
  have hcomplement : complement (wordSum data) ≤ 65535 := Nat.sub_le ..
  have hsame : wordSum data % 2 ^ 32 = wordSum data := Nat.mod_eq_of_lt (by omega)
  unfold netChecksum
  rw [wordSum_writeBe16 heven hlen hzero hnext, hsame, toNat_complement,
    Nat.mod_eq_of_lt (by omega), complement_add hbound]
  rfl

theorem netL4Checksum_writeBe16 {src dst : Word} {proto : Octet} (hshort : data.length ≤ 65535)
    (heven : index % 2 = 0) (hlen : index + 2 ≤ data.length) (hzero : octetAt data index = 0)
    (hnext : octetAt data (index + 1) = 0) :
    netL4Checksum src dst proto (writeBe16 data index (netL4Checksum src dst proto data)) = 0 := by
  have hle := wordSum_le data
  have hpseudo := wordSum_le (pseudoHeader src dst proto data.length)
  have htwelve : (pseudoHeader src dst proto data.length).length = 12 := rfl
  rw [htwelve] at hpseudo
  have hsum := wordSum_writeBe16 heven hlen hzero hnext (netL4Checksum src dst proto data)
  have hlength := length_writeBe16 hlen (netL4Checksum src dst proto data)
  generalize hpart : wordSum (pseudoHeader src dst proto data.length) = pseudo at hpseudo
  have hbound : pseudo + wordSum data + 65535 < 2 ^ 32 := by omega
  have hsame : (pseudo + wordSum data) % 2 ^ 32 = pseudo + wordSum data :=
    Nat.mod_eq_of_lt (by omega)
  have hfield : (netL4Checksum src dst proto data).toNat = complement (pseudo + wordSum data) := by
    unfold netL4Checksum
    rw [hpart, hsame, toNat_complement]
  rw [netL4Checksum, hlength, hpart, hsum, hfield, ← Nat.add_assoc, Nat.mod_eq_of_lt (by omega),
    complement_add hbound]
  rfl

theorem netBuildIpv4_spec {cap payloadLen : ℕ} {src dst : Word} {proto : Octet} {ident : Half}
    {header : List Octet} (h : netBuildIpv4 cap src dst proto ident payloadLen = some header) :
    payloadLen + ipv4HdrLen ≤ netMtu ∧ header.length = ipv4HdrLen ∧ netChecksum header = 0 ∧
      octetAt header 0 = 0x45 ∧ octetAt header 9 = proto ∧
      getBe16 header 2 = BitVec.ofNat 16 (ipv4HdrLen + payloadLen) ∧
      getBe32 header 12 = src ∧ getBe32 header 16 = dst := by
  unfold netBuildIpv4 at h
  split at h
  · cases h
  case isFalse hfits =>
    obtain rfl := Option.some.inj h
    have hlength : (bareHeader src dst proto ident payloadLen).length = 20 := rfl
    have hsum : netChecksum (writeBe16 (bareHeader src dst proto ident payloadLen) 10
        (netChecksum (bareHeader src dst proto ident payloadLen))) = 0 :=
      netChecksum_writeBe16 (by omega) (by decide) (by omega) rfl rfl
    exact ⟨by omega, rfl, hsum, rfl, rfl, getBe16_putBe16 _ [], getBe32_putBe32 _ [],
      getBe32_putBe32 _ []⟩

end S5LBox.Net
