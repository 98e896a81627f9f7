import S5LBox.Arm.State
import S5LBox.Firmware.AesChain
import S5LBox.Firmware.DeviceTree

/-!
# The firmware container and its loader

A container is a header and a sequence of tags. The parser takes the last payload and the first key
bag it understands; the loader decrypts with a key and a vector of the caller, and refuses before
the first octet of guest memory is written.
-/

namespace S5LBox.Firmware

def img3Magic : ℕ := 0x496d6733
def img3HeaderSize : ℕ := 20
def img3TagHeader : ℕ := 12
def tagData : ℕ := 0x44415441
def tagKbag : ℕ := 0x4b424147
def tagShsh : ℕ := 0x53485348
def tagVers : ℕ := 0x56455253

inductive Img3Status
  | tooSmall | badMagic | badSize | badTag
deriving DecidableEq

/-- A key bag: `present` when one was understood, `malformed` when only others were found. -/
structure Img3Kbag where
  cryptState : ℕ
  keyBits : ℕ
  iv : List Octet
  key : List Octet
  present : Bool
  malformed : Bool
deriving DecidableEq

/-- What the parser finds; the payload is a place in the container and a length, and the version is
a string in a buffer of 64 octets. -/
structure Img3 where
  ident : ℕ
  fullSize : ℕ
  dataSize : ℕ
  signedSize : ℕ
  data : Option (ℕ × ℕ)
  kbag : Img3Kbag
  hasShsh : Bool
  vers : List Octet

def parseKbag (d : List Octet) (k : Img3Kbag) : Img3Kbag :=
  let k := { k with malformed := true }
  if d.length < 24 then k
  else
    let k := { k with cryptState := rd32 d 0, keyBits := rd32 d 4, iv := (d.drop 8).take 16 }
    if k.keyBits ≠ 128 ∧ k.keyBits ≠ 192 ∧ k.keyBits ≠ 256 then k
    else if d.length < 24 + k.keyBits / 8 then k
    else { k with key := (d.drop 24).take (k.keyBits / 8), present := true, malformed := false }

/-- What a tag adds; `start` is where its payload `d` is. -/
def Img3.see (img : Img3) (magic start : ℕ) (d : List Octet) : Img3 :=
  if magic = tagData then { img with data := some (start, d.length) }
  else if magic = tagKbag then
    if img.kbag.present then img else { img with kbag := parseKbag d img.kbag }
  else if magic = tagShsh then { img with hasShsh := 0 < d.length }
  else if magic = tagVers then
    if 4 ≤ d.length ∧ rd32 d 0 + 4 ≤ d.length then
      let n := min (rd32 d 0) 63
      { img with vers := (d.drop 4).take n ++ 0 :: img.vers.drop (n + 1) }
    else img
  else img

/-- The loop over the tags up to `stop`. -/
def tagLoop (buf : List Octet) (stop off : ℕ) (img : Img3) : Except Img3Status Img3 :=
  if off + img3TagHeader ≤ stop then
    let totalLen := rd32 buf (off + 4)
    let dataLen := rd32 buf (off + 8)
    if totalLen < img3TagHeader then .error .badTag
    else if stop < off + totalLen then .error .badTag
    else if totalLen < dataLen + img3TagHeader then .error .badTag
    else tagLoop buf stop (off + totalLen) (img.see (rd32 buf off) (off + img3TagHeader)
      ((buf.drop (off + img3TagHeader)).take dataLen))
  else if off ≠ stop then .error .badTag
  else .ok img
termination_by stop - off
decreasing_by
  unfold img3TagHeader at *
  omega

/-- The fields of the header, before any tag. -/
def img3Header (buf : List Octet) : Img3 where
  ident := rd32 buf 16
  fullSize := rd32 buf 4
  dataSize := rd32 buf 8
  signedSize := rd32 buf 12
  data := none
  kbag := ⟨0, 0, List.replicate 16 0, [], false, false⟩
  hasShsh := false
  vers := List.replicate 64 0

def img3Parse (buf : List Octet) : Except Img3Status Img3 :=
  if buf.length < img3HeaderSize then .error .tooSmall
  else if rd32 buf 0 ≠ img3Magic then .error .badMagic
  else
    let img := img3Header buf
    if img.fullSize < img3HeaderSize ∨ buf.length < img.fullSize then .error .badSize
    else if img.fullSize < img.dataSize + img3HeaderSize then .error .badSize
    else tagLoop buf img.fullSize img3HeaderSize img

/-- `img3_decrypt_data_iv` in a memory that holds the container at `src`: whole blocks are
decrypted, and the rest is copied. The result has how much was written. -/
def img3DecryptDataIv (img : Img3) (key : Option (List Octet)) (keyBits : ℕ) (iv : Option AesBlock)
    (src dst cap : ℕ) (mem : Store) : Option (Store × ℕ) :=
  match img.data, key, iv with
  | some (start, len), some key, some iv =>
    if !img.kbag.present || img.kbag.malformed || keyBits ≠ img.kbag.keyBits || cap < len then none
    else
      match aesInit key keyBits with
      | none => none
      | some ctx =>
        let whole := len / aesBlockSize * aesBlockSize
        let decrypted :=
          if whole ≠ 0 then aesCbcDecrypt ctx iv (src + start) dst whole mem else some mem
        match decrypted with
        | none => none
        | some mem => some (Span.overwrite mem (dst + whole)
            (Span.window mem (src + start + whole) (len - whole)), len)
  | _, _, _ => none

inductive FwStatus
  | ok | parse | noPayload | decrypt | noRoom | keyRequired | ivRequired
deriving DecidableEq

/-- The guest memory and the core. -/
structure Machine where
  ram : Store
  ramBase : ℕ
  ramSize : ℕ
  cpu : Arm.Core

structure FwImage where
  ident : ℕ
  identStr : List Octet
  vers : List Octet
  loadAddr : ℕ
  size : ℕ
  wasEncrypted : Bool
  wasSigned : Bool

def img3IdentStr (ident : ℕ) : List Octet :=
  [BitVec.ofNat 8 (ident / 2 ^ 24), BitVec.ofNat 8 (ident / 2 ^ 16), BitVec.ofNat 8 (ident / 2 ^ 8),
    BitVec.ofNat 8 ident]

def Img3.image (img : Img3) (loadAddr len : ℕ) : FwImage :=
  ⟨img.ident, img3IdentStr img.ident, img.vers, loadAddr, len, img.kbag.present, img.hasShsh⟩

/-- The memory of the host: the guest memory, and the container behind it. -/
def Machine.host (m : Machine) (buf : List Octet) : Store := Span.overwrite m.ram m.ramSize buf

/-- The machine after the guest memory was changed. -/
def Machine.stored (m : Machine) (mem : Store) : Machine :=
  { m with ram := fun p ↦ if p < m.ramSize then mem p else m.ram p }

def fwLoadImg3Common (m : Machine) (buf : List Octet) (key : Option (List Octet)) (keyBits : ℕ)
    (iv : Option AesBlock) (loadAddr : ℕ) : FwStatus × Machine × Option FwImage :=
  match img3Parse buf with
  | .error _ => (.parse, m, none)
  | .ok img =>
    match img.data with
    | none => (.noPayload, m, none)
    | some (start, len) =>
      if len = 0 then (.noPayload, m, none)
      else if loadAddr < m.ramBase then (.noRoom, m, none)
      else
        let off := loadAddr - m.ramBase
        if m.ramSize < off + len then (.noRoom, m, none)
        else if img.kbag.malformed then (.decrypt, m, none)
        else if img.kbag.present then
          if key = none then (.keyRequired, m, none)
          else if iv = none then (.ivRequired, m, none)
          else
            match img3DecryptDataIv img key keyBits iv m.ramSize off (m.ramSize - off)
              (m.host buf) with
            | none => (.decrypt, m, none)
            | some (mem, written) =>
              if written ≠ len then (.decrypt, m.stored mem, none)
              else (.ok, m.stored mem, some (img.image loadAddr len))
        else
          (.ok, m.stored (Span.overwrite m.ram off ((buf.drop start).take len)),
            some (img.image loadAddr len))

def fwLoadImg3 (m : Machine) (buf : List Octet) (key : Option (List Octet)) (keyBits loadAddr : ℕ) :
    FwStatus × Machine × Option FwImage :=
  fwLoadImg3Common m buf key keyBits none loadAddr

def fwLoadImg3Iv (m : Machine) (buf : List Octet) (key : Option (List Octet)) (keyBits : ℕ)
    (iv : Option AesBlock) (loadAddr : ℕ) : FwStatus × Machine × Option FwImage :=
  fwLoadImg3Common m buf key keyBits iv loadAddr

/-- Reset the core and enter at the load address. -/
def Machine.entered (m : Machine) (loadAddr : ℕ) : Machine :=
  { m with cpu := (Arm.coreReset m.cpu.arch).setR 15 (BitVec.ofNat 32 loadAddr) }

/-- The end of `fw_boot_img3` and `fw_boot_img3_iv`. -/
def fwEnter (loaded : FwStatus × Machine × Option FwImage) (loadAddr : ℕ) :
    FwStatus × Machine × Option FwImage :=
  if loaded.1 = .ok then (.ok, loaded.2.1.entered loadAddr, loaded.2.2) else loaded

def fwBootImg3 (m : Machine) (buf : List Octet) (key : Option (List Octet)) (keyBits loadAddr : ℕ) :
    FwStatus × Machine × Option FwImage :=
  fwEnter (fwLoadImg3 m buf key keyBits loadAddr) loadAddr

def fwBootImg3Iv (m : Machine) (buf : List Octet) (key : Option (List Octet)) (keyBits : ℕ)
    (iv : Option AesBlock) (loadAddr : ℕ) : FwStatus × Machine × Option FwImage :=
  fwEnter (fwLoadImg3Iv m buf key keyBits iv loadAddr) loadAddr

end S5LBox.Firmware
