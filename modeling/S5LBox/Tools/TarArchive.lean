import Mathlib.Data.List.TakeWhile
import S5LBox.Library.Numeral
import S5LBox.Tools.PayloadTar

/-!
# What a payload is read as

The ustar format, as a relation between members and the octets of an archive, and how the payload
reader reads an archive back: member by member, and exactly when each of them has room and every
hard link finds the content of the file it names.
-/

namespace S5LBox.Tools

open List Numeral

/-- What a member is. A hard link is to an earlier member, given by its number. -/
inductive MemberKind
  | directory
  | file (content : List Octet)
  | symlink (target : List Octet)
  | hardLink (target : ℕ)
deriving DecidableEq

/-- A member; its name is split over two fields, and regular files have two type flags. -/
structure Member where
  front : List Octet
  base : List Octet
  mode : ℕ
  type : Octet
  kind : MemberKind
deriving DecidableEq

/-- The name as it is in the archive. -/
def Member.raw (m : Member) : List Octet :=
  if m.front = [] then m.base else m.front ++ 0x2f :: m.base

/-- The name without the separators that mark a directory. -/
def Member.name (m : Member) : List Octet := stripSlashes m.raw

/-- The octets behind the header. -/
def Member.body (m : Member) : List Octet :=
  match m.kind with
  | .file content => content
  | _ => []

/-- What the link field holds. -/
def Member.link (before : List Member) (m : Member) : List Octet :=
  match m.kind with
  | .symlink target => target
  | .hardLink target => (before[target]?.map Member.name).getD []
  | _ => []

/-- An octal number with any padding around it. -/
def Octal (field : List Octet) (v : ℕ) : Prop :=
  ∃ lead digits trail, field = lead ++ text digits ++ trail ∧
    (∀ octet ∈ lead, isPad octet = true) ∧ (∀ octet ∈ trail, isPad octet = true) ∧
      (∀ digit ∈ digits, digit < 8) ∧ value 8 digits = v

/-- Text padded with terminators. -/
def Padded (field text : List Octet) (len : ℕ) : Prop :=
  text.length ≤ len ∧ field = text ++ List.replicate (len - text.length) 0

structure Header where
  name : List Octet
  mode : List Octet
  owner : List Octet
  size : List Octet
  time : List Octet
  chksum : List Octet
  type : Octet
  link : List Octet
  middle : List Octet
  front : List Octet
  pad : List Octet

/-- The octets up to the checksum, and those behind it. -/
def Header.head (h : Header) : List Octet := h.name ++ (h.mode ++ (h.owner ++ (h.size ++ h.time)))

def Header.tail (h : Header) : List Octet := h.type :: (h.link ++ (h.middle ++ (h.front ++ h.pad)))

def Header.octets (h : Header) : List Octet := h.head ++ (h.chksum ++ h.tail)

/-- A header that describes a member. The fields the reader has no use for hold anything. -/
structure Describes (before : List Member) (m : Member) (h : Header) : Prop where
  name : Padded h.name m.base 100
  mode : h.mode.length = 8 ∧ Octal h.mode m.mode
  owner : h.owner.length = 16
  size : h.size.length = 12 ∧ Octal h.size m.body.length
  time : h.time.length = 12
  chksum : h.chksum.length = 8 ∧
    Octal h.chksum ((h.head ++ List.replicate 8 0x20 ++ h.tail).map BitVec.toNat).sum
  type : h.type = m.type
  link : Padded h.link (m.link before) 100
  middle : h.middle.length = 88
  front : Padded h.front m.front 155
  pad : h.pad.length = 12

/-- A member that can be archived: its name is safe and printable, and what it links to is there. -/
structure Archivable (before : List Member) (m : Member) : Prop where
  named : m.name ≠ [] ∧ m.name ≠ [0x2e]
  safe : traverses m.name = false
  printable : printablePath m.name = true
  plain : m.kind ≠ .directory → m.raw = m.name
  kind :
    match m.kind with
    | .directory => m.type = 0x35
    | .file _ => m.type = 0x30 ∨ m.type = 0
    | .symlink target => m.type = 0x32 ∧ target ≠ [] ∧ printablePath target = true
    | .hardLink target => m.type = 0x31 ∧
      ∃ file content, before[target]? = some file ∧ file.kind = .file content

/-- The record of a member: its header, and its body filled up to whole blocks. -/
def Record (before : List Member) (m : Member) (octets : List Octet) : Prop :=
  ∃ h filler, Describes before m h ∧ filler.length = (tarBlock - m.body.length % tarBlock) % tarBlock ∧
    octets = h.octets ++ (m.body ++ filler)

/-- An archive of members that follow others: their records, two blocks of zeros, and anything. -/
def Archive : List Member → List Member → List Octet → Prop
  | _, [], octets => ∃ trailer, octets = List.replicate (2 * tarBlock) 0 ++ trailer
  | before, m :: ms, octets => ∃ record rest, Archivable before m ∧ Record before m record ∧
      Archive (before ++ [m]) ms rest ∧ octets = record ++ rest

/-- The content of a member; that of a hard link is the content of the file it is to. -/
def Member.content (before : List Member) (m : Member) : List Octet :=
  match m.kind with
  | .directory => []
  | .file content => content
  | .symlink target => target
  | .hardLink target => (before[target]?.map Member.body).getD []

def Member.entryKind (m : Member) : EntryKind :=
  match m.kind with
  | .directory => .directory
  | .file _ => .file
  | .symlink _ => .symlink
  | .hardLink _ => .file

def Member.entry (root : List Octet) (before : List Member) (m : Member) : WorkEntry :=
  ⟨m.entryKind, joined root m.name, m.content before, m.mode % 2 ^ 12⟩

/-- The entries of members that follow others. -/
def entriesOf (root : List Octet) : List Member → List Member → List WorkEntry
  | _, [] => []
  | before, m :: ms => m.entry root before :: entriesOf root (before ++ [m]) ms

/-- How much of the name arena a member takes. -/
def Member.cost (root : List Octet) (m : Member) : ℕ :=
  (joined root m.name).length + 1 +
    match m.kind with
    | .symlink target => target.length + 2
    | _ => 0

def namesTaken (root : List Octet) (ms : List Member) : ℕ := (ms.map (Member.cost root)).sum

/-- When a member is read as what it is: it has room, and a hard link finds the right content. -/
structure Accepts (cap : ℕ) (root : List Octet) (before : List Member) (m : Member) : Prop where
  count : before.length < maxEntries
  path : namesTaken root before + (root.length + m.name.length + 2) ≤ cap
  kind :
    match m.kind with
    | .directory => True
    | .file content => content.length ≤ maxEntryBytes
    | .symlink target =>
      namesTaken root before + (joined root m.name).length + 1 + (target.length + 2) ≤ cap
    | .hardLink _ => ((linkSource (entriesOf root [] before) (m.link before)).map
        WorkEntry.content) = some (m.content before)

variable {cap off v : ℕ} {root octets rest : List Octet} {before ms : List Member} {m : Member}
  {h : Header} {plan : TarPlan}

theorem octalDigits_text {digits : List ℕ} {trail : List Octet}
    (htrail : ∀ octet ∈ trail, isPad octet = true) (hdigits : ∀ digit ∈ digits, digit < 8)
    (hfits : v * 8 ^ digits.length + value 8 digits < 2 ^ 64) :
    octalDigits v (text digits ++ trail) = some (v * 8 ^ digits.length + value 8 digits) := by
  induction digits generalizing v with
  | nil =>
    have hv : v * 8 ^ ([] : List ℕ).length + value 8 [] = v := by simp [value]
    rw [hv]
    cases trail with
    | nil => rfl
    | cons octet trail =>
      change octalDigits v (octet :: trail) = _
      rw [octalDigits, if_pos (htrail octet mem_cons_self)]
  | cons digit digits ih =>
    have hdigit := hdigits digit mem_cons_self
    have hfacts : ∀ digit < 8, isPad (digitOctet digit) = false ∧
        ¬(digitOctet digit < 0x30 ∨ 0x37 < digitOctet digit) ∧
          (digitOctet digit).toNat - 0x30 = digit := by decide
    obtain ⟨hpad, hrange, hvalue⟩ := hfacts digit hdigit
    have hnext : v * 8 ^ (digit :: digits).length + value 8 (digit :: digits) =
        (v * 8 + digit) * 8 ^ digits.length + value 8 digits := by
      rw [value_cons, length_cons]
      ring
    have hsmall : ¬(2 ^ 64 - 1) / 8 < v := by
      have hpos := Nat.one_le_pow digits.length 8 (by decide)
      have hle : (v * 8 + digit) * 1 ≤ (v * 8 + digit) * 8 ^ digits.length :=
        Nat.mul_le_mul_left _ hpos
      omega
    rw [hnext] at hfits ⊢
    change octalDigits v (digitOctet digit :: (text digits ++ trail)) = _
    rw [octalDigits, hpad, if_neg Bool.false_ne_true, if_neg hrange, if_neg hsmall, hvalue]
    exact ih (fun digit hmem ↦ hdigits digit (mem_cons_of_mem _ hmem)) hfits

theorem octalField_octal {field : List Octet} (hoctal : Octal field v) (hlength : field.length ≤ 20) :
    octalField field = some v := by
  obtain ⟨lead, digits, trail, rfl, hlead, htrail, hdigits, rfl⟩ := hoctal
  unfold octalField
  rw [append_assoc, dropWhile_append_of_pos hlead]
  cases digits with
  | nil =>
    have hnil : (text [] ++ trail).dropWhile isPad = [] := dropWhile_eq_nil_iff.2 htrail
    rw [hnil]
    rfl
  | cons digit digits =>
    have hpad : ∀ digit < 8, ¬isPad (digitOctet digit) = true := by decide
    have hbound := value_lt hdigits
    have hpow : 8 ^ (digit :: digits).length ≤ 8 ^ 20 := by
      apply Nat.pow_le_pow_right (by decide)
      rw [length_append, length_append, length_text] at hlength
      omega
    have hdrop : (text (digit :: digits) ++ trail).dropWhile isPad =
        text (digit :: digits) ++ trail :=
      dropWhile_cons_of_neg (hpad digit (hdigits digit mem_cons_self))
    rw [hdrop, octalDigits_text htrail hdigits, Nat.zero_mul, Nat.zero_add]
    rw [Nat.zero_mul, Nat.zero_add]
    exact hbound.trans_le (hpow.trans (by decide))

theorem cString_padded {field text : List Octet} {len : ℕ} (hpadded : Padded field text len)
    (htext : (0 : Octet) ∉ text) : cString field = text := by
  obtain ⟨-, rfl⟩ := hpadded
  unfold cString
  have hall : ∀ octet ∈ text, decide (octet ≠ 0) = true := by
    intro octet hoctet
    rw [decide_eq_true_iff]
    rintro rfl
    exact htext hoctet
  rw [takeWhile_append_of_pos hall]
  cases len - text.length with
  | zero => exact append_nil text
  | succ n =>
    rw [replicate_succ, takeWhile_cons_of_neg (by decide), append_nil]

theorem length_padded {field text : List Octet} {len : ℕ} (hpadded : Padded field text len) :
    field.length = len := by
  obtain ⟨hle, rfl⟩ := hpadded
  rw [length_append, length_replicate]
  omega

theorem Describes.length_head (hd : Describes before m h) : h.head.length = 148 := by
  have hname := length_padded hd.name
  unfold Header.head
  simp only [length_append, hname, hd.mode.1, hd.owner, hd.size.1, hd.time]

theorem Describes.length_tail (hd : Describes before m h) : h.tail.length = 356 := by
  have hlink := length_padded hd.link
  have hfront := length_padded hd.front
  unfold Header.tail
  simp only [length_cons, length_append, hlink, hd.middle, hfront, hd.pad]

theorem Describes.length_octets (hd : Describes before m h) : h.octets.length = tarBlock := by
  unfold Header.octets
  rw [length_append, length_append, hd.length_head, hd.length_tail, hd.chksum.1]
  rfl

theorem field_append {front item back : List Octet} {start len : ℕ} (hfront : front.length = start)
    (hitem : item.length = len) : field (front ++ (item ++ back)) start len = item := by
  subst hfront hitem
  unfold field
  rw [drop_left, take_left]

theorem octetAt_append {front back : List Octet} {item : Octet} {start : ℕ}
    (hfront : front.length = start) : octetAt (front ++ item :: back) start = item := by
  subst hfront
  unfold octetAt
  rw [getD_eq_getElem?_getD, getElem?_append_right le_rfl, Nat.sub_self]
  rfl

theorem Describes.fields (hd : Describes before m h) :
    field h.octets 0 100 = h.name ∧ field h.octets 100 8 = h.mode ∧
      field h.octets 124 12 = h.size ∧ field h.octets 148 8 = h.chksum ∧
        octetAt h.octets 156 = h.type ∧ field h.octets 157 100 = h.link ∧
          field h.octets 345 155 = h.front := by
  have hname := length_padded hd.name
  have hlink := length_padded hd.link
  have hfront := length_padded hd.front
  have hmode := hd.mode.1
  have hsize := hd.size.1
  have hchksum := hd.chksum.1
  have howner := hd.owner
  have hmiddle := hd.middle
  have hhead := hd.length_head
  have hat {front item back : List Octet} {start len : ℕ} (hsplit : h.octets = front ++ (item ++ back))
      (hfront : front.length = start) (hitem : item.length = len) :
      field h.octets start len = item := hsplit ▸ field_append hfront hitem
  refine ⟨?_, ?_, ?_, ?_, ?_, ?_, ?_⟩
  · exact @hat [] _ (h.mode ++ (h.owner ++ (h.size ++ h.time)) ++ (h.chksum ++ h.tail)) _ _
      (by simp [Header.octets, Header.head]) rfl hname
  · exact @hat h.name _ (h.owner ++ (h.size ++ h.time) ++ (h.chksum ++ h.tail)) _ _
      (by simp [Header.octets, Header.head]) hname hmode
  · exact @hat (h.name ++ h.mode ++ h.owner) _ (h.time ++ (h.chksum ++ h.tail)) _ _
      (by simp [Header.octets, Header.head])
      (by rw [length_append, length_append, hname, hmode, howner]) hsize
  · exact @hat h.head _ h.tail _ _ rfl hhead hchksum
  · have hsplit : h.octets = (h.head ++ h.chksum) ++
        h.type :: (h.link ++ (h.middle ++ (h.front ++ h.pad))) := by
      simp [Header.octets, Header.tail]
    rw [hsplit]
    exact octetAt_append (by rw [length_append, hhead, hchksum])
  · exact @hat (h.head ++ h.chksum ++ [h.type]) _ (h.middle ++ (h.front ++ h.pad)) _ _
      (by simp [Header.octets, Header.tail])
      (by rw [length_append, length_append, hhead, hchksum]; rfl) hlink
  · exact @hat (h.head ++ h.chksum ++ [h.type] ++ h.link ++ h.middle) _ h.pad _ _
      (by simp [Header.octets, Header.tail])
      (by
        rw [length_append, length_append, length_append, length_append, hhead,
          hchksum, hlink, hmiddle]
        rfl) hfront

theorem Describes.checksumOk (hd : Describes before m h) : checksumOk h.octets = true := by
  have hhead := hd.length_head
  obtain ⟨hlength, hoctal⟩ := hd.chksum
  have hsum : headerSum h.octets =
      ((h.head ++ List.replicate 8 0x20 ++ h.tail).map BitVec.toNat).sum := by
    have hdrop : h.octets.drop 156 = h.tail := by
      have hall : (h.head ++ h.chksum).length = 156 := by
        rw [length_append, hhead, hlength]
      unfold Header.octets
      rw [← append_assoc, ← hall, drop_left]
    have htake : h.octets.take 148 = h.head := by
      unfold Header.octets
      rw [← hhead, take_left]
    unfold headerSum
    rw [htake, hdrop]
  unfold Tools.checksumOk
  rw [hd.fields.2.2.2.1, hsum, decide_eq_true_iff]
  exact octalField_octal hoctal (by omega)

theorem notMem_of_printable {s : List Octet} (hs : printablePath s = true) : (0 : Octet) ∉ s := by
  intro hzero
  have hall := all_eq_true.1 hs 0 hzero
  cases hall

theorem mem_raw {octet : Octet} (hmem : octet ∈ m.front ∨ octet ∈ m.base) : octet ∈ m.raw := by
  unfold Member.raw
  split
  case isTrue hnil =>
    rcases hmem with hfront | hbase
    · rw [hnil] at hfront
      cases hfront
    · exact hbase
  case isFalse =>
    rw [mem_append, mem_cons]
    rcases hmem with hfront | hbase
    · exact .inl hfront
    · exact .inr (.inr hbase)

theorem Archivable.zero_notMem (ha : Archivable before m) :
    (0 : Octet) ∉ m.front ∧ (0 : Octet) ∉ m.base := by
  have hraw : (0 : Octet) ∉ m.raw := by
    intro hzero
    have hsplit : stripSlashes m.raw ++ (m.raw.reverse.takeWhile (· = 0x2f)).reverse = m.raw := by
      unfold stripSlashes
      rw [← reverse_append, takeWhile_append_dropWhile, reverse_reverse]
    rw [← hsplit, mem_append, mem_reverse] at hzero
    rcases hzero with hname | hslash
    · exact notMem_of_printable ha.printable hname
    · cases all_eq_true.1 all_takeWhile _ hslash
  exact ⟨fun hfront ↦ hraw (mem_raw (.inl hfront)), fun hbase ↦ hraw (mem_raw (.inr hbase))⟩

theorem not_zero_of_checksumOk {block : List Octet} (hok : checksumOk block = true) :
    ¬block.all (· = 0) = true := by
  intro hzero
  have hall : ∀ octet ∈ field block 148 8, isPad octet = true := by
    intro octet hoctet
    have hmem : octet ∈ block := mem_of_mem_drop (mem_of_mem_take hoctet)
    have heq : octet = 0 := of_decide_eq_true (all_eq_true.1 hzero octet hmem)
    rw [heq]
    rfl
  have hread : octalField (field block 148 8) = some 0 := by
    unfold octalField
    rw [dropWhile_eq_nil_iff.2 hall]
    rfl
  unfold checksumOk at hok
  rw [hread, decide_eq_true_iff, Option.some.injEq] at hok
  unfold headerSum at hok
  rw [map_append, sum_append, map_append, sum_append, map_replicate, sum_replicate] at hok
  have hspace : (0x20 : Octet).toNat = 32 := rfl
  rw [hspace, smul_eq_mul] at hok
  omega

/-- What the reader makes of a member's header and body. -/
def Member.read (before : List Member) (m : Member) : RawMember :=
  ⟨m.raw, m.mode, m.body.length, m.type, m.link before, m.body⟩

/-- The names of the members that links may be to are printable. -/
def NamesPrintable (before : List Member) : Prop :=
  ∀ other ∈ before, printablePath other.name = true

theorem zero_notMem_link (hnames : NamesPrintable before) (ha : Archivable before m) :
    (0 : Octet) ∉ m.link before := by
  have hkind := ha.kind
  unfold Member.link
  rcases hm : m.kind with _ | content | target | target <;> rw [hm] at hkind
  · exact not_mem_nil
  · exact not_mem_nil
  · exact notMem_of_printable hkind.2.2
  · obtain ⟨-, file, content, hfile, -⟩ := hkind
    dsimp only
    rw [hfile]
    exact notMem_of_printable (hnames file (mem_of_getElem? hfile))

theorem memberName_octets (ha : Archivable before m) (hd : Describes before m h) :
    memberName h.octets = m.raw := by
  obtain ⟨hname, -, -, -, -, -, hfront⟩ := hd.fields
  unfold memberName
  rw [hname, hfront, cString_padded hd.name ha.zero_notMem.2,
    cString_padded hd.front ha.zero_notMem.1]
  rfl

theorem tarLoop_record (hnames : NamesPrintable before) (ha : Archivable before m) {record : List Octet}
    (hrecord : Record before m record) : tarLoop cap root off (record ++ rest) plan =
      match addMember cap root plan (m.read before) with
      | .error e => .error e
      | .ok plan => tarLoop cap root (off + record.length) rest plan := by
  obtain ⟨h, filler, hd, hfiller, rfl⟩ := hrecord
  have hlength := hd.length_octets
  have hbody : (m.body.length + (tarBlock - 1)) / tarBlock * tarBlock =
      m.body.length + filler.length := by
    rw [hfiller]
    unfold tarBlock
    omega
  obtain ⟨-, hmode, hsize, -, htype, hlink, -⟩ := hd.fields
  have htake : ((h.octets ++ (m.body ++ filler)) ++ rest).take tarBlock = h.octets := by
    rw [append_assoc, ← hlength, take_left]
  have hdrop : ((h.octets ++ (m.body ++ filler)) ++ rest).drop tarBlock =
      m.body ++ (filler ++ rest) := by
    rw [append_assoc, ← hlength, drop_left, append_assoc]
  have hnext : ((h.octets ++ (m.body ++ filler)) ++ rest).drop
      (tarBlock + (m.body.length + filler.length)) = rest := by
    have hall : (h.octets ++ (m.body ++ filler)).length =
        tarBlock + (m.body.length + filler.length) := by
      rw [length_append, length_append, hlength]
    rw [← hall, drop_left]
  rw [tarLoop, dif_neg]
  swap
  · rw [length_append, length_append, hlength]
    omega
  dsimp only
  rw [htake, if_neg (not_zero_of_checksumOk hd.checksumOk), hd.checksumOk, hmode, hsize,
    octalField_octal hd.mode.2 (by rw [hd.mode.1]; decide),
    octalField_octal hd.size.2 (by rw [hd.size.1]; decide)]
  dsimp only
  rw [if_neg (by decide), if_neg, memberName_octets ha hd, htype, hd.type, hlink,
    cString_padded hd.link (zero_notMem_link hnames ha), hdrop, take_left, hbody, hnext]
  · have hall : (h.octets ++ (m.body ++ filler)).length =
        tarBlock + (m.body.length + filler.length) := by
      rw [length_append, length_append, hlength]
    rw [hall]
    rfl
  · rw [hbody, length_append, length_append, length_append, hlength]
    omega

theorem tarLoop_end {trailer : List Octet} :
    tarLoop cap root off (List.replicate (2 * tarBlock) 0 ++ trailer) plan = .ok plan := by
  have htake : (List.replicate (2 * tarBlock) (0 : Octet) ++ trailer).take tarBlock =
      List.replicate tarBlock 0 := by
    rw [take_append_of_le_length (by rw [length_replicate]; decide), take_replicate]
    rfl
  rw [tarLoop, dif_neg]
  · dsimp only
    rw [htake, if_pos]
    rw [all_eq_true]
    intro octet hoctet
    rw [eq_of_mem_replicate hoctet]
    rfl
  · rw [length_append, length_replicate]
    unfold tarBlock
    omega

/-- A plan that members were read into as what they are. -/
structure Planned (root : List Octet) (before : List Member) (plan : TarPlan) : Prop where
  entries : plan.entries = entriesOf root [] before
  namesUsed : plan.namesUsed = namesTaken root before

theorem length_entriesOf (earlier before : List Member) :
    (entriesOf root earlier before).length = before.length := by
  induction before generalizing earlier with
  | nil => rfl
  | cons m before ih => rw [entriesOf, length_cons, ih, length_cons]

theorem entriesOf_append (earlier before after : List Member) :
    entriesOf root earlier (before ++ after) =
      entriesOf root earlier before ++ entriesOf root (earlier ++ before) after := by
  induction before generalizing earlier with
  | nil => rw [append_nil]; rfl
  | cons other before ih =>
    rw [cons_append, entriesOf, ih, entriesOf, cons_append, append_assoc, singleton_append]

/-- The entry a member is read into, when it is read into one. -/
structure ReadsInto (cap : ℕ) (root : List Octet) (before : List Member) (m : Member)
    (plan plan' : TarPlan) : Prop where
  entry : ∃ entry, plan'.entries = plan.entries ++ [entry] ∧
    (Accepts cap root before m ↔ entry = m.entry root before)
  namesUsed : plan'.namesUsed = plan.namesUsed + m.cost root

theorem arenaPut_eq (used : ℕ) (name : List Octet) : arenaPut cap used root name =
    if used + (root.length + name.length + 2) ≤ cap then
      some (used + ((joined root name).length + 1)) else none := by
  unfold arenaPut
  by_cases hroom : used + (root.length + name.length + 2) ≤ cap
  · rw [if_pos hroom, if_neg (Nat.not_lt.2 hroom), add_assoc]
  · rw [if_neg hroom, if_pos (Nat.lt_of_not_le hroom)]

theorem Archivable.type_facts (ha : Archivable before m) :
    ¬(m.type = 0x4c ∨ m.type = 0x4b) ∧ m.type ∉ skippedTypes := by
  have hall : ∀ type ∈ [(0x35 : Octet), 0x30, 0, 0x32, 0x31],
      ¬(type = 0x4c ∨ type = 0x4b) ∧ type ∉ skippedTypes := by decide
  apply hall
  have hkind := ha.kind
  rcases hm : m.kind with _ | content | target | target <;> rw [hm] at hkind
  · simp [hkind]
  · rcases hkind with hkind | hkind <;> simp [hkind]
  · simp [hkind.1]
  · simp [hkind.1]

theorem addMember_read (hplan : Planned root before plan) (ha : Archivable before m) :
    (∃ e, addMember cap root plan (m.read before) = .error e ∧ ¬Accepts cap root before m) ∨
      ∃ plan', addMember cap root plan (m.read before) = .ok plan' ∧
        ReadsInto cap root before m plan plan' := by
  obtain ⟨hlong, hskip⟩ := ha.type_facts
  have hsafe : ¬(traverses m.name || !printablePath m.name) = true := by
    rw [ha.safe, ha.printable]
    exact Bool.false_ne_true
  have hnamed : ¬(m.name = [] ∨ m.name = [0x2e]) := not_or.2 ha.named
  have hlength : plan.entries.length = before.length := by
    rw [hplan.entries, length_entriesOf]
  unfold addMember Member.read
  dsimp only
  rw [if_neg hlong, if_neg hskip, show stripSlashes m.raw = m.name from rfl, if_neg hnamed,
    if_neg hsafe, hlength, hplan.namesUsed, arenaPut_eq]
  by_cases hcount : maxEntries ≤ before.length
  · rw [if_pos hcount]
    exact .inl ⟨_, rfl, fun hok ↦ absurd hok.count (Nat.not_lt.2 hcount)⟩
  rw [if_neg hcount]
  by_cases hroom : namesTaken root before + (root.length + m.name.length + 2) ≤ cap
  swap
  · rw [if_neg hroom]
    exact .inl ⟨_, rfl, fun hok ↦ absurd hok.path hroom⟩
  rw [if_pos hroom]
  have hcount' := Nat.lt_of_not_le hcount
  have hkind := ha.kind
  rcases hm : m.kind with _ | content | target | target <;> rw [hm] at hkind
  · dsimp only at hkind ⊢
    rw [if_pos hkind]
    refine .inr ⟨_, rfl, ⟨_, rfl, fun _ ↦ ?_, fun _ ↦ ⟨hcount', hroom, ?_⟩⟩, ?_⟩
    · unfold Member.entry Member.entryKind Member.content
      rw [hm]
    · rw [hm]
      trivial
    · unfold Member.cost
      rw [hm, hplan.namesUsed]
      rfl
  · have htype : m.type ≠ 0x35 ∧ m.type ≠ 0x32 ∧ m.type ≠ 0x31 := by
      rcases hkind with hkind | hkind <;> rw [hkind] <;> decide
    have hbody : m.body = content := by
      unfold Member.body
      rw [hm]
    dsimp only
    rw [if_neg htype.1, if_neg htype.2.1, if_neg htype.2.2, if_pos hkind, hbody]
    by_cases hsize : maxEntryBytes < content.length
    · rw [if_pos hsize]
      refine .inl ⟨_, rfl, fun hok ↦ ?_⟩
      have hkind := hok.kind
      rw [hm] at hkind
      exact absurd hkind (Nat.not_le.2 hsize)
    · rw [if_neg hsize]
      refine .inr ⟨_, rfl, ⟨_, rfl, fun _ ↦ ?_, fun _ ↦ ⟨hcount', hroom, ?_⟩⟩, ?_⟩
      · unfold Member.entry Member.entryKind Member.content
        rw [hm]
      · rw [hm]
        exact Nat.le_of_not_lt hsize
      · unfold Member.cost
        rw [hm, hplan.namesUsed]
        rfl
  · obtain ⟨htype, hsome, hprintable⟩ := hkind
    have hlink : m.link before = target := by
      unfold Member.link
      rw [hm]
    have hok : ¬(target = [] ∨ (!printablePath target) = true) := by
      rw [hprintable]
      exact not_or.2 ⟨hsome, Bool.false_ne_true⟩
    dsimp only
    rw [htype, if_neg (by decide), if_pos rfl, hlink, if_neg hok, arenaPut_eq]
    have hcost : namesTaken root before + ((joined root m.name).length + 1) +
        (([] : List Octet).length + target.length + 2) =
          namesTaken root before + (joined root m.name).length + 1 + (target.length + 2) := by
      rw [length_nil]
      omega
    rw [hcost]
    by_cases hfits : namesTaken root before + (joined root m.name).length + 1 +
        (target.length + 2) ≤ cap
    · rw [if_pos hfits]
      refine .inr ⟨_, rfl, ⟨_, rfl, fun _ ↦ ?_, fun _ ↦ ⟨hcount', hroom, ?_⟩⟩, ?_⟩
      · unfold Member.entry Member.entryKind Member.content
        rw [hm]
      · rw [hm]
        exact hfits
      · unfold Member.cost
        rw [hm, hplan.namesUsed]
        dsimp only
        rw [show (joined [] target).length = target.length + 1 from rfl]
        omega
    · rw [if_neg hfits]
      refine .inl ⟨_, rfl, fun hok ↦ ?_⟩
      have hkind := hok.kind
      rw [hm] at hkind
      exact absurd hkind hfits
  · obtain ⟨htype, -⟩ := hkind
    dsimp only
    rw [htype, if_neg (by decide), if_neg (by decide), if_pos rfl, hplan.entries]
    have haccepts : Accepts cap root before m ↔
        (linkSource (entriesOf root [] before) (m.link before)).map WorkEntry.content =
          some (m.content before) := by
      constructor
      · intro hok
        have hkind := hok.kind
        rwa [hm] at hkind
      · intro hcontent
        refine ⟨hcount', hroom, ?_⟩
        rwa [hm]
    rcases hsource : linkSource (entriesOf root [] before) (m.link before) with _ | src
    · refine .inl ⟨_, rfl, fun hok ↦ ?_⟩
      have hcontent := haccepts.1 hok
      rw [hsource] at hcontent
      cases hcontent
    · refine .inr ⟨_, rfl, ⟨_, by rw [hplan.entries], ?_⟩, ?_⟩
      · rw [haccepts, hsource, Option.map_some, Option.some.injEq]
        unfold Member.entry Member.entryKind
        rw [hm]
        constructor
        · intro hcontent
          rw [hcontent]
        · exact fun hentry ↦ congrArg WorkEntry.content hentry
      · unfold Member.cost
        rw [hm, hplan.namesUsed]
        rfl

theorem addMember_keeps {raw : RawMember} {plan' : TarPlan}
    (hadd : addMember cap root plan raw = .ok plan') : plan.entries <+: plan'.entries := by
  unfold addMember at hadd
  dsimp only at hadd
  repeat' split at hadd
  all_goals cases hadd
  all_goals first | exact prefix_rfl | exact prefix_append _ _

theorem tarLoop_keeps {plan' : TarPlan} (hloop : tarLoop cap root off octets plan = .ok plan') :
    plan.entries <+: plan'.entries := by
  induction hlength : octets.length using Nat.strong_induction_on generalizing octets off plan with
  | _ length ih =>
    rw [tarLoop] at hloop
    split at hloop
    case isTrue =>
      cases hloop
      exact prefix_rfl
    case isFalse hlong =>
      dsimp only at hloop
      split at hloop
      · cases hloop
        exact prefix_rfl
      split at hloop
      · cases hloop
      split at hloop
      · split at hloop
        · cases hloop
        split at hloop
        · cases hloop
        · case _ hadd =>
          refine (addMember_keeps hadd).trans (ih _ ?_ hloop rfl)
          rw [length_drop]
          unfold tarBlock at hlong ⊢
          omega
      · cases hloop

theorem archive_ne_nil (harchive : Archive before ms octets) : octets ≠ [] := by
  cases ms with
  | nil =>
    obtain ⟨trailer, rfl⟩ := harchive
    exact append_ne_nil_of_left_ne_nil (cons_ne_nil _ _) _
  | cons m ms =>
    obtain ⟨record, rest, -, ⟨h, filler, hd, -, rfl⟩, -, rfl⟩ := harchive
    intro hnil
    have hlength := congrArg List.length hnil
    rw [length_append, length_append, hd.length_octets] at hlength
    exact absurd hlength (by unfold tarBlock; simp)

theorem tarLoop_archive (hplan : Planned root before plan) (hnames : NamesPrintable before)
    (harchive : Archive before ms octets) : (∃ plan', tarLoop cap root off octets plan = .ok plan' ∧
        plan'.entries = entriesOf root [] (before ++ ms)) ↔
      ∀ front m back, ms = front ++ m :: back → Accepts cap root (before ++ front) m := by
  induction ms generalizing before plan off octets with
  | nil =>
    obtain ⟨trailer, rfl⟩ := harchive
    constructor
    · intro _ front m back hsplit
      simp at hsplit
    · intro _
      rw [append_nil]
      exact ⟨plan, tarLoop_end, hplan.entries⟩
  | cons m ms ih =>
    obtain ⟨record, rest, ha, hrecord, hrest, rfl⟩ := harchive
    have hnames' : NamesPrintable (before ++ [m]) := by
      intro other hother
      rcases mem_append.1 hother with hold | hlast
      · exact hnames other hold
      · rw [mem_singleton.1 hlast]
        exact ha.printable
    have hall : entriesOf root [] (before ++ m :: ms) =
        entriesOf root [] ((before ++ [m]) ++ ms) := by
      rw [append_assoc, singleton_append]
    rw [tarLoop_record hnames ha hrecord]
    rcases addMember_read hplan ha with ⟨e, hadd, hrefused⟩ | ⟨plan', hadd, ⟨⟨entry, hentries, hright⟩, hused⟩⟩
    · rw [hadd]
      constructor
      · rintro ⟨plan', hloop, -⟩
        cases hloop
      · intro haccepts
        have hfirst := haccepts [] m ms rfl
        rw [append_nil] at hfirst
        exact absurd hfirst hrefused
    rw [hadd]
    dsimp only
    by_cases haccepts : Accepts cap root before m
    · have hplan' : Planned root (before ++ [m]) plan' := by
        refine ⟨?_, ?_⟩
        · rw [hentries, hright.1 haccepts, hplan.entries, entriesOf_append]
          rfl
        · rw [hused, hplan.namesUsed]
          unfold namesTaken
          rw [map_append, sum_append, map_singleton, sum_singleton]
      rw [hall, ih hplan' hnames' hrest]
      constructor
      · intro hmore front other back hsplit
        cases front with
        | nil =>
          obtain ⟨rfl, -⟩ := List.cons.inj hsplit
          rwa [append_nil]
        | cons first front =>
          obtain ⟨rfl, hback⟩ := List.cons.inj hsplit
          have hlater := hmore front other back hback
          rwa [append_assoc, singleton_append] at hlater
      · intro hevery front other back hsplit
        have hlater := hevery (m :: front) other back (by rw [hsplit, cons_append])
        rwa [append_assoc, singleton_append]
    · constructor
      · rintro ⟨plan'', hloop, hlast⟩
        have hkept := tarLoop_keeps hloop
        rw [hlast, hentries, hplan.entries, entriesOf_append, prefix_append_right_inj,
          nil_append, entriesOf, cons_prefix_cons] at hkept
        exact absurd (hright.2 hkept.1) haccepts
      · intro hevery
        have hfirst := hevery [] m ms rfl
        rw [append_nil] at hfirst
        exact absurd hfirst haccepts

theorem tarLoop_image {image : List Octet} (harchive : Archive [] ms image) :
    (∃ plan, tarLoop (namesCap image.length) root 0 image ⟨[], 0⟩ = .ok plan ∧
        plan.entries = entriesOf root [] ms) ↔
      ∀ front m back, ms = front ++ m :: back → Accepts (namesCap image.length) root front m := by
  have hloop := @tarLoop_archive (namesCap image.length) 0 root image [] ms ⟨[], 0⟩ ⟨rfl, rfl⟩
    (forall_mem_nil _) harchive
  simp only [nil_append] at hloop
  exact hloop

theorem entriesOf_eq_nil : entriesOf root before ms = [] ↔ ms = [] := by
  cases ms with
  | nil => exact ⟨fun _ ↦ rfl, fun _ ↦ rfl⟩
  | cons m ms => exact ⟨(nomatch ·), (nomatch ·)⟩

theorem accepts_of_open {image : List Octet} (harchive : Archive [] ms image)
    (hopen : payloadTarOpen image root = .ok (entriesOf root [] ms)) :
    ms ≠ [] ∧ ∀ front m back, ms = front ++ m :: back →
      Accepts (namesCap image.length) root front m := by
  rw [← tarLoop_image harchive]
  unfold payloadTarOpen at hopen
  rw [if_neg (archive_ne_nil harchive)] at hopen
  rcases hread : tarLoop (namesCap image.length) root 0 image ⟨[], 0⟩ with _ | plan
  · rw [hread] at hopen
    cases hopen
  · rw [hread] at hopen
    dsimp only at hopen
    split at hopen
    case isTrue => cases hopen
    case isFalse hsome =>
      have hentries := Except.ok.inj hopen
      rw [hentries, entriesOf_eq_nil] at hsome
      exact ⟨hsome, plan, rfl, hentries⟩

theorem open_of_accepts {image : List Octet} (harchive : Archive [] ms image) (hsome : ms ≠ [])
    (haccepts : ∀ front m back, ms = front ++ m :: back →
      Accepts (namesCap image.length) root front m) :
    payloadTarOpen image root = .ok (entriesOf root [] ms) := by
  obtain ⟨plan, hread, hentries⟩ := (tarLoop_image harchive).2 haccepts
  unfold payloadTarOpen
  rw [if_neg (archive_ne_nil harchive), hread]
  dsimp only
  rw [hentries, if_neg (fun hnil ↦ hsome (entriesOf_eq_nil.1 hnil))]

def padTo (len : ℕ) (text : List Octet) : List Octet := text ++ List.replicate (len - text.length) 0

/-- The header that a plain writer gives a member. -/
def Member.header (before : List Member) (m : Member) : Header :=
  let blank : Header :=
    { name := padTo 100 m.base
      mode := text (padded 8 7 m.mode) ++ [0]
      owner := List.replicate 16 0
      size := text (padded 8 11 m.body.length) ++ [0]
      time := List.replicate 12 0
      chksum := List.replicate 8 0x20
      type := m.type
      link := padTo 100 (m.link before)
      middle := List.replicate 88 0
      front := padTo 155 m.front
      pad := List.replicate 12 0 }
  { blank with chksum := text (padded 8 6 (blank.octets.map BitVec.toNat).sum) ++ [0, 0x20] }

/-- The archive of members that follow others, as a plain writer writes it. -/
def ustar : List Member → List Member → List Octet
  | _, [] => List.replicate (2 * tarBlock) 0
  | before, m :: ms =>
    (m.header before).octets ++ (m.body ++
        List.replicate ((tarBlock - m.body.length % tarBlock) % tarBlock) 0) ++
      ustar (before ++ [m]) ms

/-- A member whose fields fit the header. -/
structure Writable (before : List Member) (m : Member) : Prop where
  front : m.front.length ≤ 155
  base : m.base.length ≤ 100
  link : (m.link before).length ≤ 100
  mode : m.mode < 8 ^ 7
  size : m.body.length < 8 ^ 11

theorem octal_padded {width : ℕ} (hfits : v < 8 ^ width) {trail : List Octet}
    (htrail : ∀ octet ∈ trail, isPad octet = true) : Octal (text (padded 8 width v) ++ trail) v :=
  ⟨[], padded 8 width v, trail, rfl, forall_mem_nil _, htrail,
    fun _ hdigit ↦ lt_of_mem_padded (by decide) hdigit, value_padded hfits⟩

theorem sum_octets_le (octets : List Octet) : (octets.map BitVec.toNat).sum ≤ octets.length * 255 := by
  induction octets with
  | nil => exact Nat.zero_le _
  | cons octet octets ih =>
    have hoctet := octet.isLt
    rw [map_cons, sum_cons, length_cons]
    omega

theorem describes_header (hw : Writable before m) : Describes before m (m.header before) := by
  have hpadded {text : List Octet} {len : ℕ} (hle : text.length ≤ len) :
      Padded (padTo len text) text len := ⟨hle, rfl⟩
  have hzero : ∀ octet ∈ [(0 : Octet)], isPad octet = true := by decide
  refine ⟨hpadded hw.base, ⟨?_, octal_padded hw.mode hzero⟩, rfl, ⟨?_, octal_padded hw.size hzero⟩,
    rfl, ⟨?_, ?_⟩, rfl, hpadded hw.link, rfl, hpadded hw.front, rfl⟩
  · unfold Member.header
    rw [length_append, length_text, Numeral.length_padded]
    rfl
  · unfold Member.header
    rw [length_append, length_text, Numeral.length_padded]
    rfl
  · unfold Member.header
    rw [length_append, length_text, Numeral.length_padded]
    rfl
  · have hlengths : (padTo 100 m.base).length = 100 ∧ (padTo 100 (m.link before)).length = 100 ∧
        (padTo 155 m.front).length = 155 :=
      ⟨length_padded (hpadded hw.base), length_padded (hpadded hw.link),
        length_padded (hpadded hw.front)⟩
    have hsum := sum_octets_le ((m.header before).head ++ List.replicate 8 0x20 ++
      (m.header before).tail)
    have hlength : ((m.header before).head ++ List.replicate 8 0x20 ++
        (m.header before).tail).length = 512 := by
      simp only [Header.head, Header.tail, Member.header, length_append, length_cons,
        length_replicate, length_nil, length_text, Numeral.length_padded, hlengths]
    rw [hlength] at hsum
    have hshape : (m.header before).chksum = text (padded 8 6 (((m.header before).head ++
        List.replicate 8 0x20 ++ (m.header before).tail).map BitVec.toNat).sum) ++ [0, 0x20] := by
      rw [append_assoc]
      rfl
    rw [hshape]
    exact octal_padded (hsum.trans_lt (by decide)) (by decide)

theorem forall_split_nil {p : List Member → Member → Prop} :
    ∀ front m back, [] = front ++ m :: back → p front m := by
  intro front m back hsplit
  simp at hsplit

theorem forall_split_cons {p : List Member → Member → Prop} (hfirst : p [] m)
    (hrest : ∀ front other back, ms = front ++ other :: back → p (m :: front) other) :
    ∀ front other back, m :: ms = front ++ other :: back → p front other := by
  intro front other back hsplit
  cases front with
  | nil =>
    obtain ⟨rfl, -⟩ := List.cons.inj hsplit
    exact hfirst
  | cons first front =>
    obtain ⟨rfl, hback⟩ := List.cons.inj hsplit
    exact hrest front other back hback

theorem archive_ustar (hms : ∀ front m back, ms = front ++ m :: back →
      Archivable (before ++ front) m ∧ Writable (before ++ front) m) :
    Archive before ms (ustar before ms) := by
  induction ms generalizing before with
  | nil => exact ⟨[], (append_nil _).symm⟩
  | cons m ms ih =>
    obtain ⟨ha, hw⟩ := hms [] m ms rfl
    rw [append_nil] at ha hw
    refine ⟨_, _, ha, ⟨m.header before, _, describes_header hw, length_replicate, rfl⟩, ih ?_, rfl⟩
    intro front other back hsplit
    have hlater := hms (m :: front) other back (by rw [hsplit, cons_append])
    rwa [append_assoc, singleton_append]

/-- An archive is read back as its members exactly when it has some and each of them is accepted:
there is room for it, and a hard link is to the first file whose path ends in the name linked to, or
to one with the same content. -/
theorem payloadTarOpen_iff {image : List Octet} (harchive : Archive [] ms image) :
    payloadTarOpen image root = .ok (entriesOf root [] ms) ↔
      ms ≠ [] ∧ ∀ front m back, ms = front ++ m :: back →
        Accepts (namesCap image.length) root front m :=
  ⟨accepts_of_open harchive, fun h ↦ open_of_accepts harchive h.1 h.2⟩

/-- The files `d/f` and `f`, and a hard link `g` to the second. -/
def shadowed : List Member :=
  [⟨[], [0x64, 0x2f, 0x66], 0o644, 0x30, .file [1]⟩, ⟨[], [0x66], 0o644, 0x30, .file [2]⟩,
    ⟨[], [0x67], 0o644, 0x31, .hardLink 1⟩]

/-- The same archive with the two files the other way round. -/
def resolved : List Member :=
  [⟨[], [0x66], 0o644, 0x30, .file [2]⟩, ⟨[], [0x64, 0x2f, 0x66], 0o644, 0x30, .file [1]⟩,
    ⟨[], [0x67], 0o644, 0x31, .hardLink 0⟩]

theorem archive_two_files : Archive [] shadowed (ustar [] shadowed) ∧
    Archive [] resolved (ustar [] resolved) := by
  constructor
  all_goals
    apply archive_ustar
    refine forall_split_cons ?_ (forall_split_cons ?_ (forall_split_cons ?_ forall_split_nil))
    · exact ⟨⟨by decide, by decide, by decide, by decide, .inl rfl⟩,
        ⟨by decide, by decide, by decide, by decide, by decide⟩⟩
    · exact ⟨⟨by decide, by decide, by decide, by decide, .inl rfl⟩,
        ⟨by decide, by decide, by decide, by decide, by decide⟩⟩
    · exact ⟨⟨by decide, by decide, by decide, by decide, rfl, _, _, rfl, rfl⟩,
        ⟨by decide, by decide, by decide, by decide, by decide⟩⟩

/-- The link gets the content of `d/f`, whose path ends in `f` as well. -/
theorem not_open_shadowed : Archive [] shadowed (ustar [] shadowed) ∧
    payloadTarOpen (ustar [] shadowed) [] ≠ .ok (entriesOf [] [] shadowed) := by
  refine ⟨archive_two_files.1, fun hopen ↦ ?_⟩
  obtain ⟨-, haccepts⟩ := accepts_of_open archive_two_files.1 hopen
  have hlink := (haccepts (shadowed.take 2) ⟨[], [0x67], 0o644, 0x31, .hardLink 1⟩ [] rfl).kind
  revert hlink
  decide

theorem payloadTarOpen_iff_resolved :
    payloadTarOpen (ustar [] resolved) [] = .ok (entriesOf [] [] resolved) := by
  refine (payloadTarOpen_iff archive_two_files.2).2 ⟨by decide, ?_⟩
  have hcap : 4096 ≤ namesCap (ustar [] resolved).length := Nat.le_add_left _ _
  generalize namesCap (ustar [] resolved).length = cap at hcap
  refine forall_split_cons ?_ (forall_split_cons ?_ (forall_split_cons ?_ forall_split_nil))
  · exact ⟨by decide, le_trans (by decide) hcap, show 1 ≤ maxEntryBytes by decide⟩
  · exact ⟨by decide, le_trans (by decide) hcap, show 1 ≤ maxEntryBytes by decide⟩
  · refine ⟨by decide, le_trans (by decide) hcap, ?_⟩
    change Option.map WorkEntry.content (linkSource _ _) = _
    decide

end S5LBox.Tools
