import S5LBox.Word
import S5LBox.Library.Buffer

/-!
# LZSS expansion

A flag octet governs eight items, each a literal or a pair that names a stretch of a ring of 4096
octets; every octet that is produced goes to the output and into the ring. The ring is a local
array of which only the first `4096 - 18` cells are set before the loop starts, so a cell of it is
empty until it is written and a read of an empty cell yields what the stack held there.
-/

namespace S5LBox.Lzss

open Option Function List

def lzssN : ℕ := 4096

def lzssF : ℕ := 18

def lzssThreshold : ℕ := 2

def space : Octet := 0x20

/-- An octet that was taken out of the ring: the length of the output then, where it was taken
from, and what had been written there. -/
structure Copy where
  count : ℕ
  position : ℕ
  cell : Option Octet
  deriving DecidableEq

/-- The locals of `lzss_decompress`, with the copies out of the ring as a ghost. -/
structure Locals where
  pos : ℕ
  out : List Octet
  r : ℕ
  flags : ℕ
  ring : Buffer Octet (lzssN + lzssF - 1)
  copies : List Copy

/-- What a pass through the loop does: it goes around again or leaves. -/
inductive Pass where
  | again (s : Locals)
  | leave (s : Locals)

/-- The locals when the loop is entered: `memset` reaches `LZSS_N - LZSS_F` cells. -/
def Locals.start : Locals where
  pos := 0
  out := []
  r := lzssN - lzssF
  flags := 0
  ring := ⟨fun index ↦ if index < lzssN - lzssF then some space else none⟩
  copies := []

/-- `dst[out++] = c; ring[r++] = c; r &= LZSS_N - 1`. -/
def put (c : Octet) (s : Locals) : Option Locals :=
  (s.ring.write s.r c).map fun ring ↦
    { s with out := s.out ++ [c], ring := ring, r := (s.r + 1) % lzssN }

/-- The inner loop of a back-reference, with `count` octets to go. -/
def copyLoop (stack : ℕ → Octet) (cap i : ℕ) : ℕ → ℕ → Locals → Option Pass
  | _, 0, s => some (.again s)
  | k, count + 1, s =>
    let index := (i + k) % lzssN
    if index < lzssN + lzssF - 1 then
      let c := (s.ring.read index).getD (stack index)
      if cap ≤ s.out.length then some (.leave s)
      else
        let copy := ⟨s.out.length, index, s.ring.read index⟩
        (put c { s with copies := s.copies ++ [copy] }).bind (copyLoop stack cap i (k + 1) count)
    else none

/-- A literal or a back-reference. An octet outside of the source has no value. -/
def item (stack : ℕ → Octet) (src : List Octet) (cap : ℕ) (s : Locals) : Option Pass :=
  if s.flags % 2 = 1 then
    if src.length ≤ s.pos then some (.leave s)
    else src[s.pos]?.bind fun c ↦
      if cap ≤ s.out.length then some (.leave { s with pos := s.pos + 1 })
      else (put c { s with pos := s.pos + 1 }).map .again
  else if src.length ≤ s.pos + 1 then some (.leave s)
  else src[s.pos]?.bind fun i ↦ src[s.pos + 1]?.bind fun j ↦
    copyLoop stack cap (i.toNat + j.toNat / 16 * 256) 0 (j.toNat % 16 + lzssThreshold + 1)
      { s with pos := s.pos + 2 }

/-- A pass through the loop: a new flag octet when the last one is used up, then an item. -/
def pass (stack : ℕ → Octet) (src : List Octet) (cap : ℕ) (s : Locals) : Option Pass :=
  let flags := s.flags / 2
  if flags / 256 % 2 = 0 then
    if src.length ≤ s.pos then some (.leave { s with flags := flags })
    else src[s.pos]?.bind fun b ↦
      item stack src cap { s with pos := s.pos + 1, flags := b.toNat + 0xff00 }
  else item stack src cap { s with flags := flags }

def loop (stack : ℕ → Octet) (src : List Octet) (cap : ℕ) : ℕ → Locals → Option Locals
  | 0, _ => none
  | fuel + 1, s =>
    match pass stack src cap s with
    | none => none
    | some (.leave s) => some s
    | some (.again s) => loop stack src cap fuel s

/-- `lzss_decompress` into a buffer of `cap` octets, where `stack` is what the memory of the ring
held before the call. -/
def lzssDecompress (stack : ℕ → Octet) (src : List Octet) (cap : ℕ) : Option Locals :=
  loop stack src cap (src.length + 1) .start

/-- Where an octet of the output comes from. -/
inductive Source where
  | octet (c : Octet)
  | ring (position : ℕ)
  deriving DecidableEq

/-- The flags of an octet, the lowest bit first. -/
def flagBits (b : Octet) : List Bool := (List.range 8).map b.toNat.testBit

/-- The stretch of the ring that a back-reference names. -/
def stretch (i j : Octet) : List Source :=
  (List.range (j.toNat % 16 + lzssThreshold + 1)).map fun k ↦
    .ring ((i.toNat + j.toNat / 16 * 256 + k) % lzssN)

/-- The sources of the output one by one, with the flags of the current octet that are not used
yet. An item that is cut off ends the stream. -/
def sources : List Bool → List Octet → List Source
  | _, [] => []
  | [], b :: rest => sources (flagBits b) rest
  | true :: bits, c :: rest => .octet c :: sources bits rest
  | false :: _, [_] => []
  | false :: bits, i :: j :: rest => stretch i j ++ sources bits rest

def Source.value (ring : ℕ → Octet) : Source → Octet
  | .octet c => c
  | .ring position => ring position

/-- The expansion of Okumura: every octet that is put out goes into the ring as well. -/
def expand (ring : ℕ → Octet) (r : ℕ) : List Source → List Octet
  | [] => []
  | source :: rest =>
    source.value ring ::
      expand (Function.update ring r (source.value ring)) ((r + 1) % lzssN) rest

/-- What a stream stands for: the ring is all spaces to begin with. -/
def reference (src : List Octet) : List Octet :=
  expand (fun _ ↦ space) (lzssN - lzssF) (sources [] src)

/-- No octet within the capacity is taken from the last cells of the ring before the output has
reached them. -/
def Settled (src : List Octet) (cap : ℕ) : Prop :=
  ∀ count position, count < cap → (sources [] src)[count]? = some (.ring position) →
    position < lzssN - lzssF + count

/-- The call expands its source: it returns without an access outside of the source, its output is
what the source stands for up to the capacity, and whatever it copies is a space from the start or
an octet it had put out before. -/
def Expands (stack : ℕ → Octet) (src : List Octet) (cap : ℕ) : Prop :=
  ∃ s, lzssDecompress stack src cap = some s ∧ s.out.length ≤ cap ∧
    s.out = (reference src).take cap ∧
    ∀ copy ∈ s.copies, ∃ c, copy.cell = some c ∧ (c = space ∨ c ∈ s.out.take copy.count)

/-- `flags` holds the flags of an octet from some bit on, with the marks above them. -/
def Marked (flags : ℕ) (bits : List Bool) : Prop :=
  ∃ (b : Octet) (used : ℕ), used ≤ 8 ∧ flags = (b.toNat + 0xff00) / 2 ^ used ∧
    bits = (flagBits b).drop used

theorem marked_octet (b : Octet) : Marked (b.toNat + 0xff00) (flagBits b) :=
  ⟨b, 0, Nat.zero_le _, (Nat.div_one _).symm, rfl⟩

theorem Marked.cases {flags : ℕ} {bits : List Bool} (h : Marked flags bits) :
    (flags / 256 % 2 = 0 ∧ bits = []) ∨
      (flags / 256 % 2 = 1 ∧ ∃ bit rest, bits = bit :: rest ∧ (flags % 2 = 1 ↔ bit = true) ∧
        Marked (flags / 2) rest) := by
  obtain ⟨b, used, hused, rfl, rfl⟩ := h
  have hb := b.isLt
  rcases Nat.lt_or_ge used 8 with hlt | hge
  case inr =>
    obtain rfl : used = 8 := by omega
    exact .inl ⟨by omega, rfl⟩
  refine .inr ⟨?_, b.toNat.testBit used, (flagBits b).drop (used + 1), ?_, ?_, ?_⟩
  · interval_cases used <;> omega
  · interval_cases used <;> rfl
  · rw [Nat.testBit_eq_decide_div_mod_eq, decide_eq_true_eq]
    interval_cases used <;> omega
  · exact ⟨b, used + 1, hlt, by rw [Nat.div_div_eq_div_mul, pow_succ], rfl⟩

/-- The contents of the ring when the loop is entered. -/
def entered (stack : ℕ → Octet) (index : ℕ) : Octet :=
  if index < lzssN - lzssF then space else stack index

/-- A copy is one that the stream asks for, and its cell tells what had been written. -/
structure Copy.Sound (src out : List Octet) (copy : Copy) : Prop where
  count_lt : copy.count < out.length
  asked : (sources [] src)[copy.count]? = some (.ring copy.position)
  written : copy.cell.isSome ↔ copy.position < lzssN - lzssF + copy.count
  octet : ∀ c, copy.cell = some c → c = space ∨ c ∈ out.take copy.count

/-- The locals in the middle of an expansion with `rest` to come, where `ring` is what a read of
the ring yields. -/
structure Stands (stack : ℕ → Octet) (src : List Octet) (cap : ℕ) (ring : ℕ → Octet)
    (rest : List Source) (s : Locals) : Prop where
  whole : expand (entered stack) (lzssN - lzssF) (sources [] src) = s.out ++ expand ring s.r rest
  rest : (sources [] src).drop s.out.length = rest
  length_le : s.out.length ≤ cap
  r : s.r = (lzssN - lzssF + s.out.length) % lzssN
  read : ∀ p, p < lzssN → (s.ring.read p).getD (stack p) = ring p
  written : ∀ p, p < lzssN → ((s.ring.read p).isSome ↔ p < lzssN - lzssF + s.out.length)
  octet : ∀ p c, p < lzssN → s.ring.read p = some c → c = space ∨ c ∈ s.out
  sound : ∀ copy ∈ s.copies, copy.Sound src s.out
  complete : ∀ count position, count < s.out.length →
    (sources [] src)[count]? = some (.ring position) →
    ∃ copy ∈ s.copies, copy.count = count ∧ copy.position = position

/-- The locals when the loop was left. -/
structure Ended (stack : ℕ → Octet) (src : List Octet) (cap : ℕ) (s : Locals) : Prop where
  out : s.out = (expand (entered stack) (lzssN - lzssF) (sources [] src)).take cap
  length_le : s.out.length ≤ cap
  sound : ∀ copy ∈ s.copies, copy.Sound src s.out
  complete : ∀ count position, count < cap → (sources [] src)[count]? = some (.ring position) →
    ∃ copy ∈ s.copies, copy.count = count ∧ copy.position = position

variable {stack ring : ℕ → Octet} {src : List Octet} {cap : ℕ} {rest : List Source} {s s' : Locals}

theorem Stands.congr (h : Stands stack src cap ring rest s) (hout : s'.out = s.out)
    (hr : s'.r = s.r) (hring : s'.ring = s.ring) (hcopies : s'.copies = s.copies) :
    Stands stack src cap ring rest s' := by
  obtain ⟨pos, out, r, flags, cells, copies⟩ := s
  obtain ⟨pos', out', r', flags', cells', copies'⟩ := s'
  dsimp only at hout hr hring hcopies
  subst hout hr hring hcopies
  exact ⟨h.whole, h.rest, h.length_le, h.r, h.read, h.written, h.octet, h.sound, h.complete⟩

theorem Copy.Sound.mono {out more : List Octet} {copy : Copy} (h : copy.Sound src out) :
    copy.Sound src (out ++ more) where
  count_lt := by
    rw [length_append]
    exact Nat.lt_add_right _ h.count_lt
  asked := h.asked
  written := h.written
  octet c hc := by
    rw [take_append_of_le_length h.count_lt.le]
    exact h.octet c hc

theorem Stands.next {source : Source} (h : Stands stack src cap ring (source :: rest) s) :
    (sources [] src)[s.out.length]? = some source := by
  have hget : ((sources [] src).drop s.out.length)[0]? = (sources [] src)[s.out.length]? :=
    getElem?_drop
  rw [h.rest] at hget
  exact hget.symm

theorem Stands.put {source : Source} {copies : List Copy}
    (h : Stands stack src cap ring (source :: rest) s) (hcap : s.out.length < cap)
    (hcopies : copies = s.copies ++ match source with
      | .octet _ => []
      | .ring position => [⟨s.out.length, position, s.ring.read position⟩])
    (hposition : ∀ position, source = .ring position → position < lzssN) :
    ∃ s', put (source.value ring) { s with copies := copies } = some s' ∧
      s'.pos = s.pos ∧ s'.flags = s.flags ∧ s'.out.length = s.out.length + 1 ∧
      Stands stack src cap (Function.update ring s.r (source.value ring)) rest s' := by
  have hr := h.r
  have hsize : s.r < lzssN + lzssF - 1 := by
    unfold lzssN lzssF at hr ⊢
    omega
  obtain ⟨cells, hwrite⟩ : ∃ cells, s.ring.write s.r (source.value ring) = some cells :=
    Buffer.exists_write hsize
  refine ⟨_, congrArg (Option.map _) hwrite, rfl, rfl, length_append, ?_⟩
  refine ⟨?_, ?_, ?_, ?_, ?_, ?_, ?_, ?_, ?_⟩
  · rw [append_assoc]
    exact h.whole
  · rw [length_append, length_singleton, ← drop_drop, h.rest]
    rfl
  · rw [length_append]
    exact hcap
  · rw [length_append, length_singleton]
    change (s.r + 1) % lzssN = _
    rw [h.r, Nat.mod_add_mod, add_assoc]
  · intro p hp
    rw [Buffer.read_write hwrite]
    by_cases hsame : p = s.r
    · rw [if_pos hsame, hsame, update_self]
      rfl
    · rw [if_neg hsame, update_of_ne hsame]
      exact h.read p hp
  · intro p hp
    have hold := h.written p hp
    rw [Buffer.read_write hwrite, length_append, length_singleton]
    change _ ↔ p < lzssN - lzssF + (s.out.length + 1)
    by_cases hsame : p = s.r
    · rw [if_pos hsame]
      refine iff_of_true rfl ?_
      unfold lzssN lzssF at *
      omega
    · rw [if_neg hsame, hold]
      unfold lzssN lzssF at *
      omega
  · intro p c hp
    rw [Buffer.read_write hwrite]
    by_cases hsame : p = s.r
    · rw [if_pos hsame]
      intro hc
      obtain rfl := Option.some.inj hc
      exact .inr (mem_append_right _ (mem_singleton_self _))
    · rw [if_neg hsame]
      intro hc
      exact (h.octet p c hp hc).imp_right (mem_append_left _)
  · intro copy hmem
    rw [hcopies] at hmem
    rcases mem_append.1 hmem with hold | hnew
    · exact (h.sound copy hold).mono
    cases source with
    | octet _ => cases hnew
    | ring position =>
      obtain rfl := mem_singleton.1 hnew
      have hp := hposition position rfl
      refine ⟨?_, h.next, h.written position hp, ?_⟩
      · rw [length_append]
        exact Nat.lt_succ_self _
      · intro c hc
        rw [take_left']
        · exact h.octet position c hp hc
        · rfl
  · intro count position hcount hget
    rw [length_append, length_singleton] at hcount
    rw [hcopies]
    rcases Nat.lt_succ_iff_lt_or_eq.1 hcount with hlt | rfl
    · obtain ⟨copy, hmem, heq⟩ := h.complete count position hlt hget
      exact ⟨copy, mem_append_left _ hmem, heq⟩
    · rw [h.next] at hget
      obtain rfl := Option.some.inj hget
      exact ⟨_, mem_append_right _ (mem_singleton_self _), rfl, rfl⟩

theorem Stands.ended_full (h : Stands stack src cap ring rest s) (hcap : cap ≤ s.out.length) :
    Ended stack src cap s where
  out := by
    obtain rfl := Nat.le_antisymm hcap h.length_le
    rw [h.whole, take_left']
    rfl
  length_le := h.length_le
  sound := h.sound
  complete count position hcount := h.complete count position (hcount.trans_le hcap)

theorem Stands.ended_nil (h : Stands stack src cap ring [] s) : Ended stack src cap s where
  out := by
    rw [h.whole, expand, append_nil, take_of_length_le h.length_le]
  length_le := h.length_le
  sound := h.sound
  complete count position _ hget := by
    refine h.complete count position ?_ hget
    have hnone := drop_eq_nil_iff.1 h.rest
    exact (List.getElem?_eq_some_iff.1 hget).1.trans_le hnone

/-- A pass ends the expansion or leaves `rest` to come, at `pos` and with `flags`. -/
def Pass.Leads (stack : ℕ → Octet) (src : List Octet) (cap : ℕ) (rest : List Source)
    (pos flags : ℕ) : Pass → Prop
  | .again s => s.pos = pos ∧ s.flags = flags ∧ ∃ ring, Stands stack src cap ring rest s
  | .leave s => Ended stack src cap s

theorem copyLoop_leads {i k count : ℕ} (h : Stands stack src cap ring
      ((List.range' k count).map (fun k ↦ .ring ((i + k) % lzssN)) ++ rest) s) :
    ∃ p, copyLoop stack cap i k count s = some p ∧ p.Leads stack src cap rest s.pos s.flags := by
  induction count generalizing k s ring with
  | zero => exact ⟨_, rfl, rfl, rfl, ring, h⟩
  | succ count ih =>
    have hlt : (i + k) % lzssN < lzssN := Nat.mod_lt _ (by decide)
    have hsize : (i + k) % lzssN < lzssN + lzssF - 1 := hlt.trans (by decide)
    rw [copyLoop]
    dsimp only
    rw [if_pos hsize]
    by_cases hcap : cap ≤ s.out.length
    · rw [if_pos hcap]
      exact ⟨_, rfl, h.ended_full hcap⟩
    · rw [if_neg hcap, h.read _ hlt]
      obtain ⟨s', hput, hpos, hflags, -, hnext⟩ :=
        h.put (Nat.lt_of_not_le hcap) rfl (fun position heq ↦ by cases heq; exact hlt)
      obtain ⟨p, hrun, hleads⟩ := ih hnext
      rw [hpos, hflags] at hleads
      refine ⟨p, ?_, hleads⟩
      rw [← hrun]
      exact congrArg (Option.bind · _) hput

theorem item_leads {bit : Bool} {bits : List Bool} (hbit : s.flags % 2 = 1 ↔ bit = true)
    (hpos : s.pos ≤ src.length)
    (h : Stands stack src cap ring (sources (bit :: bits) (src.drop s.pos)) s) :
    ∃ p, item stack src cap s = some p ∧ ∃ pos, s.pos < pos ∧
      (p.Leads stack src cap (sources bits (src.drop pos)) pos s.flags ∧ pos ≤ src.length ∨
        ∃ s', p = .leave s' ∧ Ended stack src cap s') := by
  unfold item
  cases bit with
  | true =>
    rw [if_pos (hbit.2 rfl)]
    by_cases hend : src.length ≤ s.pos
    · rw [if_pos hend]
      rw [drop_of_length_le hend] at h
      exact ⟨_, rfl, _, Nat.lt_succ_self _, .inr ⟨_, rfl, h.ended_nil⟩⟩
    have hlt := Nat.lt_of_not_le hend
    rw [drop_eq_getElem_cons hlt, sources] at h
    rw [if_neg hend, getElem?_eq_getElem hlt, bind_some]
    have hmoved : Stands stack src cap ring _ { s with pos := s.pos + 1 } :=
      h.congr rfl rfl rfl rfl
    by_cases hcap : cap ≤ s.out.length
    · rw [if_pos hcap]
      exact ⟨_, rfl, _, Nat.lt_succ_self _, .inr ⟨_, rfl, hmoved.ended_full hcap⟩⟩
    · rw [if_neg hcap]
      obtain ⟨s', hput, hpos', hflags, -, hnext⟩ :=
        hmoved.put (Nat.lt_of_not_le hcap) (append_nil _).symm (fun _ heq ↦ by cases heq)
      refine ⟨.again s', ?_, s.pos + 1, Nat.lt_succ_self _, .inl ⟨⟨hpos', hflags, _, hnext⟩, hlt⟩⟩
      exact congrArg (Option.map Pass.again) hput
  | false =>
    rw [if_neg fun hodd ↦ Bool.false_ne_true (hbit.1 hodd)]
    by_cases hend : src.length ≤ s.pos + 1
    · rw [if_pos hend]
      have hnil : sources (false :: bits) (src.drop s.pos) = [] := by
        rcases Nat.eq_or_lt_of_le hpos with heq | hlt
        · rw [heq, drop_length]
          rfl
        · rw [drop_eq_getElem_cons hlt, drop_of_length_le hend]
          rfl
      rw [hnil] at h
      exact ⟨_, rfl, _, Nat.lt_succ_self _, .inr ⟨_, rfl, h.ended_nil⟩⟩
    have hlt : s.pos + 1 < src.length := Nat.lt_of_not_le hend
    have hlt' : s.pos < src.length := Nat.lt_of_succ_lt hlt
    rw [drop_eq_getElem_cons hlt', drop_eq_getElem_cons hlt, sources, stretch, range_eq_range'] at h
    rw [if_neg hend, getElem?_eq_getElem hlt', bind_some, getElem?_eq_getElem hlt, bind_some]
    have hmoved : Stands stack src cap ring _ { s with pos := s.pos + 2 } :=
      h.congr rfl rfl rfl rfl
    obtain ⟨p, hrun, hleads⟩ := copyLoop_leads hmoved
    exact ⟨p, hrun, s.pos + 2, by omega, .inl ⟨hleads, hlt⟩⟩

theorem pass_leads {bits : List Bool}
    (hflags : Marked (s.flags / 2) bits ∨ s.flags / 2 / 256 % 2 = 0 ∧ bits = [])
    (hpos : s.pos ≤ src.length) (h : Stands stack src cap ring (sources bits (src.drop s.pos)) s) :
    ∃ p, pass stack src cap s = some p ∧ match p with
      | .leave s' => Ended stack src cap s'
      | .again s' => s.pos < s'.pos ∧ s'.pos ≤ src.length ∧ ∃ bits' ring',
          Marked (s'.flags / 2) bits' ∧
            Stands stack src cap ring' (sources bits' (src.drop s'.pos)) s' := by
  have hcases : (s.flags / 2 / 256 % 2 = 0 ∧ bits = []) ∨ _ :=
    hflags.elim Marked.cases Or.inl
  unfold pass
  dsimp only
  rcases hcases with ⟨hmark, rfl⟩ | ⟨hmark, bit, rest, rfl, hbit, hrest⟩
  · rw [if_pos hmark]
    by_cases hend : src.length ≤ s.pos
    · rw [if_pos hend]
      rw [drop_of_length_le hend] at h
      have hended : Stands stack src cap ring [] { s with flags := s.flags / 2 } :=
        h.congr rfl rfl rfl rfl
      exact ⟨_, rfl, hended.ended_nil⟩
    have hlt := Nat.lt_of_not_le hend
    rw [drop_eq_getElem_cons hlt, sources] at h
    rw [if_neg hend, getElem?_eq_getElem hlt, bind_some]
    rcases (marked_octet src[s.pos]).cases with ⟨-, hnil⟩ | ⟨-, bit, rest, hbits, hbit, hrest⟩
    · cases hnil
    rw [hbits] at h
    obtain ⟨p, hrun, pos, hless, hleads⟩ := item_leads
      (s := { s with pos := s.pos + 1, flags := src[s.pos].toNat + 0xff00 }) hbit hlt
      (h.congr rfl rfl rfl rfl)
    refine ⟨p, hrun, ?_⟩
    rcases hleads with ⟨hleads, hle⟩ | ⟨s', rfl, hended⟩
    · cases p with
      | leave s' => exact hleads
      | again s' =>
        obtain ⟨rfl, hflags', ring', hstands⟩ := hleads
        exact ⟨Nat.lt_of_succ_lt hless, hle, rest, ring', hflags' ▸ hrest, hstands⟩
    · exact hended
  · rw [if_neg (by omega)]
    obtain ⟨p, hrun, pos, hless, hleads⟩ := item_leads
      (s := { s with flags := s.flags / 2 }) hbit hpos (h.congr rfl rfl rfl rfl)
    refine ⟨p, hrun, ?_⟩
    rcases hleads with ⟨hleads, hle⟩ | ⟨s', rfl, hended⟩
    · cases p with
      | leave s' => exact hleads
      | again s' =>
        obtain ⟨rfl, hflags', ring', hstands⟩ := hleads
        exact ⟨hless, hle, rest, ring', hflags' ▸ hrest, hstands⟩
    · exact hended

theorem loop_ends {bits : List Bool} {fuel : ℕ}
    (hflags : Marked (s.flags / 2) bits ∨ s.flags / 2 / 256 % 2 = 0 ∧ bits = [])
    (hpos : s.pos ≤ src.length) (hfuel : src.length - s.pos < fuel)
    (h : Stands stack src cap ring (sources bits (src.drop s.pos)) s) :
    ∃ s', loop stack src cap fuel s = some s' ∧ Ended stack src cap s' := by
  induction fuel generalizing s bits ring with
  | zero => cases hfuel
  | succ fuel ih =>
    obtain ⟨p, hrun, hleads⟩ := pass_leads hflags hpos h
    rw [loop, hrun]
    cases p with
    | leave s' => exact ⟨s', rfl, hleads⟩
    | again s' =>
      obtain ⟨hless, hle, bits', ring', hmarked, hstands⟩ := hleads
      exact ih (.inl hmarked) hle (by omega) hstands

theorem stands_start : Stands stack src cap (entered stack) (sources [] src) .start where
  whole := rfl
  rest := rfl
  length_le := Nat.zero_le _
  r := rfl
  read p hp := by
    change (if p < lzssN + lzssF - 1 then
      (if p < lzssN - lzssF then some space else none) else none).getD (stack p) = _
    rw [if_pos (hp.trans (by decide)), entered]
    split <;> rfl
  written p hp := by
    change (if p < lzssN + lzssF - 1 then
      (if p < lzssN - lzssF then some space else none) else none).isSome ↔ _
    rw [if_pos (hp.trans (by decide))]
    by_cases hlt : p < lzssN - lzssF
    · rw [if_pos hlt]
      exact iff_of_true rfl hlt
    · rw [if_neg hlt]
      exact iff_of_false Bool.false_ne_true hlt
  octet p c hp hc := by
    change (if p < lzssN + lzssF - 1 then
      (if p < lzssN - lzssF then some space else none) else none) = _ at hc
    rw [if_pos (hp.trans (by decide))] at hc
    split at hc
    case isTrue => exact .inl (Option.some.inj hc).symm
    case isFalse => cases hc
  sound copy hmem := by cases hmem
  complete count position hcount := by cases hcount

/-- The call returns on every source, and its output is the expansion from the ring as it was. -/
theorem lzssDecompress_ends (stack : ℕ → Octet) (src : List Octet) (cap : ℕ) :
    ∃ s, lzssDecompress stack src cap = some s ∧ Ended stack src cap s :=
  loop_ends (.inr ⟨rfl, rfl⟩) (Nat.zero_le _) (Nat.lt_succ_self _) stands_start

theorem sources_lt {position : ℕ} (bits : List Bool) (data : List Octet)
    (h : .ring position ∈ sources bits data) : position < lzssN := by
  induction bits, data using sources.induct with
  | case1 bits => simp only [sources, not_mem_nil] at h
  | case2 b rest ih => exact ih (by rwa [sources] at h)
  | case3 bits c rest ih =>
    rw [sources] at h
    exact ih ((mem_cons.1 h).resolve_left (by intro hcontra; cases hcontra))
  | case4 bits i => simp only [sources, not_mem_nil] at h
  | case5 bits i j rest ih =>
    rw [sources] at h
    rcases mem_append.1 h with hstretch | hrest
    · obtain ⟨k, -, hk⟩ := mem_map.1 hstretch
      obtain rfl := Source.ring.inj hk
      exact Nat.mod_lt _ (by decide)
    · exact ih hrest

theorem expand_congr {ring ring' : ℕ → Octet} {count : ℕ} (rest : List Source)
    (hagree : ∀ p, p < lzssN → p < lzssN - lzssF + count → ring p = ring' p)
    (hlt : ∀ position, .ring position ∈ rest → position < lzssN)
    (hsettled : ∀ k position, count + k < cap → rest[k]? = some (.ring position) →
      position < lzssN - lzssF + (count + k)) :
    (expand ring ((lzssN - lzssF + count) % lzssN) rest).take (cap - count) =
      (expand ring' ((lzssN - lzssF + count) % lzssN) rest).take (cap - count) := by
  induction rest generalizing ring ring' count with
  | nil => rfl
  | cons source rest ih =>
    rcases Nat.lt_or_ge count cap with hcap | hcap
    case inr => rw [Nat.sub_eq_zero_of_le hcap, take_zero, take_zero]
    have hvalue : source.value ring = source.value ring' := by
      cases source with
      | octet c => rfl
      | ring position =>
        exact hagree position (hlt position mem_cons_self) (hsettled 0 position hcap rfl)
    have hsub : cap - count = cap - (count + 1) + 1 := by omega
    rw [expand, expand, hvalue, hsub, take_succ_cons, take_succ_cons, Nat.mod_add_mod, add_assoc]
    refine congrArg _ (ih ?_ (fun position hmem ↦ hlt position (mem_cons_of_mem _ hmem)) ?_)
    · intro p hp hwritten
      by_cases hsame : p = (lzssN - lzssF + count) % lzssN
      · rw [hsame, update_self, update_self]
      · rw [update_of_ne hsame, update_of_ne hsame]
        refine hagree p hp ?_
        unfold lzssN lzssF at *
        omega
    · intro k position hk hget
      have hnext := hsettled (k + 1) position (by omega) (by rwa [getElem?_cons_succ])
      omega

/-- The call expands its source exactly if the source does not reach for cells of the ring that
were never set. -/
theorem lzssDecompress_expands_iff (stack : ℕ → Octet) (src : List Octet) (cap : ℕ) :
    Expands stack src cap ↔ Settled src cap := by
  obtain ⟨s, hrun, hended⟩ := lzssDecompress_ends stack src cap
  constructor
  · rintro ⟨s', hrun', -, -, hcopies⟩ count position hcount hget
    obtain rfl := Option.some.inj (hrun.symm.trans hrun')
    obtain ⟨copy, hmem, rfl, rfl⟩ := hended.complete count position hcount hget
    obtain ⟨c, hc, -⟩ := hcopies copy hmem
    exact (hended.sound copy hmem).written.1 (isSome_iff_exists.2 ⟨c, hc⟩)
  · intro hsettled
    refine ⟨s, hrun, hended.length_le, ?_, ?_⟩
    · rw [hended.out]
      refine @expand_congr cap _ _ 0 (sources [] src) ?_ (fun position ↦ sources_lt [] src) ?_
      · intro p _ hp
        exact if_pos hp
      · intro k position hk hget
        rw [zero_add] at hk ⊢
        exact hsettled k position hk hget
    · intro copy hmem
      have hsound := hended.sound copy hmem
      have hcap := hsound.count_lt.trans_le hended.length_le
      obtain ⟨c, hc⟩ := isSome_iff_exists.1
        (hsound.written.2 (hsettled copy.count copy.position hcap hsound.asked))
      exact ⟨c, hc, hsound.octet c hc⟩

/-- A first item that names position 4078 puts out what the stack held. -/
theorem lzssDecompress_not_expands :
    (lzssDecompress (fun _ ↦ 0x41) [0x00, 0xee, 0xf0] 3).map (·.out) = some [0x41, 0x41, 0x41] ∧
    (lzssDecompress (fun _ ↦ 0x42) [0x00, 0xee, 0xf0] 3).map (·.out) = some [0x42, 0x42, 0x42] ∧
    (reference [0x00, 0xee, 0xf0]).take 3 = [0x20, 0x20, 0x20] ∧
    ¬∀ stack src cap, Expands stack src cap := by
  refine ⟨by decide +kernel, by decide +kernel, by decide +kernel, ?_⟩
  intro h
  obtain ⟨s, hrun, -, -, hcopies⟩ := h (fun _ ↦ 0x41) [0x00, 0xee, 0xf0] 3
  have hcopy : (lzssDecompress (fun _ ↦ 0x41) [0x00, 0xee, 0xf0] 3).map (·.copies) =
      some [⟨0, 4078, none⟩, ⟨1, 4079, none⟩, ⟨2, 4080, none⟩] := by
    decide +kernel
  rw [hrun] at hcopy
  have hlist : s.copies = _ := Option.some.inj hcopy
  obtain ⟨c, hc, -⟩ := hcopies ⟨0, 4078, none⟩ (hlist ▸ mem_cons_self)
  cases hc

end S5LBox.Lzss
