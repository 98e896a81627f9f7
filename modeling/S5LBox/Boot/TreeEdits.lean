import S5LBox.Boot.Bringup
import S5LBox.Boot.TreeParts

/-!
# Edits keep the tree

The edits of the bring-up as they change the blob, one after the other in any order. No edit
changes a part of a complete tree: it writes the value of a property or takes a slot of the memory
map. What it wrote is read back, and once is enough.
-/

namespace S5LBox.Boot

open Firmware

/-- The blob after octets were written in it. -/
def storeAt (b : List Octet) (edit : Edit) : List Octet :=
  b.take edit.1 ++ edit.2 ++ b.drop (edit.1 + edit.2.length)

/-- An edit of the tree; a key has no terminator in it. -/
inductive DtEdit
  | setU32 (path prop : List Octet) (value : ℕ)
  | setReg (path prop : List Octet) (base size : ℕ)
  | memmapAdd (key : List Octet) (text : (0 : Octet) ∉ key) (address size : ℕ)
  | unmatch (path : List Octet)

def memoryMap : List Octet := ascii "chosen/memory-map"

theorem zero_notMem_ramDisk : (0 : Octet) ∉ ascii "RAMDisk" := by decide

/-- The slot that an entry of the memory map takes. -/
def claimed (b key : List Octet) : Option ℕ :=
  match dtPath b memoryMap with
  | none => none
  | some node =>
    match dtHeader b node with
    | none => none
    | some (nProps, _) => slotLoop b key nProps (node + 8) none

/-- A slot holds an entry with the key, or is a placeholder that is free. -/
def IsSlot (b key : List Octet) (slot : ℕ) : Prop :=
  nameText b slot = key ∧ valueLen b slot = 8 ∨ isFreeSlot b slot (nameText b slot) = true

namespace DtEdit

def edits : DtEdit → List Octet → Option (List Edit)
  | setU32 path prop value, b => dtSetU32 b path prop value
  | setReg path prop base size, b => dtSetReg b path prop base size
  | memmapAdd key _ address size, b => dtMemmapAdd b key address size
  | unmatch path, b => dtUnmatch b path

/-- The blob after an edit; a failed one leaves it. -/
def apply (e : DtEdit) (b : List Octet) : List Octet :=
  match e.edits b with
  | none => b
  | some edits => edits.foldl storeAt b

/-- The node that is edited. -/
def path : DtEdit → List Octet
  | setU32 path _ _ => path
  | setReg path _ _ _ => path
  | memmapAdd _ _ _ _ => memoryMap
  | unmatch path => path

/-- The property that has the value afterwards. -/
def prop : DtEdit → List Octet
  | setU32 _ prop _ => prop
  | setReg _ prop _ _ => prop
  | memmapAdd key _ _ _ => key
  | unmatch _ => ascii "compatible"

/-- The octets that the value begins with afterwards. -/
def data : DtEdit → List Octet
  | setU32 _ _ value => LittleEndian.put 4 value
  | setReg _ _ base size => LittleEndian.put 4 base ++ LittleEndian.put 4 size
  | memmapAdd _ _ address size => LittleEndian.put 4 address ++ LittleEndian.put 4 size
  | unmatch _ => [0x78]

/-- The lengths of a value that is edited: all of it is written, except by an un-match. -/
def Fits : DtEdit → ℕ → Prop
  | unmatch path, vl => path ≠ [] ∧ vl ≠ 0
  | e, vl => vl = e.data.length

/-- Offsets in the named value, or in the name and the value of the claimed slot. -/
def Touches : DtEdit → List Octet → ℕ → Prop
  | memmapAdd key _ _ _, b, i => ∃ slot, claimed b key = some slot ∧ IsSlot b key slot ∧
      (slot ≤ i ∧ i < slot + dtNameLen ∨ slot + dtPropHdr ≤ i ∧ i < slot + dtPropHdr + 8)
  | e, b, i => ∃ p vl, propAt b e.path e.prop = some (p, vl) ∧ p ≤ i ∧ i < p + vl

/-- The walker reads the value that the edit writes. -/
def Reads (e : DtEdit) (b : List Octet) : Prop :=
  ∃ p vl, propAt b e.path e.prop = some (p, vl) ∧ e.Fits vl ∧ (b.drop p).take e.data.length = e.data

/-- In front of the claimed slot no property has the key and a value of another length. -/
def Alone : DtEdit → List Octet → Prop
  | memmapAdd key _ _ _, b => ∀ slot v vl, claimed b key = some slot →
      propAt b memoryMap key = some (v, vl) → vl = 8 ∨ slot + dtPropHdr ≤ v
  | _, _ => True

/-- What an edit keeps of a tree, and what it does to it. -/
structure Keeps (e : DtEdit) (b : List Octet) : Prop where
  failed : e.edits b = none → e.apply b = b
  length : (e.apply b).length = b.length
  parts : Boot.parts (e.apply b) = Boot.parts b
  apart : ∀ i, ¬e.Touches b i → (e.apply b)[i]? = b[i]?
  reads : (e.edits b).isSome → e.prop ≠ nameKey → e.Alone b → e.Reads (e.apply b)
  again : e.prop ≠ nameKey → e.apply (e.apply b) = e.apply b

end DtEdit

/-- The blob after some edits. -/
def dtRun (b : List Octet) (run : List DtEdit) : List Octet := run.foldl (fun b e ↦ e.apply b) b

variable {b : List Octet} {xs : List Part} {hi p len n i : ℕ} {edit : Edit} {data : List Octet}

theorem length_storeAt (h : edit.1 + edit.2.length ≤ b.length) :
    (storeAt b edit).length = b.length := by
  unfold storeAt
  simp only [List.length_append, List.length_take, List.length_drop]
  omega

theorem getElem?_storeAt (h : edit.1 + edit.2.length ≤ b.length)
    (hi : i < edit.1 ∨ edit.1 + edit.2.length ≤ i) : (storeAt b edit)[i]? = b[i]? := by
  have htake : (b.take edit.1).length = edit.1 := by
    rw [List.length_take]
    omega
  unfold storeAt
  rw [List.append_assoc]
  rcases hi with hi | hi
  · rw [List.getElem?_append_left (by omega), List.getElem?_take_of_lt hi]
  · rw [List.getElem?_append_right (by omega), List.getElem?_append_right (by omega),
      List.getElem?_drop, htake]
    congr 1
    omega

/-- Octets apart from a write stay. -/
theorem span_storeAt (h : edit.1 + edit.2.length ≤ b.length)
    (hapart : p + n ≤ edit.1 ∨ edit.1 + edit.2.length ≤ p) :
    ((storeAt b edit).drop p).take n = (b.drop p).take n := by
  apply List.ext_getElem?
  intro i
  by_cases hi : i < n
  · rw [List.getElem?_take_of_lt hi, List.getElem?_take_of_lt hi, List.getElem?_drop,
      List.getElem?_drop, getElem?_storeAt h (by omega)]
  · rw [List.getElem?_take_eq_none (by omega), List.getElem?_take_eq_none (by omega)]

theorem span_storeAt_self (h : p + data.length ≤ b.length) :
    ((storeAt b (p, data)).drop p).take data.length = data := by
  have htake : (b.take p).length = p := by
    rw [List.length_take]
    omega
  unfold storeAt
  rw [List.append_assoc, List.drop_left' htake, List.take_left' rfl]

theorem storeAt_of_span (h : (b.drop p).take data.length = data) : storeAt b (p, data) = b := by
  calc storeAt b (p, data)
      = b.take p ++ ((b.drop p).take data.length ++ (b.drop p).drop data.length) := by
        rw [h, List.drop_drop, ← List.append_assoc]
        rfl
    _ = b := by rw [List.take_append_drop, List.take_append_drop]

/-- Two writes side by side are one. -/
theorem storeAt_append (first second : List Octet) (h : p + (first ++ second).length ≤ b.length) :
    storeAt (storeAt b (p, first)) (p + first.length, second) = storeAt b (p, first ++ second) := by
  rw [List.length_append] at h
  have hfront : (b.take p ++ first).length = p + first.length := by
    rw [List.length_append, List.length_take]
    omega
  have htake : (storeAt b (p, first)).take (p + first.length) = b.take p ++ first :=
    List.take_left' hfront
  have hdrop : (storeAt b (p, first)).drop (p + first.length + second.length) =
      b.drop (p + first.length + second.length) := by
    rw [← List.drop_drop, show (storeAt b (p, first)).drop (p + first.length) =
      b.drop (p + first.length) from List.drop_left' hfront, List.drop_drop]
  calc storeAt (storeAt b (p, first)) (p + first.length, second)
      = b.take p ++ first ++ second ++ b.drop (p + first.length + second.length) := by
        rw [← htake, ← hdrop]
        rfl
    _ = storeAt b (p, first ++ second) := by
        unfold storeAt
        rw [List.length_append, ← Nat.add_assoc, List.append_assoc (b.take p)]

variable {length : ℕ} {b' : List Octet}

theorem window_overwrite_eq_storeAt (ram : ℕ → Octet) (start : ℕ) {place : ℕ}
    (h : place + data.length ≤ length) :
    Span.window (Span.overwrite ram (start + place) data) start length =
      storeAt (Span.window ram start length) (place, data) := by
  obtain ⟨rest, rfl⟩ := Nat.exists_eq_add_of_le h
  have hrest : Span.window (Span.overwrite ram (start + place) data)
      (start + (place + data.length)) rest = Span.window ram (start + (place + data.length)) rest :=
    Span.window_overwrite_of_disjoint (.inr (Nat.add_assoc start place _).le)
  rw [Span.window_append, Span.window_overwrite_append, hrest, storeAt,
    Span.take_window _ _ _ _ (by omega), Span.drop_window _ _ _ _ (by omega),
    Nat.add_sub_cancel_left]

theorem storeEdits_tree {plan : Plan} {edits : List Edit} {s t : Bringup}
    (hwithin : Within length edits) (h : storeEdits plan edits s = (.ok (), t)) :
    t.tree plan length = edits.foldl storeAt (s.tree plan length) := by
  induction edits generalizing s with
  | nil =>
    cases h
    rfl
  | cons edit edits ih =>
    obtain ⟨place, octets⟩ := edit
    obtain ⟨hplace, hrest⟩ := List.forall_mem_cons.1 hwithin
    obtain ⟨_, _, hstore, htail⟩ := Attempt.bind_ok.1 h
    cases hstore
    rw [ih hrest htail, List.foldl_cons]
    exact congrArg (List.foldl storeAt · edits) (window_overwrite_eq_storeAt _ _ hplace)

theorem patch_tree {plan : Plan} {find : List Octet → Option (List Edit)} {s t : Bringup}
    (hwithin : ∀ b edits, find b = some edits → Within b.length edits)
    (h : patch plan length find s = (.ok (), t)) : ∃ edits, find (s.tree plan length) = some edits ∧
      t.tree plan length = edits.foldl storeAt (s.tree plan length) := by
  obtain ⟨_, _, hget, hrest⟩ := Attempt.bind_ok.1 h
  cases hget
  obtain ⟨edits, _, hexpect, hstore⟩ := Attempt.bind_ok.1 hrest
  obtain ⟨hfind, rfl⟩ := Attempt.expect_ok.1 hexpect
  have hinside := hwithin _ _ hfind
  rw [Bringup.tree, Span.length_window] at hinside
  exact ⟨edits, hfind, storeEdits_tree hinside hstore⟩

/-- A write of the name field of a property, or within its value. -/
def Inside (p len : ℕ) (edit : Edit) : Prop :=
  edit.1 = p ∧ edit.2.length = dtNameLen ∨
    p + dtPropHdr ≤ edit.1 ∧ edit.1 + edit.2.length ≤ p + dtPropHdr + len

variable {q m : ℕ}

section

variable (h : Inside p len edit)

include h

theorem Inside.bounds : p ≤ edit.1 ∧ edit.1 + edit.2.length ≤ p + dtPropHdr + len := by
  have hsize : dtPropHdr = dtNameLen + 4 := rfl
  rcases h with ⟨hstart, hlength⟩ | ⟨hstart, hend⟩ <;> omega

omit h in
theorem property_fits (hb : parts b = some (xs, hi)) (hp : .property p len ∈ xs) :
    p + dtPropHdr + len ≤ b.length := by
  obtain ⟨rfl, hend⟩ := partsFrom_property hb hp
  obtain ⟨next, hnext⟩ := Option.isSome_iff_exists.1 hend
  exact value_le hnext

theorem Inside.within (hb : parts b = some (xs, hi)) (hp : .property p len ∈ xs) :
    edit.1 + edit.2.length ≤ b.length :=
  h.bounds.2.trans (property_fits hb hp)

theorem Inside.span (hb : parts b = some (xs, hi)) (hp : .property p len ∈ xs) {x : Part}
    (hx : x ∈ xs) (hne : Part.property p len ≠ x) (hstart : x.start ≤ q) (hstop : q + n ≤ x.stop) :
    ((storeAt b edit).drop q).take n = (b.drop q).take n := by
  apply span_storeAt (h.within hb hp)
  have hbounds := h.bounds
  have hpad := le_align4 len
  have hstop' : (Part.property p len).stop = p + dtPropHdr + align4 len := rfl
  have hstart' : (Part.property p len).start = p := rfl
  rcases ((partsFrom_tiles hb).apart hp hx).resolve_left hne with hapart | hapart <;> omega

theorem Inside.kept (hb : parts b = some (xs, hi)) (hp : .property p len ∈ xs) :
    ∀ x ∈ xs, x.Kept b (storeAt b edit) := by
  intro x hx
  have hlength := length_storeAt (h.within hb hp)
  cases x with
  | node off nProps nChildren =>
    have hword : ∀ word, off ≤ word → word + 4 ≤ off + 8 →
        dtLd32 (storeAt b edit) word = dtLd32 b word := fun word hfrom hto ↦
      congrArg LittleEndian.get (h.span hb hp hx (nomatch ·) hfrom hto)
    show dtHeader (storeAt b edit) off = dtHeader b off
    unfold dtHeader
    rw [hlength, hword off le_rfl (by omega), hword (off + 4) (by omega) le_rfl]
  | property q m =>
    have hword : dtLd32 (storeAt b edit) (q + dtNameLen) = dtLd32 b (q + dtNameLen) := by
      apply congrArg LittleEndian.get
      have hsize : dtPropHdr = dtNameLen + 4 := rfl
      by_cases hne : Part.property p len = .property q m
      · cases hne
        apply span_storeAt (h.within hb hp)
        rcases h with ⟨hstart, hlen⟩ | ⟨hstart, -⟩ <;> omega
      · have hpad := le_align4 m
        refine h.span hb hp hx hne (Nat.le_add_right _ _) ?_
        show q + dtNameLen + 4 ≤ q + dtPropHdr + align4 m
        omega
    have hlen : valueLen (storeAt b edit) q = valueLen b q := by
      unfold valueLen
      rw [hword]
    refine ⟨?_, hlen⟩
    unfold dtPropEnd
    rw [hlength, hlen]

theorem Inside.parts_eq (hb : parts b = some (xs, hi)) (hp : .property p len ∈ xs) :
    parts (storeAt b edit) = some (xs, hi) :=
  partsFrom_congr hb (h.kept hb hp)

omit h in
theorem nameText_congr (h : (b'.drop q).take dtNameLen = (b.drop q).take dtNameLen) :
    nameText b' q = nameText b q := by
  rw [nameText, nameText, h]

theorem Inside.other (hb : parts b = some (xs, hi)) (hp : .property p len ∈ xs)
    (hq : .property q m ∈ xs) (hne : q ≠ p) : nameText (storeAt b edit) q = nameText b q ∧
      ((storeAt b edit).drop (q + dtPropHdr)).take m = (b.drop (q + dtPropHdr)).take m := by
  have hparts : Part.property p len ≠ .property q m := fun heq ↦ hne (by cases heq; rfl)
  have hpad := le_align4 m
  have hsize : dtPropHdr = dtNameLen + 4 := rfl
  have hstop : (Part.property q m).stop = q + dtPropHdr + align4 m := rfl
  exact ⟨nameText_congr (h.span hb hp hq hparts le_rfl (by omega)),
    h.span hb hp hq hparts (Nat.le_add_right _ _) (by omega)⟩

theorem Inside.alike (hb : parts b = some (xs, hi)) (hp : .property p len ∈ xs)
    (hname : nameText b p ≠ nameKey) (hname' : nameText (storeAt b edit) p ≠ nameKey) :
    ∀ x ∈ xs, x.Alike b (storeAt b edit) := by
  intro x hx
  have hkept := h.kept hb hp x hx
  cases x with
  | node off nProps nChildren => exact hkept
  | property q m =>
    refine ⟨hkept, ?_⟩
    by_cases hne : q = p
    · subst hne
      exact ⟨iff_of_false hname' hname, fun heq ↦ absurd heq hname⟩
    · obtain ⟨hsame, hvalue⟩ := h.other hb hp hx hne
      exact ⟨by rw [hsame], fun _ ↦ hvalue⟩

end

theorem nameText_storeAt (hb : parts b = some (xs, hi)) (hp : .property p len ∈ xs)
    (hstart : p + dtPropHdr ≤ edit.1) (hend : edit.1 + edit.2.length ≤ p + dtPropHdr + len)
    (hq : .property q m ∈ xs) : nameText (storeAt b edit) q = nameText b q := by
  have hin : Inside p len edit := .inr ⟨hstart, hend⟩
  by_cases hne : q = p
  · subst hne
    have hsize : dtPropHdr = dtNameLen + 4 := rfl
    exact nameText_congr (span_storeAt (hin.within hb hp) (.inl (by omega)))
  · exact (hin.other hb hp hq hne).1

variable {path prop : List Octet} {v vl : ℕ}

theorem propAt_eq_some (hb : parts b = some (xs, hi)) (h : propAt b path prop = some (v, vl)) :
    ∃ p, v = p + dtPropHdr ∧ .property p vl ∈ xs ∧ nameText b p = prop := by
  obtain ⟨node, hpath, hprop⟩ := Option.bind_eq_some_iff.1 h
  obtain ⟨nProps, nChildren, props, start, hheader, hprops, hsub, -⟩ :=
    (isNode_dtPath hb hpath).props b
  rw [dtProp_eq hheader hprops, Option.map_eq_some_iff] at hprop
  obtain ⟨x, hx, heq⟩ := hprop
  have hmem := List.mem_of_find?_eq_some hx
  have hname : nameText b x.start = prop := by simpa using List.find?_some hx
  obtain ⟨p, rfl, -⟩ := gather_property hprops x hmem
  cases heq
  exact ⟨p, rfl, hsub hmem, hname⟩

theorem propAt_congr (hb : parts b = some (xs, hi)) (halike : ∀ x ∈ xs, x.Alike b b')
    (hnames : ∀ q m, .property q m ∈ xs → nameText b' q = nameText b q) :
    propAt b' path prop = propAt b path prop := by
  unfold propAt
  rw [dtPath_alike hb halike]
  rcases hpath : dtPath b path with _ | node
  · rfl
  obtain ⟨nProps, nChildren, props, start, hheader, hprops, hsub, hother⟩ :=
    (isNode_dtPath hb hpath).props b'
  obtain ⟨hheader', hprops'⟩ := hother fun x hx ↦ (halike x hx).kept
  rw [Option.bind_some, Option.bind_some, dtProp_eq hheader hprops, dtProp_eq hheader' hprops']
  congr 1
  apply List.find?_congr
  rintro x hx
  obtain ⟨q, rfl, -⟩ := gather_property hprops x hx
  exact congrArg (fun text ↦ decide (text = prop)) (hnames q _ (hsub hx))

namespace DtEdit

variable {e : DtEdit}

def IsValue : DtEdit → Prop
  | memmapAdd _ _ _ _ => False
  | _ => True

theorem length_data_le (he : e.IsValue) (h : e.Fits vl) : e.data.length ≤ vl := by
  cases e with
  | memmapAdd key text address size => exact he.elim
  | unmatch path => exact Nat.one_le_iff_ne_zero.2 h.2
  | setU32 path prop value => exact le_of_eq h.symm
  | setReg path prop base size => exact le_of_eq h.symm

theorem apply_of_none (h : e.edits b = none) : e.apply b = b := by
  unfold apply
  rw [h]

theorem apply_value (he : e.IsValue) (h : propAt b e.path e.prop = some (v, vl))
    (hfit : e.Fits vl) : (e.edits b).isSome ∧ e.apply b = storeAt b (v, e.data) := by
  have hle := propAt_le h
  cases e with
  | memmapAdd key text address size => exact he.elim
  | setU32 path prop value =>
    obtain rfl : vl = 4 := hfit.trans (LittleEndian.length_put 4 value)
    have hedits : dtSetU32 b path prop value = some [(v, LittleEndian.put 4 value)] := by
      rw [dtSetU32, show propAt b path prop = some (v, 4) from h]
      rfl
    exact ⟨Option.isSome_of_eq_some hedits, by rw [apply, edits, hedits]; rfl⟩
  | setReg path prop base size =>
    obtain rfl : vl = 8 := hfit.trans (by simp [data])
    have hedits : dtSetReg b path prop base size =
        some [(v, LittleEndian.put 4 base), (v + 4, LittleEndian.put 4 size)] := by
      rw [dtSetReg, show propAt b path prop = some (v, 8) from h]
      rfl
    have hbound : v + (LittleEndian.put 4 base ++ LittleEndian.put 4 size).length ≤ b.length := by
      simpa using hle
    refine ⟨Option.isSome_of_eq_some hedits, ?_⟩
    rw [apply, edits, hedits]
    exact storeAt_append _ _ hbound
  | unmatch path =>
    have hedits : dtUnmatch b path = some [(v, [0x78])] := by
      rw [dtUnmatch, if_neg hfit.1,
        show propAt b path (ascii "compatible") = some (v, vl) from h]
      exact if_neg hfit.2
    exact ⟨Option.isSome_of_eq_some hedits, by rw [apply, edits, hedits]; rfl⟩

theorem value_of_isSome (he : e.IsValue) (h : (e.edits b).isSome) :
    ∃ v vl, propAt b e.path e.prop = some (v, vl) ∧ e.Fits vl := by
  cases e with
  | memmapAdd key text address size => exact he.elim
  | setU32 path prop value =>
    rw [edits, dtSetU32] at h
    rcases hprop : propAt b path prop with _ | ⟨v, vl⟩
    · rw [hprop] at h
      cases h
    · rw [hprop] at h
      dsimp only at h
      split_ifs at h with hvl
      · cases h
      · exact ⟨v, vl, hprop, (not_not.1 hvl).trans (LittleEndian.length_put 4 value).symm⟩
  | setReg path prop base size =>
    rw [edits, dtSetReg] at h
    rcases hprop : propAt b path prop with _ | ⟨v, vl⟩
    · rw [hprop] at h
      cases h
    · rw [hprop] at h
      dsimp only at h
      split_ifs at h with hvl
      · cases h
      · exact ⟨v, vl, hprop, (not_not.1 hvl).trans (by simp [data])⟩
  | unmatch path =>
    rw [edits, dtUnmatch] at h
    split_ifs at h with hpath
    · cases h
    rcases hprop : propAt b path (ascii "compatible") with _ | ⟨v, vl⟩
    · rw [hprop] at h
      cases h
    · rw [hprop] at h
      dsimp only at h
      split_ifs at h with hvl
      · cases h
      · exact ⟨v, vl, hprop, hpath, hvl⟩

theorem touches_value (he : e.IsValue) : e.Touches b i ↔
    ∃ p vl, propAt b e.path e.prop = some (p, vl) ∧ p ≤ i ∧ i < p + vl := by
  cases e with
  | memmapAdd key text address size => exact he.elim
  | _ => exact .rfl

theorem keeps_of_none (h : e.edits b = none) : e.Keeps b where
  failed := apply_of_none
  length := by rw [apply_of_none h]
  parts := by rw [apply_of_none h]
  apart := fun i _ ↦ by rw [apply_of_none h]
  reads := fun hsome ↦ by
    rw [h] at hsome
    cases hsome
  again := fun _ ↦ by rw [apply_of_none h, apply_of_none h]

theorem keeps_value (hb : Boot.parts b = some (xs, hi)) (he : e.IsValue) : e.Keeps b := by
  by_cases hsome : (e.edits b).isSome
  case neg => exact keeps_of_none (Option.not_isSome_iff_eq_none.1 hsome)
  obtain ⟨v, vl, hprop, hfit⟩ := value_of_isSome he hsome
  obtain ⟨p, rfl, hp, hname⟩ := propAt_eq_some hb hprop
  have hlen := length_data_le he hfit
  have hend : p + dtPropHdr + e.data.length ≤ p + dtPropHdr + vl := Nat.add_le_add_left hlen _
  have hin : Inside p vl (p + dtPropHdr, e.data) := .inr ⟨le_rfl, hend⟩
  have hwithin := hin.within hb hp
  have hnames : ∀ q m, .property q m ∈ xs →
      nameText (storeAt b (p + dtPropHdr, e.data)) q = nameText b q :=
    fun q m hq ↦ nameText_storeAt hb hp le_rfl hend hq
  have halike : e.prop ≠ nameKey → ∀ x ∈ xs, x.Alike b (storeAt b (p + dtPropHdr, e.data)) := by
    intro hne
    have hown : nameText b p ≠ nameKey := hname ▸ hne
    exact hin.alike hb hp hown (by rwa [hnames p vl hp])
  have hfind : e.prop ≠ nameKey → propAt (storeAt b (p + dtPropHdr, e.data)) e.path e.prop =
      some (p + dtPropHdr, vl) := fun hne ↦ (propAt_congr hb (halike hne) hnames).trans hprop
  have happly := (apply_value he hprop hfit).2
  constructor
  case failed => exact apply_of_none
  case length => rw [happly, length_storeAt hwithin]
  case parts => rw [happly, hb, hin.parts_eq hb hp]
  case apart =>
    intro i hi
    rw [touches_value he] at hi
    rw [happly]
    apply getElem?_storeAt hwithin
    show i < p + dtPropHdr ∨ p + dtPropHdr + e.data.length ≤ i
    by_contra hinside
    exact hi ⟨_, _, hprop, by omega, by omega⟩
  case reads =>
    intro _ hne _
    rw [happly]
    exact ⟨_, vl, hfind hne, hfit, span_storeAt_self hwithin⟩
  case again =>
    intro hne
    rw [happly, (apply_value he (hfind hne) hfit).2]
    exact storeAt_of_span (span_storeAt_self hwithin)

end DtEdit

theorem Part.Alike.trans {x : Part} {b'' : List Octet} (h : x.Alike b b') (h' : x.Alike b' b'') :
    x.Alike b b'' := by
  cases x with
  | node off nProps nChildren => exact Eq.trans h' h
  | property p len =>
    obtain ⟨⟨hend, hlen⟩, hname, hvalue⟩ := h
    obtain ⟨⟨hend', hlen'⟩, hname', hvalue'⟩ := h'
    exact ⟨⟨hend'.trans hend, hlen'.trans hlen⟩, hname'.trans hname,
      fun hkey ↦ (hvalue' (hname.2 hkey)).trans (hvalue hkey)⟩

variable {key : List Octet} {slot : ℕ}

/-- The name field of an entry. -/
def keyField (key : List Octet) : List Octet := key ++ List.replicate (dtNameLen - key.length) 0

theorem length_keyField (h : key.length < dtNameLen) : (keyField key).length = dtNameLen := by
  rw [keyField, List.length_append, List.length_replicate]
  omega

theorem takeWhile_keyField (htext : (0 : Octet) ∉ key) (h : key.length < dtNameLen) :
    (keyField key).takeWhile (· ≠ 0) = key := by
  obtain ⟨n, hn⟩ := Nat.exists_eq_add_of_lt h
  rw [keyField, show dtNameLen - key.length = n + 1 by omega, List.replicate_succ,
    takeWhile_text htext]

/-- The properties of the memory map; in every tree with the same parts and paths, the slot and the
properties are found among them. -/
structure MapParts (b : List Octet) (xs props : List Part) : Prop where
  sub : props ⊆ xs
  form : ∀ x ∈ props, ∃ q, x = .property q (valueLen b q)
  sorted : props.Pairwise fun x y ↦ x.stop ≤ y.start
  claims : ∀ b', (∀ x ∈ xs, x.Alike b b') → ∀ key, claimed b' key =
    ((props.find? (isEntry b' key)).map Part.start).or ((props.find? (isFree b')).map Part.start)
  finds : ∀ b', (∀ x ∈ xs, x.Alike b b') → ∀ key, propAt b' memoryMap key =
    (props.find? (nameText b' ·.start = key)).map fun x ↦ (x.start + dtPropHdr, x.len)

theorem mapParts (hb : parts b = some (xs, hi)) {node : ℕ}
    (hnode : dtPath b memoryMap = some node) : ∃ props, MapParts b xs props := by
  obtain ⟨nProps, nChildren, props, start, hheader, hprops, hsub, -⟩ :=
    (isNode_dtPath hb hnode).props b
  have hother : ∀ b', (∀ x ∈ xs, x.Alike b b') → dtPath b' memoryMap = some node ∧
      dtHeader b' node = some (nProps, nChildren) ∧
        gather (propertyPart b') nProps (node + 8) = some (props, start) := by
    intro b' halike
    refine ⟨(dtPath_alike hb halike memoryMap).trans hnode, ?_⟩
    obtain ⟨_, _, _, _, heq, heq', -, hother⟩ := (isNode_dtPath hb hnode).props b'
    rw [hheader] at heq
    cases heq
    rw [hprops] at heq'
    cases heq'
    exact hother fun x hx ↦ (halike x hx).kept
  refine ⟨props, hsub, fun x hx ↦ ?_, ?_, fun b' halike key ↦ ?_, fun b' halike key ↦ ?_⟩
  · obtain ⟨q, rfl, -⟩ := gather_property hprops x hx
    exact ⟨q, rfl⟩
  · exact (gather_tiles (fun _ _ _ h ↦ propertyPart_tiles h) hprops).sorted
  · obtain ⟨hnode', hheader', hprops'⟩ := hother b' halike
    unfold claimed
    rw [hnode']
    dsimp only
    rw [hheader']
    exact slotLoop_eq hprops'
  · obtain ⟨hnode', hheader', hprops'⟩ := hother b' halike
    unfold propAt
    rw [hnode']
    exact dtProp_eq hheader' hprops' key

theorem claimed_node (h : claimed b key = some slot) : ∃ node, dtPath b memoryMap = some node := by
  unfold claimed at h
  split at h
  · cases h
  · exact ⟨_, ‹_›⟩

theorem dtMemmapAdd_eq (b key : List Octet) (address size : ℕ) : dtMemmapAdd b key address size =
    (claimed b key).bind fun slot ↦ if dtNameLen ≤ key.length then none else
      some [(slot, keyField key), (slot + dtPropHdr, LittleEndian.put 4 address),
        (slot + dtPropHdr + 4, LittleEndian.put 4 size)] := by
  unfold dtMemmapAdd claimed
  change (match dtPath b memoryMap with | none => _ | some node => _) = _
  rcases dtPath b memoryMap with _ | node
  · rfl
  dsimp only
  rcases dtHeader b node with _ | ⟨nProps, nChildren⟩
  · rfl
  dsimp only
  rcases slotLoop b key nProps (node + 8) none with _ | slot <;> rfl

/-- The claimed slot is a property with eight octets, which has the key or is a placeholder, and
behind no entry with the key. -/
theorem MapParts.first {props : List Part} (hm : MapParts b xs props)
    (h : claimed b key = some slot) : .property slot 8 ∈ props ∧ IsSlot b key slot ∧
      ∀ x ∈ props, x.start < slot → isEntry b key x = false := by
  rw [hm.claims b fun x _ ↦ .refl x, Option.or_eq_some_iff] at h
  rcases h with h | ⟨hnone, h⟩
  · obtain ⟨x, hx, rfl⟩ := Option.map_eq_some_iff.1 h
    obtain ⟨hmem, hask, hfirst⟩ := (find?_eq_some_iff_first hm.sorted).1 hx
    have hentry : nameText b x.start = key ∧ x.len = 8 := of_decide_eq_true hask
    obtain ⟨q, rfl⟩ := hm.form x hmem
    have hlen : valueLen b q = 8 := hentry.2
    exact ⟨hlen ▸ hmem, .inl ⟨hentry.1, hlen⟩, hfirst⟩
  · obtain ⟨x, hx, rfl⟩ := Option.map_eq_some_iff.1 h
    have hmem := List.mem_of_find?_eq_some hx
    have hfree : isFree b x = true := List.find?_some hx
    have hentries := List.find?_eq_none.1 (Option.map_eq_none_iff.1 hnone)
    obtain ⟨q, rfl⟩ := hm.form x hmem
    have hlen : valueLen b q = 8 := by
      unfold isFree isFreeSlot at hfree
      simp only [Bool.and_eq_true, decide_eq_true_eq] at hfree
      exact hfree.1.1.1
    exact ⟨hlen ▸ hmem, .inr hfree, fun y hy _ ↦ Bool.eq_false_of_not_eq_true (hentries y hy)⟩

theorem claimed_slot (hb : parts b = some (xs, hi)) (h : claimed b key = some slot) :
    .property slot 8 ∈ xs ∧ IsSlot b key slot := by
  obtain ⟨node, hnode⟩ := claimed_node h
  obtain ⟨props, hm⟩ := mapParts hb hnode
  obtain ⟨hmem, hslot, -⟩ := hm.first h
  exact ⟨hm.sub hmem, hslot⟩

theorem IsSlot.ne_nameKey (h : IsSlot b key slot) (hkey : key ≠ nameKey) :
    nameText b slot ≠ nameKey := by
  rcases h with ⟨rfl, -⟩ | hfree
  · exact hkey
  · intro hname
    unfold isFreeSlot at hfree
    simp only [Bool.and_eq_true, decide_eq_true_eq, hname] at hfree
    exact absurd hfree.1.1.2 (by decide)

/-- A slot of the tree and what is put in it. -/
structure Taking (b : List Octet) (xs : List Part) (hi : ℕ) (key : List Octet) (slot : ℕ)
    (data : List Octet) : Prop where
  parts : Boot.parts b = some (xs, hi)
  slot : .property slot 8 ∈ xs
  text : (0 : Octet) ∉ key
  short : key.length < dtNameLen
  eight : data.length = 8

/-- The blob with an entry in a slot. -/
def taken (b key : List Octet) (slot : ℕ) (data : List Octet) : List Octet :=
  storeAt (storeAt b (slot, keyField key)) (slot + dtPropHdr, data)

namespace Taking

variable (h : Taking b xs hi key slot data)

include h

theorem naming : Inside slot 8 (slot, keyField key) := .inl ⟨rfl, length_keyField h.short⟩

theorem entering : Inside slot 8 (slot + dtPropHdr, data) :=
  .inr ⟨le_rfl, Nat.add_le_add_left h.eight.le _⟩

theorem named : Boot.parts (storeAt b (slot, keyField key)) = some (xs, hi) :=
  h.naming.parts_eq h.parts h.slot

theorem within : slot + (keyField key).length ≤ b.length := h.naming.within h.parts h.slot

theorem within_named : slot + dtPropHdr + data.length ≤ (storeAt b (slot, keyField key)).length :=
  h.entering.within h.named h.slot

theorem parts_taken : Boot.parts (taken b key slot data) = some (xs, hi) :=
  h.entering.parts_eq h.named h.slot

theorem length_taken : (taken b key slot data).length = b.length := by
  rw [taken, length_storeAt h.within_named, length_storeAt h.within]

theorem value_taken : ((taken b key slot data).drop (slot + dtPropHdr)).take 8 = data := by
  rw [← h.eight]
  exact span_storeAt_self h.within_named

theorem field_taken : ((taken b key slot data).drop slot).take dtNameLen = keyField key := by
  have hsize : dtPropHdr = dtNameLen + 4 := rfl
  rw [taken, span_storeAt h.within_named (.inl (by omega)), ← length_keyField h.short]
  exact span_storeAt_self h.within

theorem nameText_named : nameText (storeAt b (slot, keyField key)) slot = key := by
  have hfield := @span_storeAt_self b slot (keyField key) h.within
  rw [length_keyField h.short] at hfield
  rw [nameText, hfield, takeWhile_keyField h.text h.short]

theorem nameText_taken : nameText (taken b key slot data) slot = key := by
  rw [nameText, h.field_taken, takeWhile_keyField h.text h.short]

theorem nameText_other (hq : .property q m ∈ xs) (hne : q ≠ slot) :
    nameText (taken b key slot data) q = nameText b q := by
  rw [taken, (h.entering.other h.named h.slot hq hne).1, (h.naming.other h.parts h.slot hq hne).1]

theorem alike (hold : nameText b slot ≠ nameKey) (hnew : key ≠ nameKey) :
    ∀ x ∈ xs, x.Alike b (taken b key slot data) := by
  intro x hx
  have hnamed : nameText (storeAt b (slot, keyField key)) slot ≠ nameKey := by
    rwa [h.nameText_named]
  exact (h.naming.alike h.parts h.slot hold hnamed x hx).trans
    (h.entering.alike h.named h.slot hnamed (ne_of_eq_of_ne h.nameText_taken hnew) x hx)

theorem taken_again : taken (taken b key slot data) key slot data = taken b key slot data := by
  have hname : storeAt (taken b key slot data) (slot, keyField key) = taken b key slot data := by
    apply storeAt_of_span
    rw [length_keyField h.short, h.field_taken]
  have hvalue := h.value_taken
  rw [← h.eight] at hvalue
  rw [taken, hname, storeAt_of_span hvalue]

theorem getElem?_taken (hi : ¬(slot ≤ i ∧ i < slot + dtNameLen ∨
    slot + dtPropHdr ≤ i ∧ i < slot + dtPropHdr + 8)) : (taken b key slot data)[i]? = b[i]? := by
  have hlength := length_keyField h.short
  have height := h.eight
  rw [taken, getElem?_storeAt h.within_named, getElem?_storeAt h.within]
  · show i < slot ∨ slot + (keyField key).length ≤ i
    omega
  · show i < slot + dtPropHdr ∨ slot + dtPropHdr + data.length ≤ i
    omega

theorem claimed_taken (hclaimed : claimed b key = some slot) (hnew : key ≠ nameKey) :
    claimed (taken b key slot data) key = some slot := by
  obtain ⟨node, hnode⟩ := claimed_node hclaimed
  obtain ⟨props, hm⟩ := mapParts h.parts hnode
  obtain ⟨hmem, hslot, hfirst⟩ := hm.first hclaimed
  have hfind : props.find? (isEntry (taken b key slot data) key) = some (.property slot 8) := by
    refine (find?_eq_some_iff_first hm.sorted).2
      ⟨hmem, decide_eq_true ⟨h.nameText_taken, rfl⟩, fun x hx hlt ↦ ?_⟩
    have hentry := hfirst x hx hlt
    obtain ⟨q, rfl⟩ := hm.form x hx
    rw [← hentry]
    unfold isEntry
    rw [show (Part.property q (valueLen b q)).start = q from rfl,
      h.nameText_other (hm.sub hx) (Nat.ne_of_lt hlt)]
  rw [hm.claims _ (h.alike (hslot.ne_nameKey hnew) hnew), hfind]
  rfl

theorem propAt_taken (hclaimed : claimed b key = some slot) (hnew : key ≠ nameKey)
    (halone : ∀ v vl, propAt b memoryMap key = some (v, vl) → vl = 8 ∨ slot + dtPropHdr ≤ v) :
    propAt (taken b key slot data) memoryMap key = some (slot + dtPropHdr, 8) := by
  obtain ⟨node, hnode⟩ := claimed_node hclaimed
  obtain ⟨props, hm⟩ := mapParts h.parts hnode
  obtain ⟨hmem, hslot, hfirst⟩ := hm.first hclaimed
  rw [hm.finds b fun x _ ↦ .refl x] at halone
  have hbefore : ∀ x ∈ props, x.start < slot → nameText b x.start ≠ key := by
    intro x hx hlt hname
    have hsome : (props.find? (nameText b ·.start = key)).isSome :=
      List.find?_isSome.2 ⟨x, hx, decide_eq_true hname⟩
    obtain ⟨y, hy⟩ := Option.isSome_iff_exists.1 hsome
    obtain ⟨hymem, hyname, hyfirst⟩ := (find?_eq_some_iff_first hm.sorted).1 hy
    have hle : y.start ≤ x.start := by
      by_contra hlt'
      have hother := hyfirst x hx (Nat.lt_of_not_le hlt')
      rw [decide_eq_true hname] at hother
      cases hother
    rcases halone _ _ (by rw [hy]; rfl) with hlen | hbehind
    · have hentry := hfirst y hymem (hle.trans_lt hlt)
      rw [isEntry, decide_eq_true ⟨of_decide_eq_true hyname, hlen⟩] at hentry
      cases hentry
    · omega
  have hfind : props.find? (nameText (taken b key slot data) ·.start = key) =
      some (.property slot 8) := by
    refine (find?_eq_some_iff_first hm.sorted).2
      ⟨hmem, decide_eq_true h.nameText_taken, fun x hx hlt ↦ ?_⟩
    have hne := hbefore x hx hlt
    obtain ⟨q, rfl⟩ := hm.form x hx
    change nameText b q ≠ key at hne
    rw [← h.nameText_other (hm.sub hx) (Nat.ne_of_lt hlt)] at hne
    exact decide_eq_false hne
  rw [hm.finds _ (h.alike (hslot.ne_nameKey hnew) hnew), hfind]
  rfl

end Taking

namespace DtEdit

variable {e : DtEdit} {address size : ℕ}

theorem apply_memmapAdd (address size : ℕ) (hb : Boot.parts b = some (xs, hi))
    (htext : (0 : Octet) ∉ key)
    (hkey : key.length < dtNameLen) (hclaimed : claimed b key = some slot) :
    ((memmapAdd key htext address size).edits b).isSome ∧
      (memmapAdd key htext address size).apply b =
        taken b key slot (memmapAdd key htext address size).data := by
  have hslot := (claimed_slot hb hclaimed).1
  have hedits : (memmapAdd key htext address size).edits b =
      some [(slot, keyField key), (slot + dtPropHdr, LittleEndian.put 4 address),
        (slot + dtPropHdr + 4, LittleEndian.put 4 size)] := by
    rw [edits, dtMemmapAdd_eq, hclaimed, Option.bind_some, if_neg (Nat.not_le.2 hkey)]
  have hwithin : slot + (keyField key).length ≤ b.length := by
    have hfits := property_fits hb hslot
    have hsize : dtPropHdr = dtNameLen + 4 := rfl
    rw [length_keyField hkey]
    omega
  have hbound : slot + dtPropHdr + (LittleEndian.put 4 address ++ LittleEndian.put 4 size).length ≤
      (storeAt b (slot, keyField key)).length := by
    rw [length_storeAt hwithin]
    simpa using property_fits hb hslot
  refine ⟨Option.isSome_of_eq_some hedits, ?_⟩
  rw [apply, hedits]
  exact storeAt_append _ _ hbound

theorem claimed_of_isSome {htext : (0 : Octet) ∉ key}
    (h : ((memmapAdd key htext address size).edits b).isSome) :
    key.length < dtNameLen ∧ ∃ slot, claimed b key = some slot := by
  obtain ⟨writes, hwrites⟩ := Option.isSome_iff_exists.1 h
  rw [edits, dtMemmapAdd_eq] at hwrites
  obtain ⟨slot, hclaimed, hwrites⟩ := Option.bind_eq_some_iff.1 hwrites
  split_ifs at hwrites with hkey
  exact ⟨Nat.not_le.1 hkey, slot, hclaimed⟩

theorem keeps_memmapAdd (hb : Boot.parts b = some (xs, hi)) (htext : (0 : Octet) ∉ key) :
    (memmapAdd key htext address size).Keeps b := by
  by_cases hsome : ((memmapAdd key htext address size).edits b).isSome
  case neg => exact keeps_of_none (Option.not_isSome_iff_eq_none.1 hsome)
  obtain ⟨hkey, slot, hclaimed⟩ := claimed_of_isSome hsome
  obtain ⟨hmem, hslot⟩ := claimed_slot hb hclaimed
  have h : Taking b xs hi key slot (memmapAdd key htext address size).data :=
    ⟨hb, hmem, htext, hkey, by simp [data]⟩
  have happly := (apply_memmapAdd address size hb htext hkey hclaimed).2
  constructor
  case failed => exact apply_of_none
  case length => rw [happly, h.length_taken]
  case parts => rw [happly, hb, h.parts_taken]
  case apart =>
    intro i hi
    rw [happly]
    exact h.getElem?_taken fun hinside ↦ hi ⟨slot, hclaimed, hslot, hinside⟩
  case reads =>
    intro _ hne halone
    rw [happly]
    refine ⟨slot + dtPropHdr, 8, h.propAt_taken hclaimed hne fun v vl ↦ halone slot v vl hclaimed,
      h.eight.symm, ?_⟩
    rw [h.eight]
    exact h.value_taken
  case again =>
    intro hne
    rw [happly, (apply_memmapAdd _ _ h.parts_taken htext hkey (h.claimed_taken hclaimed hne)).2,
      h.taken_again]

theorem patch_eq_apply {plan : Plan} {s t : Bringup} (e : DtEdit)
    (h : patch plan length e.edits s = (.ok (), t)) :
    t.tree plan length = e.apply (s.tree plan length) := by
  have hwithin : ∀ b edits, e.edits b = some edits → Within b.length edits := by
    intro b edits hedits
    cases e with
    | setU32 path prop value => exact dtSetU32_within hedits
    | setReg path prop base size => exact dtSetReg_within hedits
    | memmapAdd key text address size => exact dtMemmapAdd_within hedits
    | unmatch path => exact dtUnmatch_within hedits
  obtain ⟨edits, hedits, htree⟩ := patch_tree hwithin h
  rw [htree, apply, hedits]

theorem keeps (hb : Boot.parts b = some (xs, hi)) (e : DtEdit) : e.Keeps b := by
  cases e with
  | memmapAdd key htext address size => exact keeps_memmapAdd hb htext
  | _ => exact keeps_value hb trivial

end DtEdit

/-- Whatever edits are made in a complete tree, the blob keeps its length and its parts; every
edit, whether it succeeds or fails, changes nothing but what it is for, is read back where nothing
stands before it, and is the same made twice, unless it is of a property `name`. -/
theorem dtRun_keeps (h : (dtSubtreeEnd b nestingGuard 0).isSome) (run : List DtEdit) :
    (dtRun b run).length = b.length ∧ parts (dtRun b run) = parts b ∧
      ∀ e : DtEdit, e.Keeps (dtRun b run) := by
  obtain ⟨⟨xs, hi⟩, hb⟩ : ∃ all, parts b = some all := by
    rw [← partsFrom_map_snd, Option.isSome_map] at h
    exact Option.isSome_iff_exists.1 h
  suffices hrun : (dtRun b run).length = b.length ∧ parts (dtRun b run) = parts b from
    ⟨hrun.1, hrun.2, DtEdit.keeps (hrun.2.trans hb)⟩
  clear h
  induction run generalizing b with
  | nil => exact ⟨rfl, rfl⟩
  | cons e run ih =>
    have hstep := DtEdit.keeps hb e
    obtain ⟨hlength, hparts⟩ := ih (hstep.parts.trans hb)
    exact ⟨hlength.trans hstep.length, hparts.trans hstep.parts⟩

theorem dtRun_keeps_sampleTree :
    let run : List DtEdit := [.setU32 (ascii "cpus") (ascii "reg") 5, .unmatch (ascii "cpus")]
    (dtRun sampleTree run).length = sampleTree.length ∧
      parts (dtRun sampleTree run) = parts sampleTree ∧
        ∀ e : DtEdit, e.Keeps (dtRun sampleTree run) :=
  dtRun_keeps (by decide +kernel) _

/-- A memory map in which a property of four octets has the key of an entry. -/
def shadowTree : List Octet :=
  [0, 0, 0, 0, 1, 0, 0, 0] ++ ([1, 0, 0, 0, 1, 0, 0, 0] ++
      (nameKey ++ List.replicate 28 0 ++ [6, 0, 0, 0] ++ ascii "chosen" ++ [0, 0])) ++
    ([3, 0, 0, 0, 0, 0, 0, 0] ++
      (nameKey ++ List.replicate 28 0 ++ [10, 0, 0, 0] ++ ascii "memory-map" ++ [0, 0])) ++
    sampleProperty (ascii "RAMDisk") [0, 0, 0, 0] ++
    (ascii "MemoryMapReserved-1" ++ List.replicate 13 0 ++ [8, 0, 0, 0] ++ List.replicate 8 0)

/-- Two nodes called `cpus`. -/
def twinTree : List Octet :=
  [0, 0, 0, 0, 2, 0, 0, 0] ++ ([1, 0, 0, 0, 0, 0, 0, 0] ++ sampleProperty nameKey (ascii "cpus")) ++
    ([1, 0, 0, 0, 0, 0, 0, 0] ++ sampleProperty nameKey (ascii "cpus"))

/-- The entry that the bring-up makes for its RAM disk. -/
def ramDiskEdit : DtEdit := .memmapAdd (ascii "RAMDisk") zero_notMem_ramDisk 1 2

def renamingEdit : DtEdit := .setU32 (ascii "cpus") nameKey 1

/-- An entry behind a shorter property with its key is not read back; an edit of a node's name
gets to another node when it is made again. -/
theorem dtEdit_shadowed :
    ((dtSubtreeEnd shadowTree nestingGuard 0).isSome ∧ (ramDiskEdit.edits shadowTree).isSome ∧
        ¬ramDiskEdit.Reads (ramDiskEdit.apply shadowTree)) ∧
      (dtSubtreeEnd twinTree nestingGuard 0).isSome ∧ (renamingEdit.edits twinTree).isSome ∧
        renamingEdit.apply (renamingEdit.apply twinTree) ≠ renamingEdit.apply twinTree := by
  refine ⟨⟨by decide +kernel, by decide +kernel, ?_⟩, by decide +kernel, by decide +kernel,
    by decide +kernel⟩
  rintro ⟨p, vl, hprop, hfit, -⟩
  have hfound : propAt (ramDiskEdit.apply shadowTree) memoryMap (ascii "RAMDisk") =
      some (152, 4) := by decide +kernel
  cases hfound.symm.trans hprop
  exact absurd (show 4 = 8 from hfit) (by decide)

end S5LBox.Boot
