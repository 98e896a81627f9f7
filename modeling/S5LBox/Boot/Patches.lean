import S5LBox.Boot.Walkers

/-!
# Edits of the device tree

The in-place edits that the bring-up makes in the tree it hands to the kernel. An edit says where
octets are written and which; it never changes a length, so it stays inside the tree.
-/

namespace S5LBox.Boot

open List Firmware

/-- Octets and the offset they are written at. -/
abbrev Edit := ℕ × List Octet

section

variable (b : List Octet)

/-- A property of the node at a path, where its value is and how long. -/
def propAt (path prop : List Octet) : Option (ℕ × ℕ) :=
  (dtPath b path).bind fun node ↦ dtProp b node prop

def dtSetU32 (path prop : List Octet) (value : ℕ) : Option (List Edit) :=
  match propAt b path prop with
  | none => none
  | some (p, vl) => if vl ≠ 4 then none else some [(p, LittleEndian.put 4 value)]

def dtSetReg (path prop : List Octet) (base size : ℕ) : Option (List Edit) :=
  match propAt b path prop with
  | none => none
  | some (p, vl) =>
    if vl ≠ 8 then none
    else some [(p, LittleEndian.put 4 base), (p + 4, LittleEndian.put 4 size)]

def dtCompatibleExact (path expected : List Octet) : Bool :=
  match propAt b path (ascii "compatible") with
  | none => false
  | some (p, vl) =>
    vl = expected.length + 1 && octetAt b (p + expected.length) = 0 &&
      !((b.drop p).take expected.length).contains 0 &&
        (b.drop p).take expected.length = expected

def isFreeSlot (p : ℕ) (nm : List Octet) : Bool :=
  valueLen b p = 8 && nm.take 18 = ascii "MemoryMapReserved-" && dtLd32 b (p + 36) = 0 && dtLd32 b (p + 40) = 0

/-- The loop of `dt_memmap_add`; an entry with the key wins over the first free one. -/
def slotLoop (key : List Octet) : (n p : ℕ) → (slot : Option ℕ) → Option ℕ
  | 0, _, slot => slot
  | n + 1, p, slot =>
    match dtPropEnd b p with
    | none => none
    | some next =>
      let nm := ((b.drop p).take dtNameLen).takeWhile (· ≠ 0)
      if nm = key ∧ valueLen b p = 8 then some p
      else slotLoop key n next (if slot = none ∧ isFreeSlot b p nm then some p else slot)

def dtMemmapAdd (key : List Octet) (address size : ℕ) : Option (List Edit) :=
  match dtPath b (ascii "chosen/memory-map") with
  | none => none
  | some node =>
    match dtHeader b node with
    | none => none
    | some (nProps, _) =>
      match slotLoop b key nProps (node + 8) none with
      | none => none
      | some slot =>
        if dtNameLen ≤ key.length then none
        else some [(slot, key ++ List.replicate (dtNameLen - key.length) 0),
          (slot + dtPropHdr, LittleEndian.put 4 address),
          (slot + dtPropHdr + 4, LittleEndian.put 4 size)]

/-- One turn of the loop that un-matches nodes; a path that is not given is empty. -/
def dtUnmatch (path : List Octet) : Option (List Edit) :=
  if path = [] then none
  else
    match propAt b path (ascii "compatible") with
    | none => none
    | some (p, vl) => if vl = 0 then none else some [(p, [0x78])]

end

variable {b path prop : List Octet} {p vl : ℕ} {edits : List Edit}

def Within (length : ℕ) (edits : List Edit) : Prop :=
  ∀ edit ∈ edits, edit.1 + edit.2.length ≤ length

theorem value_le {next : ℕ} (h : dtPropEnd b p = some next) :
    p + dtPropHdr + valueLen b p ≤ b.length := by
  obtain ⟨hnext, hle⟩ := dtPropEnd_eq_some.1 h
  have hpad := le_align4 (propLen b p)
  rw [valueLen_eq]
  omega

theorem dtPropLoop_le {name : List Octet} {n start : ℕ}
    (h : dtPropLoop b name n start = some (p, vl)) : p + vl ≤ b.length := by
  induction n generalizing start with
  | zero => cases h
  | succ n ih =>
    rw [dtPropLoop] at h
    rcases hend : dtPropEnd b start with _ | next
    · rw [hend] at h
      cases h
    · rw [hend] at h
      dsimp only at h
      split_ifs at h
      · cases h
        exact value_le hend
      · exact ih h

theorem propAt_le (h : propAt b path prop = some (p, vl)) : p + vl ≤ b.length := by
  obtain ⟨node, -, hprop⟩ := Option.bind_eq_some_iff.1 h
  unfold dtProp at hprop
  split at hprop
  · cases hprop
  · exact dtPropLoop_le hprop

theorem dtSetU32_within {value : ℕ} (h : dtSetU32 b path prop value = some edits) :
    Within b.length edits := by
  unfold dtSetU32 at h
  split at h
  case h_1 => cases h
  case h_2 p vl hprop =>
    have hle := propAt_le hprop
    split_ifs at h with hvl
    obtain rfl := Option.some.inj h
    intro edit hedit
    obtain rfl := mem_singleton.1 hedit
    rw [LittleEndian.length_put]
    omega

theorem dtSetReg_within {base size : ℕ} (h : dtSetReg b path prop base size = some edits) :
    Within b.length edits := by
  unfold dtSetReg at h
  split at h
  case h_1 => cases h
  case h_2 p vl hprop =>
    have hle := propAt_le hprop
    split_ifs at h with hvl
    obtain rfl := Option.some.inj h
    unfold Within
    simp only [mem_cons, not_mem_nil, or_false, forall_eq_or_imp, forall_eq,
      LittleEndian.length_put]
    omega

theorem dtUnmatch_within (h : dtUnmatch b path = some edits) : Within b.length edits := by
  unfold dtUnmatch at h
  split_ifs at h
  split at h
  case h_1 => cases h
  case h_2 p vl hprop =>
    have hle := propAt_le hprop
    split_ifs at h with hvl
    obtain rfl := Option.some.inj h
    intro edit hedit
    obtain rfl := mem_singleton.1 hedit
    show p + 1 ≤ b.length
    omega

theorem slotLoop_le {key : List Octet} {n start : ℕ} {slot : Option ℕ} {found : ℕ}
    (hslot : ∀ place, slot = some place → place + dtPropHdr + 8 ≤ b.length)
    (h : slotLoop b key n start slot = some found) : found + dtPropHdr + 8 ≤ b.length := by
  induction n generalizing start slot with
  | zero => exact hslot found h
  | succ n ih =>
    rw [slotLoop] at h
    rcases hend : dtPropEnd b start with _ | next
    · rw [hend] at h
      cases h
    · rw [hend] at h
      dsimp only at h
      have hvalue := value_le hend
      split_ifs at h with hkey hfree
      · obtain rfl := Option.some.inj h
        omega
      · apply ih _ h
        intro place hplace
        obtain rfl := Option.some.inj hplace
        have height : valueLen b start = 8 := by
          have hslot := hfree.2
          unfold isFreeSlot at hslot
          simp only [Bool.and_eq_true, decide_eq_true_eq] at hslot
          exact hslot.1.1.1
        omega
      · exact ih hslot h

theorem dtMemmapAdd_within {key : List Octet} {address size : ℕ}
    (h : dtMemmapAdd b key address size = some edits) : Within b.length edits := by
  unfold dtMemmapAdd at h
  split at h
  case h_1 => cases h
  split at h
  case h_1 => cases h
  split at h
  case h_1 => cases h
  case h_2 slot hloop =>
    have hnone : ∀ place, none = some place → place + dtPropHdr + 8 ≤ b.length := by
      intro place hplace
      cases hplace
    have hle := slotLoop_le hnone hloop
    have hsize : dtPropHdr = dtNameLen + 4 := rfl
    split_ifs at h with hkey
    obtain rfl := Option.some.inj h
    unfold Within
    simp only [mem_cons, not_mem_nil, or_false, forall_eq_or_imp, forall_eq,
      LittleEndian.length_put, length_append, length_replicate]
    omega

end S5LBox.Boot
