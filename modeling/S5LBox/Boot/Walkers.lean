import Mathlib.Data.List.TakeWhile
import S5LBox.Boot.InPlace

/-!
# The two walkers agree

Records of a device tree begin at multiples of four, and there the bounds of the parser and those of
the in-place walker are the same bounds. A tree that both accept is therefore one tree to them, and
a lookup in it finds the same place or nothing.
-/

namespace S5LBox.Boot

open Option List Firmware

variable {b : List Octet} {off p : ℕ} {name path : List Octet}

theorem align4_add (h : 4 ∣ off) (n : ℕ) : align4 (off + n) = off + align4 n := by
  unfold align4
  omega

theorem dvd_align4 (n : ℕ) : 4 ∣ align4 n := ⟨(n + 3) / 4, Nat.mul_comm _ _⟩

theorem le_align4 (n : ℕ) : n ≤ align4 n := by
  unfold align4
  omega

theorem valueLen_eq (p : ℕ) : valueLen b p = propLen b p := rfl

theorem dtPropEnd_eq_some {next : ℕ} : dtPropEnd b p = some next ↔
    next = p + dtPropHdr + align4 (propLen b p) ∧ next ≤ b.length := by
  unfold dtPropEnd
  rw [valueLen_eq]
  dsimp only
  split
  case isTrue hout =>
    have hle := le_align4 (propLen b p)
    constructor
    · exact (nomatch ·)
    · rintro ⟨rfl, hnext⟩
      omega
  case isFalse hin =>
    split
    case isTrue hout =>
      constructor
      · exact (nomatch ·)
      · rintro ⟨rfl, hnext⟩
        omega
    case isFalse hin' =>
      rw [Option.some.injEq]
      constructor
      · rintro rfl
        exact ⟨rfl, by omega⟩
      · exact fun h ↦ h.1.symm

theorem skipProperty_eq (h : 4 ∣ p) : skipProperty b p = dtPropEnd b p := by
  have hheader : (4 : ℕ) ∣ p + propHeader := h.add (by decide)
  apply Option.ext
  intro next
  rw [dtPropEnd_eq_some]
  unfold skipProperty Fits
  dsimp only
  rw [align4_add hheader]
  have hle := le_align4 (propLen b p)
  have hsize : propHeader = dtPropHdr := rfl
  split
  case isTrue hin =>
    split
    case isTrue hnext =>
      rw [Option.some.injEq, hsize]
      constructor
      · rintro rfl
        exact ⟨rfl, hnext⟩
      · exact fun h ↦ h.1.symm
    case isFalse hnext =>
      constructor
      · exact (nomatch ·)
      · rintro ⟨rfl, hfits⟩
        exact absurd hfits hnext
  case isFalse hout =>
    constructor
    · exact (nomatch ·)
    · rintro ⟨rfl, hfits⟩
      omega

theorem dvd_of_dtPropEnd {next : ℕ} (h : 4 ∣ p) (hend : dtPropEnd b p = some next) : 4 ∣ next := by
  obtain ⟨rfl, -⟩ := dtPropEnd_eq_some.1 hend
  exact (h.add (by decide)).add (dvd_align4 _)

theorem walk_skipProperty {n : ℕ} (h : 4 ∣ p) :
    walk (skipProperty b) n p = walk (dtPropEnd b) n p := by
  induction n generalizing p with
  | zero => rfl
  | succ n ih =>
    rw [walk, walk, skipProperty_eq h]
    rcases hend : dtPropEnd b p with _ | next
    · rfl
    · exact ih (dvd_of_dtPropEnd h hend)

variable {text rest : List Octet} {levels last : ℕ} {first : Octet}

theorem takeWhile_of_notMem (h : (0 : Octet) ∉ text) : text.takeWhile (· ≠ 0) = text := by
  rw [takeWhile_eq_self_iff]
  intro octet hoctet
  rw [decide_eq_true_iff]
  rintro rfl
  exact h hoctet

/-- Text with a terminator behind it is what a string function sees. -/
theorem takeWhile_text {tail : List Octet} (h : (0 : Octet) ∉ text) :
    (text ++ 0 :: tail).takeWhile (· ≠ 0) = text := by
  have htext : ∀ octet ∈ text, decide (octet ≠ 0) = true := by
    rintro octet hoctet
    exact decide_eq_true fun hzero ↦ h (hzero ▸ hoctet)
  rw [takeWhile_append_of_pos htext, takeWhile_cons_of_neg (by decide), append_nil]

theorem notMem_take (h : (0 : Octet) ∉ text) (n : ℕ) :
    (0 : Octet) ∉ text.take n := fun hmem ↦ h (mem_of_mem_take hmem)

/-- Within the name field, both comparisons are one with the text before the terminator. -/
theorem sameString_field (hname : (0 : Octet) ∉ name) (hlength : name.length < dtPropNameLen)
    (field : List Octet) : sameString field name dtPropNameLen = true ↔
      (field.take dtNameLen).takeWhile (· ≠ 0) = name := by
  unfold sameString
  rw [decide_eq_true_iff, take_of_length_le hlength.le, takeWhile_of_notMem hname]
  rfl

theorem sameString_value (hname : (0 : Octet) ∉ name) (value : List Octet) :
    sameString value name name.length = true ↔ value.take name.length = name := by
  unfold sameString
  rw [decide_eq_true_iff, take_length, takeWhile_of_notMem hname]
  constructor
  · intro hsame
    have hfront : name <+: value.take name.length := by
      rw [← hsame]
      exact ( takeWhile_prefix _).trans (by rw [hsame])
    exact (hfront.eq_of_length_le (length_take_le _ _)).symm
  · intro hsame
    rw [hsame, takeWhile_of_notMem hname]

/-- The node whose header is at an offset. -/
def nodeAt (b : List Octet) (off : ℕ) : DtNode := ⟨off, rd32 b off, rd32 b (off + 4), off + nodeHeader⟩

theorem readNode_eq_ok {n : DtNode} :
    readNode b off = .ok n ↔ Fits b off nodeHeader ∧ n = nodeAt b off := by
  unfold readNode
  split
  case isTrue hfits =>
    rw [Except.ok.injEq]
    exact ⟨fun h ↦ ⟨hfits, h.symm⟩, fun h ↦ h.2.symm⟩
  case isFalse hfits => exact ⟨(nomatch ·), fun h ↦ absurd h.1 hfits⟩

theorem dtHeader_eq_some {nProps nChildren : ℕ} (h : dtHeader b off = some (nProps, nChildren)) :
    nProps = rd32 b off ∧ nChildren = rd32 b (off + 4) := by
  unfold dtHeader at h
  split at h
  · cases h
  · dsimp only at h
    split at h
    · cases h
    · cases h
      exact ⟨rfl, rfl⟩

theorem skipNode_succ_eq_some : skipNode b (levels + 1) off = some last ↔
    Fits b off nodeHeader ∧ ∃ children,
      walk (skipProperty b) (rd32 b off) (off + nodeHeader) = some children ∧
        walk (skipNode b levels) (rd32 b (off + 4)) children = some last := by
  rw [skipNode]
  unfold readNode
  split
  case h_1 hno =>
    split at hno
    case isTrue => cases hno
    case isFalse hfits => exact ⟨(nomatch ·), fun h ↦ absurd h.1 hfits⟩
  case h_2 n hok =>
    split at hok
    case isTrue hfits =>
      cases hok
      rw [bind_eq_some_iff]
      exact ⟨fun h ↦ ⟨hfits, h⟩, fun h ↦ h.2⟩
    case isFalse => cases hok

theorem dtSubtreeEnd_succ_eq_some (h : dtSubtreeEnd b (levels + 1) off = some last) :
    dtHeader b off = some (rd32 b off, rd32 b (off + 4)) ∧ ∃ children,
      walk (dtPropEnd b) (rd32 b off) (off + nodeHeader) = some children ∧
        walk (dtSubtreeEnd b levels) (rd32 b (off + 4)) children = some last := by
  rw [dtSubtreeEnd] at h
  unfold dtPropsEnd at h
  rcases hheader : dtHeader b off with _ | ⟨nProps, nChildren⟩
  · rw [hheader] at h
    cases h
  · obtain ⟨rfl, rfl⟩ := dtHeader_eq_some hheader
    rw [hheader] at h
    exact ⟨rfl, bind_eq_some_iff.1 h⟩

theorem subtree_agree {levels' last' : ℕ} (haligned : 4 ∣ off)
    (h : skipNode b levels off = some last) (h' : dtSubtreeEnd b levels' off = some last') :
    last = last' ∧ 4 ∣ last := by
  induction levels generalizing levels' off last last' with
  | zero => cases h
  | succ levels ih =>
    cases levels' with
    | zero => cases h'
    | succ levels' =>
      obtain ⟨-, children, hprops, hkids⟩ := skipNode_succ_eq_some.1 h
      obtain ⟨-, children', hprops', hkids'⟩ := dtSubtreeEnd_succ_eq_some h'
      have hstart : 4 ∣ off + nodeHeader := haligned.add (by decide)
      rw [walk_skipProperty hstart, hprops'] at hprops
      obtain rfl := Option.some.inj hprops
      have hfirst : 4 ∣ children' := walk_keeps (fun _ _ ↦ dvd_of_dtPropEnd) hstart hprops'
      exact walk_agree (fun _ _ _ hfrom hone hother ↦ by
        obtain ⟨rfl, hto⟩ := ih hfrom hone hother
        exact ⟨rfl, hto⟩) hfirst hkids hkids'

theorem skipNode_mono {more : ℕ} (hle : levels ≤ more) (h : skipNode b levels off = some last) :
    skipNode b more off = some last := by
  induction levels generalizing more off last with
  | zero => cases h
  | succ levels ih =>
    obtain ⟨more, rfl⟩ := Nat.exists_eq_add_of_le' hle
    obtain ⟨hfits, children, hprops, hkids⟩ := skipNode_succ_eq_some.1 h
    rw [← Nat.add_assoc]
    refine skipNode_succ_eq_some.2 ⟨hfits, children, hprops, ?_⟩
    exact walk_mono (fun _ _ hone ↦ ih (Nat.le_add_left _ _) hone) hkids

theorem dtSubtreeEnd_mono {more : ℕ} (hle : levels ≤ more)
    (h : dtSubtreeEnd b levels off = some last) : dtSubtreeEnd b more off = some last := by
  induction levels generalizing more off last with
  | zero => cases h
  | succ levels ih =>
    obtain ⟨more, rfl⟩ := Nat.exists_eq_add_of_le' hle
    rw [← Nat.add_assoc]
    rw [dtSubtreeEnd] at h ⊢
    rcases hheader : dtHeader b off with _ | ⟨nProps, nChildren⟩
    · rw [hheader] at h
      cases h
    · rw [hheader] at h
      dsimp only at h ⊢
      obtain ⟨children, hprops, hkids⟩ := bind_eq_some_iff.1 h
      refine bind_eq_some_iff.2 ⟨children, hprops, ?_⟩
      exact walk_mono (fun _ _ hone ↦ ih (Nat.le_add_left _ _) hone) hkids

/-- A node that both walkers get past, within the levels they believe in. -/
structure Accepted (b : List Octet) (off : ℕ) : Prop where
  aligned : 4 ∣ off
  parsed : ∃ levels last, levels ≤ dtMaxDepth + 1 ∧ skipNode b levels off = some last
  walked : ∃ levels last, levels ≤ nestingGuard ∧ dtSubtreeEnd b levels off = some last

theorem Accepted.node (h : Accepted b off) :
    Fits b off nodeHeader ∧ dtHeader b off = some (rd32 b off, rd32 b (off + 4)) ∧
      ∃ children, 4 ∣ children ∧
        walk (dtPropEnd b) (rd32 b off) (off + nodeHeader) = some children ∧
        (∃ levels last, levels ≤ dtMaxDepth + 1 ∧
          walk (skipNode b levels) (rd32 b (off + 4)) children = some last) ∧
        ∃ levels last, levels ≤ nestingGuard ∧
          walk (dtSubtreeEnd b levels) (rd32 b (off + 4)) children = some last := by
  obtain ⟨haligned, ⟨levels, last, hlevels, hparsed⟩, ⟨levels', last', hlevels', hwalked⟩⟩ := h
  cases levels with
  | zero => cases hparsed
  | succ levels =>
    cases levels' with
    | zero => cases hwalked
    | succ levels' =>
      obtain ⟨hfits, children, hprops, hkids⟩ := skipNode_succ_eq_some.1 hparsed
      obtain ⟨hheader, children', hprops', hkids'⟩ := dtSubtreeEnd_succ_eq_some hwalked
      have hstart : 4 ∣ off + nodeHeader := haligned.add (by decide)
      rw [walk_skipProperty hstart, hprops'] at hprops
      obtain rfl := Option.some.inj hprops
      exact ⟨hfits, hheader, children', walk_keeps (fun _ _ ↦ dvd_of_dtPropEnd) hstart hprops',
        hprops', ⟨levels, last, (Nat.le_succ _).trans hlevels, hkids⟩,
        ⟨levels', last', (Nat.le_succ _).trans hlevels', hkids'⟩⟩

/-- The outcome of a lookup in which nothing is wrong with the tree. -/
def found {α : Type} : Option α → Except DtStatus α
  | some a => .ok a
  | none => .error .notFound

theorem propertyLoop_eq (hname : (0 : Octet) ∉ name) (hlength : name.length < dtPropNameLen) {n : ℕ}
    (haligned : 4 ∣ p) (hwalk : (walk (dtPropEnd b) n p).isSome) :
    propertyLoop b name n p = found (dtPropLoop b name n p) := by
  induction n generalizing p with
  | zero => rfl
  | succ n ih =>
    obtain ⟨last, hwalk⟩ := isSome_iff_exists.1 hwalk
    obtain ⟨next, hnext, hrest⟩ := walk_succ_eq_some.1 hwalk
    obtain ⟨hend, hbound⟩ := dtPropEnd_eq_some.1 hnext
    have hpadded := le_align4 (propLen b p)
    have hsize : propHeader = dtPropHdr := rfl
    rw [propertyLoop, dtPropLoop, if_pos (by unfold Fits; omega), hnext]
    dsimp only
    by_cases hsame : ((b.drop p).take dtNameLen).takeWhile (· ≠ 0) = name
    · rw [if_pos ((sameString_field hname hlength _).2 hsame), if_pos hsame,
        if_pos (by unfold Fits; omega)]
      rfl
    · rw [if_neg (fun h ↦ hsame ((sameString_field hname hlength _).1 h)), if_neg hsame,
        skipProperty_eq haligned, hnext]
      exact ih (dvd_of_dtPropEnd haligned hnext) (by rw [hrest]; rfl)

theorem Accepted.property (h : Accepted b off) (hname : (0 : Octet) ∉ name)
    (hlength : name.length < dtPropNameLen) :
    dtProperty b (nodeAt b off) name = found (dtProp b off name) := by
  obtain ⟨-, hheader, children, -, hprops, -, -⟩ := h.node
  unfold dtProperty dtProp
  rw [hheader]
  exact propertyLoop_eq hname hlength (h.aligned.add (by decide)) (by
    rw [show (nodeAt b off).nProps = rd32 b off from rfl,
      show (nodeAt b off).propsOff = off + nodeHeader from rfl, hprops]
    rfl)

theorem nameKey_facts : (0 : Octet) ∉ nameKey ∧ nameKey.length < dtPropNameLen := by decide

theorem Accepted.named (h : Accepted b off) {component : ℕ} (hname : (0 : Octet) ∉ name)
    (hpath : path.take component = name) (hcomponent : name.length = component) :
    isNamed b (nodeAt b off) name = isCalled b off path component := by
  unfold isNamed isCalled
  rw [h.property nameKey_facts.1 nameKey_facts.2, hpath]
  rcases dtProp b off nameKey with _ | ⟨v, n⟩
  · rfl
  · subst hcomponent
    have hsame : sameString (b.drop v) name name.length =
        decide ((b.drop v).take name.length = name) := by
      rw [Bool.eq_iff_iff, sameString_value hname, decide_eq_true_iff]
    change (_ && _ && _) = _
    rw [hsame]

/-- Among the children, both find the same one or none. -/
theorem childLoop_eq {component n levels' last' : ℕ} (hname : (0 : Octet) ∉ name)
    (hpath : path.take component = name) (hcomponent : name.length = component) (haligned : 4 ∣ p)
    (hlevels : levels ≤ dtMaxDepth + 1) (hlevels' : levels' ≤ nestingGuard)
    (hparsed : walk (skipNode b levels) n p = some last)
    (hwalked : walk (dtSubtreeEnd b levels') n p = some last') :
    childLoop b name n p = found ((dtChildLoop b path component n p).map (nodeAt b)) ∧
      ∀ child, dtChildLoop b path component n p = some child → Accepted b child := by
  induction n generalizing p with
  | zero => exact ⟨rfl, fun _ h ↦ nomatch h⟩
  | succ n ih =>
    obtain ⟨next, hnext, hrest⟩ := walk_succ_eq_some.1 hparsed
    obtain ⟨next', hnext', hrest'⟩ := walk_succ_eq_some.1 hwalked
    obtain ⟨rfl, hto⟩ := subtree_agree haligned hnext hnext'
    have hnode : Accepted b p := ⟨haligned, ⟨levels, next, hlevels, hnext⟩,
      ⟨levels', next, hlevels', hnext'⟩⟩
    rw [childLoop, dtChildLoop, readNode_eq_ok.2 ⟨hnode.node.1, rfl⟩]
    dsimp only
    rw [hnode.named hname hpath hcomponent]
    by_cases hcalled : isCalled b p path component = true
    · rw [if_pos hcalled, if_pos hcalled]
      exact ⟨rfl, fun child hchild ↦ Option.some.inj hchild ▸ hnode⟩
    · rw [if_neg hcalled, if_neg hcalled, skipNode_mono hlevels hnext,
        dtSubtreeEnd_mono hlevels' hnext']
      exact ih hto hrest hrest'

/-- No component of a path is as long as the name field. -/
def ShortComponents (path : List Octet) : Prop :=
  ∀ segment, segment <:+: path → (0x2f : Octet) ∉ segment → segment.length < dtPropNameLen

theorem dtPath_nil (node : DtNode) (h : skipSlashes path = []) :
    Firmware.dtPath b node path = .ok node := by
  rw [Firmware.dtPath]
  split
  case h_1 => rfl
  case h_2 first rest hother =>
    rw [h] at hother
    cases hother

theorem dtPath_cons (node : DtNode) (h : skipSlashes path = first :: rest)
    (hshort : ((first :: rest).takeWhile (· ≠ 0x2f)).length < dtPropNameLen)
    (hsome : (first :: rest).takeWhile (· ≠ 0x2f) ≠ []) : Firmware.dtPath b node path =
      match dtChild b node ((first :: rest).takeWhile (· ≠ 0x2f)) with
      | .error e => .error e
      | .ok child => Firmware.dtPath b child
          ((first :: rest).drop ((first :: rest).takeWhile (· ≠ 0x2f)).length) := by
  rw [Firmware.dtPath]
  split
  case h_1 hnil =>
    rw [h] at hnil
    cases hnil
  case h_2 first' rest' hother =>
    rw [h] at hother
    cases hother
    dsimp only
    refine (dif_neg ?_).trans rfl
    rw [not_or, length_eq_zero_iff]
    exact ⟨hsome, Nat.not_le.2 hshort⟩

theorem dtPathFrom_nil (h : skipSlashes path = []) : dtPathFrom b off path = some off := by
  rw [dtPathFrom]
  split
  case h_1 => rfl
  case h_2 first rest hother =>
    rw [h] at hother
    cases hother

theorem dtPathFrom_cons (h : skipSlashes path = first :: rest) : dtPathFrom b off path =
      match dtHeader b off with
      | none => none
      | some (_, nChildren) =>
        match (dtPropsEnd b off).bind (dtChildLoop b (first :: rest)
          ((first :: rest).takeWhile (· ≠ 0x2f)).length nChildren) with
        | none => none
        | some child => dtPathFrom b child
            ((first :: rest).drop (((first :: rest).takeWhile (· ≠ 0x2f)).length + 1)) := by
  rw [dtPathFrom]
  split
  case h_1 hnil =>
    rw [h] at hnil
    cases hnil
  case h_2 first' rest' hother =>
    rw [h] at hother
    cases hother
    rfl

theorem dtPathFrom_congr {path' : List Octet} (h : skipSlashes path = skipSlashes path') :
    dtPathFrom b off path = dtPathFrom b off path' := by
  rcases hpath : skipSlashes path with _ | ⟨first, rest⟩
  · rw [dtPathFrom_nil hpath, dtPathFrom_nil (h.symm.trans hpath)]
  · rw [dtPathFrom_cons hpath, dtPathFrom_cons (h.symm.trans hpath)]

theorem takeWhile_cons_component {octet : Octet} (h : octet ≠ 0x2f) (text : List Octet) :
    (octet :: text).takeWhile (· ≠ 0x2f) = octet :: text.takeWhile (· ≠ 0x2f) :=
  takeWhile_cons_of_pos (decide_eq_true h)

/-- What is left of a path is the same with and without the separator in front of it. -/
theorem skipSlashes_drop (text : List Octet) :
    skipSlashes (text.drop (text.takeWhile (· ≠ 0x2f)).length) =
      skipSlashes (text.drop ((text.takeWhile (· ≠ 0x2f)).length + 1)) := by
  induction text with
  | nil => rfl
  | cons octet text ih =>
    by_cases hslash : octet = 0x2f
    · rw [takeWhile_cons_of_neg (by simp [hslash]), length_nil, drop_zero, zero_add,
        drop_one, tail_cons]
      unfold skipSlashes
      rw [dropWhile_cons_of_pos (by simp [hslash])]
    · rw [takeWhile_cons_component hslash, length_cons, drop_succ_cons, drop_succ_cons]
      exact ih

theorem head_of_skipSlashes (h : skipSlashes path = first :: rest) : first ≠ 0x2f := by
  rintro rfl
  have hhead := head?_dropWhile_not (fun octet : Octet ↦ decide (octet = 0x2f)) path
  rw [show path.dropWhile (· = 0x2f) = 0x2f :: rest from h] at hhead
  cases hhead

/-- Along a path both walkers get to the same node, or neither gets anywhere. -/
theorem Accepted.atPath (h : Accepted b off) (hpath : (0 : Octet) ∉ path)
    (hshort : ShortComponents path) :
    Firmware.dtPath b (nodeAt b off) path = found ((dtPathFrom b off path).map (nodeAt b)) ∧
      ∀ node, dtPathFrom b off path = some node → Accepted b node := by
  induction hlength : path.length using Nat.strong_induction_on generalizing path off with
  | _ length ih =>
    rcases hskip : skipSlashes path with _ | ⟨first, rest⟩
    · rw [dtPath_nil _ hskip, dtPathFrom_nil hskip]
      exact ⟨rfl, fun node hnode ↦ Option.some.inj hnode ▸ h⟩
    have hsuffix : first :: rest <:+ path := by
      rw [← hskip]
      exact dropWhile_suffix _
    have hfirst := head_of_skipSlashes hskip
    have hseg : (first :: rest).takeWhile (· ≠ 0x2f) <+: first :: rest := takeWhile_prefix _
    have hmem : (0x2f : Octet) ∉ (first :: rest).takeWhile (· ≠ 0x2f) := by
      intro hslash
      have hall := all_eq_true.1 all_takeWhile _ hslash
      simp at hall
    have hsome : (first :: rest).takeWhile (· ≠ 0x2f) ≠ [] := by
      rw [takeWhile_cons_component hfirst]
      exact cons_ne_nil _ _
    have hseglen := hshort _ (hseg.isInfix.trans hsuffix.isInfix) hmem
    have hnonzero : (0 : Octet) ∉ (first :: rest).takeWhile (· ≠ 0x2f) :=
      fun hzero ↦ hpath (hsuffix.subset (hseg.subset hzero))
    rw [dtPath_cons _ hskip hseglen hsome, dtPathFrom_cons hskip]
    have hdrop := skipSlashes_drop (first :: rest)
    have htake : (first :: rest).take ((first :: rest).takeWhile (· ≠ 0x2f)).length =
        (first :: rest).takeWhile (· ≠ 0x2f) := (prefix_iff_eq_take.1 hseg).symm
    generalize (first :: rest).takeWhile (· ≠ 0x2f) = seg at *
    obtain ⟨-, hheader, children, haligned, hprops, ⟨levels, last, hlevels, hparsed⟩,
      ⟨levels', last', hlevels', hwalked⟩⟩ := h.node
    have hend : dtPropsEnd b off = some children := by
      unfold dtPropsEnd
      rw [hheader]
      exact hprops
    have hchild : dtChild b (nodeAt b off) seg = childLoop b seg (rd32 b (off + 4)) children := by
      unfold dtChild
      rw [show (nodeAt b off).propsOff = off + nodeHeader from rfl,
        walk_skipProperty (h.aligned.add (by decide)),
        show (nodeAt b off).nProps = rd32 b off from rfl, hprops]
      rfl
    obtain ⟨hloop, hkids⟩ := childLoop_eq hnonzero htake rfl haligned hlevels hlevels' hparsed
      hwalked
    rw [hchild, hloop, hheader, hend]
    dsimp only [bind_some]
    rcases hfound : dtChildLoop b (first :: rest) seg.length (rd32 b (off + 4)) children with
      _ | child
    · exact ⟨rfl, fun _ hnode ↦ nomatch hnode⟩
    · dsimp only [map_some, found]
      rw [← dtPathFrom_congr hdrop]
      have hrest : (first :: rest).drop seg.length <:+ path := (drop_suffix _ _).trans hsuffix
      refine ih _ ?_ (hkids child hfound) (fun hzero ↦ hpath (hrest.subset hzero))
        (fun segment hin ↦ hshort segment (hin.trans hrest.isInfix)) rfl
      have hpos := length_pos_of_ne_nil hsome
      have hle := hsuffix.length_le
      rw [length_cons] at hle
      rw [length_drop, length_cons]
      omega

/-- In a tree that both walkers accept, a path leads both to the same node and a name both to the
same value, or both find nothing. -/
theorem walkers_agree {root : DtNode} (hparse : dtParse b = .ok root)
    (hwalk : (dtSubtreeEnd b nestingGuard 0).isSome) (hpath : (0 : Octet) ∉ path)
    (hshort : ShortComponents path) (hname : (0 : Octet) ∉ name)
    (hlength : name.length < dtPropNameLen) :
    (∃ node, Firmware.dtPath b root path = .ok node ∧ dtPath b path = some node.offset ∧
        ((∃ value, dtProperty b node name = .ok value ∧ dtProp b node.offset name = some value) ∨
          dtProperty b node name = .error .notFound ∧ dtProp b node.offset name = none)) ∨
      Firmware.dtPath b root path = .error .notFound ∧ dtPath b path = none := by
  unfold dtParse at hparse
  split at hparse
  · cases hparse
  rcases hparsed : skipNode b (dtMaxDepth + 1) 0 with _ | last
  · rw [hparsed] at hparse
    cases hparse
  rw [hparsed] at hparse
  obtain ⟨-, rfl⟩ := readNode_eq_ok.1 hparse
  obtain ⟨last', hwalked⟩ := isSome_iff_exists.1 hwalk
  have hroot : Accepted b 0 := ⟨Nat.dvd_zero 4, ⟨_, last, le_rfl, hparsed⟩,
    ⟨_, last', le_rfl, hwalked⟩⟩
  obtain ⟨hfind, hnode⟩ := hroot.atPath hpath hshort
  unfold dtPath
  rw [hfind]
  rcases hat : dtPathFrom b 0 path with _ | off
  · exact .inr ⟨rfl, rfl⟩
  · refine .inl ⟨nodeAt b off, rfl, rfl, ?_⟩
    rw [(hnode off hat).property hname hlength, show (nodeAt b off).offset = off from rfl]
    rcases dtProp b off name with _ | value
    · exact .inr ⟨rfl, rfl⟩
    · exact .inl ⟨value, rfl, rfl⟩

/-- A property with a value of four octets. -/
def sampleProperty (name value : List Octet) : List Octet :=
  name ++ List.replicate (32 - name.length) 0 ++ [4, 0, 0, 0] ++ value

/-- A root with one child, `cpus`. -/
def sampleTree : List Octet :=
  [1, 0, 0, 0, 1, 0, 0, 0] ++ sampleProperty nameKey [0x72, 0x6f, 0x6f, 0x74] ++
    [2, 0, 0, 0, 0, 0, 0, 0] ++ sampleProperty nameKey [0x63, 0x70, 0x75, 0x73] ++
      sampleProperty [0x72, 0x65, 0x67] [1, 2, 3, 4]

theorem walkers_agree_sampleTree :
    (∃ node, Firmware.dtPath sampleTree (nodeAt sampleTree 0) [0x2f, 0x63, 0x70, 0x75, 0x73] =
        .ok node ∧ dtPath sampleTree [0x2f, 0x63, 0x70, 0x75, 0x73] = some node.offset ∧
        ((∃ value, dtProperty sampleTree node [0x72, 0x65, 0x67] = .ok value ∧
            dtProp sampleTree node.offset [0x72, 0x65, 0x67] = some value) ∨
          dtProperty sampleTree node [0x72, 0x65, 0x67] = .error .notFound ∧
            dtProp sampleTree node.offset [0x72, 0x65, 0x67] = none)) ∨
      Firmware.dtPath sampleTree (nodeAt sampleTree 0) [0x2f, 0x63, 0x70, 0x75, 0x73] =
          .error .notFound ∧
        dtPath sampleTree [0x2f, 0x63, 0x70, 0x75, 0x73] = none :=
  walkers_agree (by decide +kernel) (by decide +kernel) (by decide)
    (fun _ hin _ ↦ hin.length_le.trans_lt (by decide)) (by decide) (by decide)

end S5LBox.Boot
