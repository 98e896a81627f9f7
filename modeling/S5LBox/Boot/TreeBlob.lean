import S5LBox.Boot.Walkers
import S5LBox.Firmware.TreeReads

/-!
# Lookups agree with the tree

A tree of nodes with named properties and its octets in the flattened format. The parser accepts the
octets, a path is followed from child to child by name, and a property is found with the value the
tree gives it.
-/

namespace S5LBox.Boot

open Firmware LittleEndian

/-- A property; the flag is the top bit of its length. -/
structure Property where
  name : List Octet
  value : List Octet
  flag : Bool
  name_lt : name.length < dtPropNameLen
  text : (0 : Octet) ∉ name
  value_lt : value.length < 2 ^ 31

def Property.flat (q : Property) : List Octet :=
  q.name ++ List.replicate (dtPropNameLen - q.name.length) 0 ++
    put 4 (q.value.length + if q.flag then 2 ^ 31 else 0) ++
      (q.value ++ List.replicate (align4 q.value.length - q.value.length) 0)

inductive Tree
  | node (props : List Property) (children : List Tree)

namespace Tree

def props : Tree → List Property
  | .node props _ => props

def children : Tree → List Tree
  | .node _ children => children

mutual

def flat : Tree → List Octet
  | .node props children =>
    put 4 props.length ++ put 4 children.length ++ (props.flatMap Property.flat ++ flatAll children)

def flatAll : List Tree → List Octet
  | [] => []
  | t :: trees => flat t ++ flatAll trees

end

/-- No more than so many levels, and numbers that fit their fields. -/
def Within : ℕ → Tree → Prop
  | 0, _ => False
  | levels + 1, .node props children =>
    props.length < 2 ^ 32 ∧ children.length < 2 ^ 32 ∧ ∀ t ∈ children, Within levels t

/-- The value of the first property with a name. -/
def value (t : Tree) (name : List Octet) : Option (List Octet) :=
  (t.props.find? (·.name = name)).map Property.value

/-- What a node is called: the text of its property `name`. -/
def title (t : Tree) : Option (List Octet) := (t.value nameKey).map (List.takeWhile (· ≠ 0))

/-- Follow the first child of each name; no name is longer than the name field takes. -/
def lookup : Tree → List (List Octet) → Option Tree
  | t, [] => some t
  | t, name :: names =>
    if name.length < dtPropNameLen then
      (t.children.find? (·.title = some name)).bind (lookup · names)
    else none

theorem flatAll_eq (trees : List Tree) : flatAll trees = trees.flatMap flat := by
  induction trees with
  | nil => rw [flatAll, List.flatMap_nil]
  | cons t trees ih => rw [flatAll, ih, List.flatMap_cons]

theorem flat_node (props : List Property) (children : List Tree) : (Tree.node props children).flat =
    put 4 props.length ++ put 4 children.length ++
      (props.flatMap Property.flat ++ children.flatMap flat) := by
  rw [flat, flatAll_eq]

end Tree

/-- The components of a path. -/
def components (path : List Octet) : List (List Octet) := (path.splitOn 0x2f).filter (· ≠ [])

/-- A tree lies in the blob from `off` on, with anything behind it. -/
structure Lies (blob : List Octet) (off : ℕ) (t : Tree) : Prop where
  aligned : 4 ∣ off
  within : ∃ levels ≤ dtMaxDepth + 1, t.Within levels
  flat : ∃ rest, blob.drop off = t.flat ++ rest

/-- A lookup comes to the tree that it should, or finds nothing. -/
def Leads (blob : List Octet) : Option Tree → Except DtStatus DtNode → Prop
  | some t, r => ∃ off, r = .ok (nodeAt blob off) ∧ Lies blob off t
  | none, r => r = .error .notFound

/-- A property of a node is found with its value, or not found. -/
def Reads (blob : List Octet) (node : DtNode) (t : Tree) : Prop :=
  ∀ name, (0 : Octet) ∉ name → match t.value name with
    | some value => ∃ v, dtProperty blob node name = .ok (v, value.length) ∧
        (blob.drop v).take value.length = value
    | none => dtProperty blob node name = .error .notFound

variable {blob first rest : List Octet} {off p : ℕ}

theorem length_of_drop (h : blob.drop p = first ++ rest) (hfirst : 0 < first.length) :
    p + first.length + rest.length = blob.length := by
  have hlength := congrArg List.length h
  rw [List.length_drop, List.length_append] at hlength
  omega

theorem drop_past (h : blob.drop p = first ++ rest) : blob.drop (p + first.length) = rest := by
  rw [← List.drop_drop, h, List.drop_left]

theorem rd32_of_put {head tail : List Octet} {n v : ℕ} (hhead : head.length = n) (hv : v < 2 ^ 32)
    (h : blob.drop p = head ++ put 4 v ++ tail) : rd32 blob (p + n) = v := by
  calc rd32 blob (p + n)
      = rd32 (blob.drop p) n := by rw [rd32, rd32, List.drop_drop]
    _ = v := by rw [h, rd32_put head tail hhead hv]

theorem walk_flatMap {α : Type} {step : ℕ → Option ℕ} {f : α → List Octet} {xs : List α}
    (hstep : ∀ x ∈ xs, ∀ p rest, 4 ∣ p → blob.drop p = f x ++ rest →
      step p = some (p + (f x).length) ∧ 4 ∣ (f x).length)
    (hp : 4 ∣ p) (h : blob.drop p = xs.flatMap f ++ rest) :
    walk step xs.length p = some (p + (xs.flatMap f).length) ∧ 4 ∣ (xs.flatMap f).length := by
  induction xs generalizing p with
  | nil => exact ⟨rfl, Nat.dvd_zero 4⟩
  | cons x xs ih =>
    rw [List.flatMap_cons, List.append_assoc] at h
    obtain ⟨hone, hlength⟩ := hstep x List.mem_cons_self p _ hp h
    obtain ⟨hwalk, hrest⟩ := ih (fun y hy ↦ hstep y (List.mem_cons_of_mem _ hy)) (hp.add hlength)
      (drop_past h)
    rw [List.flatMap_cons, List.length_append, ← Nat.add_assoc]
    exact ⟨walk_succ_eq_some.2 ⟨_, hone, hwalk⟩, hlength.add hrest⟩

variable {q : Property} {name : List Octet}

theorem Property.length_flat (q : Property) :
    q.flat.length = propHeader + align4 q.value.length := by
  have hname := q.name_lt
  have hvalue := le_align4 q.value.length
  have hheader : propHeader = dtPropNameLen + 4 := rfl
  simp only [Property.flat, List.length_append, List.length_replicate, length_put]
  omega

theorem Property.header (h : blob.drop p = q.flat ++ rest) :
    propLen blob p = q.value.length ∧ (blob.drop (p + propHeader)).take q.value.length = q.value ∧
      p + propHeader + align4 q.value.length ≤ blob.length := by
  have hname := q.name_lt
  have hvalue := q.value_lt
  have hfield : (q.name ++ List.replicate (dtPropNameLen - q.name.length) (0 : Octet)).length =
      dtPropNameLen := by
    rw [List.length_append, List.length_replicate]
    omega
  have hlength := length_of_drop h (by rw [q.length_flat, propHeader]; omega)
  rw [q.length_flat] at hlength
  refine ⟨?_, ?_, by omega⟩
  · rw [propLen, rd32_of_put (v := q.value.length + if q.flag then 2 ^ 31 else 0) hfield
      (by split <;> omega) (by rw [h, Property.flat, List.append_assoc])]
    split <;> omega
  · have hheader : (q.name ++ List.replicate (dtPropNameLen - q.name.length) 0 ++
        put 4 (q.value.length + if q.flag then 2 ^ 31 else 0)).length = propHeader := by
      rw [List.length_append, hfield, length_put]
      rfl
    rw [← List.drop_drop, h, Property.flat, List.append_assoc _ _ rest, List.drop_left' hheader,
      List.append_assoc, List.take_left' rfl]

theorem Property.skip (hp : 4 ∣ p) (h : blob.drop p = q.flat ++ rest) :
    skipProperty blob p = some (p + q.flat.length) ∧ 4 ∣ q.flat.length := by
  obtain ⟨hlen, -, hend⟩ := Property.header h
  have hsize : propHeader = dtPropHdr := rfl
  rw [skipProperty_eq hp, dtPropEnd_eq_some, q.length_flat, hlen]
  exact ⟨⟨by omega, by omega⟩, (show 4 ∣ propHeader by decide).add (dvd_align4 _)⟩

theorem Property.named (hname : (0 : Octet) ∉ name) (h : blob.drop p = q.flat ++ rest) :
    sameString (blob.drop p) name dtPropNameLen = true ↔ q.name = name := by
  have hlt := q.name_lt
  obtain ⟨zeros, hzeros⟩ : ∃ zeros, List.replicate (dtPropNameLen - q.name.length) (0 : Octet) =
      0 :: zeros := by
    obtain ⟨n, hn⟩ : ∃ n, dtPropNameLen - q.name.length = n + 1 :=
      Nat.exists_eq_add_one.2 (by omega)
    exact ⟨List.replicate n 0, by rw [hn, List.replicate_succ]⟩
  have hfield : (q.name ++ List.replicate (dtPropNameLen - q.name.length) (0 : Octet)).length =
      dtPropNameLen := by
    rw [List.length_append, List.length_replicate]
    omega
  have hseen : ((blob.drop p).take dtPropNameLen).takeWhile (· ≠ 0) = q.name := by
    rw [h, Property.flat, List.append_assoc, List.append_assoc, List.take_left' hfield, hzeros,
      takeWhile_text q.text]
  unfold sameString
  rw [decide_eq_true_iff, hseen, takeWhile_of_notMem (notMem_take hname _)]
  constructor
  · intro hsame
    have hlength := congrArg List.length hsame
    rw [List.length_take] at hlength
    rw [hsame, List.take_of_length_le (by omega)]
  · rintro rfl
    rw [List.take_of_length_le hlt.le]

theorem propertyLoop_flat {props : List Property} (hname : (0 : Octet) ∉ name) (hp : 4 ∣ p)
    (h : blob.drop p = props.flatMap Property.flat ++ rest) :
    match (props.find? (·.name = name)).map Property.value with
    | some value => ∃ v, propertyLoop blob name props.length p = .ok (v, value.length) ∧
        (blob.drop v).take value.length = value
    | none => propertyLoop blob name props.length p = .error .notFound := by
  induction props generalizing p with
  | nil => rfl
  | cons q props ih =>
    rw [List.flatMap_cons, List.append_assoc] at h
    obtain ⟨hlen, hvalue, hend⟩ := Property.header h
    obtain ⟨hskip, hlength⟩ := Property.skip hp h
    have hpad := le_align4 q.value.length
    rw [List.length_cons, propertyLoop, if_pos (by unfold Fits; omega)]
    by_cases hq : q.name = name
    · rw [List.find?_cons_of_pos (by exact decide_eq_true hq), Option.map_some,
        if_pos ((Property.named hname h).2 hq), if_pos (by unfold Fits; omega), hlen]
      exact ⟨_, rfl, hvalue⟩
    · rw [List.find?_cons_of_neg (by simpa using hq),
        if_neg fun hsame ↦ hq ((Property.named hname h).1 hsame), hskip]
      exact ih (hp.add hlength) (drop_past h)

variable {t : Tree} {levels : ℕ}

theorem Tree.header (hwithin : t.Within levels) (h : blob.drop off = t.flat ++ rest) :
    Fits blob off nodeHeader ∧ rd32 blob off = t.props.length ∧
      rd32 blob (off + 4) = t.children.length ∧ blob.drop (off + nodeHeader) =
        t.props.flatMap Property.flat ++ (t.children.flatMap Tree.flat ++ rest) := by
  obtain ⟨props, children⟩ := t
  cases levels with
  | zero => exact hwithin.elim
  | succ levels =>
    obtain ⟨hprops, hchildren, -⟩ := hwithin
    rw [Tree.flat_node, List.append_assoc] at h
    have hheader : (put 4 props.length ++ put 4 children.length).length = nodeHeader := by
      rw [List.length_append, length_put, length_put]
      rfl
    have hlength := length_of_drop h (by rw [hheader]; decide)
    refine ⟨by unfold Fits; omega, ?_, ?_, ?_⟩
    · exact @rd32_of_put blob off [] _ 0 _ rfl hprops (h.trans (List.append_assoc _ _ _))
    · exact rd32_of_put (length_put 4 _) hchildren h
    · rw [← hheader, drop_past h, List.append_assoc]
      rfl

/-- Every part of a tree is passed over to its end. -/
theorem skipNode_flat (hwithin : t.Within levels) (hoff : 4 ∣ off)
    (h : blob.drop off = t.flat ++ rest) :
    skipNode blob levels off = some (off + t.flat.length) ∧ 4 ∣ t.flat.length := by
  induction levels generalizing t off rest with
  | zero => exact hwithin.elim
  | succ levels ih =>
    obtain ⟨hfits, hprops, hchildren, hdrop⟩ := Tree.header hwithin h
    obtain ⟨props, children⟩ := t
    have hstart : 4 ∣ off + nodeHeader := hoff.add (by decide)
    obtain ⟨hwalk, hlength⟩ := walk_flatMap (fun q _ p rest hp h ↦ Property.skip hp h) hstart hdrop
    obtain ⟨hwalk', hlength'⟩ := walk_flatMap (fun t ht p rest hp h ↦ ih (hwithin.2.2 t ht) hp h)
      (hstart.add hlength) (drop_past hdrop)
    have hflat : (Tree.node props children).flat.length =
        nodeHeader + (props.flatMap Property.flat).length +
          (children.flatMap Tree.flat).length := by
      rw [Tree.flat_node]
      simp only [List.length_append, length_put, nodeHeader]
      omega
    rw [skipNode_succ_eq_some, hprops, hchildren, hflat, ← Nat.add_assoc, ← Nat.add_assoc]
    exact ⟨⟨hfits, _, hwalk, hwalk'⟩, ((show 4 ∣ nodeHeader by decide).add hlength).add hlength'⟩

theorem Lies.reads (h : Lies blob off t) : Reads blob (nodeAt blob off) t := by
  intro name hname
  obtain ⟨levels, -, hwithin⟩ := h.within
  obtain ⟨rest, hflat⟩ := h.flat
  obtain ⟨-, hprops, -, hdrop⟩ := Tree.header hwithin hflat
  have hloop := propertyLoop_flat hname (h.aligned.add (by decide)) hdrop
  rw [← hprops] at hloop
  exact hloop

theorem takeWhile_eq_iff {value : List Octet} (hname : (0 : Octet) ∉ name) :
    value.takeWhile (· ≠ 0) = name ↔ name.length ≤ value.length ∧ value.take name.length = name ∧
        (value.length = name.length ∨ octetAt value name.length = 0) := by
  induction value generalizing name with
  | nil =>
    constructor
    · rintro rfl
      exact ⟨le_rfl, rfl, .inl rfl⟩
    · rintro ⟨hle, -, -⟩
      exact (List.length_eq_zero_iff.1 (Nat.le_zero.1 hle)).symm
  | cons c value ih =>
    cases name with
    | nil =>
      by_cases hc : c = 0
      · subst hc
        exact ⟨fun _ ↦ ⟨Nat.zero_le _, rfl, .inr rfl⟩, fun _ ↦ rfl⟩
      · rw [List.takeWhile_cons_of_pos (by exact decide_eq_true hc)]
        refine ⟨(nomatch ·), fun ⟨_, _, hend⟩ ↦ ?_⟩
        rcases hend with hend | hend
        · cases hend
        · exact absurd hend hc
    | cons a name =>
      have ha : a ≠ 0 := fun hzero ↦ hname (hzero ▸ List.mem_cons_self)
      by_cases hc : c = 0
      · subst hc
        refine ⟨(nomatch ·), fun ⟨_, htake, _⟩ ↦ ?_⟩
        exact absurd (List.cons.inj htake).1.symm ha
      · rw [List.takeWhile_cons_of_pos (by exact decide_eq_true hc), List.cons.injEq,
          ih fun hmem ↦ hname (List.mem_cons_of_mem _ hmem), List.length_cons, List.length_cons,
          List.take_succ_cons, List.cons.injEq, Nat.add_le_add_iff_right, Nat.add_right_cancel_iff]
        change _ ↔ _ ∧ _ ∧ (_ ∨ octetAt value name.length = 0)
        tauto

theorem Lies.named (h : Lies blob off t) (hname : (0 : Octet) ∉ name) :
    isNamed blob (nodeAt blob off) name = true ↔ t.title = some name := by
  have hread := h.reads nameKey nameKey_facts.1
  unfold isNamed Tree.title
  cases hvalue : t.value nameKey with
  | none =>
    rw [hvalue] at hread
    rw [hread]
    exact ⟨(nomatch ·), (nomatch ·)⟩
  | some value =>
    rw [hvalue] at hread
    obtain ⟨v, hfind, htake⟩ := hread
    rw [hfind, Option.map_some, Option.some.injEq, takeWhile_eq_iff hname]
    dsimp only
    rw [Bool.and_eq_true, Bool.and_eq_true, Bool.or_eq_true, decide_eq_true_iff, decide_eq_true_iff,
      decide_eq_true_iff, sameString_value hname, and_assoc]
    refine and_congr_right fun hle ↦ and_congr ?_ ?_
    · rw [← htake, List.take_take, min_eq_left hle]
    · by_cases hlength : value.length = name.length
      · exact ⟨fun _ ↦ .inl hlength, fun _ ↦ .inl hlength⟩
      · have hat : octetAt value name.length = octetAt blob (v + name.length) := by
          conv_lhs => rw [← htake]
          unfold octetAt
          rw [List.getD_eq_getElem?_getD, List.getD_eq_getElem?_getD,
            List.getElem?_take_of_lt (by omega), List.getElem?_drop]
        rw [hat]

theorem childLoop_flat {children : List Tree} (hname : (0 : Octet) ∉ name)
    (hlevels : levels ≤ dtMaxDepth + 1) (hwithin : ∀ t ∈ children, t.Within levels) (hp : 4 ∣ p)
    (h : blob.drop p = children.flatMap Tree.flat ++ rest) :
    Leads blob (children.find? (·.title = some name)) (childLoop blob name children.length p) := by
  induction children generalizing p with
  | nil => rfl
  | cons t children ih =>
    rw [List.flatMap_cons, List.append_assoc] at h
    have ht := hwithin t List.mem_cons_self
    obtain ⟨hskip, hlength⟩ := skipNode_flat ht hp h
    have hlies : Lies blob p t := ⟨hp, ⟨levels, hlevels, ht⟩, _, h⟩
    rw [List.length_cons, childLoop, readNode_eq_ok.2 ⟨(Tree.header ht h).1, rfl⟩]
    dsimp only
    by_cases htitle : t.title = some name
    · rw [List.find?_cons_of_pos (by exact decide_eq_true htitle),
        if_pos ((hlies.named hname).2 htitle)]
      exact ⟨p, rfl, hlies⟩
    · rw [List.find?_cons_of_neg (by simpa using htitle),
        if_neg fun hcalled ↦ htitle ((hlies.named hname).1 hcalled), skipNode_mono hlevels hskip]
      exact ih (fun t ht ↦ hwithin t (List.mem_cons_of_mem _ ht)) (hp.add hlength) (drop_past h)

theorem Lies.child (h : Lies blob off t) (hname : (0 : Octet) ∉ name) :
    Leads blob (t.children.find? (·.title = some name)) (dtChild blob (nodeAt blob off) name) := by
  obtain ⟨levels, hlevels, hwithin⟩ := h.within
  obtain ⟨rest, hflat⟩ := h.flat
  obtain ⟨-, hprops, hchildren, hdrop⟩ := Tree.header hwithin hflat
  have hstart : 4 ∣ off + nodeHeader := h.aligned.add (by decide)
  obtain ⟨hwalk, hlength⟩ := walk_flatMap (fun q _ p rest hp h ↦ Property.skip hp h) hstart hdrop
  have hchild : dtChild blob (nodeAt blob off) name = childLoop blob name t.children.length
      (off + nodeHeader + (t.props.flatMap Property.flat).length) := by
    unfold dtChild nodeAt
    dsimp only
    rw [hprops, hchildren, hwalk]
  rw [hchild]
  obtain ⟨props, children⟩ := t
  cases levels with
  | zero => exact hwithin.elim
  | succ levels =>
    exact childLoop_flat hname (by omega) hwithin.2.2 (hstart.add hlength) (drop_past hdrop)

theorem components_slash (path : List Octet) : components (0x2f :: path) = components path := by
  unfold components
  rw [List.splitOn_cons_eq_if_modifyHead, if_pos (by decide), List.filter_cons_of_neg (by decide)]

theorem components_skipSlashes (path : List Octet) :
    components (skipSlashes path) = components path := by
  induction path with
  | nil => rfl
  | cons c path ih =>
    unfold skipSlashes at ih ⊢
    by_cases hc : c = 0x2f
    · subst hc
      rw [List.dropWhile_cons_of_pos (by decide), ih, components_slash]
    · rw [List.dropWhile_cons_of_neg (by simpa using hc)]

theorem components_cons {first : Octet} {rest path : List Octet}
    (h : skipSlashes path = first :: rest) :
    components path = (first :: rest).takeWhile (· ≠ 0x2f) ::
      components ((first :: rest).drop ((first :: rest).takeWhile (· ≠ 0x2f)).length) := by
  have hfirst := head_of_skipSlashes h
  have hseg : (first :: rest).takeWhile (· ≠ 0x2f) ≠ [] := by
    rw [List.takeWhile_cons_of_pos (by exact decide_eq_true hfirst)]
    exact List.cons_ne_nil _ _
  have hslash : (0x2f : Octet) ∉ (first :: rest).takeWhile (· ≠ 0x2f) := fun hmem ↦
    absurd (List.mem_takeWhile_imp hmem) (by decide)
  have hsplit := List.takeWhile_append_dropWhile (p := (· ≠ (0x2f : Octet))) (l := first :: rest)
  have hdrop : (first :: rest).drop ((first :: rest).takeWhile (· ≠ 0x2f)).length =
      (first :: rest).dropWhile (· ≠ 0x2f) := by
    conv_lhs => rw [← hsplit]
    rw [List.drop_left' (by rw [hsplit])]
  have hhead := List.head?_dropWhile_not (fun octet : Octet ↦ decide (octet ≠ 0x2f)) (first :: rest)
  rw [← components_skipSlashes path, h, hdrop]
  conv_lhs => rw [← hsplit]
  generalize (first :: rest).takeWhile (· ≠ 0x2f) = seg at *
  generalize (first :: rest).dropWhile (· ≠ 0x2f) = tail at *
  cases tail with
  | nil =>
    unfold components
    rw [List.append_nil, List.splitOn_eq_singleton hslash,
      List.filter_cons_of_pos (by simpa using hseg)]
    rfl
  | cons c tail =>
    obtain rfl : c = 0x2f := by simpa using hhead
    rw [components_slash]
    unfold components
    rw [List.splitOn_append_cons_self_of_not_mem hslash,
      List.filter_cons_of_pos (by simpa using hseg)]

theorem dtPath_eq_followPath (cur : DtNode) (path : List Octet) :
    Firmware.dtPath blob cur path = followPath blob cur (components path) := by
  induction hn : path.length using Nat.strong_induction_on generalizing path cur with
  | _ n ih =>
    rcases hskip : skipSlashes path with _ | ⟨first, rest⟩
    · have hnil : components path = [] := by
        rw [← components_skipSlashes, hskip]
        rfl
      rw [dtPath_nil _ hskip, hnil]
      rfl
    · have hseg : (first :: rest).takeWhile (· ≠ 0x2f) ≠ [] := by
        rw [List.takeWhile_cons_of_pos (by exact decide_eq_true (head_of_skipSlashes hskip))]
        exact List.cons_ne_nil _ _
      rw [components_cons hskip, followPath]
      by_cases hshort : ((first :: rest).takeWhile (· ≠ 0x2f)).length < dtPropNameLen
      · have hless : ((first :: rest).drop
            ((first :: rest).takeWhile (· ≠ 0x2f)).length).length < n := by
          have hpos := List.length_pos_of_ne_nil hseg
          have hle := length_skipSlashes_le path
          rw [hskip, List.length_cons] at hle
          rw [List.length_drop, List.length_cons]
          omega
        rw [if_neg (Nat.not_le.2 hshort), dtPath_cons _ hskip hshort hseg]
        cases dtChild blob cur ((first :: rest).takeWhile (· ≠ 0x2f)) with
        | error => rfl
        | ok child => exact ih _ hless child _ rfl
      · rw [if_pos (Nat.le_of_not_lt hshort), Firmware.dtPath]
        split
        case h_1 hnil =>
          rw [hskip] at hnil
          cases hnil
        case h_2 first' rest' hother =>
          rw [hskip] at hother
          cases hother
          exact dif_pos (.inr (Nat.le_of_not_lt hshort))

theorem Lies.follow (h : Lies blob off t) {names : List (List Octet)}
    (hnames : ∀ name ∈ names, (0 : Octet) ∉ name) :
    Leads blob (t.lookup names) (followPath blob (nodeAt blob off) names) := by
  induction names generalizing off t with
  | nil => exact ⟨off, rfl, h⟩
  | cons name names ih =>
    rw [Tree.lookup, followPath]
    by_cases hshort : name.length < dtPropNameLen
    · have hchild := h.child (hnames name List.mem_cons_self)
      rw [if_pos hshort, if_neg (Nat.not_le.2 hshort)]
      cases hfind : t.children.find? (·.title = some name) with
      | none =>
        rw [hfind] at hchild
        rw [show dtChild blob (nodeAt blob off) name = .error .notFound from hchild]
        rfl
      | some child =>
        rw [hfind] at hchild
        obtain ⟨next, hnext, hlies⟩ := hchild
        rw [hnext]
        exact ih hlies fun name hname ↦ hnames name (List.mem_cons_of_mem _ hname)
    · rw [if_neg hshort, if_pos (Nat.le_of_not_lt hshort)]
      rfl

theorem subset_of_mem_splitOn {text part : List Octet} {c : Octet} (h : part ∈ text.splitOn c) :
    part ⊆ text := by
  induction text generalizing part with
  | nil =>
    obtain rfl := List.mem_singleton.1 h
    exact List.nil_subset _
  | cons a text ih =>
    rw [List.splitOn_cons_eq_if_modifyHead] at h
    split at h
    case isTrue =>
      rcases List.mem_cons.1 h with rfl | h
      · exact List.nil_subset _
      · exact List.Subset.trans (ih h) (List.subset_cons_self _ _)
    case isFalse =>
      obtain ⟨head, parts, hparts⟩ := List.exists_cons_of_ne_nil (List.splitOn_ne_nil c text)
      rw [hparts, List.modifyHead_cons] at h
      rw [hparts] at ih
      rcases List.mem_cons.1 h with rfl | h
      · exact List.cons_subset_cons a (ih List.mem_cons_self)
      · exact List.Subset.trans (ih (List.mem_cons_of_mem _ h)) (List.subset_cons_self _ _)

/-- The parser accepts a tree, follows paths in it and finds its values; and in whatever blob, no
lookup reads outside. -/
theorem dt_lookup : (∀ t : Tree, t.Within (dtMaxDepth + 1) →
      dtParse t.flat = .ok (nodeAt t.flat 0) ∧
        ∀ path, (0 : Octet) ∉ path → match t.lookup (components path) with
          | some found => ∃ node, Firmware.dtPath t.flat (nodeAt t.flat 0) path = .ok node ∧
              Reads t.flat node found
          | none => Firmware.dtPath t.flat (nodeAt t.flat 0) path = .error .notFound) ∧
      ∀ blob : List Octet, dtParseChecked blob = sound (dtParse blob) ∧
        ∀ (node : DtNode) (name path : List Octet),
          dtPropertyChecked blob node name = sound (dtProperty blob node name) ∧
          dtChildChecked blob node name = sound (dtChild blob node name) ∧
          dtPathChecked blob node (components path) = sound (Firmware.dtPath blob node path) := by
  refine ⟨fun t hwithin ↦ ?_, fun blob ↦ ⟨dtParseChecked_eq, fun node name path ↦
    ⟨propertyLoopChecked_eq _ _, dtChildChecked_eq node, ?_⟩⟩⟩
  · have hlies : Lies t.flat 0 t :=
      ⟨Nat.dvd_zero 4, ⟨_, le_rfl, hwithin⟩, [], (List.append_nil _).symm⟩
    obtain ⟨rest, hflat⟩ := hlies.flat
    obtain ⟨hfits, -⟩ := Tree.header hwithin hflat
    refine ⟨?_, fun path hpath ↦ ?_⟩
    · rw [dtParse, if_neg (by unfold Fits at hfits; omega),
        (skipNode_flat hwithin hlies.aligned hflat).1]
      exact readNode_eq_ok.2 ⟨hfits, rfl⟩
    · have hleads : Leads t.flat (t.lookup (components path)) _ := hlies.follow
        fun name hname hzero ↦ hpath (subset_of_mem_splitOn (List.mem_filter.1 hname).1 hzero)
      rw [← dtPath_eq_followPath] at hleads
      cases hlookup : t.lookup (components path) with
      | none =>
        rw [hlookup] at hleads
        exact hleads
      | some found =>
        rw [hlookup] at hleads
        obtain ⟨off, hpath, hfound⟩ := hleads
        exact ⟨_, hpath, hfound.reads⟩
  · rw [dtPath_eq_followPath, dtPathChecked_eq]

/-- A node with a name and nothing else. -/
def namedNode (name : Octet) (children : List Tree) : Tree :=
  .node [⟨nameKey, [name], false, by decide, by decide, (by decide : 1 < 2 ^ 31)⟩] children

/-- Two children of one name, the second of them with a child of its own. -/
def twins : Tree := .node [] [namedNode 0x61 [], namedNode 0x61 [namedNode 0x62 []]]

/-- There is a child chain of the names, but not below the first child. -/
theorem dtPath_twins :
    Firmware.dtPath twins.flat (nodeAt twins.flat 0) [0x61, 0x2f, 0x62] = .error .notFound ∧
      twins.Within (dtMaxDepth + 1) ∧ ∃ a ∈ twins.children, a.title = some [0x61] ∧
        ∃ b ∈ a.children, b.title = some [0x62] := by
  have hwithin : twins.Within (dtMaxDepth + 1) := by
    have hleaf (name : Octet) (levels : ℕ) : (namedNode name []).Within (levels + 1) :=
      ⟨(by decide : 1 < 2 ^ 32), by decide, fun t ht ↦ absurd ht List.not_mem_nil⟩
    have hinner : (namedNode 0x61 [namedNode 0x62 []]).Within 32 := by
      refine ⟨(by decide : 1 < 2 ^ 32), (by decide : 1 < 2 ^ 32), fun t ht ↦ ?_⟩
      obtain rfl := List.mem_singleton.1 ht
      exact hleaf 0x62 30
    refine ⟨by decide, (by decide : 2 < 2 ^ 32), fun t ht ↦ ?_⟩
    rcases List.mem_cons.1 ht with rfl | ht
    · exact hleaf 0x61 31
    · obtain rfl := List.mem_singleton.1 ht
      exact hinner
  have hlies : Lies twins.flat 0 twins :=
    ⟨Nat.dvd_zero 4, ⟨_, le_rfl, hwithin⟩, [], (List.append_nil _).symm⟩
  have hnames : components [0x61, 0x2f, 0x62] = [[0x61], [0x62]] := rfl
  refine ⟨?_, hwithin, namedNode 0x61 [namedNode 0x62 []], by simp [twins, Tree.children], rfl,
    namedNode 0x62 [], List.mem_singleton_self _, rfl⟩
  have hleads : Leads twins.flat (twins.lookup [[0x61], [0x62]]) _ :=
    hlies.follow (show ∀ name ∈ [[0x61], [0x62]], (0 : Octet) ∉ name by decide)
  rw [dtPath_eq_followPath, hnames]
  exact hleads

end S5LBox.Boot
