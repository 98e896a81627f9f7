import S5LBox.Boot.Patches

/-!
# The parts of a device tree

A complete tree lies in its blob as a row of parts without gaps: the headers of the nodes and the
properties, in the order in which the in-place walker goes over them. Everything the walker finds
is decided by the parts, by the names of the properties and by the values that name the nodes.
-/

namespace S5LBox.Boot

open Firmware

/-- The header of a node with its two numbers, or a property with the length of its value. -/
inductive Part
  | node (off nProps nChildren : ℕ)
  | property (p len : ℕ)
  deriving DecidableEq

namespace Part

def start : Part → ℕ
  | node off _ _ => off
  | property p _ => p

def stop : Part → ℕ
  | node off _ _ => off + 8
  | property p len => p + dtPropHdr + align4 len

def len : Part → ℕ
  | node _ _ _ => 0
  | property _ len => len

theorem start_lt_stop (part : Part) : part.start < part.stop := by
  cases part with
  | node off nProps nChildren => exact Nat.lt_add_of_pos_right (by decide)
  | property p len =>
    show p < p + dtPropHdr + align4 len
    have hpos : 0 < dtPropHdr := by decide
    omega

end Part

/-- One part behind the other from `lo` to `hi`. -/
def Tiles : (lo : ℕ) → List Part → (hi : ℕ) → Prop
  | lo, [], hi => lo = hi
  | lo, part :: parts, hi => part.start = lo ∧ Tiles part.stop parts hi

section

variable (b : List Octet)

/-- The text of the name field of the property at `p`. -/
def nameText (p : ℕ) : List Octet := ((b.drop p).take dtNameLen).takeWhile (· ≠ 0)

def propertyPart (p : ℕ) : Option (List Part × ℕ) :=
  (dtPropEnd b p).map fun next ↦ ([.property p (valueLen b p)], next)

/-- The parts of a node and everything below it, down to a number of levels, and where they end. -/
def partsFrom : ℕ → ℕ → Option (List Part × ℕ)
  | 0, _ => none
  | levels + 1, off =>
    match dtHeader b off with
    | none => none
    | some (nProps, nChildren) =>
      (gather (propertyPart b) nProps (off + 8)).bind fun props ↦
        (gather (partsFrom levels) nChildren props.2).map fun below ↦
          (.node off nProps nChildren :: (props.1 ++ below.1), below.2)

/-- The parts of a node and everything below it, where the tree is as the walker believes it. -/
def parts : Option (List Part × ℕ) := partsFrom b nestingGuard 0

end

/-- A part is read from another blob as it is read from the first. -/
def Part.Kept (b b' : List Octet) : Part → Prop
  | node off _ _ => dtHeader b' off = dtHeader b off
  | property p _ => dtPropEnd b' p = dtPropEnd b p ∧ valueLen b' p = valueLen b p

/-- A part that also names a node alike. -/
def Part.Alike (b b' : List Octet) : Part → Prop
  | node off _ _ => dtHeader b' off = dtHeader b off
  | property p len => (dtPropEnd b' p = dtPropEnd b p ∧ valueLen b' p = valueLen b p) ∧
      (nameText b' p = nameKey ↔ nameText b p = nameKey) ∧ (nameText b p = nameKey →
          (b'.drop (p + dtPropHdr)).take len = (b.drop (p + dtPropHdr)).take len)

variable {b b' : List Octet} {xs ys : List Part} {x y : Part} {lo mid hi p off : ℕ}

theorem Tiles.append (h : Tiles lo xs mid) (h' : Tiles mid ys hi) : Tiles lo (xs ++ ys) hi := by
  induction xs generalizing lo with
  | nil =>
    obtain rfl : lo = mid := h
    exact h'
  | cons x xs ih => exact ⟨h.1, ih h.2⟩

theorem Tiles.le (h : Tiles lo xs hi) (hx : x ∈ xs) : lo ≤ x.start := by
  induction xs generalizing lo with
  | nil => cases hx
  | cons y xs ih =>
    obtain ⟨rfl, hrest⟩ := h
    rcases List.mem_cons.1 hx with rfl | hx
    · exact le_rfl
    · exact y.start_lt_stop.le.trans (ih hrest hx)

theorem Tiles.sorted (h : Tiles lo xs hi) : xs.Pairwise fun x y ↦ x.stop ≤ y.start := by
  induction xs generalizing lo with
  | nil => exact .nil
  | cons x xs ih => exact .cons (fun y hy ↦ h.2.le hy) (ih h.2)

theorem Tiles.apart (h : Tiles lo xs hi) (hx : x ∈ xs) (hy : y ∈ xs) :
    x = y ∨ x.stop ≤ y.start ∨ y.stop ≤ x.start := by
  by_cases hsame : x = y
  · exact .inl hsame
  · have hpair : xs.Pairwise fun x y ↦ x.stop ≤ y.start ∨ y.stop ≤ x.start := h.sorted.imp .inl
    have hsymm : Std.Symm fun x y : Part ↦ x.stop ≤ y.start ∨ y.stop ≤ x.start :=
      ⟨fun _ _ ↦ Or.symm⟩
    exact .inr (hpair.forall hx hy hsame)

theorem propertyPart_eq_some : propertyPart b p = some (xs, hi) ↔
    dtPropEnd b p = some hi ∧ xs = [.property p (valueLen b p)] := by
  unfold propertyPart
  rw [Option.map_eq_some_iff]
  constructor
  · rintro ⟨next, hnext, heq⟩
    cases heq
    exact ⟨hnext, rfl⟩
  · rintro ⟨hnext, rfl⟩
    exact ⟨hi, hnext, rfl⟩

theorem partsFrom_succ_eq_some {levels : ℕ} :
    partsFrom b (levels + 1) off = some (xs, hi) ↔ ∃ nProps nChildren props start below,
      dtHeader b off = some (nProps, nChildren) ∧
      gather (propertyPart b) nProps (off + 8) = some (props, start) ∧
      gather (partsFrom b levels) nChildren start = some (below, hi) ∧
      xs = .node off nProps nChildren :: (props ++ below) := by
  rw [partsFrom]
  rcases dtHeader b off with _ | ⟨nProps, nChildren⟩
  · exact ⟨(nomatch ·), fun ⟨_, _, _, _, _, h, _⟩ ↦ nomatch h⟩
  dsimp only
  rw [Option.bind_eq_some_iff]
  constructor
  · rintro ⟨⟨props, start⟩, hprops, hrest⟩
    obtain ⟨⟨below, last⟩, hbelow, heq⟩ := Option.map_eq_some_iff.1 hrest
    cases heq
    exact ⟨nProps, nChildren, props, start, below, rfl, hprops, hbelow, rfl⟩
  · rintro ⟨_, _, props, start, below, heq, hprops, hbelow, rfl⟩
    cases heq
    exact ⟨_, hprops, Option.map_eq_some_iff.2 ⟨_, hbelow, rfl⟩⟩

theorem dtPropsEnd_eq {nProps nChildren : ℕ} (h : dtHeader b off = some (nProps, nChildren)) :
    dtPropsEnd b off = (gather (propertyPart b) nProps (off + 8)).map Prod.snd := by
  unfold dtPropsEnd
  have hstep : ∀ p, (propertyPart b p).map Prod.snd = dtPropEnd b p := by
    intro p
    unfold propertyPart
    cases dtPropEnd b p <;> rfl
  rw [h, gather_map_snd hstep]

theorem partsFrom_map_snd (levels off : ℕ) :
    (partsFrom b levels off).map Prod.snd = dtSubtreeEnd b levels off := by
  induction levels generalizing off with
  | zero => rfl
  | succ levels ih =>
    rw [partsFrom, dtSubtreeEnd]
    rcases hheader : dtHeader b off with _ | ⟨nProps, nChildren⟩
    · rfl
    dsimp only
    rw [dtPropsEnd_eq hheader]
    rcases gather (propertyPart b) nProps (off + 8) with _ | ⟨props, start⟩
    · rfl
    · rw [Option.bind_some, Option.map_some, Option.bind_some, ← gather_map_snd ih, Option.map_map]
      rfl

theorem gather_tiles {step : ℕ → Option (List Part × ℕ)} {n : ℕ}
    (hstep : ∀ p ys next, step p = some (ys, next) → Tiles p ys next)
    (h : gather step n lo = some (xs, hi)) : Tiles lo xs hi := by
  induction n generalizing lo xs with
  | zero =>
    cases h
    rfl
  | succ n ih =>
    obtain ⟨ys, next, zs, hnext, hrest, rfl⟩ := gather_succ_eq_some.1 h
    exact (hstep lo ys next hnext).append (ih hrest)

theorem propertyPart_tiles (h : propertyPart b lo = some (xs, hi)) : Tiles lo xs hi := by
  obtain ⟨hend, rfl⟩ := propertyPart_eq_some.1 h
  exact ⟨rfl, (dtPropEnd_eq_some.1 hend).1.symm⟩

theorem partsFrom_tiles {levels : ℕ} (h : partsFrom b levels off = some (xs, hi)) :
    Tiles off xs hi := by
  induction levels generalizing off xs hi with
  | zero => cases h
  | succ levels ih =>
    obtain ⟨_, _, props, start, below, -, hprops, hbelow, rfl⟩ := partsFrom_succ_eq_some.1 h
    exact ⟨rfl, (gather_tiles (fun _ _ _ h ↦ propertyPart_tiles h) hprops).append
      (gather_tiles (fun _ _ _ h ↦ ih h) hbelow)⟩

theorem propertyPart_congr (h : propertyPart b p = some (xs, hi)) (hkept : ∀ x ∈ xs, x.Kept b b') :
    propertyPart b' p = some (xs, hi) := by
  obtain ⟨hend, rfl⟩ := propertyPart_eq_some.1 h
  obtain ⟨hend', hlen⟩ := hkept _ List.mem_cons_self
  exact propertyPart_eq_some.2 ⟨hend'.trans hend, by rw [hlen]⟩

theorem partsFrom_congr {levels : ℕ} (h : partsFrom b levels off = some (xs, hi))
    (hkept : ∀ x ∈ xs, x.Kept b b') : partsFrom b' levels off = some (xs, hi) := by
  induction levels generalizing off xs hi with
  | zero => cases h
  | succ levels ih =>
    obtain ⟨nProps, nChildren, props, start, below, hheader, hprops, hbelow, rfl⟩ :=
      partsFrom_succ_eq_some.1 h
    obtain ⟨hhead, hrest⟩ := List.forall_mem_cons.1 hkept
    obtain ⟨hfirst, hsecond⟩ := List.forall_mem_append.1 hrest
    exact partsFrom_succ_eq_some.2 ⟨nProps, nChildren, props, start, below, hhead.trans hheader,
      gather_congr (fun _ _ _ h ↦ propertyPart_congr h) hprops hfirst,
      gather_congr (fun _ _ _ h ↦ ih h) hbelow hsecond, rfl⟩

variable {name : List Octet} {n : ℕ}

theorem dtPropLoop_eq (h : gather (propertyPart b) n p = some (xs, hi)) : dtPropLoop b name n p =
      (xs.find? (nameText b ·.start = name)).map fun x ↦ (x.start + dtPropHdr, x.len) := by
  induction n generalizing p xs with
  | zero =>
    cases h
    rfl
  | succ n ih =>
    obtain ⟨ys, next, zs, hnext, hrest, rfl⟩ := gather_succ_eq_some.1 h
    obtain ⟨hend, rfl⟩ := propertyPart_eq_some.1 hnext
    rw [dtPropLoop, hend, List.singleton_append, List.find?_cons]
    change (if nameText b p = name then _ else _) = _
    by_cases hname : nameText b p = name
    · rw [show decide (nameText b (Part.property p (valueLen b p)).start = name) = true from
        decide_eq_true hname, if_pos hname]
      rfl
    · rw [show decide (nameText b (Part.property p (valueLen b p)).start = name) = false from
        decide_eq_false hname, if_neg hname]
      exact ih hrest

def isEntry (b : List Octet) (key : List Octet) (x : Part) : Bool :=
  nameText b x.start = key ∧ x.len = 8

def isFree (b : List Octet) (x : Part) : Bool := isFreeSlot b x.start (nameText b x.start)

theorem slotLoop_eq {key : List Octet} {slot : Option ℕ}
    (h : gather (propertyPart b) n p = some (xs, hi)) :
    slotLoop b key n p slot = ((xs.find? (isEntry b key)).map Part.start).or
      (slot.or ((xs.find? (isFree b)).map Part.start)) := by
  induction n generalizing p xs slot with
  | zero =>
    cases h
    rw [slotLoop]
    cases slot <;> rfl
  | succ n ih =>
    obtain ⟨ys, next, zs, hnext, hrest, rfl⟩ := gather_succ_eq_some.1 h
    obtain ⟨hend, rfl⟩ := propertyPart_eq_some.1 hnext
    rw [slotLoop, hend, List.singleton_append, List.find?_cons, List.find?_cons]
    change (if nameText b p = key ∧ valueLen b p = 8 then _ else _) = _
    by_cases hentry : nameText b p = key ∧ valueLen b p = 8
    · rw [show isEntry b key (.property p (valueLen b p)) = true from decide_eq_true hentry,
        if_pos hentry]
      rfl
    · rw [show isEntry b key (.property p (valueLen b p)) = false from decide_eq_false hentry,
        if_neg hentry, ih hrest]
      dsimp only
      cases slot with
      | some place => rfl
      | none =>
        by_cases hfree : isFree b (.property p (valueLen b p)) = true
        · rw [hfree, if_pos ⟨rfl, hfree⟩]
          rfl
        · rw [if_neg fun h ↦ hfree h.2, Bool.eq_false_of_not_eq_true hfree]

theorem gather_property (h : gather (propertyPart b) n p = some (xs, hi)) :
    ∀ x ∈ xs, ∃ q, x = .property q (valueLen b q) ∧ (dtPropEnd b q).isSome := by
  refine gather_forall (fun q ys next hnext y hy ↦ ?_) h
  obtain ⟨hend, rfl⟩ := propertyPart_eq_some.1 hnext
  exact ⟨q, List.mem_singleton.1 hy, hend ▸ rfl⟩

theorem partsFrom_property {levels len : ℕ} (h : partsFrom b levels off = some (xs, hi))
    (hx : .property p len ∈ xs) : len = valueLen b p ∧ (dtPropEnd b p).isSome := by
  suffices hall : ∀ x ∈ xs, ∀ p len, x = .property p len →
      len = valueLen b p ∧ (dtPropEnd b p).isSome from hall _ hx p len rfl
  clear hx
  induction levels generalizing off xs hi with
  | zero => cases h
  | succ levels ih =>
    obtain ⟨_, _, props, start, below, -, hprops, hbelow, rfl⟩ := partsFrom_succ_eq_some.1 h
    refine List.forall_mem_cons.2 ⟨fun _ _ heq ↦ (nomatch heq), List.forall_mem_append.2 ⟨?_, ?_⟩⟩
    · intro x hx p len heq
      obtain ⟨q, rfl, hend⟩ := gather_property hprops x hx
      cases heq
      exact ⟨rfl, hend⟩
    · exact gather_forall (fun _ _ _ h ↦ ih h) hbelow

theorem dtProp_eq {nProps nChildren : ℕ} (h : dtHeader b off = some (nProps, nChildren))
    (hprops : gather (propertyPart b) nProps (off + 8) = some (xs, hi)) (name : List Octet) :
    dtProp b off name =
      (xs.find? (nameText b ·.start = name)).map fun x ↦ (x.start + dtPropHdr, x.len) := by
  unfold dtProp
  rw [h]
  exact dtPropLoop_eq hprops

/-- A node that lies, with everything below it, among some parts. -/
def IsNode (b : List Octet) (xs : List Part) (off : ℕ) : Prop :=
  ∃ levels ≤ nestingGuard, ∃ ys hi, partsFrom b levels off = some (ys, hi) ∧ ys ⊆ xs

theorem Part.Alike.kept (h : x.Alike b b') : x.Kept b b' := by
  cases x with
  | node off nProps nChildren => exact h
  | property p len => exact h.1

theorem Part.Alike.refl (x : Part) : x.Alike b b := by
  cases x with
  | node off nProps nChildren => rfl
  | property p len => exact ⟨⟨rfl, rfl⟩, .rfl, fun _ ↦ rfl⟩

theorem IsNode.props (h : IsNode b xs off) (b' : List Octet) : ∃ nProps nChildren props start,
    dtHeader b off = some (nProps, nChildren) ∧
    gather (propertyPart b) nProps (off + 8) = some (props, start) ∧ props ⊆ xs ∧
      ((∀ x ∈ xs, x.Kept b b') → dtHeader b' off = some (nProps, nChildren) ∧
        gather (propertyPart b') nProps (off + 8) = some (props, start)) := by
  obtain ⟨levels, -, ys, hi, hparts, hys⟩ := h
  cases levels with
  | zero => cases hparts
  | succ levels =>
    obtain ⟨nProps, nChildren, props, start, below, hheader, hprops, hbelow, rfl⟩ :=
      partsFrom_succ_eq_some.1 hparts
    have hsub : props ⊆ xs := fun x hx ↦
      hys (List.mem_cons_of_mem _ (List.mem_append_left _ hx))
    refine ⟨nProps, nChildren, props, start, hheader, hprops, hsub, fun hkept ↦ ⟨?_, ?_⟩⟩
    · exact (hkept _ (hys List.mem_cons_self)).trans hheader
    · exact gather_congr (fun _ _ _ h ↦ propertyPart_congr h) hprops fun x hx ↦ hkept x (hsub hx)

theorem octetAt_value {len i : ℕ} (h : i < len) :
    octetAt ((b.drop p).take len) i = octetAt b (p + i) := by
  unfold octetAt
  rw [List.getD_eq_getElem?_getD, List.getD_eq_getElem?_getD, List.getElem?_take_of_lt h,
    List.getElem?_drop]

theorem IsNode.isCalled_eq (h : IsNode b xs off) (halike : ∀ x ∈ xs, x.Alike b b')
    (path : List Octet) (component : ℕ) :
    isCalled b' off path component = isCalled b off path component := by
  obtain ⟨nProps, nChildren, props, start, hheader, hprops, hsub, hother⟩ := h.props b'
  obtain ⟨hheader', hprops'⟩ := hother fun x hx ↦ (halike x hx).kept
  unfold isCalled
  rw [dtProp_eq hheader hprops, dtProp_eq hheader' hprops']
  have hfind : props.find? (nameText b' ·.start = nameKey) =
      props.find? (nameText b ·.start = nameKey) := by
    apply List.find?_congr
    rintro x hx
    obtain ⟨q, rfl, -⟩ := gather_property hprops x hx
    exact decide_eq_decide.2 (halike _ (hsub hx)).2.1
  rw [hfind]
  rcases hx : props.find? (nameText b ·.start = nameKey) with _ | x
  · rw [hx]
    rfl
  rw [hx]
  have hmem := List.mem_of_find?_eq_some hx
  have hname : nameText b x.start = nameKey := by simpa using List.find?_some hx
  obtain ⟨q, rfl, -⟩ := gather_property hprops x hmem
  have hvalue := (halike _ (hsub hmem)).2.2 hname
  dsimp only [Option.map_some, Part.start, Part.len]
  by_cases hle : component ≤ valueLen b q
  · have htake : (b'.drop (q + dtPropHdr)).take component =
        (b.drop (q + dtPropHdr)).take component := by
      rw [← min_eq_left hle, ← List.take_take, hvalue, List.take_take]
    rw [htake]
    rcases hle.eq_or_lt with heq | hlt
    · rw [decide_eq_true heq.symm, Bool.true_or, Bool.true_or]
    · rw [← octetAt_value hlt, hvalue, octetAt_value hlt]
  · rw [decide_eq_false hle, Bool.false_and, Bool.false_and, Bool.false_and, Bool.false_and]

theorem dtChildLoop_alike {levels : ℕ} (path : List Octet) (component : ℕ)
    (hlevels : levels ≤ nestingGuard) (h : gather (partsFrom b levels) n off = some (ys, hi))
    (hys : ys ⊆ xs) (halike : ∀ x ∈ xs, x.Alike b b') :
    dtChildLoop b' path component n off = dtChildLoop b path component n off ∧
      ∀ child, dtChildLoop b path component n off = some child → IsNode b xs child := by
  induction n generalizing off ys with
  | zero => exact ⟨rfl, fun _ h ↦ nomatch h⟩
  | succ n ih =>
    obtain ⟨here, next, rest, hhere, hrest, rfl⟩ := gather_succ_eq_some.1 h
    have hsub : here ⊆ xs := fun x hx ↦ hys (List.mem_append_left _ hx)
    have hnode : IsNode b xs off := ⟨levels, hlevels, here, next, hhere, hsub⟩
    have hhere' := partsFrom_congr hhere fun x hx ↦ (halike x (hsub hx)).kept
    have hend : dtSubtreeEnd b nestingGuard off = some next :=
      dtSubtreeEnd_mono hlevels (by rw [← partsFrom_map_snd, hhere]; rfl)
    have hend' : dtSubtreeEnd b' nestingGuard off = some next :=
      dtSubtreeEnd_mono hlevels (by rw [← partsFrom_map_snd, hhere']; rfl)
    rw [dtChildLoop, dtChildLoop, hnode.isCalled_eq halike, hend, hend']
    by_cases hcalled : isCalled b off path component = true
    · rw [if_pos hcalled, if_pos hcalled]
      exact ⟨rfl, fun child hchild ↦ Option.some.inj hchild ▸ hnode⟩
    · rw [if_neg hcalled, if_neg hcalled]
      exact ih hrest fun x hx ↦ hys (List.mem_append_right _ hx)

theorem IsNode.atPath (h : IsNode b xs off) (halike : ∀ x ∈ xs, x.Alike b b') (path : List Octet) :
    dtPathFrom b' off path = dtPathFrom b off path ∧
      ∀ node, dtPathFrom b off path = some node → IsNode b xs node := by
  induction hlength : path.length using Nat.strong_induction_on generalizing path off with
  | _ length ih =>
    rcases hskip : skipSlashes path with _ | ⟨first, rest⟩
    · rw [dtPathFrom_nil hskip, dtPathFrom_nil hskip]
      exact ⟨rfl, fun node hnode ↦ Option.some.inj hnode ▸ h⟩
    rw [dtPathFrom_cons hskip, dtPathFrom_cons hskip]
    obtain ⟨levels, hlevels, ys, hi, hparts, hys⟩ := h
    cases levels with
    | zero => cases hparts
    | succ levels =>
      obtain ⟨nProps, nChildren, props, start, below, hheader, hprops, hbelow, rfl⟩ :=
        partsFrom_succ_eq_some.1 hparts
      have hsub : below ⊆ xs := fun x hx ↦
        hys (List.mem_cons_of_mem _ (List.mem_append_right _ hx))
      have hheader' : dtHeader b' off = some (nProps, nChildren) :=
        (halike _ (hys List.mem_cons_self)).trans hheader
      have hprops' : gather (propertyPart b') nProps (off + 8) = some (props, start) :=
        gather_congr (fun _ _ _ h ↦ propertyPart_congr h) hprops fun x hx ↦
          (halike x (hys (List.mem_cons_of_mem _ (List.mem_append_left _ hx)))).kept
      rw [hheader, hheader', dtPropsEnd_eq hheader, dtPropsEnd_eq hheader', hprops, hprops']
      dsimp only [Option.map_some, Option.bind_some]
      obtain ⟨hloop, hchild⟩ := dtChildLoop_alike (first :: rest)
        ((first :: rest).takeWhile (· ≠ 0x2f)).length ((Nat.le_succ _).trans hlevels) hbelow hsub
          halike
      rw [hloop]
      split
      · exact ⟨rfl, fun _ h ↦ by cases h⟩
      · rename_i child hfound
        refine ih _ ?_ (hchild child hfound) _ rfl
        have hle := length_skipSlashes_le path
        rw [hskip, List.length_cons] at hle
        rw [List.length_drop, List.length_cons]
        omega

theorem isNode_root (h : parts b = some (xs, hi)) : IsNode b xs 0 :=
  ⟨nestingGuard, le_rfl, xs, hi, h, List.Subset.refl xs⟩

theorem isNode_dtPath {path : List Octet} {node : ℕ} (h : parts b = some (xs, hi))
    (hpath : dtPath b path = some node) : IsNode b xs node :=
  ((isNode_root h).atPath (fun x _ ↦ .refl x) path).2 node hpath

theorem dtPath_alike (h : parts b = some (xs, hi)) (halike : ∀ x ∈ xs, x.Alike b b')
    (path : List Octet) : dtPath b' path = dtPath b path :=
  ((isNode_root h).atPath halike path).1

theorem find?_eq_some_iff_first {ask : Part → Bool} (h : xs.Pairwise fun x y ↦ x.stop ≤ y.start) :
    xs.find? ask = some x ↔
      x ∈ xs ∧ ask x = true ∧ ∀ y ∈ xs, y.start < x.start → ask y = false := by
  rw [List.find?_eq_some_iff_append]
  constructor
  · rintro ⟨hask, front, back, rfl, hfront⟩
    refine ⟨List.mem_append_right _ List.mem_cons_self, hask, fun y hy hlt ↦ ?_⟩
    rcases List.mem_append.1 hy with hy | hy
    · exact Bool.eq_false_of_not_eq_true' (hfront y hy)
    · have hback := List.pairwise_cons.1 (List.pairwise_append.1 h).2.1
      have hpos := x.start_lt_stop
      rcases List.mem_cons.1 hy with rfl | hy
      · omega
      · have hle := hback.1 y hy
        omega
  · rintro ⟨hx, hask, hfirst⟩
    obtain ⟨front, back, rfl⟩ := List.append_of_mem hx
    refine ⟨hask, front, back, rfl, fun y hy ↦ ?_⟩
    have hle := (List.pairwise_append.1 h).2.2 y hy x List.mem_cons_self
    rw [hfirst y (List.mem_append_left _ hy) (y.start_lt_stop.trans_le hle)]
    rfl

end S5LBox.Boot
