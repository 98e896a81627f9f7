import S5LBox.App.Instances

/-!
# The saved list of machines

A list that the operations lead to is read back from its text up to the white space its names
begin with, so it is read back exactly when no name begins with a space.
-/

namespace S5LBox.App

open List Numeral Scan

variable {list : List Instance} {row : Instance} {id name rest : List Octet} {cap : ℕ}

theorem nameCheck_ok : nameCheck name = .ok () ↔
    name.length ≤ instanceNameMax ∧ (∀ octet ∈ name, isControl octet = false) ∧
      ∃ octet ∈ name, octet ≠ 0x20 := by
  unfold nameCheck
  have hvisible : (∃ octet ∈ name, octet ≠ 0x20) ↔ ¬∀ octet ∈ name, octet = 0x20 := by
    simp only [not_forall, exists_prop]
  rw [hvisible]
  simp only [apply_ite (fun result ↦ result = Except.ok ()), reduceCtorEq]
  simp only [any_eq_true, all_eq_true, decide_eq_true_eq, if_false_left, if_true_right,
    not_exists, not_and, not_lt, Bool.not_eq_true]

theorem idCheck_ok : idCheck id = .ok () ↔
    id.length = instanceIdLen ∧ ∀ octet ∈ id, isIdOctet octet = true := by
  unfold idCheck
  split
  case isTrue h =>
    rw [all_eq_true] at h
    exact ⟨fun _ ↦ h, fun _ ↦ rfl⟩
  case isFalse h =>
    rw [all_eq_true] at h
    exact ⟨(nomatch ·), fun hid ↦ absurd hid h⟩

theorem indexOfId_isSome (hid : idCheck id = .ok ()) :
    (indexOfId list id).isSome = true ↔ id ∈ list.map Instance.id := by
  unfold indexOfId
  rw [hid]
  dsimp only
  rw [findIdx?_isSome, any_eq_true, mem_map]
  simp only [decide_eq_true_eq]

theorem instanceAdd_ok {options : List Bool} {createdUnix : DWord} {list' : List Instance}
    {index : ℕ} : instanceAdd list id name options createdUnix = .ok (list', index) ↔
      idCheck id = .ok () ∧ nameCheck name = .ok () ∧ list.length < instanceMax ∧
        id ∉ list.map Instance.id ∧ index = list.length ∧
        list' = list ++ [⟨id, name, createdUnix, 0, 0, fun i ↦ options.getD i false⟩] := by
  unfold instanceAdd
  rcases hid : idCheck id with _ | _
  · simp [bind, Except.bind]
  rcases hname : nameCheck name with _ | _
  · simp [bind, Except.bind]
  by_cases hfull : instanceMax ≤ list.length
  · simp [bind, Except.bind, hfull, throw, throwThe, MonadExceptOf.throw]
  by_cases htaken : id ∈ list.map Instance.id
  · have hsome := (indexOfId_isSome hid).2 htaken
    simp [bind, Except.bind, hfull, htaken, hsome, throw, throwThe, MonadExceptOf.throw]
  · have hnone : (indexOfId list id).isSome = false := by
      rw [Bool.eq_false_iff]
      exact fun hsome ↦ htaken ((indexOfId_isSome hid).1 hsome)
    simp only [bind, Except.bind, hnone, hfull, htaken, pure, Except.pure]
    simp only [if_false, Bool.false_eq_true, Except.ok.injEq, Prod.mk.injEq]
    constructor
    · rintro ⟨hlist, hindex⟩
      exact ⟨trivial, trivial, Nat.lt_of_not_le hfull, not_false, hindex.symm, hlist.symm⟩
    · rintro ⟨-, -, -, -, hindex, hlist⟩
      exact ⟨hlist.symm, hindex.symm⟩

/-- What holds of every list that the operations lead to. -/
structure Registered (list : List Instance) : Prop where
  length : list.length ≤ instanceMax
  ids : ∀ row ∈ list, idCheck row.id = .ok ()
  names : ∀ row ∈ list, nameCheck row.name = .ok ()
  distinct : (list.map Instance.id).Nodup

theorem registered_nil : Registered [] where
  length := Nat.zero_le _
  ids := forall_mem_nil _
  names := forall_mem_nil _
  distinct := nodup_nil

theorem Registered.add (h : Registered list) {options : List Bool} {createdUnix : DWord}
    {list' : List Instance} {index : ℕ}
    (hadd : instanceAdd list id name options createdUnix = .ok (list', index)) :
    Registered list' := by
  obtain ⟨hid, hname, hroom, hnew, -, rfl⟩ := instanceAdd_ok.1 hadd
  refine ⟨?_, ?_, ?_, ?_⟩
  · rw [length_append]
    exact hroom
  · intro row hrow
    rcases mem_append.1 hrow with hold | hlast
    · exact h.ids row hold
    · obtain rfl := mem_singleton.1 hlast
      exact hid
  · intro row hrow
    rcases mem_append.1 hrow with hold | hlast
    · exact h.names row hold
    · obtain rfl := mem_singleton.1 hlast
      exact hname
  · rw [map_append]
    exact h.distinct.append (nodup_singleton _) (disjoint_singleton.2 hnew)

/-- A change of one machine that leaves its identifier alone. -/
theorem Registered.modify (h : Registered list) (index : ℕ) {f : Instance → Instance}
    (hid : ∀ row, (f row).id = row.id)
    (hname : ∀ row ∈ list, nameCheck (f row).name = .ok ()) : Registered (list.modify index f) := by
  have hmem : ∀ row ∈ list.modify index f, ∃ old ∈ list, row = old ∨ row = f old := by
    intro row hrow
    obtain ⟨k, hk, rfl⟩ := getElem_of_mem hrow
    rw [length_modify] at hk
    rw [getElem_modify]
    split
    · exact ⟨_, getElem_mem hk, .inr rfl⟩
    · exact ⟨_, getElem_mem hk, .inl rfl⟩
  have hids : (list.modify index f).map Instance.id = list.map Instance.id := by
    apply ext_getElem
    · rw [length_map, length_map, length_modify]
    · intro k _ _
      rw [getElem_map, getElem_map, getElem_modify]
      split
      · exact hid _
      · rfl
  refine ⟨?_, ?_, ?_, ?_⟩
  · rw [length_modify]
    exact h.length
  · intro row hrow
    obtain ⟨old, hold, rfl | rfl⟩ := hmem row hrow
    · exact h.ids _ hold
    · rw [hid]
      exact h.ids _ hold
  · intro row hrow
    obtain ⟨old, hold, rfl | rfl⟩ := hmem row hrow
    · exact h.names _ hold
    · exact hname _ hold
  · rw [hids]
    exact h.distinct

theorem Registered.remove (h : Registered list) (index : ℕ) : Registered (list.eraseIdx index) := by
  have hsub := eraseIdx_sublist list index
  exact ⟨hsub.length_le.trans h.length, fun row hrow ↦ h.ids row (hsub.subset hrow),
    fun row hrow ↦ h.names row (hsub.subset hrow), h.distinct.sublist (hsub.map Instance.id)⟩

theorem Registered.apply (h : Registered list) (change : Mutation) :
    Registered (change.apply list) := by
  cases change with
  | add id name options createdUnix =>
    rw [Mutation.apply]
    rcases hadd : instanceAdd list id name options createdUnix with _ | ⟨list', index⟩
    · exact h
    · exact h.add hadd
  | remove index =>
    rw [Mutation.apply, instanceRemove]
    by_cases hrange : index < list.length
    · rw [if_pos hrange]
      exact h.remove index
    · rw [if_neg hrange]
      exact h
  | rename index name =>
    rw [Mutation.apply, instanceRename]
    by_cases hrange : list.length ≤ index
    · simp only [hrange, if_true]
      exact h
    rcases hname : nameCheck name with _ | _
    · simp only [hrange, if_false]
      exact h
    · simp only [hrange, if_false]
      exact h.modify index (fun _ ↦ rfl) fun _ _ ↦ hname
  | duplicate index newId newName createdUnix =>
    rw [Mutation.apply, instanceDuplicate]
    rcases hsource : list[index]? with _ | source
    · exact h
    dsimp only
    rcases hadd : instanceAdd list newId newName (List.ofFn source.options) createdUnix with
      _ | ⟨list', index'⟩
    · exact h
    · exact h.add hadd
  | opened index lastOpenedUnix =>
    exact h.modify index (fun _ ↦ rfl) fun row hrow ↦ h.names row hrow
  | retired index retiredTotal =>
    exact h.modify index (fun _ ↦ rfl) fun row hrow ↦ h.names row hrow

/-- The list that a sequence of operations makes of the empty one. -/
def listAfter (changes : List Mutation) : List Instance := changes.foldl Mutation.apply []

theorem registered_after (changes : List Mutation) : Registered (listAfter changes) := by
  unfold listAfter
  induction changes using List.reverseRecOn with
  | nil => exact registered_nil
  | append_singleton changes change ih =>
    rw [foldl_append]
    exact ih.apply change

/-- The whole text of a list. -/
def savedText (list : List Instance) : List Octet := (pieces list).flatten

/-- The cursor after `done` was printed. -/
structure Printed (c : Cursor cap) (done : List Octet) : Prop where
  total : c.total = done.length
  pos : c.pos = min done.length (cap - 1)
  left : c.left = cap - c.pos
  holds : 0 < cap → c.out.Holds 0 (done.take (cap - 1) ++ [0])

theorem Printed.emit {c : Cursor cap} {done : List Octet} (h : Printed c done)
    (piece : List Octet) : ∃ c', emit c piece = some c' ∧ Printed c' (done ++ piece) := by
  obtain ⟨htotal, hpos, hleft, hholds⟩ := h
  have htotal' : c.total + piece.length = (done ++ piece).length := by
    rw [htotal, length_append]
  rcases Nat.eq_zero_or_pos cap with rfl | hcap
  · have hzero : c.left = 0 := by omega
    refine ⟨{ c with total := c.total + piece.length }, ?_, htotal', ?_, hleft, ?_⟩
    · unfold App.emit
      rw [if_pos hzero, hzero]
      rfl
    · dsimp only
      omega
    · intro hcap
      cases hcap
  have hmost : (piece.take (c.left - 1) ++ [0]).length = min piece.length (c.left - 1) + 1 := by
    rw [length_append, length_take, length_singleton, Nat.min_comm]
  obtain ⟨out, hwrite, hwritten, hframe⟩ :=
    @Buffer.exists_writeAll _ cap c.out c.pos (piece.take (c.left - 1) ++ [0]) (by omega)
  have hlength : (done.take (cap - 1)).length = c.pos := by
    rw [length_take, hpos, Nat.min_comm]
  have hout : out.Holds 0 ((done ++ piece).take (cap - 1) ++ [0]) := by
    have hsplit : (done ++ piece).take (cap - 1) =
        done.take (cap - 1) ++ piece.take (c.left - 1) := by
      rw [take_append]
      congr 2
      omega
    rw [hsplit, append_assoc, Buffer.holds_append]
    refine ⟨((Buffer.holds_append.1 (hholds hcap)).1).frame ?_, ?_⟩
    · intro index _ hindex
      exact hframe index (.inl (by omega))
    · rw [hlength, zero_add]
      exact hwritten
  have hne : c.left ≠ 0 := by omega
  by_cases hroom : piece.length < c.left
  · refine ⟨⟨out, c.pos + piece.length, c.left - piece.length, c.total + piece.length⟩, ?_,
      htotal', ?_, ?_, fun _ ↦ hout⟩
    · unfold App.emit
      rw [if_neg hne, hwrite]
      exact if_pos hroom
    · rw [length_append]
      dsimp only
      omega
    · dsimp only
      omega
  · refine ⟨⟨out, c.pos + (c.left - 1), 1, c.total + piece.length⟩, ?_, htotal', ?_, ?_,
      fun _ ↦ hout⟩
    · unfold App.emit
      rw [if_neg hne, hwrite]
      exact (if_neg hroom).trans (if_pos (Nat.pos_of_ne_zero hne))
    · rw [length_append]
      dsimp only
      omega
    · dsimp only
      omega

theorem Printed.emitAll {c : Cursor cap} {done : List Octet} (h : Printed c done)
    (texts : List (List Octet)) :
    ∃ c', texts.foldlM App.emit c = some c' ∧ Printed c' (done ++ texts.flatten) := by
  induction texts generalizing c done with
  | nil => exact ⟨c, rfl, by rwa [flatten_nil, append_nil]⟩
  | cons piece texts ih =>
    obtain ⟨c', hemit, hprinted⟩ := h.emit piece
    obtain ⟨c'', hall, hlast⟩ := ih hprinted
    refine ⟨c'', ?_, ?_⟩
    · rw [foldlM_cons, hemit]
      exact hall
    · rwa [flatten_cons, ← append_assoc]

/-- A buffer gets as much of the text as fits in front of the terminator, and the length of the
whole text is known. -/
def Serialized (list : List Instance) (result : Option (Buffer Octet cap × ℕ)) : Prop :=
  ∃ out, result = some (out, (savedText list).length) ∧
    (0 < cap → out.Holds 0 ((savedText list).take (cap - 1) ++ [0]))

theorem serialized (list : List Instance) (out : Buffer Octet cap) :
    Serialized list (instanceSerialize list out) := by
  obtain ⟨start, hstart, hholds⟩ : ∃ start : Buffer Octet cap,
      instanceSerialize list out = ((pieces list).foldlM emit (⟨start, 0, cap, 0⟩ : Cursor cap)).bind
        (fun c ↦ some (c.out, c.total)) ∧ (0 < cap → start.Holds 0 [0]) := by
    unfold instanceSerialize
    by_cases hcap : 0 < cap
    · obtain ⟨start, hwrite⟩ := @Buffer.exists_write _ cap out 0 0 hcap
      refine ⟨start, ?_, fun _ ↦ ?_⟩
      · rw [if_pos hcap, hwrite]
        rfl
      · exact Buffer.holds_cons.2 ⟨Buffer.read_write_same hwrite, Buffer.holds_nil⟩
    · exact ⟨out, if_neg hcap, fun h ↦ absurd h hcap⟩
  have hprinted : Printed (⟨start, 0, cap, 0⟩ : Cursor cap) [] := by
    refine ⟨rfl, (Nat.zero_min _).symm, rfl, ?_⟩
    rw [take_nil]
    exact hholds
  obtain ⟨c, hall, htotal, -, -, hlast⟩ := hprinted.emitAll (pieces list)
  refine ⟨c.out, ?_, hlast⟩
  rw [hstart, hall, Option.bind_some, htotal]
  rfl

/-- No octet of a text is a control octet, so none ends a line. -/
def Visible (text : List Octet) : Prop := ∀ octet ∈ text, isControl octet = false

theorem visible_append {front back : List Octet} :
    Visible (front ++ back) ↔ Visible front ∧ Visible back := forall_mem_append

theorem visible_space {back : List Octet} : Visible (0x20 :: back) ↔ Visible back :=
  forall_mem_cons.trans (and_iff_right rfl)

theorem visible_text {digits : List ℕ} (h : ∀ digit ∈ digits, digit < 16) :
    Visible (text digits) := by
  intro octet hoctet
  obtain ⟨digit, hdigit, rfl⟩ := mem_map.1 hoctet
  have hall : ∀ digit < 16, isControl (digitOctet digit) = false := by decide
  exact hall digit (h digit hdigit)

theorem plain_lt {base n : ℕ} (h : 0 < base) : ∀ digit ∈ plain base n, digit < base :=
  fun _ hdigit ↦ lt_of_mem_padded h hdigit

theorem visible_decimal (n : ℕ) : Visible (decimal n) :=
  visible_text fun digit hdigit ↦ (plain_lt (by decide) digit hdigit).trans (by decide)

theorem visible_id (hid : idCheck id = .ok ()) : Visible id := by
  have hall : ∀ octet, isIdOctet octet = true → isControl octet = false := by decide
  intro octet hoctet
  exact hall octet ((idCheck_ok.1 hid).2 octet hoctet)

theorem visible_line (hid : idCheck row.id = .ok ()) (hname : nameCheck row.name = .ok ()) :
    Visible row.line := by
  unfold Instance.line
  simp only [visible_append, visible_space]
  refine ⟨visible_id hid, visible_decimal _, visible_decimal _, visible_decimal _, ?_,
    (nameCheck_ok.1 hname).2.1⟩
  exact visible_text fun digit hdigit ↦ lt_of_mem_padded (by decide) hdigit

theorem length_decimal (number : DWord) : (decimal number.toNat).length ≤ 20 := by
  unfold decimal
  rw [length_text]
  exact length_plain_le (number.isLt.trans (by decide))

theorem length_line (hid : idCheck row.id = .ok ()) (hname : nameCheck row.name = .ok ()) :
    row.line.length < lineCap := by
  have hcreated := length_decimal row.createdUnix
  have hopened := length_decimal row.lastOpenedUnix
  have hretired := length_decimal row.retiredTotal
  have hidLength := (idCheck_ok.1 hid).1
  have hnameLength := (nameCheck_ok.1 hname).1
  unfold instanceIdLen at hidLength
  unfold instanceNameMax at hnameLength
  unfold Instance.line lineCap instanceNameMax
  simp only [length_append, length_cons, length_text, length_padded]
  omega

theorem nextLine_line {line : List Octet} (hvisible : Visible line) (hlength : line.length < cap) :
    nextLine cap (line ++ [0x0a] ++ rest) = .line line rest := by
  have hcontent : (line ++ 0x0a :: rest).takeWhile (· ≠ 0x0a) = line := by
    apply takeWhile_append_stop
    · intro octet hoctet
      rw [decide_eq_true_iff]
      rintro rfl
      cases hvisible _ hoctet
    · intro octet hhead
      obtain rfl := Option.some.inj hhead
      rfl
  have hlast : line.getLast? ≠ some 0x0d := by
    intro hlast
    cases hvisible _ (mem_of_mem_getLast? hlast)
  have hdrop : (line ++ 0x0a :: rest).drop (line.length + 1) = rest := by
    rw [drop_append]
    simp
  rw [append_assoc, singleton_append]
  unfold nextLine
  dsimp only
  rw [if_neg (by simp), hcontent, if_neg (Nat.not_le.2 hlength), if_neg hlast, hdrop]

theorem unsigned_space (base width : ℕ) (text : List Octet) :
    unsigned base width (0x20 :: text) = unsigned base width text := by
  unfold unsigned
  rw [skipSpace_cons]

theorem unsigned_decimal (number : DWord) :
    unsigned 10 (0x20 :: (decimal number.toNat ++ 0x20 :: rest)).length
      (0x20 :: (decimal number.toNat ++ 0x20 :: rest)) = some (number, 0x20 :: rest) := by
  have hvalue : value 10 (plain 10 number.toNat) = number.toNat := value_plain (by decide)
  rw [unsigned_space]
  unfold decimal
  rw [unsigned_text (by decide) plain_ne_nil (plain_lt (by decide)), hvalue, BitVec.ofNat_toNat,
    BitVec.setWidth_eq]
  · rw [length_cons, length_append, length_text]
    omega
  · rintro - octet hhead
    obtain rfl := Option.some.inj hhead
    rfl
  · rw [hvalue]
    exact number.isLt

theorem unsigned_hex (number : Word) :
    unsigned 16 8 (0x20 :: (text (padded 16 8 number.toNat) ++ 0x20 :: rest)) =
      some (number.setWidth 64, 0x20 :: rest) := by
  have hvalue : value 16 (padded 16 8 number.toNat) = number.toNat :=
    value_padded (number.isLt.trans_le (by decide))
  have hlength : (padded 16 8 number.toNat).length = 8 := length_padded
  rw [unsigned_space, unsigned_text (by decide) _ (fun _ h ↦ lt_of_mem_padded (by decide) h),
    hvalue]
  · congr 2
    apply BitVec.eq_of_toNat_eq
    rw [BitVec.toNat_ofNat, BitVec.toNat_setWidth]
  · rw [hlength]
  · rw [hlength]
    intro hlt
    exact absurd hlt (lt_irrefl 8)
  · rw [hvalue]
    exact number.isLt.trans (by decide)
  · intro hnil
    rw [hnil] at hlength
    cases hlength

theorem getLsbD_foldl (options : Fin instanceOptionMax → Bool) (places : List (Fin instanceOptionMax))
    (bits : Word) (i : Fin instanceOptionMax) :
    (places.foldl (fun bits i ↦ if options i then bits ||| (1 : Word) <<< i.val else bits)
      bits).getLsbD i = true ↔ bits.getLsbD i = true ∨ i ∈ places ∧ options i = true := by
  induction places generalizing bits with
  | nil => simp
  | cons place places ih =>
    have hone : ((1 : Word) <<< place.val).getLsbD i = true ↔ i = place := by
      have hbit : ((1 : Word) <<< place.val).getLsbD i =
          (decide (place.val < 32) && decide (place.val = i.val)) :=
        BitVec.getLsbD_twoPow place.val i.val
      rw [hbit, decide_eq_true (show place.val < 32 from place.isLt), Bool.true_and,
        decide_eq_true_iff, Fin.ext_iff]
      exact eq_comm
    rw [foldl_cons, ih, mem_cons]
    by_cases hset : options place = true
    · rw [if_pos hset, BitVec.getLsbD_or, Bool.or_eq_true, hone]
      constructor
      · rintro ((hbit | rfl) | ⟨hmem, hi⟩)
        · exact .inl hbit
        · exact .inr ⟨.inl rfl, hset⟩
        · exact .inr ⟨.inr hmem, hi⟩
      · rintro (hbit | ⟨rfl | hmem, hi⟩)
        · exact .inl (.inl hbit)
        · exact .inl (.inr rfl)
        · exact .inr ⟨hmem, hi⟩
    · rw [if_neg hset]
      constructor
      · rintro (hbit | ⟨hmem, hi⟩)
        · exact .inl hbit
        · exact .inr ⟨.inr hmem, hi⟩
      · rintro (hbit | ⟨rfl | hmem, hi⟩)
        · exact .inl hbit
        · exact absurd hi hset
        · exact .inr ⟨hmem, hi⟩

theorem getLsbD_optionsToBits (options : Fin instanceOptionMax → Bool)
    (i : Fin instanceOptionMax) : (optionsToBits options).getLsbD i = options i := by
  unfold optionsToBits
  rw [Bool.eq_iff_iff, getLsbD_foldl]
  have hzero : ¬(0 : Word).getLsbD i = true := by
    rw [show (0 : Word) = 0#32 from rfl, BitVec.getLsbD_zero]
    exact Bool.false_ne_true
  constructor
  · rintro (hbit | ⟨-, hi⟩)
    · exact absurd hbit hzero
    · exact hi
  · exact fun hi ↦ .inr ⟨mem_finRange i, hi⟩

theorem bitsToOptions_apply (bits : Word) (i : Fin instanceOptionMax) :
    bitsToOptions bits i = bits.getLsbD i := by
  have hi : i.val < 32 := i.isLt
  have hmask : bits &&& (1 : Word) <<< i.val =
      if bits.getLsbD i then BitVec.twoPow 32 i.val else 0#32 := BitVec.and_twoPow bits i.val
  unfold bitsToOptions
  rw [hmask]
  cases bits.getLsbD i with
  | false => rfl
  | true =>
    rw [if_pos rfl, decide_eq_true_iff]
    intro hzero
    have hbit : (BitVec.twoPow 32 i.val).getLsbD i.val = (0 : Word).getLsbD i.val :=
      congrArg (BitVec.getLsbD · i.val) hzero
    rw [BitVec.getLsbD_twoPow, decide_eq_true hi, decide_eq_true rfl] at hbit
    cases hbit.trans BitVec.getLsbD_zero

theorem bitsToOptions_optionsToBits (options : Fin instanceOptionMax → Bool) :
    bitsToOptions (((optionsToBits options).setWidth 64).setWidth 32) = options := by
  funext i
  have hi : i.val < 32 := i.isLt
  rw [bitsToOptions_apply, ← getLsbD_optionsToBits options i, BitVec.getLsbD_setWidth,
    BitVec.getLsbD_setWidth, decide_eq_true hi, decide_eq_true (hi.trans (by decide)),
    Bool.true_and, Bool.true_and]

/-- The machine as it comes back: without the white space its name begins with. -/
def Instance.stripped (row : Instance) : Instance := { row with name := skipSpace row.name }

theorem scanRow_line (hid : idCheck row.id = .ok ()) : scanRow row.line = some row.stripped := by
  obtain ⟨hlength, hall⟩ := idCheck_ok.1 hid
  have hword {rest : List Octet} :
      word (instanceIdLen + 7) (row.id ++ 0x20 :: rest) = some (row.id, 0x20 :: rest) := by
    apply word_append
    · intro hnil
      rw [hnil] at hlength
      cases hlength
    · have hspace : ∀ octet, isIdOctet octet = true → isSpace octet = false := by decide
      exact fun octet hoctet ↦ hspace octet (hall octet hoctet)
    · rw [hlength]
      exact Nat.lt_add_of_pos_right (by decide)
  unfold scanRow Instance.line
  rw [hword]
  dsimp only [Option.bind_eq_bind, Option.bind_some]
  rw [unsigned_decimal]
  dsimp only [Option.bind_some]
  rw [unsigned_decimal]
  dsimp only [Option.bind_some]
  rw [unsigned_decimal]
  dsimp only [Option.bind_some]
  rw [unsigned_hex]
  dsimp only [Option.bind_some]
  rw [skipSpace_cons, bitsToOptions_optionsToBits]
  rfl

theorem isSpace_of_visible {octet : Octet} (h : isControl octet = false) :
    isSpace octet = true ↔ octet = 0x20 := by
  revert octet
  decide

theorem nameCheck_skipSpace (h : nameCheck name = .ok ()) : nameCheck (skipSpace name) = .ok () := by
  obtain ⟨hlength, hvisible, octet, hmem, hne⟩ := nameCheck_ok.1 h
  have hsub : (skipSpace name).Sublist name := dropWhile_sublist _
  refine nameCheck_ok.2 ⟨hsub.length_le.trans hlength, fun _ ho ↦ hvisible _ (hsub.subset ho),
    octet, ?_, hne⟩
  have hsplit : name.takeWhile isSpace ++ skipSpace name = name := takeWhile_append_dropWhile
  rw [← hsplit, mem_append] at hmem
  rcases hmem with hspace | hrest
  · have hall := all_eq_true.1 all_takeWhile octet hspace
    have hold : octet ∈ name := (takeWhile_sublist _).subset hspace
    exact absurd ((isSpace_of_visible (hvisible octet hold)).1 hall) hne
  · exact hrest

theorem skipSpace_eq_self (h : nameCheck name = .ok ()) :
    skipSpace name = name ↔ name.head? ≠ some 0x20 := by
  constructor
  · intro hsame hhead
    rw [← hsame] at hhead
    have hno : isSpace 0x20 = false := by
      have hfirst := head?_dropWhile_not isSpace name
      rw [show (name.dropWhile isSpace).head? = some 0x20 from hhead] at hfirst
      exact hfirst
    cases hno
  · intro hhead
    apply skipSpace_of_not
    intro octet hfirst
    rw [Bool.eq_false_iff]
    intro hspace
    rw [(isSpace_of_visible ((nameCheck_ok.1 h).2.1 octet (mem_of_mem_head? hfirst))).1
      hspace] at hfirst
    exact hhead hfirst

theorem modify_last (front : List Instance) (last : Instance) (f : Instance → Instance) :
    (front ++ [last]).modify front.length f = front ++ [f last] := by
  induction front with
  | nil => rfl
  | cons row front ih =>
    rw [cons_append, length_cons, modify_succ_cons, ih]
    rfl

theorem addRow_ok (hid : idCheck row.id = .ok ()) (hname : nameCheck row.name = .ok ())
    (hroom : list.length < instanceMax) (hnew : row.id ∉ list.map Instance.id) :
    addRow list row = .ok (list ++ [row]) := by
  have hoptions : (fun i : Fin instanceOptionMax ↦ (List.ofFn row.options).getD i false) =
      row.options := by
    funext i
    rw [getD_eq_getElem?_getD, List.getElem?_ofFn, dif_pos i.isLt]
    rfl
  unfold addRow
  rw [instanceAdd_ok.2 ⟨hid, hname, hroom, hnew, rfl, rfl⟩, hoptions]
  dsimp only
  rw [modify_last]

theorem readRows_nil : readRows [] list = .ok list := by
  rw [readRows]
  split
  case h_1 => rfl
  case h_2 => rfl
  case h_3 hline => cases hline

theorem readRows_line {p line : List Octet} {list' : List Instance}
    (hline : nextLine lineCap p = .line line rest) (hne : line ≠ [])
    (hscan : scanRow line = some row) (hadd : addRow list row = .ok list') :
    readRows p list = readRows rest list' := by
  rw [readRows]
  split
  case h_1 hended =>
    rw [hline] at hended
    cases hended
  case h_2 hover =>
    rw [hline] at hover
    cases hover
  case h_3 hother =>
    rw [hline] at hother
    cases hother
    rw [if_neg hne, hscan]
    dsimp only
    rw [hadd]

theorem readRows_lines {rows : List Instance} (hids : ∀ row ∈ rows, idCheck row.id = .ok ())
    (hnames : ∀ row ∈ rows, nameCheck row.name = .ok ())
    (hroom : list.length + rows.length ≤ instanceMax)
    (hdistinct : (list.map Instance.id ++ rows.map Instance.id).Nodup) :
    readRows (rows.map fun row ↦ row.line ++ [0x0a]).flatten list =
      .ok (list ++ rows.map Instance.stripped) := by
  induction rows generalizing list with
  | nil =>
    rw [map_nil, flatten_nil, map_nil, append_nil]
    exact readRows_nil
  | cons row rows ih =>
    have hid := hids row mem_cons_self
    have hname := hnames row mem_cons_self
    rw [length_cons] at hroom
    rw [map_cons, map_cons, flatten_cons]
    have hline := @nextLine_line (rows.map fun row ↦ row.line ++ [0x0a]).flatten _ _
      (visible_line hid hname) (length_line hid hname)
    have hne : row.line ≠ [] := by
      intro hnil
      have hempty := congrArg List.length hnil
      simp [Instance.line] at hempty
    have hnew : row.id ∉ list.map Instance.id := by
      rw [map_cons, nodup_append] at hdistinct
      exact fun hmem ↦ hdistinct.2.2 _ hmem _ mem_cons_self rfl
    have hadd : addRow list row.stripped = .ok (list ++ [row.stripped]) :=
      addRow_ok hid (nameCheck_skipSpace hname) (by omega) hnew
    rw [readRows_line hline hne (scanRow_line hid) hadd, ih, append_assoc]
    · rfl
    · exact fun row hrow ↦ hids row (mem_cons_of_mem _ hrow)
    · exact fun row hrow ↦ hnames row (mem_cons_of_mem _ hrow)
    · rw [length_append, length_singleton]
      omega
    · rw [map_append, append_assoc]
      exact hdistinct

theorem deserialize_savedText (h : Registered list) :
    instanceDeserialize (savedText list) = .ok (list.map Instance.stripped) := by
  have hheader : nextLine lineCap (savedText list) =
      .line (instanceHeader ++ 0x20 :: decimal instanceFormatVersion)
        (list.map fun row ↦ row.line ++ [0x0a]).flatten := by
    have hvisible : Visible (instanceHeader ++ 0x20 :: decimal instanceFormatVersion) := by
      refine visible_append.2 ⟨?_, visible_space.2 (visible_decimal _)⟩
      unfold Visible
      decide
    exact nextLine_line hvisible (by decide +kernel)
  have hscan : scanHeader (instanceHeader ++ 0x20 :: decimal instanceFormatVersion) =
      some (instanceHeader, BitVec.ofNat 32 instanceFormatVersion) := by
    decide +kernel
  unfold instanceDeserialize
  rw [hheader]
  dsimp only
  rw [hscan]
  dsimp only
  rw [if_pos ⟨rfl, rfl⟩]
  exact readRows_lines h.ids h.names (by rw [length_nil, Nat.zero_add]; exact h.length)
    h.distinct

/-- What is asked of saving a list: any buffer gets its share of one text, and that text is read
back as the list. -/
structure SavedExactly (list : List Instance) : Prop where
  written : ∀ (cap : ℕ) (out : Buffer Octet cap), Serialized list (instanceSerialize list out)
  read : instanceDeserialize (savedText list) = .ok list

/-- A list that operations lead to is saved exactly when none of its names begins with a space. -/
theorem savedExactly_iff (changes : List Mutation) : SavedExactly (listAfter changes) ↔
      ∀ row ∈ listAfter changes, row.name.head? ≠ some 0x20 := by
  have h := registered_after changes
  have hread := deserialize_savedText h
  generalize listAfter changes = list at h hread
  have hsame (row : Instance) (hrow : row ∈ list) :
      row.stripped = row ↔ row.name.head? ≠ some 0x20 := by
    rw [← skipSpace_eq_self (h.names row hrow)]
    constructor
    · exact fun heq ↦ congrArg Instance.name heq
    · intro heq
      unfold Instance.stripped
      rw [heq]
  constructor
  · rintro ⟨-, hback⟩ row hrow
    rw [hread, Except.ok.injEq] at hback
    rw [← map_id list, map_map] at hback
    exact (hsame row hrow).1 (map_inj_left.1 hback row hrow)
  · intro hnames
    refine ⟨fun _ out ↦ serialized list out, ?_⟩
    rw [hread, Except.ok.injEq]
    calc
      _ = list.map id :=
        map_congr_left fun row hrow ↦ (hsame row hrow).2 (hnames row hrow)
      _ = list := map_id list

/-- A machine whose name begins with a space. -/
def indented : List Mutation :=
  [.add (List.replicate 16 0x30) [0x20, 0x61] [] 0]

/-- The name comes back without its space. -/
theorem not_savedExactly_indented : ¬SavedExactly (listAfter indented) := by
  have hread := deserialize_savedText (registered_after indented)
  rintro ⟨-, hback⟩
  rw [hread, Except.ok.injEq] at hback
  revert hback
  decide +kernel

end S5LBox.App
