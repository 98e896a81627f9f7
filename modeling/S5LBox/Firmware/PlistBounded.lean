import S5LBox.Firmware.PlistScan

/-!
# The property list scanner meets no fault

Octet by octet, the scanner ends with what the scanner over lists ends with. It reads no octet past
the document, it leaves every loop before the turns run out, and it pushes no name onto a full
stack. The spans of what it finds are ordered and inside what it has seen.
-/

namespace S5LBox.Firmware

open List Checked Nat

variable {x needle : List Octet} {len i j k n pos turns : ℕ}

variable {xs name : List Octet}

theorem isPrefixOf_of_short (h : xs.length < needle.length) : needle.isPrefixOf xs = false := by
  rw [Bool.eq_false_iff, ne_eq, isPrefixOf_iff_prefix]
  exact fun hfront ↦ absurd hfront.length_le (Nat.not_le_of_lt h)

theorem leading_of_short (h : xs.length < needle.length) : leading needle xs = none := by
  induction xs with
  | nil => rfl
  | cons c xs ih =>
    rw [leading, isPrefixOf_of_short h, ih (lt_of_succ_lt h)]
    rfl

/-- A comparison inside of what is seen is one with the beginning of what follows. -/
theorem same_seen {ε : Type} (hlen : len ≤ x.length) (h : i + needle.length ≤ len) :
    (same x i needle : Checked ε Bool) = .ok (needle.isPrefixOf ((x.take len).drop i)) := by
  rw [same_eq (h.trans hlen), Except.ok.injEq, Bool.eq_iff_iff, decide_eq_true_iff,
    isPrefixOf_iff_prefix, prefix_iff_eq_take, drop_take, take_take,
    min_eq_left (by omega), eq_comm]

/-- With the bound checked in front of it, the comparison is one with what follows in any case. -/
theorem guarded_same {ε : Type} (hlen : len ≤ x.length) (hneedle : needle ≠ []) :
    (if i + needle.length ≤ len then same x i needle else pure false : Checked ε Bool) =
      .ok (needle.isPrefixOf ((x.take len).drop i)) := by
  split
  case isTrue h => exact same_seen hlen h
  case isFalse h =>
    have hpos := length_pos_iff.2 hneedle
    rw [isPrefixOf_of_short]
    · rfl
    · rw [length_drop, length_take]
      omega

theorem findSeqLoop_eq (hlen : len ≤ x.length) (hneedle : needle ≠ []) (hturns : len - i < turns) :
    findSeqLoop x len needle turns i =
      .ok ((leading needle ((x.take len).drop i)).map (i + ·)) := by
  induction turns generalizing i with
  | zero => exact absurd hturns (Nat.not_lt_zero _)
  | succ turns ih =>
    have hpos := length_pos_iff.2 hneedle
    unfold findSeqLoop
    split
    case isTrue h =>
      obtain ⟨c, hc, hdrop⟩ := drop_take_of_lt hlen (show i < len by omega)
      have hfound : (if needle.head? = some c then same x i needle else pure false : Scanning Bool) =
          .ok (needle.isPrefixOf ((x.take len).drop i)) := by
        split
        case isTrue => exact same_seen hlen h
        case isFalse hhead =>
          rw [hdrop]
          cases needle with
          | nil => exact absurd rfl hneedle
          | cons a needle =>
            have hne : (a == c) = false := beq_false_of_ne fun hac ↦ hhead (congrArg some hac)
            rw [isPrefixOf_cons_cons, hne]
            rfl
      rw [read_eq hc, ok_bind, hfound, ok_bind, hdrop, leading, ih (by omega)]
      split
      case isTrue => rfl
      case isFalse =>
        rw [Option.map_map]
        congr 2
        funext skipped
        exact Nat.add_right_comm i 1 skipped
    case isFalse h =>
      rw [leading_of_short]
      · rfl
      · rw [length_drop, length_take]
        omega

theorem scanFindSeq_eq (hlen : len ≤ x.length) (hneedle : needle ≠ []) :
    scanFindSeq x len i needle = .ok (findSeq (x.take len) i needle) := by
  unfold scanFindSeq findSeq
  split
  case isTrue h =>
    rw [leading_of_short]
    · rfl
    · have hpos := length_pos_iff.2 hneedle
      rw [length_drop, length_take]
      omega
  case isFalse => exact findSeqLoop_eq hlen hneedle (by omega)

theorem findSeq_le {e : ℕ} (h : findSeq x i needle = some e) : i ≤ e := by
  obtain ⟨skipped, -, rfl⟩ := Option.map_eq_some_iff.1 h
  exact Nat.le_add_right _ _

/-- The quotation mark as the tokeniser keeps it: zero stands for none. -/
def quoteOf (quote : Octet) : Option Octet := if quote = 0 then none else some quote

theorem quoteStep_quoteOf {quote : Octet} (hquote : quote ≠ 0) (c : Octet) :
    quoteStep (quoteOf quote) c = quoteOf (if c = quote then 0 else quote) := by
  unfold quoteOf
  rw [if_neg hquote, quoteStep]
  by_cases hc : c = quote
  · rw [if_pos hc, if_pos hc, if_pos rfl]
  · rw [if_neg hc, if_neg hc, if_neg hquote]

theorem map_add_succ (o : Option ℕ) : o.map (j + 1 + ·) = (o.map (· + 1)).map (j + ·) := by
  rw [Option.map_map]
  congr 1
  funext skipped
  exact Nat.add_right_comm j 1 skipped

theorem doctypeLoop_eq (hlen : n ≤ x.length) (subset : Word) (quote : Octet)
    (hturns : n - j < turns) : doctypeLoop x n turns j subset quote =
      .ok ((doctypeLength ((x.take n).drop j) subset (quoteOf quote)).map (j + ·)) := by
  induction turns generalizing j subset quote with
  | zero => exact absurd hturns (Nat.not_lt_zero _)
  | succ turns ih =>
    unfold doctypeLoop
    split
    case isTrue hj =>
      obtain ⟨c, hc, hdrop⟩ := drop_take_of_lt hlen hj
      have hnext := fun subset quote ↦ ih subset quote (show n - (j + 1) < turns by omega)
      rw [read_eq hc, ok_bind, hdrop, doctypeLength]
      by_cases hquote : quote = 0
      · subst hquote
        rw [if_neg (not_not_intro rfl)]
        simp only [hnext, map_add_succ, quoteOf, quoteStep, if_true, true_and]
        split_ifs <;> simp_all
      · rw [if_pos hquote, hnext, map_add_succ, ← quoteStep_quoteOf hquote]
        simp only [quoteOf, hquote, if_false, reduceCtorEq, false_and]
    case isFalse hj =>
      rw [drop_take_of_le (Nat.le_of_not_lt hj)]
      rfl

theorem attributeLoop_eq (hlen : n ≤ x.length) (quote : Octet) (hturns : n - k < turns) :
    attributeLoop x n turns k quote =
      .ok ((tagLength ((x.take n).drop k) (quoteOf quote)).map (k + ·)) := by
  induction turns generalizing k quote with
  | zero => exact absurd hturns (Nat.not_lt_zero _)
  | succ turns ih =>
    unfold attributeLoop
    split
    case isTrue hk =>
      obtain ⟨c, hc, hdrop⟩ := drop_take_of_lt hlen hk
      have hnext := fun quote ↦ ih quote (show n - (k + 1) < turns by omega)
      rw [read_eq hc, ok_bind, hdrop, tagLength]
      by_cases hquote : quote = 0
      · subst hquote
        rw [if_neg (not_not_intro rfl)]
        simp only [hnext, map_add_succ, quoteOf, quoteStep, if_true, true_and]
        split_ifs <;> simp_all
      · rw [if_pos hquote, hnext, map_add_succ, ← quoteStep_quoteOf hquote]
        simp only [quoteOf, hquote, if_false, reduceCtorEq, false_and]
    case isFalse hk =>
      rw [drop_take_of_le (Nat.le_of_not_lt hk)]
      rfl

/-- What is seen of a document. -/
def VmfwPlist.seen (pl : VmfwPlist) : List Octet := pl.xml.take pl.len

variable {pl : VmfwPlist} {depth : ℕ}

/-- The tag that the walk finds at `pos` or behind is that of the list; what it names lies inside of
it, and it lies inside of what is seen. -/
structure TagIs (pl : VmfwPlist) (pos : ℕ) (t : ScanTag) (u : PlistTag) : Prop where
  start : t.start = u.start
  stop : t.stop = u.stop
  name : u.name = (pl.xml.drop t.nameOff).take t.nameLen
  selfClosing : t.selfClosing = u.selfClosing
  pos_le : pos ≤ t.start
  start_lt : t.start < t.nameOff
  name_lt : t.nameOff + t.nameLen < t.stop
  stop_le : t.stop ≤ pl.len

/-- The walk and the list find the same next. -/
inductive NextAgrees {γ α : Type} (closing : γ → PlistTag → Prop) (opening : γ → α → Prop) :
    γ × TokKind → Next α → Prop
  | none {c : γ} : NextAgrees closing opening (c, .none) .none
  | closed {c : γ} {u : PlistTag} (h : closing c u) :
      NextAgrees closing opening (c, .closed) (.closed u)
  | opened {c : γ} {a : α} (h : opening c a) : NextAgrees closing opening (c, .opened) (.opened a)

abbrev TagAgrees (pl : VmfwPlist) (pos : ℕ) : ScanTag × TokKind → Next PlistTag → Prop :=
  NextAgrees (TagIs pl pos) (TagIs pl pos)

theorem TagIs.of_le {pos' : ℕ} {t : ScanTag} {u : PlistTag} (h : TagIs pl pos' t u)
    (hpos : pos ≤ pos') : TagIs pl pos t u :=
  { h with pos_le := hpos.trans h.pos_le }

theorem TagAgrees.of_le {pos' : ℕ} {r : ScanTag × TokKind} {next : Next PlistTag}
    (h : TagAgrees pl pos' r next) (hpos : pos ≤ pos') : TagAgrees pl pos r next := by
  cases h with
  | none => exact .none
  | closed h => exact .closed (h.of_le hpos)
  | opened h => exact .opened (h.of_le hpos)

theorem tagLength_lt {quote : Option Octet} {length : ℕ} (h : tagLength xs quote = some length) :
    length < xs.length := by
  induction xs generalizing quote length with
  | nil => cases h
  | cons c xs ih =>
    rw [tagLength] at h
    split at h
    · cases h
      exact succ_pos _
    · obtain ⟨skipped, hskipped, rfl⟩ := Option.map_eq_some_iff.1 h
      exact succ_lt_succ (ih hskipped)

/-- Whether the octet in front of the `>` is a slash. -/
theorem selfClosing_eq (hk : k ≤ x.length) :
    (if j < k then return decide ((← read x (k - 1)) = 0x2f) else pure false : Scanning Bool) =
      .ok (((x.take k).drop j).getLast? = some 0x2f) := by
  split
  case isTrue h =>
    have hlast : ((x.take k).drop j).getLast? = x[k - 1]? := by
      rw [getLast?_drop, getLast?_take, if_neg, if_neg (by omega)]
      · rw [getElem?_eq_getElem (by omega)]
        rfl
      · rw [length_take]
        omega
    obtain ⟨c, hc⟩ : ∃ c, x[k - 1]? = some c := ⟨_, getElem?_eq_getElem (by omega)⟩
    rw [hlast, hc, read_eq hc, ok_bind, pure_eq]
    simp only [Option.some.injEq]
  case isFalse h =>
    rw [drop_take_of_le (Nat.le_of_not_lt h)]
    rfl

theorem takeWhile_length_lt_iff {xs : List Octet} {p : Octet → Bool} :
    (xs.takeWhile p).length < xs.length ↔ ¬xs.all p = true := by
  have hsplit := congrArg List.length (takeWhile_append_dropWhile (p := p) (l := xs))
  have hall : xs.dropWhile p = [] ↔ xs.all p = true := by
    rw [dropWhile_eq_nil_iff, all_eq_true]
  rw [length_append] at hsplit
  rw [← hall, ← length_eq_zero_iff]
  omega

theorem takeWhile_slice {p : Octet → Bool} (h : ((x.take n).drop i).takeWhile p = name) :
    name = (x.drop i).take name.length := by
  have hfront : name <+: (x.drop i).take (n - i) := by
    rw [← h, ← drop_take]
    exact takeWhile_prefix p
  have htake := prefix_iff_eq_take.1 (hfront.trans ( take_prefix _ _))
  exact htake

theorem takeWhile_le {p : Octet → Bool} (hlen : n ≤ x.length)
    (h : ((x.take n).drop i).takeWhile p = name) : name.length ≤ n - i := by
  have hle := ( takeWhile_prefix p (l := (x.take n).drop i)).length_le
  rw [h, length_drop, length_take, min_eq_left hlen] at hle
  exact hle

theorem scanElementTag_agrees (hlen : pl.len ≤ pl.xml.length) (hi : i + 1 < pl.len)
    (hpos : pos ≤ i) : Agrees (TagAgrees pl pos) (scanElementTag pl i) (elementTag pl.seen i) := by
  obtain ⟨c, hc, -⟩ := drop_take_of_lt hlen hi
  have hseen : pl.seen[i + 1]? = some c := by
    rw [VmfwPlist.seen, getElem?_take_of_lt hi, hc]
  have hnameOff : (if decide (c = 0x2f) = true then i + 2 else i + 1) =
      i + if decide (c = 0x2f) = true then 2 else 1 := by split <;> rfl
  unfold scanElementTag elementTag
  dsimp only
  rw [read_eq hc, ok_bind, hseen]
  simp only [Option.some.injEq]
  rw [hnameOff]
  obtain ⟨nameOff, hoff⟩ : ∃ off, (i + if decide (c = 0x2f) = true then 2 else 1) = off := ⟨_, rfl⟩
  have hstart : i < nameOff := by rw [← hoff]; split <;> omega
  rw [hoff, passWhile_eq hlen (by omega), ok_bind]
  obtain ⟨name, hname⟩ : ∃ name, ((pl.xml.take pl.len).drop nameOff).takeWhile isNameChar = name :=
    ⟨_, rfl⟩
  unfold VmfwPlist.seen
  rw [hname]
  have hslice : name = (pl.xml.drop nameOff).take name.length := takeWhile_slice hname
  by_cases hempty : name = []
  · rw [if_pos hempty, if_pos (by rw [hempty]; rfl)]
    exact agrees_report _
  have hpos' := length_pos_iff.2 hempty
  obtain ⟨j, hj⟩ : ∃ j, nameOff + name.length = j := ⟨_, rfl⟩
  rw [hj, if_neg (by omega), if_neg hempty, attributeLoop_eq hlen 0 (by omega), ok_bind]
  have hquote : tagLength ((pl.xml.take pl.len).drop j) (quoteOf 0) =
      tagLength ((pl.xml.take pl.len).drop j) none := rfl
  rw [hquote]
  cases hlength : tagLength ((pl.xml.take pl.len).drop j) none with
  | none => exact agrees_report _
  | some length =>
    have hlt := tagLength_lt hlength
    rw [length_drop, length_take, min_eq_left hlen] at hlt
    have hrest : ((pl.xml.take pl.len).drop j).take length = (pl.xml.take (j + length)).drop j := by
      rw [drop_take, take_take, drop_take]
      congr 1
      omega
    dsimp only [Option.map_some]
    rw [selfClosing_eq (by omega), ok_bind, hrest]
    have his : TagIs pl pos ⟨i, j + length + 1, nameOff, j - nameOff,
        decide (((pl.xml.take (j + length)).drop j).getLast? = some 0x2f)⟩
        ⟨i, j + length + 1, name, decide (((pl.xml.take (j + length)).drop j).getLast? = some 0x2f)⟩ :=
      { start := rfl
        stop := rfl
        name := by rw [← hj, Nat.add_sub_cancel_left]; exact hslice
        selfClosing := rfl
        pos_le := hpos
        start_lt := hstart
        name_lt := by dsimp only; omega
        stop_le := by dsimp only; omega }
    by_cases hclosing : decide (c = 0x2f) = true
    · rw [if_pos hclosing, if_pos hclosing, passWhile_eq (by omega) (by omega), ok_bind]
      have hwhole : ((pl.xml.take (j + length)).drop j).length = length := by
        rw [length_drop, length_take]
        omega
      have hspace := @takeWhile_length_lt_iff ((pl.xml.take (j + length)).drop j) isWs
      rw [hwhole] at hspace
      by_cases hall : ((pl.xml.take (j + length)).drop j).all isWs = true
      · rw [if_neg fun h ↦ hspace.1 (Nat.lt_of_add_lt_add_left h) hall, if_pos hall]
        exact agrees_ok (.closed his)
      · rw [if_pos (Nat.add_lt_add_left (hspace.2 hall) j), if_neg hall]
        exact agrees_report _
    · rw [if_neg hclosing, if_neg hclosing]
      exact agrees_ok (.opened his)

theorem nextTagLoop_agrees (hlen : pl.len ≤ pl.xml.length) (hturns : pl.len - pos < turns) :
    Agrees (TagAgrees pl pos) (scanNextTagLoop pl turns pos) (nextTagLoop pl.seen turns pos) := by
  induction turns generalizing pos with
  | zero => exact absurd hturns (Nat.not_lt_zero _)
  | succ turns ih =>
    have hseen : pl.xml.take pl.len = pl.seen := rfl
    unfold scanNextTagLoop nextTagLoop
    dsimp only
    rw [passWhile_eq hlen (by omega), ok_bind, hseen]
    obtain ⟨i, hi⟩ : ∃ i, pos + ((pl.seen.drop pos).takeWhile (· ≠ 0x3c)).length = i := ⟨_, rfl⟩
    have hpos : pos ≤ i := by omega
    rw [hi]
    -- Behind a comment or a declaration the walk goes on with fewer octets in front of it.
    have hagain : ∀ {pos'}, i < pl.len → i < pos' → Agrees (TagAgrees pl pos)
        (scanNextTagLoop pl turns pos') (nextTagLoop pl.seen turns pos') := fun hi hpos' ↦
      (ih (by omega)).mono fun _ _ h ↦ h.of_le (by omega)
    split
    case isTrue h =>
      rw [← hseen, drop_take_of_le h]
      exact agrees_ok .none
    case isFalse h =>
      obtain ⟨first, -, hdrop⟩ := drop_take_of_lt hlen (Nat.lt_of_not_le h)
      split
      case isTrue hlast =>
        rw [← hseen, hdrop, drop_take_of_le hlast]
        exact agrees_report _
      case isFalse hlast =>
        obtain ⟨c, hc, hdrop'⟩ := drop_take_of_lt hlen (Nat.lt_of_not_le hlast)
        have hcomment : (if i + 4 ≤ pl.len then same pl.xml i (ascii "<!--") else pure false :
            Scanning Bool) = _ := guarded_same hlen (by decide : ascii "<!--" ≠ [])
        have hcdata : (if i + 9 ≤ pl.len then same pl.xml i (ascii "<![CDATA[") else pure false :
            Scanning Bool) = _ := guarded_same hlen (by decide : ascii "<![CDATA[" ≠ [])
        rw [read_eq hc, ok_bind, ← hseen, hdrop, hdrop']
        dsimp only
        rw [← hdrop', ← hdrop]
        split
        case isTrue =>
          rw [hcomment, ok_bind]
          split
          case isTrue =>
            rw [scanFindSeq_eq hlen (by decide), ok_bind]
            cases hend : findSeq (pl.xml.take pl.len) (i + 4) (ascii "-->") with
            | none => exact agrees_report _
            | some e =>
              have hle := findSeq_le hend
              exact hagain (by omega) (by omega)
          case isFalse =>
            rw [hcdata, ok_bind]
            split
            case isTrue => exact agrees_report _
            case isFalse =>
              rw [doctypeLoop_eq hlen 0 0 (by omega), ok_bind]
              have hquote : doctypeLength ((pl.xml.take pl.len).drop (i + 2)) 0 none =
                  doctypeLength ((pl.xml.take pl.len).drop (i + 2)) 0 (quoteOf 0) := rfl
              rw [hquote]
              cases doctypeLength ((pl.xml.take pl.len).drop (i + 2)) 0 (quoteOf 0) with
              | none => exact agrees_report _
              | some length =>
                exact hagain (by omega) (show i < i + 2 + length by omega)
        case isFalse =>
          split
          case isTrue =>
            rw [scanFindSeq_eq hlen (by decide), ok_bind]
            cases hend : findSeq (pl.xml.take pl.len) (i + 2) (ascii "?>") with
            | none => exact agrees_report _
            | some e =>
              have hle := findSeq_le hend
              exact hagain (by omega) (by omega)
          case isFalse => exact scanElementTag_agrees hlen (Nat.lt_of_not_le hlast) hpos

theorem VmfwPlist.length_seen (hlen : pl.len ≤ pl.xml.length) : pl.seen.length = pl.len := by
  rw [VmfwPlist.seen, length_take, min_eq_left hlen]

/-- The tokeniser ends with what the list gives. -/
theorem scanNextTag_agrees (hlen : pl.len ≤ pl.xml.length) (pos : ℕ) :
    Agrees (TagAgrees pl pos) (scanNextTag pl pos) (nextTag pl.seen pos) := by
  unfold scanNextTag nextTag
  rw [VmfwPlist.length_seen hlen]
  exact nextTagLoop_agrees hlen (by omega)

/-- The name is what stands in a range of the document. -/
def NameAt (x : List Octet) (range : ℕ × ℕ) (name : List Octet) : Prop :=
  range.1 + range.2 ≤ x.length ∧ name = (x.drop range.1).take range.2

theorem TagIs.nameAt {t : ScanTag} {u : PlistTag} (h : TagIs pl pos t u)
    (hlen : pl.len ≤ pl.xml.length) : NameAt pl.xml (t.nameOff, t.nameLen) u.name :=
  ⟨((h.name_lt.le.trans h.stop_le).trans hlen), h.name⟩

theorem TagIs.pos_lt {t : ScanTag} {u : PlistTag} (h : TagIs pl pos t u) : pos < t.stop := by
  have := h.pos_le
  have := h.start_lt
  have := h.name_lt
  omega

theorem NameAt.length_eq {range : ℕ × ℕ} (h : NameAt x range name) : name.length = range.2 := by
  rw [h.2, length_take, length_drop]
  have := h.1
  omega

theorem sameName_eq {range top : ℕ × ℕ} {opened : List Octet} (hname : NameAt x range name)
    (htop : NameAt x top opened) :
    (if range.2 ≠ top.2 then pure false else sameOctets x range.1 top.1 range.2 : Scanning Bool) =
      .ok (decide (name = opened)) := by
  split
  case isTrue h =>
    have hne : name ≠ opened := fun heq ↦ h (by rw [← hname.length_eq, ← htop.length_eq, heq])
    rw [decide_eq_false hne]
    rfl
  case isFalse h =>
    have hlengths : range.2 = top.2 := not_not.1 h
    have hopened : (x.drop top.1).take range.2 = opened := by rw [hlengths, ← htop.2]
    have hlength : opened.length = range.2 := by rw [htop.length_eq, hlengths]
    rw [sameOctets, if_pos (hlengths ▸ htop.1), hopened, same_eq (hlength.symm ▸ hname.1), hlength,
      ← hname.2]

theorem scanReadLoop_agrees (hlen : pl.len ≤ pl.xml.length) {stk : List (ℕ × ℕ)}
    {names : List (List Octet)} (hstk : List.Forall₂ (NameAt pl.xml) stk names) {cur : ℕ}
    (hturns : pl.len - cur < turns) : Agrees (TagIs pl cur) (scanReadLoop pl depth turns stk cur)
      (readLoop pl.seen depth turns names cur) := by
  induction turns generalizing stk names cur with
  | zero => exact absurd hturns (Nat.not_lt_zero _)
  | succ turns ih =>
    have hagain : ∀ {t u stk names}, TagIs pl cur t u → List.Forall₂ (NameAt pl.xml) stk names →
        Agrees (TagIs pl cur) (scanReadLoop pl depth turns stk t.stop)
          (readLoop pl.seen depth turns names u.stop) := fun {t u _ _} h hstk ↦ by
      have hlt := h.pos_lt
      have hle := h.stop_le
      rw [← h.stop]
      exact (ih hstk (by omega)).mono fun _ _ his ↦ his.of_le hlt.le
    unfold scanReadLoop readLoop
    rcases (scanNextTag_agrees hlen cur).cases with ⟨r, next, hr, hnext, hagrees⟩ | ⟨e, hr, hnext⟩
    · rw [hr, hnext, ok_bind]
      cases hagrees with
      | none => exact agrees_report _
      | @opened t u h =>
        dsimp only
        rw [h.selfClosing, hstk.length_eq]
        split
        case isTrue => exact hagain h hstk
        case isFalse =>
          split
          case isTrue => exact agrees_report _
          case isFalse hdepth =>
            rw [push_eq (by rw [hstk.length_eq]; omega), ok_bind]
            exact hagain h (.cons (h.nameAt hlen) hstk)
      | @closed t u h =>
        dsimp only
        cases hstk with
        | nil => exact agrees_report _
        | @cons top opened stk names htop hrest =>
          dsimp only
          rw [sameName_eq (h.nameAt hlen) htop, ok_bind]
          by_cases hsame : u.name = opened
          · rw [decide_eq_true hsame, if_neg (not_not_intro hsame)]
            cases hrest with
            | nil => exact agrees_ok h
            | cons hopen hrest => exact hagain h (.cons hopen hrest)
          · rw [decide_eq_false hsame, if_pos hsame]
            exact agrees_report _
    · rw [hr, hnext]
      exact agrees_report e

/-- The start tag of an element with its name, its content and its end tag follow each other. -/
structure ScanElem.Ordered (e : ScanElem) : Prop where
  start_lt : e.start < e.nameOff
  name_lt : e.nameOff + e.nameLen < e.contentOff
  content_le : e.contentOff ≤ e.contentEnd
  end_le : e.contentEnd ≤ e.stop

theorem ScanElem.Ordered.start_lt_stop {e : ScanElem} (h : e.Ordered) : e.start < e.stop := by
  have := h.start_lt
  have := h.name_lt
  have := h.content_le
  have := h.end_le
  omega

/-- The element that the walk finds at `pos` or behind is that of the list, and it lies inside of
what is seen. -/
structure ElemIs (pl : VmfwPlist) (pos : ℕ) (e : ScanElem) (u : PlistElem) : Prop where
  name : u.name = (pl.xml.drop e.nameOff).take e.nameLen
  contentOff : e.contentOff = u.contentOff
  contentEnd : e.contentEnd = u.contentEnd
  stop : e.stop = u.stop
  selfClosing : e.selfClosing = u.selfClosing
  pos_le : pos ≤ e.start
  ordered : e.Ordered
  stop_le : e.stop ≤ pl.len

theorem ElemIs.pos_lt {e : ScanElem} {u : PlistElem} (h : ElemIs pl pos e u) : pos < e.stop :=
  h.pos_le.trans_lt h.ordered.start_lt_stop

abbrev ElemAgrees (pl : VmfwPlist) (pos : ℕ) : ScanElem × TokKind → Next PlistElem → Prop :=
  NextAgrees (fun _ _ ↦ True) (ElemIs pl pos)

/-- An element is read with the result of the list, and no more names are pushed than fit. -/
theorem scanReadElement_agrees (hlen : pl.len ≤ pl.xml.length) (pos depth : ℕ) :
    Agrees (ElemAgrees pl pos) (scanReadElement pl pos depth)
      (readElement pl.seen pos depth) := by
  unfold scanReadElement readElement
  rcases (scanNextTag_agrees hlen pos).cases with ⟨r, next, hr, hnext, hagrees⟩ | ⟨e, hr, hnext⟩
  · rw [hr, hnext, ok_bind]
    cases hagrees with
    | none => exact agrees_ok .none
    | @opened t u h =>
      dsimp only
      rw [h.selfClosing]
      split
      case isTrue =>
        exact agrees_ok (.opened
          { name := h.name, contentOff := h.stop, contentEnd := h.stop, stop := h.stop,
            selfClosing := rfl, pos_le := h.pos_le, stop_le := h.stop_le
            ordered := ⟨h.start_lt, h.name_lt, le_rfl, le_rfl⟩ })
      case isFalse =>
        have hloop := @scanReadLoop_agrees (pl.len + 1) pl depth hlen _ _
          (.cons (h.nameAt hlen) .nil) t.stop (by omega)
        rw [push_eq (by decide), ok_bind, VmfwPlist.length_seen hlen, ← h.stop]
        rcases hloop.cases with ⟨t', u', ht', hu', hend⟩ | ⟨e, ht', hu'⟩
        · rw [ht', hu']
          have hends := hend.start_lt.le.trans ((Nat.le_add_right _ _).trans hend.name_lt.le)
          exact agrees_ok (.opened
            { name := h.name, contentOff := rfl, contentEnd := hend.start, stop := hend.stop,
              selfClosing := rfl, pos_le := h.pos_le, stop_le := hend.stop_le
              ordered := ⟨h.start_lt, h.name_lt, hend.pos_le, hends⟩ })
        · rw [ht', hu']
          exact agrees_report e
    | closed => exact agrees_ok (.closed trivial)
  · rw [hr, hnext]
    exact agrees_report e

theorem nameIs_eq {e : ScanElem} {s : List Octet} (h : NameAt pl.xml (e.nameOff, e.nameLen) name) :
    nameIs pl e s = .ok (decide (name = s)) := by
  unfold nameIs
  split
  case isTrue hlength =>
    have hle := h.1
    dsimp only at hle
    rw [same_eq (hlength ▸ hle), ← hlength, ← h.2]
  case isFalse hlength =>
    have hne : name ≠ s := fun heq ↦ hlength (by rw [← heq, h.length_eq])
    rw [decide_eq_false hne]
    rfl

theorem ElemIs.nameAt {e : ScanElem} {u : PlistElem} (h : ElemIs pl pos e u)
    (hlen : pl.len ≤ pl.xml.length) : NameAt pl.xml (e.nameOff, e.nameLen) u.name := by
  have hstop := h.ordered.name_lt.le.trans (h.ordered.content_le.trans h.ordered.end_le)
  exact ⟨(hstop.trans h.stop_le).trans hlen, h.name⟩

variable {stop : ℕ}

theorem scanEntity_eq (hstop : stop ≤ x.length) (hpos : pos < stop)
    {table : List (List Octet × Octet)} (htable : ∀ entity ∈ table, entity.1 ≠ []) :
    scanEntity x pos (stop - pos - 1) table =
      .ok (table.find? fun entity ↦ entity.1.isPrefixOf ((x.take stop).drop (pos + 1))) := by
  induction table with
  | nil => rfl
  | cons entity table ih =>
    have hcompared : (if entity.1.length ≤ stop - pos - 1 then same x (pos + 1) entity.1
        else pure false : Scanning Bool) =
          .ok (entity.1.isPrefixOf ((x.take stop).drop (pos + 1))) := by
      have hiff : entity.1.length ≤ stop - pos - 1 ↔ pos + 1 + entity.1.length ≤ stop := by omega
      rw [if_congr hiff rfl rfl]
      exact guarded_same hstop (htable entity (mem_cons_self ..))
    unfold scanEntity
    rw [hcompared, ok_bind, ih fun e he ↦ htable e (mem_cons_of_mem _ he), find?_cons]
    cases entity.1.isPrefixOf ((x.take stop).drop (pos + 1)) <;> rfl

theorem scanTextNext_agrees (hstop : stop ≤ x.length) (hpos : pos < stop) {c : Octet}
    {rest : List Octet} (hdrop : (x.take stop).drop pos = c :: rest) :
    Agrees (fun r s ↦ ∃ pos', r = some (s.1, pos') ∧ pos < pos' ∧ pos' ≤ stop ∧
      s.2 = (x.take stop).drop pos') (scanTextNext x pos stop) (textNext c rest) := by
  obtain ⟨c', hc, hdrop'⟩ := drop_take_of_lt hstop hpos
  obtain ⟨rfl, rfl⟩ := cons_eq_cons.1 (hdrop.symm.trans hdrop')
  unfold scanTextNext textNext
  rw [if_neg (Nat.not_le_of_lt hpos), read_eq hc, ok_bind]
  split
  case isTrue => exact agrees_report _
  case isFalse =>
    split
    case isTrue => exact agrees_ok ⟨pos + 1, rfl, lt_succ_self _, hpos, rfl⟩
    case isFalse =>
      rw [scanEntity_eq hstop hpos (by decide), ok_bind]
      cases hfind : entities.find? fun entity ↦
          entity.1.isPrefixOf ((x.take stop).drop (pos + 1)) with
      | none => exact agrees_report _
      | some entity =>
        have hfront : entity.1.isPrefixOf ((x.take stop).drop (pos + 1)) = true := by
          simpa only using find?_some hfind
        have hle := ( isPrefixOf_iff_prefix.1 hfront).length_le
        rw [length_drop, length_take, min_eq_left hstop] at hle
        refine agrees_ok ⟨_, rfl, by omega, by omega, ?_⟩
        rw [drop_drop, Nat.add_assoc]

variable {c : Octet} {rest tail : List Octet} {b : Octet} {e : PlistStatus} {cap : ℕ}

theorem decodeText_error (h : textNext c rest = .error e) : decodeText (c :: rest) = .error e := by
  rw [decodeText]
  split <;> simp_all

theorem decodeText_ok (h : textNext c rest = .ok (b, tail)) :
    decodeText (c :: rest) = (decodeText tail).map (b :: ·) := by
  rw [decodeText]
  split <;> simp_all

theorem textCopy_error (h : textNext c rest = .error e) :
    textCopy cap n (c :: rest) = .error e := by
  rw [textCopy]
  split <;> simp_all

theorem textCopy_ok (h : textNext c rest = .ok (b, tail)) : textCopy cap n (c :: rest) =
      if cap ≤ n + 1 then .error .tooLong else (textCopy cap (n + 1) tail).map (b :: ·) := by
  rw [textCopy]
  split <;> simp_all

theorem scanTextCopyLoop_agrees (hstop : stop ≤ x.length) {out : List Octet}
    (hturns : stop - pos < turns) :
    Agrees (fun r s ↦ r = out ++ s) (scanTextCopyLoop x cap stop turns pos out)
      (textCopy cap out.length ((x.take stop).drop pos)) := by
  induction turns generalizing pos out with
  | zero => exact absurd hturns (Nat.not_lt_zero _)
  | succ turns ih =>
    unfold scanTextCopyLoop
    rcases Nat.lt_or_ge pos stop with hpos | hpos
    · obtain ⟨c, -, hdrop⟩ := drop_take_of_lt hstop hpos
      rw [hdrop]
      rcases (scanTextNext_agrees hstop hpos hdrop).cases with
        ⟨_, ⟨b, tail⟩, hscan, hnext, pos', rfl, hlt, hle, rfl⟩ | ⟨e, hscan, hnext⟩
      · rw [hscan, ok_bind, textCopy_ok hnext]
        dsimp only
        split
        case isTrue => exact agrees_report _
        case isFalse =>
          have hcopy := @ih pos' (out ++ [b]) (by omega)
          rw [length_append, length_singleton] at hcopy
          refine hcopy.map_right fun copied text h ↦ ?_
          rw [h, append_assoc, singleton_append]
      · rw [hscan, textCopy_error hnext]
        exact agrees_report e
    · have hscan : scanTextNext x pos stop = .ok none := if_pos hpos
      rw [hscan, ok_bind, drop_take_of_le hpos, textCopy]
      dsimp only
      split
      case isTrue => exact agrees_report _
      case isFalse => exact agrees_ok (append_nil out).symm

theorem scanTextEqualsLoop_agrees (hstop : stop ≤ x.length) {s : List Octet} {differs : Bool}
    (hn : n ≤ s.length) (hturns : stop - pos < turns) :
    Agrees (fun r decoded ↦ r = (!differs && decide (decoded = s.drop n)))
      (scanTextEqualsLoop x s stop turns pos n differs) (decodeText ((x.take stop).drop pos)) := by
  induction turns generalizing pos n differs with
  | zero => exact absurd hturns (Nat.not_lt_zero _)
  | succ turns ih =>
    unfold scanTextEqualsLoop
    rcases Nat.lt_or_ge pos stop with hpos | hpos
    · obtain ⟨c, -, hdrop⟩ := drop_take_of_lt hstop hpos
      rw [hdrop]
      rcases (scanTextNext_agrees hstop hpos hdrop).cases with
        ⟨_, ⟨b, tail⟩, hscan, hnext, pos', rfl, hlt, hle, rfl⟩ | ⟨e, hscan, hnext⟩
      · rw [hscan, ok_bind, decodeText_ok hnext]
        dsimp only
        cases differs with
        | true =>
          rw [if_pos rfl]
          exact (ih hn (by omega)).map_right fun _ _ h ↦ h
        | false =>
          rw [if_neg Bool.false_ne_true]
          by_cases hsame : s[n]? = some b
          · obtain ⟨hlt', hget⟩ := List.getElem?_eq_some_iff.1 hsame
            rw [if_neg (not_not_intro hsame)]
            refine (@ih (n + 1) pos' false hlt' (by omega)).map_right fun r decoded h ↦ ?_
            rw [h, drop_eq_getElem_cons hlt', hget]
            simp
          · rw [if_pos hsame]
            refine (@ih n pos' true hn (by omega)).map_right fun r decoded h ↦ ?_
            have hne : b :: decoded ≠ s.drop n := fun heq ↦ hsame (by
              rw [← head?_drop, ← heq]
              rfl)
            rw [h, decide_eq_false hne]
            rfl
      · rw [hscan, decodeText_error hnext]
        exact agrees_report e
    · have hscan : scanTextNext x pos stop = .ok none := if_pos hpos
      rw [hscan, ok_bind, drop_take_of_le hpos, decodeText]
      refine agrees_ok ?_
      have hends : ([] : List Octet) = s.drop n ↔ n = s.length := by
        rw [eq_comm, drop_eq_nil_iff]
        omega
      rw [decide_eq_decide.2 hends]

/-- An element is read at `pos` or behind. -/
def ReadFrom (pl : VmfwPlist) (pos : ℕ) (e : ScanElem) (u : PlistElem) : Prop :=
  ∃ pos' depth, pos ≤ pos' ∧ scanReadElement pl pos' depth = .ok (e, .opened) ∧ ElemIs pl pos' e u

theorem ReadFrom.of_le {pos' : ℕ} {e : ScanElem} {u : PlistElem} (h : ReadFrom pl pos' e u)
    (hpos : pos ≤ pos') : ReadFrom pl pos e u := by
  obtain ⟨pos'', depth, hle, hread, his⟩ := h
  exact ⟨pos'', depth, hpos.trans hle, hread, his⟩

theorem scanArrayLoop_agrees (hlen : pl.len ≤ pl.xml.length) {index position cpos : ℕ}
    (hposition : position ≤ index) (hturns : pl.len - cpos < turns) :
    Agrees (ReadFrom pl cpos) (scanArrayLoop pl depth index turns position cpos)
      (arrayChild pl.seen depth turns (index - position) cpos) := by
  induction turns generalizing position cpos with
  | zero => exact absurd hturns (Nat.not_lt_zero _)
  | succ turns ih =>
    unfold scanArrayLoop arrayChild
    rcases (scanReadElement_agrees hlen cpos depth).cases with
      ⟨r, next, hr, hnext, hagrees⟩ | ⟨e, hr, hnext⟩
    · rw [hr, hnext, ok_bind]
      cases hagrees with
      | none => exact agrees_report _
      | @opened child u h =>
        dsimp only
        by_cases hfound : position = index
        · rw [if_pos hfound, if_pos (by omega)]
          exact agrees_ok ⟨cpos, depth, le_rfl, hr, h⟩
        · have hlt := h.pos_lt
          have hle := h.stop_le
          rw [if_neg hfound, if_neg (by omega), Nat.sub_sub, ← h.stop]
          exact (ih (by omega) (by omega)).mono fun _ _ hread ↦ hread.of_le hlt.le
      | closed => exact agrees_report _
    · rw [hr, hnext]
      exact agrees_report e

/-- A view shows a beginning of what another shows. -/
structure VmfwPlist.Within (sub pl : VmfwPlist) : Prop where
  xml : sub.xml = pl.xml
  len_le : sub.len ≤ pl.len

variable {sub : VmfwPlist} {elem : ScanElem} {u : PlistElem}

theorem VmfwPlist.Within.fits (h : sub.Within pl) (hlen : pl.len ≤ pl.xml.length) :
    sub.len ≤ sub.xml.length := by
  rw [h.xml]
  exact h.len_le.trans hlen

theorem ElemIs.of_within (h : ElemIs sub pos elem u) (hsub : sub.Within pl) :
    ElemIs pl pos elem u :=
  { h with
    name := hsub.xml ▸ h.name
    stop_le := h.stop_le.trans hsub.len_le }

theorem ElemIs.within (h : ElemIs pl pos elem u) : (scanInnerView pl elem).Within pl :=
  ⟨rfl, h.ordered.end_le.trans h.stop_le⟩

theorem ElemIs.innerView_eq (h : ElemIs pl pos elem u) :
    innerView pl.seen u = (scanInnerView pl elem).seen := by
  have hmin : min elem.contentEnd pl.len = elem.contentEnd := min_eq_left h.within.len_le
  rw [innerView, VmfwPlist.seen, VmfwPlist.seen, take_take, ← h.contentEnd, hmin]
  rfl

theorem ElemIs.content_eq (h : ElemIs pl pos elem u) :
    u.content pl.seen = (pl.xml.take elem.contentEnd).drop elem.contentOff := by
  have hview := h.innerView_eq
  rw [PlistElem.content, ← h.contentOff]
  exact congrArg (List.drop elem.contentOff) hview

section

variable (hlen : pl.len ≤ pl.xml.length)

include hlen

theorem scanTextEquals_agrees (hsub : sub.Within pl) (h : ElemIs sub pos elem u) (s : List Octet) :
    Agrees Eq (scanTextEquals pl elem s) (textEquals (u.content sub.seen) s) := by
  have hle : elem.contentEnd ≤ pl.len := (h.of_within hsub).within.len_le
  rw [h.content_eq, hsub.xml]
  refine (scanTextEqualsLoop_agrees (hle.trans hlen) (Nat.zero_le _)
    (by omega)).map_right fun r decoded hr ↦ ?_
  rw [hr, Bool.not_false, Bool.true_and, drop_zero]

theorem scanDictLoop_agrees (hsub : sub.Within pl) {comp : List Octet} {cpos : ℕ}
    (hturns : sub.len - cpos < turns) :
    Agrees (ReadFrom sub cpos) (scanDictLoop pl sub depth comp turns cpos)
      (dictChild sub.seen depth comp turns cpos) := by
  have hfits := hsub.fits hlen
  induction turns generalizing cpos with
  | zero => exact absurd hturns (Nat.not_lt_zero _)
  | succ turns ih =>
    unfold scanDictLoop dictChild
    rcases (scanReadElement_agrees hfits cpos depth).cases with
      ⟨r, next, hr, hnext, hkey⟩ | ⟨e, hr, hnext⟩
    case inr =>
      rw [hr, hnext]
      exact agrees_report e
    rw [hr, hnext, ok_bind]
    cases hkey with
    | none => exact agrees_report _
    | closed => exact agrees_report _
    | @opened key k hkey =>
      dsimp only
      have hname := (hkey.of_within hsub).nameAt hlen
      rw [nameIs_eq hname, ok_bind]
      by_cases hiskey : k.name = ascii "key"
      case neg =>
        rw [decide_eq_false hiskey, if_pos hiskey]
        exact agrees_report _
      rw [decide_eq_true hiskey, if_neg (not_not_intro hiskey), ← hkey.stop]
      change Agrees _ (scanReadElement sub key.stop depth >>= _) _
      rcases (scanReadElement_agrees hfits key.stop depth).cases with
        ⟨r', next', hr', hnext', hval⟩ | ⟨e, hr', hnext'⟩
      case inr =>
        rw [hr', hnext']
        exact agrees_report e
      rw [hr', hnext', ok_bind]
      cases hval with
      | none => exact agrees_report _
      | closed => exact agrees_report _
      | @opened val v hval =>
        rw [if_neg (not_not_intro rfl), nameIs_eq ((hval.of_within hsub).nameAt hlen), ok_bind]
        dsimp only
        by_cases hisval : v.name = ascii "key"
        case pos =>
          rw [decide_eq_true hisval, if_pos rfl, if_pos hisval]
          exact agrees_report _
        have hlt := hkey.pos_lt
        have hlt' := hval.pos_lt
        have hle := hval.stop_le
        rw [decide_eq_false hisval, if_neg Bool.false_ne_true, if_neg hisval]
        rcases (scanTextEquals_agrees hlen hsub hkey comp).cases with
          ⟨same, same', hsame, hsame', rfl⟩ | ⟨e, hsame, hsame'⟩
        · rw [hsame, hsame', ok_bind]
          cases same with
          | true => exact agrees_ok ⟨key.stop, depth, hlt.le, hr', hval⟩
          | false =>
            dsimp only
            rw [if_neg Bool.false_ne_true, ← hval.stop]
            exact (ih (by omega)).mono fun _ _ hread ↦ hread.of_le (hlt.trans hlt').le
        · rw [hsame, hsame']
          exact agrees_report e

theorem scanChild_agrees (h : ElemIs pl pos elem u) (comp : List Octet) :
    Agrees (ReadFrom (scanInnerView pl elem) elem.contentOff) (scanChild pl elem depth comp)
      (childOf pl.seen u depth comp) := by
  have hname := h.nameAt hlen
  have hle : elem.contentEnd ≤ pl.len := h.within.len_le
  unfold scanChild childOf
  rw [h.innerView_eq, VmfwPlist.length_seen hlen, ← h.contentOff, ← h.selfClosing]
  cases compIsIndex comp with
  | some index =>
    dsimp only
    rw [nameIs_eq hname, ok_bind]
    by_cases hwrong : u.name ≠ ascii "array" ∨ elem.selfClosing = true
    · rw [if_pos (by simpa using hwrong), if_pos hwrong]
      exact agrees_report _
    · rw [if_neg (by simpa using hwrong), if_neg hwrong]
      exact scanArrayLoop_agrees (h.within.fits hlen) (Nat.zero_le _)
        (show elem.contentEnd - _ < _ by omega)
  | none =>
    dsimp only
    rw [nameIs_eq hname, ok_bind]
    by_cases hwrong : u.name ≠ ascii "dict" ∨ elem.selfClosing = true
    · rw [if_pos (by simpa using hwrong), if_pos hwrong]
      exact agrees_report _
    · rw [if_neg (by simpa using hwrong), if_neg hwrong]
      exact scanDictLoop_agrees hlen h.within (show elem.contentEnd - _ < _ by omega)

omit hlen in
/-- An element was read in the content of another and lies inside of that content. -/
structure FoundIn (pl : VmfwPlist) (outer inner : ScanElem) : Prop where
  read : ∃ pos depth, outer.contentOff ≤ pos ∧
    scanReadElement (scanInnerView pl outer) pos depth = .ok (inner, .opened)
  ordered : inner.Ordered
  contentOff_le : outer.contentOff ≤ inner.start
  stop_le : inner.stop ≤ outer.contentEnd

omit hlen in
theorem ReadFrom.foundIn {inner : ScanElem} {v : PlistElem}
    (h : ReadFrom (scanInnerView pl elem) elem.contentOff inner v) : FoundIn pl elem inner := by
  obtain ⟨pos', depth, hle, hread, his⟩ := h
  exact ⟨⟨pos', depth, hle, hread⟩, his.ordered, hle.trans his.pos_le, his.stop_le⟩

omit hlen in
/-- An element that a path leads to from another. -/
structure LedTo (pl : VmfwPlist) (outer : ScanElem) (r : ScanElem × ℕ) (s : PlistElem × ℕ) :
    Prop where
  depth : r.2 = s.2
  elem : ∃ pos, ElemIs pl pos r.1 s.1
  found : Relation.ReflTransGen (FoundIn pl) outer r.1

theorem scanDescend_agrees (comps : List (List Octet)) (h : ElemIs pl pos elem u) :
    Agrees (LedTo pl elem) (scanDescend pl comps elem depth)
      (descend pl.seen comps u depth) := by
  induction comps generalizing pos elem u depth with
  | nil => exact agrees_ok ⟨rfl, ⟨pos, h⟩, .refl⟩
  | cons comp rest ih =>
    unfold scanDescend descend
    split
    case isTrue => exact agrees_report _
    case isFalse =>
      rcases (scanChild_agrees hlen h comp).cases with ⟨child, v, hchild, hv, hread⟩ | ⟨e, hc, hv⟩
      · rw [hchild, hv, ok_bind]
        have hfound := hread.foundIn
        obtain ⟨pos', -, -, -, his⟩ := hread
        refine (ih (his.of_within h.within)).mono fun r s hled ↦ ?_
        exact ⟨hled.depth, hled.elem, .head hfound hled.found⟩
      · rw [hc, hv]
        exact agrees_report e

theorem scanWrapLoop_agrees {scan : ℕ} (hturns : pl.len - scan < turns) :
    Agrees (ReadFrom pl scan) (scanWrapLoop pl turns scan) (findWrap pl.seen turns scan) := by
  induction turns generalizing scan with
  | zero => exact absurd hturns (Nat.not_lt_zero _)
  | succ turns ih =>
    unfold scanWrapLoop findWrap
    rcases (scanReadElement_agrees hlen scan 1).cases with
      ⟨r, next, hr, hnext, hwrap⟩ | ⟨e, hr, hnext⟩
    case inr =>
      rw [hr, hnext]
      exact agrees_report e
    rw [hr, hnext, ok_bind]
    cases hwrap with
    | none => exact agrees_report _
    | closed => exact agrees_report _
    | @opened wrap w h =>
      dsimp only
      rw [nameIs_eq (h.nameAt hlen), ok_bind]
      by_cases hplist : w.name = ascii "plist"
      · rw [decide_eq_true hplist, if_pos rfl, if_pos hplist]
        exact agrees_ok ⟨scan, 1, le_rfl, hr, h⟩
      · have hlt := h.pos_lt
        have hle := h.stop_le
        rw [decide_eq_false hplist, if_neg Bool.false_ne_true, if_neg hplist, ← h.stop]
        exact (ih (by omega)).mono fun _ _ hread ↦ hread.of_le hlt.le

omit hlen in
/-- The `<plist>` element of a document. -/
def IsWrap (pl : VmfwPlist) (wrap : ScanElem) (w : PlistElem) : Prop :=
  findWrap pl.seen (pl.len + 1) 0 = .ok w ∧ ∃ pos, ElemIs pl pos wrap w

theorem scanResolve_agrees (path : List Octet) :
    Agrees (fun r s ↦ ∃ wrap w root, IsWrap pl wrap w ∧ FoundIn pl wrap root ∧ LedTo pl root r s)
      (scanResolve pl path) (resolve pl.seen path) := by
  unfold scanResolve resolve
  rw [VmfwPlist.length_seen hlen]
  rcases (scanWrapLoop_agrees hlen (show pl.len - 0 < pl.len + 1 by omega)).cases with
    ⟨wrap, w, hwrap, hw, pos, depth, -, -, his⟩ | ⟨e, hwrap, hw⟩
  case inr =>
    rw [hwrap, hw]
    exact agrees_report e
  rw [hwrap, hw, ok_bind]
  dsimp only
  rw [his.innerView_eq, ← his.contentOff]
  rcases (scanReadElement_agrees (his.within.fits hlen) wrap.contentOff 2).cases with
    ⟨r, next, hr, hnext, hcur⟩ | ⟨e, hr, hnext⟩
  case inr =>
    rw [hr, hnext]
    exact agrees_report e
  rw [hr, hnext, ok_bind]
  cases hcur with
  | none => exact agrees_report _
  | closed => exact agrees_report _
  | @opened cur c hcur =>
    have hread : ReadFrom (scanInnerView pl wrap) wrap.contentOff cur c :=
      ⟨wrap.contentOff, 2, le_rfl, hr, hcur⟩
    refine (scanDescend_agrees hlen (components path) (hcur.of_within his.within)).mono
      fun r s hled ↦ ⟨wrap, w, cur, ⟨hw, pos, his⟩, hread.foundIn, hled⟩

theorem scanGetString_agrees (path : List Octet) (cap : ℕ) :
    Agrees Eq (scanGetString pl path cap) (vmfwPlistGetString pl.seen path cap) := by
  unfold scanGetString vmfwPlistGetString
  split
  case isTrue => exact agrees_report _
  case isFalse =>
    rcases (scanResolve_agrees hlen path).cases with
      ⟨⟨e, depth⟩, ⟨u, depth'⟩, hr, hs, wrap, w, root, -, -, hled⟩ | ⟨e, hr, hs⟩
    case inr =>
      rw [hr, hs]
      exact agrees_report e
    obtain ⟨pos, his⟩ := hled.elem
    dsimp only at his
    have hle : e.contentEnd ≤ pl.len := his.within.len_le
    rw [hr, hs, ok_bind]
    dsimp only
    rw [nameIs_eq (his.nameAt hlen), ok_bind]
    by_cases hstring : u.name = ascii "string"
    · rw [decide_eq_true hstring, if_neg (not_not_intro hstring), his.content_eq]
      exact (scanTextCopyLoop_agrees (hle.trans hlen) (by omega)).mono fun _ _ h ↦ h
    · rw [decide_eq_false hstring, if_pos hstring]
      exact agrees_report _

omit hlen in
theorem scanCountLoop_agrees (hlen : pl.len ≤ pl.xml.length) {count : ℕ}
    (hturns : pl.len - pos < turns) :
    Agrees (fun total more ↦ total = count + more) (scanCountLoop pl depth turns count pos)
      (countChildren pl.seen depth turns pos) := by
  induction turns generalizing pos count with
  | zero => exact absurd hturns (Nat.not_lt_zero _)
  | succ turns ih =>
    unfold scanCountLoop countChildren
    rcases (scanReadElement_agrees hlen pos depth).cases with
      ⟨r, next, hr, hnext, hagrees⟩ | ⟨e, hr, hnext⟩
    case inr =>
      rw [hr, hnext]
      exact agrees_report e
    rw [hr, hnext, ok_bind]
    cases hagrees with
    | none => exact agrees_ok rfl
    | closed => exact agrees_report _
    | @opened child v h =>
      have hlt := h.pos_lt
      have hle := h.stop_le
      dsimp only
      rw [← h.stop]
      refine (@ih child.stop (count + 1) (by omega)).map_right fun total more h ↦ ?_
      rw [h]
      exact Nat.add_right_comm count 1 more

theorem scanArrayCount_agrees (path : List Octet) :
    Agrees Eq (scanArrayCount pl path) (vmfwPlistArrayCount pl.seen path) := by
  unfold scanArrayCount vmfwPlistArrayCount
  rcases (scanResolve_agrees hlen path).cases with
    ⟨⟨e, depth⟩, ⟨u, depth'⟩, hr, hs, wrap, w, root, -, -, hled⟩ | ⟨e, hr, hs⟩
  case inr =>
    rw [hr, hs]
    exact agrees_report e
  obtain ⟨pos, his⟩ := hled.elem
  have hdepth : depth = depth' := hled.depth
  dsimp only at his
  have hle : e.contentEnd ≤ pl.len := his.within.len_le
  rw [hr, hs, ok_bind]
  dsimp only
  rw [nameIs_eq (his.nameAt hlen), ok_bind]
  by_cases harray : u.name = ascii "array"
  · rw [decide_eq_true harray, if_neg (not_not_intro harray), his.selfClosing, his.innerView_eq,
      VmfwPlist.length_seen hlen, ← hdepth, ← his.contentOff]
    rw [if_neg (by decide)]
    split
    case isTrue => exact agrees_ok rfl
    case isFalse =>
      refine (@scanCountLoop_agrees e.contentOff (pl.len + 1) (scanInnerView pl e) (depth + 1)
        (his.within.fits hlen) 0 (show e.contentEnd - _ < _ by omega)).mono fun total more h ↦ ?_
      rw [h, Nat.zero_add]
  · rw [decide_eq_false harray, if_pos harray]
    exact agrees_report _

omit hlen in
/-- With a turn for every octet, the white space at the end is passed over. -/
theorem trimLoop_eq {s t : ℕ} (ht : t ≤ x.length) (hst : s ≤ t) (hturns : t - s < turns) :
    trimLoop x s turns t = .ok (s + (((x.take t).drop s).rdropWhile isWs).length) := by
  induction turns generalizing t with
  | zero => exact absurd hturns (Nat.not_lt_zero _)
  | succ turns ih =>
    unfold trimLoop
    split
    case isTrue h =>
      obtain ⟨k, rfl⟩ : ∃ k, t = k + 1 := ⟨t - 1, by omega⟩
      have hlast : (x.take (k + 1)).drop s = (x.take k).drop s ++ [x[k]] := by
        rw [take_succ_eq_append_getElem ht, drop_append_of_le_length]
        rw [length_take]
        omega
      rw [Nat.add_sub_cancel, read_eq (getElem?_eq_getElem ht), ok_bind, hlast]
      by_cases hws : isWs x[k] = true
      · rw [if_pos hws, ih (by omega) (by omega) (by omega), rdropWhile_concat_pos _ _ _ hws]
      · rw [if_neg hws, rdropWhile_concat_neg _ _ _ hws, length_append, length_drop,
          length_take, length_singleton, pure_eq]
        congr 1
        omega
    case isFalse h =>
      rw [drop_take_of_le (Nat.le_of_not_lt h)]
      exact congrArg Except.ok (Nat.le_antisymm (Nat.le_of_not_lt h) hst)

theorem scanGetDataSpan_agrees (path : List Octet) :
    Agrees Eq (scanGetDataSpan pl path) (vmfwPlistGetDataSpan pl.seen path) := by
  unfold scanGetDataSpan vmfwPlistGetDataSpan
  rcases (scanResolve_agrees hlen path).cases with
    ⟨⟨e, depth⟩, ⟨u, depth'⟩, hr, hs, wrap, w, root, -, -, hled⟩ | ⟨e, hr, hs⟩
  case inr =>
    rw [hr, hs]
    exact agrees_report e
  obtain ⟨pos, his⟩ := hled.elem
  dsimp only at his
  have hle : e.contentEnd ≤ pl.len := his.within.len_le
  have hcontent := his.ordered.content_le
  rw [hr, hs, ok_bind]
  dsimp only
  rw [nameIs_eq (his.nameAt hlen), ok_bind]
  by_cases hdata : u.name = ascii "data"
  · rw [decide_eq_true hdata, if_neg (not_not_intro hdata), his.content_eq,
      passWhile_eq (hle.trans hlen) (by omega), ok_bind, ← his.contentOff]
    rw [if_neg (by decide)]
    obtain ⟨front, hfront⟩ : ∃ front, (((pl.xml.take e.contentEnd).drop e.contentOff).takeWhile
      isWs).length = front := ⟨_, rfl⟩
    have hbound := takeWhile_le (hle.trans hlen) (Eq.refl
      (((pl.xml.take e.contentEnd).drop e.contentOff).takeWhile isWs))
    rw [hfront] at hbound ⊢
    rw [trimLoop_eq (hle.trans hlen) (by omega) (by omega), ok_bind, Nat.add_sub_cancel_left,
      drop_drop]
    exact agrees_ok rfl
  · rw [decide_eq_false hdata, if_pos hdata]
    exact agrees_report _

end

end S5LBox.Firmware
