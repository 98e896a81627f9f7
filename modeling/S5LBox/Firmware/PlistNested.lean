import S5LBox.Library.Nesting
import S5LBox.Firmware.PlistBounded

/-!
# What a property list lookup accepts

A lookup reads the whole `<plist>` element before anything else. Where it succeeds, the tags inside
of the element nest by name up to its own end tag, the element that answers is found in the content
of one that is found in the content of another, up to the `<plist>` element, and the span that is
handed out lies in the content of the element that answers.
-/

namespace S5LBox.Firmware

open List Checked Nesting

variable {x : List Octet} {pos depth turns : ℕ}

/-- The tags of a document from an offset up to another. -/
inductive Tags (x : List Octet) : ℕ → List (Tag (List Octet)) → ℕ → Prop
  | nil {pos : ℕ} : Tags x pos [] pos
  | leaf {pos stop : ℕ} {t : PlistTag} {rest : List (Tag (List Octet))}
      (htag : nextTag x pos = .ok (.opened t)) (hself : t.selfClosing = true)
      (hrest : Tags x t.stop rest stop) : Tags x pos (.leaf t.name :: rest) stop
  | start {pos stop : ℕ} {t : PlistTag} {rest : List (Tag (List Octet))}
      (htag : nextTag x pos = .ok (.opened t)) (hself : t.selfClosing = false)
      (hrest : Tags x t.stop rest stop) : Tags x pos (.start t.name :: rest) stop
  | finish {pos stop : ℕ} {t : PlistTag} {rest : List (Tag (List Octet))}
      (htag : nextTag x pos = .ok (.closed t)) (hrest : Tags x t.stop rest stop) :
      Tags x pos (.finish t.name :: rest) stop

theorem Tags.append {tags more : List (Tag (List Octet))} {mid stop : ℕ} (h : Tags x pos tags mid)
    (hmore : Tags x mid more stop) : Tags x pos (tags ++ more) stop := by
  induction h with
  | nil => exact hmore
  | leaf htag hself _ ih => exact .leaf htag hself (ih hmore)
  | start htag hself _ ih => exact .start htag hself (ih hmore)
  | finish htag _ ih => exact .finish htag (ih hmore)

theorem readLoop_closes {stk : List (List Octet)} {cur : ℕ} {u : PlistTag} (hstk : stk ≠ [])
    (h : readLoop x depth turns stk cur = .ok u) :
    ∃ tags mid, Tags x cur tags mid ∧ nextTag x mid = .ok (.closed u) ∧
      Closes stk (tags ++ [.finish u.name]) := by
  induction turns generalizing stk cur with
  | zero => cases h
  | succ turns ih =>
    obtain ⟨top, others, rfl⟩ := exists_cons_of_ne_nil hstk
    unfold readLoop at h
    split at h
    case h_1 => cases h
    case h_2 => cases h
    case h_3 t htag =>
      split at h
      case isTrue hself =>
        obtain ⟨tags, mid, htags, hend, hcloses⟩ := ih hstk h
        exact ⟨_, mid, .leaf htag hself htags, hend, .leaf hcloses⟩
      case isFalse hself =>
        split at h
        case isTrue => cases h
        case isFalse =>
          obtain ⟨tags, mid, htags, hend, hcloses⟩ := ih (cons_ne_nil _ _) h
          exact ⟨_, mid, .start htag (Bool.eq_false_iff.2 hself) htags, hend, .start hcloses⟩
    case h_4 t htag =>
      dsimp only at h
      split at h
      case isTrue => cases h
      case isFalse hname =>
        obtain rfl := not_not.1 hname
        split at h
        case isTrue hlast =>
          cases h
          subst hlast
          exact ⟨[], cur, .nil, htag, .finish .done⟩
        case isFalse hothers =>
          obtain ⟨tags, mid, htags, hend, hcloses⟩ := ih hothers h
          exact ⟨_, mid, .finish htag htags, hend, .finish hcloses⟩

/-- The tags between the start tag and the end tag of the element that begins with the tag at `pos`
nest by name. -/
def NestedAt (x : List Octet) (pos : ℕ) (e : PlistElem) : Prop :=
  ∃ t u names body mid, nextTag x pos = .ok (.opened t) ∧ t.selfClosing = false ∧
    t.name = e.name ∧ t.stop = e.contentOff ∧ Tags x t.stop body mid ∧ Forest names body ∧
    nextTag x mid = .ok (.closed u) ∧ u.name = e.name ∧ u.start = e.contentEnd ∧ u.stop = e.stop

theorem readElement_cases {e : PlistElem} (h : readElement x pos depth = .ok (.opened e)) :
    ∃ t, nextTag x pos = .ok (.opened t) ∧
      (t.selfClosing = true ∧ e = ⟨t.name, t.stop, t.stop, t.stop, true⟩ ∨
        t.selfClosing = false ∧ ∃ u, readLoop x depth (x.length + 1) [t.name] t.stop = .ok u ∧
          e = ⟨t.name, t.stop, u.start, u.stop, false⟩) := by
  unfold readElement at h
  split at h
  case h_1 => cases h
  case h_2 => cases h
  case h_3 => cases h
  case h_4 t htag =>
    refine ⟨t, htag, ?_⟩
    split at h
    case isTrue hself =>
      cases h
      exact .inl ⟨hself, rfl⟩
    case isFalse hself =>
      split at h
      case h_1 => cases h
      case h_2 u hloop =>
        cases h
        exact .inr ⟨Bool.eq_false_iff.2 hself, u, hloop, rfl⟩

theorem readElement_nested {e : PlistElem} (h : readElement x pos depth = .ok (.opened e))
    (hself : e.selfClosing = false) : NestedAt x pos e := by
  obtain ⟨t, htag, ⟨-, rfl⟩ | ⟨ht, u, hloop, rfl⟩⟩ := readElement_cases h
  · cases hself
  · obtain ⟨tags, mid, htags, hend, hcloses⟩ := readLoop_closes (cons_ne_nil _ _) hloop
    obtain ⟨names, body, hbody, hforest⟩ := hcloses.element
    obtain ⟨rfl, hfinish⟩ := append_inj' hbody rfl
    have hname : u.name = t.name := Tag.finish.inj (List.cons.inj hfinish).1
    exact ⟨t, u, names, tags, mid, htag, ht, rfl, rfl, htags, hforest, hend, hname, rfl, rfl⟩

theorem readElement_tags {e : PlistElem} (h : readElement x pos depth = .ok (.opened e)) :
    ∃ tags, Tags x pos tags e.stop ∧ Forest [e.name] tags := by
  cases hself : e.selfClosing with
  | true =>
    obtain ⟨t, htag, ⟨ht, rfl⟩ | ⟨-, u, -, rfl⟩⟩ := readElement_cases h
    · exact ⟨_, .leaf htag ht .nil, .leaf .nil⟩
    · cases hself
  | false =>
    obtain ⟨t, u, names, body, mid, htag, ht, hname, -, hbody, hforest, hend, hu, -, hstop⟩ :=
      readElement_nested h hself
    have hclosed : Tags x mid [.finish u.name] u.stop := .finish hend .nil
    rw [hu, hstop] at hclosed
    have htags := Tags.start htag ht (hbody.append hclosed)
    rw [hname] at htags
    exact ⟨_, htags, .node hforest .nil⟩

theorem findWrap_front {scan : ℕ} {w : PlistElem} (h : findWrap x turns scan = .ok w) :
    ∃ names front pos, Tags x scan front pos ∧ Forest names front ∧ ascii "plist" ∉ names ∧
      readElement x pos 1 = .ok (.opened w) ∧ w.name = ascii "plist" := by
  induction turns generalizing scan with
  | zero => cases h
  | succ turns ih =>
    unfold findWrap at h
    split at h
    case h_1 => cases h
    case h_2 => cases h
    case h_3 => cases h
    case h_4 e helem =>
      split at h
      case isTrue hname =>
        cases h
        exact ⟨[], [], scan, .nil, .nil, not_mem_nil, helem, hname⟩
      case isFalse hname =>
        obtain ⟨names, front, pos, hfront, hforest, hnot, hread, hwrap⟩ := ih h
        obtain ⟨tags, htags, hone⟩ := readElement_tags helem
        refine ⟨_, _, pos, htags.append hfront, hone.append hforest, ?_, hread, hwrap⟩
        rw [singleton_append, mem_cons, not_or]
        exact ⟨fun heq ↦ hname heq.symm, hnot⟩

/-- The element is the first of its name that no other element holds, and its tags nest. -/
def IsNestedPlist (x : List Octet) (wrap : ScanElem) : Prop :=
  ∃ names front pos w, Tags x 0 front pos ∧ Forest names front ∧ ascii "plist" ∉ names ∧
    w.name = ascii "plist" ∧ NestedAt x pos w ∧ wrap.contentOff = w.contentOff ∧
    wrap.contentEnd = w.contentEnd ∧ wrap.stop = w.stop

inductive PlistLookup
  | getString (cap : ℕ)
  | arrayCount
  | getDataSpan
deriving DecidableEq, Repr

inductive PlistAnswer
  | text (octets : List Octet)
  | count (n : ℕ)
  | span (off len : ℕ)
deriving DecidableEq, Repr

def scanLookup (pl : VmfwPlist) (path : List Octet) : PlistLookup → Scanning PlistAnswer
  | .getString cap => do return .text (← scanGetString pl path cap)
  | .arrayCount => do return .count (← scanArrayCount pl path)
  | .getDataSpan => do
    let (off, len) ← scanGetDataSpan pl path
    return .span off len

/-- A span that is handed out lies in the content of the element. -/
def PlistAnswer.Inside (e : ScanElem) : PlistAnswer → Prop
  | .span off len => e.contentOff ≤ off ∧ off + len ≤ e.contentEnd
  | _ => True

variable {pl : VmfwPlist} {path : List Octet} {e : ScanElem}

theorem scanResolve_found (hlen : pl.len ≤ pl.xml.length) (h : scanResolve pl path = .ok (e, depth)) :
    e.Ordered ∧ e.stop ≤ pl.len ∧ ∃ wrap, IsNestedPlist pl.seen wrap ∧ wrap.Ordered ∧ wrap.stop ≤ pl.len ∧
      Relation.TransGen (FoundIn pl) wrap e := by
  rcases (scanResolve_agrees hlen path).cases with
    ⟨⟨e', depth'⟩, s, hr, -, wrap, w, root, ⟨hwrap, pos, his⟩, hroot, hled⟩ | ⟨e, hr, -⟩
  case inr =>
    rw [hr] at h
    cases h
  rw [hr] at h
  cases h
  obtain ⟨_, his'⟩ := hled.elem
  obtain ⟨names, front, pos', hfront, hforest, hnot, hread, hname⟩ := findWrap_front hwrap
  -- An element without content holds no root object.
  have hself : w.selfClosing = false := by
    obtain ⟨t, -, ⟨-, rfl⟩ | ⟨-, u, -, rfl⟩⟩ := readElement_cases hread
    · have hempty : wrap.contentEnd = wrap.contentOff := his.contentEnd.trans his.contentOff.symm
      have hroom := hroot.ordered.start_lt_stop
      have hfrom := hroot.contentOff_le
      have hupto := hroot.stop_le
      omega
    · rfl
  exact ⟨his'.ordered, his'.stop_le, wrap, ⟨names, front, pos', w, hfront, hforest, hnot, hname,
    readElement_nested hread hself, his.contentOff, his.contentEnd, his.stop⟩, his.ordered,
    his.stop_le, .head' hroot hled.found⟩

/-- The lookups over lists. -/
def plistLookup (x path : List Octet) : PlistLookup → Except PlistStatus PlistAnswer
  | .getString cap => (vmfwPlistGetString x path cap).map .text
  | .arrayCount => (vmfwPlistArrayCount x path).map .count
  | .getDataSpan => (vmfwPlistGetDataSpan x path).map fun span ↦ .span span.1 span.2

theorem scanLookup_agrees (hlen : pl.len ≤ pl.xml.length) (path : List Octet)
    (lookup : PlistLookup) :
    Agrees Eq (scanLookup pl path lookup) (plistLookup pl.seen path lookup) := by
  cases lookup with
  | getString cap =>
    rcases (scanGetString_agrees hlen path cap).cases with ⟨r, _, hr, hs, rfl⟩ | ⟨e, hr, hs⟩
    · rw [scanLookup, plistLookup, hr, hs]
      exact agrees_ok rfl
    · rw [scanLookup, plistLookup, hr, hs]
      exact agrees_report e
  | arrayCount =>
    rcases (scanArrayCount_agrees hlen path).cases with ⟨r, _, hr, hs, rfl⟩ | ⟨e, hr, hs⟩
    · rw [scanLookup, plistLookup, hr, hs]
      exact agrees_ok rfl
    · rw [scanLookup, plistLookup, hr, hs]
      exact agrees_report e
  | getDataSpan =>
    rcases (scanGetDataSpan_agrees hlen path).cases with ⟨r, _, hr, hs, rfl⟩ | ⟨e, hr, hs⟩
    · rw [scanLookup, plistLookup, hr, hs]
      exact agrees_ok rfl
    · rw [scanLookup, plistLookup, hr, hs]
      exact agrees_report e

theorem scanLookup_inside (hlen : pl.len ≤ pl.xml.length) {lookup : PlistLookup}
    {answer : PlistAnswer} (h : scanLookup pl path lookup = .ok answer) :
    ∃ e depth, scanResolve pl path = .ok (e, depth) ∧ answer.Inside e := by
  cases lookup with
  | getString cap =>
    obtain ⟨text, htext, hanswer⟩ := bind_eq_ok.1 h
    cases hanswer
    unfold scanGetString at htext
    split at htext
    case isTrue => cases htext
    case isFalse =>
      obtain ⟨⟨e, depth⟩, hresolve, -⟩ := bind_eq_ok.1 htext
      exact ⟨e, depth, hresolve, trivial⟩
  | arrayCount =>
    obtain ⟨count, hcount, hanswer⟩ := bind_eq_ok.1 h
    cases hanswer
    obtain ⟨⟨e, depth⟩, hresolve, -⟩ := bind_eq_ok.1 hcount
    exact ⟨e, depth, hresolve, trivial⟩
  | getDataSpan =>
    obtain ⟨⟨off, len⟩, hspan, hanswer⟩ := bind_eq_ok.1 h
    cases hanswer
    obtain ⟨⟨e, depth⟩, hresolve, hspan⟩ := bind_eq_ok.1 hspan
    obtain ⟨hordered, hstop, -⟩ := scanResolve_found hlen hresolve
    have hcontent := hordered.content_le
    have hinside := hordered.end_le
    have hend : e.contentEnd ≤ pl.xml.length := hinside.trans (hstop.trans hlen)
    obtain ⟨named, -, hspan⟩ := bind_eq_ok.1 hspan
    split at hspan
    case isTrue => cases hspan
    case isFalse =>
      obtain ⟨s, hs, hspan⟩ := bind_eq_ok.1 hspan
      obtain ⟨t, ht, hspan⟩ := bind_eq_ok.1 hspan
      cases hspan
      have hspace := takeWhile_le hend (Eq.refl
        (((pl.xml.take e.contentEnd).drop e.contentOff).takeWhile isWs))
      have hoff := Except.ok.inj (hs.symm.trans (passWhile_eq hend (by omega)))
      have hkept := ( rdropWhile_prefix isWs ((pl.xml.take e.contentEnd).drop off)).length_le
      rw [length_drop, length_take, min_eq_left hend] at hkept
      have hlast := Except.ok.inj (ht.symm.trans (trimLoop_eq hend (by omega) (by omega)))
      have hspan : e.contentOff ≤ off ∧ off + (t - off) ≤ e.contentEnd := by omega
      exact ⟨e, depth, hresolve, hspan⟩

/-- Whatever the document and the path are, a lookup ends with a status or with an answer: it reads
no octet past the document, stays in no loop and pushes no more names than fit. It answers only from
a `<plist>` element whose tags nest by name, with an element inside of that one, found in the
content of the one around it, and hands out a span of its content. -/
theorem scanLookup_bounded (x path : List Octet) (lookup : PlistLookup) :
    (∃ status, scanLookup ⟨x, x.length⟩ path lookup = report status) ∨
      ∃ answer wrap e depth, scanLookup ⟨x, x.length⟩ path lookup = .ok answer ∧
        scanResolve ⟨x, x.length⟩ path = .ok (e, depth) ∧ e.Ordered ∧
        e.stop ≤ x.length ∧ answer.Inside e ∧
        IsNestedPlist x wrap ∧ wrap.Ordered ∧ wrap.stop ≤ x.length ∧
        Relation.TransGen (FoundIn ⟨x, x.length⟩) wrap e := by
  have hlen : (⟨x, x.length⟩ : VmfwPlist).len ≤ (⟨x, x.length⟩ : VmfwPlist).xml.length := le_rfl
  have hseen : (⟨x, x.length⟩ : VmfwPlist).seen = x := take_length
  rcases (scanLookup_agrees hlen path lookup).cases with
    ⟨answer, _, hscan, -⟩ | ⟨status, hscan, -⟩
  · obtain ⟨e, depth, hresolve, hinside⟩ := scanLookup_inside hlen hscan
    obtain ⟨hordered, hwithin, wrap, hnested, hwrap, hstop, hfound⟩ :=
      scanResolve_found hlen hresolve
    rw [hseen] at hnested
    exact .inr ⟨answer, wrap, e, depth, hscan, hresolve, hordered, hwithin, hinside, hnested,
      hwrap, hstop, hfound⟩
  · exact .inl ⟨status, hscan⟩

example : scanLookup ⟨ascii "<plist><data> QQ== </data></plist>", 34⟩ [] .getDataSpan =
    .ok (.span 14 4) := by decide +kernel

example : scanLookup ⟨ascii "<plist><data>QQ==</data></dict></plist>", 39⟩ [] .getDataSpan =
    report .malformed := by decide +kernel

end S5LBox.Firmware
