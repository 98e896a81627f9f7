import S5LBox.App.SavedInstances

/-!
# Loading the list of machines

Whatever text is loaded, the list has one record for every line behind the header that is not
blank, or none at all; and the text is read to its end, except where a line is too long for the
line buffer and everything in front of it can be loaded.
-/

namespace S5LBox.App

open List

/-- A line without the carriage return at its end. -/
def lineContent (line : List Octet) : List Octet :=
  if line.getLast? = some 0x0d then line.dropLast else line

def textLines (text : List Octet) : List (List Octet) := text.splitOn 0x0a

def IsHeader (line : List Octet) : Prop :=
  scanHeader (lineContent line) = some (instanceHeader, BitVec.ofNat 32 instanceFormatVersion)

/-- The machines of some lines, one for each that is not blank; a list the app can have. -/
def Records (lines : List (List Octet)) (list : List Instance) : Prop :=
  List.Forall₂ (fun line row ↦ scanRow line = some row)
    ((lines.map lineContent).filter (· ≠ [])) list ∧ Registered list

def Short (line : List Octet) : Prop := line.length < lineCap

/-- A text that is loaded at all is loaded as all of its lines. -/
def LoadsWhole (text : List Octet) : Prop :=
  ∀ list, instanceDeserialize text = .ok list → ∃ header lines,
    textLines text = header :: lines ∧ IsHeader header ∧
      (∀ line ∈ header :: lines, Short line) ∧ Records lines list

/-- The rows of some lines, as the loop reads them: it ends before a line that is too long. -/
def loadLines : List (List Octet) → List Instance → Except InstanceStatus (List Instance)
  | [], list => .ok list
  | line :: lines, list =>
    if lineCap ≤ line.length then .ok list
    else if lineContent line = [] then loadLines lines list
    else
      match scanRow (lineContent line) with
      | none => .error .parse
      | some row =>
        match addRow list row with
        | .error e => .error e
        | .ok list => loadLines lines list

variable {text : List Octet} {lines : List (List Octet)} {list list' : List Instance}
  {row : Instance}

theorem textLines_eq (h : text ≠ []) : ∃ content, nextLine lineCap text =
      (if lineCap ≤ content.length then .overflow
        else .line (lineContent content) (text.drop (content.length + 1))) ∧
      (textLines text = [content] ∧ text.drop (content.length + 1) = [] ∨
        textLines text = content :: textLines (text.drop (content.length + 1))) := by
  refine ⟨text.takeWhile (· ≠ 0x0a), by rw [nextLine, if_neg h]; rfl, ?_⟩
  have hsplit := takeWhile_append_dropWhile (p := (· ≠ (0x0a : Octet))) (l := text)
  have hnone : (0x0a : Octet) ∉ text.takeWhile (· ≠ 0x0a) := by
    intro hmem
    simpa using all_eq_true.1 all_takeWhile _ hmem
  generalize text.takeWhile (· ≠ 0x0a) = content at hsplit hnone
  rcases hback : text.dropWhile (· ≠ 0x0a) with _ | ⟨octet, back⟩
  · rw [hback, append_nil] at hsplit
    subst hsplit
    exact .inl ⟨splitOn_eq_singleton hnone, drop_of_length_le (Nat.le_succ _)⟩
  · have hend : octet = 0x0a := by
      have hhead := head?_dropWhile_not (fun octet : Octet ↦ decide (octet ≠ 0x0a)) text
      rw [hback] at hhead
      simpa using hhead
    rw [hback, hend] at hsplit
    subst hsplit
    have hdrop : (content ++ 0x0a :: back).drop (content.length + 1) = back := by
      rw [← drop_drop, drop_left, drop_one, tail_cons]
    rw [hdrop]
    exact .inr (splitOn_append_cons_self_of_not_mem hnone back)

theorem loadLines_blank : loadLines (textLines []) list = loadLines [] list := rfl

theorem readRows_eq (text : List Octet) (list : List Instance) :
    readRows text list = loadLines (textLines text) list := by
  induction hlength : text.length using Nat.strong_induction_on generalizing text list with
  | _ length ih =>
    by_cases hnil : text = []
    · rw [hnil, readRows_nil, loadLines_blank, loadLines]
    obtain ⟨content, hnext, hlines⟩ := textLines_eq hnil
    have hrest : ∀ list, readRows (text.drop (content.length + 1)) list =
        loadLines (textLines (text.drop (content.length + 1))) list := by
      intro list
      refine ih _ ?_ _ _ rfl
      have hpos := length_pos_of_ne_nil hnil
      rw [length_drop]
      omega
    have htail : ∃ lines, textLines text = content :: lines ∧
        ∀ list, loadLines lines list = readRows (text.drop (content.length + 1)) list := by
      rcases hlines with ⟨hone, hempty⟩ | hlines
      · refine ⟨[], hone, fun list ↦ ?_⟩
        rw [hempty, readRows_nil, loadLines]
      · exact ⟨_, hlines, fun list ↦ (hrest list).symm⟩
    obtain ⟨lines, htext, hload⟩ := htail
    rw [htext, loadLines, readRows]
    split
    · case _ hline =>
      rw [hnext] at hline
      split at hline <;> cases hline
    · case _ hline =>
      rw [hnext] at hline
      split at hline
      · case _ hlong => rw [if_pos hlong]
      · cases hline
    · case _ content' rest hline =>
      rw [hnext] at hline
      split at hline
      · cases hline
      · case _ hshort =>
        cases hline
        rw [if_neg hshort]
        exact (funext hload : loadLines lines = readRows _) ▸ rfl

theorem Registered.sublist (h : Registered list) (hsub : list'.Sublist list) : Registered list' :=
  ⟨hsub.length_le.trans h.length, fun row hrow ↦ h.ids row (hsub.subset hrow),
    fun row hrow ↦ h.names row (hsub.subset hrow), h.distinct.sublist (hsub.map Instance.id)⟩

theorem addRow_eq_ok (h : Registered list) :
    addRow list row = .ok list' ↔ list' = list ++ [row] ∧ Registered list' := by
  constructor
  · intro hadd
    obtain ⟨grown, hgrown⟩ : ∃ grown, instanceAdd list row.id row.name (List.ofFn row.options)
        row.createdUnix = .ok grown := by
      unfold addRow at hadd
      split at hadd
      · cases hadd
      · cases hadd
      · exact ⟨_, ‹_›⟩
    obtain ⟨hid, hname, hroom, hnew, -⟩ := instanceAdd_ok.1 hgrown
    rw [addRow_ok hid hname hroom hnew, Except.ok.injEq] at hadd
    subst hadd
    refine ⟨rfl, ?_, ?_, ?_, ?_⟩
    · rw [length_append, length_singleton]
      exact hroom
    · exact forall_mem_append.2 ⟨h.ids, forall_mem_singleton.2 hid⟩
    · exact forall_mem_append.2 ⟨h.names, forall_mem_singleton.2 hname⟩
    · rw [map_append]
      exact List.Nodup.append h.distinct (nodup_singleton _)
        (disjoint_singleton.2 hnew)
  · rintro ⟨rfl, hgrown⟩
    have hlength := hgrown.length
    have hdistinct := hgrown.distinct
    rw [length_append, length_singleton] at hlength
    rw [map_append, nodup_append] at hdistinct
    have hmem : row ∈ list ++ [row] := mem_append_right _ mem_cons_self
    exact addRow_ok (hgrown.ids row hmem) (hgrown.names row hmem) hlength fun hold ↦
      hdistinct.2.2 _ hold _ mem_cons_self rfl

instance : DecidablePred Short := fun line ↦ inferInstanceAs (Decidable (line.length < lineCap))

theorem loadLines_eq_ok (h : Registered list) : loadLines lines list = .ok list' ↔
    ∃ rows, list' = list ++ rows ∧ List.Forall₂ (fun line row ↦ scanRow line = some row)
      (((lines.takeWhile Short).map lineContent).filter (· ≠ [])) rows ∧ Registered list' := by
  induction lines generalizing list with
  | nil =>
    rw [loadLines, Except.ok.injEq]
    constructor
    · rintro rfl
      exact ⟨[], (append_nil _).symm, .nil, h⟩
    · rintro ⟨rows, rfl, hrows, -⟩
      cases hrows
      exact (append_nil _).symm
  | cons line lines ih =>
    rw [loadLines]
    by_cases hshort : Short line
    case neg =>
      have htake : (line :: lines).takeWhile Short = [] :=
        takeWhile_cons_of_neg (by simpa using hshort)
      rw [if_pos (Nat.not_lt.1 hshort), Except.ok.injEq, htake]
      constructor
      · rintro rfl
        exact ⟨[], (append_nil _).symm, .nil, h⟩
      · rintro ⟨rows, rfl, hrows, -⟩
        cases hrows
        exact (append_nil _).symm
    have htake : (line :: lines).takeWhile Short = line :: lines.takeWhile Short :=
      takeWhile_cons_of_pos (decide_eq_true hshort)
    rw [if_neg (Nat.not_le.2 hshort), htake, map_cons]
    by_cases hblank : lineContent line = []
    · rw [if_pos hblank, filter_cons_of_neg (by simpa using hblank)]
      exact ih h
    rw [if_neg hblank, filter_cons_of_pos (by simpa using hblank)]
    rcases hscan : scanRow (lineContent line) with _ | row
    · refine iff_of_false (nomatch ·) ?_
      rintro ⟨rows, -, hrows, -⟩
      obtain ⟨row, -, hrow, -⟩ := forall₂_cons_left_iff.1 hrows
      rw [hscan] at hrow
      cases hrow
    dsimp only
    have hfirst : ∀ rows, List.Forall₂ (fun line row ↦ scanRow line = some row)
        (lineContent line :: ((lines.takeWhile Short).map lineContent).filter (· ≠ [])) rows ↔
          ∃ back, List.Forall₂ (fun line row ↦ scanRow line = some row)
            (((lines.takeWhile Short).map lineContent).filter (· ≠ [])) back ∧
              rows = row :: back := by
      intro rows
      rw [forall₂_cons_left_iff]
      constructor
      · rintro ⟨other, back, hother, hback, rfl⟩
        rw [hscan] at hother
        cases hother
        exact ⟨back, hback, rfl⟩
      · rintro ⟨back, hback, rfl⟩
        exact ⟨row, back, hscan, hback, rfl⟩
    rcases hadd : addRow list row with e | grown
    · refine iff_of_false (nomatch ·) ?_
      rintro ⟨rows, rfl, hrows, hall⟩
      obtain ⟨back, -, rfl⟩ := (hfirst rows).1 hrows
      have hgrown : Registered (list ++ [row]) := hall.sublist (by
        rw [append_cons list row back]
        exact sublist_append_left _ _)
      rw [(addRow_eq_ok h).2 ⟨rfl, hgrown⟩] at hadd
      cases hadd
    · obtain ⟨rfl, hgrown⟩ := (addRow_eq_ok h).1 hadd
      refine (ih hgrown).trans ⟨?_, ?_⟩
      · rintro ⟨back, rfl, hback, hall⟩
        exact ⟨row :: back, (append_cons list row back).symm, (hfirst _).2 ⟨back, hback, rfl⟩, hall⟩
      · rintro ⟨rows, rfl, hrows, hall⟩
        obtain ⟨back, hback, rfl⟩ := (hfirst rows).1 hrows
        exact ⟨back, append_cons list row back, hback, hall⟩

theorem instanceDeserialize_eq_ok : instanceDeserialize text = .ok list ↔
    ∃ header lines, textLines text = header :: lines ∧ Short header ∧ IsHeader header ∧
      loadLines lines [] = .ok list := by
  by_cases hnil : text = []
  · subst hnil
    refine iff_of_false (nomatch ·) ?_
    rintro ⟨header, lines, htext, -, hheader, -⟩
    cases htext
    revert hheader
    unfold IsHeader
    decide
  obtain ⟨content, hnext, hlines⟩ := textLines_eq hnil
  have htail : ∃ lines, textLines text = content :: lines ∧
      loadLines lines [] = readRows (text.drop (content.length + 1)) [] := by
    rcases hlines with ⟨hone, hempty⟩ | hlines
    · refine ⟨[], hone, ?_⟩
      rw [hempty, readRows_nil, loadLines]
    · exact ⟨_, hlines, (readRows_eq _ _).symm⟩
  obtain ⟨lines, htext, hload⟩ := htail
  rw [instanceDeserialize, hnext, htext]
  by_cases hlong : lineCap ≤ content.length
  · rw [if_pos hlong]
    refine iff_of_false (nomatch ·) ?_
    rintro ⟨_, _, heq, hshort, -⟩
    cases heq
    exact absurd hshort (Nat.not_lt.2 hlong)
  rw [if_neg hlong]
  dsimp only
  have hiff : (∃ header back, content :: lines = header :: back ∧ Short header ∧
      IsHeader header ∧ loadLines back [] = .ok list) ↔
        IsHeader content ∧ readRows (text.drop (content.length + 1)) [] = .ok list := by
    constructor
    · rintro ⟨_, _, heq, -, hheader, hback⟩
      cases heq
      exact ⟨hheader, hload ▸ hback⟩
    · rintro ⟨hheader, hread⟩
      exact ⟨content, lines, rfl, Nat.lt_of_not_le hlong, hheader, hload.trans hread⟩
  rw [hiff, IsHeader]
  rcases scanHeader (lineContent content) with _ | ⟨tag, version⟩
  · exact iff_of_false (nomatch ·) fun h ↦ nomatch h.1
  · dsimp only
    rw [Option.some.injEq, Prod.mk.injEq]
    split
    · case _ hheader => exact (and_iff_right hheader).symm
    · case _ hheader => exact iff_of_false (nomatch ·) fun h ↦ hheader h.1

/-- The header and one line that is as long as the line buffer. -/
def overlongText : List Octet := headerLine ++ List.replicate lineCap 0x61

end S5LBox.App
