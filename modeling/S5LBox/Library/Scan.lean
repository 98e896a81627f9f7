import S5LBox.Library.Numeral

/-!
# Formatted input

The directives of a C scanner that reads words and unsigned numbers out of a string, and what they
make of a text that was printed. White space is that of the C locale.
-/

namespace Scan

open Numeral

abbrev Text := List (BitVec 8)

def isSpace (octet : BitVec 8) : Bool := octet = 0x20 || (0x09 ≤ octet && octet ≤ 0x0d)

/-- White space in a format. -/
def skipSpace (text : Text) : Text := text.dropWhile isSpace

/-- A word of at most `width` octets, and what follows it. -/
def word (width : ℕ) (text : Text) : Option (Text × Text) :=
  let text := skipSpace text
  let item := (text.take width).takeWhile fun octet ↦ !isSpace octet
  if item = [] then none else some (item, text.drop item.length)

def signLength (field : Text) : ℕ := if field.head? = some 0x2b ∨ field.head? = some 0x2d then 1 else 0

/-- The mark that may stand before a hexadecimal number. -/
def markLength (base : ℕ) (field : Text) : ℕ :=
  if base = 16 ∧ (field.take 2 = [0x30, 0x78] ∨ field.take 2 = [0x30, 0x58]) then 2 else 0

/-- A 64-bit number as the conversions give it: a large one saturates, a sign negates. -/
def convert (negative : Bool) (magnitude : ℕ) : BitVec 64 :=
  if 2 ^ 64 ≤ magnitude then BitVec.allOnes 64
  else if negative then -BitVec.ofNat 64 magnitude else BitVec.ofNat 64 magnitude

/-- An unsigned number in a field of at most `width` octets, and what follows it. -/
def unsigned (base width : ℕ) (text : Text) : Option (BitVec 64 × Text) :=
  let text := skipSpace text
  let field := text.take width
  let start := signLength field + markLength base (field.drop (signLength field))
  let digits := (field.drop start).takeWhile (isDigit base)
  if digits = [] then none
  else some (convert (field.head? = some 0x2d) (value base (digits.map octetDigit)),
    text.drop (start + digits.length))

variable {base width : ℕ} {text rest item : Text}

theorem skipSpace_of_not (h : ∀ octet, text.head? = some octet → isSpace octet = false) :
    skipSpace text = text := by
  cases text with
  | nil => rfl
  | cons octet text =>
    unfold skipSpace
    rw [List.dropWhile_cons_of_neg]
    rw [h octet rfl]
    exact Bool.false_ne_true

/-- A separator in front is passed over. -/
theorem skipSpace_cons (text : Text) : skipSpace (0x20 :: text) = skipSpace text :=
  List.dropWhile_cons_of_pos rfl

theorem takeWhile_append_stop {p : BitVec 8 → Bool} (hitem : ∀ octet ∈ item, p octet = true)
    (hstop : ∀ octet, rest.head? = some octet → p octet = false) :
    (item ++ rest).takeWhile p = item := by
  rw [List.takeWhile_append_of_pos hitem]
  cases rest with
  | nil => exact List.append_nil item
  | cons octet rest =>
    rw [List.takeWhile_cons_of_neg, List.append_nil]
    rw [hstop octet rfl]
    exact Bool.false_ne_true

theorem head_append (hne : item ≠ []) : (item ++ rest).head? = item.head? := by
  cases item with
  | nil => exact absurd rfl hne
  | cons octet item => rfl

theorem word_append (hne : item ≠ []) (hitem : ∀ octet ∈ item, isSpace octet = false)
    (hwidth : item.length < width) :
    word width (item ++ 0x20 :: rest) = some (item, 0x20 :: rest) := by
  have hskip : skipSpace (item ++ 0x20 :: rest) = item ++ 0x20 :: rest := by
    apply skipSpace_of_not
    intro octet hhead
    rw [head_append hne] at hhead
    exact hitem octet (List.mem_of_mem_head? hhead)
  have htaken : ((item ++ 0x20 :: rest).take width).takeWhile (fun octet ↦ !isSpace octet) =
      item := by
    obtain ⟨extra, rfl⟩ := Nat.exists_eq_add_of_lt hwidth
    rw [add_assoc, List.take_length_add_append, List.take_succ_cons]
    apply takeWhile_append_stop
    · intro octet hoctet
      rw [hitem octet hoctet]
      rfl
    · rintro octet hhead
      obtain rfl := Option.some.inj hhead
      rfl
  unfold word
  dsimp only
  rw [hskip, htaken, if_neg hne, List.drop_left]

theorem digit_facts (hbase : base ≤ 16) {octet : BitVec 8} (h : isDigit base octet = true) :
    isSpace octet = false ∧ octet ≠ 0x2b ∧ octet ≠ 0x2d ∧ octet ≠ 0x78 ∧ octet ≠ 0x58 := by
  have hdigit : octetDigit octet < 16 := (of_decide_eq_true h).trans_le hbase
  revert hdigit
  clear h
  revert octet
  decide

theorem isSpace_facts (hbase : base ≤ 16) {octet : BitVec 8} (h : isSpace octet = true) :
    isDigit base octet = false ∧ octet ≠ 0x78 ∧ octet ≠ 0x58 := by
  refine ⟨?_, ?_, ?_⟩
  · by_contra hdigit
    rw [Bool.not_eq_false] at hdigit
    rw [(digit_facts hbase hdigit).1] at h
    cases h
  · rintro rfl
    cases h
  · rintro rfl
    cases h

theorem markLength_text (hbase : base ≤ 16) (hne : item ≠ [])
    (hitem : ∀ octet ∈ item, isDigit base octet = true)
    (hstop : ∀ octet, rest.head? = some octet → isSpace octet = true) :
    markLength base (item ++ rest) = 0 := by
  have hsecond : ∀ octet, ((item ++ rest).take 2)[1]? = some octet →
      octet ≠ 0x78 ∧ octet ≠ 0x58 := by
    intro octet hoctet
    match item, rest with
    | [], _ => exact absurd rfl hne
    | [_], [] => cases hoctet
    | [_], next :: _ =>
      obtain rfl : next = octet := Option.some.inj hoctet
      exact (isSpace_facts hbase (hstop next rfl)).2
    | _ :: next :: _, _ =>
      obtain rfl : next = octet := Option.some.inj hoctet
      exact (digit_facts hbase (hitem next (by simp))).2.2.2
  unfold markLength
  rw [if_neg]
  rintro ⟨-, hmark | hmark⟩
  · rw [hmark] at hsecond
    exact (hsecond _ rfl).1 rfl
  · rw [hmark] at hsecond
    exact (hsecond _ rfl).2 rfl

variable {digits : List ℕ}

theorem unsigned_text (hbase : base ≤ 16) (hne : digits ≠ [])
    (hdigits : ∀ digit ∈ digits, digit < base) (hwidth : digits.length ≤ width)
    (hstop : digits.length < width → ∀ octet, rest.head? = some octet → isSpace octet = true)
    (hfits : value base digits < 2 ^ 64) : unsigned base width (Numeral.text digits ++ rest) =
      some (BitVec.ofNat 64 (value base digits), rest) := by
  have hall := isDigit_text hbase hdigits
  have hback := octetDigit_text fun digit hdigit ↦ (hdigits digit hdigit).trans_le hbase
  have hlength := length_text digits
  have htext : Numeral.text digits ≠ [] := by
    intro hnil
    rw [hnil, List.length_nil] at hlength
    exact hne (List.length_eq_zero_iff.1 hlength.symm)
  generalize Numeral.text digits = item at *
  have hskip : skipSpace (item ++ rest) = item ++ rest := by
    apply skipSpace_of_not
    intro octet hhead
    rw [head_append htext] at hhead
    exact (digit_facts hbase (hall octet (List.mem_of_mem_head? hhead))).1
  obtain ⟨extra, rfl⟩ := Nat.exists_eq_add_of_le hwidth
  have hfield : (item ++ rest).take (digits.length + extra) = item ++ rest.take extra := by
    rw [← hlength, List.take_length_add_append]
  have hspace : ∀ octet, (rest.take extra).head? = some octet → isSpace octet = true := by
    intro octet hhead
    cases extra with
    | zero => cases hhead
    | succ extra =>
      apply hstop (by omega) octet
      cases rest with
      | nil => cases hhead
      | cons first rest => exact hhead
  have hhead (octet : BitVec 8) (h : (item ++ rest.take extra).head? = some octet) :
      octet ≠ 0x2b ∧ octet ≠ 0x2d := by
    rw [head_append htext] at h
    obtain ⟨-, hplus, hminus, -⟩ := digit_facts hbase (hall _ (List.mem_of_mem_head? h))
    exact ⟨hplus, hminus⟩
  have hsign : signLength (item ++ rest.take extra) = 0 := by
    unfold signLength
    rw [if_neg]
    rintro (hplus | hminus)
    · exact (hhead _ hplus).1 rfl
    · exact (hhead _ hminus).2 rfl
  have hnegative : (item ++ rest.take extra).head? ≠ some 0x2d := fun h ↦ (hhead _ h).2 rfl
  have hrun : (item ++ rest.take extra).takeWhile (isDigit base) = item :=
    takeWhile_append_stop hall fun octet h ↦ (isSpace_facts hbase (hspace octet h)).1
  unfold unsigned
  dsimp only
  rw [hskip, hfield, hsign, List.drop_zero, markLength_text hbase htext hall hspace, Nat.add_zero,
    List.drop_zero, hrun, if_neg htext, Nat.zero_add, List.drop_left, hback]
  unfold convert
  rw [if_neg (Nat.not_le.2 hfits), decide_eq_false hnegative]
  rfl

end Scan
