import S5LBox.Library.Lexicographic

/-!
# The Gregorian calendar

Leap years, the lengths of months and years, and the number of a day counted from the first of the
year 0, with the rule extended to years before it was introduced. Counting keeps the order of
dates.
-/

namespace Gregorian

def Leap (year : ℕ) : Prop := 4 ∣ year ∧ (¬100 ∣ year ∨ 400 ∣ year)

instance (year : ℕ) : Decidable (Leap year) := inferInstanceAs (Decidable (_ ∧ _))

def yearLength (year : ℕ) : ℕ := if Leap year then 366 else 365

def monthLength (year month : ℕ) : ℕ :=
  if month = 2 then if Leap year then 29 else 28
  else if month = 4 ∨ month = 6 ∨ month = 9 ∨ month = 11 then 30
  else 31

structure Date where
  year : ℕ
  month : ℕ
  day : ℕ
  deriving DecidableEq, Repr

structure Date.Valid (date : Date) : Prop where
  month_pos : 1 ≤ date.month
  month_le : date.month ≤ 12
  day_pos : 1 ≤ date.day
  day_le : date.day ≤ monthLength date.year date.month

/-- The days before a year. -/
def beforeYear (year : ℕ) : ℕ := ∑ earlier ∈ Finset.range year, yearLength earlier

/-- The days of a year before a month of it. -/
def beforeMonth (year month : ℕ) : ℕ :=
  ∑ earlier ∈ Finset.range (month - 1), monthLength year (earlier + 1)

def Date.number (date : Date) : ℕ :=
  beforeYear date.year + beforeMonth date.year date.month + (date.day - 1)

/-- Every fourth year is a leap year, but for the hundreds that four hundred does not divide. -/
theorem beforeYear_eq (year : ℕ) :
    beforeYear year = 365 * year + (year + 3) / 4 - (year + 99) / 100 + (year + 399) / 400 := by
  induction year with
  | zero => rfl
  | succ year ih =>
    rw [beforeYear, Finset.sum_range_succ, ← beforeYear, ih, yearLength]
    by_cases hleap : Leap year
    · rw [if_pos hleap]
      unfold Leap at hleap
      omega
    · rw [if_neg hleap]
      unfold Leap at hleap
      omega

theorem beforeYear_succ (year : ℕ) : beforeYear (year + 1) = beforeYear year + yearLength year :=
  Finset.sum_range_succ ..

theorem beforeMonth_succ {year month : ℕ} (h : 1 ≤ month) :
    beforeMonth year (month + 1) = beforeMonth year month + monthLength year month := by
  obtain ⟨earlier, rfl⟩ := Nat.exists_eq_add_of_le h
  rw [beforeMonth, beforeMonth, Nat.add_sub_cancel, Nat.add_sub_cancel_left, Nat.add_comm 1 earlier,
    Finset.sum_range_succ]

theorem beforeMonth_thirteen (year : ℕ) : beforeMonth year 13 = yearLength year := by
  by_cases hleap : Leap year
  · simp [beforeMonth, yearLength, monthLength, Finset.sum_range_succ, hleap]
  · simp [beforeMonth, yearLength, monthLength, Finset.sum_range_succ, hleap]

theorem beforeMonth_march (year : ℕ) {month : ℕ} (h : month < 10) :
    beforeMonth year (month + 3) = 59 + (if Leap year then 1 else 0) + (153 * month + 2) / 5 := by
  by_cases hleap : Leap year
  · interval_cases month <;> simp [beforeMonth, monthLength, Finset.sum_range_succ, hleap]
  · interval_cases month <;> simp [beforeMonth, monthLength, Finset.sum_range_succ, hleap]

theorem beforeYear_mono : Monotone beforeYear :=
  monotone_nat_of_le_succ fun year ↦ by
    rw [beforeYear_succ]
    exact Nat.le_add_right ..

theorem beforeMonth_mono (year : ℕ) : Monotone (beforeMonth year) := fun _ _ hle ↦
  Finset.sum_le_sum_of_subset (Finset.range_mono (Nat.sub_le_sub_right hle 1))

theorem Date.Valid.day_lt {date : Date} (h : date.Valid) :
    beforeMonth date.year date.month + (date.day - 1) < beforeMonth date.year (date.month + 1) := by
  have hpos := h.day_pos
  have hle := h.day_le
  rw [beforeMonth_succ h.month_pos]
  omega

theorem Date.Valid.month_lt {date : Date} (h : date.Valid) :
    beforeYear date.year + (beforeMonth date.year date.month + (date.day - 1)) <
      beforeYear (date.year + 1) := by
  have hlast : beforeMonth date.year (date.month + 1) ≤ beforeMonth date.year 13 :=
    beforeMonth_mono date.year (Nat.succ_le_succ h.month_le)
  have hday := h.day_lt
  rw [beforeMonth_thirteen] at hlast
  rw [beforeYear_succ]
  omega

theorem compare_number {date date' : Date} (h : date.Valid) (h' : date'.Valid) :
    compare date.number date'.number = (compare date.year date'.year).then
      ((compare date.month date'.month).then (compare date.day date'.day)) := by
  have hday (day day' : ℕ) (hpos : 1 ≤ day) (hpos' : 1 ≤ day') :
      compare (day - 1) (day' - 1) = compare day day' := by
    rcases lt_trichotomy day day' with hlt | rfl | hgt
    · rw [compare_lt_iff_lt.2 hlt, compare_lt_iff_lt.2 (by omega)]
    · rw [compare_eq_iff_eq.2 rfl, compare_eq_iff_eq.2 rfl]
    · rw [compare_gt_iff_gt.2 hgt, compare_gt_iff_gt.2 (by omega)]
  rw [Date.number, Date.number, Nat.add_assoc, Nat.add_assoc,
    Lexicographic.compare_add beforeYear_mono h.month_lt h'.month_lt]
  refine Lexicographic.then_congr fun hyear ↦ ?_
  have hlast := h.day_lt
  rw [hyear] at hlast ⊢
  rw [Lexicographic.compare_add (beforeMonth_mono _) hlast h'.day_lt, hday _ _ h.day_pos h'.day_pos]

end Gregorian
