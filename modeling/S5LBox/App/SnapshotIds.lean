import S5LBox.Library.Gregorian
import S5LBox.Word

/-!
# Snapshot ids

`VMSnapshotStore.c`: an id is the UTC date and time of a snapshot in a fixed shape, with a suffix
for those of one second. A listing is ordered by the ids as text, which is meant to be the order
of time. The year is narrowed to an `int` before its range is tested, so a moment far enough away
gets the id of another one.
-/

namespace S5LBox.Snapshots

open List Gregorian Lexicographic
open scoped List

/-- `vm_snapshot_status_t`, as far as an id can be refused. -/
inductive SnapshotStatus where
  | badArgument
  | pathTooLong
  | badId
  deriving DecidableEq, Repr

def idCapacity : ℕ := 24

def isDigit (octet : Octet) : Bool := 0x30 ≤ octet && octet ≤ 0x39

def vmSnapshotIdValid (id : List Octet) : Bool :=
  (id.length = 16 || id.length = 19) && (id.take 8).all isDigit && id[8]? = some 0x54 &&
    ((id.drop 9).take 6).all isDigit && id[15]? = some 0x5a &&
    (id.length = 16 || id[16]? = some 0x2d && ((id.drop 17).take 2).all isDigit)

/-- `civil_from_days`. The year is an `int`, whatever it was before. -/
def civilFromDays (days : ℤ) : ℤ × ℕ × ℕ :=
  let days := days + 719468
  let era := (if 0 ≤ days then days else days - 146096).tdiv 146097
  let doe := (days - era * 146097).toNat
  let yoe := (doe - doe / 1460 + doe / 36524 - doe / 146096) / 365
  let yy := (yoe : ℤ) + era * 400
  let doy := doe - (365 * yoe + yoe / 4 - yoe / 100)
  let mp := (5 * doy + 2) / 153
  let dd := doy - (153 * mp + 2) / 5 + 1
  let mm := (mp + if mp < 10 then 3 else 2 ^ 64 - 9) % 2 ^ 64
  ((BitVec.ofInt 32 (yy + if mm ≤ 2 then 1 else 0)).toInt, mm, dd)

/-- `%0*u`: at least so many decimal digits. -/
def decimal (width n : ℕ) : List Octet :=
  Numeral.text (Numeral.padded 10 (max width (Numeral.plain 10 n).length) n)

/-- The date and the time of an id. -/
def stamp (year month day hour minute second : ℕ) : List Octet :=
  decimal 4 year ++ decimal 2 month ++ decimal 2 day ++ [0x54] ++ decimal 2 hour ++
    decimal 2 minute ++ decimal 2 second ++ [0x5a]

def suffix (sequence : ℕ) : List Octet := if sequence ≠ 0 then 0x2d :: decimal 2 sequence else []

def vmSnapshotIdMake (created : DWord) (sequence : Word) (capacity : ℕ) :
    Except SnapshotStatus (List Octet) :=
  if capacity < idCapacity then .error .badArgument
  else if 99 < sequence.toNat then .error .badArgument
  else
    let days := created.toNat / 86400
    let secs := created.toNat % 86400
    let (year, month, day) := civilFromDays days
    if year < 1000 ∨ 9999 < year then .error .badArgument
    else
      let written := stamp year.toNat month day (secs / 3600) (secs / 60 % 60) (secs % 60)
      if capacity ≤ written.length then .error .pathTooLong
      else
        let id := written ++ suffix sequence.toNat
        if sequence.toNat ≠ 0 ∧ capacity ≤ id.length then .error .pathTooLong
        else if vmSnapshotIdValid id then .ok id
        else .error .badId

/-- `strcmp` on strings without their terminators. -/
def strcmp (first second : List Octet) : Ordering := List.compareLex compareOctets first second

/-- `vm_snapshot_info_t`. -/
structure SnapshotInfo where
  id : List Octet
  createdUnix : DWord
  retired : DWord
  bytes : DWord
  complete : Bool

/-- The loop of `insert_newest_first`, on the entries from the last one on: those that are older
than the item move up. -/
def sift (item : SnapshotInfo) : List SnapshotInfo → List SnapshotInfo
  | [] => [item]
  | last :: front =>
    if strcmp last.id item.id = .lt then last :: sift item front else item :: last :: front

def insertNewestFirst (capacity : ℕ) (out : List SnapshotInfo) (item : SnapshotInfo) :
    List SnapshotInfo :=
  if capacity ≤ out.length then out else (sift item out.reverse).reverse

/-- The year within an era, where a year begins with March. -/
def yearOfEra (doe : ℕ) : ℕ := (doe - doe / 1460 + doe / 36524 - doe / 146096) / 365

/-- The days of an era before a year of it. -/
def startOfYear (yoe : ℕ) : ℕ := 365 * yoe + yoe / 4 - yoe / 100

/-- The last day of a year of an era; the era ends with a leap day. -/
def endOfYear (yoe : ℕ) : ℕ := if yoe = 399 then 146096 else startOfYear (yoe + 1) - 1

theorem yearOfEra_mono {doe doe' : ℕ} (hle : doe ≤ doe') (h : doe' < 146097) :
    yearOfEra doe ≤ yearOfEra doe' := by
  induction doe', hle using Nat.le_induction with
  | base => exact le_rfl
  | succ last hle ih =>
    refine (ih (by omega)).trans (Nat.div_le_div_right ?_)
    omega

theorem yearOfEra_bounds : ∀ yoe < 400, startOfYear yoe ≤ endOfYear yoe ∧ endOfYear yoe < 146097 ∧
    yearOfEra (startOfYear yoe) = yoe ∧ yearOfEra (endOfYear yoe) = yoe := by
  decide +kernel

/-- The year of a day is the one whose first and last day it lies between. -/
theorem yearOfEra_spec {doe : ℕ} (h : doe < 146097) :
    yearOfEra doe < 400 ∧ startOfYear (yearOfEra doe) ≤ doe ∧ doe ≤ endOfYear (yearOfEra doe) := by
  have hlast : yearOfEra doe ≤ 399 := by
    have hend : yearOfEra 146096 = 399 := by decide
    rw [← hend]
    exact yearOfEra_mono (by omega) (by decide)
  refine ⟨by omega, ?_, ?_⟩
  · by_contra hbefore
    have hpos : yearOfEra doe ≠ 0 := fun hzero ↦ by
      rw [hzero] at hbefore
      exact hbefore (Nat.zero_le _)
    have hprevious := yearOfEra_bounds (yearOfEra doe - 1) (by omega)
    have hend : endOfYear (yearOfEra doe - 1) = startOfYear (yearOfEra doe) - 1 := by
      rw [endOfYear, if_neg (by omega), Nat.sub_add_cancel (by omega)]
    have hmono := @yearOfEra_mono doe (endOfYear (yearOfEra doe - 1)) (by omega) hprevious.2.1
    omega
  · by_contra hafter
    have hnot : yearOfEra doe ≠ 399 := fun hlast ↦ by
      rw [hlast] at hafter
      exact hafter (Nat.le_of_lt_succ h)
    have hnext := yearOfEra_bounds (yearOfEra doe + 1) (by omega)
    rw [endOfYear, if_neg hnot] at hafter
    have hmono := @yearOfEra_mono (startOfYear (yearOfEra doe + 1)) doe (by omega) h
    omega

theorem dayOfYear_le {doe era : ℕ} (h : doe < 146097) : doe - startOfYear (yearOfEra doe) ≤ 365 ∧
      (doe - startOfYear (yearOfEra doe) = 365 → Leap (yearOfEra doe + era * 400 + 1)) := by
  obtain ⟨hyoe, hstart, hend⟩ := yearOfEra_spec h
  generalize yearOfEra doe = yoe at *
  unfold endOfYear startOfYear at *
  split at hend
  next hlast =>
    subst hlast
    exact ⟨by omega, fun _ ↦ ⟨by omega, .inr (by omega)⟩⟩
  next hlast =>
    have hfour : (yoe + 1) / 4 ≤ yoe / 4 + 1 := by omega
    have hhundred : yoe / 100 ≤ (yoe + 1) / 100 := by omega
    refine ⟨by omega, fun hdoy ↦ ?_⟩
    have hleap : (yoe + 1) / 4 = yoe / 4 + 1 := by omega
    have hcommon : (yoe + 1) / 100 = yoe / 100 := by omega
    exact ⟨by omega, .inl (by omega)⟩

/-- The date of a day from the epoch on, in natural numbers. -/
def civilDate (days : ℕ) : Date :=
  let doe := (days + 719468) % 146097
  let yoe := yearOfEra doe
  let doy := doe - startOfYear yoe
  let mp := (5 * doy + 2) / 153
  let month := if mp < 10 then mp + 3 else mp - 9
  ⟨yoe + (days + 719468) / 146097 * 400 + (if month ≤ 2 then 1 else 0), month,
    doy - (153 * mp + 2) / 5 + 1⟩

theorem civilFromDays_natCast (days : ℕ) : civilFromDays days =
    ((BitVec.ofInt 32 (civilDate days).year).toInt, (civilDate days).month,
      (civilDate days).day) := by
  have hera : ((days : ℤ) + 719468).tdiv 146097 = ((days + 719468) / 146097 : ℕ) := by
    rw [Int.tdiv_eq_ediv_of_nonneg (by omega)]
    omega
  have hdoe : ((days : ℤ) + 719468 - ((days + 719468) / 146097 : ℕ) * 146097).toNat =
      (days + 719468) % 146097 := by omega
  have hnonneg : (0 : ℤ) ≤ (days : ℤ) + 719468 := by omega
  obtain ⟨hdoy, -⟩ := @dayOfYear_le ((days + 719468) % 146097) 0 (Nat.mod_lt _ (by decide))
  have hmonth (mp : ℕ) (h : mp ≤ 11) :
      (mp + if mp < 10 then 3 else 2 ^ 64 - 9) % 2 ^ 64 = if mp < 10 then mp + 3 else mp - 9 := by
    split
    · omega
    · omega
  unfold civilFromDays
  simp only
  rw [if_pos hnonneg, hera, hdoe, ← yearOfEra, ← startOfYear, hmonth _ (by omega)]
  unfold civilDate
  push_cast
  rfl

theorem beforeMarch (era : ℕ) {yoe : ℕ} (h : yoe < 400) :
    beforeYear (yoe + era * 400) + (if Leap (yoe + era * 400) then 1 else 0) =
      146097 * era + startOfYear yoe + 1 := by
  rw [beforeYear_eq, startOfYear]
  by_cases hleap : Leap (yoe + era * 400)
  · rw [if_pos hleap]
    unfold Leap at hleap
    omega
  · rw [if_neg hleap]
    unfold Leap at hleap
    omega

theorem civilDate_spec (days : ℕ) :
    (civilDate days).Valid ∧ (civilDate days).number = days + 719528 := by
  have hera : 146097 * ((days + 719468) / 146097) + (days + 719468) % 146097 = days + 719468 :=
    Nat.div_add_mod ..
  obtain ⟨hyoe, hstart, hend⟩ :=
    yearOfEra_spec (Nat.mod_lt (days + 719468) (by decide : 0 < 146097))
  unfold civilDate
  simp only
  generalize (days + 719468) / 146097 = era at *
  obtain ⟨hle, hleap⟩ := @dayOfYear_le ((days + 719468) % 146097) era (Nat.mod_lt _ (by decide))
  generalize (days + 719468) % 146097 = doe at *
  generalize yearOfEra doe = yoe at *
  have hmarch := beforeMarch era hyoe
  have hdoe : doe = startOfYear yoe + (doe - startOfYear yoe) := by omega
  generalize doe - startOfYear yoe = doy at *
  by_cases hmp : (5 * doy + 2) / 153 < 10
  · -- March to December of the year the days are counted in
    have hyear : ¬(5 * doy + 2) / 153 + 3 ≤ 2 := by omega
    rw [if_pos hmp, if_neg hyear, Nat.add_zero]
    have hbefore := beforeMonth_march (yoe + era * 400) hmp
    constructor
    · constructor
      · exact Nat.le_add_left 1 _
      · change (5 * doy + 2) / 153 + 3 ≤ 12
        omega
      · exact Nat.le_add_left 1 _
      · change doy - (153 * ((5 * doy + 2) / 153) + 2) / 5 + 1 ≤ monthLength _ ((5 * doy + 2) / 153 + 3)
        generalize hmonth : (5 * doy + 2) / 153 = mp at *
        interval_cases mp <;> simp [monthLength] <;> omega
    · rw [Date.number]
      simp only
      omega
  · -- January and February of the next
    have hnext := beforeYear_succ (yoe + era * 400)
    rw [yearLength] at hnext
    rw [if_neg hmp]
    have hyear : beforeYear (yoe + era * 400 + 1) = 146097 * era + startOfYear yoe + 366 := by
      rw [hnext]
      split at hmarch
      next h =>
        rw [if_pos h]
        omega
      next h =>
        rw [if_neg h]
        omega
    rcases (by omega : (5 * doy + 2) / 153 = 10 ∨ (5 * doy + 2) / 153 = 11) with hten | heleven
    · have hmonth : beforeMonth (yoe + era * 400 + 1) 1 = 0 := rfl
      have hfirst : 10 - 9 = 1 := rfl
      have hdays : (153 * 10 + 2) / 5 = 306 := rfl
      rw [hten, hfirst, hdays, if_pos one_le_two]
      refine ⟨⟨le_rfl, Nat.one_le_ofNat, Nat.le_add_left 1 _, ?_⟩, ?_⟩
      · simp only [monthLength]
        norm_num
        omega
      · rw [Date.number]
        simp only
        omega
    · have hmonth : beforeMonth (yoe + era * 400 + 1) 2 = 31 := rfl
      have hsecond : 11 - 9 = 2 := rfl
      have hdays : (153 * 11 + 2) / 5 = 337 := rfl
      rw [heleven, hsecond, hdays, if_pos le_rfl]
      refine ⟨⟨one_le_two, Nat.le_add_left 2 10, Nat.le_add_left 1 _, ?_⟩, ?_⟩
      · simp only [monthLength, if_pos]
        by_cases hlast : doy = 365
        · rw [if_pos (hleap hlast)]
          omega
        · split
          · omega
          · omega
      · rw [Date.number]
        simp only
        omega

def epoch : Date := ⟨1970, 1, 1⟩

theorem number_epoch : epoch.number = 719528 := by
  rw [Date.number, epoch, beforeYear_eq]
  rfl

/-- The id is the UTC date and time of the moment, with the suffix of its number. -/
def Encodes (created : DWord) (sequence : Word) (id : List Octet) : Prop :=
  ∃ (date : Date) (hour minute second : ℕ), date.Valid ∧ hour < 24 ∧ minute < 60 ∧ second < 60 ∧
    created.toNat + epoch.number * 86400 = ((date.number * 24 + hour) * 60 + minute) * 60 + second ∧
    id = stamp date.year date.month date.day hour minute second ++ suffix sequence.toNat

theorem decimal_of_lt {width n : ℕ} (h : n < 10 ^ (width + 1)) :
    decimal (width + 1) n = Numeral.text (Numeral.padded 10 (width + 1) n) := by
  rw [decimal, max_eq_left (Numeral.length_plain_le h)]

theorem length_decimal {width n : ℕ} (h : n < 10 ^ (width + 1)) :
    (decimal (width + 1) n).length = width + 1 := by
  rw [decimal_of_lt h, Numeral.length_text, Numeral.length_padded]

theorem length_decimal_of_le {width n : ℕ} (h : 10 ^ width ≤ n) :
    width < (decimal width n).length := by
  have hlog : width ≤ Nat.log 10 n := by
    have hpos : n ≠ 0 := by
      have hpow : 0 < 10 ^ width := Nat.pow_pos (by decide)
      omega
    exact (Nat.le_log_iff_pow_le (by decide) hpos).2 h
  rw [decimal, Numeral.length_text, Numeral.length_padded, Numeral.plain, Numeral.length_padded]
  omega

theorem length_stamp {year month day hour minute second : ℕ} (hmonth : month < 10 ^ 2)
    (hday : day < 10 ^ 2) (hhour : hour < 10 ^ 2) (hminute : minute < 10 ^ 2)
    (hsecond : second < 10 ^ 2) :
    (stamp year month day hour minute second).length = (decimal 4 year).length + 12 := by
  simp only [stamp, length_append, length_decimal hmonth, length_decimal hday,
    length_decimal hhour, length_decimal hminute, length_decimal hsecond, length_singleton]

theorem month_day_lt {date : Date} (h : date.Valid) : date.month < 10 ^ 2 ∧ date.day < 10 ^ 2 := by
  have hmonth := h.month_le
  have hday := h.day_le
  have hlength : monthLength date.year date.month ≤ 31 := by
    unfold monthLength
    split
    · split
      · decide
      · decide
    · split
      · decide
      · decide
  exact ⟨by omega, by omega⟩

theorem strcmp_decimal {width a b : ℕ} (ha : a < 10 ^ (width + 1)) (hb : b < 10 ^ (width + 1))
    (rest rest' : List Octet) :
    strcmp (decimal (width + 1) a ++ rest) (decimal (width + 1) b ++ rest') =
      (compare a b).then (strcmp rest rest') := by
  rw [strcmp, compareLex_append _ _ (by rw [length_decimal ha, length_decimal hb]),
    decimal_of_lt ha, decimal_of_lt hb, compareLex_padded ha hb]
  rfl

theorem strcmp_cons_self (octet : Octet) (rest rest' : List Octet) :
    strcmp (octet :: rest) (octet :: rest') = strcmp rest rest' := by
  rw [strcmp, List.compareLex_cons_cons, compareOctets_self, Ordering.eq_then]
  rfl

theorem vmSnapshotIdMake_ok {created : DWord} {sequence : Word} {capacity : ℕ} {id : List Octet}
    (h : vmSnapshotIdMake created sequence capacity = .ok id) :
    sequence.toNat ≤ 99 ∧ ∃ year : ℕ, 1000 ≤ year ∧ year ≤ 9999 ∧
      (BitVec.ofInt 32 (civilDate (created.toNat / 86400)).year).toInt = year ∧
      id = stamp year (civilDate (created.toNat / 86400)).month
        (civilDate (created.toNat / 86400)).day (created.toNat % 86400 / 3600)
        (created.toNat % 86400 / 60 % 60) (created.toNat % 86400 % 60) ++
          suffix sequence.toNat := by
  unfold vmSnapshotIdMake at h
  simp only [civilFromDays_natCast] at h
  generalize (BitVec.ofInt 32 (civilDate (created.toNat / 86400)).year).toInt = year at *
  split at h
  · cases h
  split at h
  · cases h
  next hsequence =>
  split at h
  · cases h
  next hyear =>
  split at h
  · cases h
  split at h
  · cases h
  split at h
  · cases h
    exact ⟨not_lt.1 hsequence, year.toNat, by omega, by omega, by omega, rfl⟩
  · cases h

/-- The first moment past the year 9999. -/
def yearTenThousand : ℕ := 253402300800

theorem beforeYear_tenThousand :
    beforeYear 10000 * 86400 = yearTenThousand + epoch.number * 86400 := by
  rw [beforeYear_eq, number_epoch]
  rfl

theorem year_le_iff {date : Date} (h : date.Valid) :
    date.year ≤ 9999 ↔ date.number < beforeYear 10000 := by
  have hmonth := h.month_lt
  rw [← Nat.add_assoc, ← Date.number] at hmonth
  constructor
  · intro hyear
    exact hmonth.trans_le (beforeYear_mono (Nat.succ_le_succ hyear))
  · intro hnumber
    by_contra hyear
    have hle : beforeYear 10000 ≤ beforeYear date.year := beforeYear_mono (not_le.1 hyear)
    have hge : beforeYear date.year ≤ date.number := by
      rw [Date.number, Nat.add_assoc]
      exact Nat.le_add_right ..
    omega

section Made

variable {created created' : DWord} {sequence sequence' : Word} {capacity : ℕ} {id id' : List Octet}

theorem encodes_iff (h : vmSnapshotIdMake created sequence capacity = .ok id) :
    Encodes created sequence id ↔ created.toNat < yearTenThousand := by
  obtain ⟨-, year, hlow, hhigh, hyear, hid⟩ := vmSnapshotIdMake_ok h
  have hlimit := beforeYear_tenThousand
  constructor
  · rintro ⟨date, hour, minute, second, hdate, hhour, hminute, hsecond, htime, hencoded⟩
    have hyear : date.year ≤ 9999 := by
      by_contra hlong
      have hlength := congrArg List.length (hid.symm.trans hencoded)
      have hlong := @length_decimal_of_le 4 date.year (by omega)
      have hfour : (decimal 4 year).length = 4 := @length_decimal 3 year (by omega)
      obtain ⟨hmonth, hday⟩ := month_day_lt hdate
      obtain ⟨hmonth', hday'⟩ := month_day_lt (civilDate_spec (created.toNat / 86400)).1
      rw [length_append, length_append, length_stamp hmonth hday (by omega) (by omega)
        (by omega), length_stamp hmonth' hday' (by omega) (by omega) (by omega)] at hlength
      omega
    have hnumber := (year_le_iff hdate).1 hyear
    omega
  · intro hbefore
    obtain ⟨hdate, hnumber⟩ := civilDate_spec (created.toNat / 86400)
    generalize civilDate (created.toNat / 86400) = date at *
    have hfour : date.year ≤ 9999 := (year_le_iff hdate).2 (by
      rw [number_epoch] at hlimit
      omega)
    have hexact : (BitVec.ofInt 32 date.year).toInt = date.year := by
      rw [BitVec.toInt_ofInt]
      exact Int.bmod_eq_of_le (by omega) (by omega)
    obtain rfl : date.year = year := by omega
    refine ⟨date, created.toNat % 86400 / 3600, created.toNat % 86400 / 60 % 60,
      created.toNat % 86400 % 60, hdate, by omega, by omega, by omega, ?_, hid⟩
    rw [hnumber, number_epoch]
    omega

/-- Moments as they follow one another: by the second, and by number within one. -/
def compareMoment (created created' : DWord) (sequence sequence' : Word) : Ordering :=
  (compare created.toNat created'.toNat).then (compare sequence.toNat sequence'.toNat)

theorem compare_add_right (n m k : ℕ) : compare (n + k) (m + k) = compare n m := by
  rcases lt_trichotomy n m with h | rfl | h
  · rw [compare_lt_iff_lt.2 h, compare_lt_iff_lt.2 (by omega)]
  · rw [compare_eq_iff_eq.2 rfl, compare_eq_iff_eq.2 rfl]
  · rw [compare_gt_iff_gt.2 h, compare_gt_iff_gt.2 (by omega)]

theorem strcmp_suffix {n m : ℕ} (hn : n ≤ 99) (hm : m ≤ 99) :
    strcmp (suffix n) (suffix m) = compare n m := by
  unfold suffix strcmp
  by_cases hn0 : n = 0
  · by_cases hm0 : m = 0
    · subst hn0 hm0
      rfl
    · rw [if_neg (not_not.2 hn0), if_pos hm0, List.compareLex_nil_cons, compare_lt_iff_lt.2 (by omega)]
  · by_cases hm0 : m = 0
    · rw [if_pos hn0, if_neg (not_not.2 hm0), List.compareLex_cons_nil,
        compare_gt_iff_gt.2 (by omega)]
    · have hdigits := @strcmp_decimal 1 n m (by omega) (by omega) [] []
      rw [append_nil, append_nil] at hdigits
      rw [if_pos hn0, if_pos hm0, ← strcmp, strcmp_cons_self, hdigits]
      exact Ordering.then_eq

theorem strcmp_stamp {date date' : Date} {hour hour' minute minute' second second' : ℕ}
    (hdate : date.Valid) (hdate' : date'.Valid) (hyear : date.year ≤ 9999)
    (hyear' : date'.year ≤ 9999) (hhour : hour < 24) (hhour' : hour' < 24) (hminute : minute < 60)
    (hminute' : minute' < 60) (hsecond : second < 60) (hsecond' : second' < 60)
    (rest rest' : List Octet) :
    strcmp (stamp date.year date.month date.day hour minute second ++ rest)
        (stamp date'.year date'.month date'.day hour' minute' second' ++ rest') =
      (compare (((date.number * 24 + hour) * 60 + minute) * 60 + second)
        (((date'.number * 24 + hour') * 60 + minute') * 60 + second')).then (strcmp rest rest') := by
  obtain ⟨hmonth, hday⟩ := month_day_lt hdate
  obtain ⟨hmonth', hday'⟩ := month_day_lt hdate'
  rw [compare_mul_add hsecond hsecond', compare_mul_add hminute hminute',
    compare_mul_add hhour hhour', compare_number hdate hdate']
  simp only [stamp, append_assoc, cons_append, nil_append]
  rw [strcmp_decimal (by omega) (by omega), strcmp_decimal hmonth hmonth',
    strcmp_decimal hday hday', strcmp_cons_self, strcmp_decimal (by omega) (by omega),
    strcmp_decimal (by omega) (by omega), strcmp_decimal (by omega) (by omega), strcmp_cons_self]
  simp only [Ordering.then_assoc]

theorem strcmp_made (h : vmSnapshotIdMake created sequence capacity = .ok id)
    {capacity' : ℕ} (h' : vmSnapshotIdMake created' sequence' capacity' = .ok id')
    (hbefore : created.toNat < yearTenThousand) (hbefore' : created'.toNat < yearTenThousand) :
    strcmp id id' = compareMoment created created' sequence sequence' := by
  obtain ⟨date, hour, minute, second, hdate, hhour, hminute, hsecond, htime, rfl⟩ :=
    (encodes_iff h).2 hbefore
  obtain ⟨date', hour', minute', second', hdate', hhour', hminute', hsecond', htime', rfl⟩ :=
    (encodes_iff h').2 hbefore'
  have hlimit := beforeYear_tenThousand
  have hyear : date.year ≤ 9999 := (year_le_iff hdate).2 (by omega)
  have hyear' : date'.year ≤ 9999 := (year_le_iff hdate').2 (by omega)
  rw [strcmp_stamp hdate hdate' hyear hyear' hhour hhour' hminute hminute' hsecond hsecond',
    ← htime, ← htime', compare_add_right, strcmp_suffix (vmSnapshotIdMake_ok h).1
      (vmSnapshotIdMake_ok h').1]
  rfl

end Made

/-- An id and what it was made from. -/
structure Made where
  created : DWord
  sequence : Word
  capacity : ℕ
  id : List Octet
  made : vmSnapshotIdMake created sequence capacity = .ok id

/-- The place of a moment among all of them. -/
def Made.rank (made : Made) : ℕ := made.created.toNat * 2 ^ 32 + made.sequence.toNat

def Made.NoLater (made other : Made) : Prop := made.rank ≤ other.rank

instance : DecidableRel Made.NoLater := fun made other ↦ Nat.decLe made.rank other.rank

instance : Std.Total Made.NoLater := ⟨fun made other ↦ Nat.le_total made.rank other.rank⟩

instance : IsTrans Made Made.NoLater := ⟨fun _ _ _ h h' ↦ Nat.le_trans h h'⟩

def Made.compareMoment (made other : Made) : Ordering :=
  Snapshots.compareMoment made.created other.created made.sequence other.sequence

theorem Made.compareMoment_eq (made other : Made) :
    made.compareMoment other = compare made.rank other.rank :=
  (compare_mul_add made.sequence.isLt other.sequence.isLt).symm

def Before (made : Made) : Prop := made.created.toNat < yearTenThousand

variable {info : Made → SnapshotInfo} {item : Made} {row : List Made}

/-- The loop puts an entry where it belongs in a row of entries, the oldest first. -/
theorem sift_map (hinfo : ∀ made, (info made).id = made.id) (hitem : Before item)
    (hrow : ∀ made ∈ row, Before made) : sift (info item) (row.map info) =
      (row.orderedInsert Made.NoLater item).map info := by
  induction row with
  | nil => rfl
  | cons last row ih =>
    obtain ⟨hlast, hrest⟩ := forall_mem_cons.1 hrow
    have hcompare : strcmp last.id item.id = compare last.rank item.rank := by
      rw [strcmp_made last.made item.made hlast hitem]
      exact last.compareMoment_eq item
    rw [map_cons, sift, hinfo, hinfo, hcompare, orderedInsert_cons, ih hrest]
    by_cases hle : item.NoLater last
    · have hnot : ¬compare last.rank item.rank = .lt := by
        rw [compare_lt_iff_lt]
        exact not_lt.2 hle
      rw [if_neg hnot, if_pos hle]
      rfl
    · rw [if_pos (compare_lt_iff_lt.2 (not_le.1 hle)), if_neg hle]
      rfl

theorem insertNewestFirst_foldl (capacity : ℕ) (hinfo : ∀ made, (info made).id = made.id)
    (entries : List Made) (hentries : ∀ made ∈ entries, Before made) :
    ∃ sorted : List Made, sorted.Perm (entries.take capacity) ∧
      sorted.reverse.Pairwise Made.NoLater ∧
      (entries.map info).foldl (insertNewestFirst capacity) [] = sorted.map info := by
  induction entries using List.reverseRecOn with
  | nil => exact ⟨[], by simp, .nil, rfl⟩
  | append_singleton entries item ih =>
    obtain ⟨hearlier, hitem⟩ := forall_mem_append.1 hentries
    obtain ⟨sorted, hperm, hsorted, hfold⟩ := ih hearlier
    have hlength : sorted.length = min capacity entries.length := by
      rw [hperm.length_eq, length_take]
    rw [map_append, foldl_append, hfold, map_singleton, foldl_cons,
      foldl_nil, insertNewestFirst, length_map]
    by_cases hfull : capacity ≤ sorted.length
    · rw [if_pos hfull, take_append_of_le_length (by omega)]
      exact ⟨sorted, hperm, hsorted, rfl⟩
    · have hall : entries.take capacity = entries := take_of_length_le (by omega)
      have hroom : (entries ++ [item]).take capacity = entries ++ [item] := by
        apply take_of_length_le
        rw [length_append, length_singleton]
        omega
      rw [hall] at hperm
      have hbefore : ∀ made ∈ sorted.reverse, Before made := fun made hmade ↦
        hearlier made (hperm.mem_iff.1 (mem_reverse.1 hmade))
      rw [if_neg hfull, hroom, ← map_reverse,
        sift_map hinfo (hitem item mem_cons_self) hbefore, ← map_reverse]
      refine ⟨_, ?_, ?_, rfl⟩
      · calc
          _ ~ sorted.reverse.orderedInsert Made.NoLater item := reverse_perm _
          _ ~ item :: sorted.reverse := perm_orderedInsert ..
          _ ~ item :: entries := ((reverse_perm sorted).trans hperm).cons item
          _ ~ entries ++ [item] := (perm_append_singleton item entries).symm
      · rw [reverse_reverse]
        exact hsorted.orderedInsert item _

/-- What ids are to do for the entries they were made for. -/
structure OrderedLikeTime (entries : List Made) : Prop where
  /-- An id is the date and time of its moment. -/
  encodes : ∀ made ∈ entries, Encodes made.created made.sequence made.id
  /-- As text, ids go as moments do. -/
  compares : ∀ made ∈ entries, ∀ other ∈ entries, strcmp made.id other.id = made.compareMoment other
  /-- Inserted in this order, entries of different moments end up strictly newest first, as many
  of them as there is room for. -/
  sorts : entries.Pairwise (fun made other ↦ made.compareMoment other ≠ .eq) →
    ∀ (capacity : ℕ) (info : Made → SnapshotInfo), (∀ made, (info made).id = made.id) →
      ∃ sorted : List Made, sorted.Perm (entries.take capacity) ∧
        sorted.Pairwise (fun made other ↦ made.compareMoment other = .gt) ∧
        (entries.map info).foldl (insertNewestFirst capacity) [] = sorted.map info

theorem sorts_of_before {entries : List Made} (hentries : ∀ made ∈ entries, Before made)
    (hdistinct : entries.Pairwise fun made other ↦ made.compareMoment other ≠ .eq) (capacity : ℕ)
    (hinfo : ∀ made, (info made).id = made.id) :
    ∃ sorted : List Made, sorted.Perm (entries.take capacity) ∧
      sorted.Pairwise (fun made other ↦ made.compareMoment other = .gt) ∧
      (entries.map info).foldl (insertNewestFirst capacity) [] = sorted.map info := by
  obtain ⟨sorted, hperm, hsorted, hfold⟩ := insertNewestFirst_foldl capacity hinfo entries hentries
  refine ⟨sorted, hperm, ?_, hfold⟩
  have hranks : sorted.Pairwise fun made other ↦ made.rank ≠ other.rank := by
    have hsymm {made other : Made} (h : made.rank ≠ other.rank) : other.rank ≠ made.rank := h.symm
    refine (hperm.pairwise_iff hsymm).2 (hdistinct.sublist (take_sublist ..) |>.imp ?_)
    intro made other hne heq
    rw [made.compareMoment_eq other, heq, compare_eq_iff_eq.2 rfl] at hne
    exact hne rfl
  refine (pairwise_reverse.1 hsorted).imp₂ (fun made other hle hne ↦ ?_) hranks
  rw [made.compareMoment_eq other, compare_gt_iff_gt]
  exact lt_of_le_of_ne hle hne.symm

/-- Ids go like time exactly for the moments before the year ten thousand. -/
theorem orderedLikeTime_iff (entries : List Made) :
    OrderedLikeTime entries ↔ ∀ made ∈ entries, Before made := by
  constructor
  · intro h made hmade
    exact (encodes_iff made.made).1 (h.encodes made hmade)
  · intro hentries
    refine ⟨fun made hmade ↦ (encodes_iff made.made).2 (hentries made hmade), ?_,
      fun hdistinct capacity info hinfo ↦ sorts_of_before hentries hdistinct capacity hinfo⟩
    intro made hmade other hother
    exact strcmp_made made.made other.made (hentries made hmade) (hentries other hother)

/-- Two o'clock in the afternoon of a day of 2026, and a moment of the year `2 ^ 32 + 2026`. -/
def nearby : DWord := 1785507720

def farAway : DWord := 135536078586925320

def sharedId : List Octet :=
  [0x32, 0x30, 0x32, 0x36, 0x30, 0x37, 0x33, 0x31, 0x54, 0x31, 0x34, 0x32, 0x32, 0x30, 0x30, 0x5a]

theorem made_nearby : vmSnapshotIdMake nearby 0 24 = .ok sharedId := by decide +kernel

theorem made_farAway : vmSnapshotIdMake farAway 0 24 = .ok sharedId := by decide +kernel

/-- The two have one id, which only one of them can go by. -/
theorem not_orderedLikeTime_farAway : ¬∀ entries, OrderedLikeTime entries := by
  intro h
  have hcompare := (h [⟨nearby, 0, 24, sharedId, made_nearby⟩,
    ⟨farAway, 0, 24, sharedId, made_farAway⟩]).compares _ mem_cons_self _
      (mem_cons_of_mem _ mem_cons_self)
  have hsame : strcmp sharedId sharedId = .eq := by decide
  have hless : compareMoment nearby farAway 0 0 = .lt := by decide
  exact absurd (hsame.symm.trans (hcompare.trans hless)) nofun

end S5LBox.Snapshots
