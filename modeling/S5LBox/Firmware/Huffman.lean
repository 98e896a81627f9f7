import S5LBox.Firmware.Inflate
import S5LBox.Library.Canonical

/-!
# Building a code

What `huffBuild` makes of a list of lengths: it is refused exactly when the lengths claim too much
of the code space, or too little of it, and otherwise every symbol is at its canonical place.
-/

namespace S5LBox.Firmware

open List Canonical

/-- The code that belongs to these lengths: the symbols are at their places, each length has as
many of them as there are. -/
structure Huff.Codes (h : Huff) (lengths : List ℕ) : Prop where
  count : ∀ len, 0 < len → h.count len = number lengths len
  coded : h.coded = start lengths (maxBits + 1)
  symbol : ∀ s < lengths.length, lengths.getD s 0 ≠ 0 →
    h.symbol.read (start lengths (lengths.getD s 0) + rank lengths s) = some s

variable {lengths : List ℕ}

theorem count_eq_number {len : ℕ} (h : 0 < len) : lengths.count len = number lengths len := by
  unfold number
  rw [if_neg (Nat.ne_of_gt h)]

theorem offs_eq_start (len : ℕ) : offs (fun len ↦ lengths.count len) len = start lengths len := by
  induction len with
  | zero => exact start_zero.symm
  | succ len ih =>
    rw [offs, ih, start_succ]
    rfl

/-- The symbols before `s` are at their places, and the next one of each length has its own. -/
structure Placed (lengths : List ℕ) (s : ℕ) (place : ℕ → ℕ) (symbol : Buffer ℕ maxLit) : Prop where
  next : ∀ len, 0 < len → place len = start lengths len + (lengths.take s).count len
  done : ∀ t < s, lengths.getD t 0 ≠ 0 →
    symbol.read (start lengths (lengths.getD t 0) + rank lengths t) = some t

theorem place_ne {s t : ℕ} (hs : s < lengths.length) (ht : t < s) (hlen : lengths.getD t 0 ≠ 0)
    (hlen' : lengths.getD s 0 ≠ 0) : start lengths (lengths.getD t 0) + rank lengths t ≠
      start lengths (lengths.getD s 0) + rank lengths s := by
  have hrank := rank_lt hs hlen'
  have hrank' := rank_lt (ht.trans hs) hlen
  rcases lt_trichotomy (lengths.getD t 0) (lengths.getD s 0) with hlt | hsame | hgt
  · exact (place_lt_of_lt hlt hrank').ne
  · -- Of two symbols with one length the earlier one has the smaller rank.
    have hbound := ht.trans hs
    have hget : lengths.getD t 0 = lengths[t] := by simp [List.getD, hbound]
    have hle := ((lengths.take_sublist_take_left ht)).count_le (lengths.getD t 0)
    rw [take_succ_eq_append_getElem (ht.trans hs), count_append, ← hget] at hle
    unfold rank
    rw [← hsame]
    simp only [count_singleton_self] at hle
    omega
  · exact (place_lt_of_lt hgt hrank).ne'

theorem exists_placeSymbols (hlength : lengths.length ≤ maxLit) {rest : List ℕ} {s : ℕ}
    {place : ℕ → ℕ} {symbol : Buffer ℕ maxLit} (hrest : rest = lengths.drop s)
    (hs : s ≤ lengths.length) (h : Placed lengths s place symbol) :
    ∃ symbol', placeSymbols rest s place symbol = some symbol' ∧
      ∃ place', Placed lengths lengths.length place' symbol' := by
  induction rest generalizing s place symbol with
  | nil =>
    have hend : s = lengths.length := by
      have hlen := congrArg List.length hrest
      rw [length_nil, length_drop] at hlen
      omega
    exact ⟨symbol, rfl, place, hend ▸ h⟩
  | cons len rest ih =>
    have hlt : s < lengths.length := by
      by_contra hge
      rw [drop_eq_nil_of_le (Nat.le_of_not_lt hge)] at hrest
      cases hrest
    rw [drop_eq_getElem_cons hlt] at hrest
    obtain ⟨rfl, htail⟩ := List.cons.inj hrest
    have hget : lengths.getD s 0 = lengths[s] := by simp [List.getD, hlt]
    have hcount (len : ℕ) : (lengths.take (s + 1)).count len =
        (lengths.take s).count len + if lengths[s] = len then 1 else 0 := by
      rw [take_succ_eq_append_getElem hlt, count_append, count_singleton]
      simp only [beq_iff_eq]
    rw [placeSymbols]
    split
    case isTrue hzero =>
      refine ih htail hlt ⟨?_, ?_⟩
      · intro len hpos
        rw [h.next len hpos, hcount, if_neg (by omega), add_zero]
      · intro t ht hlen
        rcases Nat.lt_succ_iff_lt_or_eq.1 ht with ht | rfl
        · exact h.done t ht hlen
        · exact absurd (hget.trans hzero) hlen
    case isFalse hnonzero =>
      have hlen : lengths.getD s 0 ≠ 0 := hget ▸ hnonzero
      have hplace : place lengths[s] = start lengths (lengths.getD s 0) + rank lengths s := by
        rw [h.next _ (Nat.pos_of_ne_zero hnonzero), ← hget]
        rfl
      have hroom : place lengths[s] < maxLit := by
        have hrank := rank_lt hlt hlen
        have hnext := @start_succ lengths (lengths.getD s 0)
        have hle := @start_le_length lengths (lengths.getD s 0 + 1)
        omega
      obtain ⟨written, hwrite⟩ := @Buffer.exists_write _ _ symbol _ s hroom
      rw [hwrite]
      refine ih htail hlt ⟨?_, ?_⟩
      · intro len hpos
        rw [hcount]
        by_cases hsame : lengths[s] = len
        · rw [hsame, Function.update_self, if_pos rfl, ← hsame, h.next _ (Nat.pos_of_ne_zero hnonzero),
            add_assoc]
        · rw [Function.update_of_ne (Ne.symm hsame), if_neg hsame, h.next len hpos, add_zero]
      · intro t ht hlen'
        rcases Nat.lt_succ_iff_lt_or_eq.1 ht with ht | rfl
        · rw [Buffer.read_write_ne hwrite]
          · exact h.done t ht hlen'
          · rw [hplace]
            exact place_ne hlt ht hlen' hlen
        · rw [← hplace]
          exact Buffer.read_write_same hwrite

/-- What the lengths up to `len` leave unclaimed of the code space. -/
def unclaimed (lengths : List ℕ) (len : ℕ) : ℕ := 2 ^ len - (first lengths len + number lengths len)

theorem kraftLoop_spec (turns : ℕ) {len : ℕ} (h : Canonical.Fits lengths len) :
    (∀ left, kraftLoop (fun len ↦ lengths.count len) turns (len + 1) (unclaimed lengths len) =
        some left → Canonical.Fits lengths (len + turns) ∧ left = unclaimed lengths (len + turns)) ∧
      (Canonical.Fits lengths (len + turns) → kraftLoop (fun len ↦ lengths.count len) turns (len + 1)
        (unclaimed lengths len) = some (unclaimed lengths (len + turns))) := by
  induction turns generalizing len with
  | zero =>
    refine ⟨?_, fun _ ↦ rfl⟩
    intro left hleft
    exact ⟨h, (Option.some.inj hleft).symm⟩
  | succ turns ih =>
    have hroom := h len le_rfl
    have hcount : lengths.count (len + 1) = number lengths (len + 1) :=
      count_eq_number (Nat.succ_pos len)
    have hdouble : 2 * unclaimed lengths len = 2 ^ (len + 1) - first lengths (len + 1) := by
      unfold unclaimed
      rw [first, pow_succ]
      omega
    have hle : first lengths (len + 1) ≤ 2 ^ (len + 1) := by
      rw [first, pow_succ]
      omega
    have hsum : len + (turns + 1) = len + 1 + turns := by omega
    rw [kraftLoop, hcount, hdouble, hsum]
    by_cases hfull : 2 ^ (len + 1) - first lengths (len + 1) < number lengths (len + 1)
    · rw [if_pos hfull]
      constructor
      · intro left hleft
        cases hleft
      · intro hfits
        have hnext := hfits (len + 1) (Nat.le_add_right _ _)
        omega
    · rw [if_neg hfull]
      have hnext : Canonical.Fits lengths (len + 1) := by
        intro l hl
        obtain hl | rfl : l ≤ len ∨ l = len + 1 := by omega
        · exact h l hl
        · omega
      have hleft : 2 ^ (len + 1) - first lengths (len + 1) - number lengths (len + 1) =
          unclaimed lengths (len + 1) := Nat.sub_sub _ _ _
      rw [hleft]
      exact ih hnext

theorem fits_zero : Canonical.Fits lengths 0 := by
  intro len hlen
  obtain rfl := Nat.le_zero.1 hlen
  simp [first, number]

theorem kraftLoop_eq_some {left : ℕ} :
    kraftLoop (fun len ↦ lengths.count len) maxBits 1 1 = some left ↔
      Canonical.Fits lengths maxBits ∧ left = unclaimed lengths maxBits := by
  have hspec := kraftLoop_spec maxBits (@fits_zero lengths)
  have hone : unclaimed lengths 0 = 1 := by simp [unclaimed, first, number]
  rw [hone, zero_add, zero_add] at hspec
  refine ⟨hspec.1 left, ?_⟩
  rintro ⟨hfits, rfl⟩
  exact hspec.2 hfits

theorem length_sub_count (h : ∀ l ∈ lengths, l ≤ maxBits) :
    lengths.length - lengths.count 0 = start lengths (maxBits + 1) := by
  have hsplit : lengths.length = start lengths (maxBits + 1) + lengths.count 0 := by
    unfold start
    induction lengths with
    | nil => rfl
    | cons l rest ih =>
      have hrest := ih fun l hl ↦ h l (mem_cons_of_mem _ hl)
      have hl := h l mem_cons_self
      rw [length_cons, countP_cons, count_cons, hrest]
      cases l with
      | zero => simp; omega
      | succ l =>
        have hin : decide (0 < l + 1 ∧ l + 1 < maxBits + 1) = true := by
          rw [decide_eq_true_eq]
          omega
        rw [hin]
        simp; omega
  omega

/-- The lengths give the code away: no length is out of range, none claims what is not there, and
what they leave is nothing, or anything if the code may be incomplete and short. -/
def Buildable (lengths : List ℕ) (allowIncomplete : Bool) : Prop :=
  (∀ l ∈ lengths, l ≤ maxBits) ∧ Canonical.Fits lengths maxBits ∧
    (unclaimed lengths maxBits = 0 ∨ (allowIncomplete = true ∧ ∀ l ∈ lengths, l ≤ 1))

theorem exists_huffBuild {symbol : Buffer ℕ maxLit} {allowIncomplete : Bool}
    (hlength : lengths.length ≤ maxLit) (h : Buildable lengths allowIncomplete) :
    ∃ huff, huffBuild symbol lengths allowIncomplete = .ok huff ∧ huff.Codes lengths := by
  obtain ⟨hrange, hfits, hleft⟩ := h
  have hplaced : Placed lengths 0 (offs fun len ↦ lengths.count len) symbol := by
    refine ⟨?_, fun t ht ↦ absurd ht (Nat.not_lt_zero t)⟩
    intro len _
    rw [offs_eq_start]
    rfl
  obtain ⟨symbol', hsymbol, place', hdone⟩ :=
    exists_placeSymbols hlength (drop_zero (l := lengths)).symm (Nat.zero_le _) hplaced
  have hany : lengths.any (maxBits < ·) = false := by simpa using hrange
  have hguard : ¬(0 < unclaimed lengths maxBits ∧
      (!(allowIncomplete && lengths.all (· ≤ 1))) = true) := by
    rintro ⟨hpos, hrefused⟩
    rcases hleft with hleft | ⟨rfl, hshort⟩
    · omega
    · have hall : lengths.all (· ≤ 1) = true := by simpa using hshort
      rw [hall] at hrefused
      cases hrefused
  unfold huffBuild
  rw [hany]
  dsimp only
  rw [kraftLoop_eq_some.2 ⟨hfits, rfl⟩]
  dsimp only
  rw [if_neg hguard, hsymbol]
  refine ⟨_, rfl, fun len hpos ↦ count_eq_number hpos, length_sub_count hrange, ?_⟩
  exact fun s hs hlen ↦ hdone.done s hs hlen

theorem huffBuild_spec (symbol : Buffer ℕ maxLit) (allowIncomplete : Bool)
    (hlength : lengths.length ≤ maxLit) :
    (∃ huff, huffBuild symbol lengths allowIncomplete = .ok huff ∧ huff.Codes lengths) ∨
      huffBuild symbol lengths allowIncomplete = .error (.error .badHuffman) := by
  by_cases h : Buildable lengths allowIncomplete
  · exact .inl (exists_huffBuild hlength h)
  · right
    unfold huffBuild
    split
    · rfl
    case isFalse hrange =>
      dsimp only
      split
      · rfl
      case h_2 left hkraft =>
        obtain ⟨hfits, rfl⟩ := kraftLoop_eq_some.1 hkraft
        rw [if_pos]
        by_contra hguard
        refine h ⟨by simpa using hrange, hfits, ?_⟩
        by_cases hzero : unclaimed lengths maxBits = 0
        · exact .inl hzero
        · right
          simp only [Bool.not_and, not_and] at hguard
          simpa using hguard (Nat.pos_of_ne_zero hzero)

theorem Huff.Codes.exists_symbol {huff : Huff} (h : huff.Codes lengths) {len k : ℕ}
    (hpos : 0 < len) (hk : k < huff.count len) : ∃ s < lengths.length, lengths.getD s 0 = len ∧
      huff.symbol.read (start lengths len + k) = some s := by
  rw [h.count len hpos] at hk
  obtain ⟨s, hs, rfl, rfl⟩ := exists_rank hk
  exact ⟨s, hs, rfl, h.symbol s hs (Nat.ne_of_gt hpos)⟩

end S5LBox.Firmware
