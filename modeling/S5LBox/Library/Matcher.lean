import Mathlib.Tactic

/-!
# Pattern matching with borders

The failure-function matcher over a pattern and a text given by position: how much of the pattern
ends at a position of the text, the table of the borders of the pattern, and the one loop that
both the table and the search advance by.
-/

namespace Matcher

open List

variable {α : Type*} {pattern text : ℕ → α}

/-- The first `k` items of the pattern end at position `e` of the text. -/
def Ends (pattern text : ℕ → α) (k e : ℕ) : Prop := k ≤ e ∧ ∀ i < k, text (e - k + i) = pattern i

/-- `border m` is the longest part of the pattern that ends its first `m` items without being
all of them. -/
def IsBorder (pattern : ℕ → α) (m border : ℕ) : Prop :=
  border < m ∧ Ends pattern pattern border m ∧ ∀ k < m, Ends pattern pattern k m → k ≤ border

theorem ends_zero (pattern text : ℕ → α) (e : ℕ) : Ends pattern text 0 e :=
  ⟨Nat.zero_le e, fun _ hi ↦ absurd hi (Nat.not_lt_zero _)⟩

theorem ends_succ {k e : ℕ} :
    Ends pattern text (k + 1) (e + 1) ↔ Ends pattern text k e ∧ text e = pattern k := by
  unfold Ends
  constructor
  · rintro ⟨hle, h⟩
    refine ⟨⟨by omega, fun i hi ↦ ?_⟩, ?_⟩
    · rw [← h i (by omega)]
      congr 1
      omega
    · rw [← h k (by omega)]
      congr 1
      omega
  · rintro ⟨⟨hle, h⟩, hlast⟩
    refine ⟨by omega, fun i hi ↦ ?_⟩
    rw [show e + 1 - (k + 1) + i = e - k + i by omega]
    obtain hi | rfl : i < k ∨ i = k := by omega
    · exact h i hi
    · rwa [Nat.sub_add_cancel hle]

theorem Ends.iff {m k e : ℕ} (h : Ends pattern text m e) (hk : k ≤ m) :
    Ends pattern text k e ↔ Ends pattern pattern k m := by
  have hsame (i : ℕ) (hi : i < k) : text (e - k + i) = pattern (m - k + i) := by
    rw [← h.2 (m - k + i) (by omega)]
    congr 1
    have := h.1
    omega
  constructor
  · exact fun hends ↦ ⟨hk, fun i hi ↦ (hsame i hi).symm.trans (hends.2 i hi)⟩
  · exact fun hends ↦ ⟨hk.trans h.1, fun i hi ↦ (hsame i hi).trans (hends.2 i hi)⟩

/-- `r` items is the longest match up to `e + 1` that extends one of at most `m` items up to `e`. -/
def Extends (pattern text : ℕ → α) (m e r : ℕ) : Prop :=
  Ends pattern text r (e + 1) ∧ r ≤ m + 1 ∧ ∀ k ≤ m, Ends pattern text (k + 1) (e + 1) → k + 1 ≤ r

/-- The longest part of the pattern, of `size` items, that ends the text at `e` without being all
of it. -/
def Matched (pattern text : ℕ → α) (size e m : ℕ) : Prop :=
  m < size ∧ Ends pattern text m e ∧ ∀ k < size, Ends pattern text k e → k ≤ m

variable {size e m r : ℕ}

theorem Matched.whole_iff (h : Matched pattern text size e m) (hr : Extends pattern text m e r) :
    r = size ↔ Ends pattern text size (e + 1) := by
  constructor
  · rintro rfl
    exact hr.1
  · intro hends
    obtain ⟨k, rfl⟩ := Nat.exists_eq_succ_of_ne_zero (Nat.ne_zero_of_lt h.1)
    have hk := h.2.2 k (Nat.lt_succ_self k) (ends_succ.1 hends).1
    exact le_antisymm (hr.2.1.trans h.1) (hr.2.2 k hk hends)

theorem Matched.next (h : Matched pattern text size e m) (hr : Extends pattern text m e r)
    (hne : r ≠ size) : Matched pattern text size (e + 1) r := by
  have hle := hr.2.1
  have hlt := h.1
  refine ⟨by omega, hr.1, fun k hk hends ↦ ?_⟩
  cases k with
  | zero => exact Nat.zero_le _
  | succ k => exact hr.2.2 k (h.2.2 k (by omega) (ends_succ.1 hends).1) hends

theorem Matched.of_border {border : ℕ} (hends : Ends pattern text size e)
    (h : IsBorder pattern size border) : Matched pattern text size e border :=
  ⟨h.1, (hends.iff h.1.le).2 h.2.1, fun k hk hk' ↦ h.2.2 k hk ((hends.iff hk.le).1 hk')⟩

variable [DecidableEq α]

/-- Falls back along the borders until `item` extends the match, or nothing is left of it. -/
def advance (pattern : ℕ → α) (border : ℕ → ℕ) (item : α) : ℕ → ℕ → ℕ
  | 0, matched => if item = pattern matched then matched + 1 else matched
  | fuel + 1, matched =>
    if matched ≠ 0 ∧ item ≠ pattern matched then
      advance pattern border item fuel (border matched)
    else if item = pattern matched then matched + 1
    else matched

theorem extends_of_stop {m e : ℕ} (hm : Ends pattern text m e)
    (hstop : m = 0 ∨ text e = pattern m) :
    Extends pattern text m e (if text e = pattern m then m + 1 else m) := by
  split_ifs with hitem
  · exact ⟨ends_succ.2 ⟨hm, hitem⟩, le_rfl, fun k hk _ ↦ by omega⟩
  · obtain rfl : m = 0 := hstop.resolve_right hitem
    refine ⟨ends_zero _ _ _, by omega, fun k hk hends ↦ ?_⟩
    obtain rfl : k = 0 := by omega
    exact absurd (ends_succ.1 hends).2 hitem

theorem extends_advance {border : ℕ → ℕ} {fuel m e : ℕ} (hfuel : m ≤ fuel)
    (hborder : ∀ k, 0 < k → k ≤ m → IsBorder pattern k (border k)) (hm : Ends pattern text m e) :
    Extends pattern text m e (advance pattern border (text e) fuel m) := by
  induction fuel generalizing m with
  | zero => exact extends_of_stop hm (.inl (by omega))
  | succ fuel ih =>
    unfold advance
    split_ifs with hfall hitem
    · obtain ⟨hlt, hends, hlongest⟩ := hborder m (by omega) le_rfl
      obtain ⟨hnew, hle, hmax⟩ := ih (by omega) (fun k hpos hk ↦ hborder k hpos (by omega))
        ((hm.iff hlt.le).2 hends)
      refine ⟨hnew, by omega, fun k hk hk' ↦ ?_⟩
      obtain ⟨hkends, hkitem⟩ := ends_succ.1 hk'
      -- a shorter match that the item extends ends the one that it does not extend
      have hne : k ≠ m := by
        rintro rfl
        exact hfall.2 hkitem
      exact hmax k (hlongest k (by omega) ((hm.iff hk).1 hkends)) hk'
    · have := extends_of_stop hm (.inr hitem)
      rwa [if_pos hitem] at this
    · have := extends_of_stop hm (.inl (by tauto))
      rwa [if_neg hitem] at this

/-- The borders of the first `1` to `n + 1` items, each by the loop over those before it. -/
def borders (pattern : ℕ → α) : ℕ → List ℕ
  | 0 => [0]
  | n + 1 =>
    let table := borders pattern n
    let candidate := table.getD n 0
    table ++ [advance pattern (fun m ↦ table.getD (m - 1) 0) (pattern (n + 1)) candidate candidate]

@[simp] theorem length_borders (pattern : ℕ → α) (n : ℕ) : (borders pattern n).length = n + 1 := by
  induction n with
  | zero => rfl
  | succ n ih => rw [borders, length_append, ih, length_singleton]

theorem isBorder_borders (pattern : ℕ → α) (n : ℕ) {m : ℕ} (hpos : 0 < m) (hm : m ≤ n + 1) :
    IsBorder pattern m ((borders pattern n).getD (m - 1) 0) := by
  induction n generalizing m with
  | zero =>
    obtain rfl : m = 1 := by omega
    exact ⟨Nat.one_pos, ends_zero _ _ _, fun k hk _ ↦ Nat.le_of_lt_succ hk⟩
  | succ n ih =>
    rw [borders]
    obtain hold | rfl : m ≤ n + 1 ∨ m = n + 2 := by omega
    · rw [getD_eq_getElem?_getD, getElem?_append_left (by rw [length_borders]; omega),
        ← getD_eq_getElem?_getD]
      exact ih hpos hold
    · have hcandidate := ih (m := n + 1) (by omega) le_rfl
      rw [Nat.add_sub_cancel] at hcandidate
      obtain ⟨hlt, hends, hlongest⟩ := hcandidate
      obtain ⟨hnew, hle, hmax⟩ := extends_advance (e := n + 1) le_rfl
        (fun k hk hle ↦ ih hk (by omega)) hends
      rw [getD_eq_getElem?_getD, getElem?_append_right (by rw [length_borders]; omega),
        length_borders, show n + 2 - 1 - (n + 1) = 0 by omega, getElem?_cons_zero,
        Option.getD_some]
      refine ⟨by omega, hnew, fun k hk hk' ↦ ?_⟩
      cases k with
      | zero => exact Nat.zero_le _
      | succ k => exact hmax k (hlongest k (by omega) (ends_succ.1 hk').1) hk'

theorem Matched.extends {border : ℕ → ℕ} (h : Matched pattern text size e m)
    (hborder : ∀ k, 0 < k → k ≤ size → IsBorder pattern k (border k)) :
    Extends pattern text m e (advance pattern border (text e) m m) :=
  extends_advance le_rfl (fun k hpos hk ↦ hborder k hpos (hk.trans h.1.le)) h.2.1

end Matcher
