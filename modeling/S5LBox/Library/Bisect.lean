import Mathlib.Tactic

/-!
# Binary search

The search for the place where a test that holds of a first part of a range stops to hold.
-/

namespace Bisect

/-- The first place from `lo` on where the test fails, or `hi`. -/
def search (test : ℕ → Bool) (lo hi : ℕ) : ℕ :=
  if lo < hi then
    let mid := (lo + hi) / 2
    if test mid then search test (mid + 1) hi else search test lo mid
  else lo
termination_by hi - lo

theorem search_of_le {test : ℕ → Bool} {lo hi : ℕ} (h : hi ≤ lo) : search test lo hi = lo := by
  rw [search, if_neg (Nat.not_lt.2 h)]

theorem search_spec {test : ℕ → Bool} {lo hi : ℕ} (hle : lo ≤ hi)
    (h : ∀ i j, lo ≤ i → i < j → j < hi → test j = true → test i = true) :
    lo ≤ search test lo hi ∧ search test lo hi ≤ hi ∧
      (∀ i, lo ≤ i → i < search test lo hi → test i = true) ∧
        ∀ i, search test lo hi ≤ i → i < hi → test i = false := by
  fun_induction search test lo hi with
  | case1 lo hi hlt mid hmid ih =>
    obtain ⟨hlow, hhigh, hbefore, hafter⟩ :=
      ih (by omega) fun i j hi hij hj ↦ h i j (by omega) hij hj
    refine ⟨by omega, hhigh, fun i hi hsearch ↦ ?_, hafter⟩
    rcases Nat.lt_trichotomy i mid with hlow' | rfl | hhigh'
    · exact h i mid hi hlow' (by omega) hmid
    · exact hmid
    · exact hbefore i hhigh' hsearch
  | case2 lo hi hlt mid hmid ih =>
    obtain ⟨hlow, hhigh, hbefore, hafter⟩ :=
      ih (by omega) fun i j hi hij hj ↦ h i j hi hij (by omega)
    refine ⟨hlow, by omega, hbefore, fun i hsearch hi ↦ ?_⟩
    rcases Nat.lt_trichotomy i mid with hlow' | rfl | hhigh'
    · exact hafter i hsearch hlow'
    · exact eq_false_of_ne_true hmid
    · exact eq_false_of_ne_true fun htest ↦ hmid (h mid i (by omega) hhigh' hi htest)
  | case3 lo hi hlt =>
    exact ⟨le_rfl, hle, fun i hi hlo ↦ absurd hlo (by omega), fun i hi hlo ↦ absurd hlo (by omega)⟩

end Bisect
