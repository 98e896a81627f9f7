import Mathlib.Tactic

/-!
# Undo logs

A content gives every cell a value, and the cells are grouped into pages. A record keeps the
values of one page. A log undoes a change when its records hold what the pages held before it and
no cell outside their pages has changed; replaying it then gives the old content back.
-/

namespace UndoLog

open List

variable {ι κ α : Type} (page : ι → κ)

/-- A page and the values of its cells. -/
abbrev Record (ι κ α : Type) := κ × (ι → α)

/-- The log takes the content `now` back to the content `start`. -/
structure Undoes (log : List (Record ι κ α)) (start now : ι → α) : Prop where
  image : ∀ record ∈ log, ∀ x, page x = record.1 → record.2 x = start x
  touched : ∀ x, now x ≠ start x → ∃ record ∈ log, page x = record.1

variable {page} {log : List (Record ι κ α)} {start now : ι → α}

theorem Undoes.nil (start : ι → α) : Undoes page ([] : List (Record ι κ α)) start start where
  image _ h := absurd h not_mem_nil
  touched _ h := absurd rfl h

theorem Undoes.save (h : Undoes page log start now) {record : Record ι κ α}
    (hnew : ∀ old ∈ log, old.1 ≠ record.1) (himage : ∀ x, page x = record.1 → record.2 x = now x) :
    Undoes page (log ++ [record]) start now where
  image old hold x hx := by
    rcases mem_append.1 hold with hmem | hmem
    · exact h.image old hmem x hx
    · obtain rfl := mem_singleton.1 hmem
      rw [himage x hx]
      by_contra hne
      obtain ⟨other, hother, hpage⟩ := h.touched x hne
      exact hnew other hother (hpage.symm.trans hx)
  touched x hne := by
    obtain ⟨old, hold, hx⟩ := h.touched x hne
    exact ⟨old, mem_append_left _ hold, hx⟩

theorem Undoes.write (h : Undoes page log start now) {next : ι → α}
    (hpages : ∀ x, next x ≠ now x → ∃ record ∈ log, page x = record.1) :
    Undoes page log start next where
  image := h.image
  touched x hne := by
    by_cases hsame : next x = now x
    · exact h.touched x (hsame ▸ hne)
    · exact hpages x hsame

section Replay

variable [DecidableEq κ]

variable (page) in
/-- Putting a page back. -/
def restore (content : ι → α) (record : Record ι κ α) : ι → α :=
  fun x ↦ if page x = record.1 then record.2 x else content x

variable (page) in
def replay (log : List (Record ι κ α)) (content : ι → α) : ι → α :=
  log.foldl (restore page) content

/-- Records of the old content bring it back from any content that agrees with it elsewhere. -/
theorem Undoes.replay (h : Undoes page log start now) : replay page log now = start := by
  induction log generalizing now with
  | nil =>
    funext x
    by_contra hne
    obtain ⟨record, hrecord, -⟩ := h.touched x hne
    exact not_mem_nil hrecord
  | cons record rest ih =>
    show UndoLog.replay page rest (restore page now record) = start
    refine ih ⟨fun old hold ↦ h.image old (mem_cons_of_mem _ hold), fun x hne ↦ ?_⟩
    unfold restore at hne
    split at hne
    case isTrue hx => exact absurd (h.image record mem_cons_self x hx) hne
    case isFalse hx =>
      obtain ⟨old, hold, hpage⟩ := h.touched x hne
      rcases mem_cons.1 hold with rfl | hrest
      · exact absurd hpage hx
      · exact ⟨old, hrest, hpage⟩

end Replay

end UndoLog
