import Mathlib.Tactic

/-!
# Windows of an address space

A window is a range of addresses. Windows that lie apart claim no address together, so at most one
of a family of them holds an access, and an access that runs past the end of the window it begins
in is held by none.
-/

structure Window where
  base : ℕ
  size : ℕ
deriving DecidableEq

namespace Window

/-- The access of `length` addresses from `start` on lies in the window. -/
def Holds (w : Window) (start length : ℕ) : Prop :=
  length ≠ 0 ∧ w.base ≤ start ∧ start + length ≤ w.base + w.size

/-- The address lies in the window. -/
def Covers (w : Window) (a : ℕ) : Prop := w.base ≤ a ∧ a < w.base + w.size

/-- No address lies in both. -/
def Apart (w w' : Window) : Prop :=
  w.base + w.size ≤ w'.base ∨ w'.base + w'.size ≤ w.base

instance (w w' : Window) : Decidable (Apart w w') := inferInstanceAs (Decidable (_ ∨ _))

variable {w w' : Window} {start length a : ℕ}

theorem Apart.symm (h : w.Apart w') : w'.Apart w := Or.symm h

theorem Holds.covers (h : w.Holds start length) : w.Covers start := by
  obtain ⟨hlength, hbase, hend⟩ := h
  exact ⟨hbase, by omega⟩

theorem Apart.not_covers (h : w.Apart w') (hcovers : w.Covers a) : ¬w'.Covers a := by
  unfold Apart Covers at *
  omega

variable {ι : Type} {windows : ι → Window}

/-- A family of windows of which any two lie apart. -/
def Disjoint (windows : ι → Window) : Prop := ∀ i j, i ≠ j → (windows i).Apart (windows j)

theorem Disjoint.eq (h : Disjoint windows) {i j : ι} (hi : (windows i).Covers a)
    (hj : (windows j).Covers a) : i = j := by
  by_contra hne
  exact (h i j hne).not_covers hi hj

theorem Disjoint.not_holds (h : Disjoint windows) {i : ι} (hi : (windows i).Covers start)
    (hpast : (windows i).base + (windows i).size < start + length) (j : ι) :
    ¬(windows j).Holds start length := by
  intro hj
  obtain rfl := h.eq hi hj.covers
  obtain ⟨-, -, hend⟩ := hj
  omega

end Window
