import S5LBox.Library.Span

/-!
# Scattered spans

A list of spans of a store, taken in order as one sequence of addresses: gathering reads the
values along it and scattering lays values along it.
-/

namespace Span

variable {α : Type}

/-- A span: its first address and its length. -/
structure Extent where
  start : ℕ
  length : ℕ
  deriving DecidableEq, Repr

namespace Extent

def Covers (e : Extent) (x : ℕ) : Prop := e.start ≤ x ∧ x < e.start + e.length

instance (e : Extent) (x : ℕ) : Decidable (e.Covers x) := inferInstanceAs (Decidable (_ ∧ _))

/-- No address is in both spans. -/
def Disjoint (e f : Extent) : Prop := ∀ x, ¬(e.Covers x ∧ f.Covers x)

variable {e : Extent} {store : ℕ → α} {extents : List Extent}

theorem Disjoint.symm {f : Extent} (h : e.Disjoint f) : f.Disjoint e :=
  fun x hx ↦ h x hx.symm

theorem disjoint_of_bounds {f : Extent}
    (h : ¬(e.start < f.start + f.length ∧ f.start < e.start + e.length)) : e.Disjoint f := by
  intro x hx
  obtain ⟨⟨hlow, hhigh⟩, hlow', hhigh'⟩ := hx
  exact h ⟨by omega, by omega⟩

theorem Disjoint.bounds {f : Extent} (h : e.Disjoint f) (he : 0 < e.length) (hf : 0 < f.length) :
    e.start + e.length ≤ f.start ∨ f.start + f.length ≤ e.start := by
  by_contra hover
  refine h (max e.start f.start) ⟨⟨?_, ?_⟩, ?_, ?_⟩ <;> omega

end Extent

/-- An address in one of the spans. -/
def Covered (extents : List Extent) (x : ℕ) : Prop := ∃ e ∈ extents, e.Covers x

theorem covered_cons {rest : List Extent} {x : ℕ} :
    Covered (e :: rest) x ↔ e.Covers x ∨ Covered rest x := by
  unfold Covered
  simp only [List.mem_cons, exists_eq_or_imp]

/-- The values along the spans. -/
def gather (store : ℕ → α) : List Extent → List α
  | [] => []
  | e :: rest => window store e.start e.length ++ gather store rest

/-- The store with values laid along the spans, the first of them first. -/
def scatter (store : ℕ → α) : List Extent → List α → ℕ → α
  | [], _ => store
  | e :: rest, data =>
    scatter (overwrite store e.start (data.take e.length)) rest (data.drop e.length)

def total (extents : List Extent) : ℕ := (extents.map Extent.length).sum

@[simp] theorem length_gather (store : ℕ → α) (extents : List Extent) :
    (gather store extents).length = total extents := by
  induction extents with
  | nil => rfl
  | cons e rest ih =>
    rw [gather, List.length_append, length_window, ih]
    simp [total]

theorem gather_congr {other : ℕ → α} (h : ∀ x, Covered extents x → store x = other x) :
    gather store extents = gather other extents := by
  induction extents with
  | nil => rfl
  | cons e rest ih =>
    have hhead : window store e.start e.length = window other e.start e.length := by
      apply window_congr
      intro i hi
      apply h
      exact covered_cons.2 (.inl ⟨Nat.le_add_right _ _, by omega⟩)
    rw [gather, gather, hhead, ih fun x hx ↦ h x (covered_cons.2 (.inr hx))]

theorem scatter_of_not_covered {data : List α} {x : ℕ} (h : ¬Covered extents x) :
    scatter store extents data x = store x := by
  induction extents generalizing store data with
  | nil => rfl
  | cons e rest ih =>
    rw [covered_cons, not_or] at h
    rw [scatter, ih h.2]
    apply overwrite_of_not_mem
    intro hx
    have hlength : (data.take e.length).length ≤ e.length := by
      rw [List.length_take]
      omega
    exact h.1 ⟨hx.1, by omega⟩

theorem scatter_congr {other : ℕ → α} {data : List α} {x : ℕ} (h : store x = other x) :
    scatter store extents data x = scatter other extents data x := by
  induction extents generalizing store other data with
  | nil => exact h
  | cons e rest ih =>
    rw [scatter, scatter]
    apply ih
    unfold overwrite
    split
    case isTrue hx => rw [h]
    case isFalse hx => exact h

end Span
