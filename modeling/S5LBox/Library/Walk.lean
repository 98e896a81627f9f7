import Mathlib.Tactic

/-!
# Walks

A step that may fail, taken a number of times: how a program passes over the records of a format in
which only the records themselves say where the next one begins.
-/

/-- Take `n` steps. -/
def walk {α : Type} (step : α → Option α) : ℕ → α → Option α
  | 0, a => some a
  | n + 1, a => (step a).bind (walk step n)

variable {α : Type} {step step' : α → Option α} {n : ℕ} {a b : α}

theorem walk_succ_eq_some : walk step (n + 1) a = some b ↔
    ∃ next, step a = some next ∧ walk step n next = some b := by
  rw [walk, Option.bind_eq_some_iff]

theorem walk_keeps {p : α → Prop} (hstep : ∀ a b, p a → step a = some b → p b) (ha : p a)
    (h : walk step n a = some b) : p b := by
  induction n generalizing a with
  | zero =>
    obtain rfl := Option.some.inj h
    exact ha
  | succ n ih =>
    obtain ⟨next, hnext, hrest⟩ := walk_succ_eq_some.1 h
    exact ih (hstep a next ha hnext) hrest

theorem walk_agree {p : α → Prop} {c : α}
    (hstep : ∀ a b c, p a → step a = some b → step' a = some c → b = c ∧ p b) (ha : p a)
    (h : walk step n a = some b) (h' : walk step' n a = some c) : b = c ∧ p b := by
  induction n generalizing a with
  | zero =>
    obtain rfl := Option.some.inj h
    obtain rfl := Option.some.inj h'
    exact ⟨rfl, ha⟩
  | succ n ih =>
    obtain ⟨next, hnext, hrest⟩ := walk_succ_eq_some.1 h
    obtain ⟨next', hnext', hrest'⟩ := walk_succ_eq_some.1 h'
    obtain ⟨rfl, hkept⟩ := hstep a next next' ha hnext hnext'
    exact ih hkept hrest hrest'

theorem walk_mono (hstep : ∀ a b, step a = some b → step' a = some b)
    (h : walk step n a = some b) : walk step' n a = some b := by
  induction n generalizing a with
  | zero => exact h
  | succ n ih =>
    obtain ⟨next, hnext, hrest⟩ := walk_succ_eq_some.1 h
    exact walk_succ_eq_some.2 ⟨next, hstep a next hnext, ih hrest⟩

/-- Take `n` steps that each hand over some items, and put these one behind the other. -/
def gather {α β : Type} (step : α → Option (List β × α)) : ℕ → α → Option (List β × α)
  | 0, a => some ([], a)
  | n + 1, a => (step a).bind fun one ↦
    (gather step n one.2).map fun rest ↦ (one.1 ++ rest.1, rest.2)

variable {β : Type} {f f' : α → Option (List β × α)} {xs : List β}

theorem gather_succ_eq_some : gather f (n + 1) a = some (xs, b) ↔
    ∃ ys next zs, f a = some (ys, next) ∧ gather f n next = some (zs, b) ∧ xs = ys ++ zs := by
  rw [gather, Option.bind_eq_some_iff]
  constructor
  · rintro ⟨⟨ys, next⟩, hnext, hrest⟩
    obtain ⟨⟨zs, last⟩, hzs, heq⟩ := Option.map_eq_some_iff.1 hrest
    cases heq
    exact ⟨ys, next, zs, hnext, hzs, rfl⟩
  · rintro ⟨ys, next, zs, hnext, hrest, rfl⟩
    exact ⟨_, hnext, Option.map_eq_some_iff.2 ⟨_, hrest, rfl⟩⟩

theorem gather_map_snd (hstep : ∀ a, (f a).map Prod.snd = step a) (n : ℕ) (a : α) :
    (gather f n a).map Prod.snd = walk step n a := by
  induction n generalizing a with
  | zero => rfl
  | succ n ih =>
    rw [gather, walk, ← hstep a]
    rcases f a with _ | ⟨ys, next⟩
    · rfl
    · rw [Option.bind_some, Option.map_some, Option.bind_some, ← ih next, Option.map_map]
      rfl

theorem gather_congr {good : β → Prop} (hstep : ∀ a ys next, f a = some (ys, next) →
      (∀ y ∈ ys, good y) → f' a = some (ys, next))
    (h : gather f n a = some (xs, b)) (hgood : ∀ x ∈ xs, good x) :
    gather f' n a = some (xs, b) := by
  induction n generalizing a xs with
  | zero => exact h
  | succ n ih =>
    obtain ⟨ys, next, zs, hnext, hrest, rfl⟩ := gather_succ_eq_some.1 h
    exact gather_succ_eq_some.2 ⟨ys, next, zs,
      hstep a ys next hnext fun y hy ↦ hgood y (List.mem_append_left _ hy),
      ih hrest fun z hz ↦ hgood z (List.mem_append_right _ hz), rfl⟩

theorem gather_forall {good : β → Prop} (hstep : ∀ a ys next, f a = some (ys, next) →
      ∀ y ∈ ys, good y) (h : gather f n a = some (xs, b)) : ∀ x ∈ xs, good x := by
  induction n generalizing a xs with
  | zero =>
    cases h
    exact fun _ hx ↦ nomatch hx
  | succ n ih =>
    obtain ⟨ys, next, zs, hnext, hrest, rfl⟩ := gather_succ_eq_some.1 h
    exact List.forall_mem_append.2 ⟨hstep a ys next hnext, ih hrest⟩
