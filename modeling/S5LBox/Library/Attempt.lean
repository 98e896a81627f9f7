import Mathlib.Tactic

/-!
# Steps that may be refused

A computation over a state that ends with a value or with a refusal, and keeps the state it has
reached in both cases: what a C function with early returns does. The rules read a successful
sequence back as the success of each of its steps.
-/

/-- A computation over `σ` that may end early with `ε`. -/
def Attempt (ε σ α : Type) := σ → Except ε α × σ

namespace Attempt

variable {ε ε' σ α β : Type}

/-- Sequencing: the second computation starts where the first one has ended well. -/
def andThen (p : Attempt ε σ α) (f : α → Attempt ε σ β) : Attempt ε σ β := fun s ↦
  match p s with
  | (.ok a, s) => f a s
  | (.error e, s) => (.error e, s)

instance : Monad (Attempt ε σ) where
  pure a := fun s ↦ (.ok a, s)
  bind := andThen

def refuse (e : ε) : Attempt ε σ α := fun s ↦ (.error e, s)

/-- Go on only under a condition. -/
def require (condition : Prop) [Decidable condition] (e : ε) : Attempt ε σ Unit :=
  if condition then pure () else refuse e

/-- Go on only with a value. -/
def expect (value : Option α) (e : ε) : Attempt ε σ α :=
  match value with
  | none => refuse e
  | some a => pure a

/-- A step that is never refused. -/
def lift (f : σ → α × σ) : Attempt ε σ α := fun s ↦ (.ok (f s).1, (f s).2)

/-- The state as it is. -/
def get : Attempt ε σ σ := fun s ↦ (.ok s, s)

def modify (f : σ → σ) : Attempt ε σ Unit := fun s ↦ (.ok (), f s)

/-- The refusal as a caller reports it. -/
def mapError (f : ε → ε') (p : Attempt ε σ α) : Attempt ε' σ α := fun s ↦
  match p s with
  | (.ok a, s) => (.ok a, s)
  | (.error e, s) => (.error (f e), s)

variable {s t : σ} {a b : α} {p : Attempt ε σ α}

@[simp] theorem pure_ok : (pure a : Attempt ε σ α) s = (.ok b, t) ↔ a = b ∧ s = t := by
  change (Except.ok a, s) = (Except.ok b, t) ↔ _
  rw [Prod.mk.injEq, Except.ok.injEq]

variable {e : ε} {f : α → Attempt ε σ β} {condition : Prop} {value : Option α}

@[simp] theorem refuse_ok : ¬(refuse e : Attempt ε σ α) s = (.ok b, t) := by
  intro h
  cases (Prod.mk.inj h).1

@[simp] theorem bind_ok {c : β} :
    (p >>= f) s = (.ok c, t) ↔ ∃ a u, p s = (.ok a, u) ∧ f a u = (.ok c, t) := by
  change andThen p f s = _ ↔ _
  unfold andThen
  rcases hp : p s with ⟨_ | a, u⟩ <;> simp

@[simp] theorem require_ok [Decidable condition] {u : Unit} :
    (require condition e : Attempt ε σ Unit) s = (.ok u, t) ↔ condition ∧ s = t := by
  unfold require
  split
  case isTrue h => simp [h]
  case isFalse h => simp [h]

@[simp] theorem expect_ok :
    (expect value e : Attempt ε σ α) s = (.ok b, t) ↔ value = some b ∧ s = t := by
  unfold expect
  split <;> simp

@[simp] theorem lift_ok {f : σ → α × σ} :
    (lift f : Attempt ε σ α) s = (.ok b, t) ↔ f s = (b, t) := by
  unfold lift
  rw [Prod.mk.injEq, Except.ok.injEq, Prod.ext_iff]

@[simp] theorem mapError_ok {f : ε → ε'} : mapError f p s = (.ok b, t) ↔ p s = (.ok b, t) := by
  unfold mapError
  rcases hp : p s with ⟨_ | a, u⟩ <;> simp

/-- Started in `s`, the computation ends with `post` or is refused with `fail`. -/
def Ends (post : α → σ → Prop) (fail : ε → σ → Prop) (p : Attempt ε σ α) (s : σ) : Prop :=
  match p s with
  | (.ok a, t) => post a t
  | (.error e, t) => fail e t

/-- No refusal: with it as `fail`, the computation succeeds. -/
def Never : ε → σ → Prop := fun _ _ ↦ False

variable {post post' : α → σ → Prop} {fail fail' : ε → σ → Prop}

@[simp] theorem ends_pure : Ends post fail (pure a) s ↔ post a s := .rfl

@[simp] theorem ends_refuse : Ends post fail (refuse e) s ↔ fail e s := .rfl

@[simp] theorem ends_get {post : σ → σ → Prop} : Ends post fail get s ↔ post s s := .rfl

@[simp] theorem ends_modify {f : σ → σ} {post : Unit → σ → Prop} :
    Ends post fail (modify f) s ↔ post () (f s) := .rfl

@[simp] theorem ends_lift {f : σ → α × σ} : Ends post fail (lift f) s ↔ post (f s).1 (f s).2 := .rfl

@[simp] theorem ends_expect : Ends post fail (expect value e) s ↔
      (∀ a, value = some a → post a s) ∧ (value = none → fail e s) := by
  cases value with
  | none => simp [expect]
  | some a => simp [expect]

@[simp] theorem ends_require [Decidable condition] {post : Unit → σ → Prop} :
    Ends post fail (require condition e) s ↔ (condition → post () s) ∧ (¬condition → fail e s) := by
  unfold require
  split
  case isTrue h => simp [h]
  case isFalse h => simp [h]

theorem ends_bind {goal : β → σ → Prop} :
    Ends goal fail (p >>= f) s ↔ Ends (fun a ↦ Ends goal fail (f a)) fail p s := by
  change Ends goal fail (andThen p f) s ↔ _
  unfold Ends andThen
  rcases p s with ⟨_ | a, t⟩ <;> exact .rfl

theorem Ends.mono (h : Ends post fail p s) (hpost : ∀ a t, post a t → post' a t)
    (hfail : ∀ e t, fail e t → fail' e t) : Ends post' fail' p s := by
  unfold Ends at *
  rcases hp : p s with ⟨_ | a, t⟩
  · rw [hp] at h
    exact hfail _ _ h
  · rw [hp] at h
    exact hpost _ _ h

/-- The rule for a sequence. -/
theorem Ends.bind {goal : β → σ → Prop} (h : Ends post fail p s)
    (next : ∀ a t, post a t → Ends goal fail (f a) t) : Ends goal fail (p >>= f) s :=
  ends_bind.2 (h.mono next fun _ _ h ↦ h)

theorem ends_iff : Ends post fail p s ↔
    (∀ a t, p s = (.ok a, t) → post a t) ∧ ∀ e t, p s = (.error e, t) → fail e t := by
  unfold Ends
  rcases p s with ⟨_ | a, t⟩ <;> simp

theorem Ends.weaken (h : Ends post fail p s) (hpost : ∀ a t, post a t → post' a t) :
    Ends post' fail p s := h.mono hpost fun _ _ h ↦ h

-- Unfolding an outcome would run the computation.
attribute [irreducible] Ends

variable {kept : σ → Prop}

/-- The computation keeps a property of the state, however it ends. -/
def Steady (kept : σ → Prop) (p : Attempt ε σ α) : Prop := ∀ s, kept s → kept (p s).2

theorem steady_pure : Steady kept (pure a : Attempt ε σ α) := fun _ h ↦ h

theorem steady_refuse : Steady kept (refuse e : Attempt ε σ α) := fun _ h ↦ h

theorem steady_require [Decidable condition] :
    Steady kept (require condition e : Attempt ε σ Unit) := by
  unfold require
  split
  · exact steady_pure
  · exact steady_refuse

theorem steady_expect : Steady kept (expect value e : Attempt ε σ α) := by
  cases value with
  | none => exact steady_refuse
  | some a => exact steady_pure

theorem steady_lift {f : σ → α × σ} (h : ∀ s, kept s → kept (f s).2) :
    Steady kept (lift f : Attempt ε σ α) := h

theorem steady_modify {f : σ → σ} (h : ∀ s, kept s → kept (f s)) :
    Steady kept (modify f : Attempt ε σ Unit) := h

theorem Steady.bind (h : Steady kept p) (next : ∀ a, Steady kept (f a)) :
    Steady kept (p >>= f) := by
  intro s hs
  have hfirst := h s hs
  change kept (andThen p f s).2
  unfold andThen
  rcases hp : p s with ⟨_ | a, t⟩
  · rw [hp] at hfirst
    exact hfirst
  · rw [hp] at hfirst
    exact next a t hfirst

theorem Steady.ends (h : Steady kept p) (hs : kept s) : Ends (fun _ ↦ kept) (fun _ ↦ kept) p s := by
  have hend := h s hs
  rw [ends_iff]
  constructor
  · intro a t hp
    rwa [hp] at hend
  · intro e t hp
    rwa [hp] at hend

theorem Steady.after (h : Steady kept p) (hs : kept s) : kept (p s).2 := h s hs

theorem Steady.seq {q : Attempt ε σ β} (h : Steady kept p) (next : Steady kept q) :
    Steady kept (p >>= fun _ ↦ q) := h.bind fun _ ↦ next

-- Unfolding a property of all states would run the computation.
attribute [irreducible] Steady

end Attempt
