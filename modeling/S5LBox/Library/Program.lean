import Mathlib.Tactic

/-!
# Programs over an interface

A program is a tree of requests: what it does between two requests is pure, and what a request
means is left to a handler. Two kinds of reasoning are provided. `Meets` is the partial
description of a program by a contract on its requests and the answers to them, whatever the
handler is; `Meets.run` reads it back for every handler that keeps the contract. `simulates`
compares two handlers request by request.
-/

/-- Requests and, for each of them, the type of its answer. -/
structure Interface where
  Op : Type
  Ret : Op → Type

inductive Program (I : Interface) (α : Type) where
  | done (value : α)
  | request (op : I.Op) (next : I.Ret op → Program I α)

namespace Program

variable {I : Interface} {α β γ : Type}

/-- Sequencing: the leaves of the first program are replaced by the second. -/
def andThen (p : Program I α) (f : α → Program I β) : Program I β :=
  match p with
  | done value => f value
  | request op next => request op fun answer ↦ andThen (next answer) f

instance : Monad (Program I) where
  pure := done
  bind := andThen

@[simp] theorem request_bind (op : I.Op) (next : I.Ret op → Program I α)
    (f : α → Program I β) : request op next >>= f = request op fun answer ↦ next answer >>= f :=
  rfl

theorem bind_done (p : Program I α) : p >>= done = p := by
  induction p with
  | done value => rfl
  | request op next ih => rw [request_bind, funext ih]

theorem bind_assoc (p : Program I α) (f : α → Program I β) (g : β → Program I γ) :
    p >>= f >>= g = p >>= fun a ↦ f a >>= g := by
  induction p with
  | done value => rfl
  | request op next ih => simp only [request_bind, ih]

instance : LawfulMonad (Program I) :=
  LawfulMonad.mk' (Program I) (fun p ↦ bind_done p) (fun _ _ ↦ rfl) bind_assoc

/-- The program of a single request. -/
def ask (op : I.Op) : Program I (I.Ret op) := request op done

/-- A handler answers every request and updates its state. -/
abbrev Handler (I : Interface) (σ : Type) := (op : I.Op) → σ → I.Ret op × σ

variable {σ τ : Type}

def run (handler : Handler I σ) : Program I α → σ → α × σ
  | done value, state => (value, state)
  | request op next, state =>
    run handler (next (handler op state).1) (handler op state).2

@[simp] theorem run_pure (handler : Handler I σ) (value : α) (state : σ) :
    run handler (pure value) state = (value, state) := rfl

theorem run_bind (handler : Handler I σ) (p : Program I α) (f : α → Program I β) (state : σ) :
    run handler (p >>= f) state = run handler (f (run handler p state).1) (run handler p state).2
    := by
  induction p generalizing state with
  | done value => rfl
  | request op next ih =>
    rw [request_bind]
    exact ih _ _

theorem run_invariant {handler : Handler I σ} (invariant : σ → Prop)
    (keeps : ∀ op state, invariant state → invariant (handler op state).2) (p : Program I α)
    {state : σ} (initial : invariant state) : invariant (run handler p state).2 := by
  induction p generalizing state with
  | done value => exact initial
  | request op next ih => exact ih _ (keeps op state initial)

/-- Every request of a run is one of `good`. -/
def Asks (handler : Handler I σ) (good : I.Op → Prop) : Program I α → σ → Prop
  | done _, _ => True
  | request op next, state =>
    good op ∧ Asks handler good (next (handler op state).1) (handler op state).2

variable {p : Program I α} {f : α → Program I β}

theorem asks_bind {handler : Handler I σ} {good : I.Op → Prop} {state : σ} :
    Asks handler good (p >>= f) state ↔ Asks handler good p state ∧
        Asks handler good (f (run handler p state).1) (run handler p state).2 := by
  induction p generalizing state with
  | done value => exact (and_iff_right trivial).symm
  | request op next ih =>
    rw [request_bind, Asks, Asks, ih, and_assoc]
    rfl

variable {J : Interface}

/-- The program whose requests are served by programs of another interface. -/
def translate (serve : (op : I.Op) → Program J (I.Ret op)) : Program I α → Program J α
  | done value => done value
  | request op next => serve op >>= fun answer ↦ translate serve (next answer)

/-- A protocol between a program and its handlers: in each state of the protocol, the requests
the program may make and the answers it may count on, and the state after a request. -/
structure Contract (I : Interface) (S : Type) where
  allowed : S → I.Op → Prop
  answers : S → (op : I.Op) → I.Ret op → Prop
  after : S → I.Op → S

variable {S : Type} {contract : Contract I S} {post post' : S → α → Prop}

/-- Every request of the program is allowed and every leaf meets `post`, as long as the answers
keep the contract. -/
def Meets (contract : Contract I S) (post : S → α → Prop) : S → Program I α → Prop
  | s, done value => post s value
  | s, request op next =>
    contract.allowed s op ∧ ∀ answer, contract.answers s op answer →
        Meets contract post (contract.after s op) (next answer)

theorem Meets.mono {s : S} (h : Meets contract post s p) (weaken : ∀ s a, post s a → post' s a) :
    Meets contract post' s p := by
  induction p generalizing s with
  | done value => exact weaken s value h
  | request op next ih => exact ⟨h.1, fun answer hanswer ↦ ih answer (h.2 answer hanswer)⟩

theorem meets_bind {s : S} {post : S → β → Prop} : Meets contract post s (p >>= f) ↔
      Meets contract (fun s a ↦ Meets contract post s (f a)) s p := by
  induction p generalizing s with
  | done value => exact .rfl
  | request op next ih =>
    rw [request_bind]
    exact and_congr_right fun _ ↦ forall₂_congr fun answer _ ↦ ih answer

theorem Meets.bind {s : S} {goal : S → β → Prop} (h : Meets contract post s p)
    (next : ∀ s a, post s a → Meets contract goal s (f a)) : Meets contract goal s (p >>= f) :=
  meets_bind.2 (h.mono next)

theorem Meets.map {s : S} {f : α → β} {goal : S → β → Prop} (h : Meets contract post s p)
    (next : ∀ s a, post s a → goal s (f a)) : Meets contract goal s (f <$> p) := by
  rw [map_eq_pure_bind]
  exact h.bind next

/-- A handler keeps a contract, relative to an invariant of its state. -/
def Keeps (handler : Handler I σ) (contract : Contract I S) (invariant : S → σ → Prop) : Prop :=
  ∀ op s state, invariant s state → contract.allowed s op →
    contract.answers s op (handler op state).1 ∧
      invariant (contract.after s op) (handler op state).2

theorem Meets.run {handler : Handler I σ} {invariant : S → σ → Prop} {s : S} {p : Program I α}
    (h : Meets contract post s p) (keeps : Keeps handler contract invariant) {state : σ}
    (initial : invariant s state) :
    ∃ s', post s' (run handler p state).1 ∧ invariant s' (run handler p state).2 := by
  induction p generalizing s state with
  | done value => exact ⟨s, h, initial⟩
  | request op next ih =>
    obtain ⟨hanswer, hstate⟩ := keeps op s state initial h.1
    exact ih _ (h.2 _ hanswer) hstate

/-- The contract that asks for nothing and promises nothing. -/
def Contract.free (I : Interface) : Contract I Unit where
  allowed _ _ := True
  answers _ _ _ := True
  after _ _ := ()

/-- What holds whatever the answers are holds under every contract that allows the requests. -/
theorem Meets.of_free {goal : α → Prop} (h : Meets (.free I) (fun _ a ↦ goal a) () p)
    (allowed : ∀ s op, contract.allowed s op) (s : S) : Meets contract (fun _ a ↦ goal a) s p := by
  induction p generalizing s with
  | done value => exact h
  | request op next ih =>
    exact ⟨allowed s op, fun answer _ ↦ ih answer (h.2 answer trivial) (contract.after s op)⟩

/-- Two handlers that agree request by request give a program the same result. The second one
may record in `good` that a request went against a discipline both depend on; once lost, `good`
stays lost. -/
theorem Meets.simulates {first : Handler I σ} {second : Handler I τ} {related : S → σ → τ → Prop}
    (good : τ → Prop) (sticky : ∀ op t, good (second op t).2 → good t)
    (agree : ∀ op x s t, related x s t → contract.allowed x op → good (second op t).2 →
      (first op s).1 = (second op t).1 ∧ contract.answers x op (second op t).1 ∧
        related (contract.after x op) (first op s).2 (second op t).2) {x : S}
    (h : Meets contract post x p) {s : σ} {t : τ} (start : related x s t)
    (disciplined : good (Program.run second p t).2) :
    (Program.run first p s).1 = (Program.run second p t).1 ∧
      ∃ x', post x' (Program.run second p t).1 ∧
        related x' (Program.run first p s).2 (Program.run second p t).2 := by
  have good_of_run {p : Program I α} {t : τ} (h : good (Program.run second p t).2) : good t := by
    by_contra hlost
    have hkeeps (op : I.Op) (t : τ) (hlost : ¬good t) : ¬good (second op t).2 :=
      fun h ↦ hlost (sticky op t h)
    exact run_invariant (fun t ↦ ¬good t) hkeeps p hlost h
  induction p generalizing x s t with
  | done value => exact ⟨rfl, x, h, start⟩
  | request op next ih =>
    obtain ⟨hequal, hanswer, hrelated⟩ := agree op x s t start h.1 (good_of_run disciplined)
    rw [Program.run, Program.run, hequal]
    exact ih _ (h.2 _ hanswer) hrelated disciplined

end Program
