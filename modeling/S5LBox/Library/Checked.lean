import Mathlib.Tactic

/-!
# Checked computations

A computation over a table ends with a value, with a report of its own, or at a fault: a read past
the end of the table, a loop that runs out of its turns, a push onto a full stack. It agrees with a
computation that knows no faults when both end with related values or with the same report; then it
has met none.
-/

/-- What ends a checked computation early. -/
inductive CheckStop (ε : Type)
  | report (e : ε)
  | overrun
  | endless
  | overflow
deriving DecidableEq, Repr

abbrev Checked (ε α : Type) := Except (CheckStop ε) α

namespace Checked

open List

variable {ε α β γ : Type}

def report (e : ε) : Checked ε α := .error (.report e)

/-- An entry of a table. -/
def read (xs : List α) (i : ℕ) : Checked ε α :=
  match xs[i]? with
  | some a => .ok a
  | none => .error .overrun

/-- Whether the entries from `off` on are `ys`; as many as `ys` has are read. -/
def same [DecidableEq α] (xs : List α) (off : ℕ) (ys : List α) : Checked ε Bool :=
  if off + ys.length ≤ xs.length then .ok ((xs.drop off).take ys.length = ys)
  else .error .overrun

/-- Pass over the entries that satisfy `p`, up to `stop`. -/
def passWhile (xs : List α) (p : α → Bool) (stop : ℕ) : ℕ → ℕ → Checked ε ℕ
  | 0, _ => .error .endless
  | turns + 1, i =>
    if i < stop then do
      let a ← read xs i
      if p a then passWhile xs p stop turns (i + 1) else pure i
    else pure i

/-- Push onto a stack of at most `limit`. -/
def push (limit : ℕ) (a : α) (stack : List α) : Checked ε (List α) :=
  if stack.length < limit then .ok (a :: stack) else .error .overflow

@[simp] theorem ok_bind (a : α) (f : α → Checked ε β) : (Except.ok a : Checked ε α) >>= f = f a :=
  rfl

@[simp] theorem pure_eq (a : α) : (pure a : Checked ε α) = .ok a := rfl

theorem bind_eq_ok {p : Checked ε α} {f : α → Checked ε β} {b : β} :
    p >>= f = .ok b ↔ ∃ a, p = .ok a ∧ f a = .ok b := by
  cases p with
  | error e => exact ⟨nofun, nofun⟩
  | ok a =>
    refine ⟨fun h ↦ ⟨a, rfl, h⟩, fun ⟨_, h, hf⟩ ↦ ?_⟩
    cases h
    exact hf

variable {xs : List α} {i : ℕ}

theorem read_eq {a : α} (h : xs[i]? = some a) : (read xs i : Checked ε α) = .ok a := by
  unfold read
  rw [h]

theorem same_eq [DecidableEq α] {ys : List α} {off : ℕ} (h : off + ys.length ≤ xs.length) :
    (same xs off ys : Checked ε Bool) = .ok ((xs.drop off).take ys.length = ys) := if_pos h

theorem push_eq {limit : ℕ} {a : α} {stack : List α} (h : stack.length < limit) :
    (push limit a stack : Checked ε (List α)) = .ok (a :: stack) := if_pos h

theorem drop_take_of_lt {stop : ℕ} (hstop : stop ≤ xs.length) (hi : i < stop) :
    ∃ a, xs[i]? = some a ∧ (xs.take stop).drop i = a :: (xs.take stop).drop (i + 1) := by
  have hlength : i < (xs.take stop).length := by rw [length_take]; omega
  refine ⟨(xs.take stop)[i], ?_, drop_eq_getElem_cons hlength⟩
  rw [getElem_take]
  exact getElem?_eq_getElem (hi.trans_le hstop)

theorem drop_take_of_le {stop : ℕ} (hi : stop ≤ i) : (xs.take stop).drop i = [] :=
  drop_eq_nil_of_le ((length_take_le ..).trans hi)

theorem passWhile_eq {p : α → Bool} {stop : ℕ} (hstop : stop ≤ xs.length) {turns : ℕ}
    (hturns : stop - i < turns) : (passWhile xs p stop turns i : Checked ε ℕ) =
      .ok (i + (((xs.take stop).drop i).takeWhile p).length) := by
  induction turns generalizing i with
  | zero => exact absurd hturns (Nat.not_lt_zero _)
  | succ turns ih =>
    unfold passWhile
    split
    case isTrue hi =>
      obtain ⟨a, ha, hdrop⟩ := drop_take_of_lt hstop hi
      rw [read_eq ha, ok_bind, hdrop]
      by_cases hp : p a = true
      · rw [if_pos hp, ih (by omega), takeWhile_cons_of_pos hp, length_cons]
        congr 1
        omega
      · rw [if_neg hp, takeWhile_cons_of_neg hp]
        rfl
    case isFalse hi =>
      rw [drop_take_of_le (Nat.le_of_not_lt hi)]
      rfl

/-- Related values or the same report, and no fault. -/
def Agrees (R : α → β → Prop) : Checked ε α → Except ε β → Prop
  | .ok a, .ok b => R a b
  | .error (.report e), .error e' => e = e'
  | _, _ => False

variable {R R' : α → β → Prop} {m : Checked ε α} {n : Except ε β}

theorem agrees_ok {a : α} {b : β} (h : R a b) :
    Agrees R (.ok a : Checked ε α) (.ok b : Except ε β) := h

theorem agrees_report (e : ε) : Agrees R (report e : Checked ε α) (.error e : Except ε β) := rfl

theorem Agrees.mono (h : Agrees R m n) (hR : ∀ a b, R a b → R' a b) : Agrees R' m n := by
  match m, n, h with
  | .ok a, .ok b, h => exact hR a b h
  | .error (.report _), .error _, h => exact h

theorem Agrees.cases (h : Agrees R m n) :
    (∃ a b, m = .ok a ∧ n = .ok b ∧ R a b) ∨ ∃ e, m = report e ∧ n = .error e := by
  match m, n, h with
  | .ok a, .ok b, h => exact .inl ⟨a, b, rfl, rfl, h⟩
  | .error (.report e), .error _, h => exact .inr ⟨e, rfl, congrArg _ (Eq.symm h)⟩

theorem Agrees.map_right {S : α → γ → Prop} {g : β → γ} (h : Agrees R m n)
    (hg : ∀ a b, R a b → S a (g b)) : Agrees S m (n.map g) := by
  match m, n, h with
  | .ok a, .ok b, h => exact hg a b h
  | .error (.report _), .error _, h => exact h

end Checked
