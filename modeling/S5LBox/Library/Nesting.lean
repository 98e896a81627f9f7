import Mathlib.Tactic

/-!
# Nesting by name

Tags that open and close named elements, the grammar of those that nest properly, and a reader that
keeps a stack of the names that are open: what it reads nests.
-/

namespace Nesting

open List

/-- A tag: an element without content, or the start or the end of one. -/
inductive Tag (ν : Type)
  | leaf (name : ν)
  | start (name : ν)
  | finish (name : ν)
deriving DecidableEq, Repr

variable {ν : Type} {n : ν} {names : List ν} {tags : List (Tag ν)}

/-- The tags of whole elements one after another, of these names. -/
inductive Forest : List ν → List (Tag ν) → Prop
  | nil : Forest [] []
  | leaf {n : ν} {names : List ν} {rest : List (Tag ν)} (hrest : Forest names rest) :
      Forest (n :: names) (.leaf n :: rest)
  | node {n : ν} {inside names : List ν} {body rest : List (Tag ν)} (hbody : Forest inside body)
      (hrest : Forest names rest) :
      Forest (n :: names) (.start n :: (body ++ .finish n :: rest))

theorem Forest.append {more : List ν} {rest : List (Tag ν)} (h : Forest names tags)
    (hrest : Forest more rest) : Forest (names ++ more) (tags ++ rest) := by
  induction h with
  | nil => exact hrest
  | leaf _ ih => exact .leaf ih
  | node hbody _ _ ih =>
    rw [cons_append, cons_append, append_assoc, cons_append]
    exact .node hbody ih

/-- The tags close the open elements, the newest first, and end with the last of them. -/
inductive Closes : List ν → List (Tag ν) → Prop
  | done : Closes [] []
  | leaf {m n : ν} {stack : List ν} {rest : List (Tag ν)} (hrest : Closes (m :: stack) rest) :
      Closes (m :: stack) (.leaf n :: rest)
  | start {m n : ν} {stack : List ν} {rest : List (Tag ν)} (hrest : Closes (n :: m :: stack) rest) :
      Closes (m :: stack) (.start n :: rest)
  | finish {n : ν} {stack : List ν} {rest : List (Tag ν)} (hrest : Closes stack rest) :
      Closes (n :: stack) (.finish n :: rest)

/-- In front of the end of the newest open element there are whole elements. -/
theorem Closes.split : ∀ {tags : List (Tag ν)} {n : ν} {stack : List ν}, Closes (n :: stack) tags →
    ∃ names body rest, tags = body ++ .finish n :: rest ∧ Forest names body ∧ Closes stack rest
  | _, n, stack, .leaf hrest => by
    obtain ⟨names, body, rest, rfl, hbody, hclosed⟩ := hrest.split
    exact ⟨_, _, rest, rfl, .leaf hbody, hclosed⟩
  | _, n, stack, @Closes.start _ _ k _ _ hrest => by
    obtain ⟨inside, body, rest, rfl, hbody, hopen⟩ := hrest.split
    obtain ⟨names, after, rest, rfl, hafter, hclosed⟩ := hopen.split
    refine ⟨k :: names, .start k :: (body ++ .finish k :: after), rest, ?_,
      .node hbody hafter, hclosed⟩
    rw [cons_append, append_assoc, cons_append]
  | _, n, stack, .finish hrest => ⟨[], [], _, rfl, .nil, hrest⟩
termination_by tags => tags.length

theorem Closes.element (h : Closes [n] tags) :
    ∃ names body, tags = body ++ [.finish n] ∧ Forest names body := by
  obtain ⟨names, body, rest, rfl, hbody, hrest⟩ := h.split
  cases hrest
  exact ⟨names, body, rfl, hbody⟩

end Nesting
