import Mathlib.Tactic

/-!
# Laws of traces

A law says what may happen after what has happened before it. A trace is lawful when every event
of it is; it is extended one event at a time. What a trace comes to can be collected in the same
way, each event adding what it does after those before it.
-/

namespace Trace

open List

variable {Event : Type} {law : List Event → Event → Prop} {trace : List Event}

/-- Every event of the trace is lawful after those before it. -/
def Lawful (law : List Event → Event → Prop) (trace : List Event) : Prop :=
  ∀ before event after, trace = before ++ event :: after → law before event

theorem lawful_nil : Lawful law [] := by
  intro before event after h
  cases before <;> cases h

theorem lawful_append {event : Event} :
    Lawful law (trace ++ [event]) ↔ Lawful law trace ∧ law trace event := by
  constructor
  · intro h
    refine ⟨?_, h trace event [] rfl⟩
    intro before earlier after hsplit
    exact h before earlier (after ++ [event]) (by rw [hsplit, append_assoc, cons_append])
  · rintro ⟨htrace, hevent⟩ before last after hsplit
    rcases eq_nil_or_concat' after with rfl | ⟨middle, final, rfl⟩
    · obtain ⟨rfl, hsame⟩ := append_inj' hsplit rfl
      obtain rfl := (List.cons.inj hsame).1
      exact hevent
    · have hlonger : trace ++ [event] = (before ++ last :: middle) ++ [final] := by
        rw [hsplit, append_assoc, cons_append]
      exact htrace before last middle (append_inj' hlonger rfl).1

theorem Lawful.mono {law' : List Event → Event → Prop} (h : Lawful law trace)
    (himp : ∀ before event, law before event → law' before event) : Lawful law' trace :=
  fun before event after hsplit ↦ himp before event (h before event after hsplit)

variable {β : Type} (part : List Event → Event → List β)

def collectFrom : List Event → List Event → List β
  | _, [] => []
  | before, event :: rest => part before event ++ collectFrom (before ++ [event]) rest

/-- What the events of a trace add, in their order. -/
def collect (trace : List Event) : List β := collectFrom part [] trace

theorem collectFrom_append (before trace : List Event) (event : Event) :
    collectFrom part before (trace ++ [event]) =
      collectFrom part before trace ++ part (before ++ trace) event := by
  induction trace generalizing before with
  | nil => simp [collectFrom]
  | cons first rest ih =>
    rw [cons_append, collectFrom, collectFrom, ih, append_assoc, append_assoc]
    rfl

theorem collect_append (trace : List Event) (event : Event) :
    collect part (trace ++ [event]) = collect part trace ++ part trace event :=
  collectFrom_append part [] trace event

end Trace
