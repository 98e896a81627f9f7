import Mathlib.Tactic

/-!
# Runs of a deterministic system

A run feeds a list of events to a step function. The two rules of this file carry an
invariant from one step to every state a run reaches: `invariant` for an unconditional step
lemma, `invariant_of_within` for a step lemma that needs a condition on the state and the
event it is about to take. `since` looks back from a state to the event that brought about what
holds there.
-/

namespace Run

variable {State Event : Type}

/-- The state after a list of events. -/
def run (step : State → Event → State) (start : State) (events : List Event) : State :=
  events.foldl step start

@[simp] theorem run_nil (step : State → Event → State) (start : State) :
    run step start [] = start := rfl

@[simp] theorem run_cons (step : State → Event → State) (start : State) (event : Event)
    (rest : List Event) : run step start (event :: rest) = run step (step start event) rest := rfl

@[simp] theorem run_append (step : State → Event → State) (start : State)
    (first second : List Event) :
    run step start (first ++ second) = run step (run step start first) second := by
  simp [run]

/-- Every event of the run meets `condition` in the state in which it is taken. -/
def Within (step : State → Event → State) (condition : State → Event → Prop) :
    State → List Event → Prop
  | _, [] => True
  | state, event :: rest => condition state event ∧ Within step condition (step state event) rest

theorem within_append (step : State → Event → State) (condition : State → Event → Prop)
    (start : State) (first second : List Event) : Within step condition start (first ++ second) ↔
      Within step condition start first ∧ Within step condition (run step start first) second := by
  induction first generalizing start with
  | nil => simp [Within]
  | cons event rest ih => simp [Within, ih, and_assoc]

variable {step : State → Event → State} {start : State}

theorem invariant_of_within {condition : State → Event → Prop} (invariant : State → Prop)
    (preserves : ∀ state event, invariant state → condition state event →
      invariant (step state event)) (initial : invariant start) {events : List Event}
    (within : Within step condition start events) : invariant (run step start events) := by
  induction events generalizing start with
  | nil => exact initial
  | cons event rest ih => exact ih (preserves start event initial within.1) within.2

/-- Every state of the run meets `invariant` and every event is taken lawfully: `law` holds of
the state before it, the event and the state after it. -/
def Throughout (step : State → Event → State) (invariant : State → Prop)
    (law : State → Event → State → Prop) : State → List Event → Prop
  | state, [] => invariant state
  | state, event :: rest =>
    invariant state ∧ law state event (step state event) ∧
      Throughout step invariant law (step state event) rest

instance decidableWithin (step : State → Event → State) (condition : State → Event → Prop)
    [∀ state event, Decidable (condition state event)] :
    ∀ state events, Decidable (Within step condition state events)
  | _, [] => .isTrue trivial
  | state, event :: rest =>
    @instDecidableAnd _ _ _ (decidableWithin step condition (step state event) rest)

/-- The step rule for `Throughout`: a stronger invariant that the condition lets every step keep
gives both the weaker one and the law. -/
theorem throughout_of_within {step : State → Event → State} {condition : State → Event → Prop}
    {strong invariant : State → Prop} {law : State → Event → State → Prop}
    (weaken : ∀ state, strong state → invariant state)
    (preserves : ∀ state event, strong state → condition state event → strong (step state event))
    (lawful : ∀ state event, strong state → condition state event →
      law state event (step state event))
    {start : State} (initial : strong start) {events : List Event}
    (within : Within step condition start events) : Throughout step invariant law start events := by
  induction events generalizing start with
  | nil => exact weaken start initial
  | cons event rest ih =>
    exact ⟨weaken start initial, lawful start event initial within.1,
      ih (preserves start event initial within.1) within.2⟩

theorem Throughout.final {invariant : State → Prop} {law : State → Event → State → Prop}
    {events : List Event} (h : Throughout step invariant law start events) :
    invariant (run step start events) := by
  induction events generalizing start with
  | nil => exact h
  | cons event rest ih => exact ih h.2.2

theorem invariant {step : State → Event → State} {invariant : State → Prop}
    (preserves : ∀ state event, invariant state → invariant (step state event))
    {start : State} (initial : invariant start) (events : List Event) :
    invariant (run step start events) := by
  induction events generalizing start with
  | nil => exact initial
  | cons event rest ih => exact ih (preserves start event initial)

/-- What holds only where an event brought it about or left it alone has an event of the run
that brought it about, with none but events that leave it alone after it. -/
theorem since {step : State → Event → State} {held : State → Prop}
    {brings spares : State → Event → Prop} (law : ∀ state event, held (step state event) →
      brings state event ∨ held state ∧ spares state event)
    {start : State} (initial : ¬held start) {events : List Event}
    (final : held (run step start events)) :
    ∃ before event after, events = before ++ event :: after ∧ brings (run step start before) event ∧
      Within step spares (run step start (before ++ [event])) after := by
  induction events using List.reverseRecOn with
  | nil => exact absurd final initial
  | append_singleton rest last ih =>
    rw [run_append] at final
    obtain hbrings | ⟨hheld, hspares⟩ := law _ _ final
    · exact ⟨rest, last, [], rfl, hbrings, trivial⟩
    · obtain ⟨before, event, after, rfl, hevent, hafter⟩ := ih hheld
      refine ⟨before, event, after ++ [last], by simp, hevent, ?_⟩
      rw [within_append, ← run_append, List.append_assoc]
      exact ⟨hafter, hspares, trivial⟩

theorem simulates {Other : Type} {step' : Other → Event → Other} (related : State → Other → Prop)
    (preserves : ∀ state state' event, related state state' →
      related (step state event) (step' state' event)) {start' : Other}
    (initial : related start start') (events : List Event) :
    related (run step start events) (run step' start' events) := by
  induction events generalizing start start' with
  | nil => exact initial
  | cons event rest ih => exact ih (preserves start start' event initial)

end Run
