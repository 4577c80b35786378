/-!
# Runs of a state machine

A machine is given by a partial step function and by the actions its users may
choose in each state.  An invariant that the start has and every permitted step
keeps holds in every state that is reached.
-/

namespace Vmem

variable {σ α : Type}

/-- The states reached from a start by permitted actions. -/
inductive Reached (permitted : σ → α → Prop) (step : σ → α → Option σ) (start : σ) : σ → Prop
  | start : Reached permitted step start start
  | next {state after : σ} {action : α}
      (reached : Reached permitted step start state)
      (allowed : permitted state action)
      (result : step state action = some after) :
      Reached permitted step start after

/-- What permitted steps keep holds in every reached state. -/
theorem Reached.invariant {permitted : σ → α → Prop} {step : σ → α → Option σ}
    {start state : σ} (reached : Reached permitted step start state)
    (invariant : σ → Prop) (starts : invariant start)
    (keeps : ∀ before action after, invariant before → permitted before action →
      step before action = some after → invariant after) :
    invariant state := by
  induction reached with
  | start => exact starts
  | next _ allowed result inductionHypothesis =>
      exact keeps _ _ _ inductionHypothesis allowed result

/-- Runs compose, also when the second one was chosen more carefully. -/
theorem Reached.append {permitted careful : σ → α → Prop} {step : σ → α → Option σ}
    {start middle state : σ} (first : Reached permitted step start middle)
    (second : Reached careful step middle state)
    (weaker : ∀ state action, careful state action → permitted state action) :
    Reached permitted step start state := by
  induction second with
  | start => exact first
  | next _ allowed result inductionHypothesis =>
      exact inductionHypothesis.next (weaker _ _ allowed) result

/-- If every permitted step is matched by a run of another machine between related states, every
reached state is related to one that the other machine reaches. -/
theorem Reached.simulated {τ β : Type} {permitted : σ → α → Prop} {step : σ → α → Option σ}
    {allowed : τ → β → Prop} {next : τ → β → Option τ} {start state : σ} {first : τ}
    (reached : Reached permitted step start state) (related : σ → τ → Prop)
    (starts : related start first)
    (matched : ∀ before action after other, Reached allowed next first other →
      related before other → permitted before action → step before action = some after →
      ∃ later, Reached allowed next other later ∧ related after later) :
    ∃ other, Reached allowed next first other ∧ related state other := by
  induction reached with
  | start => exact ⟨first, Reached.start, starts⟩
  | next _ permits result inductionHypothesis =>
      obtain ⟨other, run, same⟩ := inductionHypothesis
      obtain ⟨later, steps, stays⟩ := matched _ _ _ other run same permits result
      exact ⟨later, run.append steps fun _ _ => id, stays⟩

/-- Execute a list of actions, stopping at the first one that is refused. -/
def runs (step : σ → α → Option σ) : σ → List α → Option σ
  | state, [] => some state
  | state, action :: rest =>
      match step state action with
      | none => none
      | some next => runs step next rest

/-- A run of actions that are permitted wherever they are taken. -/
theorem Reached.of_runs {permitted : σ → α → Prop} {step : σ → α → Option σ}
    {actions : List α} {start state : σ}
    (allowed : ∀ state, ∀ action ∈ actions, permitted state action)
    (run : runs step start actions = some state) : Reached permitted step start state := by
  suffices general : ∀ middle, Reached permitted step start middle →
      runs step middle actions = some state → Reached permitted step start state from
    general start Reached.start run
  clear run
  induction actions with
  | nil =>
      intro middle reached run
      injection run with same
      exact same ▸ reached
  | cons action rest inductionHypothesis =>
      intro middle reached run
      unfold runs at run
      cases result : step middle action with
      | none => simp [result] at run
      | some next =>
          rw [result] at run
          exact inductionHypothesis
            (fun state other member => allowed state other (List.mem_cons_of_mem _ member))
            next (reached.next (allowed middle action List.mem_cons_self) result) run

/-- What the steps of a run keep holds at its end. -/
theorem runs_invariant_mem {step : σ → α → Option σ} {invariant : σ → Prop}
    {actions : List α} (keeps : ∀ before action after, action ∈ actions → invariant before →
      step before action = some after → invariant after)
    {start state : σ}
    (starts : invariant start) (run : runs step start actions = some state) :
    invariant state := by
  induction actions generalizing start with
  | nil =>
      injection run with same
      exact same ▸ starts
  | cons action rest inductionHypothesis =>
      unfold runs at run
      cases result : step start action with
      | none => simp [result] at run
      | some next =>
          rw [result] at run
          exact inductionHypothesis
            (fun before other after member => keeps before other after
              (List.mem_cons_of_mem action member))
            (keeps start action next List.mem_cons_self starts result) run

/-- What steps keep holds at the end of every run. -/
theorem runs_invariant {step : σ → α → Option σ} {invariant : σ → Prop}
    (keeps : ∀ before action after, invariant before →
      step before action = some after → invariant after)
    {actions : List α} {start state : σ}
    (starts : invariant start) (run : runs step start actions = some state) :
    invariant state :=
  runs_invariant_mem (fun before action after _ => keeps before action after) starts run

/-- Execute a list of actions, stopping at the first one that is refused or not
permitted. -/
def permittedRuns (permitted : σ → α → Prop) [∀ state action, Decidable (permitted state action)]
    (step : σ → α → Option σ) : σ → List α → Option σ
  | state, [] => some state
  | state, action :: rest =>
      if permitted state action then
        match step state action with
        | none => none
        | some next => permittedRuns permitted step next rest
      else none

/-- The end of a permitted run is reached. -/
theorem Reached.of_permittedRuns {permitted : σ → α → Prop}
    [∀ state action, Decidable (permitted state action)] {step : σ → α → Option σ}
    {actions : List α} {start middle state : σ} (reached : Reached permitted step start middle)
    (run : permittedRuns permitted step middle actions = some state) :
    Reached permitted step start state := by
  induction actions generalizing middle with
  | nil =>
      injection run with same
      exact same ▸ reached
  | cons action rest inductionHypothesis =>
      unfold permittedRuns at run
      split at run
      case isFalse => cases run
      case isTrue allowed =>
      cases result : step middle action with
      | none => simp [result] at run
      | some next =>
          rw [result] at run
          exact inductionHypothesis (reached.next allowed result) run

/-- A value computed at the end of a permitted run is that of a reached state. -/
theorem Reached.of_evaluated {β : Type} {permitted : σ → α → Prop}
    [∀ state action, Decidable (permitted state action)] {step : σ → α → Option σ}
    {actions : List α} {start : σ} {value : σ → β} {result : β}
    (evaluated : (permittedRuns permitted step start actions).map value = some result) :
    ∃ state, Reached permitted step start state ∧ value state = result := by
  obtain ⟨state, run, same⟩ := Option.map_eq_some_iff.1 evaluated
  exact ⟨state, Reached.start.of_permittedRuns run, same⟩

/-- Each step of a run of a total machine has a property. -/
def EveryStep (property : σ → α → Prop) (next : σ → α → σ) : σ → List α → Prop
  | _, [] => True
  | state, action :: rest =>
      property state action ∧ EveryStep property next (next state action) rest

/-- Two properties of steps that agree wherever an invariant holds, and keep it, hold along the
same runs. -/
theorem everyStep_iff {property other : σ → α → Prop} {next : σ → α → σ} {permitted : α → Prop}
    (invariant : σ → Prop)
    (agree : ∀ state action, invariant state → permitted action →
      (property state action ↔ other state action))
    (keeps : ∀ state action, invariant state → permitted action → other state action →
      invariant (next state action))
    {state : σ} {actions : List α} (starts : invariant state)
    (allowed : ∀ action ∈ actions, permitted action) :
    EveryStep property next state actions ↔ EveryStep other next state actions := by
  induction actions generalizing state with
  | nil => exact Iff.rfl
  | cons action rest inductionHypothesis =>
      have first := allowed action List.mem_cons_self
      have others := fun later member => allowed later (List.mem_cons_of_mem action member)
      constructor
      · rintro ⟨step, later⟩
        have good := (agree state action starts first).mp step
        exact ⟨good, (inductionHypothesis (keeps state action starts first good) others).mp later⟩
      · rintro ⟨good, later⟩
        exact ⟨(agree state action starts first).mpr good,
          (inductionHypothesis (keeps state action starts first good) others).mpr later⟩

end Vmem
