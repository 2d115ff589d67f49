import Mathlib

/-!
# Runs of labelled systems

A system is an initial state and a partial step function.  This module fixes
runs, the induction principles that lift a fact about one step to a whole run,
and forward simulation between two systems.
-/

namespace Dinamite.Transition

universe u v w x

/-- A labelled system.  An action without a step is not enabled. -/
structure System (State : Type u) (Action : Type v) where
  initial : State
  step : State → Action → Option State

namespace System

variable {State : Type u} {Action : Type v}
variable (system : System State Action)

/-- Take the listed actions in order; `none` once one is not enabled. -/
def run : State → List Action → Option State
  | state, [] => some state
  | state, action :: rest =>
      (system.step state action).bind fun next => run next rest

@[simp]
theorem run_nil (state : State) :
    system.run state [] = some state :=
  rfl

theorem run_cons_eq_some
    {state target : State} {action : Action} {rest : List Action} :
    system.run state (action :: rest) = some target ↔
      ∃ next, system.step state action = some next ∧
        system.run next rest = some target := by
  simp only [run, Option.bind_eq_some_iff]

theorem run_append_eq_some
    {source target : State} {earlier later : List Action} :
    system.run source (earlier ++ later) = some target ↔
      ∃ middle, system.run source earlier = some middle ∧
        system.run middle later = some target := by
  induction earlier generalizing source with
  | nil =>
      simp
  | cons action rest inductionHypothesis =>
      simp only [List.cons_append, run_cons_eq_some, inductionHypothesis]
      constructor
      · intro ran
        rcases ran with ⟨next, stepped, middle, before, after⟩
        exact ⟨middle, ⟨next, stepped, before⟩, after⟩
      · intro ran
        rcases ran with ⟨middle, ⟨next, stepped, before⟩, after⟩
        exact ⟨next, stepped, middle, before, after⟩

theorem run_singleton_eq_some
    {source target : State} {action : Action} :
    system.run source [action] = some target ↔
      system.step source action = some target := by
  simp [run_cons_eq_some]

/-- Induction on a run from its end, with the actions that led there. -/
theorem run_induction
    {source : State} (Motive : List Action → State → Prop)
    (start : Motive [] source)
    (extend : ∀ actions state action next,
      system.run source actions = some state →
      system.step state action = some next →
        Motive actions state → Motive (actions ++ [action]) next)
    {target : State} {actions : List Action}
    (valid : system.run source actions = some target) :
    Motive actions target := by
  induction actions using List.reverseRecOn generalizing target with
  | nil =>
      obtain rfl : source = target := by simpa using valid
      exact start
  | append_singleton actions action inductionHypothesis =>
      rcases system.run_append_eq_some.mp valid with ⟨state, reached, last⟩
      have stepped := system.run_singleton_eq_some.mp last
      exact extend actions state action target reached stepped
        (inductionHypothesis reached)

/-- Every action of the run satisfies `guard` in the state it is taken in. -/
def Guarded (guard : State → Action → Prop) : State → List Action → Prop
  | _, [] => True
  | state, action :: rest =>
      guard state action ∧
        ∀ next, system.step state action = some next →
          Guarded guard next rest

instance decidableGuarded
    (guard : State → Action → Prop)
    [∀ state action, Decidable (guard state action)] :
    ∀ (state : State) (actions : List Action),
      Decidable (system.Guarded guard state actions)
  | _, [] => .isTrue trivial
  | state, action :: rest =>
      have continued :
          Decidable (∀ next, system.step state action = some next →
            system.Guarded guard next rest) :=
        match system.step state action with
        | none => .isTrue nofun
        | some next =>
            match decidableGuarded guard next rest with
            | .isTrue holds =>
                .isTrue fun _ stepped => Option.some.inj stepped ▸ holds
            | .isFalse fails => .isFalse fun all => fails (all next rfl)
      @instDecidableAnd _ _ inferInstance continued

/-- The invariant rule for runs whose actions all satisfy `guard`. -/
theorem guarded_run_invariant
    {guard : State → Action → Prop} (Invariant : State → Prop)
    (preserved : ∀ state action next,
      guard state action →
      system.step state action = some next →
        Invariant state → Invariant next)
    {source target : State} {actions : List Action}
    (guarded : system.Guarded guard source actions)
    (valid : system.run source actions = some target)
    (holds : Invariant source) :
    Invariant target := by
  induction actions generalizing source with
  | nil =>
      obtain rfl : source = target := by simpa using valid
      exact holds
  | cons action rest inductionHypothesis =>
      rcases system.run_cons_eq_some.mp valid with ⟨next, stepped, continued⟩
      exact inductionHypothesis (guarded.2 next stepped) continued
        (preserved source action next guarded.1 stepped holds)

theorem guarded_append
    {guard : State → Action → Prop} {source : State}
    {earlier later : List Action}
    (guarded : system.Guarded guard source (earlier ++ later)) :
    system.Guarded guard source earlier ∧
      ∀ middle, system.run source earlier = some middle →
        system.Guarded guard middle later := by
  induction earlier generalizing source with
  | nil =>
      refine ⟨trivial, ?_⟩
      intro middle reached
      obtain rfl : source = middle := by simpa using reached
      exact guarded
  | cons action rest inductionHypothesis =>
      constructor
      · exact ⟨guarded.1, fun next stepped =>
          (inductionHypothesis (guarded.2 next stepped)).1⟩
      · intro middle reached
        rcases system.run_cons_eq_some.mp reached with
          ⟨next, stepped, continued⟩
        exact (inductionHypothesis (guarded.2 next stepped)).2
          middle continued

/-- The largest value a measure takes in the states of a run. -/
def peak (measure : State → Nat) : State → List Action → Nat
  | state, [] => measure state
  | state, action :: rest =>
      match system.step state action with
      | none => measure state
      | some next => max (measure state) (peak measure next rest)

theorem measure_le_peak
    (measure : State → Nat) (source : State) (actions : List Action) :
    measure source ≤ system.peak measure source actions := by
  cases actions with
  | nil => exact le_refl _
  | cons action rest =>
      simp only [peak]
      split
      · exact le_refl _
      · exact le_max_left _ _

/-- No step of a run leads above its peak. -/
theorem guarded_of_peak_le
    {measure : State → Nat} {bound : Nat}
    {source : State} {actions : List Action}
    (bounded : system.peak measure source actions ≤ bound) :
    system.Guarded
      (fun state action => ∀ next,
        system.step state action = some next → measure next ≤ bound)
      source actions := by
  induction actions generalizing source with
  | nil => trivial
  | cons action rest inductionHypothesis =>
      have continued :
          ∀ next, system.step source action = some next →
            system.peak measure next rest ≤ bound := by
        intro next stepped
        simp only [peak, stepped] at bounded
        exact (le_max_right _ _).trans bounded
      refine ⟨?_, fun next stepped =>
        inductionHypothesis (continued next stepped)⟩
      intro next stepped
      exact (system.measure_le_peak measure next rest).trans
        (continued next stepped)

/-- Two guards of one run. -/
theorem guarded_and
    {guard other : State → Action → Prop}
    {source : State} {actions : List Action}
    (guarded : system.Guarded guard source actions)
    (otherGuarded : system.Guarded other source actions) :
    system.Guarded (fun state action => guard state action ∧
      other state action) source actions := by
  induction actions generalizing source with
  | nil => trivial
  | cons action rest inductionHypothesis =>
      exact ⟨⟨guarded.1, otherGuarded.1⟩, fun next stepped =>
        inductionHypothesis (guarded.2 next stepped)
          (otherGuarded.2 next stepped)⟩

/-- A guard that looks at the actions alone. -/
theorem guarded_of_forall
    {guard : Action → Prop} {source : State} {actions : List Action}
    (all : ∀ action ∈ actions, guard action) :
    system.Guarded (fun _ action => guard action) source actions := by
  induction actions generalizing source with
  | nil => trivial
  | cons action rest inductionHypothesis =>
      exact ⟨all action List.mem_cons_self, fun next _ =>
        inductionHypothesis fun later member =>
          all later (List.mem_cons_of_mem _ member)⟩

/-- A predicate kept by every step is kept by every run. -/
theorem run_invariant
    (Invariant : State → Prop)
    (preserved : ∀ state action next,
      system.step state action = some next →
        Invariant state → Invariant next)
    {source target : State} {actions : List Action}
    (valid : system.run source actions = some target)
    (holds : Invariant source) :
    Invariant target := by
  have guarded :
      system.Guarded (fun _ _ => True) source actions :=
    system.guarded_of_forall fun _ _ => trivial
  apply system.guarded_run_invariant Invariant ?_ guarded valid holds
  intro state action next _ stepped reached
  exact preserved state action next stepped reached

end System

/-- A finite run from `source`, with the state it ends in. -/
structure Run {State : Type u} {Action : Type v}
    (system : System State Action) (source : State) where
  actions : List Action
  final : State
  valid : system.run source actions = some final

/-- A finite run from the initial state. -/
abbrev Execution {State : Type u} {Action : Type v}
    (system : System State Action) :=
  Run system system.initial

/-! ## Extending a run -/

section Extend

variable {State : Type u} {Action : Type v}
variable {system : System State Action} {source : State}

/-- The action is taken if it can be. -/
def Run.attempt (run : Run system source) (action : Action) :
    Run system source :=
  match stepped : system.step run.final action with
  | some next =>
      ⟨run.actions ++ [action], next,
        system.run_append_eq_some.mpr
          ⟨run.final, run.valid, system.run_singleton_eq_some.mpr stepped⟩⟩
  | none => run

theorem Run.attempt_of_step
    {run : Run system source} {action : Action} {next : State}
    (stepped : system.step run.final action = some next) :
    (run.attempt action).final = next := by
  unfold attempt
  split
  · rename_i other isOther
    exact Option.some.inj (isOther.symm.trans stepped)
  · rename_i isNone
    rw [isNone] at stepped
    cases stepped

/-- What every step from the run keeps is kept. -/
theorem Run.attempt_cases
    (run : Run system source) (action : Action) :
    (run.attempt action).final = run.final ∨
      system.step run.final action = some (run.attempt action).final := by
  cases stepped : system.step run.final action with
  | some next =>
      rw [Run.attempt_of_step stepped]
      exact Or.inr rfl
  | none =>
      left
      unfold attempt
      split
      · rename_i isSome
        rw [isSome] at stepped
        cases stepped
      · rfl

end Extend

/-- Forward simulation: each concrete step is matched by finitely many
abstract steps, none included. -/
structure Simulation
    {State : Type u} {Action : Type v}
    {AbstractState : Type w} {AbstractAction : Type x}
    (concrete : System State Action)
    (abstract : System AbstractState AbstractAction) where
  Related : State → AbstractState → Prop
  initial : Related concrete.initial abstract.initial
  step : ∀ state action next image,
    concrete.step state action = some next →
    Related state image →
      ∃ moves target,
        abstract.run image moves = some target ∧ Related next target

namespace Simulation

variable {State : Type u} {Action : Type v}
variable {AbstractState : Type w} {AbstractAction : Type x}
variable {concrete : System State Action}
variable {abstract : System AbstractState AbstractAction}

theorem run
    (simulation : Simulation concrete abstract)
    {source target : State} {actions : List Action}
    {image : AbstractState}
    (valid : concrete.run source actions = some target)
    (related : simulation.Related source image) :
    ∃ moves final,
      abstract.run image moves = some final ∧
        simulation.Related target final := by
  induction actions generalizing source image with
  | nil =>
      obtain rfl : source = target := by simpa using valid
      exact ⟨[], image, rfl, related⟩
  | cons action rest inductionHypothesis =>
      rcases concrete.run_cons_eq_some.mp valid with ⟨next, stepped, continued⟩
      rcases simulation.step source action next image stepped related with
        ⟨first, middle, firstRun, middleRelated⟩
      rcases inductionHypothesis continued middleRelated with
        ⟨second, final, secondRun, finalRelated⟩
      exact ⟨first ++ second, final,
        abstract.run_append_eq_some.mpr ⟨middle, firstRun, secondRun⟩,
        finalRelated⟩

/-- Every concrete execution ends related to some abstract execution's end. -/
theorem exists_execution
    (simulation : Simulation concrete abstract)
    (execution : Execution concrete) :
    ∃ image : Execution abstract,
      simulation.Related execution.final image.final := by
  rcases simulation.run execution.valid simulation.initial with
    ⟨moves, final, valid, related⟩
  exact ⟨⟨moves, final, valid⟩, related⟩

end Simulation

end Dinamite.Transition
