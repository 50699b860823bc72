/-
This file sets up the runs of a deterministic transition system with a partial step
function. An action that is not enabled has no successor, so a run is a list of actions
each of which is enabled where it is taken. The rules everything else is proved with are
that what every step keeps every run keeps, also where this holds only for steps that meet
a condition, and that such a condition can be the exact one.
-/

import Mathlib

namespace Transition

section Runs

variable {State Action : Type*} (step : State → Action → Option State)

/-- The state that a list of actions leads to, when every action is enabled in its turn. -/
def run (start : State) (actions : List Action) : Option State :=
  actions.foldlM step start

@[simp]
theorem run_nil (start : State) : run step start [] = some start := rfl

theorem run_cons (start : State) (action : Action) (rest : List Action) :
    run step start (action :: rest) = (step start action).bind fun next => run step next rest :=
  rfl

theorem run_append (start : State) (first second : List Action) :
    run step start (first ++ second) =
      (run step start first).bind fun middle => run step middle second := by
  unfold run
  rw [List.foldlM_append]
  rfl

/-- The first action of a run is enabled, and the rest of the run goes on from there. -/
theorem run_cons_eq_some {start final : State} {action : Action} {rest : List Action} :
    run step start (action :: rest) = some final ↔
      ∃ next, step start action = some next ∧ run step next rest = some final := by
  rw [run_cons, Option.bind_eq_some_iff]

/-- What holds at the start and is kept by every step holds at the end of every run. -/
theorem run_invariant {step : State → Action → Option State} (Good : State → Prop)
    (kept : ∀ state action next, step state action = some next → Good state → Good next)
    {start final : State} {actions : List Action}
    (runs : run step start actions = some final) (good : Good start) : Good final := by
  induction actions generalizing start with
  | nil => simp_all
  | cons action rest inductionHypothesis => grind [run_cons_eq_some]

/-- Every action of a run meets a condition where it is taken. -/
def Respects (Condition : State → Action → Prop) : State → List Action → Prop
  | _, [] => True
  | start, action :: rest =>
    Condition start action ∧ ∀ next, step start action = some next → Respects Condition next rest

instance decidableRespects (Condition : State → Action → Prop)
    [∀ state action, Decidable (Condition state action)] :
    ∀ start actions, Decidable (Respects step Condition start actions)
  | _, [] => .isTrue trivial
  | start, action :: rest =>
    haveI : Decidable (∀ next, step start action = some next →
        Respects step Condition next rest) :=
      match step start action with
      | none => .isTrue fun _ stepped => nomatch stepped
      | some next =>
        haveI := decidableRespects Condition next rest
        decidable_of_iff (Respects step Condition next rest)
          ⟨fun respects _ same => Option.some_inj.mp same ▸ respects, fun all => all next rfl⟩
    inferInstanceAs (Decidable (_ ∧ _))

/-- Every state of a run has a property. -/
def Along (Good : State → Prop) : State → List Action → Prop
  | start, [] => Good start
  | start, action :: rest =>
    Good start ∧ ∀ next, step start action = some next → Along Good next rest

/-- What holds at the start and is kept by every step that meets a condition holds at the end of
every run whose steps meet it. -/
theorem run_invariant_of_respects {step : State → Action → Option State}
    {Condition : State → Action → Prop} (Good : State → Prop)
    (kept : ∀ state action next, step state action = some next → Condition state action →
      Good state → Good next)
    {start final : State} {actions : List Action} (runs : run step start actions = some final)
    (respects : Respects step Condition start actions) (good : Good start) : Good final := by
  induction actions generalizing start with
  | nil => simp_all
  | cons action rest inductionHypothesis =>
    obtain ⟨next, stepped, runs⟩ := (run_cons_eq_some step).mp runs
    exact inductionHypothesis runs (respects.2 next stepped)
      (kept start action next stepped respects.1 good)

/-- A condition that keeps a strong property of the states, and that every step to a good state
meets from a strong one, holds of all steps of a run exactly when the run goes through good states
only. -/
theorem along_iff_respects_of_strong {step : State → Action → Option State}
    {Condition : State → Action → Prop} {Strong Good : State → Prop}
    (good : ∀ state, Strong state → Good state)
    (kept : ∀ state action next, step state action = some next → Strong state →
      Condition state action → Strong next)
    (needed : ∀ state action next, step state action = some next → Strong state → Good next →
      Condition state action)
    {start final : State} {actions : List Action} (runs : run step start actions = some final)
    (strong : Strong start) :
    Along step Good start actions ↔ Respects step Condition start actions := by
  induction actions generalizing start with
  | nil => exact ⟨fun _ => trivial, fun _ => good start strong⟩
  | cons action rest inductionHypothesis =>
    obtain ⟨next, stepped, runs⟩ := (run_cons_eq_some step).mp runs
    have same : ∀ {other}, step start action = some other → other = next := fun isOther =>
      Option.some_inj.mp (isOther.symm.trans stepped)
    constructor
    · rintro ⟨_, along⟩
      have goodNext : Good next := by
        have alongNext := along next stepped
        cases rest with
        | nil => exact alongNext
        | cons => exact alongNext.1
      have condition := needed start action next stepped strong goodNext
      refine ⟨condition, fun other isOther => ?_⟩
      rw [same isOther]
      exact (inductionHypothesis runs (kept start action next stepped strong condition)).mp
        (along next stepped)
    · rintro ⟨condition, respects⟩
      refine ⟨good start strong, fun other isOther => ?_⟩
      rw [same isOther]
      exact (inductionHypothesis runs (kept start action next stepped strong condition)).mpr
        (respects next stepped)

/-- If a step from a good state leads to a good state exactly when it meets a condition, then a run
goes through good states only exactly when all its steps meet it. -/
theorem along_iff_respects {step : State → Action → Option State}
    {Condition : State → Action → Prop} {Invariant Good : State → Prop}
    (kept : ∀ state action next, step state action = some next → Invariant state → Invariant next)
    (exactly : ∀ state action next, step state action = some next → Invariant state → Good state →
      (Good next ↔ Condition state action))
    {start final : State} {actions : List Action} (runs : run step start actions = some final)
    (invariant : Invariant start) (good : Good start) :
    Along step Good start actions ↔ Respects step Condition start actions :=
  along_iff_respects_of_strong (fun _ strong => strong.2)
    (fun state action next stepped strong condition =>
      And.intro (kept state action next stepped strong.1)
        ((exactly state action next stepped strong.1 strong.2).mpr condition))
    (fun state action next stepped strong =>
      (exactly state action next stepped strong.1 strong.2).mp)
    runs ⟨invariant, good⟩

end Runs

end Transition
