import Mathlib.Tactic.TypeStar

/-!
# Runs

A system with states and actions, where an action may be impossible in a state.
`Run step allowed start state` says that `state` is reached from `start` by actions
that are possible and allowed where they happen.  What every step preserves, every
run preserves (`Run.invariant`).
-/

namespace Vosfs

variable {State Action : Type*} {step : State → Action → Option State}
  {allowed allowed' : State → Action → Prop} {start state : State}

/-- The states that are reached from `start`. -/
inductive Run (step : State → Action → Option State) (allowed : State → Action → Prop)
    (start : State) : State → Prop
  | refl : Run step allowed start start
  | next {state state' : State} {action : Action} (hrun : Run step allowed start state)
      (hallowed : allowed state action) (hstep : step state action = some state') :
      Run step allowed start state'

namespace Run

/-- What holds at the start and is kept by every allowed step holds throughout. -/
theorem invariant (Inv : State → Prop) (hstart : Inv start)
    (hkeep : ∀ {state action state'}, Inv state → allowed state action →
      step state action = some state' → Inv state')
    (hrun : Run step allowed start state) : Inv state := by
  induction hrun with
  | refl => exact hstart
  | next _ hallowed hstep ih => exact hkeep ih hallowed hstep

theorem trans {state' : State} (hfirst : Run step allowed start state)
    (hsecond : Run step allowed state state') : Run step allowed start state' := by
  induction hsecond with
  | refl => exact hfirst
  | next _ hallowed hstep ih => exact ih.next hallowed hstep

theorem mono (himp : ∀ {state action}, allowed state action → allowed' state action)
    (hrun : Run step allowed start state) : Run step allowed' start state := by
  induction hrun with
  | refl => exact refl
  | next _ hallowed hstep ih => exact ih.next (himp hallowed) hstep

/-- What comes to hold in the course of a run came with one of its steps. -/
theorem exists_step_of_not (P : State → Prop) (hstart : ¬ P start)
    (hrun : Run step allowed start state) (hnow : P state) :
    ∃ before action after, Run step allowed start before ∧ allowed before action ∧
      step before action = some after ∧ Run step allowed after state ∧ ¬ P before ∧ P after := by
  induction hrun with
  | refl => exact absurd hnow hstart
  | @next before after action hrun hallowed hstep ih =>
    by_cases hbefore : P before
    · obtain ⟨first, action', second, hfirst, hallowed', hstep', hsecond, hnot, hholds⟩ :=
        ih hbefore
      exact ⟨first, action', second, hfirst, hallowed', hstep', hsecond.next hallowed hstep, hnot,
        hholds⟩
    · exact ⟨before, action, after, hrun, hallowed, hstep, refl, hbefore, hnow⟩

end Run

/-- Perform actions one after another, each where it is possible and allowed. -/
def exec (step : State → Action → Option State) (allowed : State → Action → Prop)
    [∀ state action, Decidable (allowed state action)] : List Action → State → Option State
  | [], state => some state
  | action :: rest, state =>
    if allowed state action then
      match step state action with
      | none => none
      | some state' => exec step allowed rest state'
    else
      none

theorem Run.of_exec [∀ state action, Decidable (allowed state action)] {actions : List Action}
    (hexec : exec step allowed actions start = some state) : Run step allowed start state := by
  induction actions generalizing start with
  | nil => cases hexec; exact Run.refl
  | cons action rest ih =>
    unfold exec at hexec
    split at hexec
    next hallowed =>
      split at hexec
      next => cases hexec
      next state' hstep => exact (Run.refl.next hallowed hstep).trans (ih hexec)
    next => cases hexec

/-- A run is found by performing its actions. -/
theorem Run.exists_of_exec (step : State → Action → Option State)
    (allowed : State → Action → Prop) [∀ state action, Decidable (allowed state action)]
    (start : State) (actions : List Action) (check : State → Bool)
    (hexec : (exec step allowed actions start).any check = true) :
    ∃ state, Run step allowed start state ∧ check state = true := by
  obtain ⟨state, hstate, hcheck⟩ := Option.any_eq_true .. |>.mp hexec
  exact ⟨state, Run.of_exec hstate, hcheck⟩

/-- The same for a run and one more step, which need not be allowed. -/
theorem Run.exists_step_of_exec (step : State → Action → Option State)
    (allowed : State → Action → Prop) [∀ state action, Decidable (allowed state action)]
    (start : State) (actions : List Action) (action : Action) (check : State → State → Bool)
    (hexec : (exec step allowed actions start).any
      (fun state => (step state action).any (check state)) = true) :
    ∃ state state', Run step allowed start state ∧ step state action = some state' ∧
      check state state' = true := by
  obtain ⟨state, hstate, hnext⟩ := Option.any_eq_true .. |>.mp hexec
  obtain ⟨state', hstep, hcheck⟩ := Option.any_eq_true .. |>.mp hnext
  exact ⟨state, state', Run.of_exec hstate, hstep, hcheck⟩

/-- The same for a run that is continued, perhaps under another condition. -/
theorem Run.exists_later_of_exec (step : State → Action → Option State)
    (allowed allowed' : State → Action → Prop) [∀ state action, Decidable (allowed state action)]
    [∀ state action, Decidable (allowed' state action)]
    (start : State) (actions more : List Action) (check : State → State → Bool)
    (hexec : (exec step allowed actions start).any
      (fun state => (exec step allowed' more state).any (check state)) = true) :
    ∃ state state', Run step allowed start state ∧ Run step allowed' state state' ∧
      check state state' = true := by
  obtain ⟨state, hstate, hnext⟩ := Option.any_eq_true .. |>.mp hexec
  obtain ⟨state', hlater, hcheck⟩ := Option.any_eq_true .. |>.mp hnext
  exact ⟨state, state', Run.of_exec hstate, Run.of_exec hlater, hcheck⟩

end Vosfs
