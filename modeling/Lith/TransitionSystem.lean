import Mathlib.Tactic

/-!
# Transition systems and inductive invariants

States, labelled steps, and the states that some run reaches.  A run whose
steps all satisfy a condition is a run of the restricted system, so results
about such runs are results about its reachable states.
-/

namespace Lith

structure TransitionSystem (State Label : Type*) where
  start : State → Prop
  step : State → Label → State → Prop

namespace TransitionSystem

variable {State Label : Type*} {system : TransitionSystem State Label}

inductive Reachable (system : TransitionSystem State Label) : State → Prop where
  | start {state : State} (hstart : system.start state) : Reachable system state
  | next {state after : State} (hreach : Reachable system state)
      (label : Label) (hstep : system.step state label after) :
      Reachable system after

/-- The runs in which every step meets `allowed`. -/
def restrict (system : TransitionSystem State Label)
    (allowed : State → Label → Prop) : TransitionSystem State Label where
  start := system.start
  step := fun state label after =>
    allowed state label ∧ system.step state label after

theorem Reachable.of_restrict {allowed : State → Label → Prop} {state : State}
    (hreach : (system.restrict allowed).Reachable state) :
    system.Reachable state := by
  induction hreach with
  | start hstart => exact .start hstart
  | next _ label hstep ih => exact .next ih label hstep.2

theorem Reachable.invariant {P : State → Prop} {state : State}
    (hreach : system.Reachable state)
    (hstart : ∀ first, system.start first → P first)
    (hstep : ∀ before label after, P before →
      system.step before label after → P after) : P state := by
  induction hreach with
  | start h => exact hstart _ h
  | next _ _ h ih => exact hstep _ _ _ ih h

/-- An invariant may be proved along another one that is already known. -/
theorem Reachable.invariant_along {P : State → Prop} {state : State}
    (hreach : system.Reachable state)
    (hstart : ∀ first, system.start first → P first)
    (hstep : ∀ before label after, system.Reachable before → P before →
      system.step before label after → P after) : P state := by
  induction hreach with
  | start h => exact hstart _ h
  | next hbefore _ h ih => exact hstep _ _ _ hbefore ih h

end TransitionSystem

end Lith
