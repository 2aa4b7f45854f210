import Mathlib

/-!
# Runs of a transition system

States reached from an initial state by any number of steps, and the rule for
invariants over them.
-/

namespace Ktsense.Foundation

open Relation

variable {State : Type*}

/-- Reached from an initial state in any number of steps. -/
def Reachable (initial : State → Prop) (step : State → State → Prop)
    (state : State) : Prop :=
  ∃ start, initial start ∧ ReflTransGen step start state

theorem Reachable.start {initial : State → Prop} {step : State → State → Prop}
    {state : State} (hinitial : initial state) : Reachable initial step state :=
  ⟨state, hinitial, ReflTransGen.refl⟩

theorem Reachable.tail {initial : State → Prop} {step : State → State → Prop}
    {state next : State} (hreach : Reachable initial step state)
    (hstep : step state next) : Reachable initial step next := by
  obtain ⟨start, hinitial, hsteps⟩ := hreach
  exact ⟨start, hinitial, hsteps.tail hstep⟩

/-- What holds initially and is kept by every step holds in every run. -/
theorem Reachable.invariant {initial Inv : State → Prop}
    {step : State → State → Prop}
    (hinitial : ∀ state, initial state → Inv state)
    (hstep : ∀ state next, Inv state → step state next → Inv next)
    {state : State} (hreach : Reachable initial step state) : Inv state := by
  obtain ⟨start, hstart, hsteps⟩ := hreach
  induction hsteps with
  | refl => exact hinitial start hstart
  | tail _ hlast ih => exact hstep _ _ ih hlast

end Ktsense.Foundation
