import Mathlib

/-!
# Bounded while loops

A `while` loop of the source is a partial step on its state: the step is
undefined exactly when the loop exits.  Running it with fuel keeps the model
executable, and `whileLoop_spec` shows that fuel at least as large as a
decreasing measure is never noticed: the loop exits, and it exits in a state
that still satisfies the invariant.
-/

namespace Ktsense.Foundation

variable {State : Type*}

/-- Repeat `step` until it is undefined, at most `fuel` times. -/
def whileLoop (step : State → Option State) : ℕ → State → State
  | 0, state => state
  | fuel + 1, state =>
      match step state with
      | none => state
      | some next => whileLoop step fuel next

theorem whileLoop_of_exit {step : State → Option State} {state : State}
    (hexit : step state = none) (fuel : ℕ) :
    whileLoop step fuel state = state := by
  cases fuel with
  | zero => rfl
  | succ fuel => simp only [whileLoop, hexit]

/-- An invariant kept by every step holds when the loop exits, and a measure
that every step lowers bounds the fuel the loop needs. -/
theorem whileLoop_spec {step : State → Option State} {Inv : State → Prop}
    {measure : State → ℕ}
    (hstep : ∀ state next, Inv state → step state = some next →
      Inv next ∧ measure next < measure state)
    (fuel : ℕ) {state : State} (hinv : Inv state)
    (hfuel : measure state ≤ fuel) :
    Inv (whileLoop step fuel state) ∧
      step (whileLoop step fuel state) = none := by
  induction fuel generalizing state with
  | zero =>
      refine ⟨hinv, ?_⟩
      cases hnext : step state with
      | none => exact hnext
      | some next =>
          have hlower := (hstep state next hinv hnext).2
          omega
  | succ fuel ih =>
      cases hnext : step state with
      | none =>
          rw [whileLoop_of_exit hnext]
          exact ⟨hinv, hnext⟩
      | some next =>
          obtain ⟨hkept, hlower⟩ := hstep state next hinv hnext
          simp only [whileLoop, hnext]
          exact ih hkept (by omega)

end Ktsense.Foundation
