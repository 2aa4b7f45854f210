import Mathlib

/-!
# Loops whose turns can fail

A turn of a loop fails, goes on with another state, or ends the loop with a result.
Running the loop with fuel gives a result only when no turn failed and the fuel
lasted, so that a result says both that the loop ends and that nothing went wrong on
the way.
-/

namespace Ktsense.Foundation

variable {State Result : Type*}

/-- Take turns until one ends the loop; nothing when a turn fails or the fuel is used
up. -/
def runLoop (turn : State → Option (State ⊕ Result)) : ℕ → State → Option Result
  | 0, _ => none
  | fuel + 1, state =>
      match turn state with
      | some (.inl next) => runLoop turn fuel next
      | some (.inr result) => some result
      | none => none

/-- Fuel for a whole list is one more than fuel for its tail. -/
theorem exists_fuel_of_cons {A : Type*} {here : A} {rest : List A} {fuel : ℕ}
    (hfuel : (here :: rest).length ≤ fuel) :
    ∃ less, fuel = less + 1 ∧ rest.length ≤ less := by
  cases fuel with
  | zero => exact absurd hfuel (Nat.not_succ_le_zero _)
  | succ less => exact ⟨less, rfl, Nat.le_of_succ_le_succ hfuel⟩

/-- What a turn does when the loop stands in a good state on its way to a result. -/
def Proceeds (turn : State → Option (State ⊕ Result)) (Inv : State → Prop)
    (measure : State → ℕ) (result : Result) (state : State) : Prop :=
  (∃ next, turn state = some (.inl next) ∧ Inv next ∧ measure next < measure state) ∨
    turn state = some (.inr result)

/-- A loop whose turns keep an invariant and lower a measure until they end with a
result ends with it, given more fuel than the measure. -/
theorem runLoop_eq_some {turn : State → Option (State ⊕ Result)} {Inv : State → Prop}
    {measure : State → ℕ} {result : Result}
    (hturn : ∀ state, Inv state → Proceeds turn Inv measure result state)
    {fuel : ℕ} {state : State} (hinv : Inv state) (hfuel : measure state < fuel) :
    runLoop turn fuel state = some result := by
  induction fuel generalizing state with
  | zero => exact absurd hfuel (Nat.not_lt_zero _)
  | succ fuel ih =>
      rw [runLoop]
      rcases hturn state hinv with ⟨next, hnext, hkept, hlower⟩ | hend
      · rw [hnext]
        exact ih hkept (by omega)
      · rw [hend]

end Ktsense.Foundation
