import Mathlib

/-!
# Layers around a root

What is reached from the values at a root in so many steps, and how far a value
is: the least number of steps it is reached in.
-/

namespace Ktsense.Foundation

variable {A : Type*}

/-- A value at the root is one step away, and what follows a value one step
more. -/
inductive Layer (root : A → Prop) (next : A → A → Prop) : ℕ → A → Prop
  | first {value : A} (hroot : root value) : Layer root next 1 value
  | further {count : ℕ} {before value : A} (hbefore : Layer root next count before)
      (hnext : next before value) : Layer root next (count + 1) value

variable {root : A → Prop} {next : A → A → Prop} {count : ℕ} {value : A}

theorem Layer.positive (hlayer : Layer root next count value) : 1 ≤ count := by
  cases hlayer with
  | first _ => exact le_rfl
  | further _ _ => omega

/-- A larger graph has the larger layers. -/
theorem Layer.mono {moreRoot : A → Prop} {moreNext : A → A → Prop}
    (hroot : ∀ value, root value → moreRoot value)
    (hnext : ∀ before value, next before value → moreNext before value)
    (hlayer : Layer root next count value) : Layer moreRoot moreNext count value := by
  induction hlayer with
  | first hvalue => exact .first (hroot _ hvalue)
  | further _ hstep ih => exact .further ih (hnext _ _ hstep)

/-- The least number of steps a value is reached in. -/
noncomputable def distance (root : A → Prop) (next : A → A → Prop) (value : A) : ℕ :=
  sInf { count | Layer root next count value }

theorem distance_eq (hlayer : Layer root next count value)
    (hleast : ∀ fewer, Layer root next fewer value → count ≤ fewer) :
    distance root next value = count := by
  apply le_antisymm
  · exact Nat.sInf_le hlayer
  · have hmem : distance root next value ∈ { count | Layer root next count value } :=
      Nat.sInf_mem ⟨count, hlayer⟩
    exact hleast _ hmem

end Ktsense.Foundation
