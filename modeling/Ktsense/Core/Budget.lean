import Ktsense.Core.Render
import Ktsense.Foundation.Spending

/-!
# Emission within a token budget

`budget.rs` and the estimator of `lib.rs`.  Items are emitted in the order
given until one would not fit; the bound that is reported is the sum of their
estimates.
-/

namespace Ktsense.Core

open Ktsense.Foundation

/-- `TokenEstimator::estimate`. -/
abbrev TokenEstimator := String → ℕ

/-- The byte-ratio estimate, `len / 3.6` rounded up, in exact arithmetic. -/
def byteRatioEstimate : TokenEstimator := fun text =>
  (5 * byteLength text + 17) / 18

structure BudgetedEmission (T : Type*) where
  items : List T
  tokenUpperBound : ℕ
  deriving Repr

/-- The bound of `usize`, past which `checked_add` fails. -/
def usizeBound : ℕ := 2 ^ 64

/-- A running total that did not overflow and is within the budget. -/
def fits (budget total : ℕ) : Bool := total < usizeBound && total ≤ budget

theorem fits_zero (budget : ℕ) : fits budget 0 = true := by simp [fits, usizeBound]

theorem fits_of_le (budget total smaller : ℕ) (hle : smaller ≤ total)
    (hfits : fits budget total = true) : fits budget smaller = true := by
  simp only [fits, Bool.and_eq_true, decide_eq_true_eq] at hfits ⊢
  exact ⟨hle.trans_lt hfits.1, hle.trans hfits.2⟩

variable {T : Type*} (text : T → String) (items : List T) (budget : ℕ)
  (estimator : TokenEstimator)

def emitWithinBudget : BudgetedEmission T :=
  let emission := spend (fits budget) (fun item => estimator (text item)) 0 items
  ⟨emission.1, emission.2⟩

theorem emitted_isPrefix :
    (emitWithinBudget text items budget estimator).items <+: items :=
  spend_isPrefix _ _ 0 items

theorem tokenUpperBound_eq_sum :
    (emitWithinBudget text items budget estimator).tokenUpperBound =
      ((emitWithinBudget text items budget estimator).items.map
        fun item => estimator (text item)).sum := by
  have htotal := spend_total (fits budget)
    (fun item => estimator (text item)) 0 items
  rwa [Nat.zero_add] at htotal

theorem tokenUpperBound_le_budget :
    (emitWithinBudget text items budget estimator).tokenUpperBound ≤ budget := by
  have hfits := admits_spend (fits budget)
    (fun item => estimator (text item)) (fits_zero budget) items
  simp only [fits, Bool.and_eq_true, decide_eq_true_eq] at hfits
  exact hfits.2

/-- A larger budget emits everything a smaller one does. -/
theorem emitted_isPrefix_of_le {larger : ℕ} (hle : budget ≤ larger) :
    (emitWithinBudget text items budget estimator).items <+:
      (emitWithinBudget text items larger estimator).items := by
  apply spend_isPrefix_of_le
  intro total hfits
  simp only [fits, Bool.and_eq_true, decide_eq_true_eq] at hfits ⊢
  exact ⟨hfits.1, hfits.2.trans hle⟩

/-- The longest prefix of the items whose estimates add up to a sum that fits. -/
def affordable : List T :=
  longestAdmitted (fits budget) (fun item => estimator (text item)) items

theorem emitted_eq_affordable :
    (emitWithinBudget text items budget estimator).items =
      affordable text items budget estimator :=
  spend_eq_longestAdmitted _ _ (fits_of_le budget) (fits_zero budget) items

variable {items} in
/-- The items at the front are emitted exactly when all of them fit. -/
theorem isPrefix_emitted_iff {front : List T} (hfront : front <+: items) :
    front <+: (emitWithinBudget text items budget estimator).items ↔
      fits budget (front.map fun item => estimator (text item)).sum = true := by
  have htaken := isPrefix_spend_iff (fits budget) (fun item => estimator (text item))
    (fits_of_le budget) (fits_zero budget) hfront
  rwa [Nat.zero_add] at htaken

/-! ## The longest affordable prefix -/

/-- Rounding two texts up on their own costs at least what rounding them up together
does. -/
theorem byteRatioEstimate_append_le (left right : String) :
    byteRatioEstimate (left ++ right) ≤
      byteRatioEstimate left + byteRatioEstimate right := by
  simp only [byteRatioEstimate, byteLength_append]
  omega

theorem byteRatioEstimate_join_le (texts : List String) :
    byteRatioEstimate (String.join texts) ≤ (texts.map byteRatioEstimate).sum := by
  induction texts with
  | nil => decide
  | cons first rest ih =>
      calc
        byteRatioEstimate (String.join (first :: rest))
          ≤ byteRatioEstimate first + byteRatioEstimate (String.join rest) := by
            rw [String.join_cons]
            exact byteRatioEstimate_append_le first (String.join rest)
        _ ≤ byteRatioEstimate first + (rest.map byteRatioEstimate).sum :=
          Nat.add_le_add_left ih _
        _ = ((first :: rest).map byteRatioEstimate).sum := by
          rw [List.map_cons, List.sum_cons]

theorem fits_of_isPrefix_emitted {front : List T}
    (hfront : front <+: (emitWithinBudget text items budget estimator).items) :
    fits budget (front.map fun item => estimator (text item)).sum = true :=
  (isPrefix_emitted_iff text budget estimator
    (hfront.trans (emitted_isPrefix text items budget estimator))).1 hfront

/-- What is emitted is the longest prefix of the items every prefix of which has
estimates that add up to no more than the budget, a sum past `usize` being more than
any; the bound is the sum of what is emitted, within the budget, and under the
byte-ratio estimator not below the estimate of the emitted texts joined. -/
theorem emission_is_longest_affordable :
    (emitWithinBudget text items budget estimator).items <+: items ∧
      (∀ front, front <+: items →
        (front <+: (emitWithinBudget text items budget estimator).items ↔
          ∀ shorter, shorter <+: front →
            fits budget (shorter.map fun item => estimator (text item)).sum = true)) ∧
      (emitWithinBudget text items budget estimator).tokenUpperBound =
        ((emitWithinBudget text items budget estimator).items.map
          fun item => estimator (text item)).sum ∧
      (emitWithinBudget text items budget estimator).tokenUpperBound ≤ budget ∧
      byteRatioEstimate (String.join
          ((emitWithinBudget text items budget byteRatioEstimate).items.map text)) ≤
        (emitWithinBudget text items budget byteRatioEstimate).tokenUpperBound := by
  refine ⟨emitted_isPrefix text items budget estimator, ?_,
    tokenUpperBound_eq_sum text items budget estimator,
    tokenUpperBound_le_budget text items budget estimator, ?_⟩
  · intro front hfront
    constructor
    · intro hemitted shorter hshorter
      exact fits_of_isPrefix_emitted text items budget estimator (hshorter.trans hemitted)
    · intro hall
      exact (isPrefix_emitted_iff text budget estimator hfront).2
        (hall front List.prefix_rfl)
  · have hjoin := byteRatioEstimate_join_le
      ((emitWithinBudget text items budget byteRatioEstimate).items.map text)
    rw [List.map_map] at hjoin
    rw [tokenUpperBound_eq_sum text items budget byteRatioEstimate]
    exact hjoin

theorem tokenUpperBound_eq_affordable :
    (emitWithinBudget text items budget estimator).tokenUpperBound =
      ((affordable text items budget estimator).map
        fun item => estimator (text item)).sum := by
  rw [← emitted_eq_affordable]
  exact tokenUpperBound_eq_sum text items budget estimator

end Ktsense.Core
