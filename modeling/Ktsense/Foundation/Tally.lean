import Ktsense.Foundation.OrderedMap

/-!
# Counting how often keys occur

A map from keys to counts that grows by one for each key it is given.  It holds the
number of occurrences of each key that occurs, in whatever order they came.
-/

namespace Ktsense.Foundation

variable {K : Type*} [LinearOrder K]

namespace OrderedMap

/-- One more occurrence of a key. -/
def bump (counts : OrderedMap K ℕ) (key : K) : OrderedMap K ℕ :=
  counts.alter key fun count => count.getD 0 + 1

/-- How often a key was counted. -/
def countOf (counts : OrderedMap K ℕ) (key : K) : ℕ := (counts.get? key).getD 0

theorem get?_foldl_bump (counts : OrderedMap K ℕ) (keys : List K) (key : K) :
    (keys.foldl bump counts).get? key =
      if key ∈ keys then some (counts.countOf key + keys.count key) else counts.get? key := by
  induction keys generalizing counts with
  | nil => simp
  | cons first rest ih =>
      rw [List.foldl_cons, ih, countOf, bump, get?_alter, countOf]
      by_cases hfirst : key = first
      · subst hfirst
        by_cases hrest : key ∈ rest
        · simp [hrest, Nat.add_assoc, Nat.add_comm]
        · simp [hrest, List.count_eq_zero_of_not_mem hrest]
      · have hcount : (first :: rest).count key = rest.count key :=
          List.count_cons_of_ne (Ne.symm hfirst)
        simp only [hcount, List.mem_cons, hfirst, false_or, if_false]

theorem countOf_foldl_bump (counts : OrderedMap K ℕ) (keys : List K) (key : K) :
    (keys.foldl bump counts).countOf key = counts.countOf key + keys.count key := by
  rw [countOf, get?_foldl_bump]
  split_ifs with hmem
  · rfl
  · rw [List.count_eq_zero_of_not_mem hmem]
    rfl

/-- The order of the keys does not matter. -/
theorem foldl_bump_perm (counts : OrderedMap K ℕ) {keys other : List K}
    (hperm : keys.Perm other) : keys.foldl bump counts = other.foldl bump counts := by
  apply ext_get?
  intro key
  simp only [get?_foldl_bump, hperm.count_eq, hperm.mem_iff]

end OrderedMap

end Ktsense.Foundation
