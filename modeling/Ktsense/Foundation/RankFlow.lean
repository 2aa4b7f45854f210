import Mathlib

/-!
# Rank flowing along the links of a finite graph

In a round every node passes a share of its rank to its targets in equal parts.
What nodes without targets hold, and the undamped remainder, is spread evenly
over all nodes, so that a round neither makes nor loses rank.
-/

namespace Ktsense.Foundation

/-- Finitely many nodes and, for each of them, the nodes it links to. -/
@[ext]
structure Links (V : Type*) where
  nodes : Finset V
  targets : V → Finset V
  targets_subset : ∀ source ∈ nodes, targets source ⊆ nodes

namespace Links

variable {V K : Type*} [DecidableEq V] [Field K] (links : Links V) (damping : K)

/-- The rank held by the nodes that link nowhere. -/
def danglingMass (scores : V → K) : K :=
  ∑ node ∈ links.nodes with links.targets node = ∅, scores node

/-- What a round gives to every node alike. -/
def base (scores : V → K) : K :=
  (1 - damping) / links.nodes.card +
    damping * links.danglingMass scores / links.nodes.card

/-- What a round gives to each target of one node. -/
def share (scores : V → K) (source : V) : K :=
  damping * scores source / (links.targets source).card

/-- The scores after one round. -/
def flow (scores : V → K) (node : V) : K :=
  links.base damping scores +
    ∑ source ∈ links.nodes with node ∈ links.targets source,
      links.share damping scores source

/-- Every node starts with the same rank. -/
def uniform (_ : V) : K := 1 / links.nodes.card

variable {links damping}

omit [DecidableEq V] in
theorem sum_uniform [CharZero K] (hnodes : links.nodes.Nonempty) :
    ∑ node ∈ links.nodes, (links.uniform node : K) = 1 := by
  have hcard : (links.nodes.card : K) ≠ 0 := by
    simpa using hnodes.ne_empty
  simp [uniform, hcard]

/-- What is given to all alike adds up to the undamped part and the rank of the
nodes that link nowhere. -/
theorem card_mul_base [CharZero K] (hnodes : links.nodes.Nonempty)
    (scores : V → K) :
    links.nodes.card * links.base damping scores =
      (1 - damping) + damping * links.danglingMass scores := by
  have hcard : (links.nodes.card : K) ≠ 0 := by
    simpa using hnodes.ne_empty
  rw [base, mul_add, mul_div_cancel₀ _ hcard, mul_div_cancel₀ _ hcard]

omit [DecidableEq V] in
/-- The shares of one node's targets add up to its damped rank. -/
theorem card_mul_share [CharZero K] {source : V}
    (hlinked : links.targets source ≠ ∅) (scores : V → K) :
    (links.targets source).card * links.share damping scores source =
      damping * scores source := by
  have hcard : ((links.targets source).card : K) ≠ 0 := by
    simpa using hlinked
  rw [share, mul_div_cancel₀ _ hcard]

/-- All that is received along links is what the linking nodes gave. -/
theorem sum_received [CharZero K] (scores : V → K) :
    ∑ node ∈ links.nodes,
        ∑ source ∈ links.nodes with node ∈ links.targets source,
          links.share damping scores source =
      damping *
        ∑ source ∈ links.nodes with links.targets source ≠ ∅, scores source := by
  calc
    _ = ∑ node ∈ links.nodes, ∑ source ∈ links.nodes,
          if node ∈ links.targets source then links.share damping scores source
          else 0 := by simp only [Finset.sum_filter]
    _ = ∑ source ∈ links.nodes, ∑ node ∈ links.nodes,
          if node ∈ links.targets source then links.share damping scores source
          else 0 := Finset.sum_comm
    _ = ∑ source ∈ links.nodes,
          if links.targets source ≠ ∅ then damping * scores source else 0 := by
        refine Finset.sum_congr rfl fun source hsource => ?_
        rw [← Finset.sum_filter, Finset.filter_mem_eq_inter,
          Finset.inter_eq_right.mpr (links.targets_subset source hsource),
          Finset.sum_const, nsmul_eq_mul]
        by_cases hlinked : links.targets source = ∅
        · simp [hlinked]
        · rw [if_pos hlinked, card_mul_share hlinked]
    _ = _ := by rw [← Finset.sum_filter, Finset.mul_sum]

/-- A round keeps the damped part of the rank there is and adds the undamped
part. -/
theorem sum_flow [CharZero K] (hnodes : links.nodes.Nonempty) (scores : V → K) :
    ∑ node ∈ links.nodes, links.flow damping scores node =
      (1 - damping) + damping * ∑ node ∈ links.nodes, scores node := by
  have hsplit : ∑ node ∈ links.nodes, scores node =
      links.danglingMass scores +
        ∑ source ∈ links.nodes with links.targets source ≠ ∅, scores source :=
    (Finset.sum_filter_add_sum_filter_not _ _ _).symm
  simp only [flow]
  rw [Finset.sum_add_distrib, Finset.sum_const, nsmul_eq_mul,
    card_mul_base hnodes, sum_received, hsplit, mul_add, add_assoc]

theorem sum_flow_eq_one [CharZero K] (hnodes : links.nodes.Nonempty)
    {scores : V → K} (hscores : ∑ node ∈ links.nodes, scores node = 1) :
    ∑ node ∈ links.nodes, links.flow damping scores node = 1 := by
  rw [sum_flow hnodes, hscores, mul_one, sub_add_cancel]

/-- Rank is conserved over any number of rounds. -/
theorem sum_flow_iterate [CharZero K] (hnodes : links.nodes.Nonempty)
    {scores : V → K} (hscores : ∑ node ∈ links.nodes, scores node = 1)
    (rounds : ℕ) :
    ∑ node ∈ links.nodes, (links.flow damping)^[rounds] scores node = 1 := by
  induction rounds with
  | zero => exact hscores
  | succ rounds ih =>
      rw [Function.iterate_succ_apply']
      exact sum_flow_eq_one hnodes ih

section Order

variable [LinearOrder K] [IsStrictOrderedRing K]

omit [DecidableEq V] in
theorem uniform_nonneg (node : V) : 0 ≤ (links.uniform node : K) := by
  rw [uniform]
  positivity

theorem flow_nonneg (hlow : 0 ≤ damping) (hhigh : damping ≤ 1) {scores : V → K}
    (hscores : ∀ node, 0 ≤ scores node) (node : V) :
    0 ≤ links.flow damping scores node := by
  have hundamped : 0 ≤ 1 - damping := sub_nonneg.mpr hhigh
  have hdangling : 0 ≤ links.danglingMass scores :=
    Finset.sum_nonneg fun node _ => hscores node
  have hbase : 0 ≤ links.base damping scores := by
    rw [base]
    positivity
  have hshare : ∀ source, 0 ≤ links.share damping scores source := by
    intro source
    have hsource := hscores source
    rw [share]
    positivity
  exact add_nonneg hbase (Finset.sum_nonneg fun source _ => hshare source)

/-- No round takes a score below zero. -/
theorem flow_iterate_nonneg (hlow : 0 ≤ damping) (hhigh : damping ≤ 1)
    {scores : V → K} (hscores : ∀ node, 0 ≤ scores node) (rounds : ℕ) (node : V) :
    0 ≤ (links.flow damping)^[rounds] scores node := by
  induction rounds generalizing node with
  | zero => exact hscores node
  | succ rounds ih =>
      rw [Function.iterate_succ_apply']
      exact flow_nonneg hlow hhigh ih node

end Order

end Links

end Ktsense.Foundation
