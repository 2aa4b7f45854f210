import Ktsense.Core.PageRank
import Ktsense.Foundation.RankFlow

/-!
# PageRank conserves mass

With exact arithmetic the rounds of `page_rank` are rounds of rank flowing along
the links of the edge list.  The links are told by the edges alone, whatever
order and repetition they come in, so the indices by first appearance leave no
trace in the ranked list.
-/

namespace Ktsense.Core

open Ktsense.Foundation

section Links

variable {N : Type*} [LinearOrder N]

/-- The links an edge list stands for. -/
def linksOf (edges : List (N × N)) : Links N where
  nodes := (edges.map Prod.fst ++ edges.map Prod.snd).toFinset
  targets source := ((edges.filter (·.1 = source)).map Prod.snd).toFinset
  targets_subset source _ target htarget := by
    simp only [List.mem_toFinset, List.mem_map, List.mem_filter] at htarget
    obtain ⟨edge, ⟨hedge, _⟩, rfl⟩ := htarget
    exact List.mem_toFinset.mpr
      (List.mem_append_right _ (List.mem_map_of_mem hedge))

theorem mem_linksOf_nodes {edges : List (N × N)} {node : N} :
    node ∈ (linksOf edges).nodes ↔
      ∃ edge ∈ edges, node = edge.1 ∨ node = edge.2 := by
  simp only [linksOf, List.mem_toFinset, List.mem_append, List.mem_map]
  grind

theorem mem_linksOf_targets {edges : List (N × N)} {source target : N} :
    target ∈ (linksOf edges).targets source ↔ (source, target) ∈ edges := by
  simp only [linksOf, List.mem_toFinset, List.mem_map, List.mem_filter]
  grind

/-- Neither order nor repetition of the edges shows in the links. -/
theorem linksOf_eq_of_mem_iff {left right : List (N × N)}
    (hmem : ∀ edge, edge ∈ left ↔ edge ∈ right) :
    linksOf left = linksOf right := by
  ext node
  · simp only [mem_linksOf_nodes, hmem]
  · simp only [mem_linksOf_targets, hmem]

theorem toFinset_nodeIds (edges : List (N × N)) :
    (Graph.fromEdges edges).nodeIds.toFinset = (linksOf edges).nodes := by
  ext node
  rw [List.mem_toFinset, Graph.mem_nodeIds_fromEdges, mem_linksOf_nodes]

/-- The target list that belongs to a node. -/
def Graph.targetsOf (graph : Graph N) (node : N) : List ℕ :=
  graph.targets (graph.nodeIds.idxOf node)

theorem Graph.outEdges_eq_map (graph : Graph N) :
    graph.outEdges = graph.nodeIds.map graph.targetsOf := by
  refine List.ext_getElem (by simp [graph.length_outEdges]) ?_
  intro index hindex hindex'
  rw [List.getElem_map, targetsOf, graph.nodup_nodeIds.idxOf_getElem, targets,
    List.getElem?_eq_getElem hindex, Option.getD_some]

theorem Graph.nodup_targetsOf (graph : Graph N) {node : N}
    (hnode : node ∈ graph.nodeIds) : (graph.targetsOf node).Nodup := by
  have hsource := List.idxOf_lt_length_of_mem hnode
  exact (graph.pairwise_outEdges _ (graph.targets_mem hsource)).imp ne_of_lt

theorem Graph.idxOf_eq_iff (graph : Graph N) {node : N}
    (hnode : node ∈ graph.nodeIds) (index : ℕ) :
    graph.nodeIds.idxOf node = index ↔ graph.nodeIds[index]? = some node := by
  constructor
  · rintro rfl
    exact List.getElem?_idxOf hnode
  · intro hindex
    exact graph.getElem?_inj (List.getElem?_idxOf hnode) hindex

variable (edges : List (N × N))

theorem mem_nodeIds_of_mem_targets {source target : N}
    (htarget : target ∈ (linksOf edges).targets source) :
    target ∈ (Graph.fromEdges edges).nodeIds :=
  (Graph.mem_nodeIds_fromEdges edges target).mpr
    ⟨_, mem_linksOf_targets.mp htarget, Or.inr rfl⟩

/-- What is stored for a node are the indices of what the node links to. -/
theorem toFinset_targetsOf {source : N}
    (hsource : source ∈ (Graph.fromEdges edges).nodeIds) :
    ((Graph.fromEdges edges).targetsOf source).toFinset =
      ((linksOf edges).targets source).image
        fun target => (Graph.fromEdges edges).nodeIds.idxOf target := by
  ext index
  rw [List.mem_toFinset, Graph.targetsOf, Graph.mem_targets_fromEdges,
    List.getElem?_idxOf hsource, Finset.mem_image]
  constructor
  · rintro ⟨⟨origin, target⟩, hedge, horigin, htarget⟩
    obtain rfl : source = origin := Option.some.inj horigin
    have hlink := mem_linksOf_targets.mpr hedge
    exact ⟨target, hlink, (Graph.idxOf_eq_iff _
      (mem_nodeIds_of_mem_targets edges hlink) index).mpr htarget⟩
  · rintro ⟨target, hlink, hindex⟩
    exact ⟨(source, target), mem_linksOf_targets.mp hlink, rfl,
      (Graph.idxOf_eq_iff _ (mem_nodeIds_of_mem_targets edges hlink) index).mp
        hindex⟩

theorem length_targetsOf {source : N}
    (hsource : source ∈ (Graph.fromEdges edges).nodeIds) :
    ((Graph.fromEdges edges).targetsOf source).length =
      ((linksOf edges).targets source).card := by
  rw [← List.toFinset_card_of_nodup (Graph.nodup_targetsOf _ hsource),
    toFinset_targetsOf edges hsource, Finset.card_image_of_injOn]
  intro left hleft right _ hindex
  exact (List.idxOf_inj (mem_nodeIds_of_mem_targets edges hleft)).mp hindex

theorem idxOf_mem_targetsOf {source : N}
    (hsource : source ∈ (Graph.fromEdges edges).nodeIds) (target : N) :
    (Graph.fromEdges edges).nodeIds.idxOf target ∈
        (Graph.fromEdges edges).targetsOf source ↔
      target ∈ (linksOf edges).targets source := by
  rw [← List.mem_toFinset, toFinset_targetsOf edges hsource, Finset.mem_image]
  constructor
  · rintro ⟨other, hother, hindex⟩
    rwa [(List.idxOf_inj (mem_nodeIds_of_mem_targets edges hother)).mp hindex]
      at hother
  · intro hlink
    exact ⟨target, hlink, rfl⟩

end Links

/-! ## A round -/

section Rounds

variable {N : Type*} [LinearOrder N]

/-- Adding to the entries at some indices. -/
theorem getElem?_foldl_modify {F : Type*} (add : F → F) {indices : List ℕ}
    (hnodup : indices.Nodup) (values : List F) (index : ℕ) :
    (indices.foldl (fun values target => values.modify target add) values)[index]? =
      if index ∈ indices then values[index]?.map add else values[index]? := by
  induction indices generalizing values with
  | nil => simp
  | cons first rest ih =>
      obtain ⟨hfirst, hrest⟩ := List.nodup_cons.mp hnodup
      rw [List.foldl_cons, ih hrest, List.getElem?_modify]
      by_cases hindex : first = index
      · subst hindex
        simp [hfirst]
      · simp [hindex, Ne.symm hindex]

variable (edges : List (N × N)) (options : PageRankOptions ℚ)

/-- One source of a round: its share is added where it links to. -/
theorem pageRankSpread_eq (scores next : N → ℚ) {source : N}
    (hsource : source ∈ (Graph.fromEdges edges).nodeIds) :
    pageRankSpread rationalArithmetic options
        ((Graph.fromEdges edges).nodeIds.map next)
        (scores source, (Graph.fromEdges edges).targetsOf source) =
      (Graph.fromEdges edges).nodeIds.map fun node =>
        next node + if node ∈ (linksOf edges).targets source then
          (linksOf edges).share options.damping scores source else 0 := by
  have hlength := length_targetsOf edges hsource
  rw [pageRankSpread]
  split_ifs with hnone
  · have hempty : (linksOf edges).targets source = ∅ := by
      rw [← Finset.card_eq_zero, ← hlength]
      exact hnone
    simp [hempty]
  · refine List.ext_getElem? fun index => ?_
    rw [getElem?_foldl_modify _ (Graph.nodup_targetsOf _ hsource),
      List.getElem?_map, List.getElem?_map]
    cases hnode : (Graph.fromEdges edges).nodeIds[index]? with
    | none => simp
    | some node =>
        have hmem := List.mem_of_getElem? hnode
        have hlink := idxOf_mem_targetsOf edges hsource node
        rw [(Graph.idxOf_eq_iff _ hmem index).mpr hnode] at hlink
        simp only [hlink, Option.map_some, hlength]
        split_ifs
        · rfl
        · rw [add_zero]

theorem sum_rationalArithmetic (values : List ℚ) :
    rationalArithmetic.sum values = values.sum := by
  rw [List.sum_eq_foldl]
  simp only [Arithmetic.sum, rationalArithmetic, Nat.cast_zero]

theorem card_nodes_linksOf :
    (linksOf edges).nodes.card = (Graph.fromEdges edges).nodeIds.length := by
  rw [← toFinset_nodeIds,
    List.toFinset_card_of_nodup (Graph.fromEdges edges).nodup_nodeIds]

/-- A sum over the nodes, as a sum over the list of them. -/
theorem sum_nodes_linksOf (weight : N → ℚ) :
    ∑ node ∈ (linksOf edges).nodes, weight node =
      ((Graph.fromEdges edges).nodeIds.map weight).sum := by
  rw [← toFinset_nodeIds,
    List.sum_toFinset weight (Graph.fromEdges edges).nodup_nodeIds]

/-- The scores together with the target lists, node by node. -/
theorem zip_outEdges (scores : N → ℚ) :
    ((Graph.fromEdges edges).nodeIds.map scores).zip
        (Graph.fromEdges edges).outEdges =
      (Graph.fromEdges edges).nodeIds.map fun node =>
        (scores node, (Graph.fromEdges edges).targetsOf node) := by
  rw [Graph.outEdges_eq_map, List.zip_map']

theorem danglingMass_eq (scores : N → ℚ) :
    rationalArithmetic.sum
        (((((Graph.fromEdges edges).nodeIds.map scores).zip
          (Graph.fromEdges edges).outEdges).filter fun (_, targets) =>
            targets.length = 0).map Prod.fst) =
      (linksOf edges).danglingMass scores := by
  have hdangling : (linksOf edges).nodes.filter
      (fun node => (linksOf edges).targets node = ∅) =
        ((Graph.fromEdges edges).nodeIds.filter fun node =>
          ((Graph.fromEdges edges).targetsOf node).length = 0).toFinset := by
    ext node
    rw [Finset.mem_filter, ← toFinset_nodeIds, List.mem_toFinset,
      List.mem_toFinset, List.mem_filter]
    refine and_congr_right fun hnode => ?_
    rw [← Finset.card_eq_zero, ← length_targetsOf edges hnode, decide_eq_true_iff]
  rw [sum_rationalArithmetic, zip_outEdges, List.filter_map, List.map_map,
    Links.danglingMass, hdangling,
    List.sum_toFinset _ ((Graph.fromEdges edges).nodup_nodeIds.filter _)]
  rfl

theorem pageRankFloor_eq (scores : N → ℚ) :
    pageRankFloor rationalArithmetic (Graph.fromEdges edges) options
        ((Graph.fromEdges edges).nodeIds.map scores) =
      (linksOf edges).base options.damping scores := by
  rw [pageRankFloor, danglingMass_eq, Links.base, card_nodes_linksOf]
  simp only [rationalArithmetic, Nat.cast_one]

/-- The sources of a round, one after another. -/
theorem foldl_pageRankSpread (scores : N → ℚ) {sources : List N}
    (hsources : ∀ source ∈ sources, source ∈ (Graph.fromEdges edges).nodeIds)
    (next : N → ℚ) :
    (sources.map fun source =>
          (scores source, (Graph.fromEdges edges).targetsOf source)).foldl
        (pageRankSpread rationalArithmetic options)
        ((Graph.fromEdges edges).nodeIds.map next) =
      (Graph.fromEdges edges).nodeIds.map fun node =>
        next node + (sources.map fun source =>
          if node ∈ (linksOf edges).targets source then
            (linksOf edges).share options.damping scores source else 0).sum := by
  induction sources generalizing next with
  | nil => simp
  | cons source rest ih =>
      rw [List.map_cons, List.foldl_cons,
        pageRankSpread_eq edges options scores next (hsources source (by simp)),
        ih fun other hother => hsources other (List.mem_cons_of_mem _ hother)]
      simp only [List.map_cons, List.sum_cons, add_assoc]

/-- A round of the source is a round of rank flowing along the links. -/
theorem pageRankRound_eq (scores : N → ℚ) :
    pageRankRound rationalArithmetic (Graph.fromEdges edges) options
        ((Graph.fromEdges edges).nodeIds.map scores) =
      (Graph.fromEdges edges).nodeIds.map
        ((linksOf edges).flow options.damping scores) := by
  rw [pageRankRound, pageRankFloor_eq, zip_outEdges, ← List.map_const',
    foldl_pageRankSpread edges options scores fun source hsource => hsource]
  refine List.map_congr_left fun node _ => ?_
  rw [Links.flow, Finset.sum_filter, sum_nodes_linksOf]

theorem pageRankRound_iterate (rounds : ℕ) (scores : N → ℚ) :
    (pageRankRound rationalArithmetic (Graph.fromEdges edges) options)^[rounds]
        ((Graph.fromEdges edges).nodeIds.map scores) =
      (Graph.fromEdges edges).nodeIds.map
        (((linksOf edges).flow options.damping)^[rounds] scores) := by
  have hround : Function.Semiconj ((Graph.fromEdges edges).nodeIds.map ·)
      ((linksOf edges).flow options.damping)
      (pageRankRound rationalArithmetic (Graph.fromEdges edges) options) :=
    fun scores => (pageRankRound_eq edges options scores).symm
  exact (hround.iterate_right rounds scores).symm

end Rounds

/-! ## The ranked list -/

section Ranking

variable {N : Type*} [LinearOrder N]

/-- Highest score first, then by node. -/
def compareRanked (left right : RankedNode N ℚ) : Ordering :=
  (rationalArithmetic.cmp right.score left.score).then
    (compare left.node right.node)

theorem compareRanked_transCmp :
    Std.TransCmp (compareRanked : RankedNode N ℚ → RankedNode N ℚ → Ordering) := by
  have hscore := transCmp_comap (inferInstance : Std.TransCmp
    fun left right : ℚ => compare right left) fun ranked : RankedNode N ℚ =>
      ranked.score
  have hnode := transCmp_comap (inferInstance : Std.TransCmp
    (compare : N → N → Ordering)) fun ranked : RankedNode N ℚ => ranked.node
  exact inferInstanceAs (Std.TransCmp (compareLex
    (fun left right : RankedNode N ℚ => compare right.score left.score)
    fun left right => compare left.node right.node))

/-- The score a node ends with. -/
def Links.rank (links : Links N) (options : PageRankOptions ℚ) : N → ℚ :=
  (links.flow options.damping)^[options.iterations] links.uniform

theorem pageRank_eq (edges : List (N × N)) (options : PageRankOptions ℚ) :
    pageRank rationalArithmetic (Graph.fromEdges edges) options =
      sortBy compareRanked ((Graph.fromEdges edges).nodeIds.map fun node =>
        ⟨node, Links.rank (linksOf edges) options node⟩) := by
  have hstart : List.replicate (Graph.fromEdges edges).nodeIds.length
      (rationalArithmetic.div (rationalArithmetic.ofNat 1)
        (rationalArithmetic.ofNat (Graph.fromEdges edges).nodeIds.length)) =
      (Graph.fromEdges edges).nodeIds.map (linksOf edges).uniform := by
    rw [← List.map_const']
    refine List.map_congr_left fun node _ => ?_
    rw [Links.uniform, card_nodes_linksOf]
    simp only [rationalArithmetic, Nat.cast_one]
  simp only [pageRank]
  rw [hstart, pageRankRound_iterate, ← List.map_prod_left_eq_zip, List.map_map]
  rfl

theorem pageRank_perm (edges : List (N × N)) (options : PageRankOptions ℚ) :
    (pageRank rationalArithmetic (Graph.fromEdges edges) options).Perm
      ((Graph.fromEdges edges).nodeIds.map fun node =>
        ⟨node, Links.rank (linksOf edges) options node⟩) := by
  rw [pageRank_eq]
  exact sortBy_perm _ _

theorem sum_pageRank (edges : List (N × N)) (options : PageRankOptions ℚ) :
    ((pageRank rationalArithmetic (Graph.fromEdges edges) options).map
        RankedNode.score).sum =
      ∑ node ∈ (linksOf edges).nodes,
        Links.rank (linksOf edges) options node := by
  rw [((pageRank_perm edges options).map RankedNode.score).sum_eq, List.map_map,
    sum_nodes_linksOf]
  rfl

/-- The order of the edges and their repetitions do not show in the ranked list. -/
theorem pageRank_eq_of_mem_iff {left right : List (N × N)}
    (hmem : ∀ edge, edge ∈ left ↔ edge ∈ right) (options : PageRankOptions ℚ) :
    pageRank rationalArithmetic (Graph.fromEdges left) options =
      pageRank rationalArithmetic (Graph.fromEdges right) options := by
  have hnodes : (Graph.fromEdges left).nodeIds.Perm
      (Graph.fromEdges right).nodeIds := by
    refine (List.perm_ext_iff_of_nodup (Graph.fromEdges left).nodup_nodeIds
      (Graph.fromEdges right).nodup_nodeIds).mpr fun node => ?_
    simp only [Graph.mem_nodeIds_fromEdges, hmem]
  rw [pageRank_eq, pageRank_eq, linksOf_eq_of_mem_iff hmem]
  refine sortBy_eq_of_perm compareRanked_transCmp (hnodes.map _) ?_
  intro first hfirst second hsecond hequal
  obtain ⟨node, -, rfl⟩ := List.mem_map.mp hfirst
  obtain ⟨other, -, rfl⟩ := List.mem_map.mp hsecond
  have hsame : node = other :=
    compare_eq_iff_eq.mp (Ordering.then_eq_eq.mp hequal).2
  rw [hsame]

/-- With exact arithmetic and a damping between zero and one, the scores of a graph
with nodes are at least zero and add up to one after any number of rounds, and the
ranked list is that of every edge list with the same edges. -/
theorem pageRank_conserves_mass (edges : List (N × N)) (options : PageRankOptions ℚ)
    (hgraph : (Graph.fromEdges edges).nodeIds ≠ [])
    (hlow : 0 ≤ options.damping) (hhigh : options.damping ≤ 1) :
    (∀ ranked ∈ pageRank rationalArithmetic (Graph.fromEdges edges) options,
        0 ≤ ranked.score) ∧
      ((pageRank rationalArithmetic (Graph.fromEdges edges) options).map
        RankedNode.score).sum = 1 ∧
      ∀ others : List (N × N), (∀ edge, edge ∈ others ↔ edge ∈ edges) →
        pageRank rationalArithmetic (Graph.fromEdges others) options =
          pageRank rationalArithmetic (Graph.fromEdges edges) options := by
  have hnodes : (linksOf edges).nodes.Nonempty := by
    rw [← toFinset_nodeIds]
    exact List.toFinset_nonempty_iff _ |>.mpr hgraph
  refine ⟨fun ranked hranked => ?_, ?_, ?_⟩
  · have hmem := (pageRank_perm edges options).mem_iff.mp hranked
    obtain ⟨node, -, rfl⟩ := List.mem_map.mp hmem
    exact Links.flow_iterate_nonneg hlow hhigh Links.uniform_nonneg _ node
  · rw [sum_pageRank]
    exact Links.sum_flow_iterate hnodes (Links.sum_uniform hnodes) _
  · intro others hothers
    exact pageRank_eq_of_mem_iff hothers options

/-- A node without targets, a loop and a pair apart from the rest. -/
def awkwardEdges : List (ℕ × ℕ) := [(0, 1), (1, 1), (2, 3), (4, 0), (4, 5)]

theorem awkwardEdges_conserve_mass :
    ((pageRank rationalArithmetic (Graph.fromEdges awkwardEdges)
      (.default rationalArithmetic)).map RankedNode.score).sum = 1 :=
  (pageRank_conserves_mass awkwardEdges (.default rationalArithmetic) (by decide)
    (by norm_num [PageRankOptions.default, rationalArithmetic])
    (by norm_num [PageRankOptions.default, rationalArithmetic])).2.1

end Ranking

end Ktsense.Core
