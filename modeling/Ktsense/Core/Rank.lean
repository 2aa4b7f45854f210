import Ktsense.Foundation.OrderedMap
import Ktsense.Foundation.Sorting

/-!
# The directed graph of `rank.rs`

`Graph::from_edges` interns the nodes of an edge list in order of first
appearance and keeps, for each node, the ascending list of its targets without
repetitions.  A `Graph` carries these facts, so an index stored in it is
always the index of a node.
-/

namespace Ktsense.Core

open Ktsense.Foundation

variable {N : Type*} [LinearOrder N]

/-- `Graph<N>`: node identities by index, and the targets of each index. -/
structure Graph (N : Type*) where
  nodeIds : List N
  outEdges : List (List ℕ)
  nodup_nodeIds : nodeIds.Nodup
  length_outEdges : outEdges.length = nodeIds.length
  pairwise_outEdges : ∀ targets ∈ outEdges, targets.Pairwise (· < ·)
  target_lt : ∀ targets ∈ outEdges, ∀ target ∈ targets, target < nodeIds.length

/-- The lookup table and the node list that `intern` grows. -/
structure Interner (N : Type*) [LinearOrder N] where
  lookup : OrderedMap N ℕ
  nodeIds : List N

def Interner.empty : Interner N := ⟨OrderedMap.empty, []⟩

/-- `intern`: the index of a node, added at the end when it is new. -/
def Interner.intern (table : Interner N) (node : N) : Interner N × ℕ :=
  match table.lookup.get? node with
  | some index => (table, index)
  | none =>
      let index := table.nodeIds.length
      (⟨table.lookup.insert node index, table.nodeIds ++ [node]⟩, index)

/-- One round of the first loop of `from_edges`. -/
def internEdge (state : Interner N × List (ℕ × ℕ)) (edge : N × N) :
    Interner N × List (ℕ × ℕ) :=
  let (table, source) := state.1.intern edge.1
  let (table, target) := table.intern edge.2
  (table, state.2 ++ [(source, target)])

def internEdges (edges : List (N × N)) : Interner N × List (ℕ × ℕ) :=
  edges.foldl internEdge (Interner.empty, [])

/-- Push each pair's target onto its source's list, then sort and dedup every
list. -/
def targetLists (count : ℕ) (pairs : List (ℕ × ℕ)) : List (List ℕ) :=
  (pairs.foldl (fun lists pair => lists.modify pair.1 (· ++ [pair.2]))
    (List.replicate count [])).map sortDedup

/-- A table is consistent when its lookup inverts its node list. -/
structure Interner.Consistent (table : Interner N) : Prop where
  nodup : table.nodeIds.Nodup
  get?_iff : ∀ node index,
    table.lookup.get? node = some index ↔ table.nodeIds[index]? = some node

theorem Interner.consistent_empty : (Interner.empty : Interner N).Consistent :=
  ⟨List.nodup_nil, by simp [Interner.empty]⟩

/-- What one `intern` does: the table stays consistent and only grows, and the
index returned names the node. -/
theorem Interner.intern_spec {table : Interner N} (htable : table.Consistent)
    (node : N) :
    (table.intern node).1.Consistent ∧
      (∃ added, (table.intern node).1.nodeIds = table.nodeIds ++ added ∧
        ∀ other ∈ added, other = node) ∧
      (table.intern node).1.nodeIds[(table.intern node).2]? = some node := by
  cases hget : table.lookup.get? node with
  | some index =>
      simp only [intern, hget]
      exact ⟨htable, ⟨[], by simp⟩, (htable.get?_iff node index).1 hget⟩
  | none =>
      simp only [intern, hget]
      have hfresh : node ∉ table.nodeIds := by
        intro hmem
        obtain ⟨index, hindex⟩ := List.mem_iff_getElem?.1 hmem
        rw [(htable.get?_iff node index).2 hindex] at hget
        simp at hget
      refine ⟨⟨?_, ?_⟩, ⟨[node], rfl, by simp⟩, by simp⟩
      · exact List.nodup_append'.2 ⟨htable.nodup, List.nodup_singleton _,
          by simpa using hfresh⟩
      · intro other index
        rw [OrderedMap.get?_insert]
        rcases lt_trichotomy index table.nodeIds.length with hlt | rfl | hgt
        · rw [List.getElem?_append_left hlt, ← htable.get?_iff]
          by_cases hother : other = node
          · subst hother
            simp [hget, hlt.ne']
          · simp [hother]
        · have hout : table.lookup.get? other ≠ some table.nodeIds.length := by
            rw [Ne, htable.get?_iff]
            simp
          by_cases hother : other = node
          · simp [hother]
          · simp [hother, hout, Ne.symm hother]
        · have hout : table.lookup.get? other ≠ some index := by
            rw [Ne, htable.get?_iff, List.getElem?_eq_none (by omega)]
            simp
          rw [List.getElem?_eq_none (by simp; omega)]
          by_cases hother : other = node
          · simp [hother, hgt.ne]
          · simp [hother, hout]

theorem getElem?_append_of_eq_some {A : Type*} {values added : List A}
    {index : ℕ} {value : A} (hget : values[index]? = some value) :
    (values ++ added)[index]? = some value := by
  have hlt : index < values.length := (List.getElem?_eq_some_iff.1 hget).1
  rw [List.getElem?_append_left hlt, hget]

/-- Growing a list without repetitions moves none of its members. -/
theorem getElem?_append_eq_some_iff {A : Type*} {values added : List A}
    (hnodup : (values ++ added).Nodup) {value : A} (hvalue : value ∈ values)
    (index : ℕ) :
    (values ++ added)[index]? = some value ↔ values[index]? = some value := by
  refine ⟨fun hget => ?_, getElem?_append_of_eq_some⟩
  obtain ⟨place, hplace⟩ := List.mem_iff_getElem?.1 hvalue
  obtain ⟨hlt, hvalueAt⟩ := List.getElem?_eq_some_iff.1 hget
  have hkept : (values ++ added)[place]? = some value :=
    getElem?_append_of_eq_some hplace
  obtain ⟨hplaceLt, hplaceAt⟩ := List.getElem?_eq_some_iff.1 hkept
  have hsame : place = index :=
    (hnodup.getElem_inj_iff).1 (hplaceAt.trans hvalueAt.symm)
  rw [← hsame, hplace]

/-- What the first loop of `from_edges` has established after some edges. -/
structure InternedEdges (edges : List (N × N))
    (state : Interner N × List (ℕ × ℕ)) : Prop where
  consistent : state.1.Consistent
  mem_nodeIds : ∀ node,
    node ∈ state.1.nodeIds ↔ ∃ edge ∈ edges, node = edge.1 ∨ node = edge.2
  mem_pairs : ∀ source target,
    (source, target) ∈ state.2 ↔ ∃ edge ∈ edges,
      state.1.nodeIds[source]? = some edge.1 ∧
        state.1.nodeIds[target]? = some edge.2

theorem internEdge_spec {edges : List (N × N)}
    {state : Interner N × List (ℕ × ℕ)} (hstate : InternedEdges edges state)
    (edge : N × N) :
    InternedEdges (edges ++ [edge]) (internEdge state edge) := by
  obtain ⟨hfirst, ⟨addedFirst, hgrowFirst, haddedFirst⟩, hsource⟩ :=
    Interner.intern_spec hstate.consistent edge.1
  obtain ⟨hsecond, ⟨addedSecond, hgrowSecond, haddedSecond⟩, htarget⟩ :=
    Interner.intern_spec hfirst edge.2
  have hgrow : (internEdge state edge).1.nodeIds =
      state.1.nodeIds ++ (addedFirst ++ addedSecond) := by
    simp only [internEdge]
    rw [hgrowSecond, hgrowFirst, List.append_assoc]
  have hnodup := hsecond.nodup
  have hsource' : (internEdge state edge).1.nodeIds[
      (state.1.intern edge.1).2]? = some edge.1 := by
    simp only [internEdge]
    rw [hgrowSecond]
    exact getElem?_append_of_eq_some hsource
  refine ⟨hsecond, ?_, ?_⟩
  · intro node
    constructor
    · intro hnode
      rw [hgrow, List.mem_append, List.mem_append] at hnode
      rcases hnode with hold | hnew | hnew
      · obtain ⟨held, hheld, hends⟩ := (hstate.mem_nodeIds node).1 hold
        exact ⟨held, List.mem_append_left _ hheld, hends⟩
      · exact ⟨edge, by simp, Or.inl (haddedFirst node hnew)⟩
      · exact ⟨edge, by simp, Or.inr (haddedSecond node hnew)⟩
    · rintro ⟨held, hheld, hends⟩
      rcases List.mem_append.1 hheld with hold | hnew
      · rw [hgrow]
        exact List.mem_append_left _
          ((hstate.mem_nodeIds node).2 ⟨held, hold, hends⟩)
      · obtain rfl : held = edge := by simpa using hnew
        rcases hends with rfl | rfl
        · exact List.mem_of_getElem? hsource'
        · exact List.mem_of_getElem? htarget
  · intro source target
    have hindex : ∀ {index place : ℕ} {node : N},
        (internEdge state edge).1.nodeIds[index]? = some node →
        (internEdge state edge).1.nodeIds[place]? = some node →
        index = place := by
      intro index place node hat hplace
      obtain ⟨hlt, hvalue⟩ := List.getElem?_eq_some_iff.1 hat
      obtain ⟨hplaceLt, hplaceValue⟩ := List.getElem?_eq_some_iff.1 hplace
      exact (hnodup.getElem_inj_iff).1 (hvalue.trans hplaceValue.symm)
    have hheld : ∀ held ∈ edges, ∀ index : ℕ,
        ((internEdge state edge).1.nodeIds[index]? = some held.1 ↔
          state.1.nodeIds[index]? = some held.1) ∧
        ((internEdge state edge).1.nodeIds[index]? = some held.2 ↔
          state.1.nodeIds[index]? = some held.2) := by
      intro held hmem index
      have hfull : (state.1.nodeIds ++ (addedFirst ++ addedSecond)).Nodup := by
        rw [← hgrow]
        exact hnodup
      rw [hgrow]
      exact ⟨getElem?_append_eq_some_iff hfull
          ((hstate.mem_nodeIds _).2 ⟨held, hmem, Or.inl rfl⟩) index,
        getElem?_append_eq_some_iff hfull
          ((hstate.mem_nodeIds _).2 ⟨held, hmem, Or.inr rfl⟩) index⟩
    have hpairs : (internEdge state edge).2 =
        state.2 ++ [((state.1.intern edge.1).2,
          ((state.1.intern edge.1).1.intern edge.2).2)] := rfl
    rw [hpairs, List.mem_append, hstate.mem_pairs]
    constructor
    · rintro (⟨held, hmem, hends⟩ | hnew)
      · exact ⟨held, List.mem_append_left _ hmem,
          ((hheld held hmem source).1).2 hends.1,
          ((hheld held hmem target).2).2 hends.2⟩
      · obtain ⟨rfl, rfl⟩ := Prod.mk.inj (List.mem_singleton.1 hnew)
        exact ⟨edge, by simp, hsource', htarget⟩
    · rintro ⟨held, hmem, hends⟩
      rcases List.mem_append.1 hmem with hold | hnew
      · exact Or.inl ⟨held, hold, ((hheld held hold source).1).1 hends.1,
          ((hheld held hold target).2).1 hends.2⟩
      · obtain rfl : held = edge := by simpa using hnew
        refine Or.inr (List.mem_singleton.2 ?_)
        rw [hindex hends.1 hsource', hindex hends.2 htarget]

theorem internEdges_spec (edges : List (N × N)) :
    InternedEdges edges (internEdges edges) := by
  induction edges using List.reverseRecOn with
  | nil =>
      exact ⟨Interner.consistent_empty, by simp [internEdges, Interner.empty],
        by simp [internEdges]⟩
  | append_singleton edges edge ih =>
      have hstep : internEdges (edges ++ [edge]) =
          internEdge (internEdges edges) edge := by
        simp [internEdges]
      rw [hstep]
      exact internEdge_spec ih edge

theorem length_targetLists (count : ℕ) (pairs : List (ℕ × ℕ)) :
    (targetLists count pairs).length = count := by
  rw [targetLists, List.length_map]
  induction pairs using List.reverseRecOn with
  | nil => simp
  | append_singleton pairs pair ih => simpa using ih

/-- The list of one source: the targets of its pairs. -/
theorem getElem?_targetLists (count : ℕ) (pairs : List (ℕ × ℕ)) {source : ℕ}
    (hsource : source < count) :
    (targetLists count pairs)[source]? =
      some (sortDedup ((pairs.filter (·.1 = source)).map (·.2))) := by
  have hpushed : ∀ pairs : List (ℕ × ℕ),
      (pairs.foldl (fun lists pair => lists.modify pair.1 (· ++ [pair.2]))
        (List.replicate count []))[source]? =
      some ((pairs.filter (·.1 = source)).map (·.2)) := by
    intro pairs
    induction pairs using List.reverseRecOn with
    | nil => simp [hsource]
    | append_singleton pairs pair ih =>
        rw [List.foldl_append, List.foldl_cons, List.foldl_nil,
          List.getElem?_modify, ih]
        by_cases hpair : pair.1 = source <;> simp [hpair]
  rw [targetLists, List.getElem?_map, hpushed, Option.map_some]

theorem mem_targetLists_iff {count : ℕ} {pairs : List (ℕ × ℕ)}
    {targets : List ℕ} {source : ℕ}
    (htargets : (targetLists count pairs)[source]? = some targets) :
    targets.Pairwise (· < ·) ∧
      ∀ target, target ∈ targets ↔ (source, target) ∈ pairs := by
  have hsource : source < count := by
    simpa [length_targetLists] using (List.getElem?_eq_some_iff.1 htargets).1
  rw [getElem?_targetLists count pairs hsource, Option.some.injEq] at htargets
  subst htargets
  refine ⟨pairwise_sortDedup _, fun target => ?_⟩
  simp

/-- `Graph::from_edges`. -/
def Graph.fromEdges (edges : List (N × N)) : Graph N where
  nodeIds := (internEdges edges).1.nodeIds
  outEdges := targetLists (internEdges edges).1.nodeIds.length
    (internEdges edges).2
  nodup_nodeIds := (internEdges_spec edges).consistent.nodup
  length_outEdges := length_targetLists _ _
  pairwise_outEdges := by
    intro targets hmem
    obtain ⟨source, hsource⟩ := List.mem_iff_getElem?.1 hmem
    exact (mem_targetLists_iff hsource).1
  target_lt := by
    intro targets hmem target htarget
    obtain ⟨source, hsource⟩ := List.mem_iff_getElem?.1 hmem
    have hpair := ((mem_targetLists_iff hsource).2 target).1 htarget
    obtain ⟨edge, _, hends⟩ :=
      ((internEdges_spec edges).mem_pairs source target).1 hpair
    exact (List.getElem?_eq_some_iff.1 hends.2).1

/-- The nodes of a graph are the ends of its edges. -/
theorem Graph.mem_nodeIds_fromEdges (edges : List (N × N)) (node : N) :
    node ∈ (Graph.fromEdges edges).nodeIds ↔
      ∃ edge ∈ edges, node = edge.1 ∨ node = edge.2 :=
  (internEdges_spec edges).mem_nodeIds node

/-- The targets stored for an index. -/
def Graph.targets (graph : Graph N) (source : ℕ) : List ℕ :=
  graph.outEdges[source]?.getD []

omit [LinearOrder N] in
theorem Graph.targets_mem (graph : Graph N) {source : ℕ}
    (hsource : source < graph.nodeIds.length) :
    graph.targets source ∈ graph.outEdges := by
  have hlt : source < graph.outEdges.length := by
    rwa [graph.length_outEdges]
  rw [Graph.targets, List.getElem?_eq_getElem hlt]
  exact List.getElem_mem hlt

omit [LinearOrder N] in
theorem Graph.lt_of_mem_targets (graph : Graph N) {source target : ℕ}
    (htarget : target ∈ graph.targets source) :
    source < graph.nodeIds.length ∧ target < graph.nodeIds.length := by
  by_cases hsource : source < graph.nodeIds.length
  · exact ⟨hsource, graph.target_lt _ (graph.targets_mem hsource) _ htarget⟩
  · rw [Graph.targets, List.getElem?_eq_none
      (by rw [graph.length_outEdges]; omega)] at htarget
    simp at htarget

/-- A stored target stands for an edge of the list, and every edge is stored. -/
theorem Graph.mem_targets_fromEdges (edges : List (N × N))
    (source target : ℕ) :
    target ∈ (Graph.fromEdges edges).targets source ↔
      ∃ edge ∈ edges,
        (Graph.fromEdges edges).nodeIds[source]? = some edge.1 ∧
          (Graph.fromEdges edges).nodeIds[target]? = some edge.2 := by
  have hspec := internEdges_spec edges
  by_cases hsource : source < (Graph.fromEdges edges).nodeIds.length
  · have hget := getElem?_targetLists (internEdges edges).1.nodeIds.length
      (internEdges edges).2 hsource
    have htargets := (mem_targetLists_iff hget).2 target
    change target ∈ ((targetLists _ _)[source]?).getD [] ↔ _
    rw [hget, Option.getD_some, htargets, hspec.mem_pairs]
    rfl
  · refine ⟨fun hmem => absurd (Graph.lt_of_mem_targets _ hmem).1 hsource, ?_⟩
    rintro ⟨edge, _, hends, _⟩
    exact absurd (List.getElem?_eq_some_iff.1 hends).1 hsource

/-- `Graph::edges`: every stored edge as a pair of node identities. -/
def Graph.edges (graph : Graph N) : List (N × N) :=
  graph.outEdges.zipIdx.flatMap fun (targets, source) =>
    targets.filterMap fun target =>
      match graph.nodeIds[source]?, graph.nodeIds[target]? with
      | some origin, some destination => some (origin, destination)
      | _, _ => none

/-- `Graph::position`. -/
def Graph.position (graph : Graph N) (node : N) : Option ℕ :=
  graph.nodeIds.findIdx? (· = node)

/-- `Graph::contains_edge`.  The stored lists are ascending, so the binary
search of the source succeeds exactly on their members. -/
def Graph.containsEdge (graph : Graph N) (source target : N) : Bool :=
  match graph.position source, graph.position target with
  | some source, some target => decide (target ∈ graph.targets source)
  | _, _ => false

omit [LinearOrder N] in
theorem Graph.mem_edges_iff (graph : Graph N) (origin destination : N) :
    (origin, destination) ∈ graph.edges ↔
      ∃ source target, target ∈ graph.targets source ∧
        graph.nodeIds[source]? = some origin ∧
          graph.nodeIds[target]? = some destination := by
  simp only [Graph.edges, List.mem_flatMap, List.mem_filterMap]
  constructor
  · rintro ⟨⟨targets, source⟩, hsource, target, htarget, hpair⟩
    rw [List.mem_zipIdx_iff_getElem?] at hsource
    refine ⟨source, target, by simpa [Graph.targets, hsource] using htarget, ?_⟩
    split at hpair
    · next origin' destination' horigin hdestination =>
        obtain ⟨rfl, rfl⟩ := Prod.mk.inj (Option.some.inj hpair)
        exact ⟨horigin, hdestination⟩
    · simp at hpair
  · rintro ⟨source, target, htarget, horigin, hdestination⟩
    have hlt : source < graph.outEdges.length := by
      rw [graph.length_outEdges]
      exact (graph.lt_of_mem_targets htarget).1
    refine ⟨(graph.targets source, source), ?_, target, htarget, ?_⟩
    · rw [List.mem_zipIdx_iff_getElem?, Graph.targets,
        List.getElem?_eq_getElem hlt]
      rfl
    · simp [horigin, hdestination]

theorem Graph.mem_edges_fromEdges (edges : List (N × N)) (edge : N × N) :
    edge ∈ (Graph.fromEdges edges).edges ↔ edge ∈ edges := by
  obtain ⟨origin, destination⟩ := edge
  rw [Graph.mem_edges_iff]
  constructor
  · rintro ⟨source, target, htarget, horigin, hdestination⟩
    obtain ⟨edge, hedge, hsource, htarget⟩ :=
      (Graph.mem_targets_fromEdges edges source target).1 htarget
    rw [horigin] at hsource
    rw [hdestination] at htarget
    rw [Option.some.inj hsource, Option.some.inj htarget]
    exact hedge
  · intro hedge
    have hnode := Graph.mem_nodeIds_fromEdges edges
    obtain ⟨source, hsource⟩ := List.mem_iff_getElem?.1
      ((hnode origin).2 ⟨_, hedge, Or.inl rfl⟩)
    obtain ⟨target, htarget⟩ := List.mem_iff_getElem?.1
      ((hnode destination).2 ⟨_, hedge, Or.inr rfl⟩)
    exact ⟨source, target, (Graph.mem_targets_fromEdges edges source target).2
      ⟨_, hedge, hsource, htarget⟩, hsource, htarget⟩

omit [LinearOrder N] in
theorem Graph.getElem?_inj (graph : Graph N) {left right : ℕ} {node : N}
    (hleft : graph.nodeIds[left]? = some node)
    (hright : graph.nodeIds[right]? = some node) : left = right := by
  obtain ⟨hleftLt, hleftAt⟩ := List.getElem?_eq_some_iff.1 hleft
  obtain ⟨hrightLt, hrightAt⟩ := List.getElem?_eq_some_iff.1 hright
  exact (graph.nodup_nodeIds.getElem_inj_iff).1 (hleftAt.trans hrightAt.symm)

theorem Graph.position_eq_some_iff (graph : Graph N) (node : N) (index : ℕ) :
    graph.position node = some index ↔ graph.nodeIds[index]? = some node := by
  have hfound : ∀ index, graph.position node = some index →
      graph.nodeIds[index]? = some node := by
    intro index hposition
    obtain ⟨hlt, hat, _⟩ := List.findIdx?_eq_some_iff_getElem.1 hposition
    rw [List.getElem?_eq_getElem hlt]
    exact congrArg some (by simpa using hat)
  refine ⟨hfound index, fun hindex => ?_⟩
  cases hposition : graph.position node with
  | none =>
      have habsent := List.findIdx?_eq_none_iff.1 hposition node
        (List.mem_of_getElem? hindex)
      simp at habsent
  | some place => rw [graph.getElem?_inj (hfound place hposition) hindex]

theorem Graph.containsEdge_fromEdges (edges : List (N × N))
    (source target : N) :
    (Graph.fromEdges edges).containsEdge source target = true ↔
      (source, target) ∈ edges := by
  rw [← Graph.mem_edges_fromEdges, Graph.mem_edges_iff, Graph.containsEdge]
  constructor
  · intro hcontains
    split at hcontains
    · next sourceAt targetAt hsource htarget =>
        exact ⟨sourceAt, targetAt, by simpa using hcontains,
          (Graph.position_eq_some_iff _ _ _).1 hsource,
          (Graph.position_eq_some_iff _ _ _).1 htarget⟩
    · simp at hcontains
  · rintro ⟨sourceAt, targetAt, hmem, hsource, htarget⟩
    rw [(Graph.position_eq_some_iff _ _ _).2 hsource,
      (Graph.position_eq_some_iff _ _ _).2 htarget]
    simpa using hmem

end Ktsense.Core
