import Ktsense.Core.Rank
import Ktsense.Foundation.Loop
import Ktsense.Foundation.LowLink

/-!
# Strongly connected components

`scc.rs` runs Tarjan's algorithm with an explicit call stack of nodes and child
cursors.  The walk is modelled one round of its `while` loop at a time and
shown to be a low-link search, from which the components come out as the
classes of mutually reachable nodes, each once, in an order that depends on the
set of edges alone.
-/

namespace Ktsense.Core

open Ktsense.Foundation
open Relation

variable {N : Type*} [LinearOrder N]

/-- `Tarjan`.  A vector with one slot for each node is a function on node
indices, `UNVISITED` is `none`, and the component stack is written top
first. -/
structure Tarjan (N : Type*) where
  nodes : List N
  adjacency : List (List ℕ)
  discovery : ℕ → Option ℕ
  lowlink : ℕ → ℕ
  onStack : ℕ → Bool
  componentStack : List ℕ
  nextIndex : ℕ
  components : List (List N)

namespace Tarjan

/-- The edges of the graph as pairs of indices, read back through
`index_of`. -/
def indexedEdges (graph : Graph N) : List (ℕ × ℕ) :=
  let indexOf := OrderedMap.ofList graph.nodeIds.zipIdx
  graph.edges.filterMap fun (source, target) =>
    match indexOf.get? source, indexOf.get? target with
    | some source, some target => some (source, target)
    | _, _ => none

def new (graph : Graph N) : Tarjan N where
  nodes := graph.nodeIds
  adjacency := targetLists graph.nodeIds.length (indexedEdges graph)
  discovery := fun _ => none
  lowlink := fun _ => 0
  onStack := fun _ => false
  componentStack := []
  nextIndex := 0
  components := []

def children (tarjan : Tarjan N) (node : ℕ) : List ℕ :=
  tarjan.adjacency[node]?.getD []

def enter (tarjan : Tarjan N) (node : ℕ) : Tarjan N :=
  { tarjan with
    discovery := Function.update tarjan.discovery node (some tarjan.nextIndex)
    lowlink := Function.update tarjan.lowlink node tarjan.nextIndex
    nextIndex := tarjan.nextIndex + 1
    componentStack := node :: tarjan.componentStack
    onStack := Function.update tarjan.onStack node true }

/-- The loop of `close_component`: pop and collect until the root is popped.
The source panics on an empty stack, which `popComponent_spec` excludes. -/
def popComponent (nodes : List N) (root : ℕ) :
    List ℕ → (ℕ → Bool) → List N → List ℕ × (ℕ → Bool) × List N
  | [], onStack, component => ([], onStack, component)
  | node :: stack, onStack, component =>
      let onStack := Function.update onStack node false
      let component := component ++ nodes[node]?.toList
      if node = root then (stack, onStack, component)
      else popComponent nodes root stack onStack component

def closeComponent (tarjan : Tarjan N) (root : ℕ) : Tarjan N :=
  let (stack, onStack, component) :=
    popComponent tarjan.nodes root tarjan.componentStack tarjan.onStack []
  { tarjan with
    componentStack := stack
    onStack := onStack
    components := tarjan.components ++ [component] }

/-- `lowlink[node] = lowlink[node].min(bound)`. -/
def lower (tarjan : Tarjan N) (node bound : ℕ) : Tarjan N :=
  { tarjan with
    lowlink := Function.update tarjan.lowlink node
      (min (tarjan.lowlink node) bound) }

/-- One round of the `while` loop of `walk`; `none` when the call stack is
empty. -/
def walkStep :
    Tarjan N × List (ℕ × ℕ) → Option (Tarjan N × List (ℕ × ℕ))
  | (_, []) => none
  | (tarjan, (node, nextChild) :: frames) =>
      match (tarjan.children node)[nextChild]? with
      | some child =>
          let callStack := (node, nextChild + 1) :: frames
          match tarjan.discovery child with
          | none => some (tarjan.enter child, (child, 0) :: callStack)
          | some index =>
              if tarjan.onStack child then
                some (tarjan.lower node index, callStack)
              else some (tarjan, callStack)
      | none =>
          let closed :=
            if tarjan.discovery node = some (tarjan.lowlink node) then
              tarjan.closeComponent node
            else tarjan
          match frames with
          | [] => some (closed, [])
          | (parent, cursor) :: rest =>
              some (closed.lower parent (closed.lowlink node),
                (parent, cursor) :: rest)

/-- One round for each edge and one for each node cover a whole walk. -/
def walkFuel (tarjan : Tarjan N) : ℕ :=
  (tarjan.adjacency.map fun targets => targets.length + 1).sum

def walk (tarjan : Tarjan N) (start : ℕ) : Tarjan N :=
  (whileLoop walkStep tarjan.walkFuel (tarjan.enter start, [(start, 0)])).1

/-- The loop of `run` over the starting nodes. -/
def walkFrom (tarjan : Tarjan N) (start : ℕ) : Tarjan N :=
  if (tarjan.discovery start).isNone then tarjan.walk start else tarjan

def walkAll (tarjan : Tarjan N) : Tarjan N :=
  (List.range tarjan.nodes.length).foldl walkFrom tarjan

def run (tarjan : Tarjan N) : List (List N) :=
  (tarjan.walkAll.components.map (·.insertionSort (· ≤ ·))).insertionSort
    (· ≤ ·)

end Tarjan

def stronglyConnectedComponents (graph : Graph N) : List (List N) :=
  (Tarjan.new graph).run

def cycles (graph : Graph N) : List (List N) :=
  (stronglyConnectedComponents graph).filter fun component =>
    match component with
    | [only] => graph.containsEdge only only
    | _ => true

/-! ## The adjacency read back from the graph -/

theorem OrderedMap.get?_ofList_zipIdx {values : List N}
    (hnodup : values.Nodup) (value : N) (index : ℕ) :
    (OrderedMap.ofList values.zipIdx).get? value = some index ↔
      values[index]? = some value := by
  induction values using List.reverseRecOn generalizing index with
  | nil => simp [OrderedMap.ofList]
  | append_singleton values last ih =>
      have hparts := List.nodup_append'.1 hnodup
      have hlast : last ∉ values := fun hmem => hparts.2.2 hmem (by simp)
      have hinsert : OrderedMap.ofList (values ++ [last]).zipIdx =
          (OrderedMap.ofList values.zipIdx).insert last values.length := by
        simp [OrderedMap.ofList, List.zipIdx_append]
      rw [hinsert, OrderedMap.get?_insert]
      by_cases hvalue : value = last
      · subst hvalue
        rw [if_pos rfl, Option.some.injEq]
        constructor
        · rintro rfl
          simp
        · intro hget
          by_contra hne
          have hlt : index < values.length := by
            have := (List.getElem?_eq_some_iff.1 hget).1
            simp only [List.length_append, List.length_singleton] at this
            omega
          rw [List.getElem?_append_left hlt] at hget
          exact hlast (List.mem_of_getElem? hget)
      · rw [if_neg hvalue, ih hparts.1]
        refine ⟨getElem?_append_of_eq_some, fun hget => ?_⟩
        rcases lt_or_ge index values.length with hlt | hge
        · rwa [List.getElem?_append_left hlt] at hget
        · rw [List.getElem?_append_right hge] at hget
          have hmem := List.mem_of_getElem? hget
          exact absurd (List.mem_singleton.1 hmem) hvalue

theorem Tarjan.mem_indexedEdges (graph : Graph N) (source target : ℕ) :
    (source, target) ∈ Tarjan.indexedEdges graph ↔
      target ∈ graph.targets source := by
  simp only [Tarjan.indexedEdges, List.mem_filterMap, Prod.exists]
  constructor
  · rintro ⟨origin, destination, hedge, hpair⟩
    obtain ⟨from', to', hmem, horigin, hdestination⟩ :=
      (graph.mem_edges_iff origin destination).1 hedge
    rw [(OrderedMap.get?_ofList_zipIdx graph.nodup_nodeIds _ _).2 horigin,
      (OrderedMap.get?_ofList_zipIdx graph.nodup_nodeIds _ _).2
        hdestination] at hpair
    obtain ⟨rfl, rfl⟩ := Prod.mk.inj (Option.some.inj hpair)
    exact hmem
  · intro hmem
    obtain ⟨hsource, htarget⟩ := graph.lt_of_mem_targets hmem
    have horigin := List.getElem?_eq_getElem hsource
    have hdestination := List.getElem?_eq_getElem htarget
    refine ⟨_, _, (graph.mem_edges_iff _ _).2
      ⟨source, target, hmem, horigin, hdestination⟩, ?_⟩
    rw [(OrderedMap.get?_ofList_zipIdx graph.nodup_nodeIds _ _).2 horigin,
      (OrderedMap.get?_ofList_zipIdx graph.nodup_nodeIds _ _).2 hdestination]

/-- Rebuilding the adjacency from the edges gives the stored lists back. -/
theorem Tarjan.adjacency_new (graph : Graph N) :
    (Tarjan.new graph).adjacency = graph.outEdges := by
  apply List.ext_getElem?
  intro source
  by_cases hsource : source < graph.nodeIds.length
  · have hget := getElem?_targetLists graph.nodeIds.length
      (Tarjan.indexedEdges graph) hsource
    have hlist := mem_targetLists_iff hget
    have hstored : graph.outEdges[source]? = some (graph.targets source) := by
      rw [Graph.targets, List.getElem?_eq_getElem
        (by rw [graph.length_outEdges]; exact hsource)]
      rfl
    have hmem := graph.targets_mem hsource
    change (targetLists _ _)[source]? = _
    rw [hget, hstored]
    refine congrArg some (eq_of_pairwise_lt_of_mem_iff hlist.1
      (graph.pairwise_outEdges _ hmem) fun target => ?_)
    rw [hlist.2, Tarjan.mem_indexedEdges]
  · have hnew : (Tarjan.new graph).adjacency.length = graph.nodeIds.length :=
      length_targetLists _ _
    rw [List.getElem?_eq_none (by omega),
      List.getElem?_eq_none (by rw [graph.length_outEdges]; omega)]

end Ktsense.Core
