import Ktsense.Core.Scc
import Ktsense.Foundation.Components

/-!
# The walk is a low-link search

Every round of `Tarjan::walk` is one step of `LowLink`: it reads an edge to a
node already discovered, discovers a node, leaves a node, or closes a
component.  The measure counts the edges and nodes still to be read, so the
fuel of `walk` always suffices.
-/

namespace Ktsense.Core

open Ktsense.Foundation
open Relation

variable {N : Type*} [LinearOrder N]

/-- The edge relation on node indices. -/
def Graph.Step (graph : Graph N) (source target : ℕ) : Prop :=
  target ∈ graph.targets source

/-- The node identities at some indices. -/
def Graph.names (graph : Graph N) (indices : List ℕ) : List N :=
  indices.filterMap fun index => graph.nodeIds[index]?

namespace Tarjan

/-- An edge is still unread only while its source has a frame whose cursor has
not passed it. -/
def Examined (graph : Graph N) (frames : List (ℕ × ℕ)) (source target : ℕ) :
    Prop :=
  ∀ cursor, (source, cursor) ∈ frames →
    target ∈ (graph.targets source).take cursor

/-- The low-link search a walk in progress stands for.  The closed components
are kept as indices, which the walk itself has already turned into names. -/
def search (graph : Graph N) (tarjan : Tarjan N) (frames : List (ℕ × ℕ))
    (closed : List (List ℕ)) : LowLink ℕ where
  order := tarjan.discovery
  low := tarjan.lowlink
  stack := tarjan.componentStack
  path := frames.map Prod.fst
  next := tarjan.nextIndex
  examined := Examined graph frames
  closed := closed

/-- A walk state over `graph` that is a low-link search. -/
structure Walking (graph : Graph N) (closed : List (List ℕ))
    (state : Tarjan N × List (ℕ × ℕ)) : Prop where
  nodes : state.1.nodes = graph.nodeIds
  adjacency : state.1.adjacency = graph.outEdges
  components : state.1.components = closed.map graph.names
  onStack_iff : ∀ node,
    state.1.onStack node = true ↔ node ∈ state.1.componentStack
  visited_lt : ∀ node, (state.1.discovery node).isSome →
    node < graph.nodeIds.length
  inv : (search graph state.1 state.2 closed).Inv graph.Step

section Frames

variable {graph : Graph N} {frames : List (ℕ × ℕ)} {node cursor child : ℕ}

omit [LinearOrder N] in
theorem examined_of_not_mem_path {source : ℕ}
    (hsource : source ∉ frames.map Prod.fst) (target : ℕ) :
    Examined graph frames source target := by
  intro cursor hmem
  exact absurd (List.mem_map_of_mem hmem) hsource

omit [LinearOrder N] in
/-- Moving the top cursor past `child` reads that one edge. -/
theorem examined_advance (hchild : (graph.targets node)[cursor]? = some child)
    {source target : ℕ}
    (hread : Examined graph ((node, cursor + 1) :: frames) source target) :
    Examined graph ((node, cursor) :: frames) source target ∨
      source = node ∧ target = child := by
  by_cases hsource : source = node
  · subst hsource
    have htake := hread (cursor + 1) List.mem_cons_self
    rw [List.take_add_one, hchild, List.mem_append] at htake
    cases htake with
    | inr hlast => exact Or.inr ⟨rfl, by simpa using hlast⟩
    | inl hbefore =>
        apply Or.inl
        intro other hmem
        rcases List.mem_cons.1 hmem with htop | hbelow
        · rw [(Prod.mk.inj htop).2]
          exact hbefore
        · exact hread other (List.mem_cons_of_mem _ hbelow)
  · apply Or.inl
    intro other hmem
    rcases List.mem_cons.1 hmem with htop | hbelow
    · exact absurd (Prod.mk.inj htop).1 hsource
    · exact hread other (List.mem_cons_of_mem _ hbelow)

omit [LinearOrder N] in
/-- A frame whose cursor has passed the last child leaves no edge unread. -/
theorem examined_exhausted (hdone : (graph.targets node)[cursor]? = none)
    {source target : ℕ} (hstep : graph.Step source target)
    (hread : Examined graph frames source target) :
    Examined graph ((node, cursor) :: frames) source target := by
  intro other hmem
  rcases List.mem_cons.1 hmem with htop | hbelow
  · obtain ⟨rfl, rfl⟩ := Prod.mk.inj htop
    rw [List.take_of_length_le (List.getElem?_eq_none_iff.1 hdone)]
    exact hstep
  · exact hread other hbelow

end Frames

omit [LinearOrder N] in
theorem children_eq {graph : Graph N} {closed : List (List ℕ)}
    {state : Tarjan N × List (ℕ × ℕ)} (hwalk : Walking graph closed state)
    (node : ℕ) : state.1.children node = graph.targets node := by
  rw [children, hwalk.adjacency, Graph.targets]

/-! ## The rounds of the loop -/

section Rounds

variable {graph : Graph N} {closed : List (List ℕ)} {tarjan : Tarjan N}
  {frames : List (ℕ × ℕ)} {node cursor child : ℕ}

omit [LinearOrder N] in
/-- Discovering a node that every node on the path reaches pushes its frame;
the frames below may have read the edge that led to it. -/
theorem walking_push {below : List (ℕ × ℕ)}
    (hwalk : Walking graph closed (tarjan, frames))
    (hfresh : tarjan.discovery child = none)
    (hlt : child < graph.nodeIds.length)
    (hpath : below.map Prod.fst = frames.map Prod.fst)
    (hreach : ∀ upper ∈ frames.map Prod.fst,
      ReflTransGen graph.Step upper child)
    (hread : ∀ source target, Examined graph below source target →
      Examined graph frames source target ∨ target = child) :
    Walking graph closed (tarjan.enter child, (child, 0) :: below) := by
  have hunvisited : ¬(search graph tarjan frames closed).Visited child := by
    simp [LowLink.Visited, search, hfresh]
  refine ⟨hwalk.nodes, hwalk.adjacency, hwalk.components, ?_, ?_, ?_⟩
  · intro other
    by_cases hother : other = child
    · simp [enter, hother]
    · simp [enter, hother, hwalk.onStack_iff]
  · intro other hvisited
    by_cases hother : other = child
    · rwa [hother]
    · apply hwalk.visited_lt other
      simpa [enter, hother] using hvisited
  · have henter : search graph (tarjan.enter child) ((child, 0) :: below) closed =
        (search graph tarjan frames closed).enter child
          (Examined graph ((child, 0) :: below)) := by
      simp [search, enter, LowLink.enter, hpath]
    rw [henter]
    apply LowLink.inv_enter hwalk.inv hunvisited hreach
    · intro source target _ _ hseen
      apply hread source target
      intro other hmem
      exact hseen other (List.mem_cons_of_mem _ hmem)
    · intro target hseen
      simpa using hseen 0 List.mem_cons_self
    · intro source target hsource hoff _
      apply examined_of_not_mem_path
      rw [List.map_cons, hpath]
      exact List.not_mem_cons_of_ne_of_not_mem hsource hoff

omit [LinearOrder N] in
/-- Discovering a child. -/
theorem walking_enter
    (hwalk : Walking graph closed (tarjan, (node, cursor) :: frames))
    (hchild : (graph.targets node)[cursor]? = some child)
    (hfresh : tarjan.discovery child = none) :
    Walking graph closed
      (tarjan.enter child, (child, 0) :: (node, cursor + 1) :: frames) := by
  have hstep : graph.Step node child := List.mem_of_getElem? hchild
  have hpath : ((node, cursor + 1) :: frames).map Prod.fst =
      ((node, cursor) :: frames).map Prod.fst := rfl
  apply walking_push hwalk hfresh (graph.lt_of_mem_targets hstep).2 hpath
  · intro upper hupper
    exact (hwalk.inv.reach_top rfl hupper).tail hstep
  · intro source target hseen
    exact (examined_advance hchild hseen).imp_right And.right

omit [LinearOrder N] in
/-- Reading an edge to a node discovered before.  `low` is the low-link the
walk leaves at `node`. -/
theorem walking_advance {index low : ℕ}
    (hwalk : Walking graph closed (tarjan, (node, cursor) :: frames))
    (hchild : (graph.targets node)[cursor]? = some child)
    (hseen : tarjan.discovery child = some index)
    (hlow : low =
      if tarjan.onStack child then min (tarjan.lowlink node) index
      else tarjan.lowlink node) :
    Walking graph closed
      ({ tarjan with lowlink := Function.update tarjan.lowlink node low },
        (node, cursor + 1) :: frames) := by
  have hplace : (search graph tarjan ((node, cursor) :: frames) closed).place
      child = index := by
    simp [LowLink.place, search, hseen]
  refine ⟨hwalk.nodes, hwalk.adjacency, hwalk.components, hwalk.onStack_iff,
    hwalk.visited_lt, ?_⟩
  apply LowLink.inv_advance hwalk.inv rfl (List.mem_of_getElem? hchild)
  · simp [LowLink.Visited, search, hseen]
  · intro source target _ hread
    exact examined_advance hchild hread
  · intro source target hoff _
    apply examined_of_not_mem_path
    exact hoff
  · change low ≤ tarjan.lowlink node
    rw [hlow]
    split
    · exact min_le_left _ _
    · exact le_rfl
  · intro hopen
    rw [hplace, hlow, if_pos ((hwalk.onStack_iff child).2 hopen)]
    exact min_le_right _ _
  · rw [hplace, hlow]
    by_cases hopen : tarjan.onStack child = true
    · rw [if_pos hopen]
      cases min_choice (tarjan.lowlink node) index with
      | inl hkept => exact Or.inl hkept
      | inr hnew => exact Or.inr ⟨(hwalk.onStack_iff child).1 hopen, hnew⟩
    · rw [if_neg hopen]
      exact Or.inl rfl

omit [LinearOrder N] in
/-- The root test of the walk. -/
theorem root_iff (hwalk : Walking graph closed (tarjan, (node, cursor) :: frames)) :
    tarjan.discovery node = some (tarjan.lowlink node) ↔
      (search graph tarjan ((node, cursor) :: frames) closed).low node =
        (search graph tarjan ((node, cursor) :: frames) closed).place node := by
  have hvisited := hwalk.inv.stack_visited node
    (hwalk.inv.path_stack node List.mem_cons_self)
  rw [show tarjan.discovery node = _ from hvisited.order_eq, Option.some.injEq]
  exact eq_comm

omit [LinearOrder N] in
/-- Leaving a node whose low-link lies below it. -/
theorem walking_leave {parent next : ℕ}
    (hwalk : Walking graph closed
      (tarjan, (node, cursor) :: (parent, next) :: frames))
    (hdone : (graph.targets node)[cursor]? = none)
    (hopen : tarjan.discovery node ≠ some (tarjan.lowlink node)) :
    Walking graph closed
      (tarjan.lower parent (tarjan.lowlink node), (parent, next) :: frames) := by
  refine ⟨hwalk.nodes, hwalk.adjacency, hwalk.components, hwalk.onStack_iff,
    hwalk.visited_lt, ?_⟩
  apply LowLink.inv_leave hwalk.inv rfl
  · exact mt (root_iff hwalk).2 hopen
  · intro source target hstep hread
    exact examined_exhausted hdone hstep hread
  · intro source target hoff _
    exact examined_of_not_mem_path hoff target

/-! ### Closing a component -/

omit [LinearOrder N] in
/-- The loop of `close_component` takes the stack down to the root. -/
theorem popComponent_spec (nodes : List N) {root : ℕ} {rest : List ℕ}
    {above : List ℕ} (hroot : root ∉ above) (onStack : ℕ → Bool)
    (component : List N) :
    popComponent nodes root (above ++ root :: rest) onStack component =
      (rest, fun node => decide (node ∉ above ++ [root]) && onStack node,
        component ++ (above ++ [root]).filterMap fun node => nodes[node]?) := by
  induction above generalizing onStack component with
  | nil =>
      simp only [List.nil_append, popComponent, if_true, List.filterMap_cons,
        List.filterMap_nil, Prod.mk.injEq, true_and]
      constructor
      · funext node
        by_cases hnode : node = root <;> simp [hnode]
      · cases nodes[root]? <;> rfl
  | cons first above ih =>
      have hfirst : first ≠ root := fun heq => hroot (by simp [heq])
      have habove : root ∉ above := fun hmem => hroot (by simp [hmem])
      simp only [List.cons_append, popComponent, if_neg hfirst,
        ih habove, Prod.mk.injEq, true_and]
      constructor
      · funext node
        by_cases hnode : node = first <;> simp [hnode]
      · cases hget : nodes[first]? <;> simp [hget]

omit [LinearOrder N] in
/-- Closing the component of a root and leaving it. -/
theorem walking_close
    (hwalk : Walking graph closed (tarjan, (node, cursor) :: frames))
    (hdone : (graph.targets node)[cursor]? = none)
    (hroot : tarjan.discovery node = some (tarjan.lowlink node)) :
    ∃ component, Walking graph (closed ++ [component])
      (tarjan.closeComponent node, frames) := by
  have hnode : node ∈ tarjan.componentStack :=
    hwalk.inv.path_stack node List.mem_cons_self
  obtain ⟨above, rest, hstack, habove⟩ := List.eq_append_cons_of_mem hnode
  have hsplit : tarjan.componentStack = (above ++ [node]) ++ rest := by
    rw [hstack]
    simp
  have hclose : tarjan.closeComponent node =
      { tarjan with
        componentStack := rest
        onStack := fun other =>
          decide (other ∉ above ++ [node]) && tarjan.onStack other
        components := tarjan.components ++ [graph.names (above ++ [node])] } := by
    rw [closeComponent, hstack, popComponent_spec tarjan.nodes habove,
      List.nil_append, show tarjan.nodes = graph.nodeIds from hwalk.nodes]
    rfl
  have hmem := hwalk.inv.mem_component_iff hsplit rfl
  refine ⟨above ++ [node], ?_⟩
  rw [hclose]
  refine ⟨hwalk.nodes, hwalk.adjacency, ?_, ?_, hwalk.visited_lt, ?_⟩
  · rw [List.map_append, ← hwalk.components]
    rfl
  · intro other
    have hopen := hwalk.onStack_iff other
    simp only [Bool.and_eq_true, decide_eq_true_eq, hopen, hmem.1, hmem.2]
    grind [search]
  · apply LowLink.inv_close hwalk.inv rfl ((root_iff hwalk).1 hroot)
    · intro target hstep
      apply examined_exhausted hdone hstep
      apply examined_of_not_mem_path
      intro hbelow
      have hsorted := (List.pairwise_cons.1 hwalk.inv.path_sorted).1
      exact absurd (hsorted node hbelow) (lt_irrefl _)
    · intro source target hstep hread
      exact examined_exhausted hdone hstep hread
    · intro source target hoff _
      apply examined_of_not_mem_path
      exact hoff
    · exact hsplit
    · rfl

omit [LinearOrder N] in
/-- Lowering a parent to the low-link of a child that is a root changes
nothing: the child was discovered after the parent. -/
theorem lower_parent_of_root {parent next : ℕ}
    (hwalk : Walking graph closed
      (tarjan, (node, cursor) :: (parent, next) :: frames))
    (hroot : tarjan.discovery node = some (tarjan.lowlink node)) :
    (tarjan.closeComponent node).lower parent (tarjan.lowlink node) =
      tarjan.closeComponent node := by
  have hlower := (List.pairwise_cons.1 hwalk.inv.path_sorted).1 parent
    List.mem_cons_self
  have hlow := hwalk.inv.low_le parent (hwalk.inv.path_stack parent
    (List.mem_cons_of_mem _ List.mem_cons_self))
  have hmin : min (tarjan.lowlink parent) (tarjan.lowlink node) =
      tarjan.lowlink parent := by
    apply min_eq_left
    exact hlow.trans (hlower.le.trans ((root_iff hwalk).1 hroot).ge)
  have hkept : (tarjan.closeComponent node).lowlink = tarjan.lowlink := rfl
  rw [lower, hkept, hmin, ← hkept, Function.update_eq_self]

/-! ### One round -/

/-- The edges and nodes still to be read: a node not yet discovered has all its
edges left, a frame those its cursor has not passed. -/
def remaining (graph : Graph N) (state : Tarjan N × List (ℕ × ℕ)) : ℕ :=
  (∑ node ∈ Finset.range graph.nodeIds.length,
      if (state.1.discovery node).isNone then (graph.targets node).length + 1
      else 0) +
    (state.2.map fun frame =>
      (graph.targets frame.1).length - frame.2 + 1).sum

omit [LinearOrder N] in
/-- Discovering a node moves its edges from the undiscovered to its frame. -/
theorem remaining_push {below : List (ℕ × ℕ)}
    (hfresh : tarjan.discovery child = none)
    (hlt : child < graph.nodeIds.length) :
    remaining graph (tarjan.enter child, (child, 0) :: below) =
      remaining graph (tarjan, below) := by
  have hmem : child ∈ Finset.range graph.nodeIds.length :=
    Finset.mem_range.2 hlt
  have hothers : ∀ other ∈ (Finset.range graph.nodeIds.length).erase child,
      (tarjan.enter child).discovery other = tarjan.discovery other := by
    intro other hother
    exact Function.update_of_ne (Finset.ne_of_mem_erase hother) _ _
  have hself : (tarjan.enter child).discovery child = some tarjan.nextIndex :=
    Function.update_self _ _ _
  simp only [remaining, List.map_cons, List.sum_cons]
  rw [← Finset.add_sum_erase _ _ hmem, ← Finset.add_sum_erase _ _ hmem,
    Finset.sum_congr rfl fun other hother => by rw [hothers other hother],
    hself, hfresh]
  simp only [Option.isNone_some, Option.isNone_none, if_true, Nat.sub_zero]
  simp only [Bool.false_eq_true, if_false]
  omega

omit [LinearOrder N] in
/-- A cursor that passes a child leaves one edge less to read. -/
theorem remaining_advance (hchild : (graph.targets node)[cursor]? = some child)
    (lowlink : ℕ → ℕ) :
    remaining graph
        ({ tarjan with lowlink := lowlink }, (node, cursor + 1) :: frames) <
      remaining graph (tarjan, (node, cursor) :: frames) := by
  have hcursor := (List.getElem?_eq_some_iff.1 hchild).1
  simp only [remaining, List.map_cons, List.sum_cons]
  omega

omit [LinearOrder N] in
/-- A round at a node with no child left drops its frame, closing its component
when it is a root. -/
theorem walking_pop {next : Tarjan N × List (ℕ × ℕ)}
    (hwalk : Walking graph closed (tarjan, (node, cursor) :: frames))
    (hdone : (graph.targets node)[cursor]? = none)
    (hstep : walkStep (tarjan, (node, cursor) :: frames) = some next) :
    (∃ closed, Walking graph closed next) ∧ next.2 = frames ∧
      next.1.discovery = tarjan.discovery := by
  have hchildren : tarjan.children node = graph.targets node :=
    children_eq hwalk node
  simp only [walkStep, hchildren, hdone] at hstep
  by_cases hroot : tarjan.discovery node = some (tarjan.lowlink node)
  · obtain ⟨component, hclosed⟩ := walking_close hwalk hdone hroot
    have hnext : next = (tarjan.closeComponent node, frames) := by
      simp only [hroot, if_true] at hstep
      cases frames with
      | nil => exact (Option.some.inj hstep).symm
      | cons frame frames =>
          rw [← lower_parent_of_root hwalk hroot]
          exact (Option.some.inj hstep).symm
    rw [hnext]
    exact ⟨⟨_, hclosed⟩, rfl, rfl⟩
  · simp only [hroot, if_false] at hstep
    cases frames with
    | nil =>
        -- the bottom of the path is always a root
        exact absurd ((root_iff hwalk).2 (hwalk.inv.low_bottom rfl)) hroot
    | cons frame frames =>
        rw [← Option.some.inj hstep]
        exact ⟨⟨closed, walking_leave hwalk hdone hroot⟩, rfl, rfl⟩

omit [LinearOrder N] in
/-- What one round of the loop does to a walk in progress. -/
theorem walkStep_spec {state next : Tarjan N × List (ℕ × ℕ)}
    (hwalk : Walking graph closed state) (hstep : walkStep state = some next) :
    (∃ closed, Walking graph closed next) ∧
      remaining graph next < remaining graph state ∧
      ∀ other, (state.1.discovery other).isSome →
        (next.1.discovery other).isSome := by
  obtain ⟨tarjan, frames⟩ := state
  cases frames with
  | nil => simp [walkStep] at hstep
  | cons frame frames =>
      obtain ⟨node, cursor⟩ := frame
      cases hchild : (graph.targets node)[cursor]? with
      | some child =>
          have hchildren : tarjan.children node = graph.targets node :=
            children_eq hwalk node
          simp only [walkStep, hchildren, hchild] at hstep
          cases hseen : tarjan.discovery child with
          | none =>
              simp only [hseen, Option.some.injEq] at hstep
              subst hstep
              have hlt := (graph.lt_of_mem_targets
                (List.mem_of_getElem? hchild)).2
              refine ⟨⟨closed, walking_enter hwalk hchild hseen⟩, ?_, ?_⟩
              · rw [remaining_push hseen hlt]
                exact remaining_advance hchild tarjan.lowlink
              · intro other hother
                by_cases hsame : other = child
                · simp [enter, hsame]
                · simpa [enter, hsame] using hother
          | some index =>
              have hnext : next =
                  ({ tarjan with
                      lowlink := Function.update tarjan.lowlink node
                        (if tarjan.onStack child then
                          min (tarjan.lowlink node) index
                        else tarjan.lowlink node) },
                    (node, cursor + 1) :: frames) := by
                simp only [hseen] at hstep
                split at hstep
                · rename_i hopen
                  simp only [hopen, if_true]
                  exact (Option.some.inj hstep).symm
                · rename_i hopen
                  simp only [hopen, Bool.false_eq_true, if_false,
                    Function.update_eq_self]
                  exact (Option.some.inj hstep).symm
              rw [hnext]
              exact ⟨⟨closed, walking_advance hwalk hchild hseen rfl⟩,
                remaining_advance hchild _, fun other hother => hother⟩
      | none =>
          obtain ⟨hkept, hframes, hdiscovery⟩ :=
            walking_pop hwalk hchild hstep
          refine ⟨hkept, ?_, ?_⟩
          · simp only [remaining, hframes, hdiscovery, List.map_cons,
              List.sum_cons]
            omega
          · rw [hdiscovery]
            exact fun other hother => hother

end Rounds

/-! ## Whole walks -/

section Walks

variable {graph : Graph N} {closed : List (List ℕ)} {tarjan : Tarjan N}
  {start : ℕ}

omit [LinearOrder N] in
/-- The fuel of a walk covers everything there is to read. -/
theorem remaining_le_walkFuel (hwalk : Walking graph closed (tarjan, [])) :
    remaining graph (tarjan, []) ≤ tarjan.walkFuel := by
  have hlists : graph.outEdges =
      (List.range graph.nodeIds.length).map graph.targets := by
    apply List.ext_getElem (by simp [graph.length_outEdges])
    intro source hsource _
    simp [Graph.targets, List.getElem?_eq_getElem hsource]
  have hfuel : tarjan.walkFuel = ∑ node ∈ Finset.range graph.nodeIds.length,
      ((graph.targets node).length + 1) := by
    rw [walkFuel, show tarjan.adjacency = _ from hwalk.adjacency, hlists,
      List.map_map]
    rfl
  rw [hfuel, remaining, List.map_nil, List.sum_nil, Nat.add_zero]
  apply Finset.sum_le_sum
  intro node _
  split
  · exact le_rfl
  · exact Nat.zero_le _

/-- A walk in progress that has discovered all of `seen`. -/
def Progress (graph : Graph N) (seen : ℕ → Prop)
    (state : Tarjan N × List (ℕ × ℕ)) : Prop :=
  (∃ closed, Walking graph closed state) ∧
    ∀ node, seen node → (state.1.discovery node).isSome

omit [LinearOrder N] in
/-- The loop exits only when no frame is left. -/
theorem walkStep_eq_none {state : Tarjan N × List (ℕ × ℕ)}
    (hexit : walkStep state = none) : state = (state.1, []) := by
  obtain ⟨tarjan, frames⟩ := state
  cases frames with
  | nil => rfl
  | cons frame frames =>
      revert hexit
      simp only [walkStep]
      split <;> split <;> simp
      split <;> simp

omit [LinearOrder N] in
theorem progress_step {seen : ℕ → Prop} (state next : Tarjan N × List (ℕ × ℕ))
    (hprogress : Progress graph seen state) (hstep : walkStep state = some next) :
    Progress graph seen next ∧ remaining graph next < remaining graph state := by
  obtain ⟨⟨closed, hwalk⟩, hseen⟩ := hprogress
  obtain ⟨hnext, hless, hkept⟩ := walkStep_spec hwalk hstep
  exact ⟨⟨hnext, fun node hnode => hkept node (hseen node hnode)⟩, hless⟩

omit [LinearOrder N] in
/-- A walk ends with every frame dropped, its start discovered and nothing
forgotten. -/
theorem walk_spec (hwalk : Walking graph closed (tarjan, []))
    (hfresh : tarjan.discovery start = none)
    (hlt : start < graph.nodeIds.length) :
    Progress graph (fun node => node = start ∨ (tarjan.discovery node).isSome)
      (tarjan.walk start, []) := by
  have hentered : Walking graph closed (tarjan.enter start, [(start, 0)]) :=
    walking_push hwalk hfresh hlt rfl (by simp) fun _ _ hread => Or.inl hread
  have hprogress : Progress graph
      (fun node => node = start ∨ (tarjan.discovery node).isSome)
      (tarjan.enter start, [(start, 0)]) := by
    refine ⟨⟨closed, hentered⟩, ?_⟩
    intro node hnode
    by_cases hsame : node = start
    · simp [enter, hsame]
    · simpa [enter, hsame] using hnode
  have hfuel : remaining graph (tarjan.enter start, [(start, 0)]) ≤
      tarjan.walkFuel := by
    rw [remaining_push hfresh hlt]
    exact remaining_le_walkFuel hwalk
  obtain ⟨hend, hexit⟩ :=
    whileLoop_spec progress_step tarjan.walkFuel hprogress hfuel
  rw [walk, ← walkStep_eq_none hexit]
  exact hend

omit [LinearOrder N] in
theorem walkFrom_spec {seen : ℕ → Prop}
    (hprogress : Progress graph seen (tarjan, []))
    (hlt : start < graph.nodeIds.length) :
    Progress graph (fun node => node = start ∨ seen node)
      (tarjan.walkFrom start, []) := by
  obtain ⟨⟨closed, hwalk⟩, hseen⟩ := hprogress
  rw [walkFrom]
  cases hstart : tarjan.discovery start with
  | none =>
      obtain ⟨hend, hkept⟩ := walk_spec hwalk hstart hlt
      refine ⟨hend, fun node hnode => hkept node ?_⟩
      exact hnode.imp_right (hseen node)
  | some index =>
      refine ⟨⟨closed, hwalk⟩, fun node hnode => ?_⟩
      cases hnode with
      | inl hsame => simp [hsame, hstart]
      | inr hold => exact hseen node hold

omit [LinearOrder N] in
/-- Walking from a list of starts discovers all of them. -/
theorem foldl_walkFrom_spec {starts : List ℕ}
    (hlt : ∀ start ∈ starts, start < graph.nodeIds.length)
    {seen : ℕ → Prop} (hprogress : Progress graph seen (tarjan, [])) :
    Progress graph (fun node => node ∈ starts ∨ seen node)
      (starts.foldl walkFrom tarjan, []) := by
  induction starts generalizing tarjan seen with
  | nil => simpa using hprogress
  | cons start starts ih =>
      have hfirst := walkFrom_spec hprogress (hlt start List.mem_cons_self)
      have hrest := ih (fun other hother => hlt other
        (List.mem_cons_of_mem _ hother)) hfirst
      refine ⟨hrest.1, fun node hnode => hrest.2 node ?_⟩
      simp only [List.mem_cons] at hnode
      tauto

end Walks

/-! ## The components of a run -/

theorem walking_new (graph : Graph N) : Walking graph [] (new graph, []) := by
  refine ⟨rfl, adjacency_new graph, rfl, ?_, ?_, ?_⟩
  · simp [new]
  · simp [new]
  · apply LowLink.inv_start
    intro source target _
    exact examined_of_not_mem_path (by simp) target

/-- A run closes every node of the graph into its class. -/
theorem walkAll_spec (graph : Graph N) :
    ∃ closed, Walking graph closed ((new graph).walkAll, []) ∧
      ∀ index, index ∈ closed.flatten ↔ index < graph.nodeIds.length := by
  have hstart : Progress graph (fun _ => False) (new graph, []) :=
    ⟨⟨[], walking_new graph⟩, fun _ hfalse => hfalse.elim⟩
  have hlt : ∀ start ∈ List.range graph.nodeIds.length,
      start < graph.nodeIds.length := by simp
  obtain ⟨⟨closed, hwalk⟩, hseen⟩ := foldl_walkFrom_spec hlt hstart
  refine ⟨closed, hwalk, fun index => ?_⟩
  apply (hwalk.inv.mem_closed_of_path_nil rfl index).trans
  constructor
  · exact hwalk.visited_lt index
  · intro hlt
    exact hseen index (Or.inl (List.mem_range.2 hlt))

end Tarjan

/-! ## Names instead of indices -/

section Names

variable {graph : Graph N}

omit [LinearOrder N] in
theorem Graph.mem_names_iff {indices : List ℕ} {node : N} :
    node ∈ graph.names indices ↔
      ∃ index ∈ indices, graph.nodeIds[index]? = some node :=
  List.mem_filterMap

omit [LinearOrder N] in
theorem Graph.nodup_names {indices : List ℕ} (hnodup : indices.Nodup) :
    (graph.names indices).Nodup := by
  apply hnodup.filterMap
  intro left right node hleft hright
  exact graph.getElem?_inj hleft hright

omit [LinearOrder N] in
theorem Graph.flatten_map_names (closed : List (List ℕ)) :
    (closed.map graph.names).flatten = graph.names closed.flatten := by
  induction closed with
  | nil => rfl
  | cons first closed ih =>
      rw [List.map_cons, List.flatten_cons, List.flatten_cons, ih]
      exact List.filterMap_append.symm

/-- A walk over indices spells a walk over the edges. -/
theorem Graph.reach_iff (edges : List (N × N)) {source target : ℕ}
    {origin destination : N}
    (horigin : (Graph.fromEdges edges).nodeIds[source]? = some origin)
    (hdestination : (Graph.fromEdges edges).nodeIds[target]? = some destination) :
    ReflTransGen (Graph.fromEdges edges).Step source target ↔
      ReflTransGen (fun left right => (left, right) ∈ edges) origin destination := by
  constructor
  · intro hreach
    induction hreach generalizing destination with
    | refl =>
        rw [horigin] at hdestination
        rw [Option.some.inj hdestination]
    | tail _ hstep ih =>
        obtain ⟨edge, hedge, hmiddle, htarget⟩ :=
          (Graph.mem_targets_fromEdges edges _ _).1 hstep
        rw [hdestination] at htarget
        apply (ih hmiddle).tail
        rw [Option.some.inj htarget]
        exact hedge
  · intro hreach
    induction hreach generalizing target with
    | refl => rw [Graph.getElem?_inj _ horigin hdestination]
    | @tail middle destination _ hedge ih =>
        have hnode : middle ∈ (Graph.fromEdges edges).nodeIds :=
          (Graph.mem_nodeIds_fromEdges edges middle).2
            ⟨_, hedge, Or.inl rfl⟩
        obtain ⟨between, hbetween⟩ := List.mem_iff_getElem?.1 hnode
        apply (ih hbetween).tail
        exact (Graph.mem_targets_fromEdges edges _ _).2
          ⟨_, hedge, hbetween, hdestination⟩

end Names

/-- The nodes of a list of edges. -/
def endpoints (edges : List (N × N)) : Set N :=
  { node | ∃ edge ∈ edges, node = edge.1 ∨ node = edge.2 }

section Run

variable (edges : List (N × N)) {closed : List (List ℕ)}

theorem mem_run_iff {tarjan : Tarjan N} {graph : Graph N}
    (hcomponents : tarjan.walkAll.components = closed.map graph.names)
    (component : List N) :
    component ∈ tarjan.run ↔
      ∃ indices ∈ closed,
        (graph.names indices).insertionSort (· ≤ ·) = component := by
  rw [Tarjan.run, hcomponents, (List.perm_insertionSort _ _).mem_iff]
  simp

theorem flatten_run_perm {tarjan : Tarjan N} {graph : Graph N}
    (hcomponents : tarjan.walkAll.components = closed.map graph.names) :
    tarjan.run.flatten.Perm (graph.names closed.flatten) := by
  rw [Tarjan.run, hcomponents, ← Graph.flatten_map_names]
  apply (List.perm_insertionSort (· ≤ ·) _).flatten.trans
  exact flatten_map_perm (List.perm_insertionSort (· ≤ ·)) _

/-- `run` sorts what the walks closed. -/
theorem sortedClasses_fromEdges :
    SortedClasses (endpoints edges) (fun left right => (left, right) ∈ edges)
      (stronglyConnectedComponents (Graph.fromEdges edges)) := by
  rw [stronglyConnectedComponents]
  obtain ⟨closed, hwalk, hall⟩ := Tarjan.walkAll_spec (Graph.fromEdges edges)
  have hmem := mem_run_iff hwalk.components
  have hperm := flatten_run_perm hwalk.components
  have hindex : ∀ node ∈ endpoints edges, ∃ indices ∈ closed, ∃ index ∈ indices,
      (Graph.fromEdges edges).nodeIds[index]? = some node := by
    intro node hnode
    obtain ⟨index, hget⟩ := List.mem_iff_getElem?.1
      ((Graph.mem_nodeIds_fromEdges edges node).2 hnode)
    obtain ⟨indices, hindices, hmember⟩ := List.mem_flatten.1
      ((hall index).2 (List.getElem?_eq_some_iff.1 hget).1)
    exact ⟨indices, hindices, index, hmember, hget⟩
  have hnodup : (Tarjan.new (Graph.fromEdges edges)).run.flatten.Nodup :=
    hperm.nodup_iff.2 (Graph.nodup_names hwalk.inv.nodup_closed)
  have hnonempty : [] ∉ (Tarjan.new (Graph.fromEdges edges)).run := by
    intro hempty
    obtain ⟨indices, hindices, hsorted⟩ := (hmem []).1 hempty
    obtain ⟨index, hindexMem⟩ := List.exists_mem_of_ne_nil indices
      fun hnil => hwalk.inv.nonempty_closed (hnil ▸ hindices)
    have hlt := (hall index).1 (List.mem_flatten.2 ⟨indices, hindices, hindexMem⟩)
    have hname := Graph.mem_names_iff.2
      ⟨index, hindexMem, List.getElem?_eq_getElem hlt⟩
    rw [← (List.perm_insertionSort (· ≤ ·) _).mem_iff, hsorted] at hname
    exact List.not_mem_nil hname
  refine ⟨?_, hnodup, ?_, hnonempty, ?_, ?_⟩
  · intro node
    rw [hperm.mem_iff, Graph.mem_names_iff]
    constructor
    · rintro ⟨index, _, hget⟩
      exact (Graph.mem_nodeIds_fromEdges edges node).1 (List.mem_of_getElem? hget)
    · intro hnode
      obtain ⟨indices, hindices, index, hmember, hget⟩ := hindex node hnode
      exact ⟨index, List.mem_flatten.2 ⟨indices, hindices, hmember⟩, hget⟩
  · intro left hleft right hright
    constructor
    · rintro ⟨component, hcomponent, hleftMem, hrightMem⟩
      obtain ⟨indices, hindices, rfl⟩ := (hmem component).1 hcomponent
      rw [(List.perm_insertionSort _ _).mem_iff, Graph.mem_names_iff]
        at hleftMem hrightMem
      obtain ⟨source, hsource, hsourceName⟩ := hleftMem
      obtain ⟨target, htarget, htargetName⟩ := hrightMem
      have hclass := (hwalk.inv.closed_class indices hindices source hsource
        target).1 htarget
      exact ⟨(Graph.reach_iff edges hsourceName htargetName).1 hclass.1,
        (Graph.reach_iff edges htargetName hsourceName).1 hclass.2⟩
    · rintro ⟨hforth, hback⟩
      obtain ⟨indices, hindices, source, hsource, hsourceName⟩ :=
        hindex left hleft
      obtain ⟨_, _, target, _, htargetName⟩ := hindex right hright
      have htarget := (hwalk.inv.closed_class indices hindices source hsource
        target).2
        ⟨(Graph.reach_iff edges hsourceName htargetName).2 hforth,
          (Graph.reach_iff edges htargetName hsourceName).2 hback⟩
      refine ⟨_, (hmem _).2 ⟨indices, hindices, rfl⟩, ?_, ?_⟩
      · rw [(List.perm_insertionSort _ _).mem_iff]
        exact Graph.mem_names_iff.2 ⟨source, hsource, hsourceName⟩
      · rw [(List.perm_insertionSort _ _).mem_iff]
        exact Graph.mem_names_iff.2 ⟨target, htarget, htargetName⟩
  · intro component hcomponent
    obtain ⟨indices, hindices, rfl⟩ := (hmem component).1 hcomponent
    apply pairwise_lt_insertionSort
    apply Graph.nodup_names
    exact (List.nodup_flatten.1 hwalk.inv.nodup_closed).1 indices hindices
  · have hdistinct := nodup_of_nodup_flatten hnodup hnonempty
    rw [Tarjan.run] at hdistinct ⊢
    apply pairwise_lt_insertionSort
    exact (List.perm_insertionSort (· ≤ ·) _).nodup_iff.1 hdistinct

/-- Nothing but the set of edges decides the components. -/
theorem stronglyConnectedComponents_congr {edges other : List (N × N)}
    (hsame : ∀ edge, edge ∈ other ↔ edge ∈ edges) :
    stronglyConnectedComponents (Graph.fromEdges other) =
      stronglyConnectedComponents (Graph.fromEdges edges) := by
  have hother := sortedClasses_fromEdges other
  simp only [endpoints, hsame] at hother
  exact hother.unique (sortedClasses_fromEdges edges)

theorem cycles_fromEdges :
    cycles (Graph.fromEdges edges) =
      (stronglyConnectedComponents (Graph.fromEdges edges)).filter fun component =>
        2 ≤ component.length ∨
          ∃ only ∈ component, component = [only] ∧ (only, only) ∈ edges := by
  apply List.filter_congr
  intro component hcomponent
  match component with
  | [] => exact absurd hcomponent (sortedClasses_fromEdges edges).nonempty
  | [only] =>
      rw [Bool.eq_iff_iff, Graph.containsEdge_fromEdges]
      simp
  | _ :: _ :: _ => simp

/-- The components of a graph built from any list of edges: every endpoint lies
in exactly one of them, two endpoints share one exactly when each is reachable
from the other, and they come out sorted.  Its cycles are those with two members
or a self-loop.  Permuting or repeating edges changes neither. -/
theorem components_and_cycles (edges : List (N × N)) :
    let components := stronglyConnectedComponents (Graph.fromEdges edges)
    let reaches := ReflTransGen fun source target => (source, target) ∈ edges
    (∀ node, node ∈ (Graph.fromEdges edges).nodeIds ↔
      ∃ edge ∈ edges, node = edge.1 ∨ node = edge.2) ∧
    components.flatten.Perm (Graph.fromEdges edges).nodeIds ∧
    (∀ node ∈ (Graph.fromEdges edges).nodeIds,
      ∃! component, component ∈ components ∧ node ∈ component) ∧
    (∀ left ∈ (Graph.fromEdges edges).nodeIds,
      ∀ right ∈ (Graph.fromEdges edges).nodeIds,
        (∃ component ∈ components, left ∈ component ∧ right ∈ component) ↔
          reaches left right ∧ reaches right left) ∧
    (∀ component ∈ components, component.Pairwise (· < ·)) ∧
    components.Pairwise (· < ·) ∧
    cycles (Graph.fromEdges edges) = components.filter (fun component =>
      2 ≤ component.length ∨
        ∃ only ∈ component, component = [only] ∧ (only, only) ∈ edges) ∧
    ∀ other : List (N × N), (∀ edge, edge ∈ other ↔ edge ∈ edges) →
      stronglyConnectedComponents (Graph.fromEdges other) = components ∧
        cycles (Graph.fromEdges other) = cycles (Graph.fromEdges edges) := by
  intro components reaches
  have hclasses := sortedClasses_fromEdges edges
  have hnodes := Graph.mem_nodeIds_fromEdges edges
  refine ⟨hnodes, ?_, ?_, ?_, hclasses.members_sorted, hclasses.sorted,
    cycles_fromEdges edges, ?_⟩
  · apply (List.perm_ext_iff_of_nodup hclasses.nodup
      (Graph.fromEdges edges).nodup_nodeIds).2
    intro node
    rw [hnodes]
    exact hclasses.mem_iff node
  · intro node hnode
    obtain ⟨component, hcomponent, hmember⟩ := List.mem_flatten.1
      ((hclasses.mem_iff node).2 ((hnodes node).1 hnode))
    refine ⟨component, ⟨hcomponent, hmember⟩, ?_⟩
    rintro other ⟨hother, hmemberOther⟩
    exact hclasses.eq_of_mem hother hcomponent hmemberOther hmember
  · intro left hleft right hright
    exact hclasses.same_iff left ((hnodes left).1 hleft) right
      ((hnodes right).1 hright)
  · intro other hsame
    refine ⟨stronglyConnectedComponents_congr hsame, ?_⟩
    rw [cycles_fromEdges, cycles_fromEdges,
      stronglyConnectedComponents_congr hsame]
    simp only [hsame]

end Run

end Ktsense.Core
