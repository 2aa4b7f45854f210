import Mathlib

/-!
# Low-link depth-first search

The state of Tarjan's algorithm, over an arbitrary node type and edge relation:
the order in which nodes were discovered, the stack of discovered nodes whose
component is still open, the path of nodes whose edges are still being read,
and one low-link per node.  Each of the four things the search can do keeps
`LowLink.Inv`, and an exhausted search has closed every node it discovered into
its class of mutually reachable nodes.
-/

namespace Ktsense.Foundation

open Relation

variable {V : Type*}

/-- A search in progress.  Stack and path are written top first; `examined`
says which edges of the nodes on the path have been read. -/
structure LowLink (V : Type*) where
  order : V → Option ℕ
  low : V → ℕ
  stack : List V
  path : List V
  next : ℕ
  examined : V → V → Prop
  closed : List (List V)

namespace LowLink

def Visited (search : LowLink V) (node : V) : Prop :=
  (search.order node).isSome

/-- Discovery index of a visited node. -/
def place (search : LowLink V) (node : V) : ℕ :=
  (search.order node).getD 0

theorem Visited.order_eq {search : LowLink V} {node : V}
    (hvisited : search.Visited node) :
    search.order node = some (search.place node) := by
  obtain ⟨index, hindex⟩ := Option.isSome_iff_exists.1 hvisited
  simp [place, hindex]

/-- The invariant of the search.  `low_bound` is the one that makes the
low-links complete: an edge already read from a node that the path node `node`
owns, to a node whose component is open, is reflected in the low-link of
`node`. -/
structure Inv (edge : V → V → Prop) (search : LowLink V) : Prop where
  order_lt : ∀ node index,
    search.order node = some index → index < search.next
  order_inj : ∀ left right index, search.order left = some index →
    search.order right = some index → left = right
  stack_visited : ∀ node ∈ search.stack, search.Visited node
  stack_sorted : search.stack.Pairwise fun upper lower =>
    search.place lower < search.place upper
  path_stack : ∀ node ∈ search.path, node ∈ search.stack
  path_sorted : search.path.Pairwise fun upper lower =>
    search.place lower < search.place upper
  path_reach : ∀ node ∈ search.path, ∀ other ∈ search.stack,
    search.place node ≤ search.place other → ReflTransGen edge node other
  stack_owned : ∀ other ∈ search.stack,
    ∃ node ∈ search.path, search.place node ≤ search.place other
  examined_visited : ∀ source target, search.Visited source →
    edge source target → search.examined source target →
    search.Visited target
  examined_off_path : ∀ source target, source ∉ search.path →
    edge source target → search.examined source target
  low_le : ∀ node ∈ search.stack, search.low node ≤ search.place node
  low_reach : ∀ node ∈ search.stack, ∃ other ∈ search.stack,
    search.place other = search.low node ∧ ReflTransGen edge node other
  low_lt : ∀ node ∈ search.stack, node ∉ search.path →
    search.low node < search.place node
  low_bound : ∀ above node below, search.path = above ++ node :: below →
    ∀ source ∈ search.stack, search.place node ≤ search.place source →
    (∀ upper ∈ above, search.place source < search.place upper) →
    ∀ target ∈ search.stack, edge source target →
    search.examined source target → search.low node ≤ search.place target
  done_step : ∀ source target, search.Visited source →
    source ∉ search.stack → edge source target →
    search.Visited target ∧ target ∉ search.stack
  mem_closed : ∀ node, node ∈ search.closed.flatten ↔
    search.Visited node ∧ node ∉ search.stack
  nodup_closed : search.closed.flatten.Nodup
  nonempty_closed : [] ∉ search.closed
  closed_class : ∀ component ∈ search.closed, ∀ node ∈ component, ∀ other,
    other ∈ component ↔
      ReflTransGen edge node other ∧ ReflTransGen edge other node

/-- Before anything is discovered. -/
def start (examined : V → V → Prop) : LowLink V where
  order := fun _ => none
  low := fun _ => 0
  stack := []
  path := []
  next := 0
  examined := examined
  closed := []

theorem inv_start {edge examined : V → V → Prop}
    (hexamined : ∀ source target, edge source target →
      examined source target) : (start examined).Inv edge := by
  constructor <;> simp_all [start, Visited]

section Steps

variable {edge : V → V → Prop} {search : LowLink V}

theorem Inv.place_lt (hinv : search.Inv edge) {node : V}
    (hvisited : search.Visited node) : search.place node < search.next :=
  hinv.order_lt node _ hvisited.order_eq

/-- Nodes whose component is closed only reach nodes whose component is
closed. -/
theorem Inv.done_reach (hinv : search.Inv edge) {source target : V}
    (hvisited : search.Visited source) (hdone : source ∉ search.stack)
    (hreach : ReflTransGen edge source target) :
    search.Visited target ∧ target ∉ search.stack := by
  induction hreach with
  | refl => exact ⟨hvisited, hdone⟩
  | tail _ hstep ih => exact hinv.done_step _ _ ih.1 ih.2 hstep

/-- Every node on the path reaches the node on top of it. -/
theorem Inv.reach_top (hinv : search.Inv edge) {top upper : V} {below : List V}
    (hpath : search.path = top :: below) (hupper : upper ∈ search.path) :
    ReflTransGen edge upper top := by
  have htop : top ∈ search.stack := hinv.path_stack top (by simp [hpath])
  apply hinv.path_reach upper hupper top htop
  have hsorted := hinv.path_sorted
  rw [hpath] at hsorted hupper
  cases List.mem_cons.1 hupper with
  | inl hsame => rw [hsame]
  | inr hbelow => exact ((List.pairwise_cons.1 hsorted).1 upper hbelow).le

/-- The bottom node of the path is a root: nothing earlier is open. -/
theorem Inv.low_bottom (hinv : search.Inv edge) {node : V}
    (hpath : search.path = [node]) : search.low node = search.place node := by
  have hnode : node ∈ search.stack := hinv.path_stack node (by simp [hpath])
  apply le_antisymm (hinv.low_le node hnode)
  obtain ⟨other, hother, hplace, _⟩ := hinv.low_reach node hnode
  obtain ⟨owner, howner, hle⟩ := hinv.stack_owned other hother
  rw [hpath, List.mem_singleton] at howner
  rwa [← hplace, ← howner]

/-! ## Reading an edge to a visited node -/

/-- The top node reads one more edge, to a visited node, and takes `low` as its
low-link. -/
def advance [DecidableEq V] (search : LowLink V) (node : V) (low : ℕ)
    (examined : V → V → Prop) : LowLink V :=
  { search with low := Function.update search.low node low, examined := examined }

/-- The top node of the path is owned by no node but itself. -/
theorem owner_of_top {node owner : V} {below above rest : List V}
    (hsplit : node :: below = above ++ owner :: rest)
    (habove : ∀ upper ∈ above, search.place node < search.place upper) : owner = node := by
  cases above with
  | nil => exact (List.cons.inj hsplit).1.symm
  | cons first others =>
      obtain ⟨rfl, -⟩ := List.cons.inj hsplit
      exact absurd (habove node List.mem_cons_self) (lt_irrefl _)

theorem inv_advance [DecidableEq V] (hinv : search.Inv edge) {node child : V}
    {below : List V} {low : ℕ} {examined : V → V → Prop}
    (hpath : search.path = node :: below) (hedge : edge node child)
    (hchild : search.Visited child)
    (hexamined : ∀ source target, edge source target →
      examined source target →
      search.examined source target ∨ source = node ∧ target = child)
    (hoff : ∀ source target, source ∉ search.path → edge source target →
      examined source target)
    (hlower : low ≤ search.low node)
    (hbound : child ∈ search.stack → low ≤ search.place child)
    (hreach : low = search.low node ∨
      child ∈ search.stack ∧ low = search.place child) :
    (search.advance node low examined).Inv edge := by
  have hnode : node ∈ search.path := by simp [hpath]
  have hstack : node ∈ search.stack := hinv.path_stack node hnode
  have hlow : ∀ other, Function.update search.low node low other ≤
      search.low other := by
    intro other
    by_cases hother : other = node
    · subst hother
      simpa using hlower
    · simp [hother]
  refine
    { hinv with
      examined_visited := ?examinedVisited
      examined_off_path := hoff
      low_le := fun other hother => (hlow other).trans (hinv.low_le other hother)
      low_reach := ?lowReach
      low_lt := fun other hother hfree =>
        (hlow other).trans_lt (hinv.low_lt other hother hfree)
      low_bound := ?lowBound }
  case examinedVisited =>
    intro source target hvisited hstep hread
    rcases hexamined source target hstep hread with hold | ⟨rfl, rfl⟩
    · exact hinv.examined_visited source target hvisited hstep hold
    · exact hchild
  case lowReach =>
    intro other hother
    by_cases hsame : other = node
    · subst hsame
      simp only [advance, Function.update_self]
      rcases hreach with hkept | ⟨hopen, hplace⟩
      · rw [hkept]
        exact hinv.low_reach other hother
      · exact ⟨child, hopen, hplace.symm, ReflTransGen.single hedge⟩
    · simp only [advance, Function.update_of_ne hsame]
      exact hinv.low_reach other hother
  case lowBound =>
    intro above owner rest hsplit source hsource howner habove target htarget hstep hread
    rcases hexamined source target hstep hread with hold | ⟨rfl, rfl⟩
    · exact (hlow owner).trans (hinv.low_bound above owner rest hsplit source
        hsource howner habove target htarget hstep hold)
    · obtain rfl : owner = source := owner_of_top (hpath.symm.trans hsplit) habove
      have hnew : Function.update search.low owner low owner = low := Function.update_self _ _ _
      exact hnew.le.trans (hbound htarget)

/-! ## Discovering a node -/

/-- Discover `node` and read its edges next. -/
def enter [DecidableEq V] (search : LowLink V) (node : V)
    (examined : V → V → Prop) : LowLink V :=
  { search with
    order := Function.update search.order node (some search.next)
    low := Function.update search.low node search.next
    stack := node :: search.stack
    path := node :: search.path
    next := search.next + 1
    examined := examined }

section Enter

variable [DecidableEq V] {node : V} {examined : V → V → Prop}

theorem visited_enter {other : V} :
    (search.enter node examined).Visited other ↔ other = node ∨ search.Visited other := by
  by_cases hother : other = node
  · simp [Visited, enter, hother]
  · simp [Visited, enter, hother]

theorem place_enter_self : (search.enter node examined).place node = search.next := by
  simp [place, enter]

theorem place_enter {other : V} (hne : other ≠ node) :
    (search.enter node examined).place other = search.place other := by
  simp [place, enter, hne]

theorem low_enter_self : (search.enter node examined).low node = search.next := by
  simp [enter]

theorem low_enter {other : V} (hne : other ≠ node) :
    (search.enter node examined).low other = search.low other := by
  simp [enter, hne]

theorem Inv.order_lt_enter (hinv : search.Inv edge) {other : V} {index : ℕ}
    (hindex : (search.enter node examined).order other = some index) :
    index < (search.enter node examined).next := by
  by_cases hother : other = node
  · subst hother
    simp only [enter, Function.update_self, Option.some.injEq] at hindex ⊢
    omega
  · simp only [enter, Function.update_of_ne hother] at hindex ⊢
    exact (hinv.order_lt other index hindex).trans (Nat.lt_succ_self _)

theorem Inv.order_inj_enter (hinv : search.Inv edge) {left right : V} {index : ℕ}
    (hleft : (search.enter node examined).order left = some index)
    (hright : (search.enter node examined).order right = some index) : left = right := by
  by_cases hleftEq : left = node <;> by_cases hrightEq : right = node
  · rw [hleftEq, hrightEq]
  · subst hleftEq
    simp only [enter, Function.update_self, Option.some.injEq,
      Function.update_of_ne hrightEq] at hleft hright
    have := hinv.order_lt right index hright
    omega
  · subst hrightEq
    simp only [enter, Function.update_self, Option.some.injEq,
      Function.update_of_ne hleftEq] at hleft hright
    have := hinv.order_lt left index hleft
    omega
  · simp only [enter, Function.update_of_ne hleftEq,
      Function.update_of_ne hrightEq] at hleft hright
    exact hinv.order_inj left right index hleft hright

section Fresh

variable (hinv : search.Inv edge) (hfresh : ¬search.Visited node)

include hfresh

omit [DecidableEq V] in
theorem ne_of_fresh {other : V} (hvisited : search.Visited other) : other ≠ node := by
  rintro rfl
  exact hfresh hvisited

include hinv

omit [DecidableEq V] in
theorem Inv.ne_of_open {other : V} (hopen : other ∈ search.stack) : other ≠ node :=
  ne_of_fresh hfresh (hinv.stack_visited other hopen)

theorem Inv.place_enter_open {other : V} (hopen : other ∈ search.stack) :
    (search.enter node examined).place other = search.place other :=
  place_enter (hinv.ne_of_open hfresh hopen)

/-- What is open was discovered before. -/
theorem Inv.place_enter_lt {other : V} (hopen : other ∈ search.stack) :
    (search.enter node examined).place other < (search.enter node examined).place node := by
  rw [place_enter_self, hinv.place_enter_open hfresh hopen]
  exact hinv.place_lt (hinv.stack_visited other hopen)

/-- A part of the stack in the order of discovery, under the new node. -/
theorem Inv.sorted_enter {nodes : List V} (hnodes : ∀ other ∈ nodes, other ∈ search.stack)
    (hsorted : nodes.Pairwise fun upper lower => search.place lower < search.place upper) :
    (node :: nodes).Pairwise fun upper lower =>
      (search.enter node examined).place lower < (search.enter node examined).place upper := by
  refine List.pairwise_cons.2
    ⟨fun other hother => hinv.place_enter_lt hfresh (hnodes other hother), ?_⟩
  refine hsorted.imp_of_mem ?_
  intro upper lower hupper hlower hlt
  rwa [hinv.place_enter_open hfresh (hnodes upper hupper),
    hinv.place_enter_open hfresh (hnodes lower hlower)]

theorem Inv.path_reach_enter (hreach : ∀ upper ∈ search.path, ReflTransGen edge upper node)
    {upper other : V} (hupper : upper ∈ node :: search.path)
    (hother : other ∈ node :: search.stack)
    (hle : (search.enter node examined).place upper ≤
      (search.enter node examined).place other) : ReflTransGen edge upper other := by
  rcases List.mem_cons.1 hother with rfl | hold
  · rcases List.mem_cons.1 hupper with rfl | hbelow
    · exact ReflTransGen.refl
    · exact hreach upper hbelow
  · rcases List.mem_cons.1 hupper with rfl | hbelow
    · exact absurd hle (hinv.place_enter_lt hfresh hold).not_ge
    · have hopen := hinv.path_stack upper hbelow
      rw [hinv.place_enter_open hfresh hopen, hinv.place_enter_open hfresh hold] at hle
      exact hinv.path_reach upper hbelow other hold hle

theorem Inv.stack_owned_enter {other : V} (hother : other ∈ node :: search.stack) :
    ∃ upper ∈ node :: search.path, (search.enter node examined).place upper ≤
      (search.enter node examined).place other := by
  rcases List.mem_cons.1 hother with rfl | hold
  · exact ⟨other, List.mem_cons_self, le_rfl⟩
  · obtain ⟨upper, hupper, hle⟩ := hinv.stack_owned other hold
    refine ⟨upper, List.mem_cons_of_mem _ hupper, ?_⟩
    rwa [hinv.place_enter_open hfresh (hinv.path_stack upper hupper),
      hinv.place_enter_open hfresh hold]

theorem Inv.low_le_enter {other : V} (hother : other ∈ node :: search.stack) :
    (search.enter node examined).low other ≤ (search.enter node examined).place other := by
  rcases List.mem_cons.1 hother with rfl | hold
  · rw [low_enter_self, place_enter_self]
  · rw [low_enter (hinv.ne_of_open hfresh hold), hinv.place_enter_open hfresh hold]
    exact hinv.low_le other hold

theorem Inv.low_reach_enter {other : V} (hother : other ∈ node :: search.stack) :
    ∃ target ∈ node :: search.stack,
      (search.enter node examined).place target = (search.enter node examined).low other ∧
        ReflTransGen edge other target := by
  rcases List.mem_cons.1 hother with rfl | hold
  · exact ⟨other, List.mem_cons_self, by rw [low_enter_self, place_enter_self],
      ReflTransGen.refl⟩
  · obtain ⟨target, htarget, hplace, hsteps⟩ := hinv.low_reach other hold
    refine ⟨target, List.mem_cons_of_mem _ htarget, ?_, hsteps⟩
    rw [hinv.place_enter_open hfresh htarget, low_enter (hinv.ne_of_open hfresh hold), hplace]

theorem Inv.low_lt_enter {other : V} (hother : other ∈ node :: search.stack)
    (hfree : other ∉ node :: search.path) :
    (search.enter node examined).low other < (search.enter node examined).place other := by
  obtain ⟨hne, hoff⟩ := not_or.mp (mt List.mem_cons.2 hfree)
  have hold := (List.mem_cons.1 hother).resolve_left hne
  rw [low_enter hne, hinv.place_enter_open hfresh hold]
  exact hinv.low_lt other hold hoff

theorem Inv.examined_visited_enter
    (hexamined : ∀ source target, source ≠ node → edge source target →
      examined source target → search.examined source target ∨ target = node)
    (hunread : ∀ target, ¬examined node target) {source target : V}
    (hsource : (search.enter node examined).Visited source) (hstep : edge source target)
    (hread : examined source target) : (search.enter node examined).Visited target := by
  rw [visited_enter] at hsource ⊢
  rcases hsource with rfl | hold
  · exact absurd hread (hunread target)
  · rcases hexamined source target (ne_of_fresh hfresh hold) hstep hread with hseen | hnew
    · exact Or.inr (hinv.examined_visited source target hold hstep hseen)
    · exact Or.inl hnew

/-- An edge that has been read starts at a node discovered before, so the new node owns none;
for the others the new node lies above. -/
theorem Inv.low_bound_enter
    (hexamined : ∀ source target, source ≠ node → edge source target →
      examined source target → search.examined source target ∨ target = node)
    (hunread : ∀ target, ¬examined node target) {above below : List V} {owner : V}
    (hsplit : node :: search.path = above ++ owner :: below) {source target : V}
    (hsource : source ∈ node :: search.stack)
    (howner : (search.enter node examined).place owner ≤
      (search.enter node examined).place source)
    (habove : ∀ upper ∈ above, (search.enter node examined).place source <
      (search.enter node examined).place upper)
    (htarget : target ∈ node :: search.stack) (hstep : edge source target)
    (hread : examined source target) :
    (search.enter node examined).low owner ≤ (search.enter node examined).place target := by
  have hsourceNe : source ≠ node := by
    rintro rfl
    exact hunread target hread
  have hsourceOld := (List.mem_cons.1 hsource).resolve_left hsourceNe
  cases above with
  | nil =>
      obtain ⟨rfl, rfl⟩ := List.cons.inj hsplit
      exact absurd howner (hinv.place_enter_lt hfresh hsourceOld).not_ge
  | cons first above =>
      obtain ⟨rfl, hsplitOld⟩ := List.cons.inj hsplit
      have hownerOpen := hinv.path_stack owner (by simp [hsplitOld])
      rw [low_enter (hinv.ne_of_open hfresh hownerOpen)]
      rcases List.mem_cons.1 htarget with rfl | htargetOld
      · rw [place_enter_self]
        exact (hinv.low_le owner hownerOpen).trans
          (hinv.place_lt (hinv.stack_visited owner hownerOpen)).le
      · rw [hinv.place_enter_open hfresh htargetOld]
        rw [hinv.place_enter_open hfresh hownerOpen,
          hinv.place_enter_open hfresh hsourceOld] at howner
        have hseen := (hexamined source target hsourceNe hstep hread).resolve_right
          (hinv.ne_of_open hfresh htargetOld)
        refine hinv.low_bound above owner below hsplitOld source hsourceOld howner ?_ target
          htargetOld hstep hseen
        intro upper hupper
        have hupperOpen := hinv.path_stack upper (by simp [hsplitOld, hupper])
        have hlt := habove upper (List.mem_cons_of_mem _ hupper)
        rwa [hinv.place_enter_open hfresh hsourceOld,
          hinv.place_enter_open hfresh hupperOpen] at hlt

theorem Inv.done_step_enter {source target : V}
    (hsource : (search.enter node examined).Visited source)
    (hdone : source ∉ node :: search.stack) (hstep : edge source target) :
    (search.enter node examined).Visited target ∧ target ∉ node :: search.stack := by
  obtain ⟨hne, hclosed⟩ := not_or.mp (mt List.mem_cons.2 hdone)
  rw [visited_enter] at hsource ⊢
  have hold := hsource.resolve_left hne
  obtain ⟨hseen, hdoneToo⟩ := hinv.done_step source target hold hclosed hstep
  exact ⟨Or.inr hseen, List.not_mem_cons_of_ne_of_not_mem (ne_of_fresh hfresh hseen) hdoneToo⟩

theorem Inv.mem_closed_enter (other : V) :
    other ∈ search.closed.flatten ↔
      (search.enter node examined).Visited other ∧ other ∉ node :: search.stack := by
  rw [visited_enter, hinv.mem_closed, List.mem_cons, not_or]
  constructor
  · rintro ⟨hseen, hclosed⟩
    exact ⟨Or.inr hseen, ne_of_fresh hfresh hseen, hclosed⟩
  · rintro ⟨hseen, hother, hclosed⟩
    exact ⟨hseen.resolve_left hother, hclosed⟩

end Fresh

theorem inv_enter (hinv : search.Inv edge) (hfresh : ¬search.Visited node)
    (hreach : ∀ upper ∈ search.path, ReflTransGen edge upper node)
    (hexamined : ∀ source target, source ≠ node → edge source target →
      examined source target →
      search.examined source target ∨ target = node)
    (hunread : ∀ target, ¬examined node target)
    (hoff : ∀ source target, source ≠ node → source ∉ search.path →
      edge source target → examined source target) :
    (search.enter node examined).Inv edge where
  order_lt _ _ := hinv.order_lt_enter
  order_inj _ _ _ := hinv.order_inj_enter
  stack_visited other hother :=
    visited_enter.2 ((List.mem_cons.1 hother).imp_right (hinv.stack_visited other))
  stack_sorted := hinv.sorted_enter hfresh (fun _ => id) hinv.stack_sorted
  path_stack other hother := List.mem_cons.2
    ((List.mem_cons.1 hother).imp_right (hinv.path_stack other))
  path_sorted := hinv.sorted_enter hfresh hinv.path_stack hinv.path_sorted
  path_reach _ hupper _ := hinv.path_reach_enter hfresh hreach hupper
  stack_owned _ := hinv.stack_owned_enter hfresh
  examined_visited _ _ := hinv.examined_visited_enter hfresh hexamined hunread
  examined_off_path source target hsource :=
    hoff source target (fun heq => hsource (heq ▸ List.mem_cons_self))
      fun hmem => hsource (List.mem_cons_of_mem _ hmem)
  low_le _ := hinv.low_le_enter hfresh
  low_reach _ := hinv.low_reach_enter hfresh
  low_lt _ := hinv.low_lt_enter hfresh
  low_bound _ _ _ hsplit _ hsource howner habove _ :=
    hinv.low_bound_enter hfresh hexamined hunread hsplit hsource howner habove
  done_step _ _ := hinv.done_step_enter hfresh
  mem_closed := hinv.mem_closed_enter hfresh
  nodup_closed := hinv.nodup_closed
  nonempty_closed := hinv.nonempty_closed
  closed_class := hinv.closed_class

end Enter

/-! ## Leaving a node whose component stays open -/

/-- Leave `node`, whose edges are all read, and hand its low-link to the node
below it on the path. -/
def leave [DecidableEq V] (search : LowLink V) (node parent : V)
    (below : List V) (examined : V → V → Prop) : LowLink V :=
  { search with
    low := Function.update search.low parent
      (min (search.low parent) (search.low node))
    path := parent :: below
    examined := examined }

section Leave

variable [DecidableEq V] {node parent : V} {below : List V} {examined : V → V → Prop}

theorem low_leave_le (other : V) :
    (search.leave node parent below examined).low other ≤ search.low other := by
  by_cases hother : other = parent
  · subst hother
    simp [leave]
  · simp [leave, hother]

theorem low_leave_parent : (search.leave node parent below examined).low parent =
    min (search.low parent) (search.low node) := by
  simp [leave]

theorem low_leave {other : V} (hother : other ≠ parent) :
    (search.leave node parent below examined).low other = search.low other := by
  simp [leave, hother]

variable (hinv : search.Inv edge) (hpath : search.path = node :: parent :: below)

include hinv hpath

omit [DecidableEq V] in
/-- The node that is left was discovered from below. -/
theorem Inv.place_parent_lt : search.place parent < search.place node := by
  have hsorted := hinv.path_sorted
  rw [hpath] at hsorted
  exact (List.pairwise_cons.1 hsorted).1 parent List.mem_cons_self

omit [DecidableEq V] in
theorem Inv.stack_owned_leave {other : V} (hother : other ∈ search.stack) :
    ∃ owner ∈ parent :: below, search.place owner ≤ search.place other := by
  obtain ⟨owner, howner, hle⟩ := hinv.stack_owned other hother
  rw [hpath] at howner
  rcases List.mem_cons.1 howner with rfl | hbelow
  · exact ⟨parent, List.mem_cons_self, (hinv.place_parent_lt hpath).le.trans hle⟩
  · exact ⟨owner, hbelow, hle⟩

/-- The parent takes over what the node reached. -/
theorem Inv.low_reach_leave {other : V} (hother : other ∈ search.stack) :
    ∃ target ∈ search.stack,
      search.place target = (search.leave node parent below examined).low other ∧
        ReflTransGen edge other target := by
  by_cases hsame : other = parent
  · subst hsame
    rw [low_leave_parent]
    rcases min_choice (search.low other) (search.low node) with hkept | hnew
    · rw [hkept]
      exact hinv.low_reach other hother
    · have hnode : node ∈ search.stack := hinv.path_stack node (by simp [hpath])
      obtain ⟨target, htarget, hplace, hsteps⟩ := hinv.low_reach node hnode
      refine ⟨target, htarget, hplace.trans hnew.symm, ?_⟩
      exact (hinv.path_reach other (by simp [hpath]) node hnode
        (hinv.place_parent_lt hpath).le).trans hsteps
  · rw [low_leave hsame]
    exact hinv.low_reach other hother

theorem Inv.low_lt_leave (hopen : search.low node ≠ search.place node) {other : V}
    (hother : other ∈ search.stack) (hfree : other ∉ parent :: below) :
    (search.leave node parent below examined).low other < search.place other := by
  by_cases hsame : other = node
  · subst hsame
    have hne : other ≠ parent := by
      rintro rfl
      exact hfree List.mem_cons_self
    rw [low_leave hne]
    exact lt_of_le_of_ne (hinv.low_le other hother) hopen
  · refine (low_leave_le other).trans_lt (hinv.low_lt other hother ?_)
    rw [hpath]
    exact List.not_mem_cons_of_ne_of_not_mem hsame hfree

/-- What the node owned is the parent's now. -/
theorem Inv.low_bound_leave
    (hexamined : ∀ source target, edge source target →
      examined source target → search.examined source target)
    {above rest : List V} {owner : V} (hsplit : parent :: below = above ++ owner :: rest)
    {source target : V} (hsource : source ∈ search.stack)
    (howner : search.place owner ≤ search.place source)
    (habove : ∀ upper ∈ above, search.place source < search.place upper)
    (htarget : target ∈ search.stack) (hstep : edge source target)
    (hread : examined source target) :
    (search.leave node parent below examined).low owner ≤ search.place target := by
  have hseen := hexamined source target hstep hread
  cases above with
  | nil =>
      obtain ⟨rfl, rfl⟩ := List.cons.inj hsplit
      by_cases hcase : search.place node ≤ search.place source
      · rw [low_leave_parent]
        exact (min_le_right _ _).trans (hinv.low_bound [] node (parent :: below) hpath
          source hsource hcase (by simp) target htarget hstep hseen)
      · refine (low_leave_le parent).trans (hinv.low_bound [node] parent below hpath
          source hsource howner ?_ target htarget hstep hseen)
        simpa using hcase
  | cons first above =>
      obtain ⟨rfl, rfl⟩ := List.cons.inj hsplit
      refine (low_leave_le owner).trans (hinv.low_bound (node :: parent :: above) owner
        rest hpath source hsource howner ?_ target htarget hstep hseen)
      intro upper hupper
      rcases List.mem_cons.1 hupper with rfl | hbelow
      · exact (habove parent List.mem_cons_self).trans (hinv.place_parent_lt hpath)
      · exact habove upper hbelow

theorem inv_leave (hopen : search.low node ≠ search.place node)
    (hexamined : ∀ source target, edge source target →
      examined source target → search.examined source target)
    (hoff : ∀ source target, source ∉ parent :: below → edge source target →
      examined source target) :
    (search.leave node parent below examined).Inv edge := by
  have hsub : ∀ other ∈ parent :: below, other ∈ search.path := by
    intro other hother
    rw [hpath]
    exact List.mem_cons_of_mem _ hother
  have hsorted := hinv.path_sorted
  rw [hpath] at hsorted
  exact
    { hinv with
      path_stack := fun other hother => hinv.path_stack other (hsub other hother)
      path_sorted := hsorted.tail
      path_reach := fun other hother => hinv.path_reach other (hsub other hother)
      stack_owned := fun _ => hinv.stack_owned_leave hpath
      examined_visited := fun source target hvisited hstep hread =>
        hinv.examined_visited source target hvisited hstep
          (hexamined source target hstep hread)
      examined_off_path := hoff
      low_le := fun other hother => (low_leave_le other).trans (hinv.low_le other hother)
      low_reach := fun _ => hinv.low_reach_leave hpath
      low_lt := fun _ => hinv.low_lt_leave hpath hopen
      low_bound := fun _ _ _ hsplit _ hsource howner habove _ =>
        hinv.low_bound_leave hpath hexamined hsplit hsource howner habove }

end Leave

/-! ## Closing a component -/

/-- Leave `node`, whose edges are all read, and close the part of the stack
down to it. -/
def close (search : LowLink V) (below component remaining : List V)
    (examined : V → V → Prop) : LowLink V :=
  { search with
    stack := remaining
    path := below
    examined := examined
    closed := search.closed ++ [component] }

section Close

variable {node : V} {below component above remaining : List V}

/-- The nodes from `node` upwards on the stack. -/
theorem Inv.mem_component_iff (hinv : search.Inv edge)
    (hstack : search.stack = component ++ remaining)
    (hcomponent : component = above ++ [node]) :
    (∀ other, other ∈ component ↔
        other ∈ search.stack ∧ search.place node ≤ search.place other) ∧
      ∀ other, other ∈ remaining ↔
        other ∈ search.stack ∧ search.place other < search.place node := by
  have hsorted := hinv.stack_sorted
  rw [hstack, List.pairwise_append] at hsorted
  obtain ⟨hcomponentSorted, _, hcross⟩ := hsorted
  have hnode : node ∈ component := by simp [hcomponent]
  have habove : ∀ other ∈ component, search.place node ≤ search.place other := by
    intro other hother
    rw [hcomponent, List.pairwise_append] at hcomponentSorted
    rw [hcomponent, List.mem_append, List.mem_singleton] at hother
    rcases hother with hupper | rfl
    · exact (hcomponentSorted.2.2 other hupper node (by simp)).le
    · exact le_rfl
  have hbelow : ∀ other ∈ remaining, search.place other < search.place node :=
    fun other hother => hcross node hnode other hother
  have hmem : ∀ other, other ∈ search.stack ↔
      other ∈ component ∨ other ∈ remaining := by
    intro other
    rw [hstack, List.mem_append]
  constructor
  · intro other
    refine ⟨fun h => ⟨(hmem other).2 (Or.inl h), habove other h⟩, ?_⟩
    rintro ⟨hopen, hle⟩
    refine ((hmem other).1 hopen).resolve_right fun hrest => ?_
    exact absurd (hbelow other hrest) (by omega)
  · intro other
    refine ⟨fun h => ⟨(hmem other).2 (Or.inr h), hbelow other h⟩, ?_⟩
    rintro ⟨hopen, hlt⟩
    refine ((hmem other).1 hopen).resolve_left fun hclosed => ?_
    exact absurd (habove other hclosed) (by omega)

/-- From a root whose edges are all read, every walk stays in the component
being closed or ends in one closed before. -/
theorem Inv.reach_component (hinv : search.Inv edge)
    (hpath : search.path = node :: below)
    (hroot : search.low node = search.place node)
    (hall : ∀ target, edge node target → search.examined node target)
    {source target : V} (hsource : source ∈ search.stack)
    (hplace : search.place node ≤ search.place source)
    (hreach : ReflTransGen edge source target) :
    (target ∈ search.stack ∧ search.place node ≤ search.place target) ∨
      (search.Visited target ∧ target ∉ search.stack) := by
  have hsorted := hinv.path_sorted
  rw [hpath] at hsorted
  have hunder := (List.pairwise_cons.1 hsorted).1
  induction hreach with
  | refl => exact Or.inl ⟨hsource, hplace⟩
  | @tail middle target _ hstep ih =>
      rcases ih with ⟨hopen, hle⟩ | ⟨hvisited, hdone⟩
      · have hread : search.examined middle target := by
          by_cases hmiddle : middle = node
          · rw [hmiddle] at hstep ⊢
            exact hall target hstep
          · refine hinv.examined_off_path middle target ?_ hstep
            rw [hpath, List.mem_cons, not_or]
            refine ⟨hmiddle, fun hbelow => ?_⟩
            exact absurd (hunder middle hbelow) (by omega)
        have hvisited := hinv.examined_visited middle target
          (hinv.stack_visited middle hopen) hstep hread
        by_cases htarget : target ∈ search.stack
        · refine Or.inl ⟨htarget, ?_⟩
          rw [← hroot]
          exact hinv.low_bound [] node below hpath middle hopen hle (by simp)
            target htarget hstep hread
        · exact Or.inr ⟨hvisited, htarget⟩
      · exact Or.inr (hinv.done_step middle target hvisited hdone hstep)

/-- Every node from the root upwards reaches the root: its low-link leads to an
earlier node of the same part of the stack. -/
theorem Inv.reach_root (hinv : search.Inv edge)
    (hpath : search.path = node :: below)
    (hroot : search.low node = search.place node)
    (hall : ∀ target, edge node target → search.examined node target)
    {source : V} (hsource : source ∈ search.stack)
    (hplace : search.place node ≤ search.place source) :
    ReflTransGen edge source node := by
  have hnode : node ∈ search.stack := hinv.path_stack node (by simp [hpath])
  have hsorted := hinv.path_sorted
  rw [hpath] at hsorted
  have hunder := (List.pairwise_cons.1 hsorted).1
  induction hindex : search.place source using Nat.strong_induction_on
    generalizing source with
  | _ index ih =>
      by_cases hsame : source = node
      · rw [hsame]
      · have hfree : source ∉ search.path := by
          rw [hpath, List.mem_cons, not_or]
          refine ⟨hsame, fun hbelow => ?_⟩
          exact absurd (hunder source hbelow) (by omega)
        have hlt := hinv.low_lt source hsource hfree
        obtain ⟨earlier, hearlier, hplaceEarlier, hsteps⟩ :=
          hinv.low_reach source hsource
        rcases hinv.reach_component hpath hroot hall hsource hplace hsteps with
          ⟨_, hle⟩ | ⟨_, hdone⟩
        · exact hsteps.trans (ih (search.place earlier) (by omega) hearlier hle
            rfl)
        · exact absurd hearlier hdone

section Root

variable {examined : V → V → Prop} (hinv : search.Inv edge)
  (hpath : search.path = node :: below) (hroot : search.low node = search.place node)
  (hall : ∀ target, edge node target → search.examined node target)
  (hstack : search.stack = component ++ remaining) (hcomponent : component = above ++ [node])

include hinv hstack hcomponent

theorem Inv.open_of_remaining {other : V} (hother : other ∈ remaining) :
    other ∈ search.stack :=
  (((hinv.mem_component_iff hstack hcomponent).2 other).1 hother).1

theorem Inv.place_lt_of_remaining {other : V} (hother : other ∈ remaining) :
    search.place other < search.place node :=
  (((hinv.mem_component_iff hstack hcomponent).2 other).1 hother).2

/-- What is open stays open below the root and is closed from it on. -/
theorem Inv.not_mem_remaining_iff {other : V} (hopen : other ∈ search.stack) :
    other ∉ remaining ↔ other ∈ component := by
  obtain ⟨hmemComponent, hmemRemaining⟩ := hinv.mem_component_iff hstack hcomponent
  rw [hmemRemaining, hmemComponent]
  simp [hopen]

theorem Inv.mem_closed_close (other : V) :
    other ∈ (search.closed ++ [component]).flatten ↔
      search.Visited other ∧ other ∉ remaining := by
  rw [List.flatten_append, List.mem_append, hinv.mem_closed]
  simp only [List.flatten_cons, List.flatten_nil, List.append_nil]
  constructor
  · rintro (⟨hvisited, hdone⟩ | hmem)
    · exact ⟨hvisited, fun hother => hdone (hinv.open_of_remaining hstack hcomponent hother)⟩
    · have hopen := (((hinv.mem_component_iff hstack hcomponent).1 other).1 hmem).1
      exact ⟨hinv.stack_visited other hopen,
        (hinv.not_mem_remaining_iff hstack hcomponent hopen).2 hmem⟩
  · rintro ⟨hvisited, hother⟩
    by_cases hopen : other ∈ search.stack
    · exact Or.inr ((hinv.not_mem_remaining_iff hstack hcomponent hopen).1 hother)
    · exact Or.inl ⟨hvisited, hopen⟩

theorem Inv.nodup_closed_close : (search.closed ++ [component]).flatten.Nodup := by
  have hsorted := hinv.stack_sorted
  rw [hstack, List.pairwise_append] at hsorted
  have hnodup : component.Nodup := hsorted.1.imp fun hlt heq => by rw [heq] at hlt; omega
  rw [List.flatten_append, List.nodup_append']
  refine ⟨hinv.nodup_closed, by simpa using hnodup, ?_⟩
  intro other hold hnew
  have hmem : other ∈ component := by simpa using hnew
  have hopen := (((hinv.mem_component_iff hstack hcomponent).1 other).1 hmem).1
  exact ((hinv.mem_closed other).1 hold).2 hopen

theorem Inv.low_reach_close {other : V} (hother : other ∈ remaining) :
    ∃ target ∈ remaining, search.place target = search.low other ∧
      ReflTransGen edge other target := by
  have hopen := hinv.open_of_remaining hstack hcomponent hother
  obtain ⟨target, htarget, hplace, hsteps⟩ := hinv.low_reach other hopen
  refine ⟨target, ?_, hplace, hsteps⟩
  have hlt : search.place target < search.place node := by
    rw [hplace]
    exact (hinv.low_le other hopen).trans_lt
      (hinv.place_lt_of_remaining hstack hcomponent hother)
  exact ((hinv.mem_component_iff hstack hcomponent).2 target).2 ⟨htarget, hlt⟩

include hpath

theorem Inv.path_stack_close {other : V} (hother : other ∈ below) : other ∈ remaining := by
  have hsorted := hinv.path_sorted
  rw [hpath] at hsorted
  refine ((hinv.mem_component_iff hstack hcomponent).2 other).2
    ⟨hinv.path_stack other ?_, (List.pairwise_cons.1 hsorted).1 other hother⟩
  rw [hpath]
  exact List.mem_cons_of_mem _ hother

theorem Inv.stack_owned_close {other : V} (hother : other ∈ remaining) :
    ∃ owner ∈ below, search.place owner ≤ search.place other := by
  obtain ⟨owner, howner, hle⟩ :=
    hinv.stack_owned other (hinv.open_of_remaining hstack hcomponent hother)
  rw [hpath] at howner
  rcases List.mem_cons.1 howner with rfl | hbelow
  · exact absurd hle (hinv.place_lt_of_remaining hstack hcomponent hother).not_ge
  · exact ⟨owner, hbelow, hle⟩

theorem Inv.low_lt_close {other : V} (hother : other ∈ remaining) (hfree : other ∉ below) :
    search.low other < search.place other := by
  refine hinv.low_lt other (hinv.open_of_remaining hstack hcomponent hother) ?_
  rw [hpath]
  refine List.not_mem_cons_of_ne_of_not_mem ?_ hfree
  rintro rfl
  exact absurd (hinv.place_lt_of_remaining hstack hcomponent hother) (lt_irrefl _)

theorem Inv.low_bound_close
    (hexamined : ∀ source target, edge source target →
      examined source target → search.examined source target)
    {upperPath rest : List V} {owner : V} (hsplit : below = upperPath ++ owner :: rest)
    {source target : V} (hsource : source ∈ remaining)
    (howner : search.place owner ≤ search.place source)
    (habove : ∀ upper ∈ upperPath, search.place source < search.place upper)
    (htarget : target ∈ remaining) (hstep : edge source target)
    (hread : examined source target) : search.low owner ≤ search.place target := by
  refine hinv.low_bound (node :: upperPath) owner rest (hpath.trans (congrArg _ hsplit)) source
    (hinv.open_of_remaining hstack hcomponent hsource) howner ?_ target
    (hinv.open_of_remaining hstack hcomponent htarget) hstep
    (hexamined source target hstep hread)
  intro upper hupper
  rcases List.mem_cons.1 hupper with rfl | hmem
  · exact hinv.place_lt_of_remaining hstack hcomponent hsource
  · exact habove upper hmem

include hroot hall

/-- The component that is closed is a class of nodes that reach each other. -/
theorem Inv.component_class {source : V} (hsource : source ∈ component) (other : V) :
    other ∈ component ↔
      ReflTransGen edge source other ∧ ReflTransGen edge other source := by
  have hmem := (hinv.mem_component_iff hstack hcomponent).1
  obtain ⟨hopen, hle⟩ := (hmem source).1 hsource
  constructor
  · intro hother
    obtain ⟨hotherOpen, hotherLe⟩ := (hmem other).1 hother
    have hfromRoot := hinv.path_reach node (by simp [hpath])
    exact ⟨(hinv.reach_root hpath hroot hall hopen hle).trans
        (hfromRoot other hotherOpen hotherLe),
      (hinv.reach_root hpath hroot hall hotherOpen hotherLe).trans
        (hfromRoot source hopen hle)⟩
  · rintro ⟨hforth, hback⟩
    rcases hinv.reach_component hpath hroot hall hopen hle hforth with
      hinside | ⟨hvisited, hdone⟩
    · exact (hmem other).2 hinside
    · exact absurd hopen (hinv.done_reach hvisited hdone hback).2

/-- No edge leads from what is closed to what stays open. -/
theorem Inv.done_step_close {source target : V} (hvisited : search.Visited source)
    (hdone : source ∉ remaining) (hstep : edge source target) :
    search.Visited target ∧ target ∉ remaining := by
  by_cases hopen : source ∈ search.stack
  · have hmem := (hinv.mem_component_iff hstack hcomponent).1
    have hle := ((hmem source).1
      ((hinv.not_mem_remaining_iff hstack hcomponent hopen).1 hdone)).2
    rcases hinv.reach_component hpath hroot hall hopen hle
      (ReflTransGen.single hstep) with ⟨htarget, hplace⟩ | ⟨hseen, hclosed⟩
    · exact ⟨hinv.stack_visited target htarget,
        (hinv.not_mem_remaining_iff hstack hcomponent htarget).2
          ((hmem target).2 ⟨htarget, hplace⟩)⟩
    · exact ⟨hseen, fun hrest => hclosed (hinv.open_of_remaining hstack hcomponent hrest)⟩
  · obtain ⟨hseen, hclosed⟩ := hinv.done_step source target hvisited hopen hstep
    exact ⟨hseen, fun hrest => hclosed (hinv.open_of_remaining hstack hcomponent hrest)⟩

end Root

theorem inv_close (hinv : search.Inv edge) {examined : V → V → Prop}
    (hpath : search.path = node :: below)
    (hroot : search.low node = search.place node)
    (hall : ∀ target, edge node target → search.examined node target)
    (hexamined : ∀ source target, edge source target →
      examined source target → search.examined source target)
    (hoff : ∀ source target, source ∉ below → edge source target →
      examined source target)
    (hstack : search.stack = component ++ remaining)
    (hcomponent : component = above ++ [node]) :
    (search.close below component remaining examined).Inv edge := by
  have hopen {other : V} (hother : other ∈ remaining) : other ∈ search.stack :=
    hinv.open_of_remaining hstack hcomponent hother
  have hsub : ∀ other ∈ below, other ∈ search.path := by
    intro other hother
    rw [hpath]
    exact List.mem_cons_of_mem _ hother
  have hsortedPath := hinv.path_sorted
  rw [hpath] at hsortedPath
  have hsortedStack := hinv.stack_sorted
  rw [hstack, List.pairwise_append] at hsortedStack
  exact
    { order_lt := hinv.order_lt
      order_inj := hinv.order_inj
      stack_visited := fun other hother => hinv.stack_visited other (hopen hother)
      stack_sorted := hsortedStack.2.1
      path_stack := fun _ => hinv.path_stack_close hpath hstack hcomponent
      path_sorted := hsortedPath.tail
      path_reach := fun upper hupper other hother =>
        hinv.path_reach upper (hsub upper hupper) other (hopen hother)
      stack_owned := fun _ => hinv.stack_owned_close hpath hstack hcomponent
      examined_visited := fun source target hvisited hstep hread =>
        hinv.examined_visited source target hvisited hstep
          (hexamined source target hstep hread)
      examined_off_path := hoff
      low_le := fun other hother => hinv.low_le other (hopen hother)
      low_reach := fun _ => hinv.low_reach_close hstack hcomponent
      low_lt := fun _ => hinv.low_lt_close hpath hstack hcomponent
      low_bound := fun _ _ _ hsplit _ hsource howner habove _ =>
        hinv.low_bound_close hpath hstack hcomponent hexamined hsplit hsource howner habove
      done_step := fun _ _ => hinv.done_step_close hpath hroot hall hstack hcomponent
      mem_closed := hinv.mem_closed_close hstack hcomponent
      nodup_closed := hinv.nodup_closed_close hstack hcomponent
      nonempty_closed := fun hempty => by
        rcases List.mem_append.1 hempty with hold | hnew
        · exact hinv.nonempty_closed hold
        · rw [hcomponent, List.mem_singleton] at hnew
          simp at hnew
      closed_class := fun closed hclosed => by
        rcases List.mem_append.1 hclosed with hold | hnew
        · exact hinv.closed_class closed hold
        · rw [List.mem_singleton.1 hnew]
          exact fun _ => hinv.component_class hpath hroot hall hstack hcomponent }

end Close

/-- With an empty path the stack is empty too, so every node discovered so far
belongs to a closed component. -/
theorem Inv.mem_closed_of_path_nil (hinv : search.Inv edge)
    (hpath : search.path = []) (node : V) :
    node ∈ search.closed.flatten ↔ search.Visited node := by
  have hstack : search.stack = [] := by
    refine List.eq_nil_iff_forall_not_mem.2 fun other hother => ?_
    obtain ⟨owner, howner, _⟩ := hinv.stack_owned other hother
    simp [hpath] at howner
  simp [hinv.mem_closed, hstack]

end Steps

end LowLink

end Ktsense.Foundation
