import Ktsense.Core.Trace
import Ktsense.Foundation.Layers
import Ktsense.Foundation.Loop
import Ktsense.Foundation.OrderedMap

/-!
# Subtypes of a Java type

`implementors.rs` walks from a name to the types that name it as a supertype, and
on from their simple names, breadth first and at most eight levels deep.  A name
is expanded once and a place listed once.
-/

namespace Ktsense.Core

open Ktsense.Foundation

def depthCap : ℕ := 8

structure TypeNode where
  fqn : String
  simpleName : String
  path : String
  line : ℕ
  supertypes : List String
  deriving DecidableEq, Repr

namespace TypeNode

/-- What an answer is deduplicated by. -/
def place (node : TypeNode) : String × ℕ := (node.path, node.line)

/-- The order of `(path, line)`. -/
def comparePlace (left right : TypeNode) : Ordering :=
  (compare left.path right.path).then (compare left.line right.line)

end TypeNode

/-- The nodes under each name of their supertypes, in list order; a node that
repeats a supertype stands under it more than once. -/
def childrenByName (nodes : List TypeNode) :
    OrderedMap String (List (String × TypeNode)) :=
  OrderedMap.groupBy Prod.fst
    (nodes.flatMap fun node => node.supertypes.map fun supertype => (supertype, node))

/-- The children of a name, by place. -/
def sortedChildren (nodes : List TypeNode) (parent : String) : List TypeNode :=
  sortBy TypeNode.comparePlace
    ((((childrenByName nodes).get? parent).getD []).map Prod.snd)

/-- An entry as it is pushed: its node, the name it was reached through and the
number of levels down to it. -/
structure Listing where
  node : TypeNode
  parent : String
  depth : ℕ
  deriving DecidableEq, Repr

def Listing.entry (target : String) (listing : Listing) : SupertypeImplementor where
  fqn := listing.node.fqn
  path := listing.node.path
  line := listing.node.line
  via := if listing.parent ≠ target then some listing.parent else none

/-- The variables of the loop.  `listed` records the node behind each entry. -/
structure SubtypeWalk where
  implementors : List SupertypeImplementor
  emitted : List (String × ℕ)
  expanded : List String
  queue : List (String × ℕ)
  listed : List Listing
  deriving DecidableEq, Repr

namespace SubtypeWalk

def start (target : String) : SubtypeWalk := ⟨[], [], [], [(target, 0)], []⟩

/-- One child of an expanded name. -/
def list (target parent : String) (depth : ℕ) (walk : SubtypeWalk) (node : TypeNode) :
    SubtypeWalk :=
  if node.place ∈ walk.emitted then walk
  else
    let listing : Listing := ⟨node, parent, depth + 1⟩
    { walk with
      emitted := node.place :: walk.emitted
      implementors := walk.implementors ++ [listing.entry target]
      queue := walk.queue ++ [(node.simpleName, depth + 1)]
      listed := walk.listed ++ [listing] }

/-- One turn of the loop; the loop ends with the queue. -/
def step (target : String) (nodes : List TypeNode) (walk : SubtypeWalk) :
    Option SubtypeWalk :=
  match walk.queue with
  | [] => none
  | (parent, depth) :: queue =>
      let walk := { walk with queue }
      if depthCap ≤ depth ∨ parent ∈ walk.expanded then some walk
      else
        some ((sortedChildren nodes parent).foldl (list target parent depth)
          { walk with expanded := parent :: walk.expanded })

/-- Every turn takes one name off the queue, and every node puts at most one on,
so one turn more than there are nodes is enough. -/
def run (target : String) (nodes : List TypeNode) : SubtypeWalk :=
  whileLoop (step target nodes) (nodes.length + 1) (start target)

end SubtypeWalk

def resolveSupertypeImplementors (target : String) (nodes : List TypeNode) :
    SupertypeImplementors :=
  ⟨(SubtypeWalk.run target nodes).implementors⟩

theorem mem_sortedChildren (nodes : List TypeNode) (parent : String) (node : TypeNode) :
    node ∈ sortedChildren nodes parent ↔ node ∈ nodes ∧ parent ∈ node.supertypes := by
  rw [sortedChildren, (sortBy_perm _ _).mem_iff, childrenByName, OrderedMap.getD_groupBy,
    List.mem_map]
  simp only [List.mem_filter, List.mem_flatMap, List.mem_map, decide_eq_true_eq]
  constructor
  · rintro ⟨⟨_, _⟩, ⟨⟨other, hother, _, hsupertype, heq⟩, rfl⟩, rfl⟩
    obtain ⟨rfl, rfl⟩ := Prod.mk.inj heq
    exact ⟨hother, hsupertype⟩
  · rintro ⟨hnode, hsupertype⟩
    exact ⟨(parent, node), ⟨⟨node, hnode, parent, hsupertype, rfl⟩, rfl⟩, rfl⟩

/-! ## What one expansion adds -/

/-- The listings that expanding a name appends, and what they leave of the walk. -/
structure Adds (target parent : String) (depth : ℕ) (children : List TypeNode)
    (walk next : SubtypeWalk) (added : List Listing) : Prop where
  implementors : next.implementors = walk.implementors ++ added.map (Listing.entry target)
  expanded : next.expanded = walk.expanded
  queue : next.queue = walk.queue ++ added.map fun l => (l.node.simpleName, l.depth)
  listed : next.listed = walk.listed ++ added
  emitted : ∀ place, place ∈ next.emitted ↔
    place ∈ walk.emitted ∨ place ∈ added.map fun l => l.node.place
  made : ∀ listing ∈ added, listing.node ∈ children ∧ listing.parent = parent ∧
    listing.depth = depth + 1
  distinct : (added.map fun l => l.node.place).Nodup
  fresh : ∀ place ∈ added.map fun l => l.node.place, place ∉ walk.emitted
  covers : ∀ child ∈ children, child.place ∈ next.emitted

theorem Adds.refl {target parent : String} {depth : ℕ} (walk : SubtypeWalk) :
    Adds target parent depth [] walk walk [] where
  implementors := by simp
  expanded := rfl
  queue := by simp
  listed := by simp
  emitted := by simp
  made := by simp
  distinct := List.nodup_nil
  fresh := by simp
  covers := by simp

theorem adds_foldl (target parent : String) (depth : ℕ) (children : List TypeNode)
    (walk : SubtypeWalk) :
    ∃ added, Adds target parent depth children walk
      (children.foldl (SubtypeWalk.list target parent depth) walk) added := by
  induction children generalizing walk with
  | nil => exact ⟨[], Adds.refl walk⟩
  | cons child rest ih =>
      rw [List.foldl_cons]
      by_cases hchild : child.place ∈ walk.emitted
      · obtain ⟨added, hadds⟩ := ih walk
        have hskip : SubtypeWalk.list target parent depth walk child = walk := by
          rw [SubtypeWalk.list, if_pos hchild]
        rw [hskip]
        refine ⟨added, { hadds with made := ?_, covers := ?_ }⟩
        · intro listing hlisting
          obtain ⟨hnode, hrest⟩ := hadds.made listing hlisting
          exact ⟨List.mem_cons_of_mem _ hnode, hrest⟩
        · rintro other (_ | ⟨_, hother⟩)
          · exact (hadds.emitted _).mpr (.inl hchild)
          · exact hadds.covers other hother
      · obtain ⟨added, hadds⟩ := ih (SubtypeWalk.list target parent depth walk child)
        simp only [SubtypeWalk.list, if_neg hchild] at hadds ⊢
        refine ⟨⟨child, parent, depth + 1⟩ :: added, ?_⟩
        have hapart : ∀ place ∈ added.map (fun l => l.node.place),
            place ≠ child.place ∧ place ∉ walk.emitted := by
          intro place hplace
          have hnew := hadds.fresh place hplace
          rw [List.mem_cons, not_or] at hnew
          exact hnew
        exact {
          implementors := by rw [hadds.implementors]; simp
          expanded := hadds.expanded
          queue := by rw [hadds.queue]; simp
          listed := by rw [hadds.listed]; simp
          emitted := by
            intro place
            rw [hadds.emitted, List.mem_cons, List.map_cons, List.mem_cons]
            tauto
          made := by
            rintro listing (_ | ⟨_, hlisting⟩)
            · exact ⟨List.mem_cons_self, rfl, rfl⟩
            · obtain ⟨hnode, hrest⟩ := hadds.made listing hlisting
              exact ⟨List.mem_cons_of_mem _ hnode, hrest⟩
          distinct := by
            rw [List.map_cons, List.nodup_cons]
            exact ⟨fun hmem => (hapart _ hmem).1 rfl, hadds.distinct⟩
          fresh := by
            rintro place (_ | ⟨_, hplace⟩)
            · exact hchild
            · exact (hapart place hplace).2
          covers := by
            rintro other (_ | ⟨_, hother⟩)
            · exact (hadds.emitted _).mpr (.inl List.mem_cons_self)
            · exact hadds.covers other hother }

/-- One turn drops a name or expands it. -/
theorem SubtypeWalk.step_cases {target : String} {nodes : List TypeNode}
    {walk next : SubtypeWalk} (hstep : walk.step target nodes = some next) :
    ∃ parent depth queue, walk.queue = (parent, depth) :: queue ∧
      (((depthCap ≤ depth ∨ parent ∈ walk.expanded) ∧ next = { walk with queue }) ∨
        (depth < depthCap ∧ parent ∉ walk.expanded ∧
          ∃ added, Adds target parent depth (sortedChildren nodes parent)
            { walk with queue, expanded := parent :: walk.expanded } next added)) := by
  rw [SubtypeWalk.step] at hstep
  split at hstep
  · cases hstep
  · rename_i parent depth queue hqueue
    refine ⟨parent, depth, queue, hqueue, ?_⟩
    by_cases hdrop : depthCap ≤ depth ∨ parent ∈ walk.expanded
    · rw [if_pos hdrop] at hstep
      cases hstep
      exact .inl ⟨hdrop, rfl⟩
    · rw [if_neg hdrop] at hstep
      cases hstep
      rw [not_or, Nat.not_le] at hdrop
      exact .inr ⟨hdrop.1, hdrop.2, adds_foldl _ _ _ _ _⟩

theorem SubtypeWalk.queue_of_exit {target : String} {nodes : List TypeNode}
    {walk : SubtypeWalk} (hexit : walk.step target nodes = none) : walk.queue = [] := by
  rw [SubtypeWalk.step] at hexit
  cases hqueue : walk.queue with
  | nil => rfl
  | cons item queue =>
      simp only [hqueue] at hexit
      split at hexit <;> cases hexit

/-! ## The walk's invariant -/

/-- What a listing is among those before it. -/
structure Follows (target : String) (nodes : List TypeNode) (before : List Listing)
    (listing : Listing) : Prop where
  given : listing.node ∈ nodes
  named : listing.parent ∈ listing.node.supertypes
  shallow : listing.depth ≤ depthCap
  fresh : ∀ other ∈ before, other.node.place ≠ listing.node.place
  ordered : ∀ other ∈ before, other.depth ≤ listing.depth
  origin : listing.parent = target ∧ listing.depth = 1 ∨
    listing.parent ≠ target ∧ ∃ other ∈ before, other.node.simpleName = listing.parent ∧
      other.depth + 1 = listing.depth

/-- Listings each of which follows from those before it. -/
inductive Grown (target : String) (nodes : List TypeNode) : List Listing → Prop
  | nil : Grown target nodes []
  | snoc {before : List Listing} {listing : Listing} (hbefore : Grown target nodes before)
      (hlast : Follows target nodes before listing) :
      Grown target nodes (before ++ [listing])

/-- Every type that names `name` is listed, one level below `depth` at most. -/
def ListsChildren (nodes : List TypeNode) (listed : List Listing) (name : String) (depth : ℕ) :
    Prop :=
  ∀ node ∈ nodes, name ∈ node.supertypes →
    ∃ listing ∈ listed, listing.node.place = node.place ∧ listing.depth ≤ depth + 1

/-- A name on the queue is the target's or that of a listed type, with its depth. -/
def Sourced (target : String) (listed : List Listing) (item : String × ℕ) : Prop :=
  item = (target, 0) ∨
    ∃ listing ∈ listed, (listing.node.simpleName, listing.depth) = item

namespace SubtypeWalk

structure Inv (target : String) (nodes : List TypeNode) (walk : SubtypeWalk) : Prop where
  entries : walk.implementors = walk.listed.map (Listing.entry target)
  emitted : ∀ place, place ∈ walk.emitted ↔ ∃ l ∈ walk.listed, l.node.place = place
  grown : Grown target nodes walk.listed
  sourced : ∀ item ∈ walk.queue, Sourced target walk.listed item
  sorted : walk.queue.Pairwise fun first second => first.2 ≤ second.2
  level : ∀ item ∈ walk.queue, ∀ listing ∈ walk.listed, listing.depth ≤ item.2 + 1
  opening : target ∈ walk.expanded ∨ walk.queue = [(target, 0)] ∧ walk.listed = []
  pending : ∀ listing ∈ walk.listed,
    (listing.node.simpleName, listing.depth) ∈ walk.queue ∨ depthCap ≤ listing.depth ∨
      ListsChildren nodes walk.listed listing.node.simpleName listing.depth
  covered : ∀ name ∈ walk.expanded, ∃ depth, ListsChildren nodes walk.listed name depth ∧
    (name = target → depth = 0) ∧ ∀ item ∈ walk.queue, depth ≤ item.2

end SubtypeWalk

section Invariant

variable {target parent : String} {nodes : List TypeNode} {depth : ℕ}
  {listed added : List Listing}

theorem ListsChildren.mono (hcovered : ListsChildren nodes listed parent depth) {deeper : ℕ}
    (hdeeper : depth ≤ deeper) (more : List Listing) :
    ListsChildren nodes (listed ++ more) parent deeper := by
  intro node hnode hnamed
  obtain ⟨listing, hlisting, hplace, hdepth⟩ := hcovered node hnode hnamed
  exact ⟨listing, List.mem_append_left _ hlisting, hplace, by omega⟩

/-- Children of one name, none of them listed yet, follow what is listed. -/
theorem Grown.append (hgrown : Grown target nodes listed)
    (hmade : ∀ listing ∈ added, listing.node ∈ sortedChildren nodes parent ∧
      listing.parent = parent ∧ listing.depth = depth + 1)
    (hdistinct : (added.map fun l => l.node.place).Nodup)
    (hfresh : ∀ listing ∈ added, ∀ other ∈ listed, other.node.place ≠ listing.node.place)
    (hlevel : ∀ other ∈ listed, other.depth ≤ depth + 1) (hdepth : depth < depthCap)
    (horigin : parent = target ∧ depth = 0 ∨
      parent ≠ target ∧ ∃ other ∈ listed, other.node.simpleName = parent ∧
        other.depth = depth) :
    Grown target nodes (listed ++ added) := by
  induction added using List.reverseRecOn with
  | nil => rwa [List.append_nil]
  | append_singleton before last ih =>
      rw [List.map_append, List.nodup_append] at hdistinct
      have hbefore := ih (fun l hl => hmade l (List.mem_append_left _ hl)) hdistinct.1
        (fun l hl => hfresh l (List.mem_append_left _ hl))
      obtain ⟨hnode, hparent, hlast⟩ := hmade last (by simp)
      obtain ⟨hgiven, hnamed⟩ := (mem_sortedChildren _ _ _).mp hnode
      rw [← List.append_assoc]
      refine .snoc hbefore ⟨hgiven, hparent ▸ hnamed, by omega, ?_, ?_, ?_⟩
      · intro other hother
        rcases List.mem_append.mp hother with hold | hnew
        · exact hfresh last (by simp) other hold
        · exact hdistinct.2.2 _ (List.mem_map_of_mem hnew) _ (by simp)
      · intro other hother
        rcases List.mem_append.mp hother with hold | hnew
        · exact (hlevel other hold).trans hlast.ge
        · exact ((hmade other (List.mem_append_left _ hnew)).2.2.trans hlast.symm).le
      · rw [hparent, hlast]
        rcases horigin with ⟨hroot, hzero⟩ | ⟨hother, source, hsource, hname, heq⟩
        · exact .inl ⟨hroot, by omega⟩
        · exact .inr ⟨hother, source, List.mem_append_left _ hsource, hname, by omega⟩

variable {walk next : SubtypeWalk} {queue : List (String × ℕ)}

/-- A name that is dropped is too deep or was expanded before. -/
theorem SubtypeWalk.Inv.drop (hinv : walk.Inv target nodes)
    (hqueue : walk.queue = (parent, depth) :: queue)
    (hdrop : depthCap ≤ depth ∨ parent ∈ walk.expanded) :
    SubtypeWalk.Inv target nodes { walk with queue } := by
  have hrest : ∀ item ∈ queue, item ∈ walk.queue := by
    intro item hitem
    rw [hqueue]
    exact List.mem_cons_of_mem _ hitem
  have hsorted := hinv.sorted
  rw [hqueue, List.pairwise_cons] at hsorted
  exact {
    entries := hinv.entries
    emitted := hinv.emitted
    grown := hinv.grown
    sourced := fun item hitem => hinv.sourced item (hrest item hitem)
    sorted := hsorted.2
    level := fun item hitem => hinv.level item (hrest item hitem)
    opening := by
      left
      rcases hinv.opening with hopen | ⟨hstart, _⟩
      · exact hopen
      · rw [hqueue] at hstart
        obtain ⟨⟨rfl, rfl⟩, _⟩ := List.cons.inj hstart |>.imp Prod.mk.inj id
        exact hdrop.resolve_left (by decide)
    pending := by
      intro listing hlisting
      rcases hinv.pending listing hlisting with hwaits | hdone
      · rw [hqueue, List.mem_cons] at hwaits
        rcases hwaits with hfirst | hwaits
        · obtain ⟨hname, hdepth⟩ := Prod.mk.inj hfirst
          right
          rcases hdrop with hdeep | hexpanded
          · exact .inl (hdepth ▸ hdeep)
          · obtain ⟨level, hcovered, _, hlevel⟩ := hinv.covered parent hexpanded
            have hle : level ≤ depth := hlevel (parent, depth) (by rw [hqueue]; simp)
            have hmore := hcovered.mono hle []
            rw [List.append_nil] at hmore
            right
            rw [hname, hdepth]
            exact hmore
        · exact .inl hwaits
      · exact .inr hdone
    covered := by
      intro name hname
      obtain ⟨level, hcovered, hroot, hlevel⟩ := hinv.covered name hname
      exact ⟨level, hcovered, hroot, fun item hitem => hlevel item (hrest item hitem)⟩ }

/-- Where the name that is expanded comes from. -/
theorem SubtypeWalk.Inv.origin (hinv : walk.Inv target nodes)
    (hqueue : walk.queue = (parent, depth) :: queue) (hexpand : parent ∉ walk.expanded) :
    parent = target ∧ depth = 0 ∨
      parent ≠ target ∧ ∃ other ∈ walk.listed, other.node.simpleName = parent ∧
        other.depth = depth := by
  rcases hinv.opening with hopen | ⟨hstart, _⟩
  · have hne : parent ≠ target := fun heq => hexpand (heq ▸ hopen)
    rcases hinv.sourced (parent, depth) (by rw [hqueue]; simp) with hroot | ⟨other, hother, heq⟩
    · exact absurd (Prod.mk.inj hroot).1 hne
    · obtain ⟨hname, hdepth⟩ := Prod.mk.inj heq
      exact .inr ⟨hne, other, hother, hname, hdepth⟩
  · rw [hqueue] at hstart
    obtain ⟨⟨hname, hdepth⟩, _⟩ := List.cons.inj hstart |>.imp Prod.mk.inj id
    exact .inl ⟨hname, hdepth⟩

section Expand

variable (hinv : walk.Inv target nodes) (hqueue : walk.queue = (parent, depth) :: queue)
  (hadds : Adds target parent depth (sortedChildren nodes parent)
    { walk with queue, expanded := parent :: walk.expanded } next added)

include hinv hqueue

theorem SubtypeWalk.Inv.waits_before {item : String × ℕ} (hitem : item ∈ queue) :
    item ∈ walk.queue ∧ depth ≤ item.2 := by
  have hsorted := hinv.sorted
  rw [hqueue, List.pairwise_cons] at hsorted
  refine ⟨?_, hsorted.1 item hitem⟩
  rw [hqueue]
  exact List.mem_cons_of_mem _ hitem

/-- A name that waits is at most one level below the one that is expanded. -/
theorem SubtypeWalk.Inv.waits_close {item : String × ℕ} (hitem : item ∈ queue) :
    item.2 ≤ depth + 1 := by
  rcases hinv.sourced item (hinv.waits_before hqueue hitem).1 with rfl | ⟨listing, hlisting, rfl⟩
  · exact Nat.zero_le _
  · exact hinv.level (parent, depth) (by rw [hqueue]; simp) listing hlisting

include hadds

omit hqueue in
theorem SubtypeWalk.Inv.emitted_expand (place : String × ℕ) :
    place ∈ next.emitted ↔ ∃ listing ∈ next.listed, listing.node.place = place := by
  rw [hadds.emitted, hadds.listed]
  simp only [hinv.emitted, List.mem_map, List.mem_append, or_and_right, exists_or]

theorem SubtypeWalk.Inv.listed_expand {listing : Listing} (hlisting : listing ∈ next.listed) :
    listing.depth ≤ depth + 1 := by
  rw [hadds.listed, List.mem_append] at hlisting
  rcases hlisting with hold | hnew
  · exact hinv.level (parent, depth) (by rw [hqueue]; simp) listing hold
  · exact (hadds.made listing hnew).2.2.le

theorem SubtypeWalk.Inv.covered_expand : ListsChildren nodes next.listed parent depth := by
  intro node hnode hnamed
  have hchild := hadds.covers node ((mem_sortedChildren _ _ _).mpr ⟨hnode, hnamed⟩)
  obtain ⟨listing, hlisting, hplace⟩ := (hinv.emitted_expand hadds _).mp hchild
  exact ⟨listing, hlisting, hplace, hinv.listed_expand hqueue hadds hlisting⟩

omit hinv hqueue in
/-- What waits afterwards waited before, or is a new listing one level below. -/
theorem Adds.of_mem_queue {item : String × ℕ} (hitem : item ∈ next.queue) :
    item ∈ queue ∨ ∃ listing ∈ added, (listing.node.simpleName, listing.depth) = item ∧
      item.2 = depth + 1 := by
  rw [hadds.queue, List.mem_append] at hitem
  refine hitem.imp_right fun hnew => ?_
  obtain ⟨listing, hlisting, rfl⟩ := List.mem_map.mp hnew
  exact ⟨listing, hlisting, rfl, (hadds.made listing hlisting).2.2⟩

theorem SubtypeWalk.Inv.later_expand {item : String × ℕ} (hitem : item ∈ next.queue) :
    depth ≤ item.2 := by
  rcases hadds.of_mem_queue hitem with hold | ⟨_, -, -, hdepth⟩
  · exact (hinv.waits_before hqueue hold).2
  · exact hdepth.ge.trans' (Nat.le_succ depth)

theorem SubtypeWalk.Inv.grown_expand (hdepth : depth < depthCap)
    (hexpand : parent ∉ walk.expanded) : Grown target nodes next.listed := by
  rw [hadds.listed]
  refine hinv.grown.append hadds.made hadds.distinct ?_
    (hinv.level (parent, depth) (by rw [hqueue]; simp)) hdepth (hinv.origin hqueue hexpand)
  intro listing hlisting other hother heq
  refine hadds.fresh _ (List.mem_map_of_mem hlisting) ?_
  exact (hinv.emitted _).mpr ⟨other, hother, heq⟩

theorem SubtypeWalk.Inv.sourced_expand {item : String × ℕ} (hitem : item ∈ next.queue) :
    Sourced target next.listed item := by
  rw [Sourced, hadds.listed]
  rcases hadds.of_mem_queue hitem with hold | ⟨listing, hlisting, heq, -⟩
  · refine (hinv.sourced item (hinv.waits_before hqueue hold).1).imp_right ?_
    rintro ⟨listing, hlisting, heq⟩
    exact ⟨listing, List.mem_append_left _ hlisting, heq⟩
  · exact .inr ⟨listing, List.mem_append_right _ hlisting, heq⟩

theorem SubtypeWalk.Inv.sorted_expand :
    next.queue.Pairwise fun first second => first.2 ≤ second.2 := by
  have hsorted := hinv.sorted
  rw [hqueue, List.pairwise_cons] at hsorted
  rw [hadds.queue, List.pairwise_append]
  refine ⟨hsorted.2, ?_, ?_⟩
  · rw [List.pairwise_map]
    refine List.pairwise_of_forall_mem_list fun first hfirst second hsecond => ?_
    exact ((hadds.made first hfirst).2.2.trans (hadds.made second hsecond).2.2.symm).le
  · intro first hfirst second hsecond
    obtain ⟨listing, hlisting, rfl⟩ := List.mem_map.mp hsecond
    exact (hinv.waits_close hqueue hfirst).trans (hadds.made listing hlisting).2.2.ge

theorem SubtypeWalk.Inv.opening_expand (hexpand : parent ∉ walk.expanded) :
    target ∈ next.expanded := by
  rw [hadds.expanded]
  rcases hinv.origin hqueue hexpand with ⟨hroot, _⟩ | ⟨hother, _⟩
  · exact hroot ▸ List.mem_cons_self
  · refine List.mem_cons_of_mem _ (hinv.opening.resolve_right ?_)
    rintro ⟨hstart, _⟩
    rw [hqueue] at hstart
    exact hother (Prod.mk.inj (List.cons.inj hstart).1).1

theorem SubtypeWalk.Inv.pending_expand {listing : Listing} (hlisting : listing ∈ next.listed) :
    (listing.node.simpleName, listing.depth) ∈ next.queue ∨ depthCap ≤ listing.depth ∨
      ListsChildren nodes next.listed listing.node.simpleName listing.depth := by
  have hcovered := hinv.covered_expand hqueue hadds
  rw [hadds.listed, List.mem_append] at hlisting
  rw [hadds.queue, List.mem_append]
  rcases hlisting with hold | hadded
  · rcases hinv.pending listing hold with hwaits | hdeep | hdone
    · rw [hqueue, List.mem_cons] at hwaits
      rcases hwaits with hfirst | hwaits
      · obtain ⟨hname, hlevel⟩ := Prod.mk.inj hfirst
        right; right
        rw [hname, hlevel]
        exact hcovered
      · exact .inl (.inl hwaits)
    · exact .inr (.inl hdeep)
    · right; right
      rw [hadds.listed]
      exact hdone.mono le_rfl added
  · exact .inl (.inr (List.mem_map_of_mem (f := fun l : Listing =>
      (l.node.simpleName, l.depth)) hadded))

theorem SubtypeWalk.Inv.expanded_expand (hexpand : parent ∉ walk.expanded) {name : String}
    (hname : name ∈ next.expanded) :
    ∃ level, ListsChildren nodes next.listed name level ∧ (name = target → level = 0) ∧
      ∀ item ∈ next.queue, level ≤ item.2 := by
  rw [hadds.expanded] at hname
  rcases List.mem_cons.mp hname with rfl | hname
  · refine ⟨depth, hinv.covered_expand hqueue hadds, ?_, fun item =>
      hinv.later_expand hqueue hadds⟩
    intro hroot
    rcases hinv.origin hqueue hexpand with ⟨_, hzero⟩ | ⟨hother, _⟩
    · exact hzero
    · exact absurd hroot hother
  · obtain ⟨level, hdone, hroot, hbelow⟩ := hinv.covered name hname
    rw [hadds.listed]
    refine ⟨level, hdone.mono le_rfl added, hroot, ?_⟩
    intro item hitem
    exact (hbelow (parent, depth) (by rw [hqueue]; simp)).trans
      (hinv.later_expand hqueue hadds hitem)

/-- A name that is expanded has every type that names it listed below it. -/
theorem SubtypeWalk.Inv.expand (hdepth : depth < depthCap) (hexpand : parent ∉ walk.expanded) :
    next.Inv target nodes where
  entries := by
    rw [hadds.implementors, hadds.listed, List.map_append]
    exact congrArg (· ++ _) hinv.entries
  emitted := hinv.emitted_expand hadds
  grown := hinv.grown_expand hqueue hadds hdepth hexpand
  sourced _ := hinv.sourced_expand hqueue hadds
  sorted := hinv.sorted_expand hqueue hadds
  level _ hitem _ hlisting := (hinv.listed_expand hqueue hadds hlisting).trans
    (Nat.succ_le_succ (hinv.later_expand hqueue hadds hitem))
  opening := .inl (hinv.opening_expand hqueue hadds hexpand)
  pending _ := hinv.pending_expand hqueue hadds
  covered _ := hinv.expanded_expand hqueue hadds hexpand

end Expand

/-! ## The whole walk -/

/-- The names that wait and the places that are not listed yet. -/
def SubtypeWalk.remaining (nodes : List TypeNode) (walk : SubtypeWalk) : ℕ :=
  walk.queue.length +
    ((nodes.map TypeNode.place).toFinset \ walk.emitted.toFinset).card

theorem SubtypeWalk.Inv.step (hinv : walk.Inv target nodes)
    (hstep : walk.step target nodes = some next) :
    next.Inv target nodes ∧ next.remaining nodes < walk.remaining nodes := by
  obtain ⟨parent, depth, queue, hqueue, hturn⟩ := SubtypeWalk.step_cases hstep
  rcases hturn with ⟨hdrop, rfl⟩ | ⟨hdepth, hexpand, added, hadds⟩
  · refine ⟨hinv.drop hqueue hdrop, ?_⟩
    simp only [SubtypeWalk.remaining, hqueue, List.length_cons]
    omega
  · refine ⟨hinv.expand hqueue hadds hdepth hexpand, ?_⟩
    let places := (added.map fun l => l.node.place).toFinset
    have hcard : places.card = added.length := by
      rw [List.toFinset_card_of_nodup hadds.distinct, List.length_map]
    have hapart : Disjoint ((nodes.map TypeNode.place).toFinset \ next.emitted.toFinset)
        places := by
      rw [Finset.disjoint_right]
      intro place hplace
      rw [Finset.mem_sdiff, List.mem_toFinset, List.mem_toFinset, not_and, not_not]
      exact fun _ => (hadds.emitted place).mpr (.inr (List.mem_toFinset.mp hplace))
    have hsubset : ((nodes.map TypeNode.place).toFinset \ next.emitted.toFinset) ∪ places ⊆
        (nodes.map TypeNode.place).toFinset \ walk.emitted.toFinset := by
      intro place hplace
      simp only [Finset.mem_union, Finset.mem_sdiff, List.mem_toFinset, places] at hplace ⊢
      rcases hplace with ⟨hgiven, hnot⟩ | hnew
      · exact ⟨hgiven, fun hold => hnot ((hadds.emitted place).mpr (.inl hold))⟩
      · refine ⟨?_, hadds.fresh place hnew⟩
        obtain ⟨listing, hlisting, rfl⟩ := List.mem_map.mp hnew
        have hchild := (hadds.made listing hlisting).1
        exact List.mem_map_of_mem ((mem_sortedChildren _ _ _).mp hchild).1
    have hle := Finset.card_le_card hsubset
    rw [Finset.card_union_of_disjoint hapart, hcard] at hle
    simp only [SubtypeWalk.remaining, hqueue, hadds.queue, List.length_cons,
      List.length_append, List.length_map]
    omega

theorem SubtypeWalk.inv_start (target : String) (nodes : List TypeNode) :
    (SubtypeWalk.start target).Inv target nodes where
  entries := rfl
  emitted := by simp [SubtypeWalk.start]
  grown := .nil
  sourced := by simp [SubtypeWalk.start, Sourced]
  sorted := by simp [SubtypeWalk.start]
  level := by simp [SubtypeWalk.start]
  opening := .inr ⟨rfl, rfl⟩
  pending := by simp [SubtypeWalk.start]
  covered := by simp [SubtypeWalk.start]

/-- The loop ends. -/
theorem SubtypeWalk.run_spec (target : String) (nodes : List TypeNode) :
    (SubtypeWalk.run target nodes).Inv target nodes ∧
      (SubtypeWalk.run target nodes).step target nodes = none := by
  have hfuel : (SubtypeWalk.start target).remaining nodes ≤ nodes.length + 1 := by
    have hcard := (Finset.card_le_card (Finset.sdiff_subset
      (s := (nodes.map TypeNode.place).toFinset)
      (t := (SubtypeWalk.start target).emitted.toFinset))).trans (List.toFinset_card_le _)
    rw [List.length_map] at hcard
    rw [SubtypeWalk.remaining, Nat.add_comm]
    exact Nat.add_le_add hcard le_rfl
  exact whileLoop_spec (fun _ _ => SubtypeWalk.Inv.step) (nodes.length + 1)
    (SubtypeWalk.inv_start target nodes) hfuel

end Invariant

/-! ## Steps from the target -/

/-- A type that names the target is one step from it, and one that names the
simple name of another a step further. -/
def ReachedIn (target : String) (nodes : List TypeNode) : ℕ → TypeNode → Prop :=
  Layer (fun node => node ∈ nodes ∧ target ∈ node.supertypes)
    fun parent node => node ∈ nodes ∧ parent.simpleName ∈ node.supertypes

/-- The type is within reach of the walk. -/
def WithinReach (target : String) (nodes : List TypeNode) (node : TypeNode) : Prop :=
  ∃ steps ≤ depthCap, ReachedIn target nodes steps node

/-- The fewest steps to a type, by way of the given ones only. -/
noncomputable def stepsTo (target : String) (nodes : List TypeNode) (node : TypeNode) : ℕ :=
  distance (fun node => node ∈ nodes ∧ target ∈ node.supertypes)
    (fun parent node => node ∈ nodes ∧ parent.simpleName ∈ node.supertypes) node

section Steps

variable {target : String} {nodes more : List TypeNode} {node : TypeNode} {steps : ℕ}
  {listed : List Listing}

theorem ReachedIn.mem (hreached : ReachedIn target nodes steps node) : node ∈ nodes := by
  cases hreached with
  | first hroot => exact hroot.1
  | further _ hnext => exact hnext.1

theorem ReachedIn.mono (hreached : ReachedIn target nodes steps node)
    (hmore : ∀ other ∈ nodes, other ∈ more) : ReachedIn target more steps node :=
  Layer.mono (fun _ hroot => ⟨hmore _ hroot.1, hroot.2⟩)
    (fun _ _ hnext => ⟨hmore _ hnext.1, hnext.2⟩) hreached

theorem Grown.follows (hgrown : Grown target nodes listed) {index : ℕ} {listing : Listing}
    (hlisting : listed[index]? = some listing) :
    Follows target nodes (listed.take index) listing := by
  induction hgrown with
  | nil => simp at hlisting
  | @snoc before last _ hlast ih =>
      have hbound := (List.getElem?_eq_some_iff.mp hlisting).1
      rw [List.length_append, List.length_singleton] at hbound
      rcases Nat.lt_succ_iff_lt_or_eq.mp hbound with hlt | rfl
      · rw [List.getElem?_append_left hlt] at hlisting
        rw [List.take_append_of_le_length hlt.le]
        exact ih hlisting
      · rw [List.getElem?_concat_length] at hlisting
        cases hlisting
        rw [List.take_append_of_le_length le_rfl, List.take_length]
        exact hlast

theorem Grown.distinct (hgrown : Grown target nodes listed) :
    (listed.map fun l => l.node.place).Nodup := by
  induction hgrown with
  | nil => exact List.nodup_nil
  | @snoc before last _ hlast ih =>
      rw [List.map_append, List.nodup_append]
      refine ⟨ih, List.nodup_singleton _, ?_⟩
      intro place hplace other hother
      obtain ⟨listing, hlisting, rfl⟩ := List.mem_map.mp hplace
      rw [List.map_singleton, List.mem_singleton] at hother
      exact hother ▸ hlast.fresh listing hlisting

theorem Grown.ordered (hgrown : Grown target nodes listed) :
    listed.Pairwise fun first second => first.depth ≤ second.depth := by
  induction hgrown with
  | nil => exact List.Pairwise.nil
  | @snoc before last _ hlast ih =>
      rw [List.pairwise_append]
      refine ⟨ih, List.pairwise_singleton _ _, ?_⟩
      intro listing hlisting other hother
      rw [List.mem_singleton] at hother
      exact hother ▸ hlast.ordered listing hlisting

/-- A listed type is reached along listed types, in as many steps as its depth. -/
theorem Grown.reached (hgrown : Grown target nodes listed) :
    ∀ listing ∈ listed,
      ReachedIn target (listed.map (·.node)) listing.depth listing.node := by
  induction hgrown with
  | nil => simp
  | @snoc before last _ hlast ih =>
      have hgrow : ∀ other ∈ before.map (·.node),
          other ∈ (before ++ [last]).map (·.node) := by
        intro other hother
        rw [List.map_append]
        exact List.mem_append_left _ hother
      have hself : last.node ∈ (before ++ [last]).map (·.node) := by simp
      intro listing hlisting
      rcases List.mem_append.mp hlisting with hold | hnew
      · exact (ih listing hold).mono hgrow
      · rw [List.mem_singleton] at hnew
        subst hnew
        rcases hlast.origin with ⟨hroot, hone⟩ | ⟨_, source, hsource, hname, hdepth⟩
        · rw [hone]
          exact Layer.first ⟨hself, hroot ▸ hlast.named⟩
        · rw [← hdepth]
          refine Layer.further ((ih source hsource).mono hgrow) ⟨hself, ?_⟩
          rw [hname]
          exact hlast.named

theorem Grown.given (hgrown : Grown target nodes listed) :
    ∀ listing ∈ listed, listing.node ∈ nodes ∧ listing.depth ≤ depthCap := by
  intro listing hlisting
  obtain ⟨index, hindex⟩ := List.mem_iff_getElem?.mp hlisting
  exact ⟨(hgrown.follows hindex).given, (hgrown.follows hindex).shallow⟩

theorem Grown.withinReach (hgrown : Grown target nodes listed) :
    ∀ listing ∈ listed, WithinReach target nodes listing.node := by
  intro listing hlisting
  refine ⟨listing.depth, (hgrown.given listing hlisting).2,
    (hgrown.reached listing hlisting).mono ?_⟩
  intro other hother
  obtain ⟨source, hsource, rfl⟩ := List.mem_map.mp hother
  exact (hgrown.given source hsource).1

theorem Grown.eq_of_place (hgrown : Grown target nodes listed) {first second : Listing}
    (hfirst : first ∈ listed) (hsecond : second ∈ listed)
    (hplace : first.node.place = second.node.place) : first = second :=
  List.inj_on_of_nodup_map hgrown.distinct hfirst hsecond hplace

end Steps

/-! ## What the finished walk covers -/

namespace SubtypeWalk

variable (target : String) (nodes : List TypeNode)

theorem covered_target :
    ListsChildren nodes (run target nodes).listed target 0 := by
  obtain ⟨hinv, hexit⟩ := run_spec target nodes
  have hopen := hinv.opening.resolve_right (by rw [queue_of_exit hexit]; simp)
  obtain ⟨depth, hcovered, hroot, _⟩ := hinv.covered target hopen
  exact hroot rfl ▸ hcovered

theorem covered_listed {listing : Listing} (hlisting : listing ∈ (run target nodes).listed) :
    depthCap ≤ listing.depth ∨
      ListsChildren nodes (run target nodes).listed listing.node.simpleName listing.depth := by
  obtain ⟨hinv, hexit⟩ := run_spec target nodes
  exact (hinv.pending listing hlisting).resolve_left (by rw [queue_of_exit hexit]; simp)

/-- Along listed types nothing is nearer than its depth. -/
theorem depth_least {listed : List Listing} (hrun : (run target nodes).listed = listed)
    {steps : ℕ} {node : TypeNode}
    (hreached : ReachedIn target (listed.map (·.node)) steps node) :
    ∀ listing ∈ listed, listing.node = node → listing.depth ≤ steps := by
  have hgrown := (run_spec target nodes).1.grown
  rw [hrun] at hgrown
  induction hreached with
  | @first node hroot =>
      rintro listing hlisting rfl
      have hcovered := covered_target target nodes
      obtain ⟨other, hother, hplace, hdepth⟩ :=
        hcovered _ (hgrown.given listing hlisting).1 hroot.2
      rw [hgrown.eq_of_place (hrun ▸ hother) hlisting hplace] at hdepth
      exact hdepth
  | @further steps before node hbefore hnext ih =>
      rintro listing hlisting rfl
      obtain ⟨source, hsource, rfl⟩ := List.mem_map.mp (ReachedIn.mem hbefore)
      have hsourceDepth := ih source hsource rfl
      have hgiven := hgrown.given listing hlisting
      rcases covered_listed target nodes (hrun.symm ▸ hsource) with hdeep | hcovered
      · omega
      · obtain ⟨other, hother, hplace, hdepth⟩ := hcovered _ hgiven.1 hnext.2
        rw [hgrown.eq_of_place (hrun ▸ hother) hlisting hplace] at hdepth
        omega

end SubtypeWalk

/-! ## Sound and ordered -/

/-- What an entry shows of the type it lists. -/
structure Shows (entry : SupertypeImplementor) (node : TypeNode) : Prop where
  fqn : entry.fqn = node.fqn
  path : entry.path = node.path
  line : entry.line = node.line

/-- `via` is left out of exactly the direct subtypes, and else names a supertype
that is the name of an earlier entry. -/
structure ViaEarlier (target : String) (earlier : List TypeNode)
    (entry : SupertypeImplementor) (node : TypeNode) : Prop where
  direct : entry.via = none ↔ target ∈ node.supertypes
  named : ∀ name, entry.via = some name → name ∈ node.supertypes ∧
    ∃ parent ∈ earlier, parent.simpleName = name

theorem Grown.via {target : String} {nodes : List TypeNode} {listed : List Listing}
    (hgrown : Grown target nodes listed) {index : ℕ} {listing : Listing}
    (hlisting : listed[index]? = some listing)
    (hleast : target ∈ listing.node.supertypes → listing.depth ≤ 1) :
    ViaEarlier target ((listed.take index).map (·.node)) (listing.entry target)
      listing.node := by
  have hfollows := hgrown.follows hlisting
  constructor
  · rw [Listing.entry, ite_eq_right_iff]
    constructor
    · intro hparent
      have hroot : listing.parent = target := by
        by_contra hne
        exact Option.some_ne_none _ (hparent hne)
      exact hroot ▸ hfollows.named
    · intro hnamed hne
      rcases hfollows.origin with ⟨hroot, _⟩ | ⟨_, source, hsource, _, hdepth⟩
      · exact absurd hroot hne
      · have hpositive := (hgrown.reached source (List.mem_of_mem_take hsource)).positive
        have hone := hleast hnamed
        omega
  · intro name hvia
    rw [Listing.entry] at hvia
    split at hvia
    · rename_i hne
      cases hvia
      refine ⟨hfollows.named, ?_⟩
      rcases hfollows.origin with ⟨hroot, _⟩ | ⟨_, source, hsource, hname, _⟩
      · exact absurd hroot hne
      · exact ⟨source.node, List.mem_map_of_mem hsource, hname⟩
    · cases hvia

/-- The walk ends, and what it lists are given types within eight steps of the
target, in the order of these steps and each place once. -/
theorem implementors_sound_ordered (target : String) (nodes : List TypeNode) :
    (SubtypeWalk.run target nodes).step target nodes = none ∧
      ((resolveSupertypeImplementors target nodes).implementors.map
        fun entry => (entry.path, entry.line)).Nodup ∧
      ∃ listed : List TypeNode,
        List.Forall₂ Shows (resolveSupertypeImplementors target nodes).implementors listed ∧
        (∀ node ∈ listed, node ∈ nodes ∧ WithinReach target nodes node) ∧
        (∀ index entry node,
          (resolveSupertypeImplementors target nodes).implementors[index]? = some entry →
          listed[index]? = some node →
            ViaEarlier target (listed.take index) entry node) ∧
        (∀ node ∈ listed, ReachedIn target listed (stepsTo target listed node) node) ∧
        listed.Pairwise fun first second =>
          stepsTo target listed first ≤ stepsTo target listed second := by
  obtain ⟨hinv, hexit⟩ := SubtypeWalk.run_spec target nodes
  have hgrown := hinv.grown
  have hentries : (resolveSupertypeImplementors target nodes).implementors =
      (SubtypeWalk.run target nodes).listed.map (Listing.entry target) := hinv.entries
  have hleast : ∀ {steps : ℕ} {node : TypeNode},
      ReachedIn target ((SubtypeWalk.run target nodes).listed.map (·.node)) steps node →
      ∀ listing ∈ (SubtypeWalk.run target nodes).listed, listing.node = node →
        listing.depth ≤ steps :=
    fun hreached => SubtypeWalk.depth_least target nodes rfl hreached
  generalize (SubtypeWalk.run target nodes).listed = listed at hgrown hentries hleast
  have hsteps : ∀ listing ∈ listed,
      stepsTo target (listed.map (·.node)) listing.node = listing.depth := by
    intro listing hlisting
    exact distance_eq (hgrown.reached listing hlisting)
      fun fewer hfewer => hleast hfewer listing hlisting rfl
  refine ⟨hexit, ?_, listed.map (·.node), ?_, ?_, ?_, ?_, ?_⟩
  · rw [hentries, List.map_map]
    exact hgrown.distinct
  · rw [hentries, List.forall₂_map_left_iff, List.forall₂_map_right_iff]
    exact List.forall₂_same.mpr fun _ _ => ⟨rfl, rfl, rfl⟩
  · intro node hnode
    obtain ⟨listing, hlisting, rfl⟩ := List.mem_map.mp hnode
    exact ⟨(hgrown.given listing hlisting).1, hgrown.withinReach listing hlisting⟩
  · intro index entry node hentry hnode
    rw [hentries, List.getElem?_map] at hentry
    obtain ⟨listing, hlisting, rfl⟩ := Option.map_eq_some_iff.mp hentry
    rw [List.getElem?_map, hlisting] at hnode
    cases hnode
    rw [← List.map_take]
    have hmem := List.mem_of_getElem? hlisting
    exact hgrown.via hlisting fun hnamed =>
      hleast (Layer.first ⟨List.mem_map_of_mem hmem, hnamed⟩) listing hmem rfl
  · intro node hnode
    obtain ⟨listing, hlisting, rfl⟩ := List.mem_map.mp hnode
    rw [hsteps listing hlisting]
    exact hgrown.reached listing hlisting
  · rw [List.pairwise_map]
    refine hgrown.ordered.imp_of_mem ?_
    intro first second hfirst hsecond hle
    rw [hsteps first hfirst, hsteps second hsecond]
    exact hle

/-! ## Complete when no two types share a place -/

/-- The entry is one for a type of this name at this place. -/
def Listing.IsFor (node : TypeNode) (listing : Listing) : Prop :=
  listing.node.fqn = node.fqn ∧ listing.node.simpleName = node.simpleName ∧
    listing.node.place = node.place

instance (node : TypeNode) : DecidablePred (Listing.IsFor node) :=
  fun _ => inferInstanceAs (Decidable (_ ∧ _))

/-- Where types at one place have one name, a reached type has its place listed,
no deeper than it is reached. -/
theorem SubtypeWalk.lists_place {target : String} {nodes : List TypeNode}
    (hplaces : ∀ first second, WithinReach target nodes first →
      WithinReach target nodes second → first.place = second.place →
      first.fqn = second.fqn ∧ first.simpleName = second.simpleName)
    {steps : ℕ} {node : TypeNode} (hreached : ReachedIn target nodes steps node)
    (hsteps : steps ≤ depthCap) :
    ∃ listing ∈ (run target nodes).listed,
      listing.node.place = node.place ∧ listing.depth ≤ steps := by
  have hgrown := (run_spec target nodes).1.grown
  induction hreached with
  | first hroot => exact covered_target target nodes _ hroot.1 hroot.2
  | @further steps before node hbefore hnext ih =>
      obtain ⟨source, hsource, hplace, hdepth⟩ := ih (by omega)
      have hname := (hplaces _ _ (hgrown.withinReach source hsource)
        ⟨steps, by omega, hbefore⟩ hplace).2
      rcases covered_listed target nodes hsource with hdeep | hcovered
      · omega
      · obtain ⟨listing, hlisting, hsame, hlevel⟩ :=
          hcovered node hnext.1 (hname ▸ hnext.2)
        exact ⟨listing, hlisting, hsame, by omega⟩

/-- Every type within reach has one entry, exactly when no two of them with
different names are declared at one place. -/
theorem implementors_complete_iff (target : String) (nodes : List TypeNode) :
    (resolveSupertypeImplementors target nodes).implementors =
        (SubtypeWalk.run target nodes).listed.map (Listing.entry target) ∧
      ((∀ node, WithinReach target nodes node →
          (SubtypeWalk.run target nodes).listed.countP (Listing.IsFor node ·) = 1) ↔
        ∀ first second, WithinReach target nodes first → WithinReach target nodes second →
          first.place = second.place →
            first.fqn = second.fqn ∧ first.simpleName = second.simpleName) := by
  have hinv := (SubtypeWalk.run_spec target nodes).1
  have hgrown := hinv.grown
  refine ⟨hinv.entries, ?_, ?_⟩
  · intro honce first second hfirst hsecond hplace
    have hexists : ∀ node, WithinReach target nodes node →
        ∃ listing ∈ (SubtypeWalk.run target nodes).listed, listing.IsFor node := by
      intro node hnode
      have hpositive := (honce node hnode).symm ▸ Nat.one_pos
      obtain ⟨listing, hlisting, hfor⟩ := List.countP_pos_iff.mp hpositive
      exact ⟨listing, hlisting, of_decide_eq_true hfor⟩
    obtain ⟨one, hone, hfqn, hname, hfirstPlace⟩ := hexists first hfirst
    obtain ⟨other, hother, hfqn', hname', hsecondPlace⟩ := hexists second hsecond
    have hsame : one = other := hgrown.eq_of_place hone hother
      (hfirstPlace.trans (hplace.trans hsecondPlace.symm))
    subst hsame
    exact ⟨hfqn.symm.trans hfqn', hname.symm.trans hname'⟩
  · rintro hplaces node ⟨steps, hsteps, hreached⟩
    obtain ⟨listing, hlisting, hplace, _⟩ :=
      SubtypeWalk.lists_place hplaces hreached hsteps
    obtain ⟨hfqn, hname⟩ := hplaces _ _ (hgrown.withinReach listing hlisting)
      ⟨steps, hsteps, hreached⟩ hplace
    have honly : ∀ other ∈ (SubtypeWalk.run target nodes).listed,
        decide (other.IsFor node) = true ↔ (other == listing) = true := by
      intro other hother
      rw [decide_eq_true_eq, beq_iff_eq]
      constructor
      · intro hfor
        exact hgrown.eq_of_place hother hlisting (hfor.2.2.trans hplace.symm)
      · rintro rfl
        exact ⟨hfqn, hname, hplace⟩
    rw [List.countP_congr honly]
    exact List.count_eq_one_of_mem (List.Nodup.of_map _ hgrown.distinct) hlisting

/-- Two subtypes on one line: the second is not listed, and with it the subtype
that extends it. -/
def sharedLineTypes : List TypeNode :=
  [⟨"p.A", "A", "S.java", 1, ["Base"]⟩, ⟨"p.B", "B", "S.java", 1, ["Base"]⟩,
    ⟨"p.C", "C", "T.java", 1, ["B"]⟩]

theorem second_on_line_lost :
    (resolveSupertypeImplementors "Base" sharedLineTypes).implementors =
        [⟨"p.A", "S.java", 1, none⟩] ∧
      ∀ node ∈ sharedLineTypes, WithinReach "Base" sharedLineTypes node := by
  refine ⟨by decide +kernel, ?_⟩
  have hA : ReachedIn "Base" sharedLineTypes 1 ⟨"p.A", "A", "S.java", 1, ["Base"]⟩ :=
    .first (by decide)
  have hB : ReachedIn "Base" sharedLineTypes 1 ⟨"p.B", "B", "S.java", 1, ["Base"]⟩ :=
    .first (by decide)
  have hC : ReachedIn "Base" sharedLineTypes 2 ⟨"p.C", "C", "T.java", 1, ["B"]⟩ :=
    hB.further (by decide)
  simp only [sharedLineTypes, List.mem_cons, List.not_mem_nil, or_false, forall_eq_or_imp,
    forall_eq]
  exact ⟨⟨1, by decide, hA⟩, ⟨1, by decide, hB⟩, ⟨2, by decide, hC⟩⟩

end Ktsense.Core
