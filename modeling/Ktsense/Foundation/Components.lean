import Ktsense.Foundation.Sorting

/-!
# Sorted classes of mutual reachability

A relation on a set of nodes has one list of its classes of mutually reachable
nodes in which the classes and their members are sorted.
-/

namespace Ktsense.Foundation

open Relation

variable {N : Type*} [LinearOrder N]

omit [LinearOrder N] in
/-- Sorting the members of every part rearranges the whole. -/
theorem flatten_map_perm {sort : List N → List N}
    (hsort : ∀ values, (sort values).Perm values) (parts : List (List N)) :
    (parts.map sort).flatten.Perm parts.flatten := by
  induction parts with
  | nil => exact List.Perm.refl _
  | cons first parts ih => exact (hsort first).append ih

/-- Each is reachable from the other. -/
def Mutual (edge : N → N → Prop) (left right : N) : Prop :=
  ReflTransGen edge left right ∧ ReflTransGen edge right left

/-- `components` lists every node once, two nodes in one component exactly when
they are mutually reachable, with members and components sorted. -/
structure SortedClasses (nodes : Set N) (edge : N → N → Prop)
    (components : List (List N)) : Prop where
  mem_iff : ∀ node, node ∈ components.flatten ↔ node ∈ nodes
  nodup : components.flatten.Nodup
  same_iff : ∀ left ∈ nodes, ∀ right ∈ nodes,
    (∃ component ∈ components, left ∈ component ∧ right ∈ component) ↔
      Mutual edge left right
  nonempty : [] ∉ components
  members_sorted : ∀ component ∈ components, component.Pairwise (· < ·)
  sorted : components.Pairwise (· < ·)

omit [LinearOrder N] in
/-- Nonempty parts of a list without repetitions are distinct. -/
theorem nodup_of_nodup_flatten {parts : List (List N)}
    (hnodup : parts.flatten.Nodup) (hnonempty : [] ∉ parts) : parts.Nodup := by
  apply (List.nodup_flatten.1 hnodup).2.imp_of_mem
  intro first second hfirst _ hdisjoint hequal
  obtain ⟨node, hnode⟩ := List.exists_mem_of_ne_nil first
    fun hnil => hnonempty (hnil ▸ hfirst)
  exact hdisjoint hnode (hequal ▸ hnode)

variable {nodes : Set N} {edge : N → N → Prop} {left right : List (List N)}

/-- Components that share a node are one. -/
theorem SortedClasses.eq_of_mem (hclasses : SortedClasses nodes edge left)
    {first second : List N} (hfirst : first ∈ left) (hsecond : second ∈ left)
    {node : N} (hnodeFirst : node ∈ first) (hnodeSecond : node ∈ second) :
    first = second := by
  by_contra hne
  have hsymm : Std.Symm (@List.Disjoint N) := ⟨fun _ _ h => h.symm⟩
  have hdisjoint := (List.nodup_flatten.1 hclasses.nodup).2
  exact hdisjoint.forall hfirst hsecond hne hnodeFirst hnodeSecond

/-- A component is the sorted list of the nodes mutually reachable with any of
its members. -/
theorem SortedClasses.mem_component_iff (hclasses : SortedClasses nodes edge left)
    {component : List N} (hcomponent : component ∈ left) {node : N}
    (hnode : node ∈ component) (other : N) :
    other ∈ component ↔ other ∈ nodes ∧ Mutual edge node other := by
  have hnodes : ∀ {member : N}, member ∈ component → member ∈ nodes :=
    fun hmember => (hclasses.mem_iff _).1
      (List.mem_flatten.2 ⟨component, hcomponent, hmember⟩)
  constructor
  · intro hother
    exact ⟨hnodes hother, (hclasses.same_iff node (hnodes hnode) other
      (hnodes hother)).1 ⟨component, hcomponent, hnode, hother⟩⟩
  · rintro ⟨hother, hmutual⟩
    obtain ⟨same, hsame, hnodeSame, hotherSame⟩ :=
      (hclasses.same_iff node (hnodes hnode) other hother).2 hmutual
    rwa [← hclasses.eq_of_mem hsame hcomponent hnodeSame hnode]

theorem SortedClasses.subset (hleft : SortedClasses nodes edge left)
    (hright : SortedClasses nodes edge right) {component : List N}
    (hcomponent : component ∈ left) : component ∈ right := by
  obtain ⟨node, hnode⟩ := List.exists_mem_of_ne_nil component
    fun hnil => hleft.nonempty (hnil ▸ hcomponent)
  have hmem : node ∈ right.flatten := (hright.mem_iff node).2
    ((hleft.mem_iff node).1 (List.mem_flatten.2 ⟨component, hcomponent, hnode⟩))
  obtain ⟨same, hsame, hnodeSame⟩ := List.mem_flatten.1 hmem
  have hequal : component = same := by
    apply eq_of_pairwise_lt_of_mem_iff (hleft.members_sorted _ hcomponent)
      (hright.members_sorted _ hsame)
    intro other
    rw [hleft.mem_component_iff hcomponent hnode,
      hright.mem_component_iff hsame hnodeSame]
  rwa [hequal]

theorem SortedClasses.unique (hleft : SortedClasses nodes edge left)
    (hright : SortedClasses nodes edge right) : left = right := by
  apply eq_of_pairwise_lt_of_mem_iff hleft.sorted hright.sorted
  intro component
  exact ⟨hleft.subset hright, hright.subset hleft⟩

/-- The sorted list of the nodes mutually reachable with any of its members. -/
structure IsComponent (edge : N → N → Prop) (component : List N) : Prop where
  nonempty : component ≠ []
  sorted : component.Pairwise (· < ·)
  mem_iff : ∀ node ∈ component, ∀ other,
    other ∈ component ↔ Mutual edge node other

omit [LinearOrder N] in
/-- A node that reaches another and is reached from it lies on an edge. -/
theorem Mutual.exists_edge {node other : N} (hmutual : Mutual edge node other)
    (hne : node ≠ other) : ∃ next, edge node next := by
  rcases Relation.ReflTransGen.cases_head hmutual.1 with heq | ⟨next, hnext, -⟩
  · exact absurd heq hne
  · exact ⟨next, hnext⟩

omit [LinearOrder N] in
theorem Mutual.symm {node other : N} (hmutual : Mutual edge node other) :
    Mutual edge other node := ⟨hmutual.2, hmutual.1⟩

/-- With two members or more, the listed classes are the components: such a
component has no member off the edges. -/
theorem SortedClasses.mem_iff_isComponent
    (hclasses : SortedClasses nodes edge left)
    (hnodes : ∀ node next, edge node next → node ∈ nodes)
    {component : List N} (hlength : 2 ≤ component.length) :
    component ∈ left ↔ IsComponent edge component := by
  have honNodes : ∀ {node other : N}, Mutual edge node other → node ∈ nodes →
      other ∈ nodes := by
    intro node other hmutual hnode
    by_cases heq : node = other
    · exact heq ▸ hnode
    · obtain ⟨next, hnext⟩ := hmutual.symm.exists_edge (Ne.symm heq)
      exact hnodes _ _ hnext
  constructor
  · intro hcomponent
    refine ⟨?_, hclasses.members_sorted _ hcomponent, ?_⟩
    · rintro rfl
      simp at hlength
    · intro node hnode other
      rw [hclasses.mem_component_iff hcomponent hnode]
      have hmember : node ∈ nodes := (hclasses.mem_iff node).1
        (List.mem_flatten.2 ⟨component, hcomponent, hnode⟩)
      exact and_iff_right_of_imp fun hmutual => honNodes hmutual hmember
  · intro hcomponent
    match component, hlength with
    | first :: second :: rest, _ =>
        have hfirst : first ∈ first :: second :: rest := List.mem_cons_self
        have hmutual : Mutual edge first second :=
          (hcomponent.mem_iff first hfirst second).1 (by simp)
        have hlt : first < second :=
          (List.pairwise_cons.1 hcomponent.sorted).1 second List.mem_cons_self
        obtain ⟨next, hnext⟩ := hmutual.exists_edge hlt.ne
        have hnode : first ∈ nodes := hnodes _ _ hnext
        obtain ⟨same, hsame, hfirstSame⟩ :=
          List.mem_flatten.1 ((hclasses.mem_iff first).2 hnode)
        have hequal : first :: second :: rest = same := by
          apply eq_of_pairwise_lt_of_mem_iff hcomponent.sorted
            (hclasses.members_sorted _ hsame)
          intro other
          rw [hcomponent.mem_iff first hfirst,
            hclasses.mem_component_iff hsame hfirstSame]
          exact (and_iff_right_of_imp fun hreach => honNodes hreach hnode).symm
        rwa [hequal]

end Ktsense.Foundation
