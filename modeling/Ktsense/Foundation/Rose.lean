import Ktsense.Foundation.FailingLoop

/-!
# Labelled trees

Trees with a label at every node and any number of children, their nodes in
pre-order, and walks that leave out what is below some of the nodes.  A walk
with a stack of pending trees visits the same nodes as the walk by recursion,
from the last child to the first.
-/

namespace Ktsense.Foundation

inductive Rose (A : Type*) where
  | node (label : A) (children : List (Rose A))

namespace Rose

variable {A : Type*}

def label : Rose A → A
  | node label _ => label

def children : Rose A → List (Rose A)
  | node _ children => children

section Induction

variable {motive : Rose A → Prop}

mutual

/-- What holds of a tree when it holds of its children holds of all trees. -/
theorem induct (step : ∀ tree, (∀ child ∈ tree.children, motive child) → motive tree) :
    (tree : Rose A) → motive tree
  | node label children => step (node label children) (inductAll step children)

theorem inductAll (step : ∀ tree, (∀ child ∈ tree.children, motive child) → motive tree) :
    (trees : List (Rose A)) → ∀ tree ∈ trees, motive tree
  | [], _, hmem => absurd hmem List.not_mem_nil
  | tree :: rest, other, hmem =>
      (List.mem_cons.mp hmem).elim (fun heq => heq ▸ induct step tree)
        (inductAll step rest other)

end

end Induction

mutual

/-- A tree and the trees below it, each before its children. -/
def preorder : Rose A → List (Rose A)
  | tree@(node _ children) => tree :: preorderAll children

def preorderAll : List (Rose A) → List (Rose A)
  | [] => []
  | tree :: rest => preorder tree ++ preorderAll rest

end

theorem preorderAll_eq (trees : List (Rose A)) :
    preorderAll trees = trees.flatMap preorder := by
  induction trees with
  | nil => rfl
  | cons tree rest ih => rw [preorderAll, ih, List.flatMap_cons]

theorem preorder_eq (tree : Rose A) :
    tree.preorder = tree :: tree.children.flatMap preorder := by
  cases tree with
  | node label children => rw [preorder, preorderAll_eq, Rose.children]

theorem self_mem_preorder (tree : Rose A) : tree ∈ tree.preorder := by
  rw [preorder_eq]
  exact List.mem_cons_self

theorem mem_preorder_of_child {tree child inner : Rose A} (hchild : child ∈ tree.children)
    (hinner : inner ∈ child.preorder) : inner ∈ tree.preorder := by
  rw [preorder_eq]
  exact List.mem_cons_of_mem _ (List.mem_flatMap.mpr ⟨child, hchild, hinner⟩)

/-! ## Walks that pass over what is below some nodes -/

section Walks

variable (opens : Rose A → Bool)

mutual

/-- A tree and what is below it, except below the nodes that are not opened. -/
def visit : Rose A → List (Rose A)
  | tree@(node _ children) => tree :: if opens tree then visitAll children else []

def visitAll : List (Rose A) → List (Rose A)
  | [] => []
  | tree :: rest => visit tree ++ visitAll rest

end

mutual

/-- The same from the last child to the first. -/
def visitBack : Rose A → List (Rose A)
  | tree@(node _ children) => tree :: if opens tree then visitBackAll children else []

def visitBackAll : List (Rose A) → List (Rose A)
  | [] => []
  | tree :: rest => visitBackAll rest ++ visitBack tree

end

theorem visitAll_eq (trees : List (Rose A)) :
    visitAll opens trees = trees.flatMap (visit opens) := by
  induction trees with
  | nil => rfl
  | cons tree rest ih => rw [visitAll, ih, List.flatMap_cons]

theorem visitBackAll_eq (trees : List (Rose A)) :
    visitBackAll opens trees = trees.reverse.flatMap (visitBack opens) := by
  induction trees with
  | nil => rfl
  | cons tree rest ih =>
      rw [visitBackAll, ih, List.reverse_cons, List.flatMap_append, List.flatMap_singleton]

theorem visit_eq (tree : Rose A) :
    tree.visit opens =
      tree :: if opens tree then tree.children.flatMap (visit opens) else [] := by
  cases tree with
  | node label children => rw [visit, visitAll_eq, Rose.children]

theorem visitBack_eq (tree : Rose A) :
    tree.visitBack opens =
      tree :: if opens tree then tree.children.reverse.flatMap (visitBack opens) else [] := by
  cases tree with
  | node label children => rw [visitBack, visitBackAll_eq, Rose.children]

/-- The direction of a walk does not change what it visits. -/
theorem visitBack_perm (tree : Rose A) : (tree.visitBack opens).Perm (tree.visit opens) := by
  induction tree using induct with
  | step tree ih =>
      rw [visitBack_eq, visit_eq]
      split_ifs
      · refine ((List.reverse_perm _).flatMap_right _).trans ?_ |>.cons tree
        exact List.Perm.flatMap_left _ ih
      · exact List.Perm.refl _

theorem visit_sublist (tree : Rose A) : (tree.visit opens).Sublist tree.preorder := by
  induction tree using induct with
  | step tree ih =>
      rw [visit_eq, preorder_eq]
      split_ifs
      · exact (List.Sublist.flatMap_right _ ih).cons_cons tree
      · exact (List.nil_sublist _).cons_cons tree

/-! ## The walk with a stack -/

variable {B : Type*} (handle : B → Rose A → B)

/-- Take the top of the stack, and put its children there when it is opened.  The top
is the head of the list, so that the last child comes first. -/
def stackTurn : B × List (Rose A) → Option ((B × List (Rose A)) ⊕ B)
  | (found, []) => some (.inr found)
  | (found, tree :: pending) =>
      some (.inl (handle found tree,
        if opens tree then tree.children.reverse ++ pending else pending))

/-- How much is left to visit. -/
def pendingSize (loop : B × List (Rose A)) : ℕ :=
  (loop.2.flatMap (visitBack opens)).length

theorem stackTurn_proceeds (loop : B × List (Rose A)) {result : B}
    (hresult : (loop.2.flatMap (visitBack opens)).foldl handle loop.1 = result) :
    Proceeds (stackTurn opens handle)
      (fun loop => (loop.2.flatMap (visitBack opens)).foldl handle loop.1 = result)
      (pendingSize opens) result loop := by
  obtain ⟨found, pending⟩ := loop
  cases pending with
  | nil => exact .inr (congrArg (some ∘ Sum.inr) hresult)
  | cons tree pending =>
      have hnext : (tree :: pending).flatMap (visitBack opens) =
          tree :: (if opens tree then tree.children.reverse ++ pending else pending).flatMap
            (visitBack opens) := by
        rw [List.flatMap_cons, visitBack_eq]
        split_ifs
        · rw [List.flatMap_append, List.cons_append]
        · rfl
      rw [hnext, List.foldl_cons] at hresult
      refine .inl ⟨_, rfl, hresult, ?_⟩
      rw [pendingSize, pendingSize, hnext, List.length_cons]
      exact Nat.lt_succ_self _

/-- The walk with a stack ends, and what it found is found along the walk by recursion. -/
theorem stackWalk_eq (found : B) (tree : Rose A) :
    runLoop (stackTurn opens handle) (tree.preorder.length + 1) (found, [tree]) =
      some ((tree.visitBack opens).foldl handle found) := by
  have hlength : (tree.visitBack opens).length ≤ tree.preorder.length := by
    rw [(visitBack_perm opens tree).length_eq]
    exact (visit_sublist opens tree).length_le
  have hsize : pendingSize opens (found, [tree]) < tree.preorder.length + 1 := by
    rw [pendingSize, List.flatMap_singleton]
    exact Nat.lt_succ_of_le hlength
  refine runLoop_eq_some (fun loop hloop => stackTurn_proceeds opens handle loop hloop) ?_ hsize
  rw [List.flatMap_singleton]

end Walks

end Rose

end Ktsense.Foundation
