import Ktsense.Foundation.Rose

/-!
# Concrete syntax trees

What the crate reads of a tree-sitter tree: the kind of a node, whether the grammar names
it, the source text of its bytes and the row it starts on.  The parser is a parameter.
-/

namespace Ktsense.Syntax

open Ktsense.Foundation

structure NodeData where
  kind : String
  isNamed : Bool
  text : String
  /-- The row of `start_position`, counted from zero. -/
  row : ℕ
  deriving DecidableEq, Repr

abbrev Node := Rose NodeData

namespace Node

abbrev children (node : Node) : List Node := Rose.children node

def kind (node : Node) : String := node.label.kind

def isNamed (node : Node) : Bool := node.label.isNamed

def text (node : Node) : String := node.label.text

def lineOf (node : Node) : ℕ := node.label.row + 1

def namedChildCount (node : Node) : ℕ := (node.children.filter isNamed).length

def firstChildOfKind (node : Node) (kind : String) : Option Node :=
  node.children.find? fun child => child.kind = kind

/-- The children in order, each with its `prev_named_sibling`. -/
def withPrevious : Option Node → List Node → List (Option Node × Node)
  | _, [] => []
  | previous, node :: rest =>
      (previous, node) :: withPrevious (if node.isNamed then some node else previous) rest

@[simp]
theorem map_snd_withPrevious (previous : Option Node) (nodes : List Node) :
    (withPrevious previous nodes).map Prod.snd = nodes := by
  induction nodes generalizing previous with
  | nil => rfl
  | cons node rest ih => rw [withPrevious, List.map_cons, ih]

theorem mem_of_mem_withPrevious {previous : Option Node} {nodes : List Node}
    {placed : Option Node × Node} (hplaced : placed ∈ withPrevious previous nodes) :
    placed.2 ∈ nodes := by
  rw [← map_snd_withPrevious previous nodes]
  exact List.mem_map_of_mem hplaced

theorem mem_of_firstChildOfKind {node child : Node} {kind : String}
    (hchild : node.firstChildOfKind kind = some child) : child ∈ node.children :=
  List.mem_of_find?_eq_some hchild

theorem kind_of_firstChildOfKind {node child : Node} {kind : String}
    (hchild : node.firstChildOfKind kind = some child) : child.kind = kind := by
  have hkind := List.find?_some hchild
  rwa [decide_eq_true_eq] at hkind

end Node

/-- A parsed file: the root, and whether the parser met an error anywhere below it. -/
structure Tree where
  root : Node
  hasError : Bool

end Ktsense.Syntax
