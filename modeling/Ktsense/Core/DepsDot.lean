import Ktsense.Core.Imports
import Ktsense.Core.Outline
import Ktsense.Foundation.Dot

/-!
# The import graph in Graphviz text

`render_deps_dot`: nodes, then edges, each name between quotes.  The names are not
escaped, so the text denotes the graph exactly when each of them is quotable.
-/

namespace Ktsense.Core

open Ktsense.Foundation

def dotNode (node : String) : String := "  \"" ++ neutralize node ++ "\";\n"

def dotEdge (edge : DepEdge) : String :=
  "  \"" ++ neutralize edge.origin ++ "\" -> \"" ++ neutralize edge.destination ++ "\";\n"

def renderDepsDot (graph : ImportGraph) : String :=
  "digraph deps \x7b\n  rankdir=LR;\n" ++ String.join (graph.nodes.map dotNode) ++
    String.join (graph.edges.map dotEdge) ++ "\x7d\n"

/-! ## The graph -/

/-- The names of the nodes and those the edges join. -/
def ImportGraph.names (graph : ImportGraph) : List String :=
  graph.nodes ++ graph.edges.flatMap fun edge => [edge.origin, edge.destination]

/-- The paths of a graph: its nodes, then its edges. -/
def ImportGraph.paths (graph : ImportGraph) : List (List Char × List (List Char)) :=
  graph.nodes.map (fun node => (node.toList, [])) ++
    graph.edges.map fun edge => (edge.origin.toList, [edge.destination.toList])

/-- What Graphviz should read: the direction, the nodes and the edges, in order. -/
def ImportGraph.statements (graph : ImportGraph) : List Dot.Statement :=
  .assign "rankdir".toList "LR".toList ::
    (graph.nodes.map (fun node => .path [node.toList]) ++
      graph.edges.map fun edge => .path [edge.origin.toList, edge.destination.toList])

theorem statements_eq (graph : ImportGraph) :
    graph.statements = .assign "rankdir".toList "LR".toList ::
      graph.paths.map fun path => .path (path.1 :: path.2) := by
  rw [ImportGraph.statements, ImportGraph.paths, List.map_append, List.map_map, List.map_map]
  rfl

theorem forall_paths (graph : ImportGraph) (holds : List Char → Prop) :
    (∀ path ∈ graph.paths, ∀ text ∈ path.1 :: path.2, holds text) ↔
      ∀ name ∈ graph.names, holds name.toList := by
  rw [ImportGraph.paths, ImportGraph.names, List.forall_mem_append, List.forall_mem_append,
    List.forall_mem_map, List.forall_mem_map]
  apply and_congr (forall₂_congr fun node _ => List.forall_mem_singleton)
  constructor
  · intro hedges name hname
    obtain ⟨edge, hedge, hend⟩ := List.mem_flatMap.1 hname
    have hholds := hedges edge hedge
    rcases List.mem_pair.1 hend with rfl | rfl
    · exact hholds _ List.mem_cons_self
    · exact hholds _ (List.mem_cons_of_mem _ List.mem_cons_self)
  · intro hnames edge hedge
    have hend (name : String) (hname : name ∈ [edge.origin, edge.destination]) :
        holds name.toList := hnames name (List.mem_flatMap.2 ⟨edge, hedge, hname⟩)
    simp [hend]

/-! ## The text -/

theorem toList_dotNode {node : String} (hsafe : Safe node) :
    (dotNode node).toList = Dot.pathText (node.toList, []) := by
  rw [dotNode, neutralize_safe hsafe]
  simp [Dot.pathText, Dot.namesText]

theorem toList_dotEdge {edge : DepEdge} (horigin : Safe edge.origin)
    (hdestination : Safe edge.destination) :
    (dotEdge edge).toList =
      Dot.pathText (edge.origin.toList, [edge.destination.toList]) := by
  rw [dotEdge, neutralize_safe horigin, neutralize_safe hdestination]
  simp [Dot.pathText, Dot.namesText]

theorem toList_framed {graph : ImportGraph} (hsafe : ∀ name ∈ graph.names, Safe name)
    (head foot : String) :
    (head ++ String.join (graph.nodes.map dotNode) ++ String.join (graph.edges.map dotEdge) ++
      foot).toList = head.toList ++ (graph.paths.flatMap Dot.pathText ++ foot.toList) := by
  have hnodes : (graph.nodes.map dotNode).flatMap String.toList =
      (graph.nodes.map fun node => (node.toList, [])).flatMap Dot.pathText := by
    rw [List.flatMap_map, List.flatMap_map]
    apply List.flatMap_congr
    intro node hnode
    exact toList_dotNode (hsafe node (List.mem_append_left _ hnode))
  have hedges : (graph.edges.map dotEdge).flatMap String.toList =
      (graph.edges.map fun edge => (edge.origin.toList, [edge.destination.toList])).flatMap
        Dot.pathText := by
    rw [List.flatMap_map, List.flatMap_map]
    apply List.flatMap_congr
    intro edge hedge
    have hends (name : String) (hname : name ∈ [edge.origin, edge.destination]) : Safe name :=
      hsafe name (List.mem_append_right _ (List.mem_flatMap.2 ⟨edge, hedge, hname⟩))
    exact toList_dotEdge (hends _ (by simp)) (hends _ (by simp))
  rw [String.toList_append, String.toList_append, String.toList_append, String.toList_join,
    String.toList_join, hnodes, hedges, ImportGraph.paths, List.flatMap_append,
    List.append_assoc, List.append_assoc, List.append_assoc]

theorem parse_renderDepsDot {graph : ImportGraph} (hsafe : ∀ name ∈ graph.names, Safe name) :
    Dot.parse (renderDepsDot graph).toList =
      (Dot.readFrom .start (graph.paths.flatMap Dot.pathText ++ "\x7d\n".toList)).map
        (.assign "rankdir".toList "LR".toList :: ·) := by
  have hlexed : Dot.lexer.steps .between "digraph deps \x7b\n  rankdir=LR;\n".toList =
      some (.word "digraph".toList :: .word "deps".toList :: .opening ::
        [.word "rankdir".toList, .equals, .word "LR".toList, .semicolon], .between) := by
    decide
  have hsteps : Dot.parser.steps .start
      [.word "rankdir".toList, .equals, .word "LR".toList, .semicolon] =
        some ([.assign "rankdir".toList "LR".toList], .start) := by
    decide
  have hname : (Dot.identifier (.word "deps".toList)).isSome := by decide
  have htext := toList_framed hsafe "digraph deps \x7b\n  rankdir=LR;\n" "\x7d\n"
  exact (congrArg Dot.parse htext).trans (Dot.parse_append hlexed hname hsteps _)

/-- Graphviz reads the graph from its text exactly when no name has a quote and none ends
in an odd number of backslashes. -/
theorem dot_denotes_graph_iff (graph : ImportGraph) (hsafe : ∀ name ∈ graph.names, Safe name) :
    Dot.parse (renderDepsDot graph).toList = some graph.statements ↔
      ∀ name ∈ graph.names, Dot.Quotable name.toList := by
  have hlines : ∀ path ∈ graph.paths, ∀ text ∈ path.1 :: path.2, '\n' ∉ text :=
    (forall_paths graph ('\n' ∉ ·)).2 fun name hname => (hsafe name hname).newline_notMem
  have hread : Dot.parse (renderDepsDot graph).toList = some graph.statements ↔
      Dot.readFrom .start (graph.paths.flatMap Dot.pathText ++ "\x7d\n".toList) =
        some (graph.paths.map fun path => .path (path.1 :: path.2)) := by
    rw [parse_renderDepsDot hsafe, statements_eq, ← Option.map_some
      (f := (Dot.Statement.assign "rankdir".toList "LR".toList :: ·))]
    exact (Option.map_injective (List.cons_injective)).eq_iff
  rw [hread, Dot.readFrom_paths hlines, forall_paths]

/-- Two files, one of which imports the other. -/
def twoFiles (importer : String) : ImportGraph :=
  { level := .file
    nodes := [importer, "b.kt"]
    edges := [⟨importer, "b.kt"⟩]
    external := []
    cycles := [] }

theorem plain_graph_denoted :
    Dot.parse (renderDepsDot (twoFiles "a\\\\.kt")).toList =
      some (twoFiles "a\\\\.kt").statements :=
  (dot_denotes_graph_iff (twoFiles "a\\\\.kt") (by decide)).2 (by decide)

/-- A path that ends its identifier, and brings a statement in. -/
theorem quoted_path_injects :
    (∀ name ∈ (twoFiles "a\";x;\".kt").names, Safe name) ∧
      Dot.parse (renderDepsDot (twoFiles "a\";x;\".kt")).toList ≠
        some (twoFiles "a\";x;\".kt").statements := by
  have hsafe : ∀ name ∈ (twoFiles "a\";x;\".kt").names, Safe name := by decide
  constructor
  · exact hsafe
  · rw [parse_renderDepsDot hsafe]
    decide

end Ktsense.Core
