import Ktsense.Cli.Locate
import Ktsense.Syntax.ExtractShape

/-!
# Declarations inside bodies

`locate_local` of `extract.rs`.  The search goes down every node to a bound, keeps the names
of the declarations on the way and stops at the first exact hit.  It is the search that
`locate` makes in a skeleton, made in the list of the declarations inside bodies.
-/

namespace Ktsense.Syntax

open Ktsense.Foundation Ktsense.Core Ktsense.Core.Layout Ktsense.Cli Node

def maxLocalScanDepth : ℕ := 512

structure LocalDeclaration where
  package : Option String
  ancestors : List String
  declaration : Declaration

/-- The name of a declaration, read without the rest of it. -/
def declarationName (node : Node) : Option String :=
  match node.kind with
  | "class_declaration" | "object_declaration" | "companion_object" | "type_alias" =>
      (node.firstChildOfKind "type_identifier").map text
  | "function_declaration" | "enum_entry" =>
      (node.firstChildOfKind "simple_identifier").map text
  | "property_declaration" =>
      (node.firstChildOfKind "variable_declaration").bind fun variableNode =>
        (variableNode.firstChildOfKind "simple_identifier").map text
  | "secondary_constructor" => some "constructor"
  | _ => none

section Search

variable (alphanumeric : Alphanumeric) (name : String) (line : ℕ)

/-- Visit siblings in order until a visit says that the search is over. -/
def visitUntil (visit : Option Node × Node → Option Located → Option Located × Bool) :
    List (Option Node × Node) → Option Located → Option Located × Bool
  | [], best => (best, false)
  | placed :: rest, best =>
      match visit placed best with
      | (best, true) => (best, true)
      | (best, false) => visitUntil visit rest best

/-- The search below a node with room for so many levels: the best hit so far, and whether
it is an exact one. -/
def findLocal : ℕ → Node → Bool → List String → Option Located → Option Located × Bool
  | 0, _, _, _, best => (best, false)
  | room + 1, node, inLocalScope, ancestors, best =>
      visitUntil (fun placed best =>
        match declarationName placed.2 with
        | none => findLocal room placed.2 inLocalScope ancestors best
        | some declarationName =>
            let hit :=
              if inLocalScope && declarationName = name then
                (declaration alphanumeric placed.1 placed.2).1
              else none
            let enteredLocal := inLocalScope || !holdsMembers placed.2.kind
            let below := findLocal room placed.2 enteredLocal (ancestors ++ [declarationName])
            match hit with
            | some declaration =>
                if declaration.line = line then (some ⟨declaration, ancestors⟩, true)
                else below (best.or (some ⟨declaration, ancestors⟩))
            | none => below best)
        (withPrevious none node.children) best

def packageOf (root : Node) : Option String :=
  (root.firstChildOfKind "package_header").bind identifierText

def locateLocal (parse : String → Option Tree) (source : String) :
    Option LocalDeclaration :=
  (parse source).bind fun tree =>
    (findLocal alphanumeric name line maxLocalScanDepth tree.root false [] none).1.map
      fun found => ⟨packageOf tree.root, found.ancestors, found.declaration⟩

end Search

/-! ## The places in a tree -/

/-- A node with the nodes around it below the root, outermost first, and the named sibling
before it. -/
structure Site where
  above : List Node
  previous : Option Node
  node : Node

namespace Site

def under (outer : Node) (site : Site) : Site := { site with above := outer :: site.above }

/-- Some declaration around the node has a body that does not hold members. -/
def isLocal (site : Site) : Bool :=
  site.above.any fun outer => (declarationName outer).isSome && !holdsMembers outer.kind

end Site

mutual

/-- The places below a node, each before those below it. -/
def sitesBelow : Node → List Site
  | .node _ children => sitesAmong none children

def sitesAmong : Option Node → List Node → List Site
  | _, [] => []
  | previous, node :: rest =>
      ⟨[], previous, node⟩ :: ((sitesBelow node).map (Site.under node) ++
        sitesAmong (if node.isNamed then some node else previous) rest)

end

section Located

variable (alphanumeric : Alphanumeric)

end Located

/-! ## Names -/

section Names

variable {alphanumeric : Alphanumeric} {node : Node}

def parameterList (row : ℕ) : Node :=
  .node ⟨"function_value_parameters", true, "()", row⟩ [token "(" row, token ")" row]

def innerFunction : Node :=
  .node ⟨"function_declaration", true, "fun inner() \x7b\x7d", 1⟩
    [token "fun" 1, leaf "simple_identifier" "inner" 1, parameterList 1,
      .node ⟨"function_body", true, "\x7b\x7d", 1⟩ [token "\x7b" 1, token "\x7d" 1]]

def statements : Node := .node ⟨"statements", true, "fun inner() \x7b\x7d", 1⟩ [innerFunction]

end Names

end Ktsense.Syntax
