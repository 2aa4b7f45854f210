import Ktsense.Core.Scc
import Ktsense.Core.Skeleton
import Ktsense.Foundation.Text

/-!
# The import graph

`imports.rs`: which packages or files import which.  An import resolves inside
the workspace when a file of the named package declares the imported name at
the top level, or, for a wildcard, when the package exists.
-/

namespace Ktsense.Core

open Ktsense.Foundation

inductive DepLevel where
  | file
  | package
  deriving DecidableEq, Repr

structure DepEdge where
  origin : String
  destination : String
  deriving DecidableEq, Repr

structure ExternalImport where
  source : String
  imported : String
  deriving DecidableEq, Repr

structure ImportGraph where
  level : DepLevel
  nodes : List String
  edges : List DepEdge
  external : List ExternalImport
  cycles : List (List String)
  deriving DecidableEq, Repr

/-- `rsplit_once`: what stands before and after the last separator. -/
def rsplitOnce (separator : Char) (text : String) : Option (String × String) :=
  (splitOnce separator text.toList.reverse).map fun (after, before) =>
    (String.ofList before.reverse, String.ofList after.reverse)

/-- What the workspace declares. -/
structure WorkspaceIndex where
  packages : List String
  namesByPackage : OrderedMap String (List String)
  filesByPackage : OrderedMap String (List String)
  filesBySymbol : OrderedMap (Lex (String × String)) (List String)

namespace WorkspaceIndex

/-- The files that declare a package, each with it. -/
def packaged (files : List FileSkeleton) : List (String × FileSkeleton) :=
  files.filterMap fun file => file.package.map fun package => (package, file)

/-- The declared names, each with its package and file. -/
def symbols (files : List FileSkeleton) : List (String × String × String) :=
  (packaged files).flatMap fun (package, file) =>
    file.declarations.map fun declaration =>
      (package, declaration.name, file.path)

/-- The values of a list of entries under each key, ascending without
repetitions. -/
def collect {K : Type*} [LinearOrder K] (entries : List (K × String)) :
    OrderedMap K (List String) :=
  OrderedMap.ofList ((OrderedMap.groupBy Prod.fst entries).entries.map
    fun (key, held) => (key, sortDedup (held.map Prod.snd)))

def build (files : List FileSkeleton) : WorkspaceIndex where
  packages := sortDedup ((packaged files).map Prod.fst)
  namesByPackage := collect ((symbols files).map fun (package, name, _) =>
    (package, name))
  filesByPackage := collect ((packaged files).map fun (package, file) =>
    (package, file.path))
  filesBySymbol := collect ((symbols files).map fun (package, name, path) =>
    (toLex (package, name), path))

def targetFiles (index : WorkspaceIndex) (package name : String)
    (wildcard : Bool) : List String :=
  if wildcard then (index.filesByPackage.get? package).getD []
  else (index.filesBySymbol.get? (toLex (package, name))).getD []

/-- The nodes an import leads to, or `none` when it leaves the workspace. -/
def resolve (index : WorkspaceIndex) (imported : String) (level : DepLevel) :
    Option (List String) :=
  match rsplitOnce '.' imported with
  | none => none
  | some (package, name) =>
      let wildcard : Bool := name = "*"
      let internal :=
        if wildcard then index.packages.contains package
        else (index.namesByPackage.get? package).any (·.contains name)
      if internal then
        match level with
        | .package => some [package]
        | .file => some (index.targetFiles package name wildcard)
      else none

end WorkspaceIndex

/-- The node a file stands for, when it declares a package. -/
def sourceNode (level : DepLevel) (file : FileSkeleton) : Option String :=
  file.package.map fun package =>
    match level with
    | .package => package
    | .file => file.path

/-- The imports of the files that take part, each with its node. -/
def importsOf (files : List FileSkeleton) (level : DepLevel) :
    List (String × String) :=
  files.flatMap fun file =>
    (sourceNode level file).elim [] fun source =>
      file.imports.map fun imported => (source, imported)

/-- Pairs in the order of the Rust tuple. -/
def sortedPairs (pairs : List (String × String)) : List (String × String) :=
  (sortDedup (pairs.map toLex)).map ofLex

def buildImportGraph (files : List FileSkeleton) (level : DepLevel) :
    ImportGraph :=
  let index := WorkspaceIndex.build files
  let edges := sortedPairs ((importsOf files level).flatMap
    fun (source, imported) =>
      (((index.resolve imported level).getD []).filter (· ≠ source)).map
        fun target => (source, target))
  let external := sortedPairs ((importsOf files level).filter
    fun (_, imported) => (index.resolve imported level).isNone)
  { level
    nodes := sortDedup (files.filterMap (sourceNode level))
    edges := edges.map fun (origin, destination) => ⟨origin, destination⟩
    external := external.map fun (source, imported) => ⟨source, imported⟩
    cycles := cycles (Graph.fromEdges edges) }

end Ktsense.Core
