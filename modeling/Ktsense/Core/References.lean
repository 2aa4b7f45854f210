import Ktsense.Core.Skeleton
import Ktsense.Foundation.OrderedMap

/-!
# Reference sites and the declarations around them

`references.rs`: reference sites are grouped by file, tagged with the innermost
declaration whose recovered span holds the line, stripped of the file header
and capped.  A declaration keeps only the line of its name, so its span runs to
the line before the next sibling's name, or to the bound of its parent.
-/

namespace Ktsense.Core

open Ktsense.Foundation

/-- The syntax node a reference site falls in. -/
inductive SiteKind where
  | code
  | comment
  | kdoc
  | string
  | declarationName
  deriving DecidableEq, Repr

namespace SiteKind

def isCode (kind : SiteKind) : Bool := kind = .code

def isTextMention (kind : SiteKind) : Bool :=
  kind = .comment || kind = .kdoc || kind = .string

/-- The derived `Ord`: the order of the variants. -/
def rank : SiteKind → ℕ
  | .code => 0
  | .comment => 1
  | .kdoc => 2
  | .string => 3
  | .declarationName => 4

end SiteKind

structure Location where
  path : String
  line : ℕ
  column : Option ℕ
  kind : SiteKind
  deriving DecidableEq, Repr

structure GroupingOptions where
  limit : Option ℕ
  includeImports : Bool
  deriving DecidableEq, Repr

structure EnclosingDeclaration where
  kind : DeclKind
  qualifiedName : String
  line : ℕ
  deriving DecidableEq, Repr

structure Reference where
  line : ℕ
  column : Option ℕ
  enclosing : Option EnclosingDeclaration
  deriving DecidableEq, Repr

structure ReferenceGroup where
  path : String
  references : List Reference
  omitted : ℕ
  deriving DecidableEq, Repr

/-! ## Enclosure -/

/-- The last line a declaration spans, from the siblings that follow it. -/
def spanEnd (following : List Declaration) (parentEnd : Option ℕ) : Option ℕ :=
  match following with
  | next :: _ => some (next.line - 1)
  | [] => parentEnd

/-- Whether a span from `start` to `last` holds `line`; `none` is the end of
the file. -/
def spans (start : ℕ) (last : Option ℕ) (line : ℕ) : Bool :=
  start ≤ line && last.all (line ≤ ·)

mutual

/-- A declaration that holds the line, and what its children add. -/
def chainWithin : Declaration → ℕ → Option ℕ → List Declaration
  | declaration@{ children, .. }, line, last =>
      declaration :: enclosingChain children line last

/-- The declarations from outermost to innermost whose spans hold `line`. -/
def enclosingChain : List Declaration → ℕ → Option ℕ → List Declaration
  | [], _, _ => []
  | declaration :: following, line, parentEnd =>
      let last := spanEnd following parentEnd
      if spans declaration.line last line then chainWithin declaration line last
      else enclosingChain following line parentEnd

end

def EnclosingDeclaration.fromChain (chain : List Declaration)
    (hchain : chain ≠ []) : EnclosingDeclaration :=
  let innermost := chain.getLast hchain
  { kind := innermost.kind
    qualifiedName := ".".intercalate ((chain.map (·.name)).filter (· ≠ ""))
    line := innermost.line }

def enclosingDeclaration (skeleton : FileSkeleton) (line : ℕ) :
    Option EnclosingDeclaration :=
  let chain := enclosingChain skeleton.declarations line none
  if hchain : chain = [] then none
  else some (EnclosingDeclaration.fromChain chain hchain)

structure QualifiedEnclosing where
  fqn : String
  kind : DeclKind
  line : ℕ
  deriving DecidableEq, Repr

def fullyQualifiedEnclosing (skeleton : FileSkeleton) (line : ℕ) :
    Option QualifiedEnclosing :=
  (enclosingDeclaration skeleton line).map fun enclosing =>
    let fqn :=
      match skeleton.package with
      | some package =>
          if enclosing.qualifiedName ≠ "" then
            package ++ "." ++ enclosing.qualifiedName
          else package
      | none => enclosing.qualifiedName
    ⟨fqn, enclosing.kind, enclosing.line⟩

def declarationStartingAt (skeleton : FileSkeleton) (line : ℕ) :
    Option Declaration :=
  (enclosingChain skeleton.declarations line none).reverse.find?
    (·.line = line)

structure DeclarationSpan where
  start : ℕ
  last : Option ℕ
  deriving DecidableEq, Repr

mutual

/-- The span of a declaration that holds the line: that of a child which starts
on the line, or its own. -/
def spanWithin : Declaration → ℕ → Option ℕ → Option DeclarationSpan
  | { line := start, children, .. }, line, last =>
      (spanAt children line last).or
        (if start = line then some ⟨line, last⟩ else none)

def spanAt : List Declaration → ℕ → Option ℕ → Option DeclarationSpan
  | [], _, _ => none
  | declaration :: following, line, parentEnd =>
      let last := spanEnd following parentEnd
      let found :=
        if spans declaration.line last line then spanWithin declaration line last
        else none
      found.or (spanAt following line parentEnd)

end

def declarationSpanAt (skeleton : FileSkeleton) (line : ℕ) :
    Option DeclarationSpan :=
  spanAt skeleton.declarations line none

/-! ## Grouping -/

/-- The skeleton each path is looked up in: of two with one path, the later. -/
def skeletonByPath (skeletons : List FileSkeleton) :
    OrderedMap String FileSkeleton :=
  OrderedMap.ofList (skeletons.map fun skeleton => (skeleton.path, skeleton))

def firstDeclarationLine (skeleton : FileSkeleton) : Option ℕ :=
  (skeleton.declarations.map (·.line)).min?

def inHeader (boundary : Option ℕ) (line : ℕ) : Bool :=
  boundary.any (line < ·)

/-- `Option<u32>` in its derived order: `None` comes first. -/
def columnLe : Option ℕ → Option ℕ → Bool
  | none, _ => true
  | some _, none => false
  | some left, some right => left ≤ right

/-- The order of `(line, column)`. -/
def Reference.le (left right : Reference) : Bool :=
  left.line < right.line ||
    (left.line = right.line && columnLe left.column right.column)

def cappedReferences (sites : List Location) (skeleton : Option FileSkeleton)
    (options : GroupingOptions) : List Reference × ℕ :=
  let headerBoundary := skeleton.bind firstDeclarationLine
  let kept := sites.filter fun location =>
    options.includeImports || !inHeader headerBoundary location.line
  let references := kept.map fun location =>
    { line := location.line
      column := location.column
      enclosing := skeleton.bind (enclosingDeclaration · location.line) }
  let references := references.insertionSort (Reference.le · ·)
  match options.limit with
  | some limit =>
      if limit < references.length then
        (references.take limit, references.length - limit)
      else (references, 0)
  | none => (references, 0)

def groupReferences (locations : List Location) (skeletons : List FileSkeleton)
    (options : GroupingOptions) : List ReferenceGroup :=
  let skeletons := skeletonByPath skeletons
  let sitesByPath := OrderedMap.groupBy Location.path locations
  sitesByPath.entries.map fun (path, sites) =>
    let (references, omitted) :=
      cappedReferences sites (skeletons.get? path) options
    { path, references, omitted }

end Ktsense.Core
