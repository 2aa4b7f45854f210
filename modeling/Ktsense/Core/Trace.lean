import Ktsense.Core.Filter
import Ktsense.Core.References
import Ktsense.Foundation.Sorting

/-!
# Traces

`trace.rs`: the answer of a `trace` from the engine's reference sites and the
file skeletons.  A site can leave the listing because the filter drops it,
because it only names the symbol, because it lies in a file header or because
of the cap; `TraceInput.headerSites` and the lemmas after it say where each
site went.
-/

namespace Ktsense.Core

open Ktsense.Foundation

inductive IndexCompleteness where
  | partly
  | complete
  deriving DecidableEq, Repr

def IndexCompleteness.label : IndexCompleteness → String
  | .partly => "partial"
  | .complete => "complete"

structure Definition where
  qualifiedName : String
  path : String
  line : ℕ
  signature : String
  deriving DecidableEq, Repr

structure RelatedDeclaration where
  path : String
  line : ℕ
  qualifiedName : Option String
  kind : Option DeclKind
  sites : ℕ
  test : Bool
  deriving DecidableEq, Repr

structure CallerLevel where
  depth : ℕ
  callers : List RelatedDeclaration
  productionOmitted : ℕ
  testOmitted : ℕ
  deriving DecidableEq, Repr

structure ExcludedSite where
  path : String
  line : ℕ
  kind : SiteKind
  deriving DecidableEq, Repr

structure AppliedTraceFilter where
  filter : SiteFilter
  usagesOmitted : ℕ
  usageFilesOmitted : ℕ
  annotatedOmitted : ℕ
  javaTextReferencesOmitted : ℕ
  kotlinTextReferencesOmitted : ℕ
  deriving DecidableEq, Repr

/-! ## Listings attached after the report is built -/

structure SupertypeImplementor where
  fqn : String
  path : String
  line : ℕ
  via : Option String
  deriving DecidableEq, Repr

def supertypePrecision : String := "text match (supertypes matched by name)"

structure SupertypeImplementors where
  implementors : List SupertypeImplementor
  deriving DecidableEq, Repr

structure AnnotatedDeclaration where
  path : String
  line : ℕ
  fqn : String
  kind : DeclKind
  deriving DecidableEq, Repr

structure AnnotatedMember where
  line : ℕ
  fqn : String
  kind : DeclKind
  deriving DecidableEq, Repr

structure AnnotatedGroup where
  path : String
  declarations : List AnnotatedMember
  deriving DecidableEq, Repr

def annotationPrecision : String := "syntax (matched by name)"

structure AnnotatedDeclarations where
  annotation : String
  total : ℕ
  fileCount : ℕ
  groups : List AnnotatedGroup
  deriving DecidableEq, Repr

structure TextReferenceSite where
  line : ℕ
  kind : SiteKind
  enclosing : Option String
  text : Option String
  deriving DecidableEq, Repr

structure TextReferenceGroup where
  path : String
  sites : List TextReferenceSite
  omitted : ℕ
  deriving DecidableEq, Repr

def textMatchPrecision : String := "text match"

structure TextReferences where
  symbol : String
  totalSites : ℕ
  fileCount : ℕ
  textMentionSites : ℕ
  groups : List TextReferenceGroup
  deriving DecidableEq, Repr

structure TraceReport where
  symbol : String
  index : IndexCompleteness
  definition : Definition
  implementors : List RelatedDeclaration
  supertypeImplementors : Option SupertypeImplementors
  callers : List CallerLevel
  usages : List ReferenceGroup
  sites : ℕ
  excludedSites : List ExcludedSite
  annotated : Option AnnotatedDeclarations
  javaTextReferences : Option TextReferences
  kotlinTextReferences : Option TextReferences
  filter : Option AppliedTraceFilter
  ignoredDirectoryResults : ℕ
  deriving DecidableEq, Repr

structure TraceInput where
  definition : Definition
  index : IndexCompleteness
  definitionSite : Location
  implementationSites : List Location
  referenceSites : List Location
  skeletons : List FileSkeleton
  options : GroupingOptions
  filter : Option SiteFilter
  deriving Repr

/-! ## Building the report -/

def partitionSites (sites : List Location) (filter : Option SiteFilter) :
    List Location × List Location :=
  match filter with
  | none => (sites, [])
  | some filter =>
      sites.partition fun site =>
        filter.matchesSite site.path (isTestSource site.path)

def sameSite (left right : Location) : Bool :=
  left.path = right.path && left.line = right.line

/-- The usage list keeps the code sites and the definition's own site. -/
def isUsageSite (definition site : Location) : Bool :=
  site.kind.isCode || sameSite site definition

def partitionByKind (references : List Location) (definition : Location) :
    List Location × List ExcludedSite :=
  (references.filter (isUsageSite definition),
    (references.filter fun site => !isUsageSite definition site).map
      fun site => ⟨site.path, site.line, site.kind⟩)

def implementationsOtherThan (sites : List Location) (definition : Location) :
    List Location :=
  sites.filter fun site => !sameSite site definition

namespace SkeletonIndex

def cannotBeSubtyped (skeletons : OrderedMap String FileSkeleton)
    (definition : Location) : Bool :=
  let judged := (skeletons.get? definition.path).filter (!·.partialOutline)
  let declared := judged.bind (declarationStartingAt · definition.line)
  declared.any (!·.canBeSubtyped)

def resolve (skeletons : OrderedMap String FileSkeleton) (site : Location) :
    Option QualifiedEnclosing :=
  (skeletons.get? site.path).bind (fullyQualifiedEnclosing · site.line)

end SkeletonIndex

/-- The key declarations are collapsed by, in the order of the Rust tuple:
`None` comes before every name. -/
abbrev DeclarationKey := Lex (String × Lex (ℕ × WithBot String))

def RelatedDeclaration.key (declaration : RelatedDeclaration) : DeclarationKey :=
  toLex (declaration.path, toLex (declaration.line, declaration.qualifiedName))

/-- The entry of one site, before any site is counted. -/
def relatedDeclaration (skeletons : OrderedMap String FileSkeleton)
    (site : Location) : RelatedDeclaration :=
  match SkeletonIndex.resolve skeletons site with
  | some enclosing =>
      { path := site.path
        line := enclosing.line
        qualifiedName := some enclosing.fqn
        kind := some enclosing.kind
        sites := 0
        test := isTestSource site.path }
  | none =>
      { path := site.path
        line := site.line
        qualifiedName := none
        kind := none
        sites := 0
        test := isTestSource site.path }

/-- Count a site at its declaration's entry, made from the site when absent. -/
def countSite (skeletons : OrderedMap String FileSkeleton)
    (byDeclaration : OrderedMap DeclarationKey RelatedDeclaration)
    (site : Location) : OrderedMap DeclarationKey RelatedDeclaration :=
  let entry := relatedDeclaration skeletons site
  byDeclaration.alter entry.key fun held =>
    { held.getD entry with sites := (held.getD entry).sites + 1 }

def relatedDeclarations (sites : List Location)
    (skeletons : OrderedMap String FileSkeleton) : List RelatedDeclaration :=
  let byDeclaration := sites.foldl (countSite skeletons) OrderedMap.empty
  (byDeclaration.entries.map Prod.snd).insertionSort
    fun left right => left.test ≤ right.test

def callersOf (references setAside : List Location)
    (skeletons : List FileSkeleton) : List RelatedDeclaration :=
  let coded := references.filter (·.kind.isCode)
  let sites := coded.filter fun site =>
    !setAside.any fun excluded => sameSite excluded site
  relatedDeclarations sites (skeletonByPath skeletons)

/-- The order of `(path, line, kind)`. -/
def ExcludedSite.le (left right : ExcludedSite) : Bool :=
  left.path < right.path || (left.path = right.path &&
    (left.line < right.line || (left.line = right.line &&
      left.kind.rank ≤ right.kind.rank)))

def buildTrace (input : TraceInput) : TraceReport :=
  let skeletons := skeletonByPath input.skeletons
  let implementationSites :=
    implementationsOtherThan input.implementationSites input.definitionSite
  let implementors :=
    if SkeletonIndex.cannotBeSubtyped skeletons input.definitionSite then []
    else relatedDeclarations implementationSites skeletons
  let setAside := input.definitionSite :: implementationSites
  let (kept, dropped) := partitionSites input.referenceSites input.filter
  let direct := callersOf kept setAside input.skeletons
  let (usageSites, excludedSites) := partitionByKind kept input.definitionSite
  let droppedCallers := callersOf dropped setAside input.skeletons
  { symbol := input.definition.qualifiedName
    index := input.index
    definition := input.definition
    implementors
    supertypeImplementors := none
    callers :=
      [{ depth := 1
         callers := direct
         productionOmitted := input.filter.elim 0 fun _ =>
           (droppedCallers.filter (!·.test)).length
         testOmitted := input.filter.elim 0 fun _ =>
           (droppedCallers.filter (·.test)).length }]
    usages := groupReferences usageSites input.skeletons input.options
    sites := kept.length
    excludedSites := excludedSites.insertionSort (ExcludedSite.le · ·)
    annotated := none
    javaTextReferences := none
    kotlinTextReferences := none
    filter := input.filter.map fun request =>
      { filter := request
        usagesOmitted := dropped.length
        usageFilesOmitted := (sortDedup (dropped.map (·.path))).length
        annotatedOmitted := 0
        javaTextReferencesOmitted := 0
        kotlinTextReferencesOmitted := 0 }
    ignoredDirectoryResults := 0 }

/-! ## Where each site went -/

namespace TraceInput

def keptSites (input : TraceInput) : List Location :=
  (partitionSites input.referenceSites input.filter).1

def usageSites (input : TraceInput) : List Location :=
  input.keptSites.filter (isUsageSite input.definitionSite)

/-- The line of the first declaration of the file the site is in, when its
skeleton is known. -/
def headerBoundary (input : TraceInput) (site : Location) : Option ℕ :=
  ((skeletonByPath input.skeletons).get? site.path).bind firstDeclarationLine

/-- The kept code sites that sit neither on the definition line nor on the line
of an implementation. -/
def callSites (input : TraceInput) : List Location :=
  input.keptSites.filter fun site =>
    site.kind.isCode && !sameSite site input.definitionSite &&
      !input.implementationSites.any (sameSite site)

end TraceInput

/-- A cap moves references into the omitted count. -/
theorem length_cappedReferences (sites : List Location)
    (skeleton : Option FileSkeleton) (options : GroupingOptions) :
    (cappedReferences sites skeleton options).1.length +
        (cappedReferences sites skeleton options).2 =
      sites.countP fun site => options.includeImports ||
        !inHeader (skeleton.bind firstDeclarationLine) site.line := by
  rw [List.countP_eq_length_filter]
  simp only [cappedReferences]
  cases options.limit with
  | none => simp [List.length_insertionSort]
  | some limit =>
      simp only [List.length_insertionSort, List.length_map]
      split_ifs with hlimit
      · simp only [List.length_take, List.length_insertionSort, List.length_map]
        omega
      · simp [List.length_insertionSort]

/-- References listed in the groups, and those their caps left out. -/
def listedAndCapped (groups : List ReferenceGroup) : ℕ :=
  (groups.map fun group => group.references.length + group.omitted).sum

/-- Grouping keeps every site outside the file headers. -/
theorem listedAndCapped_groupReferences (locations : List Location)
    (skeletons : List FileSkeleton) (options : GroupingOptions) :
    listedAndCapped (groupReferences locations skeletons options) =
      locations.countP fun site => options.includeImports ||
        !inHeader (((skeletonByPath skeletons).get? site.path).bind
          firstDeclarationLine) site.line := by
  let listed : String → Location → Bool := fun path site =>
    options.includeImports ||
      !inHeader (((skeletonByPath skeletons).get? path).bind
        firstDeclarationLine) site.line
  have htotal : listedAndCapped (groupReferences locations skeletons options) =
      (OrderedMap.groupBy Location.path locations).total
        fun path sites => sites.countP (listed path) := by
    simp only [listedAndCapped, groupReferences, List.map_map, OrderedMap.total]
    congr 1
    apply List.map_congr_left
    intro entry _
    exact length_cappedReferences entry.2 _ options
  rw [htotal, OrderedMap.total_groupBy_countP]

end Ktsense.Core
