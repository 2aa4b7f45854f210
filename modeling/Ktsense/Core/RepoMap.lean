import Ktsense.Core.Budget
import Ktsense.Core.Imports
import Ktsense.Core.PageRank
import Ktsense.Core.Pick

/-!
# The repository map

`repo_map.rs`: files in order of how central they are, with the signatures of
their declarations until a token budget is spent.  A focus section takes its
share first; what is left pays for the map, and for a line that says where the
omitted files live.
-/

namespace Ktsense.Core

open Ktsense.Foundation

structure MappedFile where
  path : String
  declarations : List String
  deriving DecidableEq, Repr

structure OmittedDirectory where
  path : String
  files : ℕ
  deriving DecidableEq, Repr

structure PathFilter where
  substrings : List String
  totalFiles : ℕ
  matchedFiles : ℕ
  deriving DecidableEq, Repr

structure FocusMatches where
  pattern : String
  files : List MappedFile
  omitted : ℕ
  deriving DecidableEq, Repr

structure RepoMap where
  pathFilter : Option PathFilter
  focus : Option FocusMatches
  fill : Option Bool
  otherFilesNotMapped : Option ℕ
  files : List MappedFile
  budget : ℕ
  tokenUpperBound : ℕ
  filesOmitted : ℕ
  omittedDirectories : List OmittedDirectory
  omittedDirectoriesShown : ℕ
  filesWithoutPublicDeclarations : ℕ
  deriving DecidableEq, Repr

/-- A focus request; `matcher` is the pattern the caller compiled. -/
structure FocusSpec where
  pattern : String
  matcher : String → Bool

/-- References by simple name. -/
abbrev ReferenceCounts := OrderedMap String ℕ

structure RepoMapInput where
  files : List FileSkeleton
  references : ReferenceCounts
  budget : ℕ
  path : List String
  compact : Bool
  focus : Option FocusSpec
  fill : Bool

/-- The difference an unchecked `usize` subtraction gives: what does not
underflow, or the difference wrapped around. -/
def wrappingSub (left right : ℕ) : ℕ :=
  if right ≤ left then left - right else left + usizeBound - right

theorem wrappingSub_of_le {left right : ℕ} (hle : right ≤ left) :
    wrappingSub left right = left - right := if_pos hle

/-! ## Ranking -/

/-- `str::contains`. -/
def containsText (text needle : String) : Bool :=
  (findSubslice needle.toList text.toList).isSome

def restrictToPath (files : List FileSkeleton) (substrings : List String) :
    Option (List FileSkeleton) :=
  if substrings.isEmpty then none
  else some (files.filter fun file =>
    substrings.any fun needle => containsText file.path needle)

/-- One more under a key. -/
def countKey (counts : OrderedMap String ℕ) (key : String) :
    OrderedMap String ℕ :=
  counts.alter key fun held => held.getD 0 + 1

/-- Counting keys gives each its number of occurrences. -/
theorem get?_foldl_countKey (keys : List String) (key : String) :
    (keys.foldl countKey OrderedMap.empty).get? key =
      if key ∈ keys then some (keys.count key) else none := by
  induction keys using List.reverseRecOn with
  | nil => simp
  | append_singleton keys last ih =>
      rw [List.foldl_append, List.foldl_cons, List.foldl_nil, countKey,
        OrderedMap.get?_alter]
      by_cases hkey : key = last
      · subst hkey
        by_cases hmem : key ∈ keys
        · simp [ih, hmem]
        · simp [ih, hmem, List.count_eq_zero_of_not_mem hmem]
      · have hother : ¬last = key := fun h => hkey h.symm
        simp [hkey, hother, ih, List.count_append]

def importerCounts (files : List FileSkeleton) : OrderedMap String ℕ :=
  ((files.flatMap (·.imports)).filter fun imported =>
    !endsWith imported ".*").foldl countKey OrderedMap.empty

structure Ranking where
  references : ReferenceCounts
  importers : OrderedMap String ℕ

def qualifiedName (file : FileSkeleton) (declaration : Declaration) : String :=
  match file.package with
  | some package => package ++ "." ++ declaration.name
  | none => declaration.name

namespace Ranking

def weightOf (ranking : Ranking) (file : FileSkeleton)
    (declaration : Declaration) : ℕ × ℕ :=
  ((ranking.references.get? declaration.name).getD 0,
    (ranking.importers.get? (qualifiedName file declaration)).getD 0)

def fileWeight (ranking : Ranking) (file : FileSkeleton) : ℕ × ℕ :=
  (file.declarations.map (ranking.weightOf file)).foldl
    (fun sum weight =>
      ((sum.1 + weight.1) % usizeBound, (sum.2 + weight.2) % usizeBound)) (0, 0)

/-- The order of a pair of counts. -/
def cmpWeight (left right : ℕ × ℕ) : Ordering :=
  (compare left.1 right.1).then (compare left.2 right.2)

/-- Declarations by weight, most used first, ties in source order. -/
def inReferenceOrder (ranking : Ranking) (file : FileSkeleton)
    (declarations : List Declaration) : List Declaration :=
  sortBy (fun left right =>
    (cmpWeight (ranking.weightOf file right) (ranking.weightOf file left)).then
      (compare left.line right.line)) declarations

end Ranking

def packageScores {F : Type*} (arithmetic : Arithmetic F)
    (files : List FileSkeleton) : OrderedMap String F :=
  let graph := buildImportGraph files .package
  let edges := graph.edges.map fun edge => (edge.origin, edge.destination)
  let ranked := pageRank arithmetic (Graph.fromEdges edges)
    (PageRankOptions.default arithmetic)
  OrderedMap.ofList (ranked.map fun node => (node.node, node.score))

def scoreOf {F : Type*} (arithmetic : Arithmetic F) (scores : OrderedMap String F)
    (file : FileSkeleton) : F :=
  (file.package.bind scores.get?).getD (arithmetic.ofNat 0)

/-! ## Signatures -/

/-- The first line of a text, without what ends it. -/
def firstLine (text : String) : Option String :=
  if text = "" then none
  else some (String.ofList (text.toList.takeWhile (· ≠ '\n')))

def signatureOf (file : FileSkeleton) (declaration : Declaration) :
    Option String :=
  let lone : FileSkeleton :=
    ⟨file.path, file.package, [], [declaration.containing []], false, false⟩
  let rendered := renderSkeleton lone RenderOptions.default
  (firstLine rendered).bind fun line =>
    let line := String.ofList (trim line.toList)
    if line ≠ "" then some line else none

def compactSignature (declaration : Declaration) : Option String :=
  let keyword := declaration.kind.keyword
  if keyword = "" then none
  else some (keyword ++ " " ++ neutralize declaration.name)

def renderedSignature (file : FileSkeleton) (compact : Bool)
    (declaration : Declaration) : Option String :=
  (signatureOf file declaration).map fun full =>
    if compact then (compactSignature declaration).getD full else full

def signaturesInReferenceOrder (file : FileSkeleton) (ranking : Ranking)
    (compact : Bool) : List String :=
  (ranking.inReferenceOrder file file.declarations).filterMap
    (renderedSignature file compact)

def matchingSignatures (file : FileSkeleton) (ranking : Ranking)
    (matcher : String → Bool) : List String :=
  (ranking.inReferenceOrder file (file.declarations.filter fun declaration =>
    matcher declaration.name)).filterMap (renderedSignature file true)

/-! ## Units -/

/-- The heading of a file, or one signature under it. -/
structure MapUnit where
  fileIndex : Option ℕ
  text : String
  deriving DecidableEq, Repr

namespace MapUnit

def header (path : String) : MapUnit := ⟨none, "## " ++ path⟩

def declaration (fileIndex : ℕ) (text : String) : MapUnit :=
  ⟨some fileIndex, text⟩

def isHeader (unit : MapUnit) : Bool := unit.fileIndex.isNone

end MapUnit

/-- A file with the signatures it offers. -/
structure Candidate where
  path : String
  signatures : List String
  deriving DecidableEq, Repr

/-- The files with something to offer, in order. -/
def candidatesOf (ordered : List FileSkeleton)
    (signatures : FileSkeleton → List String) : List Candidate :=
  (ordered.map fun file => ⟨file.path, signatures file⟩).filter
    fun candidate : Candidate => !candidate.signatures.isEmpty

/-- The units of a file: its heading, then its signatures. -/
def Candidate.units (candidate : Candidate) (index : ℕ) : List MapUnit :=
  MapUnit.header candidate.path ::
    candidate.signatures.map (MapUnit.declaration index)

def unitsOfCandidates (candidates : List Candidate) : List MapUnit :=
  candidates.zipIdx.flatMap fun (candidate, index) => candidate.units index

/-- `trim_start_matches("## ")`. -/
def trimHeading : List Char → List Char
  | '#' :: '#' :: ' ' :: rest => trimHeading rest
  | text => text

/-- Add a signature to the last file; there is none before the first heading. -/
def pushDeclaration (text : String) : List MappedFile → List MappedFile
  | [] => []
  | [file] => [{ file with declarations := file.declarations ++ [text] }]
  | file :: next :: rest => file :: pushDeclaration text (next :: rest)

def regroupUnit (files : List MappedFile) (unit : MapUnit) : List MappedFile :=
  if unit.isHeader then
    files ++ [⟨String.ofList (trimHeading unit.text.toList), []⟩]
  else pushDeclaration unit.text files

def regroup (units : List MapUnit) : List MappedFile :=
  (units.foldl regroupUnit []).filter fun file => !file.declarations.isEmpty

/-! ## The omission summary -/

def omissionSummaryBudgetFraction : ℕ := 4

def omittedFrom (candidatePaths : List String) (emitted : List MapUnit) :
    List String :=
  let shown := (regroup emitted).map (·.path)
  candidatePaths.filter fun path => !shown.contains path

def parentDirectory (path : String) : String :=
  match rsplitOnce '/' path with
  | some (directory, _) => directory
  | none => "."

def groupOmitted (paths : List String) : List OmittedDirectory :=
  let byDirectory :=
    (paths.map parentDirectory).foldl countKey OrderedMap.empty
  let directories : List OmittedDirectory :=
    byDirectory.entries.map fun (path, files) => ⟨path, files⟩
  sortBy (fun left right =>
    (compare right.files left.files).then (compare left.path right.path))
    directories

def omittedDirectoriesLine (directories : List OmittedDirectory) (shown : ℕ) :
    Option String :=
  if directories.isEmpty || shown = 0 then none
  else
    let named := ", ".intercalate ((directories.take shown).map fun directory =>
      directory.path ++ " (" ++ toString directory.files ++ ")")
    let remaining := wrappingSub directories.length shown
    some ("Omitted: " ++ named ++
      if 0 < remaining then
        ", and " ++ toString remaining ++ " more directories"
      else "")

def summaryReserve (dropped : List String) (budget : ℕ)
    (estimator : TokenEstimator) : ℕ :=
  if dropped.isEmpty then 0
  else
    let directories := groupOmitted dropped
    let fullLine :=
      (omittedDirectoriesLine directories directories.length).getD ""
    min (estimator fullLine) (budget / omissionSummaryBudgetFraction)

/-- Whether the line that names `shown` directories fits the room. -/
def lineFits (directories : List OmittedDirectory) (room : ℕ)
    (estimator : TokenEstimator) (shown : ℕ) : Bool :=
  (omittedDirectoriesLine directories shown).any fun line =>
    estimator line ≤ room

def fitDirectories (directories : List OmittedDirectory) (room : ℕ)
    (estimator : TokenEstimator) : ℕ :=
  ((List.range' 1 directories.length).reverse.find?
    (lineFits directories room estimator)).getD 0

/-! ## Building the map -/

structure FocusBuild where
  matched : Option FocusMatches
  tokens : ℕ
  matchFiles : ℕ
  deriving DecidableEq, Repr

namespace RepoMapInput

variable {F : Type*} (input : RepoMapInput) (arithmetic : Arithmetic F)
  (estimator : TokenEstimator)

def mappedFiles : List FileSkeleton :=
  (restrictToPath input.files input.path).getD input.files

def pathFilter : Option PathFilter :=
  if input.path.isEmpty then none
  else some ⟨input.path, input.files.length, input.mappedFiles.length⟩

def ranking : Ranking :=
  ⟨input.references, importerCounts input.mappedFiles⟩

/-- Files by package score, then by their own weight, then by path. -/
def ordered : List FileSkeleton :=
  let scores := packageScores arithmetic input.mappedFiles
  sortBy (fun left right =>
    ((arithmetic.cmp (scoreOf arithmetic scores right)
        (scoreOf arithmetic scores left)).then
      (Ranking.cmpWeight (input.ranking.fileWeight right)
        (input.ranking.fileWeight left))).then
      (compare left.path right.path)) input.mappedFiles

/-- The files with a declaration the focus names. -/
def focusCandidates (spec : FocusSpec) : List Candidate :=
  candidatesOf (input.ordered arithmetic) fun file =>
    matchingSignatures file input.ranking spec.matcher

def focusEmission (spec : FocusSpec) : BudgetedEmission MapUnit :=
  emitWithinBudget MapUnit.text
    (unitsOfCandidates (input.focusCandidates arithmetic spec)) input.budget
    estimator

/-- The matching declarations, before the budget. -/
def totalMatches (spec : FocusSpec) : ℕ :=
  ((input.focusCandidates arithmetic spec).map fun candidate =>
    candidate.signatures.length).sum

/-- The matching declarations the section shows. -/
def shownMatches (spec : FocusSpec) : ℕ :=
  ((regroup (input.focusEmission arithmetic estimator spec).items).map
    fun file => file.declarations.length).sum

def buildFocusSection : FocusBuild :=
  match input.focus with
  | none => ⟨none, 0, 0⟩
  | some spec =>
      let emission := input.focusEmission arithmetic estimator spec
      { matched := some
          { pattern := spec.pattern
            files := regroup emission.items
            omitted := wrappingSub (input.totalMatches arithmetic spec)
              (input.shownMatches arithmetic estimator spec) }
        tokens := emission.tokenUpperBound
        matchFiles := (input.focusCandidates arithmetic spec).length }

def mapBudget : ℕ :=
  wrappingSub input.budget (input.buildFocusSection arithmetic estimator).tokens

/-- The files with a public declaration, in order. -/
def candidates : List Candidate :=
  candidatesOf (input.ordered arithmetic) fun file =>
    signaturesInReferenceOrder file input.ranking input.compact

def candidatePaths : List String :=
  (input.candidates arithmetic).map (·.path)

def filesWithoutPublicDeclarations : ℕ :=
  (input.ordered arithmetic).countP fun file =>
    (signaturesInReferenceOrder file input.ranking input.compact).isEmpty

/-- The first pass, with nothing reserved for the summary. -/
def fullEmission : BudgetedEmission MapUnit :=
  emitWithinBudget MapUnit.text
    (unitsOfCandidates (input.candidates arithmetic))
    (input.mapBudget arithmetic estimator) estimator

def reserve : ℕ :=
  summaryReserve
    (omittedFrom (input.candidatePaths arithmetic)
      (input.fullEmission arithmetic estimator).items)
    (input.mapBudget arithmetic estimator) estimator

/-- The second pass, unless nothing is reserved. -/
def mapEmission : BudgetedEmission MapUnit :=
  if input.reserve arithmetic estimator = 0 then
    input.fullEmission arithmetic estimator
  else
    emitWithinBudget MapUnit.text
      (unitsOfCandidates (input.candidates arithmetic))
      (wrappingSub (input.mapBudget arithmetic estimator)
        (input.reserve arithmetic estimator)) estimator

def omittedPaths : List String :=
  omittedFrom (input.candidatePaths arithmetic)
    (input.mapEmission arithmetic estimator).items

def omittedDirectories : List OmittedDirectory :=
  groupOmitted (input.omittedPaths arithmetic estimator)

def roomForSummary : ℕ :=
  wrappingSub (input.mapBudget arithmetic estimator)
    (input.mapEmission arithmetic estimator).tokenUpperBound

def directoriesShown : ℕ :=
  fitDirectories (input.omittedDirectories arithmetic estimator)
    (input.roomForSummary arithmetic estimator) estimator

def summaryCost : ℕ :=
  (omittedDirectoriesLine (input.omittedDirectories arithmetic estimator)
    (input.directoriesShown arithmetic estimator)).elim 0 estimator

/-- A focus without `--fill`: the ranked map is not built. -/
def focusOnly : Bool := input.focus.isSome && !input.fill

def focusOnlyMap : RepoMap :=
  let focus := input.buildFocusSection arithmetic estimator
  { pathFilter := input.pathFilter
    focus := focus.matched
    fill := some false
    otherFilesNotMapped := some
      (wrappingSub (input.candidatePaths arithmetic).length focus.matchFiles)
    files := []
    budget := input.budget
    tokenUpperBound := focus.tokens
    filesOmitted := 0
    omittedDirectories := []
    omittedDirectoriesShown := 0
    filesWithoutPublicDeclarations :=
      input.filesWithoutPublicDeclarations arithmetic }

/-- The map with the ranked files, after the focus section if there is one. -/
def rankedMap : RepoMap :=
  let focus := input.buildFocusSection arithmetic estimator
  let emission := input.mapEmission arithmetic estimator
  { pathFilter := input.pathFilter
    focus := focus.matched
    fill := if input.focus.isSome then some true else none
    otherFilesNotMapped := none
    files := regroup emission.items
    budget := input.budget
    tokenUpperBound := focus.tokens + emission.tokenUpperBound +
      input.summaryCost arithmetic estimator
    filesOmitted := (input.omittedPaths arithmetic estimator).length
    omittedDirectories := input.omittedDirectories arithmetic estimator
    omittedDirectoriesShown := input.directoriesShown arithmetic estimator
    filesWithoutPublicDeclarations :=
      input.filesWithoutPublicDeclarations arithmetic }

end RepoMapInput

def buildRepoMap {F : Type*} (arithmetic : Arithmetic F) (input : RepoMapInput)
    (estimator : TokenEstimator) : RepoMap :=
  if input.focusOnly then input.focusOnlyMap arithmetic estimator
  else input.rankedMap arithmetic estimator

end Ktsense.Core
