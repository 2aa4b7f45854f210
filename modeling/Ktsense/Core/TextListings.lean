import Ktsense.Core.Filter
import Ktsense.Core.Trace
import Ktsense.Foundation.Listing

/-!
# Listings of text matches

`text_search.rs` and `text_refs.rs`: hits are listed file by file in path order, each
file's by line and cut to a limit; a search joins what is shown under the declarations
that enclose it.
-/

namespace Ktsense.Core

open Ktsense.Foundation

/-! ## Searches -/

structure TextSearchHit where
  path : String
  line : ℕ
  sourceLine : String
  kind : SiteKind
  enclosing : Option String
  java : Bool
  deriving DecidableEq, Repr

structure TextSearchLine where
  line : ℕ
  kind : SiteKind
  sourceLine : String
  deriving DecidableEq, Repr

structure TextSearchDeclaration where
  fqn : Option String
  hits : List TextSearchLine
  deriving DecidableEq, Repr

structure TextSearchFile where
  path : String
  test : Bool
  java : Bool
  declarations : List TextSearchDeclaration
  omitted : ℕ
  deriving DecidableEq, Repr

structure TextSearch where
  pattern : String
  precision : String
  totalHits : ℕ
  fileCount : ℕ
  textMentionHits : ℕ
  files : List TextSearchFile
  deriving DecidableEq, Repr

/-- The name a hit is listed under: what came with it, else what its skeleton says. -/
def TextSearchHit.fqn (skeleton : Option FileSkeleton) (hit : TextSearchHit) : Option String :=
  hit.enclosing.or
    ((skeleton.bind (fullyQualifiedEnclosing · hit.line)).map (·.fqn))

def TextSearchHit.listed (hit : TextSearchHit) : TextSearchLine :=
  ⟨hit.line, hit.kind, hit.sourceLine⟩

/-- Consecutive hits of one name share a group; a change of name opens the next. -/
def groupByDeclaration (hits : List TextSearchHit) (skeleton : Option FileSkeleton) :
    List TextSearchDeclaration :=
  (runsOf (TextSearchHit.fqn skeleton) hits).map fun (fqn, held) =>
    ⟨fqn, held.map TextSearchHit.listed⟩

def buildTextSearch (pattern : String) (hits : List TextSearchHit)
    (skeletons : List FileSkeleton) (limit : Option ℕ) : TextSearch :=
  let skeletons := skeletonByPath skeletons
  let files := (listing TextSearchHit.path TextSearchHit.line limit hits).map
    fun (path, fileHits, omitted) =>
      { path
        test := isTestSource path
        java := fileHits.head?.any TextSearchHit.java
        declarations := groupByDeclaration fileHits (skeletons.get? path)
        omitted : TextSearchFile }
  { pattern
    precision := textMatchPrecision
    totalHits := hits.length
    fileCount := files.length
    textMentionHits := (hits.filter fun hit => hit.kind.isTextMention).length
    files }

/-! ## References -/

/-- The order of `(line, column)`, in which no column comes first. -/
def Location.position (site : Location) : ℕ ×ₗ WithBot ℕ := toLex (site.line, site.column)

def buildGrouped (symbol : String) (sites : List Location) (limit : Option ℕ)
    (attributeSite : String → ℕ → Option String × Option String) : TextReferences :=
  let groups := (listing Location.path Location.position limit sites).map
    fun (path, fileSites, omitted) =>
      { path
        sites := fileSites.map fun site =>
          let (enclosing, text) := attributeSite path site.line
          { line := site.line, kind := site.kind, enclosing, text }
        omitted : TextReferenceGroup }
  { symbol
    totalSites := sites.length
    fileCount := groups.length
    textMentionSites := (sites.filter fun site => site.kind.isTextMention).length
    groups }

def buildTextReferences (symbol : String) (sites : List Location) (limit : Option ℕ) :
    TextReferences :=
  buildGrouped symbol sites limit fun _ _ => (none, none)

/-- The declaration a skeleton names for a line. -/
def attributeBySkeleton (skeletons : List FileSkeleton) (path : String) (line : ℕ) :
    Option String × Option String :=
  ((((skeletonByPath skeletons).get? path).bind
    (fullyQualifiedEnclosing · line)).map (·.fqn), none)

def buildTextReferencesAttributed (symbol : String) (sites : List Location)
    (skeletons : List FileSkeleton) (limit : Option ℕ) : TextReferences :=
  buildGrouped symbol sites limit (attributeBySkeleton skeletons)

def buildTextReferencesWithText (symbol : String) (sites : List Location) (limit : Option ℕ)
    (attributeSite : String → ℕ → Option String × Option String) : TextReferences :=
  buildGrouped symbol sites limit attributeSite

/-! ## What a listing conserves -/

/-- The lines a file shows, each with the name of the group it stands in. -/
def TextSearchFile.lines (file : TextSearchFile) : List (Option String × TextSearchLine) :=
  file.declarations.flatMap fun declaration => declaration.hits.map (declaration.fqn, ·)

/-- The first items of a path, stably sorted, as far as the limit goes. -/
def ShownOf {A K : Type*} [LinearOrder K] (path : A → String) (key : A → K)
    (limit : Option ℕ) (items : List A) (wanted : String) (shown : List A) : Prop :=
  ∃ sorted, StableSort key (items.filter (path · = wanted)) sorted ∧
    shown = limit.elim sorted (sorted.take ·)

structure ConservesHits (hits : List TextSearchHit) (skeletons : List FileSkeleton)
    (limit : Option ℕ) (answer : TextSearch) : Prop where
  total : answer.totalHits = hits.length
  sum : (answer.files.map fun file => file.lines.length + file.omitted).sum = answer.totalHits
  mentions : answer.textMentionHits = hits.countP fun hit => hit.kind.isTextMention
  count : answer.fileCount = answer.files.length
  ordered : (answer.files.map TextSearchFile.path).Pairwise (· < ·)
  paths : ∀ path, path ∈ answer.files.map TextSearchFile.path ↔
    path ∈ hits.map TextSearchHit.path
  /-- The groups, joined, are what is shown, each hit under its own name. -/
  shown : ∀ file ∈ answer.files, ∃ shown,
    ShownOf TextSearchHit.path TextSearchHit.line limit hits file.path shown ∧
      file.lines = shown.map fun hit =>
        (hit.fqn ((skeletonByPath skeletons).get? file.path), hit.listed)
  adjacent : ∀ file ∈ answer.files,
    file.declarations.IsChain fun left right => left.fqn ≠ right.fqn

structure ConservesSites (sites : List Location) (limit : Option ℕ)
    (attributeSite : String → ℕ → Option String × Option String) (answer : TextReferences) :
    Prop where
  total : answer.totalSites = sites.length
  sum : (answer.groups.map fun group => group.sites.length + group.omitted).sum =
    answer.totalSites
  mentions : answer.textMentionSites = sites.countP fun site => site.kind.isTextMention
  count : answer.fileCount = answer.groups.length
  ordered : (answer.groups.map TextReferenceGroup.path).Pairwise (· < ·)
  paths : ∀ path, path ∈ answer.groups.map TextReferenceGroup.path ↔
    path ∈ sites.map Location.path
  shown : ∀ group ∈ answer.groups, ∃ shown,
    ShownOf Location.path Location.position limit sites group.path shown ∧
      group.sites = shown.map fun site =>
        { line := site.line
          kind := site.kind
          enclosing := (attributeSite group.path site.line).1
          text := (attributeSite group.path site.line).2 }

/-! ## Searches conserve their hits -/

theorem lines_groupByDeclaration (hits : List TextSearchHit) (skeleton : Option FileSkeleton) :
    (groupByDeclaration hits skeleton).flatMap
        (fun declaration => declaration.hits.map (declaration.fqn, ·)) =
      hits.map fun hit => (hit.fqn skeleton, hit.listed) := by
  have hnamed := congrArg (List.map fun (fqn, hit) => (fqn, TextSearchHit.listed hit))
    (namedItems_runsOf (TextSearchHit.fqn skeleton) hits)
  rw [namedItems, List.map_flatMap, List.map_map] at hnamed
  rw [groupByDeclaration, List.flatMap_map]
  refine Eq.trans ?_ hnamed
  apply List.flatMap_congr
  intro run _
  rw [List.map_map, List.map_map]
  rfl

theorem isChain_groupByDeclaration (hits : List TextSearchHit)
    (skeleton : Option FileSkeleton) :
    (groupByDeclaration hits skeleton).IsChain fun left right => left.fqn ≠ right.fqn := by
  rw [groupByDeclaration, List.isChain_map]
  exact isChain_runsOf (TextSearchHit.fqn skeleton) hits

theorem buildTextSearch_conserves (pattern : String) (hits : List TextSearchHit)
    (skeletons : List FileSkeleton) (limit : Option ℕ) :
    ConservesHits hits skeletons limit (buildTextSearch pattern hits skeletons limit) := by
  have hpaths : (buildTextSearch pattern hits skeletons limit).files.map TextSearchFile.path =
      sortDedup (hits.map TextSearchHit.path) := by
    rw [← names_listing TextSearchHit.path TextSearchHit.line limit, buildTextSearch,
      List.map_map]
    rfl
  constructor
  case total => rfl
  case count => rfl
  case mentions => exact List.countP_eq_length_filter.symm
  case sum =>
    rw [buildTextSearch, List.map_map]
    apply sum_listing
    intro entry
    simp only [Function.comp_apply, TextSearchFile.lines, lines_groupByDeclaration,
      List.length_map]
  case ordered => exact hpaths ▸ pairwise_sortDedup _
  case paths =>
    intro path
    rw [hpaths, mem_sortDedup]
  case shown =>
    intro file hfile
    obtain ⟨⟨path, shown, omitted⟩, hentry, rfl⟩ := List.mem_map.1 hfile
    exact ⟨shown, shown_of_mem_listing _ _ _ _ hentry, lines_groupByDeclaration shown _⟩
  case adjacent =>
    intro file hfile
    obtain ⟨⟨path, shown, omitted⟩, -, rfl⟩ := List.mem_map.1 hfile
    exact isChain_groupByDeclaration shown _

/-! ## References conserve their sites -/

theorem buildGrouped_conserves (symbol : String) (sites : List Location) (limit : Option ℕ)
    (attributeSite : String → ℕ → Option String × Option String) :
    ConservesSites sites limit attributeSite (buildGrouped symbol sites limit attributeSite) := by
  have hpaths : (buildGrouped symbol sites limit attributeSite).groups.map TextReferenceGroup.path =
      sortDedup (sites.map Location.path) := by
    rw [← names_listing Location.path Location.position limit, buildGrouped, List.map_map]
    rfl
  constructor
  case total => rfl
  case count => rfl
  case mentions => exact List.countP_eq_length_filter.symm
  case sum =>
    rw [buildGrouped, List.map_map]
    apply sum_listing
    intro entry
    simp only [Function.comp_apply, List.length_map]
  case ordered => exact hpaths ▸ pairwise_sortDedup _
  case paths =>
    intro path
    rw [hpaths, mem_sortDedup]
  case shown =>
    intro group hgroup
    obtain ⟨⟨path, shown, omitted⟩, hentry, rfl⟩ := List.mem_map.1 hgroup
    exact ⟨shown, shown_of_mem_listing _ _ _ _ hentry, rfl⟩

/-- Every listing of text matches conserves them: what is shown and what is counted as
left out is all there is, in order. -/
theorem text_listings_conserve (name : String) (hits : List TextSearchHit)
    (sites : List Location) (skeletons : List FileSkeleton)
    (attributeSite : String → ℕ → Option String × Option String) (limit : Option ℕ) :
    ConservesHits hits skeletons limit (buildTextSearch name hits skeletons limit) ∧
      ConservesSites sites limit (fun _ _ => (none, none))
        (buildTextReferences name sites limit) ∧
      ConservesSites sites limit (attributeBySkeleton skeletons)
        (buildTextReferencesAttributed name sites skeletons limit) ∧
      ConservesSites sites limit attributeSite
        (buildTextReferencesWithText name sites limit attributeSite) :=
  ⟨buildTextSearch_conserves name hits skeletons limit,
    buildGrouped_conserves name sites limit _,
    buildGrouped_conserves name sites limit _,
    buildGrouped_conserves name sites limit attributeSite⟩

end Ktsense.Core
