import Ktsense.Cli.JavaSites
import Ktsense.Cli.Outcome
import Ktsense.Core.JavaScopes
import Ktsense.Core.TextListings
import Ktsense.Syntax.Classify
import Ktsense.Syntax.ExtractShape

/-!
# Searching the sources by a pattern

`grep.rs`: a hit is a line that the pattern matches, told by its first match.  A Kotlin file
with a hit is parsed and its hits are attributed by its skeleton; the hits of a Java file come
attributed by the scan of its braces.
-/

namespace Ktsense.Cli.Grep

open Ktsense.Foundation Ktsense.Core Ktsense.Core.Layout Ktsense.Syntax

inductive TestFilter where
  | all
  | onlyTests
  | onlyProduction
  deriving DecidableEq, Repr

def TestFilter.includes : TestFilter → Bool → Bool
  | .all, _ => true
  | .onlyTests, isTest => isTest
  | .onlyProduction, isTest => !isTest

structure MatchOptions where
  word : Bool
  ignoreCase : Bool
  fixedStrings : Bool
  deriving DecidableEq, Repr

structure GrepRequest where
  pattern : String
  pathPrefix : Option String
  tests : TestFilter
  limit : Option ℕ
  kotlinOnly : Bool
  matching : MatchOptions
  deriving DecidableEq, Repr

/-- A compiled pattern finds the first match on a line: the text in front of where it begins,
and the rest.  It never begins inside a character. -/
structure Regex where
  find : String → Option (List Char × List Char)
  cuts : ∀ {line : String} {before rest : List Char},
    find line = some (before, rest) → line.toList = before ++ rest

/-- The expression of `compile_pattern`. -/
def expressionOf (escape : String → String) (pattern : String) (matching : MatchOptions) :
    String :=
  let expr := if matching.fixedStrings then escape pattern else pattern
  let expr :=
    if matching.word then
      "\\b\x7bstart-half\x7d(?:" ++ expr ++ ")\\b\x7bend-half\x7d"
    else expr
  if matching.ignoreCase then "(?i)" ++ expr else expr

def badPattern (debug : String → String) (pattern error : String) : CommandError :=
  ⟨.failure, "ktsense: invalid search pattern " ++ debug pattern ++ ": " ++ error⟩

/-! ## The scan -/

structure MatchedLine where
  line : ℕ
  column : ℕ
  sourceLine : String
  deriving DecidableEq, Repr

/-- A row on which the pattern is found. -/
def matchedLine (regex : Regex) (row : String × ℕ) : Option MatchedLine :=
  (regex.find row.1).map fun cut =>
    ⟨coordinate row.2, coordinate (utf16Length cut.1), row.1⟩

def matchingLines (regex : Regex) (source : String) : List MatchedLine :=
  (textLines source).zipIdx.filterMap (matchedLine regex)

/-- What the scan reads its files with. -/
structure Sources (P : Type) where
  read : P → Option String
  display : P → String
  parse : String → Option Tree
  descendant : Tree → ℕ × ℕ → Option (List ℕ)
  alphanumeric : Alphanumeric
  letters : Letters

/-- A file with a hit: its workspace-relative path, its text and the lines that match. -/
structure Searched where
  display : String
  source : String
  found : List MatchedLine
  deriving DecidableEq, Repr

structure Scan where
  hits : List TextSearchHit
  skeletons : List FileSkeleton

section Scanning

variable {P : Type} (sources : Sources P) (request : GrepRequest) (regex : Regex)

/-- The files that the path and the source set of the request admit. -/
def admits (display : String) : Bool :=
  !(request.pathPrefix.any fun start => !(start.toList.isPrefixOf display.toList)) &&
    request.tests.includes (isTestSource display)

def fileMatches (file : P) : Option Searched :=
  let display := sources.display file
  if admits request display then
    (sources.read file).bind fun source =>
      let found := matchingLines regex source
      if found.isEmpty then none else some ⟨display, source, found⟩
  else none

def kotlinHits (file : Searched) : List TextSearchHit :=
  let kinds := classifyReferenceSites sources.descendant sources.parse file.source
    (file.found.map fun matched => (matched.line, matched.column))
  (file.found.zip kinds).map fun hit =>
    ⟨file.display, hit.1.line, hit.1.sourceLine, hit.2, none, false⟩

def javaHits (file : Searched) : List TextSearchHit :=
  let kinds := classifyJavaSites file.source
    (file.found.map fun matched => (matched.line, matched.column))
  let enclosings := javaEnclosingDeclarations sources.letters file.source
    (file.found.map MatchedLine.line)
  ((file.found.zip kinds).zip enclosings).map fun hit =>
    ⟨file.display, hit.1.1.line, hit.1.1.sourceLine, hit.1.2, hit.2, true⟩

def skeletonOf (file : Searched) : Option FileSkeleton :=
  (extract sources.alphanumeric sources.parse file.display file.source).toOption

def scanKotlin (scan : Scan) (file : P) : Scan :=
  match fileMatches sources request regex file with
  | none => scan
  | some searched =>
      ⟨scan.hits ++ kotlinHits sources searched,
        scan.skeletons ++ (skeletonOf sources searched).toList⟩

def scanJava (scan : Scan) (file : P) : Scan :=
  match fileMatches sources request regex file with
  | none => scan
  | some searched => ⟨scan.hits ++ javaHits sources searched, scan.skeletons⟩

/-- The two loops over the files. -/
def scan (kotlin java : List P) : Scan :=
  java.foldl (scanJava sources request regex)
    (kotlin.foldl (scanKotlin sources request regex) ⟨[], []⟩)

def answer (kotlin java : List P) : TextSearch :=
  let scan := scan sources request regex kotlin java
  buildTextSearch request.pattern scan.hits scan.skeletons request.limit

/-- `run`, up to the rendering.  The walks of the workspace are given by what they find. -/
def run (escape debug : String → String) (compile : String → Except String Regex)
    (collectKotlin collectJava : Except CommandError (List P)) :
    Except CommandError TextSearch := do
  let regex ← (compile (expressionOf escape request.pattern request.matching)).mapError
    (badPattern debug request.pattern)
  let kotlin ← collectKotlin
  let java ← if request.kotlinOnly then pure [] else collectJava
  return answer sources request regex kotlin java

end Scanning

/-! ## What a search should find -/

section Expected

variable {P : Type} (sources : Sources P) (request : GrepRequest) (regex : Regex)

/-- The text of a file that is searched. -/
def searchedText (file : P) : Option String :=
  if admits request (sources.display file) then sources.read file else none

/-- The lines of a file that match, as `rg -c` counts them. -/
def lineCount (file : P) : ℕ :=
  (searchedText sources request file).elim 0 fun source =>
    (textLines source).countP fun line => (regex.find line).isSome

/-- The number of hits that an answer tells of under a path. -/
def toldOf (answer : TextSearch) (path : String) : ℕ :=
  ((answer.files.filter fun file => file.path = path).map fun file =>
    file.lines.length + file.omitted).sum

/-- A line that is shown stands in a file that is searched, and the pattern matches it. -/
def Matches (file : P) (shown : TextSearchLine) : Prop :=
  ∃ source row, searchedText sources request file = some source ∧
    (textLines source)[row]? = some shown.sourceLine ∧
    (regex.find shown.sourceLine).isSome ∧ shown.line = coordinate row

/-- Every line that matches is counted, in all and under the path of its file, and shown in
order as far as the limit goes. -/
structure Accounts (files : List P) (answer : TextSearch) : Prop where
  total : answer.totalHits = (files.map (lineCount sources request regex)).sum
  told : ∀ path, toldOf answer path =
    ((files.filter fun file => sources.display file = path).map
      (lineCount sources request regex)).sum
  limited : ∀ file ∈ answer.files, ∀ limit, request.limit = some limit →
    file.lines.length ≤ limit ∧ (0 < file.omitted → file.lines.length = limit)
  whole : request.limit = none → ∀ file ∈ answer.files, file.omitted = 0
  ascending : ∀ file ∈ answer.files, file.lines.Pairwise fun above below =>
    above.2.line ≤ below.2.line
  matched : ∀ answered ∈ answer.files, ∀ shown ∈ answered.lines,
    ∃ file ∈ files, sources.display file = answered.path ∧
      Matches sources request regex file shown.2

end Expected

/-! ## Every matching line is a hit -/

section Hits

variable {P : Type} (sources : Sources P) (request : GrepRequest) (regex : Regex)

theorem length_matchingLines (source : String) :
    (matchingLines regex source).length =
      (textLines source).countP fun line => (regex.find line).isSome := by
  rw [matchingLines, List.length_filterMap_eq_countP]
  conv_rhs => rw [← List.zipIdx_map_fst 0 (textLines source), List.countP_map]
  apply List.countP_congr
  intro row _
  rw [matchedLine, Option.isSome_map]
  rfl

/-- The hits of a file, as one of the two loops makes them of what it searched. -/
def hitsOf (hits : Searched → List TextSearchHit) (file : P) : List TextSearchHit :=
  (fileMatches sources request regex file).elim [] hits

theorem hits_scan (kotlin java : List P) :
    (scan sources request regex kotlin java).hits =
      kotlin.flatMap (hitsOf sources request regex (kotlinHits sources)) ++
        java.flatMap (hitsOf sources request regex (javaHits sources)) := by
  have hkotlin (scanned : Scan) : (kotlin.foldl (scanKotlin sources request regex) scanned).hits =
      scanned.hits ++ kotlin.flatMap (hitsOf sources request regex (kotlinHits sources)) := by
    induction kotlin generalizing scanned with
    | nil => exact (List.append_nil _).symm
    | cons file rest ih =>
        rw [List.foldl_cons, ih, List.flatMap_cons, ← List.append_assoc, scanKotlin, hitsOf]
        cases fileMatches sources request regex file with
        | none => rw [Option.elim_none, List.append_nil]
        | some searched => rfl
  have hjava (scanned : Scan) : (java.foldl (scanJava sources request regex) scanned).hits =
      scanned.hits ++ java.flatMap (hitsOf sources request regex (javaHits sources)) := by
    induction java generalizing scanned with
    | nil => exact (List.append_nil _).symm
    | cons file rest ih =>
        rw [List.foldl_cons, ih, List.flatMap_cons, ← List.append_assoc, scanJava, hitsOf]
        cases fileMatches sources request regex file with
        | none => rw [Option.elim_none, List.append_nil]
        | some searched => rfl
  rw [scan, hjava, hkotlin, List.nil_append]

theorem skeletons_scan (kotlin java : List P) :
    (scan sources request regex kotlin java).skeletons =
      kotlin.filterMap fun file =>
        (fileMatches sources request regex file).bind (skeletonOf sources) := by
  have hkotlin (scanned : Scan) :
      (kotlin.foldl (scanKotlin sources request regex) scanned).skeletons =
        scanned.skeletons ++ kotlin.filterMap fun file =>
          (fileMatches sources request regex file).bind (skeletonOf sources) := by
    induction kotlin generalizing scanned with
    | nil => exact (List.append_nil _).symm
    | cons file rest ih =>
        rw [List.foldl_cons, ih, List.filterMap_cons, scanKotlin]
        cases fileMatches sources request regex file with
        | none => rfl
        | some searched =>
            rw [Option.bind_some, List.append_assoc]
            cases skeletonOf sources searched <;> rfl
  have hjava (scanned : Scan) :
      (java.foldl (scanJava sources request regex) scanned).skeletons = scanned.skeletons := by
    induction java generalizing scanned with
    | nil => rfl
    | cons file rest ih =>
        rw [List.foldl_cons, ih, scanJava]
        cases fileMatches sources request regex file <;> rfl
  rw [scan, hjava, hkotlin, List.nil_append]

theorem fileMatches_eq (file : P) :
    fileMatches sources request regex file =
      (searchedText sources request file).bind fun source =>
        if (matchingLines regex source).isEmpty then none
        else some ⟨sources.display file, source, matchingLines regex source⟩ := by
  rw [fileMatches, searchedText]
  split <;> rfl

/-- A loop that answers for every matching line of a file, in order. -/
def CoversLines (hits : Searched → List TextSearchHit) : Prop :=
  ∀ searched, (hits searched).map (fun hit => (hit.path, hit.line, hit.sourceLine)) =
    searched.found.map fun matched => (searched.display, matched.line, matched.sourceLine)

theorem length_classifyJavaSites (source : String) (sites : List (ℕ × ℕ)) :
    (classifyJavaSites source sites).length = sites.length := by
  rw [classifyJavaSites, length_foldl_recordKind, List.length_replicate]

/-- A join with a list of the same length loses nothing. -/
theorem map_zip_left {A B C : Type*} (told : A → C) {left : List A} {right : List B}
    (hlength : right.length = left.length) :
    (left.zip right).map (fun pair => told pair.1) = left.map told := by
  calc (left.zip right).map (fun pair => told pair.1)
      = ((left.zip right).map Prod.fst).map told := List.map_map.symm
    _ = left.map told := by rw [List.map_fst_zip hlength.ge]

/-- As many kinds come back as there are sites. -/
theorem coversLines_kotlinHits : CoversLines (kotlinHits sources) := by
  intro searched
  rw [kotlinHits, List.map_map]
  apply map_zip_left fun matched : MatchedLine =>
    (searched.display, matched.line, matched.sourceLine)
  rw [length_classifyReferenceSites, List.length_map]

theorem coversLines_javaHits : CoversLines (javaHits sources) := by
  intro searched
  have hkinds : (classifyJavaSites searched.source
      (searched.found.map fun matched => (matched.line, matched.column))).length =
        searched.found.length := by
    rw [length_classifyJavaSites, List.length_map]
  rw [javaHits, List.map_map]
  calc (_ : List (String × ℕ × String))
      = (searched.found.zip (classifyJavaSites searched.source
          (searched.found.map fun matched => (matched.line, matched.column)))).map
            fun pair => (searched.display, pair.1.line, pair.1.sourceLine) := by
        apply map_zip_left fun pair : MatchedLine × SiteKind =>
          (searched.display, pair.1.line, pair.1.sourceLine)
        rw [javaEnclosingDeclarations, List.length_map, List.length_map, List.length_zip,
          hkinds, Nat.min_self]
    _ = searched.found.map
          fun matched => (searched.display, matched.line, matched.sourceLine) :=
        map_zip_left (fun matched => (searched.display, matched.line, matched.sourceLine)) hkinds

variable {sources request regex} {hits : Searched → List TextSearchHit}

/-- The hits of a file tell of the lines of it that match. -/
theorem hitsOf_covers (hcovers : CoversLines hits) (file : P) :
    (hitsOf sources request regex hits file).map
        (fun hit => (hit.path, hit.line, hit.sourceLine)) =
      (searchedText sources request file).elim [] fun source =>
        (matchingLines regex source).map fun matched =>
          (sources.display file, matched.line, matched.sourceLine) := by
  rw [hitsOf, fileMatches_eq]
  cases searchedText sources request file with
  | none => rfl
  | some source =>
      rw [Option.bind_some, Option.elim_some]
      split_ifs with hnone
      · rw [List.isEmpty_iff.mp hnone]
        rfl
      · exact hcovers _

theorem length_hitsOf (hcovers : CoversLines hits) (file : P) :
    (hitsOf sources request regex hits file).length = lineCount sources request regex file := by
  have hcovered : (hitsOf sources request regex hits file).map _ = _ := hitsOf_covers hcovers file
  have hlength := congrArg List.length hcovered
  rw [List.length_map] at hlength
  rw [hlength, lineCount]
  cases searchedText sources request file with
  | none => rfl
  | some source => rw [Option.elim_some, Option.elim_some, List.length_map, length_matchingLines]

theorem path_of_mem_hitsOf (hcovers : CoversLines hits) {file : P} {hit : TextSearchHit}
    (hmem : hit ∈ hitsOf sources request regex hits file) :
    hit.path = sources.display file ∧ Matches sources request regex file hit.listed := by
  have hcovered := List.mem_map_of_mem (f := fun hit : TextSearchHit =>
    (hit.path, hit.line, hit.sourceLine)) hmem
  rw [hitsOf_covers hcovers] at hcovered
  cases htext : searchedText sources request file with
  | none =>
      rw [htext] at hcovered
      cases hcovered
  | some source =>
      rw [htext, Option.elim_some] at hcovered
      obtain ⟨matched, hmatched, heq⟩ := List.mem_map.mp hcovered
      obtain ⟨⟨line, row⟩, hrow, hfound⟩ := List.mem_filterMap.mp hmatched
      obtain ⟨cut, hcut, rfl⟩ := Option.map_eq_some_iff.mp hfound
      have hpath : sources.display file = hit.path := congrArg Prod.fst heq
      have hline : coordinate row = hit.line := congrArg (fun told => told.2.1) heq
      have hsource : line = hit.sourceLine := congrArg (fun told => told.2.2) heq
      rw [List.mem_zipIdx_iff_getElem?] at hrow
      subst hsource
      exact ⟨hpath.symm, source, row, htext, hrow, Option.isSome_iff_exists.mpr ⟨cut, hcut⟩,
        hline.symm⟩

theorem total_hitsOf (hcovers : CoversLines hits) (files : List P) :
    (files.flatMap (hitsOf sources request regex hits)).length =
      (files.map (lineCount sources request regex)).sum := by
  rw [List.length_flatMap]
  apply congrArg List.sum
  apply List.map_congr_left
  intro file _
  exact length_hitsOf hcovers file

/-- The hits of a path are those of the files that have it. -/
theorem filter_hitsOf (hcovers : CoversLines hits) (files : List P) (path : String) :
    (files.flatMap (hitsOf sources request regex hits)).filter (·.path = path) =
      (files.filter fun file => sources.display file = path).flatMap
        (hitsOf sources request regex hits) := by
  induction files with
  | nil => rfl
  | cons file rest ih =>
      have hown (hit : TextSearchHit) (hmem : hit ∈ hitsOf sources request regex hits file) :
          hit.path = sources.display file := (path_of_mem_hitsOf hcovers hmem).1
      rw [List.flatMap_cons, List.filter_append, ih]
      by_cases hpath : sources.display file = path
      · rw [List.filter_cons_of_pos (by simpa using hpath), List.flatMap_cons,
          List.filter_eq_self.mpr fun hit hmem => by simpa [hown hit hmem] using hpath]
      · rw [List.filter_cons_of_neg (by simpa using hpath),
          List.filter_eq_nil_iff.mpr fun hit hmem => by simpa [hown hit hmem] using hpath,
          List.nil_append]

end Hits

/-! ## The answer accounts for them -/

section Listed

variable {pattern : String} {hits : List TextSearchHit} {skeletons : List FileSkeleton}
  {limit : Option ℕ}

/-- A file of the answer and the entry of the listing that it shows. -/
theorem listed_of_mem_files {answered : TextSearchFile}
    (hmem : answered ∈ (buildTextSearch pattern hits skeletons limit).files) :
    ∃ shown, (answered.path, shown, answered.omitted) ∈
        listing TextSearchHit.path TextSearchHit.line limit hits ∧
      answered.lines = shown.map fun hit =>
        (hit.fqn ((skeletonByPath skeletons).get? answered.path), hit.listed) := by
  obtain ⟨⟨path, shown, omitted⟩, hentry, rfl⟩ := List.mem_map.mp hmem
  exact ⟨shown, hentry, lines_groupByDeclaration shown _⟩

theorem toldOf_buildTextSearch (path : String) :
    toldOf (buildTextSearch pattern hits skeletons limit) path =
      (hits.filter (·.path = path)).length := by
  have hfiltered := listing_filter TextSearchHit.path TextSearchHit.line limit hits
    fun other => decide (other = path)
  have hsum : ((listing TextSearchHit.path TextSearchHit.line limit
      (hits.filter (·.path = path))).map fun entry => entry.2.1.length + entry.2.2).sum =
        (hits.filter (·.path = path)).length := sum_listing _ _ _ _ fun _ => rfl
  rw [← hsum, hfiltered, toldOf, buildTextSearch, List.filter_map, List.map_map]
  apply congrArg List.sum
  apply List.map_congr_left
  intro entry _
  simp only [Function.comp_apply, TextSearchFile.lines, lines_groupByDeclaration,
    List.length_map]

end Listed

section Answers

variable {P : Type} (sources : Sources P) (request : GrepRequest) (regex : Regex)

/-- A file of the answer shows the hits of its path in order, as far as the limit goes. -/
theorem shown_of_mem_files {answered : TextSearchFile} {kotlin java : List P}
    (hmem : answered ∈ (answer sources request regex kotlin java).files) :
    ∃ sorted shown, StableSort TextSearchHit.line
        ((scan sources request regex kotlin java).hits.filter (·.path = answered.path)) sorted ∧
      (shown, answered.omitted) = withinLimit request.limit sorted ∧
      answered.lines = shown.map fun hit =>
        (hit.fqn ((skeletonByPath (scan sources request regex kotlin java).skeletons).get?
          answered.path), hit.listed) := by
  obtain ⟨shown, hentry, hlines⟩ := listed_of_mem_files hmem
  exact ⟨_, shown, stableSort_sortByKey _ _, entry_of_mem_listing _ _ _ _ hentry, hlines⟩

/-- A search counts the lines that match, file by file, and shows them in order. -/
theorem grep_accounts (kotlin java : List P) :
    Accounts sources request regex (kotlin ++ java)
      (answer sources request regex kotlin java) := by
  have hkotlin := coversLines_kotlinHits sources
  have hjava := coversLines_javaHits sources
  have hhits := hits_scan sources request regex kotlin java
  constructor
  case total =>
    rw [List.map_append, List.sum_append, ← total_hitsOf hkotlin, ← total_hitsOf hjava,
      ← List.length_append, ← hhits]
    rfl
  case told =>
    intro path
    rw [answer, toldOf_buildTextSearch, hhits, List.filter_append, List.length_append,
      filter_hitsOf hkotlin, filter_hitsOf hjava, total_hitsOf hkotlin, total_hitsOf hjava,
      List.filter_append, List.map_append, List.sum_append]
  case limited =>
    intro answered hmem limit hlimit
    obtain ⟨sorted, shown, -, hcut, hlines⟩ := shown_of_mem_files sources request regex hmem
    rw [hlimit] at hcut
    rw [hlines, List.length_map]
    exact limits_of_withinLimit hcut
  case whole =>
    intro hlimit answered hmem
    obtain ⟨sorted, shown, -, hcut, -⟩ := shown_of_mem_files sources request regex hmem
    rw [hlimit] at hcut
    exact congrArg Prod.snd hcut
  case ascending =>
    intro answered hmem
    obtain ⟨sorted, shown, hsorted, hcut, hlines⟩ :=
      shown_of_mem_files sources request regex hmem
    rw [hlines, List.pairwise_map]
    exact hsorted.ordered.sublist (isPrefix_of_withinLimit hcut).sublist
  case matched =>
    intro answered hmem line hline
    obtain ⟨sorted, shown, hsorted, hcut, hlines⟩ :=
      shown_of_mem_files sources request regex hmem
    rw [hlines] at hline
    obtain ⟨hit, hhit, rfl⟩ := List.mem_map.mp hline
    have hfiltered := hsorted.perm.mem_iff.mp ((isPrefix_of_withinLimit hcut).subset hhit)
    rw [hhits] at hfiltered
    obtain ⟨hscanned, hpath⟩ := List.mem_filter.mp hfiltered
    have hpath := of_decide_eq_true hpath
    rcases List.mem_append.mp hscanned with hfound | hfound
    · obtain ⟨file, hfile, hown⟩ := List.mem_flatMap.mp hfound
      obtain ⟨hdisplay, hmatches⟩ := path_of_mem_hitsOf hkotlin hown
      exact ⟨file, List.mem_append_left _ hfile, hdisplay.symm.trans hpath, hmatches⟩
    · obtain ⟨file, hfile, hown⟩ := List.mem_flatMap.mp hfound
      obtain ⟨hdisplay, hmatches⟩ := path_of_mem_hitsOf hjava hown
      exact ⟨file, List.mem_append_right _ hfile, hdisplay.symm.trans hpath, hmatches⟩

end Answers

/-! ## Where a Kotlin hit is placed -/

section Placed

variable {P : Type} (sources : Sources P) (request : GrepRequest) (regex : Regex)

/-- Lines and columns are words of 32 bits. -/
def Fits (source : String) : Prop :=
  (textLines source).length < 2 ^ 32 ∧
    ∀ line ∈ textLines source, utf16Length line.toList + 1 < 2 ^ 32

/-- A line of a Kotlin file that matches: under the declaration that encloses it in the file's
own skeleton, as what lies at the byte where its first match begins. -/
def placedAt (display source : String) (row : String × ℕ) (cut : List Char × List Char) :
    Option String × TextSearchLine :=
  (((extract sources.alphanumeric sources.parse display source).toOption.bind
      (fullyQualifiedEnclosing · (row.2 + 1))).map (·.fqn),
    ⟨row.2 + 1,
      (sources.parse source).elim .code
        (kindAtPoint sources.descendant · (row.2, utf8Length cut.1)), row.1⟩)

def placedLines (display source : String) : List (Option String × TextSearchLine) :=
  (textLines source).zipIdx.filterMap fun row =>
    (regex.find row.1).map (placedAt sources display source row)

variable {sources request regex}

theorem kotlinHits_placed {display source : String} (hfits : Fits source) :
    kotlinHits sources ⟨display, source, matchingLines regex source⟩ =
      (textLines source).zipIdx.filterMap fun row => (regex.find row.1).map fun cut =>
        ⟨display, row.2 + 1, row.1, (placedAt sources display source row cut).2.kind, none,
          false⟩ := by
  rw [kotlinHits]
  simp only [classifyReferenceSites_eq_map, List.map_map, List.zip_eq_zipWith,
    List.zipWith_map_right, List.zipWith_self]
  rw [matchingLines, List.map_filterMap]
  apply List.filterMap_congr
  rintro ⟨line, row⟩ hrow
  rw [List.mem_zipIdx_iff_getElem?] at hrow
  rw [matchedLine, Option.map_map]
  cases hfound : regex.find line with
  | none => rfl
  | some cut =>
      obtain ⟨before, rest⟩ := cut
      have hcut := regex.cuts hfound
      have hlines : row < (textLines source).length := (List.getElem?_eq_some_iff.mp hrow).1
      have hunits : utf16Length before + 1 < 2 ^ 32 := by
        have hline := hfits.2 line (List.mem_of_getElem? hrow)
        rw [hcut, utf16Length_append] at hline
        omega
      have hrows : coordinate row = row + 1 :=
        (coordinate_eq_succ_iff row).mpr (Nat.lt_of_le_of_lt hlines hfits.1)
      have hcolumns : coordinate (utf16Length before) = utf16Length before + 1 :=
        (coordinate_eq_succ_iff _).mpr hunits
      simp only [Option.map_some, Function.comp_apply, hrows, hcolumns, placedAt,
        classifySite_of_cut sources.descendant hrow hcut]

theorem path_of_skeletonOf {searched : Searched} {skeleton : FileSkeleton}
    (hskeleton : skeletonOf sources searched = some skeleton) :
    skeleton.path = searched.display := by
  rw [skeletonOf] at hskeleton
  cases hfile : extract sources.alphanumeric sources.parse searched.display searched.source with
  | error message =>
      rw [hfile] at hskeleton
      cases hskeleton
  | ok file =>
      rw [hfile] at hskeleton
      cases hskeleton
      exact path_extract hfile

theorem display_of_fileMatches {file : P} {searched : Searched}
    (hsearched : fileMatches sources request regex file = some searched) :
    searched.display = sources.display file := by
  rw [fileMatches_eq] at hsearched
  obtain ⟨source, -, hfound⟩ := Option.bind_eq_some_iff.mp hsearched
  split_ifs at hfound
  cases hfound
  rfl

/-- The skeleton of a file that has a match. -/
def skeletonOfFile (sources : Sources P) (request : GrepRequest) (regex : Regex) (file : P) :
    Option FileSkeleton :=
  (fileMatches sources request regex file).bind (skeletonOf sources)

theorem path_of_skeletonOfFile {file : P} {skeleton : FileSkeleton}
    (hskeleton : skeletonOfFile sources request regex file = some skeleton) :
    skeleton.path = sources.display file := by
  obtain ⟨searched, hsearched, hread⟩ := Option.bind_eq_some_iff.mp hskeleton
  rw [path_of_skeletonOf hread, display_of_fileMatches hsearched]

section Alone

variable {before behind java : List P} {file : P}

/-- No other file that is searched is displayed like this one. -/
def Alone (sources : Sources P) (request : GrepRequest) (others : List P) (file : P) : Prop :=
  ∀ other ∈ others, sources.display other = sources.display file →
    searchedText sources request other = none

theorem fileMatches_of_alone {others : List P} (halone : Alone sources request others file)
    {other : P} (hother : other ∈ others)
    (hsame : sources.display other = sources.display file) :
    fileMatches sources request regex other = none := by
  rw [fileMatches_eq, halone other hother hsame]
  rfl

theorem hits_of_alone (hits : Searched → List TextSearchHit) {others : List P}
    (halone : Alone sources request others file) :
    (others.filter fun other => sources.display other = sources.display file).flatMap
      (hitsOf sources request regex hits) = [] := by
  rw [List.flatMap_eq_nil_iff]
  intro other hother
  obtain ⟨hmem, hsame⟩ := List.mem_filter.mp hother
  rw [hitsOf, fileMatches_of_alone halone hmem (of_decide_eq_true hsame)]
  rfl

theorem skeletons_of_alone {others : List P} (halone : Alone sources request others file) :
    (others.filterMap (skeletonOfFile sources request regex)).filter
      (·.path = sources.display file) = [] := by
  rw [List.filter_eq_nil_iff]
  intro skeleton hskeleton hpath
  obtain ⟨other, hother, hread⟩ := List.mem_filterMap.mp hskeleton
  have hsame := (path_of_skeletonOfFile hread).symm.trans (of_decide_eq_true hpath)
  rw [skeletonOfFile, fileMatches_of_alone halone hother hsame] at hread
  cases hread

theorem Alone.subset {others fewer : List P} (halone : Alone sources request others file)
    (hfewer : fewer ⊆ others) : Alone sources request fewer file :=
  fun other hother => halone other (hfewer hother)

variable (halone : Alone sources request (before ++ behind ++ java) file)

include halone

theorem hits_of_display :
    (scan sources request regex (before ++ file :: behind) java).hits.filter
        (·.path = sources.display file) =
      hitsOf sources request regex (kotlinHits sources) file := by
  have hbefore : Alone sources request before file := halone.subset (by simp)
  have hbehind : Alone sources request behind file := halone.subset (by simp)
  have hjava : Alone sources request java file := halone.subset (by simp)
  rw [hits_scan, List.filter_append, filter_hitsOf (coversLines_kotlinHits sources),
    filter_hitsOf (coversLines_javaHits sources), hits_of_alone _ hjava, List.append_nil,
    List.filter_append, List.flatMap_append, hits_of_alone _ hbefore, List.nil_append,
    List.filter_cons_of_pos (by simp), List.flatMap_cons, hits_of_alone _ hbehind,
    List.append_nil]

/-- A file is looked up in its own skeleton. -/
theorem skeleton_of_display :
    (skeletonByPath (scan sources request regex (before ++ file :: behind) java).skeletons).get?
        (sources.display file) =
      skeletonOfFile sources request regex file := by
  have hbefore : Alone sources request before file := halone.subset (by simp)
  have hbehind : Alone sources request behind file := halone.subset (by simp)
  have hown : (scan sources request regex (before ++ file :: behind) java).skeletons.filter
      (·.path = sources.display file) =
        (skeletonOfFile sources request regex file).toList := by
    rw [skeletons_scan]
    change ((before ++ file :: behind).filterMap (skeletonOfFile sources request regex)).filter
      _ = _
    rw [List.filterMap_append, List.filter_append, skeletons_of_alone hbefore, List.nil_append,
      List.filterMap_cons]
    cases hread : skeletonOfFile sources request regex file with
    | none => exact skeletons_of_alone hbehind
    | some skeleton =>
        have hpath := path_of_skeletonOfFile hread
        rw [List.filter_cons_of_pos (by simpa using hpath), skeletons_of_alone hbehind]
        rfl
  rw [skeletonByPath, OrderedMap.get?_ofList_eq_getLast?, List.filter_map, Function.comp_def,
    hown]
  cases skeletonOfFile sources request regex file with
  | none => rfl
  | some skeleton => rfl

end Alone

theorem pairwise_zipIdx {A : Type*} (items : List A) :
    items.zipIdx.Pairwise fun above below => above.2 < below.2 := by
  rw [← List.pairwise_map (f := Prod.snd) (R := (· < ·)), List.zipIdx_map_snd]
  exact List.pairwise_lt_range'

/-- What an answer shows under one path. -/
theorem lines_of_path {pattern path : String} {hits : List TextSearchHit}
    {skeletons : List FileSkeleton} {limit : Option ℕ} :
    ((buildTextSearch pattern hits skeletons limit).files.filter
        fun answered => answered.path = path).flatMap TextSearchFile.lines =
      (withinLimit limit (sortByKey TextSearchHit.line (hits.filter (·.path = path)))).1.map
        fun hit => (hit.fqn ((skeletonByPath skeletons).get? path), hit.listed) := by
  have hnamed : ∀ item ∈ hits.filter (·.path = path), item.path = path :=
    fun item hitem => of_decide_eq_true (List.mem_filter.mp hitem).2
  have hentries := listing_filter TextSearchHit.path TextSearchHit.line limit hits
    fun other => decide (other = path)
  rw [← flatMap_listing_of_constant TextSearchHit.path TextSearchHit.line limit hnamed,
    hentries, buildTextSearch, List.filter_map, List.flatMap_map, List.map_flatMap]
  apply List.flatMap_congr
  rintro ⟨other, shown, omitted⟩ hentry
  have hother : other = path := of_decide_eq_true (List.mem_filter.mp hentry).2
  subst hother
  exact lines_groupByDeclaration shown _

/-- What an answer shows under the path of a Kotlin file that no other searched file is
displayed like: the lines that match, in order, each under the declaration around it in the
file's own skeleton, as what lies at the very byte where its first match begins. -/
theorem kotlin_hits_placed {before behind java : List P} {file : P} {source : String}
    (halone : Alone sources request (before ++ behind ++ java) file)
    (htext : searchedText sources request file = some source) (hfits : Fits source) :
    ((answer sources request regex (before ++ file :: behind) java).files.filter fun answered =>
        answered.path = sources.display file).flatMap TextSearchFile.lines =
      request.limit.elim (placedLines sources regex (sources.display file) source)
        ((placedLines sources regex (sources.display file) source).take ·) := by
  have hown : hitsOf sources request regex (kotlinHits sources) file =
      (textLines source).zipIdx.filterMap fun row => (regex.find row.1).map fun cut =>
        ⟨sources.display file, row.2 + 1, row.1,
          (placedAt sources (sources.display file) source row cut).2.kind, none, false⟩ := by
    rw [← kotlinHits_placed hfits, hitsOf, fileMatches_eq, htext, Option.bind_some]
    split_ifs with hnone
    · rw [List.isEmpty_iff.mp hnone]
      rfl
    · rfl
  have hascending : sortByKey TextSearchHit.line
      (hitsOf sources request regex (kotlinHits sources) file) =
        hitsOf sources request regex (kotlinHits sources) file := by
    rw [hown]
    apply List.Pairwise.insertionSort_eq
    apply List.Pairwise.filterMap _ _ (pairwise_zipIdx (textLines source))
    rintro ⟨line, row⟩ ⟨other, below⟩ hlt first hfirst second hsecond
    obtain ⟨cut, -, rfl⟩ := Option.map_eq_some_iff.mp hfirst
    obtain ⟨cut, -, rfl⟩ := Option.map_eq_some_iff.mp hsecond
    exact Nat.succ_le_succ (Nat.le_of_lt hlt)
  have hplaced : (hitsOf sources request regex (kotlinHits sources) file).map (fun hit =>
      (hit.fqn (skeletonOfFile sources request regex file), hit.listed)) =
      placedLines sources regex (sources.display file) source := by
    rw [hown, List.map_filterMap, placedLines]
    apply List.filterMap_congr
    rintro ⟨line, row⟩ hrow
    rw [Option.map_map]
    cases hfound : regex.find line with
    | none => rfl
    | some cut =>
        have hmatching : matchingLines regex source ≠ [] := by
          apply List.ne_nil_of_mem
          exact List.mem_filterMap.mpr ⟨(line, row), hrow, congrArg (Option.map _) hfound⟩
        have hsearched : fileMatches sources request regex file =
            some ⟨sources.display file, source, matchingLines regex source⟩ := by
          rw [fileMatches_eq, htext, Option.bind_some, if_neg]
          exact fun hnone => hmatching (List.isEmpty_iff.mp hnone)
        rw [skeletonOfFile, hsearched]
        rfl
  rw [answer, lines_of_path, hits_of_display halone, skeleton_of_display halone, hascending,
    shown_withinLimit, ← hplaced]
  cases request.limit with
  | none => rfl
  | some limit => exact List.map_take

end Placed

/-! A search for the text of a call in one class. -/

/-- The pattern that is a text. -/
def literal (text : String) : Regex where
  find line := (findSubslice text.toList line.toList).map fun start =>
    (line.toList.take start, line.toList.drop start)
  cuts hfound := by
    obtain ⟨start, -, hcut⟩ := Option.map_eq_some_iff.mp hfound
    obtain ⟨rfl, rfl⟩ := Prod.mk.inj hcut
    exact (List.take_append_drop start _).symm

def classSources : Sources String where
  read path := if path = "/w/A.kt" then some classTree.root.text else none
  display path := String.ofList (path.toList.drop 3)
  parse := parseClass
  descendant _ point := if point = (1, 8) then some [0, 2, 1, 1] else some []
  alphanumeric := Alphanumeric.onAscii
  letters := Letters.ascii

def classRequest : GrepRequest :=
  ⟨"f()", some "A", .all, none, false, ⟨false, false, true⟩⟩

theorem kotlin_hits_placed_class :
    ((answer classSources classRequest (literal "f()") ["/w/A.kt", "/w/C.kt"]
        ["/w/B.java"]).files.filter fun answered => answered.path = "A.kt").flatMap
          TextSearchFile.lines =
      [(some "A.f", ⟨2, .declarationName, "    fun f() \x7b\x7d"⟩)] := by
  have htext : searchedText classSources classRequest "/w/A.kt" = some classTree.root.text := by
    decide +kernel
  have halone : Alone classSources classRequest ([] ++ ["/w/C.kt"] ++ ["/w/B.java"])
      "/w/A.kt" := by
    intro other hother hsame
    simp only [List.nil_append, List.cons_append, List.mem_cons, List.not_mem_nil,
      or_false] at hother
    rcases hother with rfl | rfl
    · exact absurd hsame (by decide +kernel)
    · exact absurd hsame (by decide +kernel)
  have hfits : Fits classTree.root.text := ⟨by decide +kernel, by decide +kernel⟩
  exact (kotlin_hits_placed halone htext hfits).trans (by decide +kernel)

end Ktsense.Cli.Grep
