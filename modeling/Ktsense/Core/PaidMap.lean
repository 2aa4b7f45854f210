import Ktsense.Core.MapBudget
import Ktsense.Core.PaidContent
import Ktsense.Core.RenderMap

/-!
# Whether the bound of a map pays for it

The units of a map are headings and signatures.  A heading is printed only
above a signature, one level deeper in the focus section than it was measured,
and with its path made safe.  What the budget affords is stated here from the
input alone, pass by pass; the map emits exactly that.
-/

namespace Ktsense.Core

open Ktsense.Foundation

/-- The heading of a file, with its line break. -/
def headingLine (marker path : String) : String :=
  marker ++ neutralize path ++ "\n"

/-- What is printed of a unit before the given ones. -/
def MapUnit.printedBefore (marker : String) (unit : MapUnit)
    (rest : List MapUnit) : String :=
  if !unit.isHeader then unit.text ++ "\n"
  else if rest.head?.any (!·.isHeader) then
    headingLine marker (String.ofList (trimHeading unit.text.toList))
  else ""

def mapLines (marker : String) : List MapUnit → List PaidLine
  | [] => []
  | unit :: rest =>
      ⟨unit.text, unit.printedBefore marker rest⟩ :: mapLines marker rest

namespace RepoMapInput

variable {F : Type*} (input : RepoMapInput) (arithmetic : Arithmetic F)

/-- The units of the focus section the budget affords. -/
def affordableFocus : List MapUnit :=
  input.focus.elim [] fun spec =>
    affordable MapUnit.text
      (unitsOfCandidates (input.focusCandidates arithmetic spec)) input.budget
      byteRatioEstimate

/-- What the focus section leaves of the budget. -/
def leftForMap : ℕ :=
  input.budget - unitCost byteRatioEstimate (input.affordableFocus arithmetic)

/-- The units of the ranked map that so many tokens afford. -/
def affordableWithin (tokens : ℕ) : List MapUnit :=
  affordable MapUnit.text (unitsOfCandidates (input.candidates arithmetic))
    tokens byteRatioEstimate

/-- What is held back for the summary line. -/
def heldBack : ℕ :=
  summaryReserve
    (omittedFrom (input.candidatePaths arithmetic)
      (input.affordableWithin arithmetic (input.leftForMap arithmetic)))
    (input.leftForMap arithmetic) byteRatioEstimate

def affordableMap : List MapUnit :=
  input.affordableWithin arithmetic
    (input.leftForMap arithmetic - input.heldBack arithmetic)

/-- The summary line that fits what the map leaves. -/
def affordableSummary : Option String :=
  let directories := groupOmitted
    (omittedFrom (input.candidatePaths arithmetic)
      (input.affordableMap arithmetic))
  omittedDirectoriesLine directories
    (fitDirectories directories
      (input.leftForMap arithmetic -
        unitCost byteRatioEstimate (input.affordableMap arithmetic))
      byteRatioEstimate)

def rankedLines : List PaidLine :=
  mapLines fileMarker (input.affordableMap arithmetic) ++
    (input.affordableSummary arithmetic).toList.map
      fun line => ⟨line, line ++ "\n"⟩

def paidLines : List PaidLine :=
  mapLines focusMarker (input.affordableFocus arithmetic) ++
    if input.focusOnly then [] else input.rankedLines arithmetic

end RepoMapInput

/-! ## Lines of regrouped units -/

theorem measuredCost_mapLines (marker : String) (units : List MapUnit) :
    measuredCost (mapLines marker units) = unitCost byteRatioEstimate units := by
  induction units with
  | nil => rfl
  | cons unit rest ih =>
      rw [mapLines, measuredCost_cons, ih]
      rfl

/-- The bytes of the files that have a declaration. -/
def shownBytes (marker : String) (files : List MappedFile) : ℕ :=
  byteLength (mappedContent marker
    (files.filter fun file => !file.declarations.isEmpty))

/-- The bytes of the lines under a heading. -/
def declarationBytes (file : MappedFile) : ℕ :=
  (file.declarations.map fun line => byteLength line + 1).sum

/-- The bytes of the heading of the last file, once it has a declaration or the
next unit is one. -/
def headingBytes (marker : String) (file : MappedFile) (next : List MapUnit) :
    ℕ :=
  if !file.declarations.isEmpty || next.head?.any (!·.isHeader) then
    byteLength (headingLine marker file.path)
  else 0

theorem shownBytes_concat (marker : String) (files : List MappedFile)
    (file : MappedFile) :
    shownBytes marker (files ++ [file]) =
      shownBytes marker files + headingBytes marker file [] +
        declarationBytes file := by
  rw [shownBytes, shownBytes, mappedContent, mappedContent, List.filter_append,
    List.map_append, byteLength_join, byteLength_join, List.map_append,
    List.sum_append]
  cases hdeclarations : file.declarations with
  | nil => simp [headingBytes, declarationBytes, hdeclarations]
  | cons line rest =>
      simp only [headingBytes, declarationBytes, hdeclarations, headingLine]
      simp [hdeclarations, byteLength_fencedContent]
      omega

theorem pushDeclaration_concat (text : String) (files : List MappedFile)
    (file : MappedFile) :
    pushDeclaration text (files ++ [file]) =
      files ++ [{ file with declarations := file.declarations ++ [text] }] := by
  induction files with
  | nil => rfl
  | cons first rest ih =>
      cases rest with
      | nil => rfl
      | cons second rest =>
          simp only [List.cons_append, pushDeclaration] at ih ⊢
          rw [ih]

section OneUnit

variable (marker : String) (file : MappedFile) (rest : List MapUnit)

/-- A heading is printed for the file it opens. -/
theorem byteLength_printedBefore_of_header {unit : MapUnit}
    (hheader : unit.isHeader = true) :
    byteLength (unit.printedBefore marker rest) =
      headingBytes marker ⟨String.ofList (trimHeading unit.text.toList), []⟩
        rest := by
  rw [MapUnit.printedBefore, headingBytes, if_neg (by simp [hheader])]
  simp only [List.isEmpty_nil, Bool.not_true, Bool.false_or]
  split_ifs
  · rfl
  · rfl

theorem byteLength_printedBefore_of_declaration {unit : MapUnit}
    (hheader : unit.isHeader = false) :
    byteLength (unit.printedBefore marker rest) = byteLength unit.text + 1 := by
  rw [MapUnit.printedBefore, if_pos (by simp [hheader]), byteLength_append]
  rfl

theorem headingBytes_of_header {unit : MapUnit} (hheader : unit.isHeader = true) :
    headingBytes marker file (unit :: rest) = headingBytes marker file [] := by
  simp [headingBytes, hheader]

/-- A declaration makes the heading above it count. -/
theorem headingBytes_of_declaration {unit : MapUnit}
    (hheader : unit.isHeader = false) :
    headingBytes marker file (unit :: rest) =
      headingBytes marker
        { file with declarations := file.declarations ++ [unit.text] } rest := by
  simp [headingBytes, hheader]

theorem declarationBytes_push (text : String) :
    declarationBytes { file with declarations := file.declarations ++ [text] } =
      declarationBytes file + (byteLength text + 1) := by
  simp [declarationBytes]

end OneUnit

/-- The fold over the units, from a state whose last file is still open. -/
theorem shownBytes_foldl (marker : String) (files : List MappedFile)
    (file : MappedFile) (units : List MapUnit) :
    shownBytes marker (units.foldl regroupUnit (files ++ [file])) =
      shownBytes marker files + headingBytes marker file units +
        declarationBytes file + printedTotal (mapLines marker units) := by
  induction units generalizing files file with
  | nil => exact shownBytes_concat marker files file
  | cons unit rest ih =>
      rw [List.foldl_cons, mapLines, printedTotal_cons]
      cases hheader : unit.isHeader with
      | true =>
          rw [regroupUnit, if_pos hheader, ih, shownBytes_concat,
            byteLength_printedBefore_of_header marker rest hheader,
            headingBytes_of_header marker file rest hheader]
          simp only [declarationBytes, List.map_nil, List.sum_nil]
          omega
      | false =>
          rw [regroupUnit, if_neg (by simp [hheader]), pushDeclaration_concat, ih,
            byteLength_printedBefore_of_declaration marker rest hheader,
            headingBytes_of_declaration marker file rest hheader,
            declarationBytes_push]
          omega

/-- A heading comes first. -/
def StartsWithHeading (units : List MapUnit) : Prop :=
  ∀ unit ∈ units.head?, unit.isHeader = true

theorem startsWithHeading_of_isPrefix {units : List MapUnit}
    {candidates : List Candidate}
    (hinitial : units <+: unitsOfCandidates candidates) :
    StartsWithHeading units := by
  cases units with
  | nil => simp [StartsWithHeading]
  | cons unit rest =>
      cases candidates with
      | nil => simp [unitsOfCandidates] at hinitial
      | cons candidate others =>
          simp only [unitsOfCandidates, List.zipIdx_cons, List.flatMap_cons,
            Candidate.units, List.cons_append, List.cons_prefix_cons] at hinitial
          rw [hinitial.1]
          simp [StartsWithHeading, MapUnit.header, MapUnit.isHeader]

theorem byteLength_regroup (marker : String) {units : List MapUnit}
    (hstart : StartsWithHeading units) :
    byteLength (mappedContent marker (regroup units)) =
      printedTotal (mapLines marker units) := by
  cases units with
  | nil => rfl
  | cons unit rest =>
      have hheader : unit.isHeader = true := hstart unit rfl
      have hfold := shownBytes_foldl marker []
        ⟨String.ofList (trimHeading unit.text.toList), []⟩ rest
      rw [regroup, ← shownBytes, List.foldl_cons, regroupUnit, if_pos hheader,
        hfold, mapLines, printedTotal_cons,
        byteLength_printedBefore_of_header marker rest hheader]
      simp [shownBytes, mappedContent, declarationBytes]

/-! ## The passes -/

section Passes

variable {F : Type*} (arithmetic : Arithmetic F) (input : RepoMapInput)

theorem emittedFocusUnits_eq :
    input.emittedFocusUnits arithmetic byteRatioEstimate =
      input.affordableFocus arithmetic := by
  rw [RepoMapInput.emittedFocusUnits, RepoMapInput.affordableFocus]
  cases input.focus with
  | none => rfl
  | some spec => exact emitted_eq_affordable _ _ _ _

theorem mapBudget_eq :
    input.mapBudget arithmetic byteRatioEstimate = input.leftForMap arithmetic := by
  have htokens := focusTokens_le_budget arithmetic input byteRatioEstimate
  rw [RepoMapInput.mapBudget, wrappingSub_of_le htokens, focusTokens_eq,
    emittedFocusUnits_eq, RepoMapInput.leftForMap]

theorem fullEmission_eq :
    (input.fullEmission arithmetic byteRatioEstimate).items =
      input.affordableWithin arithmetic (input.leftForMap arithmetic) := by
  rw [RepoMapInput.fullEmission, mapBudget_eq]
  exact emitted_eq_affordable _ _ _ _

theorem reserve_eq :
    input.reserve arithmetic byteRatioEstimate = input.heldBack arithmetic := by
  rw [RepoMapInput.reserve, fullEmission_eq, mapBudget_eq,
    RepoMapInput.heldBack]

theorem mapEmission_items_eq :
    (input.mapEmission arithmetic byteRatioEstimate).items =
      input.affordableMap arithmetic := by
  have hreserve := reserve_le_mapBudget arithmetic input byteRatioEstimate
  rw [RepoMapInput.mapEmission, RepoMapInput.affordableMap]
  split_ifs with hzero
  · rw [reserve_eq] at hzero
    rw [hzero, Nat.sub_zero, fullEmission_eq]
  · rw [wrappingSub_of_le hreserve, mapBudget_eq, reserve_eq]
    exact emitted_eq_affordable _ _ _ _

theorem roomForSummary_eq :
    input.roomForSummary arithmetic byteRatioEstimate =
      input.leftForMap arithmetic -
        unitCost byteRatioEstimate (input.affordableMap arithmetic) := by
  have hemission := mapEmission_le_mapBudget arithmetic input byteRatioEstimate
  rw [RepoMapInput.roomForSummary, wrappingSub_of_le hemission, mapBudget_eq,
    mapEmission_eq, mapEmission_items_eq]

theorem summaryLine_eq :
    omittedDirectoriesLine
        (input.omittedDirectories arithmetic byteRatioEstimate)
        (input.directoriesShown arithmetic byteRatioEstimate) =
      input.affordableSummary arithmetic := by
  rw [RepoMapInput.directoriesShown, roomForSummary_eq,
    RepoMapInput.omittedDirectories, RepoMapInput.omittedPaths,
    mapEmission_items_eq]
  rfl

theorem startsWithHeading_affordableFocus :
    StartsWithHeading (input.affordableFocus arithmetic) := by
  rw [← emittedFocusUnits_eq, RepoMapInput.emittedFocusUnits]
  cases input.focus with
  | none => simp [StartsWithHeading]
  | some spec => exact startsWithHeading_of_isPrefix (emitted_isPrefix _ _ _ _)

theorem startsWithHeading_affordableMap :
    StartsWithHeading (input.affordableMap arithmetic) := by
  rw [RepoMapInput.affordableMap, RepoMapInput.affordableWithin,
    ← emitted_eq_affordable]
  exact startsWithHeading_of_isPrefix (emitted_isPrefix _ _ _ _)

theorem byteLength_focusContent :
    byteLength ((input.buildFocusSection arithmetic byteRatioEstimate).matched.elim
        "" fun focus => mappedContent focusMarker focus.files) =
      printedTotal (mapLines focusMarker (input.affordableFocus arithmetic)) := by
  have hstart := startsWithHeading_affordableFocus arithmetic input
  rw [← byteLength_regroup focusMarker hstart, ← emittedFocusUnits_eq,
    RepoMapInput.emittedFocusUnits, RepoMapInput.buildFocusSection]
  cases input.focus with
  | none => rfl
  | some spec => rfl

/-- The summary line costs its estimate and is printed with a line break. -/
theorem summaryLine_paid (summary : Option String) :
    measuredCost (summary.toList.map fun line => ⟨line, line ++ "\n"⟩) =
        summary.elim 0 byteRatioEstimate ∧
      printedTotal (summary.toList.map fun line => ⟨line, line ++ "\n"⟩) =
        byteLength (summary.elim "" fun line => line ++ "\n") := by
  cases summary with
  | none => exact ⟨rfl, rfl⟩
  | some line => exact ⟨rfl, rfl⟩

theorem byteLength_printedMap :
    byteLength
        (buildRepoMap arithmetic input byteRatioEstimate).printedContent =
      printedTotal (input.paidLines arithmetic) := by
  have hfocus := byteLength_focusContent arithmetic input
  rw [buildRepoMap, RepoMapInput.paidLines, printedTotal_append, ← hfocus]
  cases hfocusOnly : input.focusOnly with
  | true =>
      simp only [if_true, RepoMap.printedContent, byteLength_append]
      rfl
  | false =>
      have hstart := startsWithHeading_affordableMap arithmetic input
      have hsummary := (summaryLine_paid (input.affordableSummary arithmetic)).2
      simp only [Bool.false_eq_true, if_false, RepoMap.printedContent,
        RepoMap.omittedLine, byteLength_append, RepoMapInput.rankedMap,
        mapEmission_items_eq, summaryLine_eq, RepoMapInput.rankedLines,
        printedTotal_append, byteLength_regroup fileMarker hstart, hsummary]
      omega

theorem tokenUpperBound_eq_measuredCost :
    (buildRepoMap arithmetic input byteRatioEstimate).tokenUpperBound =
      measuredCost (input.paidLines arithmetic) := by
  rw [buildRepoMap, RepoMapInput.paidLines, measuredCost_append,
    measuredCost_mapLines, ← emittedFocusUnits_eq, ← focusTokens_eq]
  cases hfocusOnly : input.focusOnly with
  | true => rfl
  | false =>
      have hsummary := (summaryLine_paid (input.affordableSummary arithmetic)).1
      simp only [Bool.false_eq_true, if_false, RepoMapInput.rankedMap,
        RepoMapInput.summaryCost, summaryLine_eq, mapEmission_eq,
        mapEmission_items_eq, RepoMapInput.rankedLines, measuredCost_append,
        measuredCost_mapLines, hsummary]
      omega

theorem map_pays_iff :
    byteRatioEstimate
          (buildRepoMap arithmetic input byteRatioEstimate).printedContent ≤
        (buildRepoMap arithmetic input byteRatioEstimate).tokenUpperBound ↔
      Covered (input.paidLines arithmetic) := by
  rw [tokenUpperBound_eq_measuredCost]
  exact estimates_pay_iff _ (byteLength_printedMap arithmetic input)

end Passes

/-- The reported bound pays for the printed content exactly when the rounding of
the estimates covers the bytes that were not measured. -/
theorem bound_pays_iff {F : Type*} (arithmetic : Arithmetic F)
    (contextInput : ContextInput) (mapInput : RepoMapInput) :
    (byteRatioEstimate
          (buildContext contextInput byteRatioEstimate).printedContent ≤
        (buildContext contextInput byteRatioEstimate).tokenUpperBound ↔
      Covered contextInput.paidLines) ∧
    (byteRatioEstimate
          (buildRepoMap arithmetic mapInput byteRatioEstimate).printedContent ≤
        (buildRepoMap arithmetic mapInput byteRatioEstimate).tokenUpperBound ↔
      Covered (mapInput.paidLines arithmetic)) :=
  ⟨context_pays_iff contextInput, map_pays_iff arithmetic mapInput⟩

/-- `fun f() {`, ten empty lines and the closing brace, with only the source
asked for. -/
def emptyLinesInput : ContextInput where
  definition := ⟨"f", "F.kt", 1, "fun f()"⟩
  index := .complete
  sections := ⟨true, false, false, false⟩
  file := some
    { FileSkeleton.new "F.kt" with
      declarations := [Declaration.new .function "f" 1] }
  source := some (["fun f() \x7b"] ++ List.replicate 10 "" ++ ["\x7d"])
  sourceMatch := none
  callers := []
  annotated := []
  javaTextReferences := []
  kotlinTextReferences := []
  implementors := []
  budget := 100
  filter := none

/-- A class on its own in a file. -/
def loneClassInput : RepoMapInput where
  files :=
    [{ FileSkeleton.new "A.kt" with
        declarations := [Declaration.new .classKind "B" 1] }]
  references := OrderedMap.empty
  budget := 100
  path := []
  compact := false
  focus := none
  fill := false

/-- An empty line is charged nothing, but its line break is printed: the bound is
six tokens, and the source lines alone are estimated at seven.  Nor do the
estimates of `## A.kt` and `class B` pay for their line breaks. -/
theorem line_breaks_not_paid :
    ((buildContext emptyLinesInput byteRatioEstimate).tokenUpperBound = 6 ∧
      byteRatioEstimate
        (buildContext emptyLinesInput byteRatioEstimate).sourceContent = 7 ∧
      ¬byteRatioEstimate
          (buildContext emptyLinesInput byteRatioEstimate).printedContent ≤
        (buildContext emptyLinesInput byteRatioEstimate).tokenUpperBound) ∧
    ¬byteRatioEstimate (buildRepoMap rationalArithmetic loneClassInput
          byteRatioEstimate).printedContent ≤
      (buildRepoMap rationalArithmetic loneClassInput
        byteRatioEstimate).tokenUpperBound := by
  decide

end Ktsense.Core
