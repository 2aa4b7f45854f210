import Ktsense.Core.RenderContext
import Ktsense.Core.RepoMap

/-!
# Rendering a repository map

`render_map_markdown`: the focus section, the ranked files and the summary of
what was left out.
-/

namespace Ktsense.Core

open Ktsense.Foundation

def filesWithoutPublicDeclarationsLine (count : ℕ) : Option String :=
  match count with
  | 0 => none
  | 1 => some "1 file declares nothing public and is not mapped."
  | many =>
      some (toString many ++ " files declare nothing public and are not mapped.")

/-- A file under a heading of the given depth. -/
def mappedFileSection (marker : String) (file : MappedFile) : String :=
  "\n" ++ marker ++ neutralize file.path ++ "\n" ++
    fenced "kotlin" file.declarations

/-- The headings and signature lines of files as they are printed, each with its
line break. -/
def mappedContent (marker : String) (files : List MappedFile) : String :=
  String.join (files.map fun file =>
    marker ++ neutralize file.path ++ "\n" ++ fencedContent file.declarations)

def focusMarker : String := "### "

def fileMarker : String := "## "

namespace RepoMap

variable (map : RepoMap)

def focusSection : String :=
  match map.focus with
  | none => ""
  | some focus =>
      let shown := (focus.files.map fun file => file.declarations.length).sum
      "\n## Focus: " ++ neutralize focus.pattern ++ " (" ++
        pluralize shown "declaration" ++ ")\n" ++
        if focus.files.isEmpty then "\nNo declaration name matched.\n"
        else
          String.join (focus.files.map (mappedFileSection focusMarker)) ++
            if 0 < focus.omitted then
              "\n" ++ pluralize focus.omitted "matching declaration" ++
                " omitted for budget.\n"
            else ""

def focusOnlySummary (otherFilesNotMapped : ℕ) : String :=
  let files := map.focus.elim 0 fun focus => focus.files.length
  let declarations := map.focus.elim 0 fun focus =>
    (focus.files.map fun file => file.declarations.length).sum
  "Focus only: " ++ pluralize declarations "declaration" ++ " in " ++
    pluralize files "file" ++ "; " ++
    pluralize otherFilesNotMapped "other file" ++
    " not mapped, pass --fill to map them"

/-- The line that says where the omitted files live. -/
def omittedLine : Option String :=
  omittedDirectoriesLine map.omittedDirectories map.omittedDirectoriesShown

def summary : String :=
  (filesWithoutPublicDeclarationsLine map.filesWithoutPublicDeclarations).elim ""
      (fun line => "\n" ++ line ++ "\n") ++
    map.omittedLine.elim "" fun line => "\n" ++ line ++ "\n"

def budgetLine (shown : String) : String :=
  "Budget " ++ toString map.budget ++ " tokens, content bound " ++
    toString map.tokenUpperBound ++ ". " ++ shown ++ "\n"

def rankingNote : String :=
  "\nRanking is syntactic: files are ordered by import centrality, then by how " ++
    "often their declarations are referenced by name across the corpus, with " ++
    "import counts breaking ties. A reference is an identifier occurrence " ++
    "outside an import, counted by name and not type-checked, so declarations " ++
    "sharing a simple name across packages share a count.\n"

/-- The emitted content as it is printed: focus lines, map lines and the
omission summary, each with its line break. -/
def printedContent : String :=
  map.focus.elim "" (fun focus => mappedContent focusMarker focus.files) ++
    mappedContent fileMarker map.files ++
    map.omittedLine.elim "" fun line => line ++ "\n"

end RepoMap

def renderMapMarkdown (map : RepoMap) : String :=
  "# Repository map\n\n" ++
    (match map.pathFilter with
    | some filter =>
        "Path filter " ++ neutralize (", ".intercalate filter.substrings) ++
          ": " ++ toString filter.matchedFiles ++ " of " ++
          toString filter.totalFiles ++ " files\n"
    | none => "") ++
    match map.otherFilesNotMapped with
    | some otherFilesNotMapped =>
        map.budgetLine (map.focusOnlySummary otherFilesNotMapped) ++
          map.focusSection
    | none =>
        map.budgetLine (pluralize map.files.length "file" ++ " shown, " ++
          toString map.filesOmitted ++ " omitted.") ++
          if map.files.isEmpty then
            "\nThe budget was too small for any file.\n" ++ map.focusSection ++
              map.summary
          else
            map.focusSection ++
              String.join (map.files.map (mappedFileSection fileMarker)) ++
              RepoMap.rankingNote ++ map.summary

/-! ## The content within the document -/

theorem mappedContent_partOf (marker : String) (files : List MappedFile) :
    PartOf (mappedContent marker files)
      (String.join (files.map (mappedFileSection marker))) := by
  apply PartOf.join_map
  intro file
  rw [mappedFileSection]
  refine PartOf.append ?_ (fencedContent_partOf _ _)
  refine PartOf.append ?_ (PartOf.refl _)
  refine PartOf.append ?_ (PartOf.refl _)
  apply PartOf.after
  exact PartOf.refl _

namespace RepoMap

variable (map : RepoMap)

theorem focusContent_partOf :
    PartOf (map.focus.elim "" fun focus => mappedContent focusMarker focus.files)
      map.focusSection := by
  rw [focusSection]
  cases map.focus with
  | none => exact PartOf.refl _
  | some focus =>
      apply PartOf.after
      by_cases hempty : focus.files.isEmpty
      · rw [Option.elim_some, List.isEmpty_iff.1 hempty]
        exact PartOf.empty _
      · rw [if_neg hempty]
        apply PartOf.before
        exact mappedContent_partOf _ _

theorem omittedLine_partOf :
    PartOf (map.omittedLine.elim "" fun line => line ++ "\n") map.summary := by
  rw [summary]
  apply PartOf.after
  cases map.omittedLine with
  | none => exact PartOf.refl _
  | some line =>
      refine PartOf.append ?_ (PartOf.refl _)
      apply PartOf.after
      exact PartOf.refl _

/-- What is called the printed content is printed, in its order, when a map
without its ranked part has no files and no summary. -/
theorem printedContent_partOf
    (hranked : map.otherFilesNotMapped.isSome →
      map.files = [] ∧ map.omittedLine = none) :
    PartOf map.printedContent (renderMapMarkdown map) := by
  have hfocus := map.focusContent_partOf
  have hsummary := map.omittedLine_partOf
  unfold printedContent renderMapMarkdown
  apply PartOf.after
  cases hother : map.otherFilesNotMapped with
  | some count =>
      have hnothing := hranked (by rw [hother]; rfl)
      rw [hnothing.1, hnothing.2, Option.elim_none, mappedContent, List.map_nil,
        String.join_nil, String.append_empty, String.append_empty]
      apply PartOf.after
      exact hfocus
  | none =>
      apply PartOf.after
      by_cases hempty : map.files.isEmpty
      · rw [if_pos hempty, List.isEmpty_iff.1 hempty, mappedContent,
          List.map_nil, String.join_nil, String.append_empty]
        refine PartOf.append ?_ hsummary
        apply PartOf.after
        exact hfocus
      · rw [if_neg hempty]
        refine PartOf.append ?_ hsummary
        apply PartOf.before
        exact PartOf.append hfocus (mappedContent_partOf _ _)

end RepoMap

/-- Of every map that is built, the content its budget counts is printed, in its order. -/
theorem printedMap_partOf {F : Type*} (arithmetic : Arithmetic F)
    (input : RepoMapInput) (estimator : TokenEstimator) :
    PartOf (buildRepoMap arithmetic input estimator).printedContent
      (renderMapMarkdown (buildRepoMap arithmetic input estimator)) := by
  apply RepoMap.printedContent_partOf
  rw [buildRepoMap]
  split_ifs
  · intro _
    exact ⟨rfl, rfl⟩
  · simp [RepoMapInput.rankedMap]

end Ktsense.Core
