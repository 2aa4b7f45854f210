import Ktsense.Core.MapMonotone
import Ktsense.Core.MapOrder
import Ktsense.Core.RenderMap
import Ktsense.Core.SafeText

/-!
# Source text in a repository map

Paths of shown files, the focus pattern and the path filter are neutralized where
they are printed, and signatures come from the outline writer.  The directories of
the omitted files are printed as they are: the line breaks of a map are those of its
template exactly when none of the directories it names can break or reorder the line.
-/

namespace Ktsense.Core

open Ktsense.Foundation

/-! ## The lines of a map -/

/-- A heading after an empty line, and the fenced declarations. -/
def fileLines (marker : String) (file : MappedFile) : List String :=
  ["", marker ++ neutralize file.path] ++ fencedLines "kotlin" file.declarations

namespace RepoMap

variable (map : RepoMap)

def focusLines : List String :=
  match map.focus with
  | none => []
  | some focus =>
      let shown := (focus.files.map fun file => file.declarations.length).sum
      ["", "## Focus: " ++ neutralize focus.pattern ++ " (" ++
        pluralize shown "declaration" ++ ")"] ++
        if focus.files.isEmpty then ["", "No declaration name matched."]
        else
          focus.files.flatMap (fileLines focusMarker) ++
            if 0 < focus.omitted then
              ["", pluralize focus.omitted "matching declaration" ++
                " omitted for budget."]
            else []

def summaryLines : List String :=
  (filesWithoutPublicDeclarationsLine map.filesWithoutPublicDeclarations).elim []
      (fun line => ["", line]) ++
    map.omittedLine.elim [] fun line => ["", line]

def pathFilterLines : List String :=
  map.pathFilter.elim [] fun filter =>
    ["Path filter " ++ neutralize (", ".intercalate filter.substrings) ++ ": " ++
      toString filter.matchedFiles ++ " of " ++ toString filter.totalFiles ++ " files"]

def budgetText (shown : String) : String :=
  "Budget " ++ toString map.budget ++ " tokens, content bound " ++
    toString map.tokenUpperBound ++ ". " ++ shown

def rankingText : String :=
  "Ranking is syntactic: files are ordered by import centrality, then by how " ++
    "often their declarations are referenced by name across the corpus, with " ++
    "import counts breaking ties. A reference is an identifier occurrence " ++
    "outside an import, counted by name and not type-checked, so declarations " ++
    "sharing a simple name across packages share a count."

/-- The files of a ranked map, or the line that stands for them. -/
def rankedLines : List String :=
  if map.files.isEmpty then ["", "The budget was too small for any file."] ++ map.focusLines
  else map.focusLines ++ map.files.flatMap (fileLines fileMarker) ++ ["", rankingText]

def lines : List String :=
  ["# Repository map", ""] ++ map.pathFilterLines ++
    match map.otherFilesNotMapped with
    | some others => map.budgetText (map.focusOnlySummary others) :: map.focusLines
    | none =>
        map.budgetText (pluralize map.files.length "file" ++ " shown, " ++
          toString map.filesOmitted ++ " omitted.") :: map.rankedLines ++ map.summaryLines

theorem mappedFileSection_eq (marker : String) (file : MappedFile) :
    mappedFileSection marker file = unlines (fileLines marker file) := by
  rw [mappedFileSection, fenced_eq, fileLines, unlines_append, ← String.toList_inj]
  simp

theorem mappedFiles_eq (marker : String) (files : List MappedFile) :
    String.join (files.map (mappedFileSection marker)) =
      unlines (files.flatMap (fileLines marker)) := by
  rw [unlines_flatMap]
  congr 1
  exact List.map_congr_left fun file _ => mappedFileSection_eq marker file

theorem focusSection_eq : map.focusSection = unlines map.focusLines := by
  rw [focusSection, focusLines]
  cases map.focus with
  | none => rfl
  | some focus =>
      simp only [mappedFiles_eq]
      rw [← String.toList_inj]
      split_ifs <;> simp

theorem summary_eq : map.summary = unlines map.summaryLines := by
  rw [summary, summaryLines]
  cases filesWithoutPublicDeclarationsLine map.filesWithoutPublicDeclarations <;>
    cases map.omittedLine <;> rw [← String.toList_inj] <;> simp

theorem budgetLine_eq (shown : String) :
    map.budgetLine shown = map.budgetText shown ++ "\n" := by
  simp only [budgetLine, budgetText]

theorem rankingNote_eq : rankingNote = "\n" ++ rankingText ++ "\n" := by
  have hfirst :
      "\nRanking is syntactic: files are ordered by import centrality, then by how " =
        "\n" ++
          "Ranking is syntactic: files are ordered by import centrality, then by how " := by
    decide
  have hlast : "sharing a simple name across packages share a count.\n" =
      "sharing a simple name across packages share a count." ++ "\n" := by
    decide
  unfold rankingNote rankingText
  rw [hfirst, hlast]
  repeat rw [String.append_assoc]

theorem pathFilter_eq :
    (match map.pathFilter with
      | some filter =>
          "Path filter " ++ neutralize (", ".intercalate filter.substrings) ++ ": " ++
            toString filter.matchedFiles ++ " of " ++ toString filter.totalFiles ++ " files\n"
      | none => "") = unlines map.pathFilterLines := by
  have hend : " files\n" = " files" ++ "\n" := by decide
  rw [pathFilterLines]
  cases map.pathFilter with
  | none => rfl
  | some filter =>
      rw [Option.elim_some, unlines_cons, unlines_nil, String.append_empty, hend]
      simp only [String.append_assoc]

theorem rankedLines_eq :
    (if map.files.isEmpty then
        "\nThe budget was too small for any file.\n" ++ map.focusSection ++ map.summary
      else
        map.focusSection ++ String.join (map.files.map (mappedFileSection fileMarker)) ++
          rankingNote ++ map.summary) = unlines (map.rankedLines ++ map.summaryLines) := by
  have hsmall : "\nThe budget was too small for any file.\n" =
      unlines ["", "The budget was too small for any file."] := by decide
  have hnote : rankingNote = unlines ["", rankingText] := by
    rw [rankingNote_eq, unlines_cons, unlines_cons, unlines_nil, String.append_empty,
      String.empty_append, String.append_assoc]
  rw [unlines_append, rankedLines, summary_eq, focusSection_eq, mappedFiles_eq]
  split_ifs
  · rw [hsmall, unlines_append]
  · rw [hnote, unlines_append, unlines_append]

/-- A map is written line by line. -/
theorem renderMapMarkdown_eq : renderMapMarkdown map = unlines map.lines := by
  have htitle : "# Repository map\n\n" = unlines ["# Repository map", ""] := by decide
  unfold renderMapMarkdown
  rw [lines, unlines_append, unlines_append, ← htitle, ← pathFilter_eq]
  congr 1
  cases map.otherFilesNotMapped with
  | some others =>
      dsimp only
      rw [budgetLine_eq, focusSection_eq, unlines_cons]
  | none =>
      dsimp only
      rw [budgetLine_eq, rankedLines_eq, List.cons_append, unlines_cons]

end RepoMap

/-! ## Signatures -/

theorem safe_firstLine {text line : String} {count : ℕ} (htext : Breaks text count)
    (hline : firstLine text = some line) : Safe line := by
  rw [firstLine] at hline
  split_ifs at hline
  rw [Option.some.injEq] at hline
  intro letter hletter
  rw [← hline, String.toList_ofList] at hletter
  by_contra hunsafe
  have hmem : letter ∈ text.toList.filter isUnsafeInOutput :=
    List.mem_filter.2 ⟨(List.takeWhile_subset _) hletter, by simpa using hunsafe⟩
  rw [htext] at hmem
  have hother := List.mem_takeWhile_imp hletter
  rw [List.eq_of_mem_replicate hmem] at hother
  exact absurd hother (by decide)

theorem safe_signatureOf {file : FileSkeleton} {declaration : Declaration}
    {text : String} (htext : signatureOf file declaration = some text) : Safe text := by
  simp only [signatureOf, Option.bind_eq_some_iff] at htext
  obtain ⟨line, hline, htrimmed⟩ := htext
  split_ifs at htrimmed
  rw [← Option.some.inj htrimmed]
  exact safe_trim (safe_firstLine (breaks_renderSkeleton _ _) hline)

theorem safe_compactSignature {declaration : Declaration} {text : String}
    (htext : compactSignature declaration = some text) : Safe text := by
  simp only [compactSignature] at htext
  split_ifs at htext
  rw [← Option.some.inj htext, safe_append, safe_append]
  exact ⟨⟨safe_kind_keyword _, by decide⟩, safe_neutralize _⟩

theorem safe_renderedSignature {file : FileSkeleton} {compact : Bool}
    {declaration : Declaration} {text : String}
    (htext : renderedSignature file compact declaration = some text) : Safe text := by
  rw [renderedSignature, Option.map_eq_some_iff] at htext
  obtain ⟨full, hfull, rfl⟩ := htext
  have hsafe := safe_signatureOf hfull
  apply safe_ite _ hsafe
  cases hcompact : compactSignature declaration with
  | none => exact hsafe
  | some short => exact safe_compactSignature hcompact

theorem allSafe_renderedSignatures (file : FileSkeleton) (compact : Bool)
    (declarations : List Declaration) :
    AllSafe (declarations.filterMap (renderedSignature file compact)) := by
  intro text htext
  obtain ⟨declaration, _, hrendered⟩ := List.mem_filterMap.1 htext
  exact safe_renderedSignature hrendered

/-! ## Regrouped files -/

/-- Every declaration of the files is safe. -/
def SafeFiles (files : List MappedFile) : Prop :=
  ∀ file ∈ files, AllSafe file.declarations

/-- Every signature among the units is safe. -/
def SafeUnits (units : List MapUnit) : Prop :=
  ∀ unit ∈ units, unit.isHeader = false → Safe unit.text

theorem safeUnits_unitsOfCandidates {candidates : List Candidate}
    (hcandidates : ∀ candidate ∈ candidates, AllSafe candidate.signatures) :
    SafeUnits (unitsOfCandidates candidates) := by
  intro unit hunit hdeclaration
  obtain ⟨⟨candidate, index⟩, hcandidate, hmem⟩ := List.mem_flatMap.1 hunit
  have hunits : unit ∈ candidate.units index := hmem
  rcases List.mem_cons.1 hunits with rfl | hsignature
  · exact absurd hdeclaration (by simp [MapUnit.header, MapUnit.isHeader])
  · obtain ⟨text, htext, rfl⟩ := List.mem_map.1 hsignature
    exact hcandidates candidate (List.fst_mem_of_mem_zipIdx hcandidate) text htext

theorem safeUnits_candidatesOf (ordered : List FileSkeleton)
    {signatures : FileSkeleton → List String}
    (hsignatures : ∀ file, AllSafe (signatures file)) :
    SafeUnits (unitsOfCandidates (candidatesOf ordered signatures)) := by
  apply safeUnits_unitsOfCandidates
  intro candidate hcandidate
  obtain ⟨file, _, rfl⟩ := List.mem_map.1 (List.mem_of_mem_filter hcandidate)
  exact hsignatures file

theorem SafeFiles.pushDeclaration {files : List MappedFile} {text : String}
    (hfiles : SafeFiles files) (htext : Safe text) :
    SafeFiles (pushDeclaration text files) := by
  fun_induction Ktsense.Core.pushDeclaration text files with
  | case1 => exact hfiles
  | case2 file =>
      have hfile := hfiles file (List.mem_singleton_self _)
      intro other hother
      rw [List.mem_singleton.1 hother, allSafe_append]
      exact ⟨hfile, by simpa using htext⟩
  | case3 file next rest ih =>
      intro other hother
      rcases List.mem_cons.1 hother with rfl | hrest
      · exact hfiles _ (List.mem_cons_self ..)
      · exact ih (fun later hlater => hfiles later (List.mem_cons_of_mem _ hlater))
          other hrest

theorem SafeFiles.foldl {units : List MapUnit} {files : List MappedFile}
    (hfiles : SafeFiles files) (hunits : SafeUnits units) :
    SafeFiles (units.foldl regroupUnit files) := by
  induction units generalizing files with
  | nil => exact hfiles
  | cons unit rest ih =>
      refine ih ?_ fun other hother => hunits other (List.mem_cons_of_mem _ hother)
      rw [regroupUnit]
      by_cases hheader : unit.isHeader
      · rw [if_pos hheader]
        intro file hfile
        rcases List.mem_append.1 hfile with hbefore | hnew
        · exact hfiles file hbefore
        · rw [List.mem_singleton.1 hnew]
          exact allSafe_nil
      · rw [if_neg hheader]
        exact hfiles.pushDeclaration
          (hunits unit (List.mem_cons_self ..) (by simpa using hheader))

theorem safeFiles_regroup {units : List MapUnit} (hunits : SafeUnits units) :
    SafeFiles (regroup units) := by
  intro file hfile
  have hnone : SafeFiles [] := List.forall_mem_nil _
  exact hnone.foldl hunits file (List.mem_of_mem_filter hfile)

/-- A budget keeps some of the units. -/
theorem SafeUnits.emitted {units : List MapUnit} (hunits : SafeUnits units)
    (budget : ℕ) (estimator : TokenEstimator) :
    SafeUnits (emitWithinBudget MapUnit.text units budget estimator).items :=
  fun unit hunit => hunits unit ((emitted_isPrefix _ _ _ _).subset hunit)

/-! ## Safe lines -/

theorem allSafe_fileLines {marker : String} (hmarker : Safe marker) {file : MappedFile}
    (hfile : AllSafe file.declarations) : AllSafe (fileLines marker file) := by
  rw [fileLines, allSafe_append]
  refine ⟨by simp [hmarker], allSafe_fencedLines (by decide) hfile⟩

/-- The texts of the template that stand between what is quoted. -/
@[simp]
theorem safe_mapWords :
    Safe "# Repository map" ∧ Safe "Path filter " ∧ Safe " of " ∧ Safe " files" ∧
      Safe "Budget " ∧ Safe " tokens, content bound " ∧ Safe ". " ∧
      Safe "## Focus: " ∧ Safe " (" ∧ Safe "No declaration name matched." ∧
      Safe " omitted for budget." ∧ Safe "Focus only: " ∧ Safe " in " ∧ Safe "; " ∧
      Safe " not mapped, pass --fill to map them" ∧ Safe " shown, " ∧
      Safe " omitted." ∧ Safe "The budget was too small for any file." := by
  decide

@[simp]
theorem safe_counted :
    ∀ count, Safe (pluralize count "declaration") ∧
      Safe (pluralize count "matching declaration") ∧ Safe (pluralize count "file") ∧
      Safe (pluralize count "other file") := fun _ =>
  ⟨safe_pluralize _ (by decide), safe_pluralize _ (by decide),
    safe_pluralize _ (by decide), safe_pluralize _ (by decide)⟩

namespace RepoMap

variable {map : RepoMap}

theorem safe_rankingText : Safe rankingText := by
  unfold rankingText
  rw [safe_append, safe_append, safe_append, safe_append]
  exact ⟨⟨⟨⟨by decide, by decide⟩, by decide⟩, by decide⟩, by decide⟩

theorem allSafe_focusLines
    (hfocus : ∀ focus, map.focus = some focus → SafeFiles focus.files) :
    AllSafe map.focusLines := by
  rw [focusLines]
  cases hmap : map.focus with
  | none => exact allSafe_nil
  | some focus =>
      have hfiles : AllSafe (focus.files.flatMap (fileLines focusMarker)) :=
        allSafe_flatMap fun file hfile =>
          allSafe_fileLines (by decide) (hfocus focus hmap file hfile)
      rw [allSafe_append]
      refine ⟨by simp, allSafe_ite (by simp) ?_⟩
      rw [allSafe_append]
      exact ⟨hfiles, allSafe_ite (by simp) allSafe_nil⟩

theorem allSafe_filesWithout (count : ℕ) :
    AllSafe ((filesWithoutPublicDeclarationsLine count).elim [] fun line =>
      ["", line]) := by
  have hone : Safe "1 file declares nothing public and is not mapped." := by decide
  have hmany : Safe " files declare nothing public and are not mapped." := by decide
  match count with
  | 0 => exact allSafe_nil
  | 1 => simp [filesWithoutPublicDeclarationsLine, hone]
  | many + 2 => simp [filesWithoutPublicDeclarationsLine, hmany]

theorem allSafe_opening : AllSafe (["# Repository map", ""] ++ map.pathFilterLines) := by
  rw [allSafe_append, pathFilterLines]
  refine ⟨by simp, ?_⟩
  cases map.pathFilter <;> simp

/-- Of the lines of a map only the one that names directories can be unsafe. -/
theorem allSafe_lines_iff
    (hfocus : ∀ focus, map.focus = some focus → SafeFiles focus.files)
    (hfiles : SafeFiles map.files)
    (hranked : map.otherFilesNotMapped.isSome → map.omittedLine = none) :
    AllSafe map.lines ↔ ∀ line, map.omittedLine = some line → Safe line := by
  have hopening : AllSafe (["# Repository map", ""] ++ map.pathFilterLines) :=
    allSafe_opening
  have hsection := allSafe_focusLines hfocus
  rw [lines, allSafe_append, and_iff_right hopening]
  cases hother : map.otherFilesNotMapped with
  | some others =>
      have hnone := hranked (by rw [hother]; rfl)
      have hbudget : Safe (map.budgetText (map.focusOnlySummary others)) := by
        unfold focusOnlySummary
        simp only [budgetText, safe_append, safe_toString, safe_mapWords, safe_counted, and_self]
      have hshown : AllSafe
          (map.budgetText (map.focusOnlySummary others) :: map.focusLines) :=
        (allSafe_cons _ _).mpr ⟨hbudget, hsection⟩
      refine iff_of_true hshown fun line hline => ?_
      rw [hnone] at hline
      cases hline
  | none =>
      have hshown : AllSafe (map.files.flatMap (fileLines fileMarker)) :=
        allSafe_flatMap fun file hfile => allSafe_fileLines (by decide) (hfiles file hfile)
      have hlines : AllSafe map.rankedLines := by
        rw [rankedLines]
        apply allSafe_ite
        · simp [hsection]
        · simp [hsection, hshown, safe_rankingText]
      have hwithout := allSafe_filesWithout map.filesWithoutPublicDeclarations
      simp only [List.cons_append, allSafe_cons, allSafe_append, summaryLines, hlines,
        hwithout, budgetText]
      cases map.omittedLine <;> simp

end RepoMap

/-! ## The directories that are named -/

theorem mem_groupOmitted_iff (paths : List String) (path : String) :
    path ∈ (groupOmitted paths).map (·.path) ↔ path ∈ paths.map parentDirectory := by
  have hget := get?_foldl_countKey (paths.map parentDirectory) path
  rw [groupOmitted, ((sortBy_perm _ _).map _).mem_iff, List.map_map]
  constructor
  · intro hmem
    obtain ⟨⟨key, files⟩, hentry, hkey⟩ := List.mem_map.1 hmem
    rw [OrderedMap.mem_entries_iff, show key = path from hkey, hget] at hentry
    by_contra hnone
    rw [if_neg hnone] at hentry
    exact absurd hentry (by simp)
  · intro hmem
    rw [if_pos hmem, ← OrderedMap.mem_entries_iff] at hget
    exact List.mem_map_of_mem hget

theorem safe_omittedDirectoriesLine_iff {directories : List OmittedDirectory}
    {shown : ℕ} {line : String}
    (hline : omittedDirectoriesLine directories shown = some line) :
    Safe line ↔ ∀ directory ∈ directories.take shown, Safe directory.path := by
  rw [omittedDirectoriesLine] at hline
  split_ifs at hline
  rw [← Option.some.inj hline, safe_append, safe_append, safe_intercalate_iff (by decide)]
  have htail : Safe (if 0 < wrappingSub directories.length shown then
      ", and " ++ toString (wrappingSub directories.length shown) ++ " more directories"
      else "") := by
    refine safe_ite ?_ safe_empty
    rw [safe_append, safe_append]
    exact ⟨⟨by decide, safe_toString _⟩, by decide⟩
  have hentry : ∀ directory : OmittedDirectory,
      Safe (directory.path ++ " (" ++ toString directory.files ++ ")") ↔
        Safe directory.path := by
    intro directory
    have hbracket : Safe " (" ∧ Safe ")" := by decide
    simp only [safe_append, hbracket, safe_toString, and_true]
  have hword : Safe "Omitted: " := by decide
  simp only [hword, htail, true_and, and_true, AllSafe, List.forall_mem_map, hentry]

theorem forall_safe_line_iff (directories : List OmittedDirectory) (shown : ℕ) :
    (∀ line, omittedDirectoriesLine directories shown = some line → Safe line) ↔
      ∀ directory ∈ directories.take shown, Safe directory.path := by
  cases hline : omittedDirectoriesLine directories shown with
  | some line =>
      rw [← safe_omittedDirectoriesLine_iff hline]
      simp
  | none =>
      rw [omittedDirectoriesLine] at hline
      split_ifs at hline with hnone
      have htake : directories.take shown = [] := by
        rw [List.take_eq_nil_iff]
        simpa [or_comm] using hnone
      simp [htake]

namespace RepoMapInput

variable {F : Type*} (input : RepoMapInput) (arithmetic : Arithmetic F)
  (estimator : TokenEstimator)

/-- The directories a map names; a map without its ranked part names none. -/
def namedDirectories : List OmittedDirectory :=
  if input.focusOnly then []
  else (input.omittedDirectories arithmetic estimator).take
    (input.directoriesShown arithmetic estimator)

/-- No directory that is named because a file of it was omitted holds a control
character or an override. -/
def NamesSafely : Prop :=
  ∀ path ∈ input.omittedPaths arithmetic estimator,
    parentDirectory path ∈ (input.namedDirectories arithmetic estimator).map (·.path) →
      Safe (parentDirectory path)

theorem namesSafely_iff :
    input.NamesSafely arithmetic estimator ↔
      ∀ directory ∈ input.namedDirectories arithmetic estimator, Safe directory.path := by
  constructor
  · intro hpaths directory hdirectory
    have hnamed := List.mem_map_of_mem (f := fun named : OmittedDirectory => named.path)
      hdirectory
    have homitted : directory.path ∈
        (groupOmitted (input.omittedPaths arithmetic estimator)).map (·.path) := by
      rw [namedDirectories] at hdirectory
      split_ifs at hdirectory
      · exact absurd hdirectory (by simp)
      · exact List.mem_map_of_mem (List.mem_of_mem_take hdirectory)
    rw [mem_groupOmitted_iff, List.mem_map] at homitted
    obtain ⟨path, hpath, hparent⟩ := homitted
    rw [← hparent] at hnamed ⊢
    exact hpaths path hpath hnamed
  · intro hsafe path _ hnamed
    obtain ⟨directory, hdirectory, hparent⟩ := List.mem_map.1 hnamed
    rw [← hparent]
    exact hsafe directory hdirectory

theorem safeFiles_focus {focus : FocusMatches}
    (hfocus : (input.buildFocusSection arithmetic estimator).matched = some focus) :
    SafeFiles focus.files := by
  rw [buildFocusSection] at hfocus
  cases hspec : input.focus with
  | none => simp [hspec] at hfocus
  | some spec =>
      rw [hspec] at hfocus
      rw [← Option.some.inj hfocus]
      exact safeFiles_regroup ((safeUnits_candidatesOf _ fun file =>
        allSafe_renderedSignatures file true _).emitted _ _)

theorem safeFiles_map :
    SafeFiles (regroup (input.mapEmission arithmetic estimator).items) := by
  have hunits : SafeUnits (unitsOfCandidates (input.candidates arithmetic)) :=
    safeUnits_candidatesOf _ fun file => allSafe_renderedSignatures file input.compact _
  apply safeFiles_regroup
  rw [mapEmission]
  split_ifs
  · exact hunits.emitted _ _
  · exact hunits.emitted _ _

theorem omittedLine_focusOnlyMap :
    (input.focusOnlyMap arithmetic estimator).omittedLine = none := by
  rw [RepoMap.omittedLine, focusOnlyMap]
  rfl

theorem omittedLine_rankedMap : (input.rankedMap arithmetic estimator).omittedLine =
    omittedDirectoriesLine (input.omittedDirectories arithmetic estimator)
      (input.directoriesShown arithmetic estimator) := by
  rw [RepoMap.omittedLine, rankedMap]

theorem forall_safe_omittedLine_iff :
    (∀ line, (buildRepoMap arithmetic input estimator).omittedLine = some line →
      Safe line) ↔ input.NamesSafely arithmetic estimator := by
  rw [namesSafely_iff, namedDirectories, buildRepoMap]
  split_ifs
  · rw [omittedLine_focusOnlyMap]
    simp
  · rw [omittedLine_rankedMap]
    exact forall_safe_line_iff _ _

end RepoMapInput

/-- The line breaks of a map are those after its lines, and it holds no other control
character and no override, exactly when it names no directory that holds one. -/
theorem map_injection_safe_iff {F : Type*} (arithmetic : Arithmetic F)
    (input : RepoMapInput) (estimator : TokenEstimator) :
    Breaks (renderMapMarkdown (buildRepoMap arithmetic input estimator))
        (buildRepoMap arithmetic input estimator).lines.length ↔
      input.NamesSafely arithmetic estimator := by
  rw [← input.forall_safe_omittedLine_iff, RepoMap.renderMapMarkdown_eq,
    breaks_unlines_iff]
  apply RepoMap.allSafe_lines_iff
  · intro focus hfocus
    rw [buildRepoMap] at hfocus
    split_ifs at hfocus
    · exact input.safeFiles_focus arithmetic estimator hfocus
    · exact input.safeFiles_focus arithmetic estimator hfocus
  · rw [buildRepoMap]
    split_ifs
    · exact List.forall_mem_nil _
    · exact input.safeFiles_map arithmetic estimator
  · rw [buildRepoMap]
    split_ifs
    · intro _
      rfl
    · intro hsome
      rw [RepoMapInput.rankedMap] at hsome
      cases hsome

/-- A class that no budget of sixteen tokens pays for, in a directory whose name holds
a line break and a heading. -/
def brokenDirectoryInput : RepoMapInput where
  files :=
    [{ FileSkeleton.new "a\n## b/C.kt" with
        declarations :=
          [Declaration.new .classKind "AVeryLongNameThatDoesNotFitTheBudgetAtAll" 1] }]
  references := OrderedMap.empty
  budget := 16
  path := []
  compact := false
  focus := none
  fill := false

set_option maxRecDepth 8000 in
theorem omitted_directory_adds_heading :
    "## b (1)" ∈ linesOf (renderMapMarkdown
        (buildRepoMap rationalArithmetic brokenDirectoryInput byteRatioEstimate)) ∧
      ¬Breaks (renderMapMarkdown
          (buildRepoMap rationalArithmetic brokenDirectoryInput byteRatioEstimate))
        (buildRepoMap rationalArithmetic brokenDirectoryInput
          byteRatioEstimate).lines.length := by
  unfold Breaks
  decide

end Ktsense.Core
