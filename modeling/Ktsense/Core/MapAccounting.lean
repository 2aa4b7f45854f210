import Ktsense.Core.MapMonotone
import Ktsense.Core.MapOrder
import Ktsense.Core.PaidMap

/-!
# Every file accounted for

A file of a map is shown, omitted for budget or without a public declaration.
The shown files are read back from the emitted headings, of which every leading
`## ` is taken off, and the omitted ones are what these paths leave.  The three
counts therefore add up when no two headings read back as one path and every one
of them as the path of a candidate.
-/

namespace Ktsense.Core

open Ktsense.Foundation

/-- The path a heading is read back as. -/
def readBack (path : String) : String := String.ofList (trimHeading path.toList)

/-- The candidates whose heading and first signature are among so many units. -/
def shownCandidates : List Candidate → ℕ → List Candidate
  | [], _ => []
  | candidate :: rest, count =>
      if 2 ≤ count then
        candidate :: shownCandidates rest (count - (candidate.signatures.length + 1))
      else []

namespace RepoMapInput

variable {F : Type*} (input : RepoMapInput) (arithmetic : Arithmetic F)
  (estimator : TokenEstimator)

/-- The files that render a signature. -/
def renders (file : FileSkeleton) : Bool :=
  !(signaturesInReferenceOrder file input.ranking input.compact).isEmpty

/-- The units that so many tokens afford. -/
def unitsWithin (tokens : ℕ) : List MapUnit :=
  affordable MapUnit.text (unitsOfCandidates (input.candidates arithmetic)) tokens
    estimator

/-- What the whole budget leaves once the summary of the files it drops is paid. -/
def leftBySummary : ℕ :=
  input.budget - summaryReserve
    (omittedFrom (input.candidatePaths arithmetic)
      (input.unitsWithin arithmetic estimator input.budget))
    input.budget estimator

/-- The paths of the candidates the budget has a signature of. -/
def affordedPaths : List String :=
  (shownCandidates (input.candidates arithmetic)
    (input.unitsWithin arithmetic estimator
      (input.leftBySummary arithmetic estimator)).length).map (·.path)

/-- The headings the budget affords read back as distinct paths of candidates. -/
def HeadingsReadBack : Prop :=
  ((input.affordedPaths arithmetic estimator).map readBack).Nodup ∧
    ∀ path ∈ input.affordedPaths arithmetic estimator,
      readBack path ∈ input.candidatePaths arithmetic

end RepoMapInput

/-- Shown files, omitted files and files without a public declaration make up the
mapped files; the paths shown and omitted part the files that render a signature;
the omitted directories hold the omitted files. -/
structure AccountsForFiles {F : Type*} (arithmetic : Arithmetic F)
    (input : RepoMapInput) (estimator : TokenEstimator) (map : RepoMap) : Prop where
  counts : map.files.length + map.filesOmitted + map.filesWithoutPublicDeclarations =
    input.mappedFiles.length
  apart : ∀ path ∈ map.files.map (·.path),
    path ∉ input.omittedPaths arithmetic estimator
  together : ∀ path,
    (path ∈ map.files.map (·.path) ∨
        path ∈ input.omittedPaths arithmetic estimator) ↔
      ∃ file ∈ input.mappedFiles, input.renders file = true ∧ file.path = path
  directories : (map.omittedDirectories.map (·.files)).sum = map.filesOmitted

/-! ## The omitted directories -/

theorem total_countKey (keys : List String) :
    (keys.foldl countKey OrderedMap.empty).total (fun _ count => count) = keys.length := by
  induction keys using List.reverseRecOn with
  | nil => rfl
  | append_singleton keys last ih =>
      rw [List.foldl_append, List.foldl_cons, List.foldl_nil, countKey,
        List.length_append, List.length_singleton, ← ih]
      apply OrderedMap.total_alter
      cases (keys.foldl countKey OrderedMap.empty).get? last <;> rfl

theorem sum_groupOmitted (paths : List String) :
    ((groupOmitted paths).map (·.files)).sum = paths.length := by
  have htotal := total_countKey (paths.map parentDirectory)
  rw [List.length_map] at htotal
  rw [groupOmitted, ((sortBy_perm _ _).map _).sum_eq, List.map_map, ← htotal]
  rfl

/-! ## Headings read back -/

/-- The files a prefix of the units is regrouped to, before those without a
declaration are dropped. -/
def regroupedFiles : List Candidate → ℕ → List MappedFile
  | [], _ => []
  | _ :: _, 0 => []
  | candidate :: rest, count + 1 =>
      ⟨readBack candidate.path, candidate.signatures.take count⟩ ::
        regroupedFiles rest (count - candidate.signatures.length)

theorem foldl_declarations (files : List MappedFile) (path : String) (index : ℕ)
    (held signatures : List String) :
    (signatures.map (MapUnit.declaration index)).foldl regroupUnit
        (files ++ [⟨path, held⟩]) = files ++ [⟨path, held ++ signatures⟩] := by
  induction signatures generalizing held with
  | nil => simp
  | cons signature rest ih =>
      rw [List.map_cons, List.foldl_cons, regroupUnit,
        if_neg (by simp [MapUnit.declaration, MapUnit.isHeader]),
        pushDeclaration_concat]
      have hrest := ih (held ++ [signature])
      rw [List.append_assoc, List.singleton_append] at hrest
      exact hrest

/-- A heading and some of the signatures under it. -/
theorem foldl_units (files : List MappedFile) (candidate : Candidate) (index count : ℕ) :
    ((candidate.units index).take (count + 1)).foldl regroupUnit files =
      files ++ [⟨readBack candidate.path, candidate.signatures.take count⟩] := by
  have hheading : regroupUnit files (MapUnit.header candidate.path) =
      files ++ [⟨readBack candidate.path, []⟩] := by
    have hletters : ("## " ++ candidate.path).toList =
        '#' :: '#' :: ' ' :: candidate.path.toList := by
      rw [String.toList_append]
      rfl
    simp [regroupUnit, MapUnit.header, MapUnit.isHeader, hletters, trimHeading, readBack]
  rw [Candidate.units, List.take_succ_cons, List.foldl_cons, hheading, ← List.map_take,
    foldl_declarations, List.nil_append]

/-- A prefix of the units, file by file. -/
theorem foldl_take_units (files : List MappedFile) (candidates : List Candidate)
    (index count : ℕ) :
    (((candidates.zipIdx index).flatMap fun (candidate, index) =>
        candidate.units index).take count).foldl regroupUnit files =
      files ++ regroupedFiles candidates count := by
  induction candidates generalizing files index count with
  | nil => simp [regroupedFiles]
  | cons candidate rest ih =>
      rw [List.zipIdx_cons, List.flatMap_cons]
      cases count with
      | zero => simp [regroupedFiles]
      | succ count =>
          have hlength : (candidate.units index).length =
              candidate.signatures.length + 1 := by
            simp [Candidate.units]
          rw [List.take_append, List.foldl_append, foldl_units, hlength,
            Nat.add_sub_add_right, ih, regroupedFiles, List.append_assoc]
          rfl

/-- The paths read back from a prefix of the units are those of the candidates of
which it has a signature. -/
theorem paths_regroup_take {candidates : List Candidate}
    (hsignatures : ∀ candidate ∈ candidates, candidate.signatures ≠ []) (count : ℕ) :
    (regroup ((unitsOfCandidates candidates).take count)).map (·.path) =
      (shownCandidates candidates count).map fun candidate => readBack candidate.path := by
  rw [regroup, unitsOfCandidates, foldl_take_units, List.nil_append]
  induction candidates generalizing count with
  | nil => rfl
  | cons candidate rest ih =>
      have hrest := ih fun other hother => hsignatures other (List.mem_cons_of_mem _ hother)
      have hfirst := hsignatures candidate List.mem_cons_self
      cases count with
      | zero => rfl
      | succ count =>
          rw [regroupedFiles, shownCandidates, List.filter_cons]
          cases count with
          | zero =>
              -- the heading alone: nothing is shown of this file or of a later one
              have hnone (others : List Candidate) : regroupedFiles others 0 = [] := by
                cases others <;> rfl
              simp [hnone]
          | succ count =>
              have hkept : candidate.signatures.take (count + 1) ≠ [] := by
                simpa using hfirst
              simp [hkept, hrest, Nat.add_sub_add_right]

/-! ## Shown and omitted -/

/-- A list of paths and what it leaves of another have together its length and its
members exactly when they are a part of it without repetitions. -/
theorem parted_iff (shown : List String) {paths : List String} (hpaths : paths.Nodup) :
    (shown.length + (paths.filter fun path => !shown.contains path).length =
        paths.length ∧
      ∀ path, (path ∈ shown ∨ path ∈ paths.filter fun path => !shown.contains path) ↔
        path ∈ paths) ↔
      shown.Nodup ∧ ∀ path ∈ shown, path ∈ paths := by
  have hparts : (paths.filter fun path => shown.contains path).length +
      (paths.filter fun path => !shown.contains path).length = paths.length :=
    (List.length_eq_length_filter_add _).symm
  have hheld : (paths.filter fun path => shown.contains path).Nodup := hpaths.filter _
  constructor
  · rintro ⟨hlength, hmem⟩
    refine ⟨?_, fun path hpath => (hmem path).1 (Or.inl hpath)⟩
    have hsubset : (paths.filter fun path => shown.contains path) ⊆ shown := by
      intro path hpath
      simpa using (List.mem_filter.1 hpath).2
    have hperm := (hheld.subperm hsubset).perm_of_length_le (by omega)
    exact hperm.nodup_iff.1 hheld
  · rintro ⟨hnodup, hsubset⟩
    have hperm : (paths.filter fun path => shown.contains path).Perm shown := by
      rw [List.perm_ext_iff_of_nodup hheld hnodup]
      intro path
      rw [List.mem_filter, List.contains_iff_mem]
      exact ⟨And.right, fun hpath => ⟨hsubset path hpath, hpath⟩⟩
    refine ⟨by rw [← hperm.length_eq, hparts], fun path => ?_⟩
    rw [List.mem_filter]
    by_cases hshown : path ∈ shown
    · simp [hshown, hsubset path hshown]
    · simp [hshown]

section Accounting

variable {F : Type*} (arithmetic : Arithmetic F) (input : RepoMapInput)
  (estimator : TokenEstimator)

theorem unitsWithin_isPrefix (tokens : ℕ) :
    input.unitsWithin arithmetic estimator tokens <+:
      unitsOfCandidates (input.candidates arithmetic) := by
  rw [RepoMapInput.unitsWithin, ← emitted_eq_affordable]
  exact emitted_isPrefix _ _ _ _

/-- With no focus both passes take what the budget and the summary leave. -/
theorem emitted_eq_unitsWithin (hfocus : input.focus = none) :
    (input.mapEmission arithmetic estimator).items =
      input.unitsWithin arithmetic estimator
        (input.leftBySummary arithmetic estimator) := by
  have hbudget : input.mapBudget arithmetic estimator = input.budget :=
    mapBudget_of_no_focus arithmetic hfocus input.budget estimator
  have hfull : (input.fullEmission arithmetic estimator).items =
      input.unitsWithin arithmetic estimator input.budget := by
    rw [RepoMapInput.fullEmission, hbudget]
    exact emitted_eq_affordable _ _ _ _
  rw [mapEmission_eq_emit, emitted_eq_affordable, RepoMapInput.reserve, hbudget, hfull]
  rfl

theorem signatures_ne_nil_of_candidate (candidate : Candidate)
    (hcandidate : candidate ∈ input.candidates arithmetic) :
    candidate.signatures ≠ [] := by
  have hkept := (List.mem_filter.1 hcandidate).2
  simpa using hkept

theorem shownPaths_eq (hfocus : input.focus = none) :
    (regroup (input.mapEmission arithmetic estimator).items).map (·.path) =
      (input.affordedPaths arithmetic estimator).map readBack := by
  have hprefix := unitsWithin_isPrefix arithmetic input estimator
    (input.leftBySummary arithmetic estimator)
  rw [emitted_eq_unitsWithin arithmetic input estimator hfocus,
    List.prefix_iff_eq_take.1 hprefix,
    paths_regroup_take (signatures_ne_nil_of_candidate arithmetic input),
    RepoMapInput.affordedPaths, List.map_map]
  rfl

theorem candidatePaths_eq :
    input.candidatePaths arithmetic =
      ((input.ordered arithmetic).filter input.renders).map (·.path) := by
  rw [RepoMapInput.candidatePaths, RepoMapInput.candidates, candidatesOf, List.filter_map,
    List.map_map]
  rfl

theorem mem_candidatePaths (path : String) :
    path ∈ input.candidatePaths arithmetic ↔
      ∃ file ∈ input.mappedFiles, input.renders file = true ∧ file.path = path := by
  have hordered : (input.ordered arithmetic).Perm input.mappedFiles := sortBy_perm _ _
  simp only [candidatePaths_eq, List.mem_map, List.mem_filter, hordered.mem_iff, and_assoc]

theorem nodup_candidatePaths (hpaths : (input.files.map (·.path)).Nodup) :
    (input.candidatePaths arithmetic).Nodup := by
  have hordered : (input.ordered arithmetic).Perm input.mappedFiles := sortBy_perm _ _
  have hmapped := (input.mappedFiles_sublist.map (·.path)).nodup hpaths
  rw [candidatePaths_eq]
  exact (List.filter_sublist.map _).nodup ((hordered.map _).nodup_iff.2 hmapped)

theorem length_candidatePaths :
    (input.candidatePaths arithmetic).length +
        input.filesWithoutPublicDeclarations arithmetic = input.mappedFiles.length := by
  have hordered : (input.ordered arithmetic).Perm input.mappedFiles := sortBy_perm _ _
  have hsplit := List.length_eq_countP_add_countP input.renders
    (l := input.ordered arithmetic)
  rw [candidatePaths_eq, List.length_map, ← List.countP_eq_length_filter,
    ← hordered.length_eq, hsplit, RepoMapInput.filesWithoutPublicDeclarations]
  congr 1
  apply List.countP_congr
  intro file _
  simp [RepoMapInput.renders]

theorem buildRepoMap_of_no_focus (hfocus : input.focus = none) :
    buildRepoMap arithmetic input estimator = input.rankedMap arithmetic estimator := by
  have hmap : input.focusOnly = false := focusOnly_of_no_focus hfocus input.budget
  rw [buildRepoMap, hmap]
  rfl

/-- A map without focus accounts for every file exactly when the headings the
budget affords read back as distinct paths of candidates. -/
theorem map_accounts_iff (hfocus : input.focus = none)
    (hpaths : (input.files.map (·.path)).Nodup) :
    AccountsForFiles arithmetic input estimator
        (buildRepoMap arithmetic input estimator) ↔
      input.HeadingsReadBack arithmetic estimator := by
  have hshown := shownPaths_eq arithmetic input estimator hfocus
  have hfiles : ((buildRepoMap arithmetic input estimator).files.map (·.path)) =
      (input.affordedPaths arithmetic estimator).map readBack := by
    rw [buildRepoMap_of_no_focus arithmetic input estimator hfocus]
    exact hshown
  have homitted : input.omittedPaths arithmetic estimator =
      (input.candidatePaths arithmetic).filter fun path =>
        !((input.affordedPaths arithmetic estimator).map readBack).contains path := by
    rw [RepoMapInput.omittedPaths, omittedFrom, hshown]
  have hlength := length_candidatePaths arithmetic input
  have hparted := parted_iff ((input.affordedPaths arithmetic estimator).map readBack)
    (nodup_candidatePaths arithmetic input hpaths)
  have hmembers : (∀ path ∈ (input.affordedPaths arithmetic estimator).map readBack,
        path ∈ input.candidatePaths arithmetic) ↔
      ∀ path ∈ input.affordedPaths arithmetic estimator,
        readBack path ∈ input.candidatePaths arithmetic := by
    simp
  rw [hmembers, ← homitted] at hparted
  rw [RepoMapInput.HeadingsReadBack, ← hparted]
  have hlengthFiles := congrArg List.length hfiles
  rw [List.length_map] at hlengthFiles
  constructor
  · rintro ⟨hcounts, -, htogether, -⟩
    rw [buildRepoMap_of_no_focus arithmetic input estimator hfocus] at hcounts hlengthFiles
    rw [hfiles] at htogether
    refine ⟨?_, fun path => (htogether path).trans (mem_candidatePaths arithmetic input path).symm⟩
    simp only [RepoMapInput.rankedMap] at hcounts hlengthFiles
    omega
  · rintro ⟨hcounts, htogether⟩
    refine ⟨?_, ?_, ?_, ?_⟩
    · rw [buildRepoMap_of_no_focus arithmetic input estimator hfocus] at hlengthFiles ⊢
      simp only [RepoMapInput.rankedMap] at hlengthFiles ⊢
      omega
    · intro path hpath hleft
      rw [hfiles] at hpath
      rw [homitted, List.mem_filter] at hleft
      simp [hpath] at hleft
    · intro path
      rw [hfiles, htogether path, mem_candidatePaths]
    · rw [buildRepoMap_of_no_focus arithmetic input estimator hfocus]
      exact sum_groupOmitted _

end Accounting

/-- One class in a file of a directory whose name starts like a heading. -/
def headingPathInput : RepoMapInput where
  files :=
    [{ FileSkeleton.new "## a/B.kt" with
        declarations := [Declaration.new .classKind "B" 1] }]
  references := OrderedMap.empty
  budget := 100
  path := []
  compact := false
  focus := none
  fill := false

/-- The one file is shown, as `a/B.kt`, and counted as omitted. -/
theorem heading_path_counted_twice :
    (buildRepoMap rationalArithmetic headingPathInput byteRatioEstimate).files =
        [⟨"a/B.kt", ["class B"]⟩] ∧
      (buildRepoMap rationalArithmetic headingPathInput
        byteRatioEstimate).filesOmitted = 1 ∧
      ¬AccountsForFiles rationalArithmetic headingPathInput byteRatioEstimate
        (buildRepoMap rationalArithmetic headingPathInput byteRatioEstimate) := by
  have hfiles : (buildRepoMap rationalArithmetic headingPathInput
      byteRatioEstimate).files = [⟨"a/B.kt", ["class B"]⟩] := by decide
  have homitted : (buildRepoMap rationalArithmetic headingPathInput
      byteRatioEstimate).filesOmitted = 1 := by decide
  refine ⟨hfiles, homitted, fun haccounts => ?_⟩
  have hcounts := haccounts.counts
  rw [hfiles, homitted] at hcounts
  have htotal : headingPathInput.mappedFiles.length = 1 := rfl
  simp only [List.length_singleton] at hcounts
  omega

def twoClassInput : RepoMapInput :=
  { headingPathInput with
    files :=
      [{ FileSkeleton.new "a/A.kt" with
          declarations := [Declaration.new .classKind "A" 1] },
        { FileSkeleton.new "b/B.kt" with
          declarations := [Declaration.new .classKind "B" 1] }]
    budget := 8 }

theorem two_classes_accounted :
    (buildRepoMap rationalArithmetic twoClassInput byteRatioEstimate).files.length = 1 ∧
      (buildRepoMap rationalArithmetic twoClassInput byteRatioEstimate).filesOmitted = 1 ∧
      AccountsForFiles rationalArithmetic twoClassInput byteRatioEstimate
        (buildRepoMap rationalArithmetic twoClassInput byteRatioEstimate) := by
  refine ⟨by decide, by decide, ?_⟩
  exact (map_accounts_iff rationalArithmetic twoClassInput byteRatioEstimate rfl
    (by decide)).2 ⟨by decide, by decide⟩

end Ktsense.Core
