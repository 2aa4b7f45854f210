import Ktsense.Core.RepoMap

/-!
# The budget of a repository map

The budget is split over the focus section, the two passes of the ranked map
and the summary of what was omitted.  Each subtraction on the way takes away
part of what a pass was given, and the focus and the map agree on which
declarations render, so none of them underflows; the bound that is reported is
the sum of what was emitted.
-/

namespace Ktsense.Core

open Ktsense.Foundation

/-- The summed estimates of a list of units. -/
def unitCost (estimator : TokenEstimator) (units : List MapUnit) : ℕ :=
  (units.map fun unit => estimator unit.text).sum

namespace RepoMapInput

variable {F : Type*} (input : RepoMapInput) (arithmetic : Arithmetic F)
  (estimator : TokenEstimator)

/-- The units of the focus section that were emitted. -/
def emittedFocusUnits : List MapUnit :=
  input.focus.elim [] fun spec =>
    (input.focusEmission arithmetic estimator spec).items

/-- The units of the ranked map that were emitted. -/
def emittedMapUnits : List MapUnit :=
  if input.focusOnly then []
  else (input.mapEmission arithmetic estimator).items

end RepoMapInput

/-- A map stays within its budget, its bound is what its units and its summary
cost, and no subtraction made for it takes more than there is. -/
structure WithinBudget {F : Type*} (arithmetic : Arithmetic F)
    (input : RepoMapInput) (estimator : TokenEstimator) (map : RepoMap) :
    Prop where
  bound_le : map.tokenUpperBound ≤ input.budget
  bound_eq : map.tokenUpperBound =
    unitCost estimator (input.emittedFocusUnits arithmetic estimator) +
      unitCost estimator (input.emittedMapUnits arithmetic estimator) +
      (omittedDirectoriesLine map.omittedDirectories
        map.omittedDirectoriesShown).elim 0 estimator
  focusTokens_le :
    (input.buildFocusSection arithmetic estimator).tokens ≤ input.budget
  reserve_le : input.reserve arithmetic estimator ≤
    input.mapBudget arithmetic estimator
  emission_le : (input.mapEmission arithmetic estimator).tokenUpperBound ≤
    input.mapBudget arithmetic estimator
  matchFiles_le : (input.buildFocusSection arithmetic estimator).matchFiles ≤
    (input.candidatePaths arithmetic).length
  shownMatches_le : ∀ spec, input.focus = some spec →
    input.shownMatches arithmetic estimator spec ≤
      input.totalMatches arithmetic spec
  triedDirectories_le : ∀ shown ∈ List.range' 1
      (input.omittedDirectories arithmetic estimator).length,
    shown ≤ (input.omittedDirectories arithmetic estimator).length
  shownDirectories_le :
    map.omittedDirectoriesShown ≤ map.omittedDirectories.length

/-! ## Signatures -/

theorem isSome_renderedSignature (file : FileSkeleton) (compact : Bool)
    (declaration : Declaration) :
    (renderedSignature file compact declaration).isSome =
      (signatureOf file declaration).isSome := by
  rw [renderedSignature, Option.isSome_map]

theorem mem_inReferenceOrder (ranking : Ranking) (file : FileSkeleton)
    (declarations : List Declaration) (declaration : Declaration) :
    declaration ∈ ranking.inReferenceOrder file declarations ↔
      declaration ∈ declarations :=
  (sortBy_perm _ declarations).mem_iff

theorem filterMap_ne_nil_iff {A B : Type*} (items : List A) (value : A → Option B) :
    items.filterMap value ≠ [] ↔ ∃ item ∈ items, (value item).isSome := by
  rw [Ne, List.filterMap_eq_nil_iff]
  push Not
  simp only [Option.ne_none_iff_isSome]

/-- A file with a match has a signature to map. -/
theorem signatures_ne_nil_of_matching {file : FileSkeleton} {ranking : Ranking}
    {matcher : String → Bool} (compact : Bool)
    (hmatching : matchingSignatures file ranking matcher ≠ []) :
    signaturesInReferenceOrder file ranking compact ≠ [] := by
  obtain ⟨declaration, hmem, hsome⟩ := (filterMap_ne_nil_iff _ _).1 hmatching
  rw [mem_inReferenceOrder] at hmem
  apply (filterMap_ne_nil_iff _ _).2
  refine ⟨declaration, ?_, ?_⟩
  · rw [mem_inReferenceOrder]
    exact List.mem_of_mem_filter hmem
  · rw [isSome_renderedSignature] at hsome ⊢
    exact hsome

theorem length_candidatesOf (ordered : List FileSkeleton)
    (signatures : FileSkeleton → List String) :
    (candidatesOf ordered signatures).length =
      ordered.countP fun file => !(signatures file).isEmpty := by
  rw [candidatesOf, ← List.countP_eq_length_filter, List.countP_map]
  rfl

/-! ## Regrouping -/

/-- The declarations a list of files holds. -/
def heldDeclarations (files : List MappedFile) : ℕ :=
  (files.map fun file => file.declarations.length).sum

theorem heldDeclarations_append (left right : List MappedFile) :
    heldDeclarations (left ++ right) =
      heldDeclarations left + heldDeclarations right := by
  simp [heldDeclarations]

theorem heldDeclarations_pushDeclaration_le (text : String)
    (files : List MappedFile) :
    heldDeclarations (pushDeclaration text files) ≤ heldDeclarations files + 1 := by
  fun_induction pushDeclaration text files with
  | case1 => exact Nat.zero_le _
  | case2 file => simp [heldDeclarations]
  | case3 file next rest ih =>
      simp only [heldDeclarations, List.map_cons, List.sum_cons] at ih ⊢
      omega

/-- Regrouping holds at most the declarations among the units. -/
theorem heldDeclarations_foldl_le (files : List MappedFile)
    (units : List MapUnit) :
    heldDeclarations (units.foldl regroupUnit files) ≤
      heldDeclarations files + units.countP (!·.isHeader) := by
  induction units generalizing files with
  | nil => exact Nat.le_refl _
  | cons unit rest ih =>
      rw [List.foldl_cons, List.countP_cons]
      refine (ih _).trans ?_
      cases hheader : unit.isHeader with
      | true =>
          rw [regroupUnit, if_pos hheader, heldDeclarations_append]
          simp [heldDeclarations]
      | false =>
          have hpush := heldDeclarations_pushDeclaration_le unit.text files
          rw [regroupUnit, if_neg (by simp [hheader])]
          simp only [Bool.not_false, if_true]
          omega

theorem heldDeclarations_filter_le (files : List MappedFile)
    (kept : MappedFile → Bool) :
    heldDeclarations (files.filter kept) ≤ heldDeclarations files :=
  (List.filter_sublist.map _).sum_le_sum (by simp)

theorem heldDeclarations_regroup_le (units : List MapUnit) :
    heldDeclarations (regroup units) ≤ units.countP (!·.isHeader) := by
  have hfold := heldDeclarations_foldl_le [] units
  have hfilter := heldDeclarations_filter_le (units.foldl regroupUnit [])
    fun file => !file.declarations.isEmpty
  simp only [heldDeclarations, List.map_nil, List.sum_nil, Nat.zero_add] at hfold
  exact hfilter.trans hfold

/-- The signatures among the units are those of the candidates. -/
theorem countP_unitsOfCandidates (candidates : List Candidate) :
    (unitsOfCandidates candidates).countP (!·.isHeader) =
      (candidates.map fun candidate => candidate.signatures.length).sum := by
  have hunits : ∀ (candidate : Candidate) (index : ℕ),
      (candidate.units index).countP (!·.isHeader) =
        candidate.signatures.length := by
    intro candidate index
    rw [Candidate.units, List.countP_cons_of_neg (by simp [MapUnit.header,
      MapUnit.isHeader]), List.countP_map, List.countP_eq_length]
    simp [MapUnit.declaration, MapUnit.isHeader]
  rw [unitsOfCandidates, List.countP_flatMap]
  simp only [Function.comp_def, hunits]
  conv_rhs => rw [← List.zipIdx_map_fst 0 candidates, List.map_map]
  rfl

/-! ## The summary -/

theorem fitDirectories_spec (directories : List OmittedDirectory) (room : ℕ)
    (estimator : TokenEstimator) :
    fitDirectories directories room estimator ≤ directories.length ∧
      (omittedDirectoriesLine directories
        (fitDirectories directories room estimator)).elim 0 estimator ≤ room := by
  rw [fitDirectories]
  cases hfind : (List.range' 1 directories.length).reverse.find?
      (lineFits directories room estimator) with
  | none => simp [omittedDirectoriesLine]
  | some shown =>
      have hmem := List.mem_of_find?_eq_some hfind
      rw [List.mem_reverse, List.mem_range'_1] at hmem
      refine ⟨by simp only [Option.getD_some]; omega, ?_⟩
      have hfits := List.find?_some hfind
      rw [lineFits] at hfits
      rw [Option.getD_some]
      cases hline : omittedDirectoriesLine directories shown with
      | none => exact Nat.zero_le _
      | some line =>
          rw [hline] at hfits
          simpa using hfits

theorem summaryReserve_le (dropped : List String) (budget : ℕ)
    (estimator : TokenEstimator) :
    summaryReserve dropped budget estimator ≤ budget := by
  rw [summaryReserve]
  split_ifs
  · exact Nat.zero_le _
  · exact (min_le_right _ _).trans (Nat.div_le_self _ _)

/-! ## The passes -/

section Passes

variable {F : Type*} (arithmetic : Arithmetic F) (input : RepoMapInput)
  (estimator : TokenEstimator)

theorem focusTokens_eq :
    (input.buildFocusSection arithmetic estimator).tokens =
      unitCost estimator (input.emittedFocusUnits arithmetic estimator) := by
  rw [RepoMapInput.buildFocusSection, RepoMapInput.emittedFocusUnits]
  cases input.focus with
  | none => rfl
  | some spec => exact tokenUpperBound_eq_sum _ _ _ _

theorem focusTokens_le_budget :
    (input.buildFocusSection arithmetic estimator).tokens ≤ input.budget := by
  rw [RepoMapInput.buildFocusSection]
  cases input.focus with
  | none => exact Nat.zero_le _
  | some spec => exact tokenUpperBound_le_budget _ _ _ _

theorem focusTokens_add_mapBudget :
    (input.buildFocusSection arithmetic estimator).tokens +
      input.mapBudget arithmetic estimator = input.budget := by
  have hle := focusTokens_le_budget arithmetic input estimator
  rw [RepoMapInput.mapBudget, wrappingSub_of_le hle]
  omega

theorem reserve_le_mapBudget :
    input.reserve arithmetic estimator ≤ input.mapBudget arithmetic estimator :=
  summaryReserve_le _ _ _

theorem mapEmission_le_mapBudget :
    (input.mapEmission arithmetic estimator).tokenUpperBound ≤
      input.mapBudget arithmetic estimator := by
  have hreserve := reserve_le_mapBudget arithmetic input estimator
  rw [RepoMapInput.mapEmission]
  split_ifs
  · exact tokenUpperBound_le_budget _ _ _ _
  · refine (tokenUpperBound_le_budget _ _ _ _).trans ?_
    rw [wrappingSub_of_le hreserve]
    exact Nat.sub_le _ _

theorem mapEmission_eq :
    (input.mapEmission arithmetic estimator).tokenUpperBound =
      unitCost estimator (input.mapEmission arithmetic estimator).items := by
  rw [RepoMapInput.mapEmission]
  split_ifs
  · exact tokenUpperBound_eq_sum _ _ _ _
  · exact tokenUpperBound_eq_sum _ _ _ _

theorem mapEmission_add_summaryCost_le :
    (input.mapEmission arithmetic estimator).tokenUpperBound +
      input.summaryCost arithmetic estimator ≤
        input.mapBudget arithmetic estimator := by
  have hemission := mapEmission_le_mapBudget arithmetic input estimator
  have hroom : input.roomForSummary arithmetic estimator =
      input.mapBudget arithmetic estimator -
        (input.mapEmission arithmetic estimator).tokenUpperBound :=
    wrappingSub_of_le hemission
  have hcost : input.summaryCost arithmetic estimator ≤
      input.roomForSummary arithmetic estimator :=
    (fitDirectories_spec _ _ _).2
  omega

theorem matchFiles_le_candidates :
    (input.buildFocusSection arithmetic estimator).matchFiles ≤
      (input.candidatePaths arithmetic).length := by
  rw [RepoMapInput.buildFocusSection, RepoMapInput.candidatePaths,
    List.length_map]
  cases input.focus with
  | none => exact Nat.zero_le _
  | some spec =>
      simp only [RepoMapInput.focusCandidates, RepoMapInput.candidates,
        length_candidatesOf]
      apply List.countP_mono_left
      intro file _ hmatching
      have hne : matchingSignatures file input.ranking spec.matcher ≠ [] := by
        simpa using hmatching
      simpa using signatures_ne_nil_of_matching input.compact hne

theorem shownMatches_le_totalMatches (spec : FocusSpec) :
    input.shownMatches arithmetic estimator spec ≤
      input.totalMatches arithmetic spec := by
  have hinitial : (input.focusEmission arithmetic estimator spec).items <+:
      unitsOfCandidates (input.focusCandidates arithmetic spec) :=
    emitted_isPrefix _ _ _ _
  calc
    _ ≤ (input.focusEmission arithmetic estimator spec).items.countP
          (!·.isHeader) :=
      heldDeclarations_regroup_le _
    _ ≤ (unitsOfCandidates (input.focusCandidates arithmetic spec)).countP
          (!·.isHeader) :=
      hinitial.sublist.countP_le
    _ = input.totalMatches arithmetic spec :=
      countP_unitsOfCandidates _

end Passes

/-- Every map stays within its budget, and no subtraction on the way to it
underflows. -/
theorem buildRepoMap_within_budget {F : Type*} (arithmetic : Arithmetic F)
    (input : RepoMapInput) (estimator : TokenEstimator) :
    WithinBudget arithmetic input estimator
      (buildRepoMap arithmetic input estimator) where
  bound_le := by
    have htotal := focusTokens_add_mapBudget arithmetic input estimator
    have hsummary := mapEmission_add_summaryCost_le arithmetic input estimator
    rw [buildRepoMap]
    split_ifs
    · exact focusTokens_le_budget arithmetic input estimator
    · simp only [RepoMapInput.rankedMap]
      omega
  bound_eq := by
    rw [buildRepoMap, ← focusTokens_eq, RepoMapInput.emittedMapUnits]
    split_ifs
    · simp [RepoMapInput.focusOnlyMap, unitCost, omittedDirectoriesLine]
    · rw [← mapEmission_eq]
      simp only [RepoMapInput.rankedMap, RepoMapInput.summaryCost]
  focusTokens_le := focusTokens_le_budget arithmetic input estimator
  reserve_le := reserve_le_mapBudget arithmetic input estimator
  emission_le := mapEmission_le_mapBudget arithmetic input estimator
  matchFiles_le := matchFiles_le_candidates arithmetic input estimator
  shownMatches_le spec _ :=
    shownMatches_le_totalMatches arithmetic input estimator spec
  triedDirectories_le shown hshown := by
    rw [List.mem_range'_1] at hshown
    omega
  shownDirectories_le := by
    rw [buildRepoMap]
    split_ifs
    · simp only [RepoMapInput.focusOnlyMap, Nat.zero_le]
    · simp only [RepoMapInput.rankedMap, RepoMapInput.directoriesShown]
      exact (fitDirectories_spec _ _ _).1

end Ktsense.Core
