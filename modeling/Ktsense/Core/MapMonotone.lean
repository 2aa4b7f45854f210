import Ktsense.Core.MapBudget

/-!
# A larger budget shows more

What is held back for the summary of omitted directories grows with the budget,
a quarter as fast, and shrinks with the number of files dropped, so what is left
for the map never shrinks.
-/

namespace Ktsense.Core

open Ktsense.Foundation

/-! ## The length of the summary line -/

theorem byteLength_toString_le {small large : ℕ} (hle : small ≤ large) :
    byteLength (toString small) ≤ byteLength (toString large) := by
  have hlength : ∀ number : ℕ,
      byteLength (toString number) = (Nat.toDigits 10 number).length := by
    intro number
    have hbytes : ∀ letter ∈ Nat.toDigits 10 number,
        (String.utf8EncodeChar letter).length = 1 := by
      intro letter hletter
      have hdigit := Nat.isDigit_of_mem_toDigits (by decide) (by decide) hletter
      have hsize : decimalDigits.all
          fun digit => (String.utf8EncodeChar digit).length = 1 := by decide
      simpa using List.all_eq_true.1 hsize letter (mem_of_isDigit hdigit)
    have hlist : (toString number).toList = Nat.toDigits 10 number := by
      rw [Nat.toString_eq_repr, Nat.repr_eq_ofList_toDigits, String.toList_ofList]
    rw [byteLength, utf8, hlist, List.length_flatMap,
      List.map_congr_left hbytes]
    simp
  rw [hlength, hlength,
    Nat.length_toDigits_le_iff (by decide) Nat.length_toDigits_pos]
  refine hle.trans_lt ?_
  exact (Nat.length_toDigits_le_iff (by decide) Nat.length_toDigits_pos).1 le_rfl

/-- A directory as the summary names it. -/
def omittedEntry (directory : OmittedDirectory) : String :=
  directory.path ++ " (" ++ toString directory.files ++ ")"

/-- The bytes of a named directory and of the comma that separates it. -/
def entryBytes (path : String) (files : ℕ) : ℕ :=
  byteLength (omittedEntry ⟨path, files⟩) + 2

theorem entryBytes_le (path : String) {small large : ℕ} (hle : small ≤ large) :
    entryBytes path small ≤ entryBytes path large := by
  have hdigits := byteLength_toString_le hle
  simp only [entryBytes, omittedEntry, byteLength_append]
  omega

theorem byteLength_intercalate (texts : List String) (hne : texts ≠ []) :
    byteLength (", ".intercalate texts) + 2 =
      (texts.map fun text => byteLength text + 2).sum := by
  induction texts with
  | nil => exact absurd rfl hne
  | cons text rest ih =>
      cases rest with
      | nil => simp
      | cons next rest =>
          have hrest := ih (by simp)
          have hcomma : byteLength ", " = 2 := rfl
          rw [String.intercalate_cons_cons, byteLength_append,
            byteLength_append, List.map_cons, List.sum_cons, ← hrest, hcomma]
          omega

/-- The files of each directory. -/
def directoryCounts (paths : List String) : OrderedMap String ℕ :=
  (paths.map parentDirectory).foldl countKey OrderedMap.empty

theorem sum_entryBytes (paths : List String) :
    ((groupOmitted paths).map fun directory =>
      byteLength (omittedEntry directory) + 2).sum =
      (directoryCounts paths).total entryBytes := by
  rw [groupOmitted, ← directoryCounts, ((sortBy_perm _ _).map _).sum_eq, List.map_map]
  rfl

theorem groupOmitted_ne_nil {paths : List String} (hne : paths ≠ []) :
    groupOmitted paths ≠ [] := by
  obtain ⟨path, hpath⟩ := List.exists_mem_of_ne_nil paths hne
  have hkey : parentDirectory path ∈ paths.map parentDirectory :=
    List.mem_map_of_mem hpath
  have hget := get?_foldl_countKey (paths.map parentDirectory)
    (parentDirectory path)
  rw [if_pos hkey, ← directoryCounts, ← OrderedMap.mem_entries_iff] at hget
  intro hnil
  have hsum := sum_entryBytes paths
  rw [hnil, List.map_nil, List.sum_nil, OrderedMap.total] at hsum
  have hpart := List.single_le_sum (by simp) _ (List.mem_map_of_mem
    (f := fun entry : String × ℕ => entryBytes entry.1 entry.2) hget)
  rw [← hsum, entryBytes] at hpart
  omega

/-- The line that names every directory. -/
def fullLine (paths : List String) : String :=
  (omittedDirectoriesLine (groupOmitted paths) (groupOmitted paths).length).getD ""

theorem fullLine_eq {paths : List String} (hne : paths ≠ []) :
    fullLine paths =
      "Omitted: " ++ ", ".intercalate ((groupOmitted paths).map omittedEntry) := by
  have hgroups := groupOmitted_ne_nil hne
  rw [fullLine, omittedDirectoriesLine, if_neg (by simpa using hgroups),
    List.take_length, wrappingSub_of_le le_rfl, Nat.sub_self, Option.getD_some,
    if_neg (lt_irrefl 0), String.append_empty]
  rfl

theorem byteLength_fullLine {paths : List String} (hne : paths ≠ []) :
    byteLength (fullLine paths) + 2 =
      byteLength "Omitted: " + (directoryCounts paths).total entryBytes := by
  have hgroups := groupOmitted_ne_nil hne
  have hnamed := byteLength_intercalate
    ((groupOmitted paths).map omittedEntry) (by simpa using hgroups)
  have hsum := sum_entryBytes paths
  rw [List.map_map, Function.comp_def, hsum] at hnamed
  rw [fullLine_eq hne, byteLength_append]
  omega

/-- Fewer omitted files make no longer line. -/
theorem byteLength_fullLine_le {few many : List String} (hne : few ≠ [])
    (hsublist : few.Sublist many) :
    byteLength (fullLine few) ≤ byteLength (fullLine many) := by
  have hmany : many ≠ [] := fun hnil => hne (List.sublist_nil.1 (hnil ▸ hsublist))
  have hkeys := hsublist.map parentDirectory
  have htotal : (directoryCounts few).total entryBytes ≤
      (directoryCounts many).total entryBytes := by
    apply OrderedMap.total_le_total
    intro key value hvalue
    rw [directoryCounts, get?_foldl_countKey] at hvalue
    simp only [Option.ite_none_right_eq_some, Option.some.injEq] at hvalue
    obtain ⟨hmem, rfl⟩ := hvalue
    refine ⟨_, ?_, entryBytes_le key (hkeys.count_le key)⟩
    rw [directoryCounts, get?_foldl_countKey, if_pos (hkeys.subset hmem)]
  have hfew := byteLength_fullLine hne
  have hmore := byteLength_fullLine hmany
  omega

/-! ## What is left for the map -/

theorem byteRatioEstimate_le {short long : String}
    (hle : byteLength short ≤ byteLength long) :
    byteRatioEstimate short ≤ byteRatioEstimate long := by
  simp only [byteRatioEstimate]
  omega

/-- With fewer files dropped out of a larger budget, what is left is no less. -/
theorem left_le_left {few many : List String} (hsublist : few.Sublist many)
    {smaller larger : ℕ} (hle : smaller ≤ larger) :
    smaller - summaryReserve many smaller byteRatioEstimate ≤
      larger - summaryReserve few larger byteRatioEstimate := by
  by_cases hfew : few = []
  · rw [hfew]
    simp only [summaryReserve, List.isEmpty_nil, if_true]
    omega
  · have hmany : many ≠ [] := fun hnil => hfew (List.sublist_nil.1 (hnil ▸ hsublist))
    have hcost := byteRatioEstimate_le (byteLength_fullLine_le hfew hsublist)
    rw [fullLine, fullLine] at hcost
    rw [summaryReserve, summaryReserve, if_neg (by simpa using hmany),
      if_neg (by simpa using hfew)]
    simp only [omissionSummaryBudgetFraction]
    omega

/-! ## What is shown -/

/-- Every shown signature with its file, in order. -/
def shownPairs (files : List MappedFile) : List (String × String) :=
  files.flatMap fun file => file.declarations.map fun text => (file.path, text)

theorem shownPairs_append (left right : List MappedFile) :
    shownPairs (left ++ right) = shownPairs left ++ shownPairs right :=
  List.flatMap_append

theorem shownPairs_filter (files : List MappedFile) :
    shownPairs (files.filter fun file => !file.declarations.isEmpty) =
      shownPairs files := by
  induction files with
  | nil => rfl
  | cons file rest ih =>
      rw [List.filter_cons]
      cases hdeclarations : file.declarations with
      | nil => simpa [shownPairs, hdeclarations] using ih
      | cons text texts =>
          simp only [shownPairs, List.flatMap_cons] at ih ⊢
          simpa [hdeclarations] using ih

theorem shownPairs_pushDeclaration (text : String) (files : List MappedFile) :
    shownPairs files <+: shownPairs (pushDeclaration text files) := by
  fun_induction pushDeclaration text files with
  | case1 => exact List.prefix_rfl
  | case2 file => simp [shownPairs]
  | case3 file next rest ih =>
      rw [← List.singleton_append, shownPairs_append,
        ← List.singleton_append (l := pushDeclaration text (next :: rest)),
        shownPairs_append]
      exact (List.prefix_append_right_inj _).2 ih

/-- A unit shows one signature more, or none. -/
theorem shownPairs_regroupUnit (files : List MappedFile) (unit : MapUnit) :
    shownPairs files <+: shownPairs (regroupUnit files unit) := by
  rw [regroupUnit]
  split_ifs
  · rw [shownPairs_append]
    exact List.prefix_append _ _
  · exact shownPairs_pushDeclaration _ _

theorem shownPairs_foldl (files : List MappedFile) (units : List MapUnit) :
    shownPairs files <+: shownPairs (units.foldl regroupUnit files) := by
  induction units generalizing files with
  | nil => exact List.prefix_rfl
  | cons unit rest ih => exact (shownPairs_regroupUnit files unit).trans (ih _)

theorem shownPairs_regroup_mono {few many : List MapUnit}
    (hinitial : few <+: many) :
    shownPairs (regroup few) <+: shownPairs (regroup many) := by
  obtain ⟨rest, rfl⟩ := hinitial
  rw [regroup, regroup, shownPairs_filter, shownPairs_filter, List.foldl_append]
  exact shownPairs_foldl _ _

theorem mem_paths_regroup (units : List MapUnit) (path : String) :
    path ∈ (regroup units).map (·.path) ↔
      ∃ text, (path, text) ∈ shownPairs (regroup units) := by
  have hshown : ∀ file ∈ regroup units, file.declarations ≠ [] := by
    intro file hfile
    have hkept := (List.mem_filter.1 hfile).2
    simpa using hkept
  simp only [List.mem_map, shownPairs, List.mem_flatMap, Prod.mk.injEq]
  constructor
  · rintro ⟨file, hfile, rfl⟩
    obtain ⟨text, htext⟩ := List.exists_mem_of_ne_nil _ (hshown file hfile)
    exact ⟨text, file, hfile, text, htext, rfl, rfl⟩
  · rintro ⟨text, file, hfile, _, _, hpath, _⟩
    exact ⟨file, hfile, hpath⟩

/-- More units drop fewer files. -/
theorem omittedFrom_sublist (paths : List String) {few many : List MapUnit}
    (hinitial : few <+: many) :
    (omittedFrom paths many).Sublist (omittedFrom paths few) := by
  apply List.monotone_filter_right
  intro path hpath
  simp only [Bool.not_eq_true', List.contains_eq_mem, decide_eq_false_iff_not,
    mem_paths_regroup] at hpath ⊢
  rintro ⟨text, htext⟩
  exact hpath ⟨text, (shownPairs_regroup_mono hinitial).subset htext⟩

/-! ## Two budgets -/

section TwoBudgets

variable {F : Type*} (arithmetic : Arithmetic F) (input : RepoMapInput)

/-- Both passes are one emission within what the summary leaves. -/
theorem mapEmission_eq_emit (estimator : TokenEstimator) :
    input.mapEmission arithmetic estimator =
      emitWithinBudget MapUnit.text
        (unitsOfCandidates (input.candidates arithmetic))
        (input.mapBudget arithmetic estimator -
          input.reserve arithmetic estimator) estimator := by
  have hreserve := reserve_le_mapBudget arithmetic input estimator
  rw [RepoMapInput.mapEmission, wrappingSub_of_le hreserve]
  split_ifs with hzero
  · rw [hzero, Nat.sub_zero]
    rfl
  · rfl

variable {input} (hfocus : input.focus = none)
include hfocus

theorem mapBudget_of_no_focus (budget : ℕ) (estimator : TokenEstimator) :
    { input with budget }.mapBudget arithmetic estimator = budget := by
  simp only [RepoMapInput.mapBudget, RepoMapInput.buildFocusSection, hfocus]
  exact wrappingSub_of_le (Nat.zero_le _)

theorem focusOnly_of_no_focus (budget : ℕ) :
    { input with budget }.focusOnly = false := by
  simp [RepoMapInput.focusOnly, hfocus]

theorem emittedMapUnits_mono {smaller larger : ℕ} (hle : smaller ≤ larger) :
    { input with budget := smaller }.emittedMapUnits arithmetic byteRatioEstimate <+:
      { input with budget := larger }.emittedMapUnits arithmetic
        byteRatioEstimate := by
  have hfull : ({ input with budget := smaller }.fullEmission arithmetic
        byteRatioEstimate).items <+:
      ({ input with budget := larger }.fullEmission arithmetic
        byteRatioEstimate).items := by
    rw [RepoMapInput.fullEmission, RepoMapInput.fullEmission,
      mapBudget_of_no_focus arithmetic hfocus,
      mapBudget_of_no_focus arithmetic hfocus]
    exact emitted_isPrefix_of_le _ _ _ _ hle
  have hdropped := omittedFrom_sublist (input.candidatePaths arithmetic) hfull
  have hleft := left_le_left hdropped hle
  simp only [RepoMapInput.emittedMapUnits, focusOnly_of_no_focus hfocus,
    mapEmission_eq_emit, mapBudget_of_no_focus arithmetic hfocus]
  apply emitted_isPrefix_of_le
  simp only [RepoMapInput.reserve, mapBudget_of_no_focus arithmetic hfocus]
  exact hleft

theorem files_buildRepoMap (budget : ℕ) (estimator : TokenEstimator) :
    (buildRepoMap arithmetic { input with budget } estimator).files =
      regroup ({ input with budget }.emittedMapUnits arithmetic estimator) := by
  simp [buildRepoMap, RepoMapInput.emittedMapUnits, focusOnly_of_no_focus hfocus,
    RepoMapInput.rankedMap]

end TwoBudgets

/-- With no focus, a larger budget emits the same units and then more, and shows
the same signatures of the same files and then more. -/
theorem buildRepoMap_monotone {F : Type*} (arithmetic : Arithmetic F)
    (input : RepoMapInput) (hfocus : input.focus = none) {smaller larger : ℕ}
    (hle : smaller ≤ larger) :
    { input with budget := smaller }.emittedMapUnits arithmetic byteRatioEstimate <+:
        { input with budget := larger }.emittedMapUnits arithmetic
          byteRatioEstimate ∧
      shownPairs (buildRepoMap arithmetic { input with budget := smaller }
          byteRatioEstimate).files <+:
        shownPairs (buildRepoMap arithmetic { input with budget := larger }
          byteRatioEstimate).files := by
  have hunits := emittedMapUnits_mono arithmetic hfocus hle
  refine ⟨hunits, ?_⟩
  rw [files_buildRepoMap arithmetic hfocus, files_buildRepoMap arithmetic hfocus]
  exact shownPairs_regroup_mono hunits

/-- A file with two classes. -/
def twoClassesInput : RepoMapInput where
  files :=
    [{ FileSkeleton.new "A.kt" with
        declarations :=
          [Declaration.new .classKind "B" 1, Declaration.new .classKind "C" 2] }]
  references := OrderedMap.empty
  budget := 0
  path := []
  compact := false
  focus := none
  fill := false

theorem twoClasses_monotone :
    shownPairs (buildRepoMap rationalArithmetic
        { twoClassesInput with budget := 4 } byteRatioEstimate).files =
      [("A.kt", "class B")] ∧
    shownPairs (buildRepoMap rationalArithmetic
        { twoClassesInput with budget := 4 } byteRatioEstimate).files <+:
      shownPairs (buildRepoMap rationalArithmetic
        { twoClassesInput with budget := 6 } byteRatioEstimate).files :=
  ⟨by decide,
    (buildRepoMap_monotone rationalArithmetic twoClassesInput rfl
      (by decide)).2⟩

end Ktsense.Core
