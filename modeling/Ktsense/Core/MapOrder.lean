import Ktsense.Core.ImportLevels
import Ktsense.Core.RepoMap

/-!
# Maps and traversal order

Files reach `build_repo_map` in the order of a directory walk.  Whatever is
gathered over all of them is counted or sorted, and the order of the map ends
in a comparison of paths, so the walk leaves no trace in the map.
-/

namespace Ktsense.Core

open Ktsense.Foundation

variable {left right : List FileSkeleton}

theorem importerCounts_perm (hperm : left.Perm right) :
    importerCounts left = importerCounts right := by
  apply OrderedMap.ext_get?
  intro key
  have himports := (hperm.flatMap_right FileSkeleton.imports).filter
    fun imported => !endsWith imported ".*"
  rw [importerCounts, importerCounts, get?_foldl_countKey, get?_foldl_countKey]
  simp only [himports.mem_iff, himports.count_eq]

theorem restrictToPath_perm (hperm : left.Perm right) (substrings : List String) :
    ((restrictToPath left substrings).getD left).Perm
      ((restrictToPath right substrings).getD right) := by
  rw [restrictToPath, restrictToPath]
  split_ifs
  · exact hperm
  · exact hperm.filter _

theorem packageScores_perm {F : Type*} (arithmetic : Arithmetic F)
    (hperm : left.Perm right) :
    packageScores arithmetic left = packageScores arithmetic right := by
  have hgraph : buildImportGraph left .package = buildImportGraph right .package :=
    buildImportGraph_congr right (fun _ => hperm.mem_iff) .package
  simp only [packageScores, hgraph]

theorem cmpWeight_transCmp : Std.TransCmp Ranking.cmpWeight := by
  have hfirst := transCmp_comap (inferInstance : Std.TransCmp
    (compare : ℕ → ℕ → Ordering)) (Prod.fst : ℕ × ℕ → ℕ)
  have hsecond := transCmp_comap (inferInstance : Std.TransCmp
    (compare : ℕ → ℕ → Ordering)) (Prod.snd : ℕ × ℕ → ℕ)
  exact inferInstanceAs (Std.TransCmp (compareLex _ _))

namespace RepoMapInput

variable {F : Type*} (arithmetic : Arithmetic F) (input : RepoMapInput)
  {files : List FileSkeleton}

/-- The same request about files in another order. -/
def reordered (files : List FileSkeleton) : RepoMapInput := { input with files }

theorem mappedFiles_perm (hperm : files.Perm input.files) :
    (input.reordered files).mappedFiles.Perm input.mappedFiles :=
  restrictToPath_perm hperm input.path

theorem mappedFiles_sublist : input.mappedFiles.Sublist input.files := by
  rw [mappedFiles, restrictToPath]
  split_ifs
  · exact List.Sublist.refl _
  · exact List.filter_sublist

theorem pathFilter_reordered (hperm : files.Perm input.files) :
    (input.reordered files).pathFilter = input.pathFilter := by
  have hmapped := (input.mappedFiles_perm hperm).length_eq
  rw [pathFilter, pathFilter, hmapped]
  simp only [reordered, hperm.length_eq]

theorem ranking_reordered (hperm : files.Perm input.files) :
    (input.reordered files).ranking = input.ranking := by
  rw [ranking, ranking, importerCounts_perm (input.mappedFiles_perm hperm)]
  rfl

/-- The comparison the files of a map are sorted by. -/
def compareFiles (left right : FileSkeleton) : Ordering :=
  let scores := packageScores arithmetic input.mappedFiles
  ((arithmetic.cmp (scoreOf arithmetic scores right)
      (scoreOf arithmetic scores left)).then
    (Ranking.cmpWeight (input.ranking.fileWeight right)
      (input.ranking.fileWeight left))).then
    (compare left.path right.path)

theorem ordered_eq :
    input.ordered arithmetic =
      sortBy (input.compareFiles arithmetic) input.mappedFiles := rfl

theorem compareFiles_transCmp (hcmp : Std.TransCmp arithmetic.cmp) :
    Std.TransCmp (input.compareFiles arithmetic) := by
  have hscore := transCmp_comap hcmp
    (scoreOf arithmetic (packageScores arithmetic input.mappedFiles))
  have hweight := transCmp_comap cmpWeight_transCmp input.ranking.fileWeight
  have hpath := transCmp_comap (inferInstance : Std.TransCmp
    (compare : String → String → Ordering)) FileSkeleton.path
  have hscores := hscore.opposite
  have hweights := hweight.opposite
  exact inferInstanceAs (Std.TransCmp (compareLex (compareLex _ _) _))

theorem ordered_reordered (hcmp : Std.TransCmp arithmetic.cmp)
    (hperm : files.Perm input.files)
    (hpaths : (input.files.map (·.path)).Nodup) :
    (input.reordered files).ordered arithmetic = input.ordered arithmetic := by
  have hmapped := input.mappedFiles_perm hperm
  have hcompare : (input.reordered files).compareFiles arithmetic =
      input.compareFiles arithmetic := by
    funext first second
    rw [compareFiles, compareFiles, packageScores_perm arithmetic hmapped,
      input.ranking_reordered hperm]
  have hdistinct : (input.mappedFiles.map (·.path)).Nodup :=
    (input.mappedFiles_sublist.map _).nodup hpaths
  rw [ordered_eq, ordered_eq, hcompare]
  apply sortBy_eq_of_perm (input.compareFiles_transCmp arithmetic hcmp) hmapped
  intro first hfirst second hsecond heq
  simp only [compareFiles, Ordering.then_eq_eq, compare_eq_iff_eq] at heq
  exact List.inj_on_of_nodup_map hdistinct (hmapped.mem_iff.1 hfirst)
    (hmapped.mem_iff.1 hsecond) heq.2

end RepoMapInput

/-- The map of the same files in another order is the same map. -/
theorem buildRepoMap_reordered {F : Type*} (arithmetic : Arithmetic F)
    (hcmp : Std.TransCmp arithmetic.cmp) (input : RepoMapInput)
    (hpaths : (input.files.map (·.path)).Nodup) (files : List FileSkeleton)
    (hperm : files.Perm input.files) (estimator : TokenEstimator) :
    buildRepoMap arithmetic { input with files } estimator =
      buildRepoMap arithmetic input estimator := by
  have hordered := input.ordered_reordered arithmetic hcmp hperm hpaths
  have hranking := input.ranking_reordered hperm
  have hfilter := input.pathFilter_reordered hperm
  change buildRepoMap arithmetic (input.reordered files) estimator = _
  simp only [buildRepoMap, RepoMapInput.focusOnlyMap, RepoMapInput.rankedMap,
    RepoMapInput.summaryCost, RepoMapInput.directoriesShown,
    RepoMapInput.roomForSummary, RepoMapInput.omittedDirectories,
    RepoMapInput.omittedPaths, RepoMapInput.mapEmission, RepoMapInput.reserve,
    RepoMapInput.fullEmission, RepoMapInput.mapBudget,
    RepoMapInput.buildFocusSection, RepoMapInput.shownMatches,
    RepoMapInput.totalMatches, RepoMapInput.focusEmission,
    RepoMapInput.focusCandidates, RepoMapInput.candidatePaths,
    RepoMapInput.candidates, RepoMapInput.filesWithoutPublicDeclarations,
    hordered, hranking, hfilter]
  rfl

/-- The files of two packages, one of which imports the other. -/
def twoFilesInput : RepoMapInput where
  files :=
    [{ FileSkeleton.new "a/A.kt" with
        package := some "a"
        imports := ["b.B"]
        declarations := [Declaration.new .classKind "A" 3] },
      { FileSkeleton.new "b/B.kt" with
        package := some "b"
        declarations := [Declaration.new .classKind "B" 3] }]
  references := OrderedMap.empty
  budget := 100
  path := []
  compact := false
  focus := none
  fill := false

theorem twoFiles_reversed :
    buildRepoMap rationalArithmetic
        { twoFilesInput with files := twoFilesInput.files.reverse }
        byteRatioEstimate =
      buildRepoMap rationalArithmetic twoFilesInput byteRatioEstimate :=
  buildRepoMap_reordered rationalArithmetic rationalArithmetic_transCmp
    twoFilesInput (by decide) twoFilesInput.files.reverse
    twoFilesInput.files.reverse_perm byteRatioEstimate

end Ktsense.Core
