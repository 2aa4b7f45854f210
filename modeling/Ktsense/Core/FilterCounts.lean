import Ktsense.Core.TraceFilter

/-!
# What a filtered trace says it left out

The counts of `AppliedTraceFilter` are documented as the listed usage sites the
filter dropped and the files whose every usage it dropped.  `build_trace` counts
the raw sites, among them those no listing shows: text mentions, names of other
declarations and references in a file header.
-/

namespace Ktsense.Core

open Ktsense.Foundation

namespace TraceReport

/-- The references a report lists. -/
def listedReferences (report : TraceReport) : ℕ :=
  (report.usages.map fun group => group.references.length).sum

def usagesOmitted (report : TraceReport) : ℕ := report.filter.elim 0 (·.usagesOmitted)

def usageFilesOmitted (report : TraceReport) : ℕ :=
  report.filter.elim 0 (·.usageFilesOmitted)

end TraceReport

/-- What is listed and what is counted as left out are what the whole report lists. -/
structure CountsDescribe (whole narrowed : TraceReport) : Prop where
  groups : narrowed.usages.length + narrowed.usageFilesOmitted = whole.usages.length
  references : narrowed.listedReferences + narrowed.usagesOmitted = whole.listedReferences

namespace TraceInput

/-- The site is a usage, and not above the first declaration of its file when imports
are left out. -/
def lists (input : TraceInput) (site : Location) : Bool :=
  isUsageSite input.definitionSite site &&
    (input.options.includeImports || !inHeader (input.headerBoundary site) site.line)

end TraceInput

/-! ## Counting groups and references -/

theorem paths_groupReferences (locations : List Location) (skeletons : List FileSkeleton)
    (options : GroupingOptions) :
    (groupReferences locations skeletons options).map (·.path) =
      sortDedup (locations.map (·.path)) := by
  rw [← OrderedMap.keys_groupBy, groupReferences, List.map_map]
  rfl

theorem length_sortDedup {A : Type*} [LinearOrder A] (values : List A) :
    (sortDedup values).length = values.toFinset.card := by
  have hnodup : (sortDedup values).Nodup := (pairwise_sortDedup values).imp ne_of_lt
  rw [← List.toFinset_card_of_nodup hnodup]
  congr 1
  ext value
  rw [List.mem_toFinset, List.mem_toFinset, mem_sortDedup]

theorem length_groupReferences (locations : List Location) (skeletons : List FileSkeleton)
    (options : GroupingOptions) :
    (groupReferences locations skeletons options).length =
      (locations.map (·.path)).toFinset.card := by
  rw [← length_sortDedup, ← paths_groupReferences locations skeletons options,
    List.length_map]

/-- Without a cap every reference of a group is listed. -/
theorem sum_references_eq {options : GroupingOptions} (hlimit : options.limit = none)
    (locations : List Location) (skeletons : List FileSkeleton) :
    ((groupReferences locations skeletons options).map
        fun group => group.references.length).sum =
      listedAndCapped (groupReferences locations skeletons options) := by
  rw [listedAndCapped]
  congr 1
  apply List.map_congr_left
  intro group hgroup
  rw [groupReferences] at hgroup
  obtain ⟨entry, _, rfl⟩ := List.mem_map.1 hgroup
  have homitted : (cappedReferences entry.2
      ((skeletonByPath skeletons).get? entry.1) options).2 = 0 := by
    rw [cappedReferences, hlimit]
  dsimp only
  rw [homitted, Nat.add_zero]

section Filtering

variable (input : TraceInput) (filter : SiteFilter)

def wholeTrace : TraceReport := buildTrace { input with filter := none }

def narrowedTrace : TraceReport := buildTrace { input with filter := some filter }

def keptBy (site : Location) : Bool := filter.matchesPath site.path

/-- The sites the filter drops. -/
def droppedBy : List Location := input.referenceSites.filter fun site => !keptBy filter site

theorem usagesOmitted_narrowedTrace :
    (narrowedTrace input filter).usagesOmitted = (droppedBy input filter).length := by
  have hdropped := congrArg Prod.snd (partitionSites_some input.referenceSites filter)
  calc
    _ = (partitionSites input.referenceSites (some filter)).2.length := rfl
    _ = _ := congrArg List.length hdropped

theorem usageFilesOmitted_narrowedTrace :
    (narrowedTrace input filter).usageFilesOmitted =
      ((droppedBy input filter).map (·.path)).toFinset.card := by
  have hdropped := congrArg Prod.snd (partitionSites_some input.referenceSites filter)
  rw [← length_sortDedup]
  calc
    _ = (sortDedup ((partitionSites input.referenceSites (some filter)).2.map
          (·.path))).length := rfl
    _ = _ := by rw [hdropped]; rfl

theorem listedReferences_wholeTrace (hlimit : input.options.limit = none) :
    (wholeTrace input).listedReferences = input.referenceSites.countP input.lists := by
  have hsum := sum_references_eq hlimit
    (input.referenceSites.filter (isUsageSite input.definitionSite)) input.skeletons
  rw [listedAndCapped_groupReferences, List.countP_filter] at hsum
  calc
    (wholeTrace input).listedReferences = _ := hsum
    _ = input.referenceSites.countP input.lists := by
      apply List.countP_congr
      intro site _
      simp only [TraceInput.lists, TraceInput.headerBoundary, Bool.and_comm]

theorem listedReferences_narrowedTrace (hlimit : input.options.limit = none) :
    (narrowedTrace input filter).listedReferences =
      input.referenceSites.countP fun site => input.lists site && keptBy filter site := by
  have hsum := listedReferences_wholeTrace
    { input with referenceSites := input.referenceSites.filter (keptBy filter) } hlimit
  have hkept := congrArg Prod.fst (partitionSites_some input.referenceSites filter)
  rw [List.countP_filter] at hsum
  calc
    (narrowedTrace input filter).listedReferences =
        (wholeTrace { input with
          referenceSites := input.referenceSites.filter (keptBy filter) }).listedReferences := by
      simp only [TraceReport.listedReferences, narrowedTrace, wholeTrace, buildTrace, hkept]
      rfl
    _ = _ := hsum

theorem usages_wholeTrace :
    (wholeTrace input).usages = groupReferences
      (input.referenceSites.filter (isUsageSite input.definitionSite)) input.skeletons
        input.options := rfl

/-- The groups of the files the filter drops. -/
theorem length_usages_wholeTrace :
    (wholeTrace input).usages.length = (narrowedTrace input filter).usages.length +
      (((droppedBy input filter).filter (isUsageSite input.definitionSite)).map
        (·.path)).toFinset.card := by
  have husages := (buildTrace_filtered input filter).usages
  have hdropped : ((wholeTrace input).usages.filter fun group =>
      !filter.matchesPath group.path) =
        groupReferences (((droppedBy input filter).filter
          (isUsageSite input.definitionSite))) input.skeletons input.options := by
    rw [usages_wholeTrace, ← groupReferences_filter (fun path => !filter.matchesPath path),
      List.filter_filter, droppedBy, List.filter_filter]
    congr 1
    apply List.filter_congr
    intro site _
    rw [keptBy, Bool.and_comm]
  have hlength := List.length_eq_length_filter_add (l := (wholeTrace input).usages)
    (fun group => filter.matchesPath group.path)
  calc
    _ = ((wholeTrace input).usages.filter fun group => filter.matchesPath group.path).length +
        ((wholeTrace input).usages.filter fun group =>
          !filter.matchesPath group.path).length := hlength
    _ = _ := by rw [hdropped, length_groupReferences, narrowedTrace, husages]; rfl

end Filtering

/-! ## When the counts describe the listing -/

/-- The counts of a filtered trace without a cap describe its listing exactly when every
site the filter drops would have been listed. -/
theorem filter_counts_describe_listing_iff (input : TraceInput) (filter : SiteFilter)
    (hlimit : input.options.limit = none) :
    CountsDescribe (buildTrace { input with filter := none })
        (buildTrace { input with filter := some filter }) ↔
      ∀ site ∈ input.referenceSites, filter.matchesPath site.path = false →
        input.lists site = true := by
  have hdropped (site : Location) : site ∈ droppedBy input filter ↔
      site ∈ input.referenceSites ∧ filter.matchesPath site.path = false := by
    rw [droppedBy, List.mem_filter, keptBy, Bool.not_eq_true']
  have hsplit : input.referenceSites.countP input.lists =
      (input.referenceSites.countP fun site => input.lists site && keptBy filter site) +
        (droppedBy input filter).countP input.lists := by
    rw [← List.countP_filter]
    exact List.countP_eq_countP_filter_add _ _ _
  constructor
  · intro hcounts site hsite hpath
    have hreferences : (narrowedTrace input filter).listedReferences +
        (narrowedTrace input filter).usagesOmitted = (wholeTrace input).listedReferences :=
      hcounts.references
    rw [listedReferences_wholeTrace input hlimit, usagesOmitted_narrowedTrace,
      listedReferences_narrowedTrace input filter hlimit, hsplit] at hreferences
    have hall := List.countP_eq_length.1 (Nat.add_left_cancel hreferences).symm
    exact hall site ((hdropped site).2 ⟨hsite, hpath⟩)
  · intro hall
    have hlisted : ∀ site ∈ droppedBy input filter, input.lists site = true := by
      intro site hsite
      obtain ⟨hmem, hpath⟩ := (hdropped site).1 hsite
      exact hall site hmem hpath
    have husages : (droppedBy input filter).filter (isUsageSite input.definitionSite) =
        droppedBy input filter := by
      rw [List.filter_eq_self]
      intro site hsite
      exact (Bool.and_eq_true_iff.1 (hlisted site hsite)).1
    constructor
    · have hgroups := length_usages_wholeTrace input filter
      rw [husages, ← usageFilesOmitted_narrowedTrace] at hgroups
      exact hgroups.symm
    · have hreferences := hsplit
      rw [List.countP_eq_length.2 hlisted, ← usagesOmitted_narrowedTrace,
        ← listedReferences_wholeTrace input hlimit,
        ← listedReferences_narrowedTrace input filter hlimit] at hreferences
      exact hreferences.symm

/-- A class used once under `src/`, and named by a comment or a call elsewhere. -/
def usedOnce (elsewhere : SiteKind) : TraceInput where
  definition := ⟨"demo.A", "src/A.kt", 1, "class A"⟩
  index := .complete
  definitionSite := ⟨"src/A.kt", 1, none, .declarationName⟩
  implementationSites := []
  referenceSites := [⟨"src/B.kt", 3, none, .code⟩, ⟨"docs/C.kt", 5, none, elsewhere⟩]
  skeletons := []
  options := ⟨none, false⟩
  filter := none

/-- A call in a file the filter drops is counted as the listed usage it was. -/
theorem dropped_call_described :
    CountsDescribe (buildTrace { usedOnce .code with filter := none })
      (buildTrace { usedOnce .code with filter := some ⟨["src/"], .all⟩ }) :=
  (filter_counts_describe_listing_iff (usedOnce .code) ⟨["src/"], .all⟩ rfl).2 (by decide)

/-- A comment in a file the filter drops was in no listing and is counted all the same. -/
theorem dropped_comment_counted :
    ¬CountsDescribe (buildTrace { usedOnce .comment with filter := none })
      (buildTrace { usedOnce .comment with filter := some ⟨["src/"], .all⟩ }) := by
  intro hcounts
  have hgroups := hcounts.groups
  revert hgroups
  decide +kernel

end Ktsense.Core
