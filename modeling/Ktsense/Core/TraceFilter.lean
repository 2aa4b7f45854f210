import Ktsense.Core.Trace

/-!
# Filtering a trace

The filter is applied to the reference sites before they are attributed and
grouped.  It looks at nothing but the path of a site, and callers and usage
groups each have one path, so the filtered report is the unfiltered one with
the callers and groups left out that the filter does not admit.
-/

namespace Ktsense.Core

open Ktsense.Foundation

/-! ## Related declarations of one path -/

section Related

variable (skeletons : OrderedMap String FileSkeleton)

def keyPath (key : DeclarationKey) : String := (ofLex key).1

@[simp]
theorem path_relatedDeclaration (site : Location) :
    (relatedDeclaration skeletons site).path = site.path := by
  rw [relatedDeclaration]
  cases SkeletonIndex.resolve skeletons site with
  | none => rfl
  | some enclosing => rfl

@[simp]
theorem test_relatedDeclaration (site : Location) :
    (relatedDeclaration skeletons site).test = isTestSource site.path := by
  rw [relatedDeclaration]
  cases SkeletonIndex.resolve skeletons site with
  | none => rfl
  | some enclosing => rfl

@[simp]
theorem keyPath_key (declaration : RelatedDeclaration) :
    keyPath declaration.key = declaration.path := rfl

/-- The entries the sites are counted at. -/
def countedSites (sites : List Location) :
    OrderedMap DeclarationKey RelatedDeclaration :=
  sites.foldl (countSite skeletons) OrderedMap.empty

theorem countedSites_append_singleton (sites : List Location) (site : Location) :
    countedSites skeletons (sites ++ [site]) =
      countSite skeletons (countedSites skeletons sites) site := by
  rw [countedSites, List.foldl_append]
  rfl

theorem relatedDeclarations_eq (sites : List Location) :
    relatedDeclarations sites skeletons =
      ((countedSites skeletons sites).entries.map Prod.snd).insertionSort
        fun left right => left.test ≤ right.test := rfl

/-- An entry stands under its own key and knows whether its path is a test. -/
theorem countedSites_spec (sites : List Location) (key : DeclarationKey)
    (declaration : RelatedDeclaration)
    (hget : (countedSites skeletons sites).get? key = some declaration) :
    declaration.path = keyPath key ∧
      declaration.test = isTestSource declaration.path := by
  induction sites using List.reverseRecOn generalizing key declaration with
  | nil => simp [countedSites] at hget
  | append_singleton sites site ih =>
      rw [countedSites_append_singleton, countSite, OrderedMap.get?_alter] at hget
      by_cases hkey : key = (relatedDeclaration skeletons site).key
      · rw [if_pos hkey, Option.some.injEq] at hget
        subst hget
        cases hheld : (countedSites skeletons sites).get?
            (relatedDeclaration skeletons site).key with
        | none => simp [hkey]
        | some held =>
            have hspec := ih _ held hheld
            simpa [hkey] using hspec
      · rw [if_neg hkey] at hget
        exact ih key declaration hget

variable (admitted : String → Bool)

/-- Leaving out the sites of some paths leaves out the entries of those paths. -/
theorem get?_countedSites_filter (sites : List Location) (key : DeclarationKey) :
    (countedSites skeletons (sites.filter fun site => admitted site.path)).get? key =
      if admitted (keyPath key) then (countedSites skeletons sites).get? key
      else none := by
  induction sites using List.reverseRecOn generalizing key with
  | nil => simp [countedSites]
  | append_singleton sites site ih =>
      rw [List.filter_append, List.filter_singleton,
        countedSites_append_singleton, countSite, OrderedMap.get?_alter]
      cases hadmitted : admitted site.path with
      | true =>
          rw [cond_true, countedSites_append_singleton, countSite,
            OrderedMap.get?_alter, ih, ih]
          by_cases hkey : key = (relatedDeclaration skeletons site).key
          · simp [hkey, hadmitted]
          · simp [hkey]
      | false =>
          rw [cond_false, List.append_nil, ih]
          by_cases hkey : key = (relatedDeclaration skeletons site).key
          · simp [hkey, hadmitted]
          · simp [hkey]

theorem relatedDeclarations_filter (sites : List Location) :
    relatedDeclarations (sites.filter fun site => admitted site.path) skeletons =
      (relatedDeclarations sites skeletons).filter
        fun declaration => admitted declaration.path := by
  have hentries := OrderedMap.entries_eq_filter
    (fun key => admitted (keyPath key))
    (get?_countedSites_filter skeletons admitted sites)
  have hvalues : ((countedSites skeletons sites).entries.filter
      fun entry => admitted (keyPath entry.1)).map Prod.snd =
        ((countedSites skeletons sites).entries.map Prod.snd).filter
          fun declaration => admitted declaration.path := by
    rw [List.filter_map]
    congr 1
    apply List.filter_congr
    rintro ⟨key, declaration⟩ hentry
    have hspec := countedSites_spec skeletons sites key declaration
      ((OrderedMap.mem_entries_iff _ _ _).1 hentry)
    simp only [Function.comp_apply, hspec.1]
  have htotal : Std.Total fun left right : RelatedDeclaration =>
      left.test ≤ right.test := ⟨fun left right => le_total left.test right.test⟩
  have htrans : IsTrans RelatedDeclaration fun left right =>
      left.test ≤ right.test := ⟨fun _ _ _ => le_trans⟩
  rw [relatedDeclarations_eq, relatedDeclarations_eq, hentries, hvalues,
    filter_insertionSort]

theorem test_of_mem_relatedDeclarations {sites : List Location}
    {declaration : RelatedDeclaration}
    (hmem : declaration ∈ relatedDeclarations sites skeletons) :
    declaration.test = isTestSource declaration.path := by
  rw [relatedDeclarations, (List.perm_insertionSort _ _).mem_iff] at hmem
  obtain ⟨⟨key, _⟩, hentry, rfl⟩ := List.mem_map.1 hmem
  exact (countedSites_spec skeletons sites key _
    ((OrderedMap.mem_entries_iff _ _ _).1 hentry)).2

end Related

/-! ## The report -/

theorem callersOf_filter (admitted : String → Bool)
    (references setAside : List Location) (skeletons : List FileSkeleton) :
    callersOf (references.filter fun site => admitted site.path) setAside
        skeletons =
      (callersOf references setAside skeletons).filter
        fun caller => admitted caller.path := by
  rw [callersOf, callersOf, ← relatedDeclarations_filter]
  simp only [List.filter_filter]
  congr 1
  apply List.filter_congr
  intro site _
  cases admitted site.path <;> simp

theorem groupReferences_filter (admitted : String → Bool)
    (locations : List Location) (skeletons : List FileSkeleton)
    (options : GroupingOptions) :
    groupReferences (locations.filter fun site => admitted site.path) skeletons
        options =
      (groupReferences locations skeletons options).filter
        fun group => admitted group.path := by
  rw [groupReferences, groupReferences, OrderedMap.entries_groupBy_filter,
    List.filter_map]
  rfl

/-- The sites a filter drops are those of the paths it does not admit. -/
theorem partitionSites_some (sites : List Location) (filter : SiteFilter) :
    partitionSites sites (some filter) =
      (sites.filter fun site => filter.matchesPath site.path,
        sites.filter fun site => !filter.matchesPath site.path) := by
  rw [partitionSites, List.partition_eq_filter_filter]
  rfl

/-- The number of callers of one kind the filter leaves out. -/
def leftOut (filter : SiteFilter) (test : Bool)
    (callers : List RelatedDeclaration) : ℕ :=
  callers.countP fun caller =>
    caller.test = test && !filter.matchesSite caller.path caller.test

/-- What a filtered report has of an unfiltered one. -/
structure Filtered (filter : SiteFilter) (whole narrowed : TraceReport) : Prop where
  definition : narrowed.definition = whole.definition
  implementors : narrowed.implementors = whole.implementors
  callers : ∃ direct, whole.callers = [⟨1, direct, 0, 0⟩] ∧
    narrowed.callers =
      [⟨1, direct.filter fun caller =>
            filter.matchesSite caller.path caller.test,
          leftOut filter false direct, leftOut filter true direct⟩] ∧
    (direct.filter fun caller =>
        filter.matchesSite caller.path caller.test).length +
      leftOut filter false direct + leftOut filter true direct = direct.length
  usages : narrowed.usages =
    whole.usages.filter fun group => filter.matchesPath group.path

theorem leftOut_cons (filter : SiteFilter) (test : Bool)
    (caller : RelatedDeclaration) (rest : List RelatedDeclaration) :
    leftOut filter test (caller :: rest) =
      leftOut filter test rest +
        if caller.test = test && !filter.matchesSite caller.path caller.test then 1
        else 0 :=
  List.countP_cons

/-- The kept callers and those left out of either kind are all callers. -/
theorem length_filter_add_leftOut (filter : SiteFilter)
    (callers : List RelatedDeclaration) :
    (callers.filter fun caller =>
        filter.matchesSite caller.path caller.test).length +
      leftOut filter false callers + leftOut filter true callers =
        callers.length := by
  induction callers with
  | nil => rfl
  | cons caller rest ih =>
      rw [leftOut_cons, leftOut_cons, List.filter_cons, List.length_cons, ← ih]
      cases filter.matchesSite caller.path caller.test with
      | true =>
          simp only [if_true, List.length_cons, Bool.not_true, Bool.and_false,
            Bool.false_eq_true, if_false]
          omega
      | false =>
          cases caller.test with
          | true => simp; omega
          | false => simp; omega

/-- Filtering a trace is filtering its answer. -/
theorem buildTrace_filtered (input : TraceInput) (filter : SiteFilter) :
    Filtered filter (buildTrace { input with filter := none })
      (buildTrace { input with filter := some filter }) where
  definition := rfl
  implementors := rfl
  callers := by
    let setAside := input.definitionSite ::
      implementationsOtherThan input.implementationSites input.definitionSite
    let direct := callersOf input.referenceSites setAside input.skeletons
    have htest : ∀ caller ∈ direct,
        filter.matchesPath caller.path =
          filter.matchesSite caller.path caller.test := by
      intro caller hcaller
      rw [test_of_mem_relatedDeclarations _ hcaller]
      rfl
    have hkept : callersOf (partitionSites input.referenceSites (some filter)).1
        setAside input.skeletons =
          direct.filter fun caller =>
            filter.matchesSite caller.path caller.test := by
      rw [partitionSites_some, callersOf_filter filter.matchesPath]
      exact List.filter_congr htest
    have hdropped : ∀ test, ((callersOf
        (partitionSites input.referenceSites (some filter)).2 setAside
          input.skeletons).filter fun caller => caller.test = test).length =
            leftOut filter test direct := by
      intro test
      rw [partitionSites_some,
        callersOf_filter fun path => !filter.matchesPath path,
        List.filter_filter, ← List.countP_eq_length_filter, leftOut]
      apply List.countP_congr
      intro caller hcaller
      rw [htest caller hcaller]
    refine ⟨direct, rfl, ?_, length_filter_add_leftOut filter direct⟩
    rw [← hkept, ← hdropped false, ← hdropped true]
    simp [buildTrace, setAside]
  usages := by
    have hsites : (partitionSites input.referenceSites (some filter)).1.filter
        (isUsageSite input.definitionSite) =
          (input.referenceSites.filter
            (isUsageSite input.definitionSite)).filter
              fun site => filter.matchesPath site.path := by
      rw [partitionSites_some, List.filter_comm]
    have hgroups := groupReferences_filter filter.matchesPath
      (input.referenceSites.filter (isUsageSite input.definitionSite))
      input.skeletons input.options
    rw [← hsites] at hgroups
    exact hgroups

end Ktsense.Core
