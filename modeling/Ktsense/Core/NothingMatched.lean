import Ktsense.Core.ContextSpending
import Ktsense.Core.MapAccounting
import Ktsense.Core.MatchWindows

/-!
# Answers that say nothing matched

`append_focus_section`, `render_map_markdown` and `append_matched_source` see what the
budget kept and take an empty list for a search without a result.  The list is also
empty when the first match did not fit, and the map has no files to drop when none
declares anything public.
-/

namespace Ktsense.Core

open Ktsense.Foundation

/-! ## Where the documents say it -/

namespace RepoMap

variable (map : RepoMap)

def tooSmallNote : String := "\nThe budget was too small for any file.\n"

def noNameNote : String := "\nNo declaration name matched.\n"

/-- The title, the path filter and the budget line. -/
def opening : String :=
  "# Repository map\n\n" ++
    (match map.pathFilter with
    | some filter =>
        "Path filter " ++ neutralize (", ".intercalate filter.substrings) ++
          ": " ++ toString filter.matchedFiles ++ " of " ++
          toString filter.totalFiles ++ " files\n"
    | none => "") ++
    match map.otherFilesNotMapped with
    | some otherFilesNotMapped => map.budgetLine (map.focusOnlySummary otherFilesNotMapped)
    | none =>
        map.budgetLine (pluralize map.files.length "file" ++ " shown, " ++
          toString map.filesOmitted ++ " omitted.")

/-- A ranked map without a file. -/
def showsNoFile : Bool := map.otherFilesNotMapped.isNone && map.files.isEmpty

/-- All that stands ahead of the focus section. -/
def beforeFocus : String := map.opening ++ if map.showsNoFile then tooSmallNote else ""

def afterFocus : String :=
  match map.otherFilesNotMapped with
  | some _ => ""
  | none =>
      if map.files.isEmpty then map.summary
      else
        String.join (map.files.map (mappedFileSection fileMarker)) ++
          rankingNote ++ map.summary

def focusHeading (focus : FocusMatches) : String :=
  "\n## Focus: " ++ neutralize focus.pattern ++ " (" ++
    pluralize (focus.files.map fun file => file.declarations.length).sum
      "declaration" ++ ")\n"

/-- The document says that the budget was too small, right behind its budget line. -/
def SaysTooSmall : Prop :=
  ∃ rest, renderMapMarkdown map = map.opening ++ tooSmallNote ++ rest

/-- The document says that no name matched, right behind the heading of its focus
section. -/
def SaysNoNameMatched : Prop :=
  ∃ focus rest, map.focus = some focus ∧
    renderMapMarkdown map = map.beforeFocus ++ focusHeading focus ++ noNameNote ++ rest

theorem render_eq :
    renderMapMarkdown map = map.beforeFocus ++ map.focusSection ++ map.afterFocus := by
  unfold renderMapMarkdown beforeFocus opening afterFocus showsNoFile
  generalize map.focusSection = focus
  generalize map.summary = summary
  cases map.otherFilesNotMapped with
  | some count =>
      cases map.pathFilter <;>
        simp only [Option.isNone_some, Bool.false_and, Bool.false_eq_true, if_false,
          String.append_empty, String.append_assoc]
  | none =>
      by_cases hempty : map.files.isEmpty
      · cases map.pathFilter <;>
          simp only [Option.isNone_none, Bool.true_and, hempty, if_true,
            String.append_assoc, tooSmallNote]
      · cases map.pathFilter <;>
          simp only [Option.isNone_none, Bool.true_and, hempty, Bool.false_eq_true,
            if_false, String.append_empty, String.append_assoc]

variable {map}

theorem focusSection_of_focus {focus : FocusMatches} (hfocus : map.focus = some focus) :
    map.focusSection = focusHeading focus ++
      if focus.files.isEmpty then noNameNote
      else
        String.join (focus.files.map (mappedFileSection focusMarker)) ++
          if 0 < focus.omitted then
            "\n" ++ pluralize focus.omitted "matching declaration" ++
              " omitted for budget.\n"
          else "" := by
  rw [focusSection, hfocus]
  simp only [focusHeading, noNameNote, String.append_assoc]

theorem saysTooSmall_iff (hfocus : map.focus.isSome) :
    map.SaysTooSmall ↔ map.showsNoFile = true := by
  obtain ⟨focus, hfocus⟩ := Option.isSome_iff_exists.mp hfocus
  rw [SaysTooSmall, render_eq, beforeFocus]
  constructor
  · rintro ⟨rest, hsays⟩
    by_contra hshows
    rw [if_neg hshows, String.append_empty, String.append_assoc, String.append_assoc,
      String.append_right_inj] at hsays
    have hletter := congrArg (fun text => text.toList[1]?) hsays
    simp [focusSection_of_focus hfocus, focusHeading, tooSmallNote, String.toList_append] at hletter
  · intro hshows
    exact ⟨map.focusSection ++ map.afterFocus, by rw [if_pos hshows, String.append_assoc]⟩

theorem saysNoNameMatched_iff {focus : FocusMatches} (hfocus : map.focus = some focus) :
    map.SaysNoNameMatched ↔ focus.files = [] := by
  rw [SaysNoNameMatched, render_eq, focusSection_of_focus hfocus]
  constructor
  · rintro ⟨other, rest, hother, hsays⟩
    obtain rfl := Option.some.inj (hfocus.symm.trans hother)
    cases hfiles : focus.files with
    | nil => rfl
    | cons file files =>
        simp only [hfiles, List.isEmpty_cons, Bool.false_eq_true, if_false, List.map_cons,
          String.join_cons, String.append_assoc, String.append_right_inj] at hsays
        have hletter := congrArg (fun text => text.toList[1]?) hsays
        simp [mappedFileSection, focusMarker, noNameNote, String.toList_append] at hletter
  · intro hnone
    refine ⟨focus, map.afterFocus, hfocus, ?_⟩
    rw [hnone, List.isEmpty_nil, if_pos rfl, String.append_assoc, String.append_assoc,
      String.append_assoc, String.append_assoc]

end RepoMap

theorem exists_fenceFor (body : String) :
    ∃ ticks, (fenceFor body).toList = Char.ofNat 0x60 :: ticks := by
  rw [fenceFor, String.toList_ofList]
  cases hcount : max (longestBacktickRun body.toList 0 0 + 1) minFenceBackticks with
  | zero => simp at hcount
  | succ count => exact ⟨_, List.replicate_succ⟩

namespace SymbolContext

variable (context : SymbolContext)

def noLineNote : String := "\nNo source lines matched.\n"

/-- All that stands ahead of the source section. -/
def beforeSource : String :=
  "# Context: " ++ neutralize context.symbol ++ "\n" ++
    (if context.matchedSource.isSome then
      neutralize context.definition.qualifiedName ++ "  " ++
        neutralize context.definition.path ++ ":" ++
        toString context.definition.line ++ "\n"
    else "") ++
    context.preamble ++ context.declarationSection

def afterSource : String :=
  context.outlineSection ++ context.callersSection ++ context.annotatedSection ++
    textReferencesSection "Java text references" context.javaTextReferences
      (context.note (·.javaTextReferencesOmitted)) ++
    textReferencesSection "Kotlin text references" context.kotlinTextReferences
      (context.note (·.kotlinTextReferencesOmitted)) ++
    (if context.sections.callers && endsWith context.definition.path ".java" then
      "\nReferences from Java sources are text matches; " ++
        "the engine resolves Kotlin only.\n"
    else "") ++
    context.implementorsSection ++
    if !context.oneFact then
      "\nCallers are the declarations enclosing each reference site; the engine " ++
        "reports no call hierarchy. Resolution is syntactic, not type-checked. " ++
        "The content bound covers the declaration, its source, the outline, and " ++
        "the caller and implementor lines the budget gated, not the headings " ++
        "around them.\n"
    else ""

/-- The notes of a source section, behind its lines. -/
def matchedOmission (matched : MatchedSource) : String :=
  if 0 < matched.omittedLines then
    "\n" ++ toString matched.omittedLines ++ " more matched lines omitted; read " ++
      neutralize context.definition.path ++ ":" ++
      toString matched.startLine ++ "-" ++ toString matched.endLine ++ "\n"
  else ""

/-- The document says that no line matched, right behind the heading of its source
section. -/
def SaysNoLineMatched : Prop :=
  ∃ matched rest, context.matchedSource = some matched ∧
    renderContextMarkdown context =
      context.beforeSource ++ "\n## Source\n" ++ noLineNote ++ rest

theorem render_eq :
    renderContextMarkdown context =
      context.beforeSource ++ context.sourceSection ++ context.afterSource := by
  unfold renderContextMarkdown beforeSource afterSource
  generalize context.sourceSection = source
  simp only [String.append_assoc]

variable {context}

theorem sourceSection_of_match {matched : MatchedSource}
    (hmatched : context.matchedSource = some matched) :
    context.sourceSection = "\n## Source\n" ++
      (if matched.lines.isEmpty then noLineNote
      else fenced "" (matchedBodyLines matched)) ++ context.matchedOmission matched := by
  rw [sourceSection, hmatched]
  rfl

theorem saysNoLineMatched_iff {matched : MatchedSource}
    (hmatched : context.matchedSource = some matched) :
    context.SaysNoLineMatched ↔ matched.lines = [] := by
  rw [SaysNoLineMatched, render_eq, sourceSection_of_match hmatched]
  constructor
  · rintro ⟨_, rest, -, hsays⟩
    cases hlines : matched.lines with
    | nil => rfl
    | cons line lines =>
        simp only [hlines, List.isEmpty_cons, Bool.false_eq_true,
          if_false, fenced, String.append_assoc, String.append_right_inj] at hsays
        have hletter := congrArg (fun text => text.toList[1]?) hsays
        obtain ⟨ticks, hfence⟩ :=
          exists_fenceFor ("\n".intercalate (matchedBodyLines matched))
        simp [noLineNote, String.toList_append, hfence] at hletter
  · intro hnone
    refine ⟨matched, context.matchedOmission matched ++ context.afterSource, hmatched, ?_⟩
    rw [hnone, List.isEmpty_nil, if_pos rfl]
    simp only [String.append_assoc]

end SymbolContext

/-! ## What the budget keeps of a search -/

/-- Both are prefixes of one list, so the shorter one is a prefix of the other. -/
theorem isPrefix_iff_length_le {T : Type*} {front kept items : List T}
    (hfront : front <+: items) (hkept : kept <+: items) :
    front <+: kept ↔ front.length ≤ kept.length :=
  ⟨List.IsPrefix.length_le, List.prefix_of_prefix_length_le hfront hkept⟩

/-- Nothing is shown exactly when the heading of the first file offered does not fit
together with its first signature. -/
theorem regroup_emitted_eq_nil_iff {candidates : List Candidate}
    (hsignatures : ∀ candidate ∈ candidates, candidate.signatures ≠ []) (budget : ℕ)
    (estimator : TokenEstimator) :
    regroup (emitWithinBudget MapUnit.text (unitsOfCandidates candidates) budget
        estimator).items = [] ↔
      ∀ candidate ∈ candidates.head?, ∀ signature ∈ candidate.signatures.head?,
        fits budget (estimator (MapUnit.header candidate.path).text +
          estimator signature) = false := by
  have hkept := emitted_isPrefix MapUnit.text (unitsOfCandidates candidates) budget estimator
  have hpaths := paths_regroup_take hsignatures
    (emitWithinBudget MapUnit.text (unitsOfCandidates candidates) budget
      estimator).items.length
  rw [← List.prefix_iff_eq_take.mp hkept] at hpaths
  rw [← List.map_eq_nil_iff, hpaths, List.map_eq_nil_iff]
  cases candidates with
  | nil => simp [shownCandidates]
  | cons candidate rest =>
      cases hoffered : candidate.signatures with
      | nil => exact absurd hoffered (hsignatures candidate List.mem_cons_self)
      | cons signature more =>
          have hfront : [MapUnit.header candidate.path, MapUnit.declaration 0 signature] <+:
              unitsOfCandidates (candidate :: rest) := by
            simp [unitsOfCandidates, Candidate.units, hoffered]
          have htwo := (isPrefix_iff_length_le hfront hkept).symm.trans
            (isPrefix_emitted_iff MapUnit.text budget estimator hfront)
          rw [shownCandidates]
          simp only [List.length_cons, List.length_nil, List.map_cons, List.map_nil,
            List.sum_cons, List.sum_nil] at htwo
          simp [htwo, hoffered, MapUnit.declaration, Bool.not_eq_true]

/-- An empty result always means that nothing was offered exactly when the first
heading and the first signature fit, if there are any. -/
theorem nothing_offered_iff {candidates : List Candidate}
    (hsignatures : ∀ candidate ∈ candidates, candidate.signatures ≠ []) (budget : ℕ)
    (estimator : TokenEstimator) :
    (regroup (emitWithinBudget MapUnit.text (unitsOfCandidates candidates) budget
        estimator).items = [] → candidates = []) ↔
      ∀ candidate ∈ candidates.head?, ∀ signature ∈ candidate.signatures.head?,
        fits budget (estimator (MapUnit.header candidate.path).text +
          estimator signature) = true := by
  rw [regroup_emitted_eq_nil_iff hsignatures]
  cases candidates with
  | nil => simp
  | cons candidate rest =>
      cases hoffered : candidate.signatures with
      | nil => exact absurd hoffered (hsignatures candidate List.mem_cons_self)
      | cons signature more => simp [hoffered]

/-! ## The names of a focus -/

theorem candidatesOf_eq_nil_iff (ordered : List FileSkeleton)
    (signatures : FileSkeleton → List String) :
    candidatesOf ordered signatures = [] ↔ ∀ file ∈ ordered, signatures file = [] := by
  simp [candidatesOf, List.filter_eq_nil_iff]

theorem signatures_ne_nil {ordered : List FileSkeleton}
    {signatures : FileSkeleton → List String} :
    ∀ candidate ∈ candidatesOf ordered signatures, candidate.signatures ≠ [] := by
  intro candidate hcandidate
  have hkept := (List.mem_filter.mp hcandidate).2
  simpa using hkept

theorem inReferenceOrder_filterMap_eq_nil_iff (ranking : Ranking) (file : FileSkeleton)
    (compact : Bool) (declarations : List Declaration) :
    (ranking.inReferenceOrder file declarations).filterMap
        (renderedSignature file compact) = [] ↔
      ∀ declaration ∈ declarations, signatureOf file declaration = none := by
  have hperm : (ranking.inReferenceOrder file declarations).Perm declarations :=
    sortBy_perm _ _
  simp [List.filterMap_eq_nil_iff, renderedSignature, hperm.mem_iff]

section Map

variable {F : Type*} (arithmetic : Arithmetic F) (input : RepoMapInput)
  (estimator : TokenEstimator)

/-- The matcher accepts the name of no declaration a map would show. -/
def RepoMapInput.AcceptsNoName (spec : FocusSpec) : Prop :=
  ∀ file ∈ input.mappedFiles, ∀ declaration ∈ file.declarations,
    (signatureOf file declaration).isSome → spec.matcher declaration.name = false

/-- Some mapped file has a declaration a map would show. -/
def RepoMapInput.HasDeclaration : Prop :=
  ∃ file ∈ input.mappedFiles, ∃ declaration ∈ file.declarations,
    (signatureOf file declaration).isSome

/-- The map says that no name matched only when the matcher accepts none. -/
def NamesHonest (spec : FocusSpec) : Prop :=
  (buildRepoMap arithmetic input estimator).SaysNoNameMatched → input.AcceptsNoName spec

/-- The map says that the budget was too small only when it omits a file. -/
def FilesHonest : Prop :=
  (buildRepoMap arithmetic input estimator).SaysTooSmall →
    0 < (buildRepoMap arithmetic input estimator).filesOmitted

/-- The heading of the first file with a match fits the budget together with the
first signature under it. -/
def FirstMatchFits (spec : FocusSpec) : Prop :=
  ∀ candidate ∈ (input.focusCandidates arithmetic spec).head?,
    ∀ signature ∈ candidate.signatures.head?,
      fits input.budget (estimator (MapUnit.header candidate.path).text +
        estimator signature) = true

theorem mem_ordered (file : FileSkeleton) :
    file ∈ input.ordered arithmetic ↔ file ∈ input.mappedFiles :=
  (sortBy_perm _ _).mem_iff

theorem focusCandidates_eq_nil_iff (spec : FocusSpec) :
    input.focusCandidates arithmetic spec = [] ↔ input.AcceptsNoName spec := by
  rw [RepoMapInput.focusCandidates, candidatesOf_eq_nil_iff, RepoMapInput.AcceptsNoName]
  simp only [mem_ordered, matchingSignatures, inReferenceOrder_filterMap_eq_nil_iff,
    List.mem_filter, and_imp, ← Bool.not_eq_true, Option.isSome_iff_ne_none, ne_eq]
  refine forall₂_congr fun file _ => forall₂_congr fun declaration _ => ?_
  exact not_imp_not.symm.trans (by simp)

theorem candidates_eq_nil_iff :
    input.candidates arithmetic = [] ↔ ¬input.HasDeclaration := by
  rw [RepoMapInput.candidates, candidatesOf_eq_nil_iff, RepoMapInput.HasDeclaration]
  simp only [mem_ordered, signaturesInReferenceOrder, inReferenceOrder_filterMap_eq_nil_iff]
  push Not
  simp

theorem focus_buildRepoMap {spec : FocusSpec} (hfocus : input.focus = some spec) :
    (buildRepoMap arithmetic input estimator).focus = some
      { pattern := spec.pattern
        files := regroup (input.focusEmission arithmetic estimator spec).items
        omitted := wrappingSub (input.totalMatches arithmetic spec)
          (input.shownMatches arithmetic estimator spec) } := by
  rw [buildRepoMap]
  split_ifs
  · simp [RepoMapInput.focusOnlyMap, RepoMapInput.buildFocusSection, hfocus]
  · simp [RepoMapInput.rankedMap, RepoMapInput.buildFocusSection, hfocus]

theorem namesHonest_iff {spec : FocusSpec} (hfocus : input.focus = some spec) :
    NamesHonest arithmetic input estimator spec ↔
      FirstMatchFits arithmetic input estimator spec := by
  rw [NamesHonest,
    RepoMap.saysNoNameMatched_iff (focus_buildRepoMap arithmetic input estimator hfocus),
    ← focusCandidates_eq_nil_iff arithmetic]
  exact nothing_offered_iff signatures_ne_nil input.budget estimator

/-- A map without files omits every file that has something to show. -/
theorem filesOmitted_eq (hfiles : (input.rankedMap arithmetic estimator).files = []) :
    (input.rankedMap arithmetic estimator).filesOmitted =
      (input.candidates arithmetic).length := by
  have hshown : regroup (input.mapEmission arithmetic estimator).items = [] := hfiles
  simp [RepoMapInput.rankedMap, RepoMapInput.omittedPaths, omittedFrom, hshown,
    RepoMapInput.candidatePaths]

theorem files_eq_nil (hnone : input.candidates arithmetic = []) :
    (input.rankedMap arithmetic estimator).files = [] := by
  have hkept := emitted_isPrefix MapUnit.text (unitsOfCandidates (input.candidates arithmetic))
    (input.mapBudget arithmetic estimator - input.reserve arithmetic estimator) estimator
  rw [← mapEmission_eq_emit, hnone] at hkept
  have hitems : (input.mapEmission arithmetic estimator).items = [] := List.prefix_nil.mp hkept
  rw [RepoMapInput.rankedMap, hitems]
  rfl

theorem filesHonest_iff {spec : FocusSpec} (hfocus : input.focus = some spec) :
    FilesHonest arithmetic input estimator ↔
      (input.fill = true → input.HasDeclaration) := by
  have hmapped : (buildRepoMap arithmetic input estimator).focus.isSome := by
    rw [focus_buildRepoMap arithmetic input estimator hfocus]
    rfl
  rw [FilesHonest, RepoMap.saysTooSmall_iff hmapped]
  cases hfill : input.fill with
  | false =>
      -- the focus alone: there are no ranked files to miss
      have hfocusOnly : input.focusOnly = true := by
        rw [RepoMapInput.focusOnly, hfocus, hfill]
        rfl
      rw [buildRepoMap, if_pos hfocusOnly]
      simp [RepoMap.showsNoFile, RepoMapInput.focusOnlyMap]
  | true =>
      have hranked : input.focusOnly ≠ true := by simp [RepoMapInput.focusOnly, hfill]
      have hnone : (input.rankedMap arithmetic estimator).otherFilesNotMapped = none := rfl
      rw [buildRepoMap, if_neg hranked, RepoMap.showsNoFile, hnone, Option.isNone_none,
        Bool.true_and, List.isEmpty_iff]
      by_cases hcandidates : input.candidates arithmetic = []
      · have hfiles := files_eq_nil arithmetic input estimator hcandidates
        simp [hfiles, filesOmitted_eq arithmetic input estimator hfiles, hcandidates,
          (candidates_eq_nil_iff arithmetic input).mp hcandidates]
      · have hdeclaration : input.HasDeclaration :=
          not_not.mp fun hno => hcandidates ((candidates_eq_nil_iff arithmetic input).mpr hno)
        have homitted (hfiles : (input.rankedMap arithmetic estimator).files = []) :
            0 < (input.rankedMap arithmetic estimator).filesOmitted := by
          rw [filesOmitted_eq arithmetic input estimator hfiles]
          exact List.length_pos_iff.mpr hcandidates
        exact iff_of_true homitted fun _ => hdeclaration

end Map

/-! ## The lines of a match -/

namespace ContextInput

variable (input : ContextInput)

/-- The lines of the span that `source_body` cuts out, as the file has them. -/
def spanLines : List String :=
  match input.source, input.file with
  | some source, some file =>
      match declarationSpanAt file input.definition.line with
      | some span =>
          let total := source.length % u32Bound
          let endLine := min (span.last.getD total) total
          if span.start = 0 || endLine < span.start then []
          else (source.take endLine).drop (span.start - 1)
      | none => []
  | _, _ => []

/-- What the signature costs that stands ahead of the source lines. -/
def declarationCost (estimator : TokenEstimator) : ℕ :=
  (input.offeredDeclaration.map estimator).sum

/-- The first source line offered fits the budget behind the signature. -/
def FirstLineFits (estimator : TokenEstimator) : Prop :=
  ∀ candidate ∈ input.offeredSource.head?,
    fits input.budget (input.declarationCost estimator +
      estimator candidate.rendered) = true

end ContextInput

section Context

variable (input : ContextInput) (estimator : TokenEstimator)

/-- The bundle says that no line matched only when the matcher accepts no line of the
span. -/
def LinesHonest (spec : SourceMatch) : Prop :=
  (buildContext input estimator).SaysNoLineMatched →
    ∀ line ∈ input.spanLines, spec.matcher line = false

/-- The units up to the first source line. -/
def unitsToFirstLine (candidate : SourceCandidate) : List ContextUnit :=
  unitsOf id Payload.declaration input.offeredDeclaration ++
    [⟨candidate.rendered, .sourceLine candidate⟩]

variable {input}

theorem unitsToFirstLine_isPrefix {candidate : SourceCandidate}
    {rest : List SourceCandidate} (hoffered : input.offeredSource = candidate :: rest) :
    unitsToFirstLine input candidate <+: input.unitsInPriorityOrder := by
  rw [unitsToFirstLine, ContextInput.unitsInPriorityOrder, hoffered, unitsOf, unitsOf,
    List.map_cons, List.cons_append, List.prefix_append_right_inj, List.cons_prefix_cons]
  exact ⟨rfl, List.nil_prefix⟩

theorem cost_unitsToFirstLine (candidate : SourceCandidate) :
    ((unitsToFirstLine input candidate).map fun unit => estimator unit.text).sum =
      input.declarationCost estimator + estimator candidate.rendered := by
  simp [unitsToFirstLine, unitsOf, ContextInput.declarationCost, Function.comp_def]

/-- A source line is kept exactly when the units up to the first one are. -/
theorem keptSource_ne_nil_iff {candidate : SourceCandidate} {rest : List SourceCandidate}
    (hoffered : input.offeredSource = candidate :: rest) :
    keptSource input estimator ≠ [] ↔
      unitsToFirstLine input candidate <+: (input.emission estimator).items := by
  have hkept := kept_isPrefix input estimator
  have hdeclared : unitsOf id Payload.declaration input.offeredDeclaration <+:
      input.unitsInPriorityOrder := List.prefix_append _ _
  constructor
  · intro hne
    rw [isPrefix_iff_length_le (unitsToFirstLine_isPrefix hoffered) hkept, unitsToFirstLine,
      List.length_append, List.length_singleton]
    by_contra hshort
    -- units no longer than the signature hold no source line
    have hwithin := List.prefix_of_prefix_length_le hkept hdeclared (by omega)
    have hnone := regrouped_isPrefix hwithin Payload.sourceLine?
    rw [regrouped, regrouped, regrouped_unitsOf] at hnone
    simp only [Payload.sourceLine?, List.filterMap_none, List.prefix_nil] at hnone
    exact hne hnone
  · intro htaken hnil
    have hunit := htaken.subset (List.mem_append_right _ (List.mem_singleton_self _))
    have hmem : candidate ∈ keptSource input estimator :=
      List.mem_filterMap.mpr ⟨_, hunit, rfl⟩
    rw [hnil] at hmem
    exact List.not_mem_nil hmem

theorem keptSource_eq_nil_iff :
    keptSource input estimator = [] ↔
      ∀ candidate ∈ input.offeredSource.head?,
        fits input.budget (input.declarationCost estimator +
          estimator candidate.rendered) = false := by
  cases hoffered : input.offeredSource with
  | nil =>
      have hnil := keptSource_isPrefix input estimator
      rw [hoffered] at hnil
      simp [List.prefix_nil.mp hnil]
  | cons candidate rest =>
      have htaken := keptSource_ne_nil_iff estimator hoffered
      rw [ContextInput.emission,
        isPrefix_emitted_iff _ _ _ (unitsToFirstLine_isPrefix hoffered),
        cost_unitsToFirstLine] at htaken
      rw [← not_iff_not, ← ne_eq, htaken]
      simp

/-! The lines a match keeps of the span. -/

theorem matchedCandidates_eq_nil_iff (rawLines : List String) (startLine : ℕ)
    (previous : Option ℕ) (indices : List ℕ) :
    matchedCandidates rawLines startLine previous indices = [] ↔ indices = [] := by
  cases indices with
  | nil => simp [matchedCandidates]
  | cons index rest => simp [matchedCandidates]

/-- A window is never empty: where the sum for its end wraps around, it starts at the
first line. -/
theorem keptIndices_eq_nil_iff {lines : List String} (spec : SourceMatch)
    (hlength : lines.length < u32Bound) :
    keptIndices lines spec = [] ↔ ∀ line ∈ lines, spec.matcher line = false := by
  rw [List.eq_nil_iff_forall_not_mem]
  constructor
  · intro hnone line hline
    obtain ⟨index, hindex, hget⟩ := List.mem_iff_getElem.mp hline
    rw [← Bool.not_eq_true]
    intro hmatcher
    have hmatches : MatchesAt lines spec index :=
      ⟨line, hget ▸ List.getElem?_eq_getElem hindex, hmatcher⟩
    by_cases hsum : index + spec.around < usizeBound
    · apply hnone index
      rw [mem_keptIndices]
      refine ⟨index, hmatches, Nat.sub_le _ _, ?_⟩
      rw [wrappingAdd, Nat.mod_eq_of_lt hsum]
      omega
    · apply hnone 0
      rw [mem_keptIndices]
      refine ⟨index, hmatches, ?_, Nat.zero_le _⟩
      rw [usizeBound] at hsum
      rw [u32Bound] at hlength
      omega
  · intro hnone kept hkept
    obtain ⟨index, ⟨line, hline, hmatcher⟩, -⟩ := (mem_keptIndices kept).mp hkept
    rw [hnone line (List.mem_of_getElem? hline)] at hmatcher
    cases hmatcher

/-- With a match the body holds what it keeps of the neutralized span. -/
theorem sourceBody_of_match {spec : SourceMatch} (hmatch : input.sourceMatch = some spec) :
    sourceBody input = none ∧ input.spanLines = [] ∨
      (∃ start last, sourceBody input =
        some (matchedBody (input.spanLines.map neutralize) start last spec)) ∧
        input.spanLines.length < u32Bound := by
  rw [sourceBody, ContextInput.spanLines, hmatch]
  cases input.source with
  | none => exact Or.inl ⟨rfl, rfl⟩
  | some source =>
      cases input.file with
      | none => exact Or.inl ⟨rfl, rfl⟩
      | some file =>
          cases hspan : declarationSpanAt file input.definition.line with
          | none => exact Or.inl ⟨by simp [hspan], by simp [hspan]⟩
          | some span =>
              have htotal : source.length % u32Bound < u32Bound := Nat.mod_lt _ (by decide)
              simp only [Option.bind_eq_bind, Option.bind_some, hspan]
              split_ifs with hempty
              · exact Or.inl ⟨rfl, rfl⟩
              · refine Or.inr ⟨⟨_, _, rfl⟩, ?_⟩
                rw [List.length_drop, List.length_take]
                omega

theorem offeredSource_eq_nil_iff {spec : SourceMatch} {start last : ℕ}
    (hbody : input.body =
      some (matchedBody (input.spanLines.map neutralize) start last spec))
    (hlength : input.spanLines.length < u32Bound) :
    input.offeredSource = [] ↔
      ∀ line ∈ input.spanLines, spec.matcher (neutralize line) = false := by
  rw [offeredSource_eq input hbody, matchedBody, matchedCandidates_eq_nil_iff,
    keptIndices_eq_nil_iff spec (by rwa [List.length_map]), List.forall_mem_map]

theorem saysNoLineMatched_buildContext {body : SourceBody} (hbody : input.body = some body)
    (hmatched : body.matched = true) :
    (buildContext input estimator).SaysNoLineMatched ↔
      ∀ candidate ∈ input.offeredSource.head?,
        fits input.budget (input.declarationCost estimator +
          estimator candidate.rendered) = false := by
  have hkept := length_keptSource_matched input estimator hbody hmatched
  rw [SymbolContext.saysNoLineMatched_iff
    (matchedSource_buildContext input estimator hbody hmatched).1,
    ← List.length_eq_zero_iff, hkept, List.length_eq_zero_iff, keptSource_eq_nil_iff]

theorem linesHonest_iff {spec : SourceMatch} (hmatch : input.sourceMatch = some spec) :
    LinesHonest input estimator spec ↔
      (input.sections.source = true →
        (∃ line ∈ input.spanLines, spec.matcher line = true) →
          (∃ line ∈ input.spanLines, spec.matcher (neutralize line) = true) ∧
            input.FirstLineFits estimator) := by
  rw [LinesHonest]
  have hunsaid (hbody : input.body = none) :
      ¬(buildContext input estimator).SaysNoLineMatched := by
    rintro ⟨matched, -, hmatched, -⟩
    rw [(noSource_buildContext input estimator hbody).2] at hmatched
    cases hmatched
  cases hsource : input.sections.source with
  | false =>
      have hbody : input.body = none := by simp [ContextInput.body, hsource]
      simp [hunsaid hbody]
  | true =>
      have hbody : input.body = sourceBody input := by simp [ContextInput.body, hsource]
      rcases sourceBody_of_match hmatch with ⟨hnone, hspan⟩ | ⟨⟨start, last, hsome⟩, hlength⟩
      · simp [hunsaid (hbody.trans hnone), hspan]
      · have hoffered := offeredSource_eq_nil_iff (hbody.trans hsome) hlength
        have haccepted : (∃ line ∈ input.spanLines, spec.matcher (neutralize line) = true) ↔
            input.offeredSource ≠ [] := by
          rw [ne_eq, hoffered]
          simp
        have hraw : (∀ line ∈ input.spanLines, spec.matcher line = false) ↔
            ¬∃ line ∈ input.spanLines, spec.matcher line = true := by simp
        rw [saysNoLineMatched_buildContext estimator (hbody.trans hsome) rfl, haccepted, hraw,
          ContextInput.FirstLineFits]
        cases input.offeredSource with
        | nil => simp
        | cons candidate rest =>
            by_cases hfits : fits input.budget
              (input.declarationCost estimator + estimator candidate.rendered) = true
            · simp [hfits]
            · rw [Bool.not_eq_true] at hfits
              simp [hfits]

end Context

/-! ## The three answers together -/

/-- What is said to have no result had none exactly when the first match of a focus fits
the budget with its heading, a filled map has something to show, and the first of the
matching lines, which match as they are printed too, fits behind the signature. -/
theorem absence_is_honest_iff {F : Type*} (arithmetic : Arithmetic F)
    (estimator : TokenEstimator) {mapInput : RepoMapInput} {focus : FocusSpec}
    (hfocus : mapInput.focus = some focus) {contextInput : ContextInput}
    {pattern : SourceMatch} (hmatch : contextInput.sourceMatch = some pattern) :
    (NamesHonest arithmetic mapInput estimator focus ↔
        FirstMatchFits arithmetic mapInput estimator focus) ∧
      (FilesHonest arithmetic mapInput estimator ↔
        (mapInput.fill = true → mapInput.HasDeclaration)) ∧
      (LinesHonest contextInput estimator pattern ↔
        (contextInput.sections.source = true →
          (∃ line ∈ contextInput.spanLines, pattern.matcher line = true) →
            (∃ line ∈ contextInput.spanLines,
              pattern.matcher (neutralize line) = true) ∧
              contextInput.FirstLineFits estimator)) :=
  ⟨namesHonest_iff arithmetic mapInput estimator hfocus,
    filesHonest_iff arithmetic mapInput estimator hfocus, linesHonest_iff estimator hmatch⟩

/-- The class on its own under a focus on its name. -/
def focusedInput (budget : ℕ) : RepoMapInput :=
  { loneClassInput with budget, focus := some ⟨"B", (· == "B")⟩, fill := true }

/-- A function of ten empty lines, searched for its closing line. -/
def closingLineInput (budget : ℕ) : ContextInput :=
  { emptyLinesInput with budget, sourceMatch := some ⟨(· == "\x7d"), 0⟩ }

theorem ample_budget_is_honest :
    NamesHonest rationalArithmetic (focusedInput 100) byteRatioEstimate
        ⟨"B", (· == "B")⟩ ∧
      FilesHonest rationalArithmetic (focusedInput 100) byteRatioEstimate ∧
      LinesHonest (closingLineInput 100) byteRatioEstimate ⟨(· == "\x7d"), 0⟩ := by
  obtain ⟨hnames, hfiles, hlines⟩ := absence_is_honest_iff rationalArithmetic byteRatioEstimate
    (rfl : (focusedInput 100).focus = some ⟨"B", (· == "B")⟩)
    (rfl : (closingLineInput 100).sourceMatch = some ⟨(· == "\x7d"), 0⟩)
  refine ⟨hnames.mpr ?_, hfiles.mpr ?_, hlines.mpr ?_⟩
  · unfold FirstMatchFits
    decide
  · unfold RepoMapInput.HasDeclaration
    decide
  · unfold ContextInput.FirstLineFits
    decide

/-- Three tokens hold `## A.kt` and not `class B`, or `fun f()` and not the closing
line; a map of no files has no budget to be too small. -/
theorem absence_said_of_a_match :
    ¬NamesHonest rationalArithmetic (focusedInput 3) byteRatioEstimate
        ⟨"B", (· == "B")⟩ ∧
      ¬FilesHonest rationalArithmetic { focusedInput 100 with files := [] }
        byteRatioEstimate ∧
      ¬LinesHonest (closingLineInput 3) byteRatioEstimate ⟨(· == "\x7d"), 0⟩ := by
  refine ⟨?_, ?_, ?_⟩
  · rw [namesHonest_iff rationalArithmetic (focusedInput 3) byteRatioEstimate rfl,
      FirstMatchFits]
    decide
  · rw [filesHonest_iff rationalArithmetic _ byteRatioEstimate
      (rfl : { focusedInput 100 with files := [] }.focus = some ⟨"B", (· == "B")⟩),
      RepoMapInput.HasDeclaration]
    decide
  · rw [linesHonest_iff byteRatioEstimate
      (rfl : (closingLineInput 3).sourceMatch = some ⟨(· == "\x7d"), 0⟩),
      ContextInput.FirstLineFits]
    decide

end Ktsense.Core
