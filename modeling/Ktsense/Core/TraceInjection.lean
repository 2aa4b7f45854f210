import Ktsense.Core.TraceLines

/-!
# Source text in a trace

Everything a trace quotes is neutralized where it is printed but two texts: the
signature of the definition, which stands in its fence as it was received, and the
path prefixes of the site filter, which stand in the heading of the usages.
-/

namespace Ktsense.Core

open Ktsense.Foundation

/-- The texts of the list lines that stand between pieces of source. -/
@[simp]
theorem safe_listWords :
    Safe "- " ∧ Safe "  " ∧ Safe ":" ∧ Safe " (" ∧ Safe " sites)" ∧ Safe " via " ∧
      Safe " in " ∧ Safe "..." ∧ Safe "  [test]" ∧ Safe "  ... " ∧ Safe "- ... " ∧
      Safe " more" ∧ Safe "(file header)" ∧
      Safe "(enclosing declaration not resolved)" := by
  decide

/-! ## List lines -/

@[simp]
theorem safe_relatedLine (declaration : RelatedDeclaration) :
    Safe (relatedLine declaration) := by
  have hsites : Safe (if declaration.sites = 1 then ""
      else " (" ++ toString declaration.sites ++ " sites)") :=
    safe_ite safe_empty (by simp)
  have hname : Safe ((declaration.qualifiedName.map neutralize).getD
      "(enclosing declaration not resolved)") := by
    cases declaration.qualifiedName <;> simp
  simp only [relatedLine, safe_append, hsites, hname, safe_neutralize, safe_toString,
    safe_listWords, and_self]

@[simp]
theorem safe_annotatedKindLabel (kind : DeclKind) : Safe (annotatedKindLabel kind) := by
  have hentry : Safe "enum entry" := by decide
  have hconstructor : Safe "constructor" := by decide
  rw [annotatedKindLabel.eq_def]
  split
  · exact hentry
  · exact hconstructor
  · exact safe_kind_keyword _

@[simp]
theorem safe_trimmedHitLine (source : String) : Safe (trimmedHitLine source) := by
  have hhead (letters : List Char) (hletters : letters <+:
      (neutralize (String.ofList (trim source.toList))).toList) :
      Safe (String.ofList letters) := by
    intro letter hletter
    rw [String.toList_ofList] at hletter
    exact safe_neutralize _ letter (hletters.subset hletter)
  rw [trimmedHitLine]
  apply safe_ite
  · rw [safe_append]
    exact ⟨hhead _ (List.take_prefix _ _), by simp⟩
  · exact hhead _ (List.take_prefix _ _)

theorem allSafe_listedLines {A : Type*} (items : List A) {line : A → String}
    (hline : ∀ item, Safe (line item)) : AllSafe (listedLines items line) := by
  have hnone : Safe "- none" := by decide
  rw [listedLines]
  exact allSafe_ite (by simp [hnone]) (allSafe_map hline)

/-! ## Filter notes -/

theorem safe_describe_iff (filter : SiteFilter) :
    Safe filter.describe ↔ AllSafe filter.path := by
  have hwords : Safe "under " ∧ Safe ", " ∧ Safe " " ∧ Safe "in tests" ∧
      Safe "in production" := by
    decide
  have hpath : Safe ("under " ++ ", ".intercalate filter.path) ↔ AllSafe filter.path := by
    rw [safe_append, safe_intercalate_iff hwords.2.1]
    exact and_iff_right hwords.1
  rw [SiteFilter.describe]
  cases hempty : filter.path.isEmpty with
  | true =>
      rw [List.isEmpty_iff] at hempty
      rw [hempty]
      cases filter.tests <;> simp [hwords]
  | false =>
      rw [if_neg Bool.false_ne_true]
      cases filter.tests <;> simp [hwords, hpath]

/-- A note is safe when the prefixes of its filter are. -/
theorem safe_filterNote_iff (filter : SiteFilter) (omitted : ℕ) :
    Safe (filterNote filter omitted) ↔ AllSafe filter.path := by
  have hwords : Safe " " ∧ Safe "; " ∧ Safe " others" := by decide
  simp only [filterNote, safe_append, safe_toString, hwords, true_and, and_true,
    safe_describe_iff]

theorem safe_note_iff (report : TraceReport) (omitted : AppliedTraceFilter → ℕ) :
    Safe (report.note omitted) ↔
      ∀ applied, report.filter = some applied → AllSafe applied.filter.path := by
  rw [TraceReport.note]
  cases report.filter with
  | none => simp
  | some applied =>
      rw [Option.elim_some, safe_filterNote_iff]
      simp

/-! ## The lines -/

/-- The texts of the template that stand between what is quoted. -/
@[simp]
theorem safe_traceWords :
    Safe "# Trace: " ∧ Safe "index: " ∧ Safe "ignored: " ∧
      Safe " inside ignored directories such as bin/" ∧ Safe "## Definition" ∧
      Safe "## Implementors (" ∧ Safe "precision: " ∧ Safe supertypePrecision ∧
      Safe annotationPrecision ∧ Safe textMatchPrecision := by
  decide

@[simp]
theorem safe_traceHeadings :
    Safe "## Callers" ∧ Safe "## Test callers" ∧ Safe "### Callers at depth " ∧
      Safe "### Test callers at depth " ∧ Safe " from Kotlin" ∧ Safe "## Usages (" ∧
      Safe "## Annotated (" ∧ Safe "## " ∧ Safe " in code, " ∧
      Safe " in comments or strings." ∧ Safe " omitted: " ∧
      Safe "Java text references" ∧ Safe "Kotlin text references" := by
  decide

@[simp]
theorem safe_countedSites (count : ℕ) :
    Safe (pluralize count "site") ∧ Safe (pluralize count "file") ∧
      Safe (pluralize count "engine result") :=
  ⟨safe_pluralize _ (by decide), safe_pluralize _ (by decide),
    safe_pluralize _ (by decide)⟩

@[simp]
theorem safe_label (index : IndexCompleteness) : Safe index.label := by
  cases index <;> decide

@[simp]
theorem safe_fenceLanguage (path : String) : Safe (fenceLanguage path) :=
  safe_ite (by decide) (by decide)

theorem safe_supertypeLine (implementor : SupertypeImplementor) :
    Safe (supertypeLine implementor) := by
  rw [supertypeLine]
  cases implementor.via <;> simp

theorem safe_usageLine (reference : Reference) : Safe (usageLine reference) := by
  rw [usageLine]
  cases reference.enclosing <;> simp

theorem safe_siteLine (site : TextReferenceSite) : Safe (siteLine site) := by
  rw [siteLine]
  cases site.enclosing <;> simp

theorem safe_reasonText (reason : OmissionReason) : Safe reason.text := by
  have hwords : Safe " in file headers" ∧ Safe " by the per-file limit" ∧
      Safe "text mention" ∧ Safe "text mentions" ∧
      Safe " (comments, KDoc, strings)" ∧ Safe "other declaration named" ∧
      Safe "other declarations named" := by
    decide
  cases reason with
  | inHeaders count => simp [OmissionReason.text, hwords]
  | byLimit count => simp [OmissionReason.text, hwords]
  | textMentions count =>
      simp only [OmissionReason.text, safe_append, safe_toString]
      exact ⟨⟨⟨trivial, by simp⟩, safe_ite hwords.2.2.1 hwords.2.2.2.1⟩,
        hwords.2.2.2.2.1⟩
  | otherDeclarations count name =>
      simp only [OmissionReason.text, safe_append, safe_toString]
      exact ⟨⟨⟨⟨trivial, by simp⟩, safe_ite hwords.2.2.2.2.2.1 hwords.2.2.2.2.2.2⟩,
        by simp⟩, safe_neutralize name⟩

theorem safe_omittedSitesText (omitted : OmittedSites) :
    Safe (omittedSitesText omitted) := by
  have hreasons : Safe (", ".intercalate (omitted.reasons.map OmissionReason.text)) :=
    safe_intercalate (by simp) (allSafe_map safe_reasonText)
  have hstop : Safe "." := by decide
  simp [omittedSitesText, hreasons, hstop]

theorem allSafe_grepLines (current : Option (Option String))
    (sites : List TextReferenceSite) : AllSafe (grepLines current sites) := by
  induction sites generalizing current with
  | nil => exact allSafe_nil
  | cons site rest ih =>
      have hheader : Safe (neutralize (site.enclosing.getD "(file header)")) :=
        safe_neutralize _
      rw [grepLines, allSafe_append]
      exact ⟨allSafe_ite (by simp) allSafe_nil, by simp [ih]⟩

theorem allSafe_textReferenceGroupLines (group : TextReferenceGroup) :
    AllSafe (textReferenceGroupLines group) := by
  rw [textReferenceGroupLines, allSafe_append]
  refine ⟨by simp, allSafe_ite ?_ ?_⟩
  · rw [allSafe_append]
    exact ⟨allSafe_grepLines _ _, allSafe_ite (by simp) allSafe_nil⟩
  · rw [allSafe_append]
    exact ⟨allSafe_map safe_siteLine, allSafe_ite (by simp) allSafe_nil⟩

theorem allSafe_textReferencesLines (refs : TextReferences) {heading note : String}
    (hheading : Safe heading) (hnote : Safe note) :
    AllSafe (textReferencesLines refs heading note) := by
  have hgroups : AllSafe (refs.groups.flatMap textReferenceGroupLines) :=
    allSafe_flatMap fun group _ => allSafe_textReferenceGroupLines group
  rw [textReferencesLines, allSafe_append, allSafe_append]
  exact ⟨⟨by simp [hheading, hnote], allSafe_ite (by simp) allSafe_nil⟩, hgroups⟩

theorem allSafe_annotatedTitledLines (annotated : AnnotatedDeclarations) {note : String}
    (hnote : Safe note) : AllSafe (annotatedTitledLines annotated note) := by
  rw [annotatedTitledLines, allSafe_append]
  refine ⟨by simp [hnote], allSafe_flatMap fun group _ => ?_⟩
  rw [annotatedGroupLines, allSafe_append]
  exact ⟨by simp, allSafe_map fun member => by simp [annotatedMemberLine]⟩

theorem allSafe_usageGroupLines (group : ReferenceGroup) :
    AllSafe (usageGroupLines group) := by
  rw [usageGroupLines, allSafe_append, allSafe_append]
  exact ⟨⟨by simp, allSafe_map safe_usageLine⟩, allSafe_ite (by simp) allSafe_nil⟩

theorem allSafe_callerLevelLines (level : CallerLevel) (fromKotlin : Bool)
    {filter : Option SiteFilter} (hfilter : ∀ kept, filter = some kept → AllSafe kept.path) :
    AllSafe (callerLevelLines level fromKotlin filter) := by
  have hnote (omitted : ℕ) : Safe (filter.elim "" (filterNote · omitted)) := by
    cases filter with
    | none => exact safe_empty
    | some kept => exact (safe_filterNote_iff kept omitted).2 (hfilter kept rfl)
  have hcount (count : ℕ) : Safe (if fromKotlin && level.depth = 1 then
      toString count ++ " from Kotlin" else toString count) :=
    safe_ite (by simp) (by simp)
  have hproduction : Safe (if level.depth = 1 then "## Callers"
      else "### Callers at depth " ++ toString level.depth) :=
    safe_ite (by simp) (by simp)
  have htest : Safe (if level.depth = 1 then "## Test callers"
      else "### Test callers at depth " ++ toString level.depth) :=
    safe_ite (by simp) (by simp)
  simp only [callerLevelLines, allSafe_append]
  refine ⟨⟨?_, allSafe_listedLines _ safe_relatedLine⟩, allSafe_ite allSafe_nil ?_⟩
  · simp only [allSafe_cons, safe_append, hproduction, hcount, hnote]
    simp
  · rw [allSafe_append]
    refine ⟨?_, allSafe_listedLines _ safe_relatedLine⟩
    simp only [allSafe_cons, safe_append, htest, hnote, safe_toString]
    simp

/-! ## The trace -/

/-- What a trace prints as it received it can neither break nor reorder a line. -/
structure TraceReport.QuotesSafely (report : TraceReport) : Prop where
  signature : Safe report.definition.signature
  filter : ∀ applied, report.filter = some applied → AllSafe applied.filter.path

namespace TraceReport

variable {report : TraceReport}

theorem allSafe_openingLines_iff :
    AllSafe report.openingLines ↔ Safe report.definition.signature := by
  have hfence := safe_fenceFor report.definition.signature
  have hignored : AllSafe (if 0 < report.ignoredDirectoryResults then
      ["ignored: " ++ pluralize report.ignoredDirectoryResults "engine result" ++
        " inside ignored directories such as bin/"] else []) :=
    allSafe_ite (by simp) allSafe_nil
  simp only [openingLines, definitionLine, allSafe_append, hignored]
  rw [signatureLines]
  split_ifs with hempty
  · simp [fencedLines, hfence]
  · rw [not_not] at hempty
    simp [hempty]

theorem allSafe_implementorLines : AllSafe report.implementorLines := by
  rw [implementorLines]
  cases report.supertypeImplementors with
  | none =>
      rw [Option.elim_none, allSafe_append]
      exact ⟨by simp, allSafe_listedLines _ safe_relatedLine⟩
  | some found =>
      rw [Option.elim_some, supertypeLines, allSafe_append]
      exact ⟨by simp, allSafe_map safe_supertypeLine⟩

section Filtered

variable (hfilter : ∀ applied, report.filter = some applied → AllSafe applied.filter.path)

include hfilter

theorem allSafe_callersLines : AllSafe report.callersLines := by
  refine allSafe_flatMap fun level _ => allSafe_callerLevelLines level _ ?_
  intro kept hkept
  obtain ⟨applied, happlied, rfl⟩ := Option.map_eq_some_iff.1 hkept
  exact hfilter applied happlied

theorem allSafe_attachedLines : AllSafe report.attachedLines := by
  have hnote (omitted : AppliedTraceFilter → ℕ) : Safe (report.note omitted) :=
    (safe_note_iff report omitted).2 hfilter
  rw [attachedLines, allSafe_append, allSafe_append]
  refine ⟨⟨?_, ?_⟩, ?_⟩
  · cases report.annotated with
    | none => exact allSafe_nil
    | some annotated =>
        refine allSafe_ite ?_ allSafe_nil
        simp [allSafe_annotatedTitledLines annotated (hnote _)]
  · cases report.javaTextReferences with
    | none => exact allSafe_nil
    | some java => simp [allSafe_textReferencesLines java _ (hnote _)]
  · cases report.kotlinTextReferences with
    | none => exact allSafe_nil
    | some kotlin => simp [allSafe_textReferencesLines kotlin _ (hnote _)]

end Filtered

theorem allSafe_usagesLines_iff :
    AllSafe report.usagesLines ↔
      ∀ applied, report.filter = some applied → AllSafe applied.filter.path := by
  have homitted : AllSafe ((omittedSites report).elim [] fun omitted =>
      [omittedSitesText omitted]) := by
    cases omittedSites report with
    | none => exact allSafe_nil
    | some omitted => simp [safe_omittedSitesText]
  have hgroups : AllSafe (report.usages.flatMap usageGroupLines) :=
    allSafe_flatMap fun group _ => allSafe_usageGroupLines group
  have hbracket : Safe ")" := by decide
  rw [← safe_note_iff report (·.usagesOmitted)]
  unfold usagesLines usagesHeading
  simp [homitted, hgroups]

theorem allSafe_closingLines : AllSafe report.closingLines := by
  have hjava : Safe ("References from Java sources are text matches; " ++
      "the engine resolves Kotlin only.") := by
    rw [safe_append]
    exact ⟨by decide, by decide⟩
  have hcallers : Safe
      ("Callers are the declarations enclosing each reference site; the engine " ++
        "reports no call hierarchy. Resolution is syntactic, not type-checked.") := by
    rw [safe_append]
    exact ⟨by decide, by decide⟩
  rw [closingLines, allSafe_append, allSafe_cons, allSafe_cons]
  refine ⟨allSafe_ite ?_ allSafe_nil, safe_empty, hcallers, allSafe_nil⟩
  rw [allSafe_cons, allSafe_cons]
  exact ⟨safe_empty, hjava, allSafe_nil⟩

theorem allSafe_lines_iff : AllSafe report.lines ↔ report.QuotesSafely := by
  simp only [lines, allSafe_append, allSafe_openingLines_iff, allSafe_usagesLines_iff,
    allSafe_implementorLines, allSafe_closingLines]
  constructor
  · rintro ⟨⟨⟨⟨⟨hsignature, _⟩, _⟩, hfilter⟩, _⟩, _⟩
    exact ⟨hsignature, hfilter⟩
  · intro hquotes
    have hcallers := allSafe_callersLines hquotes.filter
    have hattached := allSafe_attachedLines hquotes.filter
    exact ⟨⟨⟨⟨⟨hquotes.signature, trivial⟩, hcallers⟩, hquotes.filter⟩, hattached⟩,
      trivial⟩

/-- The fenced texts of a trace, with the language of each fence. -/
def fences (report : TraceReport) : List (String × List String) :=
  if report.definition.signature ≠ "" then
    [(fenceLanguage report.definition.path, [report.definition.signature])]
  else []

theorem fences_printed {language : String} {texts : List String}
    (hfence : (language, texts) ∈ report.fences) :
    (fenced language texts).toList <:+: (renderTraceMarkdown report).toList := by
  rw [fences] at hfence
  split_ifs at hfence with hsignature
  · rw [List.mem_singleton, Prod.mk.injEq] at hfence
    obtain ⟨rfl, rfl⟩ := hfence
    have hopening : (unlines report.signatureLines).toList <:+:
        (unlines report.openingLines).toList := by
      rw [openingLines, unlines_append, String.toList_append]
      exact (List.suffix_append _ _).isInfix
    rw [fenced_eq, renderTraceMarkdown_eq, lines]
    rw [signatureLines, if_pos hsignature] at hopening
    simp only [unlines_append, String.toList_append, List.append_assoc]
    exact hopening.trans (List.prefix_append _ _).isInfix
  · exact absurd hfence (by simp)

/-- A trace is safe exactly when the signature and the prefixes of its filter are. -/
theorem injectionSafe_iff_quotesSafely :
    InjectionSafe (renderTraceMarkdown report) report.lines.length report.fences ↔
      report.QuotesSafely := by
  rw [injectionSafe_iff fun _ _ hfence => fences_printed hfence, renderTraceMarkdown_eq,
    breaks_unlines_iff, allSafe_lines_iff]

end TraceReport

end Ktsense.Core
