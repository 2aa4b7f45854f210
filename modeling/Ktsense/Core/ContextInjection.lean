import Ktsense.Core.ContextLines
import Ktsense.Core.PaidContent
import Ktsense.Core.TraceInjection

/-!
# Source text in a context bundle

The body lines of a bundle are neutralized before the budget measures them, its outline
is rendered safely, and its lists neutralize what they quote.  What is printed as it was
received is the declaration, and the path prefixes of the filter of the callers.
-/

namespace Ktsense.Core

open Ktsense.Foundation

/-! ## List lines -/

@[simp]
theorem safe_contextCallerLine (declaration : RelatedDeclaration) :
    Safe (contextCallerLine declaration) := by
  rw [contextCallerLine, safe_append]
  exact ⟨safe_relatedLine declaration, safe_ite (by simp) safe_empty⟩

@[simp]
theorem safe_annotatedContextLine (declaration : AnnotatedDeclaration) :
    Safe (annotatedContextLine declaration) := by
  simp only [annotatedContextLine, safe_append, safe_neutralize, safe_toString,
    safe_annotatedKindLabel, safe_listWords, and_self]

@[simp]
theorem safe_foreignReferenceLine (reference : ForeignReference) :
    Safe (foreignReferenceLine reference) := by
  have hcolon : Safe ": " := by decide
  rw [foreignReferenceLine]
  cases reference.enclosing <;> cases reference.text <;> simp [hcolon]

/-! ## Blocks and lists -/

theorem allSafe_fencedLines_iff {language : String} {lines : List String}
    (hlanguage : Safe language) : AllSafe (fencedLines language lines) ↔ AllSafe lines := by
  constructor
  · intro hsafe line hline
    apply hsafe line
    rw [fencedLines, if_neg (List.ne_nil_of_mem hline)]
    exact List.mem_append_left _ (List.mem_append_right _ hline)
  · exact allSafe_fencedLines hlanguage

theorem safe_omittedForBudget (count : ℕ) {unit : String} (hunit : Safe unit) :
    Safe ("Omitted for budget: " ++ pluralize count unit ++ ".") := by
  have hwords : Safe "Omitted for budget: " ∧ Safe "." := by decide
  rw [safe_append, safe_append]
  exact ⟨⟨hwords.1, safe_pluralize count hunit⟩, hwords.2⟩

theorem allSafe_contextBlockLines_iff {part : ContextSection String}
    {lines : List String} {unit language : String} (hunit : Safe unit)
    (hlanguage : Safe language) (hnone : part.items = [] → lines = []) :
    AllSafe (contextBlockLines part lines unit language) ↔ AllSafe lines := by
  have homitted := safe_omittedForBudget part.omitted hunit
  have hword : Safe "None." := by decide
  rw [contextBlockLines]
  by_cases hempty : part.items.isEmpty = true
  · have hlines : AllSafe [] := allSafe_nil
    rw [if_pos hempty, hnone (List.isEmpty_iff.1 hempty)]
    refine iff_of_true ?_ hlines
    rw [allSafe_cons, allSafe_cons]
    exact ⟨safe_empty, safe_ite homitted hword, allSafe_nil⟩
  · have hrest : AllSafe (if 0 < part.omitted then
        ["", "Omitted for budget: " ++ pluralize part.omitted unit ++ "."] else []) :=
      allSafe_ite (by simp only [allSafe_cons, homitted, safe_empty, allSafe_nil, and_self])
        allSafe_nil
    rw [if_neg hempty, allSafe_append, allSafe_fencedLines_iff hlanguage]
    exact and_iff_left hrest

theorem allSafe_contextListLines {T : Type*} (part : ContextSection T) {line : T → String}
    (hline : ∀ item, Safe (line item)) : AllSafe (contextListLines part line) := by
  have hwords : Safe "- none" ∧ Safe " omitted for budget" := by decide
  rw [contextListLines]
  apply allSafe_ite (by simp [hwords])
  rw [allSafe_append]
  exact ⟨allSafe_map hline, allSafe_ite (by simp [hwords]) allSafe_nil⟩

/-! ## The bundle -/

namespace SymbolContext

/-- What the builder makes safe before a bundle is printed, and the lists that stay
empty without the callers. -/
structure Prepared (context : SymbolContext) : Prop where
  source : ∀ source, context.source = some source → AllSafe source.lines
  matched : ∀ matched, context.matchedSource = some matched →
    AllSafe (matchedBodyLines matched)
  outline : AllSafe (context.fileOutline.items.flatMap linesOf)
  attached : context.sections.callers = false → context.annotated.available = 0 ∧
    context.javaTextReferences.available = 0 ∧ context.kotlinTextReferences.available = 0

/-- What a bundle prints as it received it can neither break nor reorder a line. -/
structure QuotesSafely (context : SymbolContext) : Prop where
  declaration : context.matchedSource.isSome = false → AllSafe context.declaration.items
  filter : context.sections.callers = true → ∀ applied, context.filter = some applied →
    AllSafe applied.filter.path

variable {context : SymbolContext}

@[simp]
theorem safe_place : Safe context.place := by
  rw [place]
  simp

theorem safe_note_iff (omitted : AppliedContextFilter → ℕ) :
    Safe (context.note omitted) ↔
      ∀ applied, context.filter = some applied → AllSafe applied.filter.path := by
  rw [note]
  cases context.filter with
  | none => simp
  | some applied =>
      rw [Option.elim_some, safe_filterNote_iff]
      simp

theorem allSafe_titleLines : AllSafe context.titleLines := by
  have hwords : Safe "# Context: " ∧ Safe "  " := by decide
  rw [titleLines, allSafe_append]
  exact ⟨by simp [hwords], allSafe_ite (by simp [hwords]) allSafe_nil⟩

theorem allSafe_preambleLines : AllSafe context.preambleLines := by
  have hwords : Safe "Budget " ∧ Safe " tokens, content bound " ∧ Safe ". " ∧
      Safe " omitted for budget." := by
    decide
  have hitem : Safe "item" := by decide
  have hitems := safe_pluralize context.omitted hitem
  have hlines : AllSafe
      ((if !context.oneFact || context.index = .partly then
        ["index: " ++ context.index.label]
      else []) ++
      if !context.oneFact then
        ["Budget " ++ toString context.budget ++ " tokens, content bound " ++
          toString context.tokenUpperBound ++ ". " ++
          pluralize context.omitted "item" ++ " omitted for budget."]
      else []) := by
    rw [allSafe_append]
    exact ⟨allSafe_ite (by simp) allSafe_nil,
      allSafe_ite (by simp [hwords, hitems]) allSafe_nil⟩
  unfold preambleLines
  exact allSafe_ite allSafe_nil ((allSafe_cons _ _).2 ⟨safe_empty, hlines⟩)

theorem allSafe_declarationLines_iff :
    AllSafe context.declarationLines ↔
      (context.matchedSource.isSome = false → AllSafe context.declaration.items) := by
  have hunit : Safe "signature" := by decide
  have hheading : Safe "## Declaration" := by decide
  have hitems : context.declaration.items = [] → context.declaration.items = [] := id
  have hblock := allSafe_contextBlockLines_iff hunit
    (safe_fenceLanguage context.definition.path) hitems
  rw [declarationLines]
  cases context.matchedSource.isSome with
  | true => simp
  | false =>
      rw [if_neg Bool.false_ne_true, allSafe_append, language, hblock]
      simp [hheading]

theorem allSafe_sourceLines (hprepared : context.Prepared) : AllSafe context.sourceLines := by
  have hwords : Safe "## Source" ∧ Safe "No source lines matched." ∧
      Safe " more matched lines omitted; read " ∧ Safe " more lines omitted; read " ∧
      Safe "-" := by
    decide
  rw [sourceLines]
  cases hmatched : context.matchedSource with
  | some matched =>
      have hbody := allSafe_fencedLines safe_empty (hprepared.matched matched hmatched)
      change AllSafe (context.matchedLines matched)
      rw [matchedLines, allSafe_append, allSafe_append]
      exact ⟨⟨by simp [hwords], allSafe_ite (by simp [hwords]) hbody⟩,
        allSafe_ite (by simp [hwords]) allSafe_nil⟩
  | none =>
      cases hsource : context.source with
      | none => exact allSafe_nil
      | some source =>
          have hbody := allSafe_fencedLines (safe_fenceLanguage context.definition.path)
            (hprepared.source source hsource)
          change AllSafe (context.wholeLines source)
          rw [wholeLines, allSafe_append, allSafe_append]
          exact ⟨⟨by simp [hwords], allSafe_ite allSafe_nil hbody⟩,
            allSafe_ite (by simp [hwords]) allSafe_nil⟩

theorem allSafe_outlineLines (hprepared : context.Prepared) :
    AllSafe context.outlineLines := by
  have hunit : Safe "declaration" := by decide
  have hheading : Safe "## File outline: " := by decide
  have hblock : AllSafe (contextBlockLines context.fileOutline
      (context.fileOutline.items.flatMap linesOf) "declaration" context.language) :=
    (allSafe_contextBlockLines_iff hunit (safe_fenceLanguage context.definition.path)
      (by intro hitems; rw [hitems]; rfl)).2 hprepared.outline
  rw [outlineLines]
  apply allSafe_ite _ allSafe_nil
  rw [allSafe_append]
  exact ⟨by simp [hheading], hblock⟩

theorem safe_callersHeading_iff :
    Safe context.callersHeading ↔ Safe (context.note (·.callersOmitted)) := by
  have hwords : Safe "## Callers (" ∧ Safe ")" := by decide
  unfold callersHeading
  dsimp only
  simp only [safe_append, hwords, true_and, and_true]
  apply and_iff_right
  exact safe_ite (by simp) (by simp)

theorem allSafe_callersLines_iff :
    AllSafe context.callersLines ↔ (context.sections.callers = true →
      ∀ applied, context.filter = some applied → AllSafe applied.filter.path) := by
  have hwords : Safe " more callers; trace " ∧ Safe " more test callers; trace " ∧
      Safe " lists them all" := by
    decide
  have hlist := allSafe_contextListLines context.callers safe_contextCallerLine
  have hmore (count : ℕ) {text : String} (htext : Safe text) :
      AllSafe (if 0 < count then
        ["", toString count ++ text ++ neutralize context.symbol ++ " lists them all"]
      else []) :=
    allSafe_ite (by simp [hwords, htext]) allSafe_nil
  rw [callersLines]
  cases context.sections.callers with
  | false => simp
  | true =>
      rw [if_pos rfl, ← safe_note_iff (·.callersOmitted), ← safe_callersHeading_iff]
      simp only [allSafe_append, allSafe_cons, allSafe_nil, hlist,
        hmore context.callersOmitted hwords.1, hmore context.testCallersOmitted hwords.2.1]
      simp

theorem allSafe_annotatedLines (hnote : Safe (context.note (·.annotatedOmitted))) :
    AllSafe context.annotatedLines := by
  have hwords : Safe "## Annotated (" ∧ Safe ")" := by decide
  rw [annotatedLines]
  apply allSafe_ite _ allSafe_nil
  rw [allSafe_append]
  exact ⟨by simp [hwords, hnote], allSafe_contextListLines _ safe_annotatedContextLine⟩

theorem allSafe_foreignLines {heading note : String} (part : ContextSection ForeignReference)
    (hheading : Safe heading) (hnote : Safe note) :
    AllSafe (foreignLines heading part note) := by
  have hwords : Safe "## " ∧ Safe ")" ∧ Safe "precision: text match" := by decide
  rw [foreignLines]
  apply allSafe_ite _ allSafe_nil
  rw [allSafe_append]
  exact ⟨by simp [hwords, hheading, hnote],
    allSafe_contextListLines _ safe_foreignReferenceLine⟩

theorem allSafe_javaNoteLines : AllSafe context.javaNoteLines := by
  have hnote : Safe ("References from Java sources are text matches; " ++
      "the engine resolves Kotlin only.") := by
    rw [safe_append]
    exact ⟨by decide, by decide⟩
  rw [javaNoteLines]
  apply allSafe_ite _ allSafe_nil
  rw [allSafe_cons, allSafe_cons]
  exact ⟨safe_empty, hnote, allSafe_nil⟩

theorem allSafe_implementorsLines : AllSafe context.implementorsLines := by
  have hwords : Safe "## Implementors (" ∧ Safe ")" := by decide
  rw [implementorsLines]
  apply allSafe_ite _ allSafe_nil
  rw [allSafe_append]
  exact ⟨by simp [hwords], allSafe_contextListLines _ safe_relatedLine⟩

theorem safe_closingText : Safe closingText := by
  unfold closingText
  rw [safe_append, safe_append, safe_append, safe_append]
  exact ⟨⟨⟨⟨by decide, by decide⟩, by decide⟩, by decide⟩, by decide⟩

theorem allSafe_closingLines : AllSafe context.closingLines := by
  rw [closingLines]
  apply allSafe_ite _ allSafe_nil
  rw [allSafe_cons, allSafe_cons]
  exact ⟨safe_empty, safe_closingText, allSafe_nil⟩

/-- The lists that go with the callers are printed with their notes only where the
callers are. -/
theorem allSafe_attached (hprepared : context.Prepared)
    (hfilter : context.sections.callers = true → ∀ applied,
      context.filter = some applied → AllSafe applied.filter.path) :
    AllSafe (context.annotatedLines ++
      foreignLines "Java text references" context.javaTextReferences
        (context.note (·.javaTextReferencesOmitted)) ++
      foreignLines "Kotlin text references" context.kotlinTextReferences
        (context.note (·.kotlinTextReferencesOmitted))) := by
  have hwords : Safe "Java text references" ∧ Safe "Kotlin text references" := by decide
  simp only [allSafe_append]
  cases hcallers : context.sections.callers with
  | false =>
      have hnone := hprepared.attached hcallers
      rw [annotatedLines, foreignLines, foreignLines, hnone.1, hnone.2.1, hnone.2.2]
      simp
  | true =>
      have hnote (omitted : AppliedContextFilter → ℕ) : Safe (context.note omitted) :=
        (safe_note_iff omitted).2 (hfilter hcallers)
      exact ⟨⟨allSafe_annotatedLines (hnote _), allSafe_foreignLines _ hwords.1 (hnote _)⟩,
        allSafe_foreignLines _ hwords.2 (hnote _)⟩

theorem allSafe_lines_iff (hprepared : context.Prepared) :
    AllSafe context.lines ↔ context.QuotesSafely := by
  have hattached := allSafe_attached hprepared
  simp only [allSafe_append] at hattached
  simp only [lines, allSafe_append, allSafe_titleLines, allSafe_preambleLines,
    allSafe_sourceLines hprepared, allSafe_outlineLines hprepared, allSafe_javaNoteLines,
    allSafe_implementorsLines, allSafe_closingLines, allSafe_declarationLines_iff,
    allSafe_callersLines_iff, true_and, and_true]
  constructor
  · intro hlines
    exact ⟨hlines.1.1.1.1, hlines.1.1.1.2⟩
  · intro hquotes
    have hrest := hattached hquotes.filter
    exact ⟨⟨⟨⟨hquotes.declaration, hquotes.filter⟩, hrest.1.1⟩, hrest.1.2⟩, hrest.2⟩

/-! ## Fences -/

/-- The fence of the body, in either view. -/
def sourceFences : List (String × List String) :=
  match context.matchedSource, context.source with
  | some matched, _ =>
      if matched.lines.isEmpty then [] else [("", matchedBodyLines matched)]
  | none, none => []
  | none, some source =>
      if source.lines.isEmpty then [] else [(context.language, source.lines)]

/-- The fenced texts of a bundle, with the language of each fence. -/
def fences (context : SymbolContext) : List (String × List String) :=
  (if context.matchedSource.isSome || context.declaration.items.isEmpty then []
    else [(context.language, context.declaration.items)]) ++
    context.sourceFences ++
    if context.sections.outline && !context.fileOutline.items.isEmpty then
      [(context.language, context.fileOutline.items)]
    else []

theorem infix_unlines {inner outer : List String} (hinner : inner <:+: outer) :
    (unlines inner).toList <:+: (unlines outer).toList := by
  obtain ⟨front, back, rfl⟩ := hinner
  rw [unlines_append, unlines_append, String.toList_append, String.toList_append]
  exact List.infix_append _ _ _

theorem fencedLines_infix_blockLines {part : ContextSection String} {lines : List String}
    {unit language : String} (hitems : part.items.isEmpty = false) :
    fencedLines language lines <:+: contextBlockLines part lines unit language := by
  rw [contextBlockLines, hitems, if_neg Bool.false_ne_true]
  exact (List.prefix_append _ _).isInfix

section Fences

variable {language : String} {texts : List String}

theorem infix_declarationLines
    (hfence : (language, texts) ∈
      if context.matchedSource.isSome || context.declaration.items.isEmpty then []
      else [(context.language, context.declaration.items)]) :
    (fenced language texts).toList <:+: (unlines context.declarationLines).toList := by
  split_ifs at hfence with hshown
  · exact absurd hfence List.not_mem_nil
  · rw [List.mem_singleton, Prod.mk.injEq] at hfence
    rw [Bool.or_eq_true, not_or, Bool.not_eq_true, Bool.not_eq_true] at hshown
    rw [hfence.1, hfence.2, fenced_eq, declarationLines, hshown.1, if_neg Bool.false_ne_true]
    apply infix_unlines
    exact (fencedLines_infix_blockLines hshown.2).trans (List.suffix_append _ _).isInfix

theorem infix_sourceLines (hfence : (language, texts) ∈ context.sourceFences) :
    (fenced language texts).toList <:+: (unlines context.sourceLines).toList := by
  rw [sourceFences] at hfence
  rw [fenced_eq, sourceLines]
  apply infix_unlines
  cases hmatched : context.matchedSource with
  | some matched =>
      simp only [hmatched] at hfence
      change _ <:+: context.matchedLines matched
      split_ifs at hfence with hlines
      · exact absurd hfence List.not_mem_nil
      · rw [List.mem_singleton, Prod.mk.injEq] at hfence
        rw [hfence.1, hfence.2, matchedLines, if_neg hlines]
        exact List.infix_append _ _ _
  | none =>
      cases hsource : context.source with
      | none =>
          simp only [hmatched, hsource] at hfence
          exact absurd hfence List.not_mem_nil
      | some source =>
          simp only [hmatched, hsource] at hfence
          change _ <:+: context.wholeLines source
          split_ifs at hfence with hlines
          · exact absurd hfence List.not_mem_nil
          · rw [List.mem_singleton, Prod.mk.injEq] at hfence
            rw [hfence.1, hfence.2, wholeLines, if_neg hlines]
            exact List.infix_append _ _ _

theorem infix_outlineLines
    (hfence : (language, texts) ∈
      if context.sections.outline && !context.fileOutline.items.isEmpty then
        [(context.language, context.fileOutline.items)]
      else []) :
    (fenced language texts).toList <:+: (unlines context.outlineLines).toList := by
  split_ifs at hfence with hshown
  · rw [List.mem_singleton, Prod.mk.injEq] at hfence
    rw [Bool.and_eq_true, Bool.not_eq_true'] at hshown
    rw [hfence.1, hfence.2, ← fenced_flatMap_linesOf, fenced_eq, outlineLines,
      if_pos hshown.1]
    apply infix_unlines
    exact (fencedLines_infix_blockLines hshown.2).trans (List.suffix_append _ _).isInfix
  · exact absurd hfence List.not_mem_nil

/-- What stands in a fence is printed in it. -/
theorem fences_printed (hfence : (language, texts) ∈ context.fences) :
    (fenced language texts).toList <:+: (renderContextMarkdown context).toList := by
  rw [fences, List.mem_append, List.mem_append, or_assoc] at hfence
  have hblocks : (fenced language texts).toList <:+:
      (unlines (context.declarationLines ++ context.sourceLines ++
        context.outlineLines)).toList := by
    rw [unlines_append, unlines_append, String.toList_append, String.toList_append]
    rcases hfence with hdeclaration | hsource | houtline
    · exact (infix_declarationLines hdeclaration).trans
        ((List.prefix_append _ _).trans (List.prefix_append _ _)).isInfix
    · exact (infix_sourceLines hsource).trans
        ((List.suffix_append _ _).isInfix.trans (List.prefix_append _ _).isInfix)
    · exact (infix_outlineLines houtline).trans (List.suffix_append _ _).isInfix
  refine hblocks.trans ?_
  rw [renderContextMarkdown_eq]
  apply infix_unlines
  refine ⟨context.titleLines ++ context.preambleLines,
    context.callersLines ++ context.annotatedLines ++
      foreignLines "Java text references" context.javaTextReferences
        (context.note (·.javaTextReferencesOmitted)) ++
      foreignLines "Kotlin text references" context.kotlinTextReferences
        (context.note (·.kotlinTextReferencesOmitted)) ++
      context.javaNoteLines ++ context.implementorsLines ++ context.closingLines, ?_⟩
  simp only [lines, List.append_assoc]

end Fences

theorem injectionSafe_iff_quotesSafely (hprepared : context.Prepared) :
    InjectionSafe (renderContextMarkdown context) context.lines.length context.fences ↔
      context.QuotesSafely := by
  rw [injectionSafe_iff fun _ _ hfence => fences_printed hfence, renderContextMarkdown_eq,
    breaks_unlines_iff, allSafe_lines_iff hprepared]

end SymbolContext

/-! ## What the builder prepares -/

theorem safe_matchedCandidates {rawLines : List String} (hraw : AllSafe rawLines)
    (startLine : ℕ) (previous : Option ℕ) (indices : List ℕ) :
    ∀ candidate ∈ matchedCandidates rawLines startLine previous indices,
      ∀ line, candidate.matched = some line → Safe line.text := by
  induction indices generalizing previous with
  | nil => simp [matchedCandidates]
  | cons index rest ih =>
      intro candidate hcandidate line hline
      rcases List.mem_cons.1 hcandidate with rfl | hrest
      · obtain rfl := Option.some.inj hline
        by_cases hindex : index < rawLines.length
        · change Safe (rawLines.getD index "")
          rw [List.getD_eq_getElem _ _ hindex]
          exact hraw _ (List.getElem_mem hindex)
        · change Safe (rawLines.getD index "")
          rw [List.getD_eq_default _ _ (not_lt.1 hindex)]
          exact safe_empty
      · exact ih (some index) candidate hrest line hline

theorem allSafe_matchedBodyLines {matched : MatchedSource}
    (hmatched : ∀ line ∈ matched.lines, Safe line.text) :
    AllSafe (matchedBodyLines matched) := by
  have hcolon : Safe ": " := by decide
  rw [matchedBodyLines]
  apply allSafe_flatMap
  intro line hline
  rw [allSafe_append]
  exact ⟨allSafe_ite (by simp) allSafe_nil, by simp [hcolon, hmatched line hline]⟩

theorem linesOf_outlineBlock {file : FileSkeleton} {declaration : Declaration}
    {block : String} (hblock : outlineBlock file declaration = some block) :
    AllSafe (linesOf block) := by
  unfold outlineBlock at hblock
  dsimp only at hblock
  split_ifs at hblock with hempty
  obtain rfl := Option.some.inj hblock
  rw [renderSkeleton_eq, linesOf_intercalate (allSafe_skeletonLines _ _)
    (skeletonLines_ne_nil hempty)]
  exact allSafe_skeletonLines _ _

section Building

variable (input : ContextInput) (estimator : TokenEstimator)

theorem keptSource_subset {body : SourceBody} (hbody : input.body = some body) :
    keptSource input estimator ⊆ body.candidates := by
  rw [← offeredSource_eq input hbody]
  exact (keptSource_isPrefix input estimator).subset

theorem allSafe_source_buildContext {source : SourceSection}
    (hsource : (buildContext input estimator).source = some source) :
    AllSafe source.lines := by
  obtain ⟨_, _, lines, _, hlines⟩ := lines_buildContext input estimator hsource
  rw [hlines]
  exact allSafe_map fun _ => safe_neutralize _

theorem allSafe_matched_buildContext {matched : MatchedSource}
    (hsource : (buildContext input estimator).matchedSource = some matched) :
    AllSafe (matchedBodyLines matched) := by
  cases hbody : input.body with
  | none =>
      rw [(noSource_buildContext input estimator hbody).2] at hsource
      cases hsource
  | some body =>
      have hkept := keptSource_subset input estimator hbody
      obtain ⟨lines, start, last, -, -, -, -, rfl | ⟨spec, rfl⟩⟩ :=
        sourceBody_cases (body_eq_some hbody)
      · rw [(wholeSource_buildContext input estimator hbody rfl).2] at hsource
        cases hsource
      · have hmatched := (matchedSource_buildContext input estimator hbody rfl).1
        obtain rfl := Option.some.inj (hmatched.symm.trans hsource)
        apply allSafe_matchedBodyLines
        intro line hline
        obtain ⟨candidate, hcandidate, hnumbered⟩ := List.mem_filterMap.1 hline
        have hraw : AllSafe (bodyLines lines start last) :=
          allSafe_map fun _ => safe_neutralize _
        exact safe_matchedCandidates hraw _ _ _ candidate (hkept hcandidate) line hnumbered

theorem allSafe_outline_buildContext :
    AllSafe ((buildContext input estimator).fileOutline.items.flatMap linesOf) := by
  have hspent := (buildContext_spends_by_priority input estimator).fileOutline.1
  apply allSafe_flatMap
  intro block hblock
  have hoffered := hspent.subset hblock
  rw [ContextInput.offeredOutline] at hoffered
  split_ifs at hoffered
  · cases hfile : input.file with
    | none =>
        rw [hfile] at hoffered
        exact absurd hoffered List.not_mem_nil
    | some file =>
        rw [hfile] at hoffered
        obtain ⟨declaration, _, hrendered⟩ := List.mem_filterMap.1 hoffered
        exact linesOf_outlineBlock hrendered
  · exact absurd hoffered List.not_mem_nil

/-- A list that was offered nothing shows and omits nothing. -/
theorem Cut.available_eq_zero {T : Type*} {part : ContextSection T} (hcut : Cut [] part) :
    part.available = 0 := hcut.2

theorem prepared_buildContext : (buildContext input estimator).Prepared where
  source _ hsource := allSafe_source_buildContext input estimator hsource
  matched _ hmatched := allSafe_matched_buildContext input estimator hmatched
  outline := allSafe_outline_buildContext input estimator
  attached := by
    intro hcallers
    have hcallers : input.sections.callers = false := hcallers
    have hspent := buildContext_spends_by_priority input estimator
    have hnone {T : Type} (items : List T) : input.withCallers items = [] := by
      rw [ContextInput.withCallers, hcallers, if_neg Bool.false_ne_true]
    have hannotated := hspent.annotated
    have hjava := hspent.javaTextReferences
    have hkotlin := hspent.kotlinTextReferences
    rw [ContextInput.offeredAnnotated, hnone] at hannotated
    rw [ContextInput.offeredJava, hnone] at hjava
    rw [ContextInput.offeredKotlin, hnone] at hkotlin
    exact ⟨hannotated.available_eq_zero, hjava.available_eq_zero,
      hkotlin.available_eq_zero⟩

/-- The signature is the first unit, kept exactly when it fits by itself. -/
theorem declaration_items_buildContext :
    (buildContext input estimator).declaration.items =
      if fits input.budget (estimator input.definition.signature) then
        input.offeredDeclaration
      else [] := by
  have hcut := (buildContext_spends_by_priority input estimator).declaration.1
  by_cases hsignature : input.definition.signature = ""
  · have hoffered : input.offeredDeclaration = [] := by
      rw [ContextInput.offeredDeclaration, if_neg (not_not.2 hsignature)]
    rw [hoffered] at hcut ⊢
    rw [List.prefix_nil.1 hcut, ite_self]
  · have hoffered : input.offeredDeclaration = [input.definition.signature] := by
      rw [ContextInput.offeredDeclaration, if_pos hsignature]
    obtain ⟨rest, hunits⟩ : ∃ rest, input.unitsInPriorityOrder =
        ⟨input.definition.signature, .declaration input.definition.signature⟩ :: rest := by
      rw [ContextInput.unitsInPriorityOrder, hoffered]
      exact ⟨_, rfl⟩
    have hitems : (buildContext input estimator).declaration.items =
        regrouped (spend (fits input.budget) (fun unit : ContextUnit => estimator unit.text)
          0 input.unitsInPriorityOrder).1 Payload.declaration? := rfl
    rw [hoffered] at hcut ⊢
    rw [hitems, hunits, spend, Nat.zero_add] at hcut ⊢
    by_cases hfits : fits input.budget (estimator input.definition.signature) = true
    · rw [if_pos hfits] at hcut ⊢
      rw [if_pos hfits]
      exact hcut.eq_of_length_le (Nat.le_add_left 1 _)
    · rw [if_neg hfits, if_neg hfits]
      rfl

end Building

/-! ## Injection safety -/

/-- What a bundle prints as it received it: the signature, unless matching lines stand in
for it or the budget has no room for it, and the prefixes of the filter of its callers. -/
structure ContextInput.QuotesSafely (input : ContextInput) (estimator : TokenEstimator) :
    Prop where
  signature : input.matchedView = false →
    fits input.budget (estimator input.definition.signature) = true →
    Safe input.definition.signature
  filter : input.sections.callers = true → ∀ applied, input.filter = some applied →
    AllSafe applied.filter.path

theorem quotesSafely_buildContext_iff (input : ContextInput) (estimator : TokenEstimator) :
    (buildContext input estimator).QuotesSafely ↔ input.QuotesSafely estimator := by
  have hview := isSome_matchedSource input estimator
  have hitems := declaration_items_buildContext input estimator
  have hoffered : AllSafe input.offeredDeclaration ↔ Safe input.definition.signature := by
    rw [ContextInput.offeredDeclaration]
    by_cases hsignature : input.definition.signature = ""
    · simp [hsignature]
    · simp [hsignature]
  constructor
  · intro hquotes
    refine ⟨fun hmatched hfits => ?_, hquotes.filter⟩
    have hdeclaration := hquotes.declaration (hview.trans hmatched)
    rw [hitems, if_pos hfits] at hdeclaration
    exact hoffered.1 hdeclaration
  · intro hquotes
    refine ⟨fun hmatched => ?_, hquotes.filter⟩
    rw [hitems]
    split_ifs with hfits
    · exact hoffered.2 (hquotes.signature (hview.symm.trans hmatched) hfits)
    · exact allSafe_nil

end Ktsense.Core
