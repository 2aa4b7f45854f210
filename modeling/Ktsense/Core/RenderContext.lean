import Ktsense.Core.Context

/-!
# Rendering a context bundle

`render_context_markdown`.  Every section prints a heading, the content the
budget paid for and a note of what was left out; the content of the sections
is kept apart in `SymbolContext.printedContent`.
-/

namespace Ktsense.Core

open Ktsense.Foundation

/-- Lines in a fence sized to them. -/
def fenced (language : String) (lines : List String) : String :=
  let body := "\n".intercalate lines
  let fence := fenceFor body
  "\n" ++ fence ++ language ++ "\n" ++ body ++ "\n" ++ fence ++ "\n"

/-- What a fence holds of its lines: joined by line breaks, and one more before
it closes. -/
def fencedContent (lines : List String) : String :=
  if lines.isEmpty then "" else "\n".intercalate lines ++ "\n"

/-- List lines, each ending in a line break. -/
def lineContent {T : Type*} (items : List T) (line : T → String) : String :=
  String.join (items.map fun item => line item ++ "\n")

def contextBlocks (part : ContextSection String) (unit language : String) :
    String :=
  if part.items.isEmpty then
    "\n" ++
      if 0 < part.omitted then
        "Omitted for budget: " ++ pluralize part.omitted unit ++ ".\n"
      else "None.\n"
  else
    fenced language part.items ++
      if 0 < part.omitted then
        "\nOmitted for budget: " ++ pluralize part.omitted unit ++ ".\n"
      else ""

def contextLines {T : Type*} (part : ContextSection T) (line : T → String) :
    String :=
  if part.items.isEmpty && part.omitted = 0 then "- none\n"
  else
    lineContent part.items line ++
      if 0 < part.omitted then
        "- ... " ++ toString part.omitted ++ " omitted for budget\n"
      else ""

/-- A matched line as it is printed, after a gap marker when lines were
skipped. -/
def matchedBodyLines (matched : MatchedSource) : List String :=
  matched.lines.flatMap fun line =>
    (if line.gapBefore then ["..."] else []) ++
      [toString line.number ++ ": " ++ line.text]

namespace SymbolContext

variable (context : SymbolContext)

/-- A bundle narrowed to one fact drops what surrounds the answer. -/
def oneFact : Bool := !context.sections.isAll || context.matchedSource.isSome

def language : String := fenceLanguage context.definition.path

def omitted : ℕ :=
  context.declaration.omitted +
    context.source.elim 0 SourceSection.omittedLines +
    context.matchedSource.elim 0 MatchedSource.omittedLines +
    context.fileOutline.omitted + context.callers.omitted +
    context.annotated.omitted + context.javaTextReferences.omitted +
    context.kotlinTextReferences.omitted + context.implementors.omitted

def note (omitted : AppliedContextFilter → ℕ) : String :=
  context.filter.elim "" fun applied => filterNote applied.filter (omitted applied)

def preamble : String :=
  let lines :=
    (if !context.oneFact || context.index = .partly then
      "index: " ++ context.index.label ++ "\n"
    else "") ++
    (if !context.oneFact then
      "Budget " ++ toString context.budget ++ " tokens, content bound " ++
        toString context.tokenUpperBound ++ ". " ++
        pluralize context.omitted "item" ++ " omitted for budget.\n"
    else "")
  if lines = "" then "" else "\n" ++ lines

def declarationSection : String :=
  if context.matchedSource.isSome then ""
  else
    "\n## Declaration\n\n" ++ neutralize context.definition.path ++ ":" ++
      toString context.definition.line ++ "\n" ++
      contextBlocks context.declaration "signature" context.language

def matchedSourceSection (matched : MatchedSource) : String :=
  "\n## Source\n" ++
    (if matched.lines.isEmpty then "\nNo source lines matched.\n"
    else fenced "" (matchedBodyLines matched)) ++
    if 0 < matched.omittedLines then
      "\n" ++ toString matched.omittedLines ++
        " more matched lines omitted; read " ++
        neutralize context.definition.path ++ ":" ++
        toString matched.startLine ++ "-" ++ toString matched.endLine ++ "\n"
    else ""

def sourceSection : String :=
  match context.matchedSource, context.source with
  | some matched, _ => context.matchedSourceSection matched
  | none, none => ""
  | none, some source =>
      "\n## Source\n" ++
        (if source.lines.isEmpty then ""
        else fenced context.language source.lines) ++
        if 0 < source.omittedLines then
          "\n" ++ toString source.omittedLines ++ " more lines omitted; read " ++
            neutralize context.definition.path ++ ":" ++
            toString (source.startLine + source.lines.length) ++ "-" ++
            toString source.endLine ++ "\n"
        else ""

def outlineSection : String :=
  if context.sections.outline then
    "\n## File outline: " ++ neutralize context.definition.path ++ "\n" ++
      contextBlocks context.fileOutline "declaration" context.language
  else ""

def callersSection : String :=
  if context.sections.callers then
    let callers := context.callers.available + context.testCallersOmitted +
      context.callersOmitted
    let count :=
      (if 0 < context.javaTextReferences.available then
        toString callers ++ " from Kotlin"
      else toString callers) ++ context.note (·.callersOmitted)
    "\n## Callers (" ++ count ++ ")\n" ++
      contextLines context.callers contextCallerLine ++
      (if 0 < context.callersOmitted then
        "\n" ++ toString context.callersOmitted ++ " more callers; trace " ++
          neutralize context.symbol ++ " lists them all\n"
      else "") ++
      if 0 < context.testCallersOmitted then
        "\n" ++ toString context.testCallersOmitted ++
          " more test callers; trace " ++ neutralize context.symbol ++
          " lists them all\n"
      else ""
  else ""

def annotatedSection : String :=
  if 0 < context.annotated.available then
    "\n## Annotated (" ++ toString context.annotated.available ++
      context.note (·.annotatedOmitted) ++ ")\n" ++
      contextLines context.annotated annotatedContextLine
  else ""

def textReferencesSection (heading : String)
    (part : ContextSection ForeignReference) (note : String) : String :=
  if 0 < part.available then
    "\n## " ++ heading ++ " (" ++ toString part.available ++ note ++ ")\n" ++
      "precision: text match\n" ++ contextLines part foreignReferenceLine
  else ""

def implementorsSection : String :=
  if context.sections.implementors then
    "\n## Implementors (" ++ toString context.implementors.available ++ ")\n" ++
      contextLines context.implementors relatedLine
  else ""

/-! ## What is printed of the content -/

/-- The declaration is printed unless matching lines stand in for it. -/
def declarationContent : String :=
  if context.matchedSource.isSome then ""
  else fencedContent context.declaration.items

def sourceContent : String :=
  match context.matchedSource, context.source with
  | some matched, _ => fencedContent (matchedBodyLines matched)
  | none, none => ""
  | none, some source => fencedContent source.lines

def outlineContent : String :=
  if context.sections.outline then fencedContent context.fileOutline.items
  else ""

def callersContent : String :=
  if context.sections.callers then
    lineContent context.callers.items contextCallerLine
  else ""

def implementorsContent : String :=
  if context.sections.implementors then
    lineContent context.implementors.items relatedLine
  else ""

/-- The emitted content as it is printed: the declaration, the source lines, the
outline blocks and the list lines, each with its line break. -/
def printedContent : String :=
  context.declarationContent ++ context.sourceContent ++
    context.outlineContent ++ context.callersContent ++
    lineContent context.annotated.items annotatedContextLine ++
    lineContent context.javaTextReferences.items foreignReferenceLine ++
    lineContent context.kotlinTextReferences.items foreignReferenceLine ++
    context.implementorsContent

end SymbolContext

def renderContextMarkdown (context : SymbolContext) : String :=
  "# Context: " ++ neutralize context.symbol ++ "\n" ++
    (if context.matchedSource.isSome then
      neutralize context.definition.qualifiedName ++ "  " ++
        neutralize context.definition.path ++ ":" ++
        toString context.definition.line ++ "\n"
    else "") ++
    context.preamble ++ context.declarationSection ++ context.sourceSection ++
    context.outlineSection ++ context.callersSection ++
    context.annotatedSection ++
    SymbolContext.textReferencesSection "Java text references"
      context.javaTextReferences (context.note (·.javaTextReferencesOmitted)) ++
    SymbolContext.textReferencesSection "Kotlin text references"
      context.kotlinTextReferences
      (context.note (·.kotlinTextReferencesOmitted)) ++
    (if context.sections.callers && endsWith context.definition.path ".java" then
      "\nReferences from Java sources are text matches; " ++
        "the engine resolves Kotlin only.\n"
    else "") ++
    context.implementorsSection ++
    if !context.oneFact then
      "\nCallers are the declarations enclosing each reference site; the engine " ++
        "reports no call hierarchy. Resolution is syntactic, not type-checked. " ++
        "The content bound covers the declaration, its source, the outline, and " ++
        "the caller and implementor lines the budget gated, not the headings " ++
        "around them.\n"
    else ""

/-! ## The content within the document -/

theorem fencedContent_partOf (language : String) (lines : List String) :
    PartOf (fencedContent lines) (fenced language lines) := by
  rw [fencedContent, fenced]
  split_ifs
  · exact PartOf.empty _
  · apply PartOf.before
    apply PartOf.before
    exact ((PartOf.refl _).after _).append (PartOf.refl _)

theorem fencedContent_partOf_blocks (part : ContextSection String)
    (unit language : String) :
    PartOf (fencedContent part.items) (contextBlocks part unit language) := by
  rw [contextBlocks]
  by_cases hempty : part.items.isEmpty
  · rw [fencedContent, if_pos hempty]
    exact PartOf.empty _
  · rw [if_neg hempty]
    apply PartOf.before
    exact fencedContent_partOf _ _

theorem lineContent_partOf {T : Type*} (part : ContextSection T)
    (line : T → String) :
    PartOf (lineContent part.items line) (contextLines part line) := by
  rw [contextLines]
  by_cases hempty : (part.items.isEmpty && part.omitted = 0) = true
  · simp only [Bool.and_eq_true, List.isEmpty_iff] at hempty
    rw [hempty.1]
    exact PartOf.empty _
  · rw [if_neg hempty]
    apply PartOf.before
    exact PartOf.refl _

/-- A list section that is printed only when it has something to list. -/
theorem lineContent_partOf_of_available {T : Type*} {part : ContextSection T}
    {line : T → String} {section_ : String}
    (hsection : PartOf (contextLines part line) section_) :
    PartOf (lineContent part.items line)
      (if 0 < part.available then section_ else "") := by
  split_ifs with havailable
  · exact (lineContent_partOf part line).trans hsection
  · have hitems : part.items = [] := by
      rw [ContextSection.available] at havailable
      exact List.length_eq_zero_iff.1 (by omega)
    rw [hitems]
    exact PartOf.empty _

namespace SymbolContext

variable (context : SymbolContext)

theorem declarationContent_partOf :
    PartOf context.declarationContent context.declarationSection := by
  rw [declarationContent, declarationSection]
  cases context.matchedSource.isSome with
  | true => exact PartOf.refl _
  | false =>
      apply PartOf.after
      exact fencedContent_partOf_blocks _ _ _

theorem matchedBody_partOf (matched : MatchedSource) :
    PartOf (fencedContent (matchedBodyLines matched))
      (context.matchedSourceSection matched) := by
  rw [matchedSourceSection]
  apply PartOf.before
  apply PartOf.after
  by_cases hempty : matched.lines.isEmpty
  · rw [matchedBodyLines, List.isEmpty_iff.1 hempty]
    exact PartOf.empty _
  · rw [if_neg hempty]
    exact fencedContent_partOf _ _

theorem sourceContent_partOf :
    PartOf context.sourceContent context.sourceSection := by
  rw [sourceContent, sourceSection]
  cases context.matchedSource with
  | some matched => exact context.matchedBody_partOf matched
  | none =>
      cases context.source with
      | none => exact PartOf.refl _
      | some source =>
          change PartOf (fencedContent source.lines) _
          apply PartOf.before
          apply PartOf.after
          by_cases hempty : source.lines.isEmpty
          · rw [List.isEmpty_iff.1 hempty]
            exact PartOf.empty _
          · rw [if_neg hempty]
            exact fencedContent_partOf _ _

theorem outlineContent_partOf :
    PartOf context.outlineContent context.outlineSection := by
  rw [outlineContent, outlineSection]
  cases context.sections.outline with
  | true =>
      apply PartOf.after
      exact fencedContent_partOf_blocks _ _ _
  | false => exact PartOf.refl _

theorem callersContent_partOf :
    PartOf context.callersContent context.callersSection := by
  rw [callersContent, callersSection]
  cases context.sections.callers with
  | true =>
      simp only [if_true]
      apply PartOf.before
      apply PartOf.before
      apply PartOf.after
      exact lineContent_partOf _ _
  | false => exact PartOf.refl _

theorem implementorsContent_partOf :
    PartOf context.implementorsContent context.implementorsSection := by
  rw [implementorsContent, implementorsSection]
  cases context.sections.implementors with
  | true =>
      apply PartOf.after
      exact lineContent_partOf _ _
  | false => exact PartOf.refl _

theorem annotatedContent_partOf :
    PartOf (lineContent context.annotated.items annotatedContextLine)
      context.annotatedSection := by
  apply lineContent_partOf_of_available
  apply PartOf.after
  exact PartOf.refl _

theorem textReferences_partOf (heading : String)
    (part : ContextSection ForeignReference) (note : String) :
    PartOf (lineContent part.items foreignReferenceLine)
      (textReferencesSection heading part note) := by
  apply lineContent_partOf_of_available
  apply PartOf.after
  exact PartOf.refl _

/-- What is called the printed content is printed, in its order. -/
theorem printedContent_partOf :
    PartOf context.printedContent (renderContextMarkdown context) := by
  unfold printedContent renderContextMarkdown
  apply PartOf.before
  refine PartOf.append ?_ context.implementorsContent_partOf
  apply PartOf.before
  refine PartOf.append ?_ (textReferences_partOf _ _ _)
  refine PartOf.append ?_ (textReferences_partOf _ _ _)
  refine PartOf.append ?_ context.annotatedContent_partOf
  refine PartOf.append ?_ context.callersContent_partOf
  refine PartOf.append ?_ context.outlineContent_partOf
  refine PartOf.append ?_ context.sourceContent_partOf
  apply PartOf.after
  exact context.declarationContent_partOf

end SymbolContext

end Ktsense.Core
