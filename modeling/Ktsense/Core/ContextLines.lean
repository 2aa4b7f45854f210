import Ktsense.Core.RenderContext
import Ktsense.Core.TraceLines

/-!
# The lines of a context bundle

`render_context_markdown` as the list of the lines it writes.  A block of the outline
is as many lines as the skeleton writer gave it.
-/

namespace Ktsense.Core

open Ktsense.Foundation

/-! ## Blocks of lines in a fence -/

theorem intercalate_append_lines {left right : List String} (hleft : left ≠ [])
    (hright : right ≠ []) :
    "\n".intercalate (left ++ right) =
      "\n".intercalate left ++ "\n" ++ "\n".intercalate right := by
  induction left with
  | nil => exact absurd rfl hleft
  | cons line rest ih =>
      cases rest with
      | nil =>
          cases right with
          | nil => exact absurd rfl hright
          | cons next more => simp [String.intercalate_cons_cons]
      | cons next more =>
          have hrest := ih (List.cons_ne_nil next more)
          rw [List.cons_append] at hrest
          rw [List.cons_append, List.cons_append, String.intercalate_cons_cons, hrest,
            String.intercalate_cons_cons]
          simp only [String.append_assoc]

theorem linesOf_ne_nil (text : String) : linesOf text ≠ [] := by
  rw [linesOf, ne_eq, List.map_eq_nil_iff]
  exact List.splitOn_ne_nil '\n' text.toList

theorem intercalate_linesOf (text : String) : "\n".intercalate (linesOf text) = text := by
  rw [← String.toList_inj, String.toList_intercalate, linesOf, List.map_map]
  have hletters : String.toList ∘ String.ofList = id := by
    funext letters
    exact String.toList_ofList
  rw [hletters, List.map_id]
  exact List.intercalate_splitOn '\n'

/-- Blocks joined by line breaks are their lines joined by line breaks. -/
theorem intercalate_flatMap_linesOf (blocks : List String) :
    "\n".intercalate (blocks.flatMap linesOf) = "\n".intercalate blocks := by
  induction blocks with
  | nil => rfl
  | cons block rest ih =>
      cases rest with
      | nil => simp [intercalate_linesOf]
      | cons next more =>
          have hne : (next :: more).flatMap linesOf ≠ [] := by
            rw [List.flatMap_cons]
            simp [linesOf_ne_nil]
          rw [List.flatMap_cons, intercalate_append_lines (linesOf_ne_nil block) hne,
            ih, intercalate_linesOf, String.intercalate_cons_cons]

theorem fenced_flatMap_linesOf (language : String) (blocks : List String) :
    fenced language (blocks.flatMap linesOf) = fenced language blocks := by
  rw [fenced, fenced, intercalate_flatMap_linesOf]

/-! ## Sections -/

/-- The lines of a fenced section, or why it is empty; `lines` are those of its
items. -/
def contextBlockLines (part : ContextSection String) (lines : List String)
    (unit language : String) : List String :=
  if part.items.isEmpty then
    ["", if 0 < part.omitted then
        "Omitted for budget: " ++ pluralize part.omitted unit ++ "."
      else "None."]
  else
    fencedLines language lines ++
      if 0 < part.omitted then
        ["", "Omitted for budget: " ++ pluralize part.omitted unit ++ "."]
      else []

def contextListLines {T : Type*} (part : ContextSection T) (line : T → String) :
    List String :=
  if part.items.isEmpty && part.omitted = 0 then ["- none"]
  else
    part.items.map line ++
      if 0 < part.omitted then
        ["- ... " ++ toString part.omitted ++ " omitted for budget"]
      else []

theorem contextBlocks_eq (part : ContextSection String) {lines : List String}
    (hlines : "\n".intercalate lines = "\n".intercalate part.items)
    (unit language : String) :
    contextBlocks part unit language =
      unlines (contextBlockLines part lines unit language) := by
  have hfenced : fenced language part.items = unlines (fencedLines language lines) := by
    rw [← fenced_eq, fenced, fenced, hlines]
  rw [contextBlocks, contextBlockLines, hfenced, ← String.toList_inj]
  split_ifs <;> simp

theorem contextLines_eq {T : Type*} (part : ContextSection T) (line : T → String) :
    contextLines part line = unlines (contextListLines part line) := by
  rw [contextLines, contextListLines, lineContent, ← unlines_map, ← String.toList_inj]
  split_ifs <;> simp

namespace SymbolContext

variable (context : SymbolContext)

def place : String :=
  neutralize context.definition.path ++ ":" ++ toString context.definition.line

def titleLines : List String :=
  ["# Context: " ++ neutralize context.symbol] ++
    if context.matchedSource.isSome then
      [neutralize context.definition.qualifiedName ++ "  " ++ context.place]
    else []

def preambleLines : List String :=
  let lines :=
    (if !context.oneFact || context.index = .partly then
      ["index: " ++ context.index.label]
    else []) ++
    if !context.oneFact then
      ["Budget " ++ toString context.budget ++ " tokens, content bound " ++
        toString context.tokenUpperBound ++ ". " ++
        pluralize context.omitted "item" ++ " omitted for budget."]
    else []
  if lines.isEmpty then [] else "" :: lines

def declarationLines : List String :=
  if context.matchedSource.isSome then []
  else
    ["", "## Declaration", "", context.place] ++
      contextBlockLines context.declaration context.declaration.items "signature"
        context.language

def matchedLines (matched : MatchedSource) : List String :=
  ["", "## Source"] ++
    (if matched.lines.isEmpty then ["", "No source lines matched."]
    else fencedLines "" (matchedBodyLines matched)) ++
    if 0 < matched.omittedLines then
      ["", toString matched.omittedLines ++ " more matched lines omitted; read " ++
        neutralize context.definition.path ++ ":" ++ toString matched.startLine ++
        "-" ++ toString matched.endLine]
    else []

def wholeLines (source : SourceSection) : List String :=
  ["", "## Source"] ++
    (if source.lines.isEmpty then [] else fencedLines context.language source.lines) ++
    if 0 < source.omittedLines then
      ["", toString source.omittedLines ++ " more lines omitted; read " ++
        neutralize context.definition.path ++ ":" ++
        toString (source.startLine + source.lines.length) ++ "-" ++
        toString source.endLine]
    else []

def sourceLines : List String :=
  match context.matchedSource, context.source with
  | some matched, _ => context.matchedLines matched
  | none, none => []
  | none, some source => context.wholeLines source

def outlineLines : List String :=
  if context.sections.outline then
    ["", "## File outline: " ++ neutralize context.definition.path] ++
      contextBlockLines context.fileOutline (context.fileOutline.items.flatMap linesOf)
        "declaration" context.language
  else []

def callersHeading : String :=
  let callers := context.callers.available + context.testCallersOmitted +
    context.callersOmitted
  "## Callers (" ++
    ((if 0 < context.javaTextReferences.available then
      toString callers ++ " from Kotlin"
    else toString callers) ++ context.note (·.callersOmitted)) ++ ")"

def callersLines : List String :=
  if context.sections.callers then
    ["", context.callersHeading] ++
      contextListLines context.callers contextCallerLine ++
      (if 0 < context.callersOmitted then
        ["", toString context.callersOmitted ++ " more callers; trace " ++
          neutralize context.symbol ++ " lists them all"]
      else []) ++
      if 0 < context.testCallersOmitted then
        ["", toString context.testCallersOmitted ++ " more test callers; trace " ++
          neutralize context.symbol ++ " lists them all"]
      else []
  else []

def annotatedLines : List String :=
  if 0 < context.annotated.available then
    ["", "## Annotated (" ++ toString context.annotated.available ++
      context.note (·.annotatedOmitted) ++ ")"] ++
      contextListLines context.annotated annotatedContextLine
  else []

def foreignLines (heading : String) (part : ContextSection ForeignReference)
    (note : String) : List String :=
  if 0 < part.available then
    ["", "## " ++ heading ++ " (" ++ toString part.available ++ note ++ ")",
      "precision: text match"] ++ contextListLines part foreignReferenceLine
  else []

def javaNoteLines : List String :=
  if context.sections.callers && endsWith context.definition.path ".java" then
    ["", "References from Java sources are text matches; " ++
      "the engine resolves Kotlin only."]
  else []

def implementorsLines : List String :=
  if context.sections.implementors then
    ["", "## Implementors (" ++ toString context.implementors.available ++ ")"] ++
      contextListLines context.implementors relatedLine
  else []

def closingText : String :=
  "Callers are the declarations enclosing each reference site; the engine " ++
    "reports no call hierarchy. Resolution is syntactic, not type-checked. " ++
    "The content bound covers the declaration, its source, the outline, and " ++
    "the caller and implementor lines the budget gated, not the headings " ++
    "around them."

def closingLines : List String :=
  if !context.oneFact then ["", closingText] else []

def lines : List String :=
  context.titleLines ++ context.preambleLines ++ context.declarationLines ++
    context.sourceLines ++ context.outlineLines ++ context.callersLines ++
    context.annotatedLines ++
    foreignLines "Java text references" context.javaTextReferences
      (context.note (·.javaTextReferencesOmitted)) ++
    foreignLines "Kotlin text references" context.kotlinTextReferences
      (context.note (·.kotlinTextReferencesOmitted)) ++
    context.javaNoteLines ++ context.implementorsLines ++ context.closingLines

/-! ## Each section is its lines -/

theorem preamble_eq : context.preamble = unlines context.preambleLines := by
  unfold preamble preambleLines
  dsimp only
  rw [← String.toList_inj]
  split_ifs <;> simp_all

theorem declarationSection_eq :
    context.declarationSection = unlines context.declarationLines := by
  rw [declarationSection, declarationLines, contextBlocks_eq _ rfl, place,
    ← String.toList_inj]
  split_ifs <;> simp

theorem matchedSourceSection_eq (matched : MatchedSource) :
    context.matchedSourceSection matched = unlines (context.matchedLines matched) := by
  rw [matchedSourceSection, matchedLines, fenced_eq, ← String.toList_inj]
  split_ifs <;> simp

theorem sourceSection_eq : context.sourceSection = unlines context.sourceLines := by
  unfold sourceSection sourceLines
  cases context.matchedSource with
  | some matched => exact context.matchedSourceSection_eq matched
  | none =>
      cases context.source with
      | none => rfl
      | some source =>
          dsimp only
          rw [wholeLines, fenced_eq, ← String.toList_inj]
          split_ifs <;> simp

theorem outlineSection_eq : context.outlineSection = unlines context.outlineLines := by
  rw [outlineSection, outlineLines,
    contextBlocks_eq _ (intercalate_flatMap_linesOf context.fileOutline.items),
    ← String.toList_inj]
  split_ifs <;> simp

theorem callersSection_eq : context.callersSection = unlines context.callersLines := by
  unfold callersSection callersLines callersHeading
  dsimp only
  rw [contextLines_eq, ← String.toList_inj]
  split_ifs <;> simp

theorem annotatedSection_eq :
    context.annotatedSection = unlines context.annotatedLines := by
  rw [annotatedSection, annotatedLines, contextLines_eq, ← String.toList_inj]
  split_ifs <;> simp

theorem textReferencesSection_eq (heading : String)
    (part : ContextSection ForeignReference) (note : String) :
    textReferencesSection heading part note = unlines (foreignLines heading part note) := by
  rw [textReferencesSection, foreignLines, contextLines_eq, ← String.toList_inj]
  split_ifs <;> simp

theorem implementorsSection_eq :
    context.implementorsSection = unlines context.implementorsLines := by
  rw [implementorsSection, implementorsLines, contextLines_eq, ← String.toList_inj]
  split_ifs <;> simp

theorem append_titleLines (rest : String) :
    "# Context: " ++ neutralize context.symbol ++ "\n" ++
      (if context.matchedSource.isSome then
        neutralize context.definition.qualifiedName ++ "  " ++
          neutralize context.definition.path ++ ":" ++
          toString context.definition.line ++ "\n"
      else "") ++ rest =
      unlines context.titleLines ++ rest := by
  rw [titleLines, place, ← String.toList_inj]
  split_ifs <;> simp

theorem append_javaNoteLines (front : String) :
    front ++
      (if context.sections.callers && endsWith context.definition.path ".java" then
        "\nReferences from Java sources are text matches; " ++
          "the engine resolves Kotlin only.\n"
      else "") =
      front ++ unlines context.javaNoteLines := by
  rw [javaNoteLines, ← String.toList_inj]
  split_ifs <;> simp

theorem append_closingLines (front : String) :
    front ++
      (if !context.oneFact then
        "\nCallers are the declarations enclosing each reference site; the engine " ++
          "reports no call hierarchy. Resolution is syntactic, not type-checked. " ++
          "The content bound covers the declaration, its source, the outline, and " ++
          "the caller and implementor lines the budget gated, not the headings " ++
          "around them.\n"
      else "") =
      front ++ unlines context.closingLines := by
  have hfirst :
      "\nCallers are the declarations enclosing each reference site; the engine " =
        "\n" ++
          "Callers are the declarations enclosing each reference site; the engine " := by
    decide
  have hlast : "around them.\n" = "around them." ++ "\n" := by
    decide
  unfold closingLines closingText
  rw [hfirst, hlast]
  by_cases hone : context.oneFact = true
  · simp [hone]
  · simp only [hone, Bool.not_false, if_true, unlines_cons, unlines_nil, String.append_assoc,
      String.append_empty, String.empty_append]

/-- A bundle is written line by line. -/
theorem renderContextMarkdown_eq :
    renderContextMarkdown context = unlines context.lines := by
  unfold renderContextMarkdown
  rw [append_closingLines, append_javaNoteLines]
  simp only [preamble_eq, declarationSection_eq, sourceSection_eq, outlineSection_eq,
    callersSection_eq, annotatedSection_eq, textReferencesSection_eq,
    implementorsSection_eq, lines, unlines_append]
  congr 11
  have htitle := context.append_titleLines ""
  rwa [String.append_empty, String.append_empty] at htitle

end SymbolContext

end Ktsense.Core
