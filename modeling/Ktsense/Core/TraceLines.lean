import Ktsense.Core.RenderTrace
import Ktsense.Core.SafeText

/-!
# The lines of a trace

`render_trace_markdown` as the list of the lines it writes.  A signature and a
heading are one line of the template each, whatever they hold.
-/

namespace Ktsense.Core

open Ktsense.Foundation

/-- The lines of a list, or the one that says it is empty. -/
def listedLines {A : Type*} (items : List A) (line : A → String) : List String :=
  if items.isEmpty then ["- none"] else items.map line

def supertypeLine (implementor : SupertypeImplementor) : String :=
  "- " ++ neutralize implementor.fqn ++ "  " ++ neutralize implementor.path ++ ":" ++
    toString implementor.line ++
    match implementor.via with
    | some parent => " via " ++ neutralize parent
    | none => ""

def supertypeLines (found : SupertypeImplementors) : List String :=
  ["", "## Implementors (" ++ toString found.implementors.length ++ ")",
    "precision: " ++ supertypePrecision] ++ found.implementors.map supertypeLine

def callerLevelLines (level : CallerLevel) (fromKotlin : Bool)
    (filter : Option SiteFilter) : List String :=
  let production := level.callers.filter (!·.test)
  let tests := level.callers.filter (·.test)
  let productionHeading :=
    if level.depth = 1 then "## Callers"
    else "### Callers at depth " ++ toString level.depth
  let testHeading :=
    if level.depth = 1 then "## Test callers"
    else "### Test callers at depth " ++ toString level.depth
  let productionCount :=
    (if fromKotlin && level.depth = 1 then
      toString production.length ++ " from Kotlin"
    else toString production.length) ++
      filter.elim "" (filterNote · level.productionOmitted)
  let testCount := toString tests.length ++
    filter.elim "" (filterNote · level.testOmitted)
  ["", productionHeading ++ " (" ++ productionCount ++ ")"] ++
    listedLines production relatedLine ++
    if tests.isEmpty then []
    else ["", testHeading ++ " (" ++ testCount ++ ")"] ++ listedLines tests relatedLine

def usageLine (reference : Reference) : String :=
  "- " ++ toString reference.line ++
    match reference.enclosing with
    | some enclosing => " in " ++ neutralize enclosing.qualifiedName
    | none => ""

def usageGroupLines (group : ReferenceGroup) : List String :=
  ["", neutralize group.path] ++ group.references.map usageLine ++
    if 0 < group.omitted then ["- ... " ++ toString group.omitted ++ " more"] else []

def annotatedMemberLine (member : AnnotatedMember) : String :=
  "- " ++ neutralize member.fqn ++ "  " ++ annotatedKindLabel member.kind ++ "  " ++
    toString member.line

def annotatedGroupLines (group : AnnotatedGroup) : List String :=
  ["", neutralize group.path] ++ group.declarations.map annotatedMemberLine

def annotatedTitledLines (annotated : AnnotatedDeclarations) (note : String) :
    List String :=
  ["## Annotated (" ++ toString annotated.total ++ note ++ ")",
    "precision: " ++ annotationPrecision] ++
    annotated.groups.flatMap annotatedGroupLines

def grepLines : Option (Option String) → List TextReferenceSite → List String
  | _, [] => []
  | current, site :: rest =>
      (if current ≠ some site.enclosing then
        [neutralize (site.enclosing.getD "(file header)")]
      else []) ++
        ("  " ++ toString site.line ++ ": " ++ trimmedHitLine (site.text.getD "")) ::
          grepLines (some site.enclosing) rest

def siteLine (site : TextReferenceSite) : String :=
  match site.enclosing with
  | some fqn => "- " ++ toString site.line ++ "  " ++ neutralize fqn
  | none => "- " ++ toString site.line

def textReferenceGroupLines (group : TextReferenceGroup) : List String :=
  ["", neutralize group.path] ++
    if group.sites.any (·.text.isSome) then
      grepLines none group.sites ++
        if 0 < group.omitted then ["  ... " ++ toString group.omitted ++ " more"] else []
    else
      group.sites.map siteLine ++
        if 0 < group.omitted then ["- ... " ++ toString group.omitted ++ " more"] else []

def textReferencesLines (refs : TextReferences) (heading note : String) : List String :=
  ["## " ++ heading ++ " (" ++ pluralize refs.totalSites "site" ++ " in " ++
      pluralize refs.fileCount "file" ++ note ++ ")",
    "precision: " ++ textMatchPrecision] ++
    (if 0 < refs.totalSites then
      [toString (refs.totalSites - refs.textMentionSites) ++ " in code, " ++
        toString refs.textMentionSites ++ " in comments or strings."]
    else []) ++
    refs.groups.flatMap textReferenceGroupLines

def omittedSitesText (omitted : OmittedSites) : String :=
  pluralize omitted.notListed "site" ++ " omitted: " ++
    ", ".intercalate (omitted.reasons.map OmissionReason.text) ++ "."

namespace TraceReport

variable (report : TraceReport)

def definitionLine : String :=
  neutralize report.definition.path ++ ":" ++ toString report.definition.line

/-- The fence of the definition, its signature the one line in it. -/
def signatureLines : List String :=
  if report.definition.signature ≠ "" then
    fencedLines (fenceLanguage report.definition.path) [report.definition.signature]
  else []

def openingLines : List String :=
  ["# Trace: " ++ neutralize report.symbol, "", "index: " ++ report.index.label] ++
    (if 0 < report.ignoredDirectoryResults then
      ["ignored: " ++ pluralize report.ignoredDirectoryResults "engine result" ++
        " inside ignored directories such as bin/"]
    else []) ++
    ["", "## Definition", "", report.definitionLine] ++ report.signatureLines

def implementorLines : List String :=
  report.supertypeImplementors.elim
    (["", "## Implementors (" ++ toString report.implementors.length ++ ")"] ++
      listedLines report.implementors relatedLine)
    supertypeLines

def callersLines : List String :=
  report.callers.flatMap fun level =>
    callerLevelLines level report.javaTextReferences.isSome (report.filter.map (·.filter))

def usagesHeading : String :=
  "## Usages (" ++ pluralize report.sites "site" ++ " in " ++
    pluralize report.usages.length "file" ++ report.note (·.usagesOmitted) ++ ")"

def usagesLines : List String :=
  ["", report.usagesHeading] ++
    (omittedSites report).elim [] (fun omitted => [omittedSitesText omitted]) ++
    report.usages.flatMap usageGroupLines

def attachedLines : List String :=
  (report.annotated.elim [] fun annotated =>
    if annotated.total ≠ 0 then
      "" :: annotatedTitledLines annotated (report.note (·.annotatedOmitted))
    else []) ++
    (report.javaTextReferences.elim [] fun java =>
      "" :: textReferencesLines java "Java text references"
        (report.note (·.javaTextReferencesOmitted))) ++
    report.kotlinTextReferences.elim [] fun kotlin =>
      "" :: textReferencesLines kotlin "Kotlin text references"
        (report.note (·.kotlinTextReferencesOmitted))

def closingLines : List String :=
  (if endsWith report.definition.path ".java" then
    ["", "References from Java sources are text matches; " ++
      "the engine resolves Kotlin only."]
  else []) ++
    ["", "Callers are the declarations enclosing each reference site; the engine " ++
      "reports no call hierarchy. Resolution is syntactic, not type-checked."]

def lines : List String :=
  report.openingLines ++ report.implementorLines ++ report.callersLines ++
    report.usagesLines ++ report.attachedLines ++ report.closingLines

end TraceReport

/-! ## The document -/

theorem listLines_eq {A : Type*} (items : List A) (line : A → String) :
    listLines items line = unlines (listedLines items line) := by
  rw [listLines, listedLines]
  split_ifs
  · rfl
  · rw [unlines_map]

theorem supertypeImplementorsSection_eq (found : SupertypeImplementors) :
    supertypeImplementorsSection found = unlines (supertypeLines found) := by
  unfold supertypeImplementorsSection supertypeLines
  rw [unlines_append, unlines_map]
  simp only [supertypeLine]
  congr 1
  rw [← String.toList_inj]
  simp

theorem callerLevelSection_eq (level : CallerLevel) (fromKotlin : Bool)
    (filter : Option SiteFilter) :
    callerLevelSection level fromKotlin filter =
      unlines (callerLevelLines level fromKotlin filter) := by
  unfold callerLevelSection callerLevelLines
  simp only [listLines_eq]
  rw [← String.toList_inj]
  by_cases hdepth : level.depth = 1
  · simp only [hdepth, if_true]
    split_ifs <;> simp
  · simp only [hdepth, if_false]
    split_ifs <;> simp

theorem usageGroupSection_eq (group : ReferenceGroup) :
    usageGroupSection group = unlines (usageGroupLines group) := by
  unfold usageGroupSection usageGroupLines
  have hlines : unlines (group.references.map usageLine) =
      String.join (group.references.map fun reference => usageLine reference ++ "\n") :=
    unlines_map _ _
  rw [unlines_append, unlines_append, hlines]
  change "\n" ++ neutralize group.path ++ "\n" ++
    String.join (group.references.map fun reference => usageLine reference ++ "\n") ++ _ = _
  rw [← String.toList_inj]
  split_ifs <;> simp

theorem renderAnnotatedTitled_eq (annotated : AnnotatedDeclarations) (note : String) :
    renderAnnotatedTitled annotated note =
      unlines (annotatedTitledLines annotated note) := by
  unfold renderAnnotatedTitled annotatedTitledLines
  rw [unlines_append, unlines_flatMap]
  have hgroups : ∀ group : AnnotatedGroup, unlines (annotatedGroupLines group) =
      "\n" ++ neutralize group.path ++ "\n" ++
        String.join (group.declarations.map fun member =>
          "- " ++ neutralize member.fqn ++ "  " ++ annotatedKindLabel member.kind ++
            "  " ++ toString member.line ++ "\n") := by
    intro group
    rw [annotatedGroupLines, unlines_append, unlines_map]
    simp only [annotatedMemberLine]
    rw [← String.toList_inj]
    simp
  simp only [hgroups]
  congr 1
  rw [← String.toList_inj]
  simp

theorem grepLayout_eq (current : Option (Option String)) (sites : List TextReferenceSite) :
    grepLayout current sites = unlines (grepLines current sites) := by
  induction sites generalizing current with
  | nil => rfl
  | cons site rest ih =>
      rw [grepLayout, grepLines, ih, ← String.toList_inj]
      split_ifs <;> simp

theorem lineLayout_eq (sites : List TextReferenceSite) :
    lineLayout sites = unlines (sites.map siteLine) := by
  rw [lineLayout, unlines_map]
  congr 1
  apply List.map_congr_left
  intro site _
  rw [siteLine]
  cases site.enclosing <;> rfl

theorem textReferenceGroupSection_eq (group : TextReferenceGroup) :
    textReferenceGroupSection group = unlines (textReferenceGroupLines group) := by
  unfold textReferenceGroupSection textReferenceGroupLines
  simp only [grepLayout_eq, lineLayout_eq]
  rw [← String.toList_inj]
  split_ifs <;> simp

theorem renderTextReferencesWithNote_eq (refs : TextReferences) (heading note : String) :
    renderTextReferencesWithNote refs heading note =
      unlines (textReferencesLines refs heading note) := by
  have hgroups : refs.groups.map textReferenceGroupSection =
      refs.groups.map fun group => unlines (textReferenceGroupLines group) :=
    List.map_congr_left fun group _ => textReferenceGroupSection_eq group
  unfold renderTextReferencesWithNote textReferencesLines
  rw [hgroups, ← unlines_flatMap, ← String.toList_inj]
  split_ifs <;> simp

theorem omittedSitesLine_eq (report : TraceReport) :
    (omittedSitesLine report).getD "" =
      unlines ((omittedSites report).elim [] fun omitted => [omittedSitesText omitted]) := by
  rw [omittedSitesLine]
  cases omittedSites report with
  | none => rfl
  | some omitted =>
      rw [← String.toList_inj]
      simp [omittedSitesText]

namespace TraceReport

variable (report : TraceReport)

theorem signatureLines_eq :
    (if report.definition.signature ≠ "" then
      "\n" ++ fenceFor report.definition.signature ++
        fenceLanguage report.definition.path ++ "\n" ++
        report.definition.signature ++ "\n" ++ fenceFor report.definition.signature ++ "\n"
    else "") = unlines report.signatureLines := by
  have hfenced := fenced_eq (fenceLanguage report.definition.path)
    [report.definition.signature]
  rw [fenced, String.intercalate_singleton] at hfenced
  rw [signatureLines]
  split_ifs
  · exact hfenced
  · rfl

theorem implementorLines_eq :
    unlines report.implementorLines =
      report.supertypeImplementors.elim
        ("\n## Implementors (" ++ toString report.implementors.length ++ ")\n" ++
          listLines report.implementors relatedLine)
        supertypeImplementorsSection := by
  rw [implementorLines, listLines_eq]
  cases report.supertypeImplementors with
  | some found => exact (supertypeImplementorsSection_eq found).symm
  | none =>
      rw [← String.toList_inj]
      simp

theorem callersLines_eq :
    unlines report.callersLines = String.join (report.callers.map fun level =>
      callerLevelSection level report.javaTextReferences.isSome
        (report.filter.map (·.filter))) := by
  rw [callersLines, unlines_flatMap]
  congr 1
  exact List.map_congr_left fun level _ => (callerLevelSection_eq _ _ _).symm

theorem traceUpToUsages_eq :
    traceUpToUsages report = unlines (report.openingLines ++ report.implementorLines ++
      report.callersLines ++ ["", report.usagesHeading]) := by
  rw [unlines_append, unlines_append, unlines_append, implementorLines_eq,
    callersLines_eq, openingLines, unlines_append, ← signatureLines_eq]
  unfold traceUpToUsages usagesHeading definitionLine
  rw [← String.toList_inj]
  cases report.supertypeImplementors with
  | some found => split_ifs <;> simp
  | none => split_ifs <;> simp

theorem append_closingLines (front : String) :
    front ++
      (if endsWith report.definition.path ".java" then
        "\nReferences from Java sources are text matches; " ++
          "the engine resolves Kotlin only.\n"
      else "") ++
        "\nCallers are the declarations enclosing each reference site; the engine " ++
        "reports no call hierarchy. Resolution is syntactic, not type-checked.\n" =
      front ++ unlines report.closingLines := by
  have hjava : "\nReferences from Java sources are text matches; " ++
      "the engine resolves Kotlin only.\n" =
        unlines ["", "References from Java sources are text matches; " ++
          "the engine resolves Kotlin only."] := by decide
  have hnote : "\nCallers are the declarations enclosing each reference site; the engine " ++
      "reports no call hierarchy. Resolution is syntactic, not type-checked.\n" =
        unlines ["", "Callers are the declarations enclosing each reference site; the engine " ++
          "reports no call hierarchy. Resolution is syntactic, not type-checked."] := rfl
  rw [String.append_assoc, hnote, closingLines, unlines_append, ← String.append_assoc]
  split_ifs
  · rw [hjava]
  · rw [unlines_nil]

theorem traceFromUsages_eq :
    traceFromUsages report = unlines (report.usages.flatMap usageGroupLines ++
      report.attachedLines ++ report.closingLines) := by
  have husages : report.usages.map usageGroupSection =
      report.usages.map fun group => unlines (usageGroupLines group) :=
    List.map_congr_left fun group _ => usageGroupSection_eq group
  rw [unlines_append, unlines_append, unlines_flatMap, ← husages]
  unfold traceFromUsages attachedLines
  rw [append_closingLines]
  simp only [renderAnnotatedTitled_eq, renderTextReferencesWithNote_eq, unlines_append]
  congr 1
  rw [String.append_assoc, String.append_assoc]
  congr 1
  rw [String.append_assoc]
  congr 1
  · cases report.annotated with
    | none => rfl
    | some annotated =>
        by_cases htotal : annotated.total = 0
        · simp [htotal]
        · simp [htotal]
  · cases report.javaTextReferences <;> cases report.kotlinTextReferences <;>
      simp [String.append_assoc]

/-- A trace is written line by line. -/
theorem renderTraceMarkdown_eq : renderTraceMarkdown report = unlines report.lines := by
  rw [renderTraceMarkdown, traceUpToUsages_eq, traceFromUsages_eq, omittedSitesLine_eq,
    lines, usagesLines]
  simp only [unlines_append, String.append_assoc]

end TraceReport

end Ktsense.Core
