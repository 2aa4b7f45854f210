import Ktsense.Core.Budget
import Ktsense.Core.RenderTrace

/-!
# Context bundles

`context.rs`: what to know about one symbol in at most so many tokens.  Eight
sections are flattened into one list of units in a fixed order of priority, cut
once by the budget and put together again.
-/

namespace Ktsense.Core

open Ktsense.Foundation

structure ContextSections where
  source : Bool
  outline : Bool
  callers : Bool
  implementors : Bool
  deriving DecidableEq, Repr

namespace ContextSections

def all : ContextSections := ⟨true, true, true, true⟩

def isAll (sections : ContextSections) : Bool := sections = all

def isCallersOnly (sections : ContextSections) : Bool :=
  sections.callers && !sections.source && !sections.outline &&
    !sections.implementors

end ContextSections

structure ContextSection (T : Type*) where
  items : List T
  omitted : ℕ
  deriving DecidableEq, Repr

def ContextSection.available {T : Type*} (section_ : ContextSection T) : ℕ :=
  section_.items.length + section_.omitted

structure SourceSection where
  lines : List String
  startLine : ℕ
  endLine : ℕ
  omittedLines : ℕ
  deriving DecidableEq, Repr

structure MatchedLine where
  number : ℕ
  text : String
  gapBefore : Bool
  deriving DecidableEq, Repr

structure MatchedSource where
  lines : List MatchedLine
  startLine : ℕ
  endLine : ℕ
  omittedLines : ℕ
  deriving DecidableEq, Repr

/-- A `--match` request; `matcher` is the pattern the caller compiled. -/
structure SourceMatch where
  matcher : String → Bool
  around : ℕ

structure ForeignReference where
  path : String
  line : ℕ
  enclosing : Option String
  text : Option String
  deriving DecidableEq, Repr

structure AppliedContextFilter where
  filter : SiteFilter
  callersOmitted : ℕ
  annotatedOmitted : ℕ
  javaTextReferencesOmitted : ℕ
  kotlinTextReferencesOmitted : ℕ
  deriving DecidableEq, Repr

structure SymbolContext where
  symbol : String
  sections : ContextSections
  index : IndexCompleteness
  definition : Definition
  declaration : ContextSection String
  source : Option SourceSection
  matchedSource : Option MatchedSource
  fileOutline : ContextSection String
  callers : ContextSection RelatedDeclaration
  callersOmitted : ℕ
  testCallersOmitted : ℕ
  annotated : ContextSection AnnotatedDeclaration
  javaTextReferences : ContextSection ForeignReference
  kotlinTextReferences : ContextSection ForeignReference
  implementors : ContextSection RelatedDeclaration
  filter : Option AppliedContextFilter
  budget : ℕ
  tokenUpperBound : ℕ
  deriving DecidableEq, Repr

structure ContextInput where
  definition : Definition
  index : IndexCompleteness
  sections : ContextSections
  file : Option FileSkeleton
  source : Option (List String)
  sourceMatch : Option SourceMatch
  callers : List RelatedDeclaration
  annotated : List AnnotatedDeclaration
  javaTextReferences : List ForeignReference
  kotlinTextReferences : List ForeignReference
  implementors : List RelatedDeclaration
  budget : ℕ
  filter : Option AppliedContextFilter

/-! ## Caller caps -/

structure CallerCaps where
  production : ℕ
  test : ℕ
  deriving DecidableEq, Repr

def defaultTestCallerCap : ℕ := 3

def defaultProductionCallerCap : ℕ := 10

/-- The callers kept, and how many production and test callers were not. -/
structure CappedCallers where
  kept : List RelatedDeclaration
  productionOmitted : ℕ
  testOmitted : ℕ
  deriving DecidableEq, Repr

/-- The loop of `cap_callers`, from the numbers of callers kept so far. -/
def capCallersFrom (caps : CallerCaps) :
    ℕ → ℕ → List RelatedDeclaration → CappedCallers
  | _, _, [] => ⟨[], 0, 0⟩
  | productionKept, testKept, caller :: rest =>
      if caller.test then
        if testKept < caps.test then
          let capped := capCallersFrom caps productionKept (testKept + 1) rest
          { capped with kept := caller :: capped.kept }
        else
          let capped := capCallersFrom caps productionKept testKept rest
          { capped with testOmitted := capped.testOmitted + 1 }
      else if productionKept < caps.production then
        let capped := capCallersFrom caps (productionKept + 1) testKept rest
        { capped with kept := caller :: capped.kept }
      else
        let capped := capCallersFrom caps productionKept testKept rest
        { capped with productionOmitted := capped.productionOmitted + 1 }

def capCallers (callers : List RelatedDeclaration) (caps : Option CallerCaps) :
    CappedCallers :=
  match caps with
  | none => ⟨callers, 0, 0⟩
  | some caps => capCallersFrom caps 0 0 callers

/-! ## The body of the declaration -/

/-- One offered body line: the text the budget measures, the line itself, and
its numbered form when only matching lines are kept. -/
structure SourceCandidate where
  rendered : String
  raw : String
  matched : Option MatchedLine
  deriving DecidableEq, Repr

structure SourceBody where
  candidates : List SourceCandidate
  startLine : ℕ
  endLine : ℕ
  matched : Bool
  deriving DecidableEq, Repr

def wholeBody (rawLines : List String) (startLine endLine : ℕ) : SourceBody where
  candidates := rawLines.map fun raw => ⟨raw, raw, none⟩
  startLine
  endLine
  matched := false

/-- The sum that `index + around` is on a machine word. -/
def wrappingAdd (left right : ℕ) : ℕ := (left + right) % usizeBound

def keptIndices (lines : List String) (spec : SourceMatch) : List ℕ :=
  sortDedup (lines.zipIdx.flatMap fun (line, index) =>
    if spec.matcher line then
      let low := index - spec.around
      let high := min (wrappingAdd index spec.around) (lines.length - 1)
      List.range' low (high + 1 - low)
    else [])

/-- The candidates of the kept lines; `previous` is the last index kept. -/
def matchedCandidates (rawLines : List String) (startLine : ℕ) :
    Option ℕ → List ℕ → List SourceCandidate
  | _, [] => []
  | previous, index :: rest =>
      let gapBefore :=
        match previous with
        | none => decide (0 < index)
        | some previous => decide (previous + 1 < index)
      let number := startLine + index
      let text := rawLines.getD index ""
      let rendered :=
        if gapBefore then "...\n" ++ toString number ++ ": " ++ text
        else toString number ++ ": " ++ text
      { rendered, raw := text, matched := some ⟨number, text, gapBefore⟩ } ::
        matchedCandidates rawLines startLine (some index) rest

def matchedBody (rawLines : List String) (startLine endLine : ℕ)
    (spec : SourceMatch) : SourceBody where
  candidates :=
    matchedCandidates rawLines startLine none (keptIndices rawLines spec)
  startLine
  endLine
  matched := true

/-- The bound of `u32`. -/
def u32Bound : ℕ := 2 ^ 32

def sourceBody (input : ContextInput) : Option SourceBody := do
  let source ← input.source
  let file ← input.file
  let span ← declarationSpanAt file input.definition.line
  let total := source.length % u32Bound
  let endLine := min (span.last.getD total) total
  if span.start = 0 || endLine < span.start then none
  else
    let rawLines := ((source.take endLine).drop (span.start - 1)).map neutralize
    some (match input.sourceMatch with
      | some spec => matchedBody rawLines span.start endLine spec
      | none => wholeBody rawLines span.start endLine)

/-! ## Units -/

def contextCallerLine (declaration : RelatedDeclaration) : String :=
  relatedLine declaration ++ if declaration.test then "  [test]" else ""

def annotatedContextLine (declaration : AnnotatedDeclaration) : String :=
  "- " ++ neutralize declaration.fqn ++ "  " ++
    annotatedKindLabel declaration.kind ++ "  " ++
    neutralize declaration.path ++ ":" ++ toString declaration.line

def foreignReferenceLine (reference : ForeignReference) : String :=
  let location :=
    match reference.enclosing with
    | some fqn =>
        "- " ++ neutralize fqn ++ "  " ++ neutralize reference.path ++ ":" ++
          toString reference.line
    | none => "- " ++ neutralize reference.path ++ ":" ++ toString reference.line
  match reference.text with
  | some text => location ++ ": " ++ trimmedHitLine text
  | none => location

/-- What a unit contributes once it has survived the budget, in the order of
priority. -/
inductive Payload where
  | declaration (signature : String)
  | sourceLine (candidate : SourceCandidate)
  | fileOutline (block : String)
  | caller (caller : RelatedDeclaration)
  | annotated (declaration : AnnotatedDeclaration)
  | javaReference (reference : ForeignReference)
  | kotlinReference (reference : ForeignReference)
  | implementor (implementor : RelatedDeclaration)
  deriving DecidableEq, Repr

namespace Payload

def declaration? : Payload → Option String
  | .declaration signature => some signature
  | _ => none

def sourceLine? : Payload → Option SourceCandidate
  | .sourceLine candidate => some candidate
  | _ => none

def fileOutline? : Payload → Option String
  | .fileOutline block => some block
  | _ => none

def caller? : Payload → Option RelatedDeclaration
  | .caller related => some related
  | _ => none

def annotated? : Payload → Option AnnotatedDeclaration
  | .annotated carrier => some carrier
  | _ => none

def javaReference? : Payload → Option ForeignReference
  | .javaReference reference => some reference
  | _ => none

def kotlinReference? : Payload → Option ForeignReference
  | .kotlinReference reference => some reference
  | _ => none

def implementor? : Payload → Option RelatedDeclaration
  | .implementor related => some related
  | _ => none

end Payload

/-- One emission unit: the text the budget measures and the value it carries. -/
structure ContextUnit where
  text : String
  payload : Payload
  deriving DecidableEq, Repr

/-- The units of one section. -/
def unitsOf {T : Type*} (text : T → String) (payload : T → Payload)
    (items : List T) : List ContextUnit :=
  items.map fun item => ⟨text item, payload item⟩

def outlineBlock (file : FileSkeleton) (declaration : Declaration) :
    Option String :=
  let lone : FileSkeleton :=
    ⟨file.path, file.package, [], [declaration], false, false⟩
  let rendered := renderSkeleton lone RenderOptions.default
  if rendered ≠ "" then some rendered else none

def outlineBlocks (file : FileSkeleton) : List String :=
  file.declarations.filterMap (outlineBlock file)

namespace ContextInput

variable (input : ContextInput)

/-- The body the bundle is about, when its section is on. -/
def body : Option SourceBody :=
  if input.sections.source then sourceBody input else none

def caps : Option CallerCaps :=
  if input.sections.isCallersOnly then none
  else some ⟨defaultProductionCallerCap, defaultTestCallerCap⟩

def cappedCallers : CappedCallers := capCallers input.callers input.caps

/-! What each section offers to the budget. -/

def offeredDeclaration : List String :=
  if input.definition.signature ≠ "" then [input.definition.signature] else []

def offeredSource : List SourceCandidate :=
  input.body.elim [] SourceBody.candidates

def offeredOutline : List String :=
  if input.sections.outline then input.file.elim [] outlineBlocks else []

/-- The items of a section that goes with the callers. -/
def withCallers {T : Type*} (items : List T) : List T :=
  if input.sections.callers then items else []

def offeredCallers : List RelatedDeclaration :=
  input.withCallers input.cappedCallers.kept

def offeredAnnotated : List AnnotatedDeclaration :=
  input.withCallers input.annotated

def offeredJava : List ForeignReference :=
  input.withCallers input.javaTextReferences

def offeredKotlin : List ForeignReference :=
  input.withCallers input.kotlinTextReferences

def offeredImplementors : List RelatedDeclaration :=
  if input.sections.implementors then input.implementors else []

def unitsInPriorityOrder : List ContextUnit :=
  unitsOf id .declaration input.offeredDeclaration ++
    (unitsOf SourceCandidate.rendered .sourceLine input.offeredSource ++
    (unitsOf id .fileOutline input.offeredOutline ++
    (unitsOf contextCallerLine .caller input.offeredCallers ++
    (unitsOf annotatedContextLine .annotated input.offeredAnnotated ++
    (unitsOf foreignReferenceLine .javaReference input.offeredJava ++
    (unitsOf foreignReferenceLine .kotlinReference input.offeredKotlin ++
    unitsOf relatedLine .implementor input.offeredImplementors))))))

end ContextInput

/-! ## Putting the bundle together -/

/-- The units of one variant, put back into the values of a section. -/
def regrouped {T : Type*} (units : List ContextUnit)
    (value : Payload → Option T) : List T :=
  units.filterMap fun unit => value unit.payload

/-- How many units carry a variant, counted before the budget saw them. -/
def availableUnits {T : Type*} (units : List ContextUnit)
    (value : Payload → Option T) : ℕ :=
  units.countP fun unit => (value unit.payload).isSome

/-- A section with what was kept of what was offered. -/
def sectionOf {T : Type*} (offered kept : List ContextUnit)
    (value : Payload → Option T) : ContextSection T :=
  let items := regrouped kept value
  { items, omitted := availableUnits offered value - items.length }

def splitSource (body : Option SourceBody) (kept : List SourceCandidate) :
    Option SourceSection × Option MatchedSource :=
  match body with
  | none => (none, none)
  | some body =>
      let omittedLines := body.candidates.length - kept.length
      if body.matched then
        (none, some
          { lines := kept.filterMap SourceCandidate.matched
            startLine := body.startLine
            endLine := body.endLine
            omittedLines })
      else
        (some
          { lines := kept.map SourceCandidate.raw
            startLine := body.startLine
            endLine := body.endLine
            omittedLines }, none)

/-- What the budget affords of the units. -/
def ContextInput.emission (input : ContextInput) (estimator : TokenEstimator) :
    BudgetedEmission ContextUnit :=
  emitWithinBudget ContextUnit.text input.unitsInPriorityOrder input.budget
    estimator

def buildContext (input : ContextInput) (estimator : TokenEstimator) :
    SymbolContext :=
  let offered := input.unitsInPriorityOrder
  let emission := input.emission estimator
  let kept := emission.items
  let (source, matchedSource) :=
    splitSource input.body (regrouped kept Payload.sourceLine?)
  { symbol := input.definition.qualifiedName
    sections := input.sections
    index := input.index
    definition := input.definition
    declaration := sectionOf offered kept Payload.declaration?
    source
    matchedSource
    fileOutline := sectionOf offered kept Payload.fileOutline?
    callers := sectionOf offered kept Payload.caller?
    callersOmitted := input.cappedCallers.productionOmitted
    testCallersOmitted := input.cappedCallers.testOmitted
    annotated := sectionOf offered kept Payload.annotated?
    javaTextReferences := sectionOf offered kept Payload.javaReference?
    kotlinTextReferences := sectionOf offered kept Payload.kotlinReference?
    implementors := sectionOf offered kept Payload.implementor?
    filter := input.filter
    budget := input.budget
    tokenUpperBound := emission.tokenUpperBound }

end Ktsense.Core
