import Ktsense.Core.ContextSpending
import Ktsense.Core.RenderContext

/-!
# Whether the bound pays for what is printed

A unit is measured by its text alone, but printed with a line break; a focus
heading is printed one level deeper than it was measured, a path is made safe
only when it is printed, and a heading without signatures or the declaration
above matching lines is measured and not printed.  What can make up for this is
the rounding of each estimate: a text of `n` bytes is charged `5 * n` and up to
the next multiple of eighteen, in eighteenths of a token.  `bound_pays_iff`
says when that suffices.
-/

namespace Ktsense.Core

open Ktsense.Foundation

/-! ## Rounding -/

/-- What rounding adds to the estimate of a text of this many bytes, in
eighteenths of a token. -/
def roundingSlack (length : ℕ) : ℕ := 13 * length % 18

/-- A unit the budget paid for: the text it was measured by, and what is
printed of it. -/
structure PaidLine where
  measured : String
  printed : String
  deriving DecidableEq, Repr

/-- How many more bytes are printed than were measured. -/
def PaidLine.excess (line : PaidLine) : ℤ :=
  byteLength line.printed - byteLength line.measured

/-- The rounding of the estimates makes up for the bytes not measured. -/
def Covered (lines : List PaidLine) : Prop :=
  5 * (lines.map PaidLine.excess).sum ≤
    (lines.map fun line => roundingSlack (byteLength line.measured)).sum

instance (lines : List PaidLine) : Decidable (Covered lines) :=
  inferInstanceAs (Decidable (_ ≤ _))

theorem eighteen_mul_byteRatioEstimate (text : String) :
    18 * byteRatioEstimate text =
      5 * byteLength text + roundingSlack (byteLength text) := by
  simp only [byteRatioEstimate, roundingSlack]
  omega

theorem byteRatioEstimate_le_iff (text : String) (bound : ℕ) :
    byteRatioEstimate text ≤ bound ↔ 5 * byteLength text ≤ 18 * bound := by
  simp only [byteRatioEstimate]
  omega

/-- The summed estimates of what was measured. -/
def measuredCost (lines : List PaidLine) : ℕ :=
  (lines.map fun line => byteRatioEstimate line.measured).sum

/-- The summed bytes that are printed. -/
def printedTotal (lines : List PaidLine) : ℕ :=
  (lines.map fun line => byteLength line.printed).sum

@[simp]
theorem measuredCost_cons (line : PaidLine) (lines : List PaidLine) :
    measuredCost (line :: lines) =
      byteRatioEstimate line.measured + measuredCost lines := rfl

@[simp]
theorem printedTotal_cons (line : PaidLine) (lines : List PaidLine) :
    printedTotal (line :: lines) =
      byteLength line.printed + printedTotal lines := rfl

theorem measuredCost_append (left right : List PaidLine) :
    measuredCost (left ++ right) = measuredCost left + measuredCost right := by
  simp [measuredCost]

theorem printedTotal_append (left right : List PaidLine) :
    printedTotal (left ++ right) = printedTotal left + printedTotal right := by
  simp [printedTotal]

theorem eighteen_mul_measuredCost (lines : List PaidLine) :
    18 * measuredCost lines =
      5 * (lines.map fun line => byteLength line.measured).sum +
        (lines.map fun line => roundingSlack (byteLength line.measured)).sum := by
  induction lines with
  | nil => rfl
  | cons line rest ih =>
      have hline := eighteen_mul_byteRatioEstimate line.measured
      simp only [measuredCost_cons, List.map_cons, List.sum_cons]
      omega

theorem sum_excess (lines : List PaidLine) :
    (lines.map PaidLine.excess).sum =
      printedTotal lines -
        (lines.map fun line => byteLength line.measured).sum := by
  induction lines with
  | nil => rfl
  | cons line rest ih =>
      rw [List.map_cons, List.sum_cons, ih, PaidLine.excess]
      simp only [printedTotal_cons, List.map_cons, List.sum_cons, Nat.cast_add]
      omega

/-- The summed estimates pay for what is printed exactly when rounding covers
the excess. -/
theorem estimates_pay_iff (lines : List PaidLine) {content : String}
    (hcontent : byteLength content = printedTotal lines) :
    byteRatioEstimate content ≤ measuredCost lines ↔ Covered lines := by
  rw [byteRatioEstimate_le_iff, eighteen_mul_measuredCost, Covered, sum_excess,
    hcontent]
  omega

/-! ## Bytes of joined lines -/

theorem byteLength_fencedContent (lines : List String) :
    byteLength (fencedContent lines) =
      (lines.map fun line => byteLength line + 1).sum := by
  induction lines with
  | nil => rfl
  | cons line rest ih =>
      cases rest with
      | nil =>
          rw [fencedContent, if_neg (by simp), String.intercalate_singleton,
            byteLength_append]
          rfl
      | cons next rest =>
          rw [fencedContent, if_neg (by simp)] at ih ⊢
          rw [String.intercalate_cons_cons, String.append_assoc,
            byteLength_append, byteLength_append, ih]
          rfl

theorem byteLength_lineContent {T : Type*} (items : List T) (line : T → String) :
    byteLength (lineContent items line) =
      (items.map fun item => byteLength (line item) + 1).sum := by
  rw [lineContent, byteLength_join, List.map_map]
  congr 1
  apply List.map_congr_left
  intro item _
  rw [Function.comp_apply, byteLength_append]
  rfl

/-! ## Context bundles -/

namespace ContextInput

variable (input : ContextInput)

/-- Matching lines stand in for the body, and the declaration is not printed. -/
def matchedView : Bool := input.body.any SourceBody.matched

/-- The units the budget affords. -/
def affordableUnits : List ContextUnit :=
  affordable ContextUnit.text input.unitsInPriorityOrder input.budget
    byteRatioEstimate

/-- What is printed of a unit. -/
def printedUnit (unit : ContextUnit) : String :=
  if input.matchedView && unit.payload.declaration?.isSome then ""
  else unit.text ++ "\n"

def paidLines : List PaidLine :=
  input.affordableUnits.map fun unit => ⟨unit.text, input.printedUnit unit⟩

end ContextInput

/-- The text a payload is measured by. -/
def Payload.text : Payload → String
  | .declaration signature => signature
  | .sourceLine candidate => candidate.rendered
  | .fileOutline block => block
  | .caller related => contextCallerLine related
  | .annotated carrier => annotatedContextLine carrier
  | .javaReference reference => foreignReferenceLine reference
  | .kotlinReference reference => foreignReferenceLine reference
  | .implementor related => relatedLine related

theorem text_eq_of_mem_unitsOf {T : Type*} {text : T → String}
    {payload : T → Payload} {items : List T} {unit : ContextUnit}
    (htext : ∀ item, (payload item).text = text item)
    (hunit : unit ∈ unitsOf text payload items) :
    unit.text = unit.payload.text := by
  obtain ⟨item, -, rfl⟩ := List.mem_map.1 hunit
  exact (htext item).symm

theorem text_eq_of_mem_units {input : ContextInput} {unit : ContextUnit}
    (hunit : unit ∈ input.unitsInPriorityOrder) :
    unit.text = unit.payload.text := by
  simp only [ContextInput.unitsInPriorityOrder, List.mem_append] at hunit
  rcases hunit with h | h | h | h | h | h | h | h
  all_goals
    apply text_eq_of_mem_unitsOf _ h
    intro item
    rfl

/-- A sum over units, section by section. -/
theorem sum_by_section (units : List ContextUnit) (weight : Payload → ℕ) :
    (units.map fun unit => weight unit.payload).sum =
      ((regrouped units Payload.declaration?).map
        fun item => weight (.declaration item)).sum +
      ((regrouped units Payload.sourceLine?).map
        fun item => weight (.sourceLine item)).sum +
      ((regrouped units Payload.fileOutline?).map
        fun item => weight (.fileOutline item)).sum +
      ((regrouped units Payload.caller?).map
        fun item => weight (.caller item)).sum +
      ((regrouped units Payload.annotated?).map
        fun item => weight (.annotated item)).sum +
      ((regrouped units Payload.javaReference?).map
        fun item => weight (.javaReference item)).sum +
      ((regrouped units Payload.kotlinReference?).map
        fun item => weight (.kotlinReference item)).sum +
      ((regrouped units Payload.implementor?).map
        fun item => weight (.implementor item)).sum := by
  induction units with
  | nil => rfl
  | cons unit rest ih =>
      obtain ⟨text, payload⟩ := unit
      rw [List.map_cons, List.sum_cons, ih]
      cases payload <;>
        simp only [regrouped, List.filterMap_cons, Payload.declaration?,
          Payload.sourceLine?, Payload.fileOutline?, Payload.caller?,
          Payload.annotated?, Payload.javaReference?, Payload.kotlinReference?,
          Payload.implementor?, List.map_cons, List.sum_cons] <;>
        omega

section Bundles

variable (input : ContextInput)

/-- A body line reads as it was measured. -/
theorem rendered_of_whole {body : SourceBody} (hbody : input.body = some body)
    (hmatched : body.matched = false) :
    ∀ candidate ∈ body.candidates, candidate.raw = candidate.rendered := by
  obtain ⟨source, start, last, -, -, -, -, rfl | ⟨spec, rfl⟩⟩ :=
    sourceBody_cases (body_eq_some hbody)
  · intro candidate hcandidate
    obtain ⟨raw, -, rfl⟩ := List.mem_map.1 hcandidate
    rfl
  · cases hmatched

/-- A matched line as it is printed. -/
def printedMatch (line : MatchedLine) : List String :=
  (if line.gapBefore then ["..."] else []) ++
    [toString line.number ++ ": " ++ line.text]

theorem rendered_matchedCandidates (rawLines : List String) (startLine : ℕ)
    (previous : Option ℕ) (indices : List ℕ) :
    ∀ candidate ∈ matchedCandidates rawLines startLine previous indices,
      ∃ line, candidate.matched = some line ∧
        byteLength candidate.rendered + 1 =
          ((printedMatch line).map fun text => byteLength text + 1).sum := by
  induction indices generalizing previous with
  | nil => simp [matchedCandidates]
  | cons index rest ih =>
      intro candidate hmem
      rcases List.mem_cons.1 hmem with rfl | hrest
      · refine ⟨_, rfl, ?_⟩
        simp only [printedMatch]
        split_ifs with hgap
        · simp only [byteLength_append, List.map_append, List.map_cons,
            List.map_nil, List.sum_append, List.sum_cons, List.sum_nil]
          have hmarker : byteLength "...\n" = byteLength "..." + 1 := rfl
          omega
        · simp
      · exact ih (some index) candidate hrest

theorem rendered_of_matched {body : SourceBody} (hbody : input.body = some body)
    (hmatched : body.matched = true) :
    ∀ candidate ∈ body.candidates, ∃ line, candidate.matched = some line ∧
      byteLength candidate.rendered + 1 =
        ((printedMatch line).map fun text => byteLength text + 1).sum := by
  obtain ⟨source, start, last, -, -, -, -, rfl | ⟨spec, rfl⟩⟩ :=
    sourceBody_cases (body_eq_some hbody)
  · cases hmatched
  · exact rendered_matchedCandidates _ _ _ _

theorem sum_printedMatch {candidates : List SourceCandidate}
    (hmatched : ∀ candidate ∈ candidates, ∃ line, candidate.matched = some line ∧
      byteLength candidate.rendered + 1 =
        ((printedMatch line).map fun text => byteLength text + 1).sum) :
    (((candidates.filterMap SourceCandidate.matched).flatMap printedMatch).map
        fun text => byteLength text + 1).sum =
      (candidates.map fun candidate => byteLength candidate.rendered + 1).sum := by
  induction candidates with
  | nil => rfl
  | cons candidate rest ih =>
      obtain ⟨line, hline, hlength⟩ := hmatched candidate List.mem_cons_self
      have hrest := ih fun other hother =>
        hmatched other (List.mem_cons_of_mem _ hother)
      rw [List.filterMap_cons_some hline, List.flatMap_cons, List.map_append,
        List.sum_append, hrest, List.map_cons, List.sum_cons, hlength]

variable (estimator : TokenEstimator)

theorem isSome_matchedSource :
    (buildContext input estimator).matchedSource.isSome = input.matchedView := by
  rw [ContextInput.matchedView]
  cases hbody : input.body with
  | none => rw [(noSource_buildContext input estimator hbody).2]; rfl
  | some body =>
      cases hmatched : body.matched with
      | false =>
          rw [(wholeSource_buildContext input estimator hbody hmatched).2]
          simp [hmatched]
      | true =>
          rw [(matchedSource_buildContext input estimator hbody hmatched).1]
          simp [hmatched]

theorem byteLength_sourceContent :
    byteLength (buildContext input estimator).sourceContent =
      ((keptSource input estimator).map
        fun candidate => byteLength candidate.rendered + 1).sum := by
  rw [SymbolContext.sourceContent]
  have hkept := keptSource_isPrefix input estimator
  cases hbody : input.body with
  | none =>
      obtain ⟨hsource, hmatchedSource⟩ :=
        noSource_buildContext input estimator hbody
      rw [ContextInput.offeredSource, hbody] at hkept
      rw [hsource, hmatchedSource, List.prefix_nil.1 hkept]
      rfl
  | some body =>
      rw [offeredSource_eq input hbody] at hkept
      cases hmatched : body.matched with
      | false =>
          obtain ⟨hsource, hother⟩ :=
            wholeSource_buildContext input estimator hbody hmatched
          rw [hsource, hother]
          simp only [byteLength_fencedContent, List.map_map]
          congr 1
          apply List.map_congr_left
          intro candidate hcandidate
          rw [Function.comp_apply, rendered_of_whole input hbody hmatched
            candidate (hkept.subset hcandidate)]
      | true =>
          obtain ⟨hsource, hother⟩ :=
            matchedSource_buildContext input estimator hbody hmatched
          rw [hsource, hother]
          simp only [byteLength_fencedContent]
          exact sum_printedMatch fun candidate hcandidate =>
            rendered_of_matched input hbody hmatched candidate
              (hkept.subset hcandidate)

/-- The bytes printed for a payload. -/
def printedBytes : Payload → ℕ
  | .declaration signature =>
      if input.matchedView then 0 else byteLength signature + 1
  | payload => byteLength payload.text + 1

theorem byteLength_printedUnit {unit : ContextUnit}
    (hunit : unit ∈ input.unitsInPriorityOrder) :
    byteLength (input.printedUnit unit) = printedBytes input unit.payload := by
  have hbytes : byteLength (unit.text ++ "\n") =
      byteLength unit.payload.text + 1 := by
    rw [byteLength_append, text_eq_of_mem_units hunit]
    rfl
  rw [ContextInput.printedUnit]
  cases hpayload : unit.payload with
  | declaration signature =>
      rw [hpayload] at hbytes
      cases hview : input.matchedView with
      | true => simp [printedBytes, Payload.declaration?, hview]
      | false => simpa [printedBytes, Payload.text, hview] using hbytes
  | _ =>
      rw [hpayload] at hbytes
      simpa [printedBytes, Payload.declaration?] using hbytes

/-- What the budget kept of one section. -/
def keptItems {T : Type*} (value : Payload → Option T) : List T :=
  regrouped (input.emission estimator).items value

theorem keptItems_eq_nil {T : Type*} {value : Payload → Option T}
    (hnone : regrouped input.unitsInPriorityOrder value = []) :
    keptItems input estimator value = [] := by
  have hkept := regrouped_isPrefix (kept_isPrefix input estimator) value
  rw [hnone] at hkept
  exact List.prefix_nil.1 hkept

/-- A section that is switched off prints nothing, and nothing was kept for
it. -/
theorem byteLength_gated {T : Type*} {value : Payload → Option T}
    {bytes : T → ℕ} {content : String} {shown : Bool}
    (hcontent : byteLength content =
      ((keptItems input estimator value).map bytes).sum)
    (hhidden : shown = false → regrouped input.unitsInPriorityOrder value = []) :
    byteLength (if shown then content else "") =
      ((keptItems input estimator value).map bytes).sum := by
  cases shown with
  | true => exact hcontent
  | false =>
      rw [keptItems_eq_nil input estimator (hhidden rfl)]
      rfl

theorem byteLength_declarationContent :
    byteLength (buildContext input estimator).declarationContent =
      ((keptItems input estimator Payload.declaration?).map
        fun item => printedBytes input (.declaration item)).sum := by
  have hview := isSome_matchedSource input estimator
  rw [SymbolContext.declarationContent, hview]
  simp only [printedBytes]
  split_ifs
  · simp
  · exact byteLength_fencedContent _

theorem byteLength_outlineContent :
    byteLength (buildContext input estimator).outlineContent =
      ((keptItems input estimator Payload.fileOutline?).map
        fun item => printedBytes input (.fileOutline item)).sum := by
  apply byteLength_gated
  · exact byteLength_fencedContent _
  · intro hoff
    have hoff : input.sections.outline = false := hoff
    rw [regrouped_outline, ContextInput.offeredOutline, hoff, if_neg (by simp)]

theorem byteLength_callersContent :
    byteLength (buildContext input estimator).callersContent =
      ((keptItems input estimator Payload.caller?).map
        fun item => printedBytes input (.caller item)).sum := by
  apply byteLength_gated
  · exact byteLength_lineContent _ _
  · intro hoff
    have hoff : input.sections.callers = false := hoff
    rw [regrouped_callers, ContextInput.offeredCallers, ContextInput.withCallers,
      hoff, if_neg (by simp)]

theorem byteLength_implementorsContent :
    byteLength (buildContext input estimator).implementorsContent =
      ((keptItems input estimator Payload.implementor?).map
        fun item => printedBytes input (.implementor item)).sum := by
  apply byteLength_gated
  · exact byteLength_lineContent _ _
  · intro hoff
    have hoff : input.sections.implementors = false := hoff
    rw [regrouped_implementors, ContextInput.offeredImplementors, hoff,
      if_neg (by simp)]

theorem byteLength_annotatedContent :
    byteLength (lineContent (buildContext input estimator).annotated.items
        annotatedContextLine) =
      ((keptItems input estimator Payload.annotated?).map
        fun item => printedBytes input (.annotated item)).sum :=
  byteLength_lineContent _ _

theorem byteLength_javaContent :
    byteLength (lineContent (buildContext input estimator).javaTextReferences.items
        foreignReferenceLine) =
      ((keptItems input estimator Payload.javaReference?).map
        fun item => printedBytes input (.javaReference item)).sum :=
  byteLength_lineContent _ _

theorem byteLength_kotlinContent :
    byteLength (lineContent
        (buildContext input estimator).kotlinTextReferences.items
        foreignReferenceLine) =
      ((keptItems input estimator Payload.kotlinReference?).map
        fun item => printedBytes input (.kotlinReference item)).sum :=
  byteLength_lineContent _ _

theorem byteLength_printedContext :
    byteLength (buildContext input estimator).printedContent =
      ((input.emission estimator).items.map
        fun unit => printedBytes input unit.payload).sum := by
  rw [SymbolContext.printedContent, sum_by_section]
  simp only [byteLength_append, byteLength_declarationContent,
    byteLength_sourceContent, byteLength_outlineContent,
    byteLength_callersContent, byteLength_annotatedContent,
    byteLength_javaContent, byteLength_kotlinContent,
    byteLength_implementorsContent]
  rfl

/-- The bound of a bundle pays for what is printed of it. -/
theorem context_pays_iff :
    byteRatioEstimate (buildContext input byteRatioEstimate).printedContent ≤
        (buildContext input byteRatioEstimate).tokenUpperBound ↔
      Covered input.paidLines := by
  have hkept : (input.emission byteRatioEstimate).items = input.affordableUnits :=
    emitted_eq_affordable _ _ _ _
  have hbound : (buildContext input byteRatioEstimate).tokenUpperBound =
      measuredCost input.paidLines := by
    rw [measuredCost, ContextInput.paidLines, List.map_map]
    exact tokenUpperBound_eq_affordable _ _ _ _
  rw [hbound]
  apply estimates_pay_iff
  rw [byteLength_printedContext, printedTotal, ContextInput.paidLines,
    List.map_map, ← hkept]
  congr 1
  apply List.map_congr_left
  intro unit hunit
  exact (byteLength_printedUnit input
    ((kept_isPrefix input byteRatioEstimate).subset hunit)).symm

end Bundles

end Ktsense.Core
