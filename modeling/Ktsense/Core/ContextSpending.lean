import Ktsense.Core.Context

/-!
# What a context bundle spends its budget on

The units of a bundle stand in order of priority and the budget keeps a prefix
of them.  Putting the kept units back into their sections gives a prefix of
what each section offered, so the omission counts recovered from the separate
census are exact, and a section that lost an item leaves nothing for the later
ones.
-/

namespace Ktsense.Core

open Ktsense.Foundation

/-- A section holds a prefix of what was offered to it and counts the rest. -/
def Cut {T : Type*} (offered : List T) (part : ContextSection T) : Prop :=
  part.items <+: offered ∧ part.items.length + part.omitted = offered.length

namespace SymbolContext

/-- The body lines shown and those omitted, in either view of the body. -/
def sourceCounts (context : SymbolContext) : ℕ × ℕ :=
  match context.source, context.matchedSource with
  | some source, _ => (source.lines.length, source.omittedLines)
  | none, some matched => (matched.lines.length, matched.omittedLines)
  | none, none => (0, 0)

/-- The items shown and those omitted, section by section in the order of
priority. -/
def sectionCounts (context : SymbolContext) : List (ℕ × ℕ) :=
  [(context.declaration.items.length, context.declaration.omitted),
    context.sourceCounts,
    (context.fileOutline.items.length, context.fileOutline.omitted),
    (context.callers.items.length, context.callers.omitted),
    (context.annotated.items.length, context.annotated.omitted),
    (context.javaTextReferences.items.length, context.javaTextReferences.omitted),
    (context.kotlinTextReferences.items.length,
      context.kotlinTextReferences.omitted),
    (context.implementors.items.length, context.implementors.omitted)]

/-- Every item of one bundle is in its section of the other. -/
structure KeptIn (context wider : SymbolContext) : Prop where
  declaration : context.declaration.items <+: wider.declaration.items
  source : ∀ source, context.source = some source →
    ∃ widened, wider.source = some widened ∧ source.lines <+: widened.lines
  matchedSource : ∀ source, context.matchedSource = some source →
    ∃ widened, wider.matchedSource = some widened ∧
      source.lines <+: widened.lines
  fileOutline : context.fileOutline.items <+: wider.fileOutline.items
  callers : context.callers.items <+: wider.callers.items
  annotated : context.annotated.items <+: wider.annotated.items
  javaTextReferences :
    context.javaTextReferences.items <+: wider.javaTextReferences.items
  kotlinTextReferences :
    context.kotlinTextReferences.items <+: wider.kotlinTextReferences.items
  implementors : context.implementors.items <+: wider.implementors.items

end SymbolContext

/-- The budget of a bundle is spent on a prefix of what was offered, by
priority, and everything offered is shown or counted. -/
structure SpentByPriority (input : ContextInput) (estimator : TokenEstimator)
    (context : SymbolContext) : Prop where
  declaration : Cut input.offeredDeclaration context.declaration
  source : ∀ body, input.body = some body → body.matched = false →
    ∃ source, context.source = some source ∧ context.matchedSource = none ∧
      source.lines <+: body.candidates.map SourceCandidate.raw ∧
      source.lines.length + source.omittedLines = body.candidates.length
  matchedSource : ∀ body, input.body = some body → body.matched = true →
    ∃ source, context.matchedSource = some source ∧ context.source = none ∧
      source.lines <+: body.candidates.filterMap SourceCandidate.matched ∧
      source.lines.length + source.omittedLines = body.candidates.length
  withoutBody : input.body = none →
    context.source = none ∧ context.matchedSource = none
  fileOutline : Cut input.offeredOutline context.fileOutline
  callers : Cut input.offeredCallers context.callers
  annotated : Cut input.offeredAnnotated context.annotated
  javaTextReferences : Cut input.offeredJava context.javaTextReferences
  kotlinTextReferences : Cut input.offeredKotlin context.kotlinTextReferences
  implementors : Cut input.offeredImplementors context.implementors
  priority : context.sectionCounts.Pairwise fun earlier later =>
    0 < earlier.2 → later.1 = 0
  bound : context.tokenUpperBound ≤ input.budget
  everyCaller : input.sections.callers = true →
    context.callers.items.length + context.callers.omitted +
      context.callersOmitted + context.testCallersOmitted = input.callers.length
  everyLine : ∀ source, context.source = some source →
    source.lines.length + source.omittedLines =
        source.endLine - source.startLine + 1 ∧
      (∀ number, number ∈ List.range' (source.startLine + source.lines.length)
          source.omittedLines ↔
        source.startLine + source.lines.length ≤ number ∧
          number ≤ source.endLine) ∧
      ∃ lines, input.source = some lines ∧
        source.lines = (List.range' source.startLine source.lines.length).map
          fun number => neutralize (lines.getD (number - 1) "")
  monotone : ∀ budget, input.budget ≤ budget →
    context.KeptIn (buildContext { input with budget } estimator)

/-! ## Sections of the kept units -/

theorem length_regrouped {T : Type*} (units : List ContextUnit)
    (value : Payload → Option T) :
    (regrouped units value).length = availableUnits units value := by
  rw [regrouped, availableUnits, List.length_filterMap_eq_countP]

theorem regrouped_isPrefix {T : Type*} {kept offered : List ContextUnit}
    (hinitial : kept <+: offered) (value : Payload → Option T) :
    regrouped kept value <+: regrouped offered value :=
  hinitial.filterMap _

theorem cut_sectionOf {T : Type*} {kept offered : List ContextUnit}
    (hinitial : kept <+: offered) (value : Payload → Option T) :
    Cut (regrouped offered value) (sectionOf offered kept value) := by
  have hitems := regrouped_isPrefix hinitial value
  refine ⟨hitems, ?_⟩
  have hlength := hitems.length_le
  simp only [sectionOf, ← length_regrouped]
  omega

theorem regrouped_unitsOf {S T : Type*} (text : S → String)
    (payload : S → Payload) (items : List S) (value : Payload → Option T) :
    (unitsOf text payload items).filterMap (fun unit => value unit.payload) =
      items.filterMap fun item => value (payload item) := by
  rw [unitsOf, List.filterMap_map]
  rfl

section Offered

variable (input : ContextInput)

/-- What a section reads from all units. -/
theorem regrouped_units {T : Type*} (value : Payload → Option T) :
    regrouped input.unitsInPriorityOrder value =
      input.offeredDeclaration.filterMap (fun item => value (.declaration item)) ++
      (input.offeredSource.filterMap (fun item => value (.sourceLine item)) ++
      (input.offeredOutline.filterMap (fun item => value (.fileOutline item)) ++
      (input.offeredCallers.filterMap (fun item => value (.caller item)) ++
      (input.offeredAnnotated.filterMap (fun item => value (.annotated item)) ++
      (input.offeredJava.filterMap (fun item => value (.javaReference item)) ++
      (input.offeredKotlin.filterMap (fun item => value (.kotlinReference item)) ++
      input.offeredImplementors.filterMap
        fun item => value (.implementor item))))))) := by
  simp only [regrouped, ContextInput.unitsInPriorityOrder, List.filterMap_append,
    regrouped_unitsOf]

theorem regrouped_declaration :
    regrouped input.unitsInPriorityOrder Payload.declaration? = input.offeredDeclaration := by
  simp [regrouped_units, Payload.declaration?]

theorem regrouped_source :
    regrouped input.unitsInPriorityOrder Payload.sourceLine? = input.offeredSource := by
  simp [regrouped_units, Payload.sourceLine?]

theorem regrouped_outline :
    regrouped input.unitsInPriorityOrder Payload.fileOutline? = input.offeredOutline := by
  simp [regrouped_units, Payload.fileOutline?]

theorem regrouped_callers :
    regrouped input.unitsInPriorityOrder Payload.caller? = input.offeredCallers := by
  simp [regrouped_units, Payload.caller?]

theorem regrouped_annotated :
    regrouped input.unitsInPriorityOrder Payload.annotated? = input.offeredAnnotated := by
  simp [regrouped_units, Payload.annotated?]

theorem regrouped_java :
    regrouped input.unitsInPriorityOrder Payload.javaReference? = input.offeredJava := by
  simp [regrouped_units, Payload.javaReference?]

theorem regrouped_kotlin :
    regrouped input.unitsInPriorityOrder Payload.kotlinReference? = input.offeredKotlin := by
  simp [regrouped_units, Payload.kotlinReference?]

theorem regrouped_implementors :
    regrouped input.unitsInPriorityOrder Payload.implementor? = input.offeredImplementors := by
  simp [regrouped_units, Payload.implementor?]

end Offered

/-! ## Priorities -/

def Payload.priority : Payload → ℕ
  | .declaration _ => 0
  | .sourceLine _ => 1
  | .fileOutline _ => 2
  | .caller _ => 3
  | .annotated _ => 4
  | .javaReference _ => 5
  | .kotlinReference _ => 6
  | .implementor _ => 7

/-- Units in order of priority, none of a priority before `least`. -/
def SortedFrom (least : ℕ) (units : List ContextUnit) : Prop :=
  units.Pairwise (fun left right =>
      left.payload.priority ≤ right.payload.priority) ∧
    ∀ unit ∈ units, least ≤ unit.payload.priority

theorem sortedFrom_unitsOf_append {T : Type*} {least : ℕ}
    {rest : List ContextUnit} (text : T → String) (payload : T → Payload)
    (items : List T) (hpriority : ∀ item, (payload item).priority = least)
    (hrest : SortedFrom (least + 1) rest) :
    SortedFrom least (unitsOf text payload items ++ rest) := by
  have hunits : ∀ unit ∈ unitsOf text payload items,
      unit.payload.priority = least := by
    intro unit hunit
    obtain ⟨item, -, rfl⟩ := List.mem_map.1 hunit
    exact hpriority item
  have hbelow : ∀ unit ∈ rest, least ≤ unit.payload.priority :=
    fun unit hunit => (Nat.le_succ least).trans (hrest.2 unit hunit)
  refine ⟨List.pairwise_append.2 ⟨?_, hrest.1, ?_⟩, ?_⟩
  · refine List.Pairwise.imp_of_mem ?_ (List.pairwise_of_forall fun _ _ => trivial)
    intro left right hleft hright _
    rw [hunits left hleft, hunits right hright]
  · intro left hleft right hright
    rw [hunits left hleft]
    exact hbelow right hright
  · intro unit hunit
    rcases List.mem_append.1 hunit with hmem | hmem
    · exact (hunits unit hmem).ge
    · exact hbelow unit hmem

theorem sorted_unitsInPriorityOrder (input : ContextInput) :
    SortedFrom 0 input.unitsInPriorityOrder := by
  have hnone : SortedFrom 8 [] := ⟨List.Pairwise.nil, by simp⟩
  have himplementors := sortedFrom_unitsOf_append relatedLine
    Payload.implementor input.offeredImplementors (fun _ => rfl) hnone
  rw [List.append_nil] at himplementors
  refine sortedFrom_unitsOf_append _ _ _ (fun _ => rfl) ?_
  refine sortedFrom_unitsOf_append _ _ _ (fun _ => rfl) ?_
  refine sortedFrom_unitsOf_append _ _ _ (fun _ => rfl) ?_
  refine sortedFrom_unitsOf_append _ _ _ (fun _ => rfl) ?_
  refine sortedFrom_unitsOf_append _ _ _ (fun _ => rfl) ?_
  refine sortedFrom_unitsOf_append _ _ _ (fun _ => rfl) ?_
  exact sortedFrom_unitsOf_append _ _ _ (fun _ => rfl) himplementors

/-- How many units of a priority there are. -/
def ofPriority (priority : ℕ) (units : List ContextUnit) : ℕ :=
  units.countP (·.payload.priority = priority)

/-- What is shown and omitted of one priority. -/
def countsOf (offered kept : List ContextUnit) (priority : ℕ) : ℕ × ℕ :=
  (ofPriority priority kept,
    ofPriority priority offered - ofPriority priority kept)

/-- A section takes its values from the payloads of one priority. -/
def Carries {T : Type*} (value : Payload → Option T) (priority : ℕ) : Prop :=
  ∀ payload, (value payload).isSome = decide (payload.priority = priority)

theorem carries_declaration : Carries Payload.declaration? 0 := by
  intro payload
  cases payload <;> rfl

theorem carries_sourceLine : Carries Payload.sourceLine? 1 := by
  intro payload
  cases payload <;> rfl

theorem carries_fileOutline : Carries Payload.fileOutline? 2 := by
  intro payload
  cases payload <;> rfl

theorem carries_caller : Carries Payload.caller? 3 := by
  intro payload
  cases payload <;> rfl

theorem carries_annotated : Carries Payload.annotated? 4 := by
  intro payload
  cases payload <;> rfl

theorem carries_javaReference : Carries Payload.javaReference? 5 := by
  intro payload
  cases payload <;> rfl

theorem carries_kotlinReference : Carries Payload.kotlinReference? 6 := by
  intro payload
  cases payload <;> rfl

theorem carries_implementor : Carries Payload.implementor? 7 := by
  intro payload
  cases payload <;> rfl

theorem availableUnits_eq {T : Type*} {value : Payload → Option T} {priority : ℕ}
    (hvalue : Carries value priority) (units : List ContextUnit) :
    availableUnits units value = ofPriority priority units := by
  simp only [availableUnits, ofPriority, hvalue _]

theorem counts_sectionOf {T : Type*} {value : Payload → Option T} {priority : ℕ}
    (hvalue : Carries value priority) (offered kept : List ContextUnit) :
    ((sectionOf offered kept value).items.length,
      (sectionOf offered kept value).omitted) = countsOf offered kept priority := by
  simp only [sectionOf, length_regrouped, availableUnits_eq hvalue, countsOf]

/-! ## The body -/

/-- The lines `start` to `last` of a file, made safe to print. -/
def bodyLines (source : List String) (start last : ℕ) : List String :=
  ((source.take last).drop (start - 1)).map neutralize

/-- A body is cut from the lines of the file, all of them or those that match. -/
theorem sourceBody_cases {input : ContextInput} {body : SourceBody}
    (hbody : sourceBody input = some body) :
    ∃ source start last, input.source = some source ∧ 0 < start ∧
      start ≤ last ∧ last ≤ source.length ∧
      (body = wholeBody (bodyLines source start last) start last ∨
        ∃ spec, body = matchedBody (bodyLines source start last) start last spec) := by
  simp only [sourceBody, Option.bind_eq_bind, Option.bind_eq_some_iff] at hbody
  obtain ⟨source, hsource, file, -, span, -, hbody⟩ := hbody
  split_ifs at hbody with hspan
  simp only [Bool.or_eq_true, decide_eq_true_eq, not_or, not_lt] at hspan
  refine ⟨source, span.start, _, hsource, Nat.pos_of_ne_zero hspan.1, hspan.2,
    (min_le_right _ _).trans (Nat.mod_le _ _), ?_⟩
  cases hmatch : input.sourceMatch with
  | none => exact Or.inl (by rw [hmatch] at hbody; exact (Option.some.inj hbody).symm)
  | some spec =>
      exact Or.inr ⟨spec, by rw [hmatch] at hbody; exact (Option.some.inj hbody).symm⟩

theorem isSome_matchedCandidates (rawLines : List String) (startLine : ℕ)
    (previous : Option ℕ) (indices : List ℕ) :
    ∀ candidate ∈ matchedCandidates rawLines startLine previous indices,
      candidate.matched.isSome := by
  induction indices generalizing previous with
  | nil => simp [matchedCandidates]
  | cons index rest ih =>
      intro candidate hmem
      rcases List.mem_cons.1 hmem with rfl | hrest
      · rfl
      · exact ih (some index) candidate hrest

theorem body_eq_some {input : ContextInput} {body : SourceBody}
    (hbody : input.body = some body) : sourceBody input = some body := by
  rw [ContextInput.body] at hbody
  split_ifs at hbody
  exact hbody

/-- Every candidate of a matched body is numbered. -/
theorem isSome_of_matched {input : ContextInput} {body : SourceBody}
    (hbody : input.body = some body) (hmatched : body.matched = true) :
    ∀ candidate ∈ body.candidates, candidate.matched.isSome := by
  obtain ⟨source, start, last, -, -, -, -, rfl | ⟨spec, rfl⟩⟩ :=
    sourceBody_cases (body_eq_some hbody)
  · cases hmatched
  · exact isSome_matchedCandidates _ _ _ _

theorem length_filterMap_matched {candidates : List SourceCandidate}
    (hsome : ∀ candidate ∈ candidates, candidate.matched.isSome) :
    (candidates.filterMap SourceCandidate.matched).length = candidates.length := by
  rw [List.length_filterMap_eq_countP, List.countP_eq_length]
  exact hsome

/-! ## The bundle -/

section Bundle

variable (input : ContextInput) (estimator : TokenEstimator)

theorem kept_isPrefix :
    (input.emission estimator).items <+: input.unitsInPriorityOrder :=
  emitted_isPrefix _ _ _ _

/-- The body candidates the budget kept. -/
def keptSource : List SourceCandidate :=
  regrouped (input.emission estimator).items Payload.sourceLine?

theorem keptSource_isPrefix :
    keptSource input estimator <+: input.offeredSource := by
  rw [← regrouped_source]
  exact regrouped_isPrefix (kept_isPrefix input estimator) _

theorem source_buildContext :
    ((buildContext input estimator).source,
      (buildContext input estimator).matchedSource) =
        splitSource input.body (keptSource input estimator) := rfl

/-- The body in the view of all lines. -/
theorem wholeSource_buildContext {body : SourceBody}
    (hbody : input.body = some body) (hmatched : body.matched = false) :
    (buildContext input estimator).source =
        some { lines := (keptSource input estimator).map SourceCandidate.raw
               startLine := body.startLine
               endLine := body.endLine
               omittedLines := body.candidates.length -
                 (keptSource input estimator).length } ∧
      (buildContext input estimator).matchedSource = none := by
  have hsplit := source_buildContext input estimator
  rw [hbody, splitSource, if_neg (by simp [hmatched])] at hsplit
  exact ⟨congrArg Prod.fst hsplit, congrArg Prod.snd hsplit⟩

/-- The body in the view of its matching lines. -/
theorem matchedSource_buildContext {body : SourceBody}
    (hbody : input.body = some body) (hmatched : body.matched = true) :
    (buildContext input estimator).matchedSource =
        some { lines := (keptSource input estimator).filterMap
                 SourceCandidate.matched
               startLine := body.startLine
               endLine := body.endLine
               omittedLines := body.candidates.length -
                 (keptSource input estimator).length } ∧
      (buildContext input estimator).source = none := by
  have hsplit := source_buildContext input estimator
  rw [hbody, splitSource, if_pos hmatched] at hsplit
  exact ⟨congrArg Prod.snd hsplit, congrArg Prod.fst hsplit⟩

theorem noSource_buildContext (hbody : input.body = none) :
    (buildContext input estimator).source = none ∧
      (buildContext input estimator).matchedSource = none := by
  have hsplit := source_buildContext input estimator
  rw [hbody] at hsplit
  exact ⟨congrArg Prod.fst hsplit, congrArg Prod.snd hsplit⟩

theorem offeredSource_eq {body : SourceBody} (hbody : input.body = some body) :
    input.offeredSource = body.candidates := by
  rw [ContextInput.offeredSource, hbody]
  rfl

/-- The kept candidates of a matched body keep their numbered lines. -/
theorem length_keptSource_matched {body : SourceBody}
    (hbody : input.body = some body) (hmatched : body.matched = true) :
    ((keptSource input estimator).filterMap SourceCandidate.matched).length =
      (keptSource input estimator).length := by
  apply length_filterMap_matched
  intro candidate hcandidate
  apply isSome_of_matched hbody hmatched
  rw [← offeredSource_eq input hbody]
  exact (keptSource_isPrefix input estimator).subset hcandidate

theorem sourceCounts_buildContext :
    (buildContext input estimator).sourceCounts =
      ((keptSource input estimator).length,
        input.offeredSource.length - (keptSource input estimator).length) := by
  rw [SymbolContext.sourceCounts]
  cases hbody : input.body with
  | none =>
      obtain ⟨hsource, hmatchedSource⟩ :=
        noSource_buildContext input estimator hbody
      have hoffered : input.offeredSource = [] := by
        rw [ContextInput.offeredSource, hbody]
        rfl
      have hkept : keptSource input estimator = [] :=
        List.prefix_nil.1 (hoffered ▸ keptSource_isPrefix input estimator)
      rw [hsource, hmatchedSource, hoffered, hkept]
      rfl
  | some body =>
      rw [offeredSource_eq input hbody]
      cases hmatched : body.matched with
      | false =>
          obtain ⟨hsource, -⟩ :=
            wholeSource_buildContext input estimator hbody hmatched
          rw [hsource]
          simp
      | true =>
          obtain ⟨hmatchedSource, hsource⟩ :=
            matchedSource_buildContext input estimator hbody hmatched
          rw [hsource, hmatchedSource]
          simp [length_keptSource_matched input estimator hbody hmatched]

theorem sectionCounts_buildContext :
    (buildContext input estimator).sectionCounts =
      (List.range 8).map (countsOf input.unitsInPriorityOrder
        (input.emission estimator).items) := by
  let offered := input.unitsInPriorityOrder
  let kept := (input.emission estimator).items
  have hsource : (buildContext input estimator).sourceCounts =
      countsOf offered kept 1 := by
    rw [sourceCounts_buildContext, ← regrouped_source, length_regrouped,
      ← counts_sectionOf carries_sourceLine]
    rfl
  calc
    _ = [countsOf offered kept 0, countsOf offered kept 1,
          countsOf offered kept 2, countsOf offered kept 3,
          countsOf offered kept 4, countsOf offered kept 5,
          countsOf offered kept 6, countsOf offered kept 7] := by
      rw [SymbolContext.sectionCounts, hsource,
        ← counts_sectionOf carries_declaration,
        ← counts_sectionOf carries_fileOutline,
        ← counts_sectionOf carries_caller, ← counts_sectionOf carries_annotated,
        ← counts_sectionOf carries_javaReference,
        ← counts_sectionOf carries_kotlinReference,
        ← counts_sectionOf carries_implementor]
      rfl
    _ = (List.range 8).map (countsOf offered kept) := rfl

/-- A section that lost an item leaves nothing for the later ones. -/
theorem priority_buildContext :
    (buildContext input estimator).sectionCounts.Pairwise fun earlier later =>
      0 < earlier.2 → later.1 = 0 := by
  rw [sectionCounts_buildContext, List.pairwise_map]
  refine List.pairwise_lt_range.imp ?_
  intro earlier later hlater hlost
  have hfewer : ofPriority earlier (input.emission estimator).items <
      ofPriority earlier input.unitsInPriorityOrder :=
    Nat.lt_of_sub_pos hlost
  exact countP_eq_zero_of_lost (fun unit : ContextUnit => unit.payload.priority)
    (kept_isPrefix input estimator) (sorted_unitsInPriorityOrder input).1 hlater
    hfewer

end Bundle

/-! ## Callers -/

/-- Every caller is kept or counted as omitted by one of the caps. -/
theorem length_capCallersFrom (caps : CallerCaps) (productionKept testKept : ℕ)
    (callers : List RelatedDeclaration) :
    (capCallersFrom caps productionKept testKept callers).kept.length +
        (capCallersFrom caps productionKept testKept callers).productionOmitted +
        (capCallersFrom caps productionKept testKept callers).testOmitted =
      callers.length := by
  induction callers generalizing productionKept testKept with
  | nil => rfl
  | cons caller rest ih =>
      rw [capCallersFrom]
      split_ifs
      · have hrest := ih productionKept (testKept + 1)
        simp only [List.length_cons]
        omega
      · have hrest := ih productionKept testKept
        simp only [List.length_cons]
        omega
      · have hrest := ih (productionKept + 1) testKept
        simp only [List.length_cons]
        omega
      · have hrest := ih productionKept testKept
        simp only [List.length_cons]
        omega

theorem length_capCallers (callers : List RelatedDeclaration)
    (caps : Option CallerCaps) :
    (capCallers callers caps).kept.length +
        (capCallers callers caps).productionOmitted +
        (capCallers callers caps).testOmitted = callers.length := by
  cases caps with
  | none => rfl
  | some caps => exact length_capCallersFrom caps 0 0 callers

/-! ## Lines -/

theorem length_bodyLines {source : List String} {start last : ℕ}
    (hstart : 0 < start) (hlast : last ≤ source.length) (hle : start ≤ last) :
    (bodyLines source start last).length = last - start + 1 := by
  simp only [bodyLines, List.length_map, List.length_drop, List.length_take]
  omega

/-- The first `count` lines of a body, by number. -/
theorem take_bodyLines {source : List String} {start last count : ℕ}
    (hstart : 0 < start) (hlast : last ≤ source.length) (hle : start ≤ last)
    (hcount : count ≤ last - start + 1) :
    (bodyLines source start last).take count =
      (List.range' start count).map
        fun number => neutralize (source.getD (number - 1) "") := by
  apply List.ext_getElem
  · simp [length_bodyLines hstart hlast hle, hcount]
  · intro index hleft hright
    simp only [List.length_map, List.length_range'] at hright
    have hindex : start - 1 + index < source.length := by omega
    have hnumber : start + index - 1 = start - 1 + index := by omega
    simp [bodyLines, hnumber, hindex]

section Spending

variable (input : ContextInput) (estimator : TokenEstimator)

/-- The lines of a whole body: those shown are its first, and the rest is
counted. -/
theorem lines_buildContext {source : SourceSection}
    (hsource : (buildContext input estimator).source = some source) :
    source.lines.length + source.omittedLines =
        source.endLine - source.startLine + 1 ∧
      source.startLine ≤ source.endLine ∧
      ∃ lines, input.source = some lines ∧
        source.lines = (List.range' source.startLine source.lines.length).map
          fun number => neutralize (lines.getD (number - 1) "") := by
  cases hbody : input.body with
  | none =>
      rw [(noSource_buildContext input estimator hbody).1] at hsource
      cases hsource
  | some body =>
      obtain ⟨lines, start, last, hlines, hstart, hle, hlast, hcases⟩ :=
        sourceBody_cases (body_eq_some hbody)
      rcases hcases with rfl | ⟨spec, rfl⟩
      · have hwhole := (wholeSource_buildContext input estimator hbody rfl).1
        obtain rfl := Option.some.inj (hwhole.symm.trans hsource)
        have hkept := keptSource_isPrefix input estimator
        rw [offeredSource_eq input hbody] at hkept
        have hshown : (keptSource input estimator).map SourceCandidate.raw <+:
            bodyLines lines start last := by
          have hraw := hkept.map SourceCandidate.raw
          simpa [wholeBody, Function.comp_def] using hraw
        have hlength := length_bodyLines hstart hlast hle
        have hfewer := hshown.length_le
        rw [List.length_map, hlength] at hfewer
        refine ⟨?_, hle, lines, hlines, ?_⟩
        · simp only [wholeBody, List.length_map, hlength]
          omega
        · have htake := List.prefix_iff_eq_take.1 hshown
          rw [List.length_map, take_bodyLines hstart hlast hle hfewer] at htake
          simpa only [List.length_map, wholeBody] using htake
      · rw [(matchedSource_buildContext input estimator hbody rfl).2] at hsource
        cases hsource

/-- A larger budget keeps every unit. -/
theorem kept_isPrefix_of_le {budget : ℕ} (hle : input.budget ≤ budget) :
    (input.emission estimator).items <+:
      (ContextInput.emission { input with budget } estimator).items :=
  emitted_isPrefix_of_le _ _ _ _ hle

theorem keptIn_buildContext {budget : ℕ} (hle : input.budget ≤ budget) :
    (buildContext input estimator).KeptIn
      (buildContext { input with budget } estimator) := by
  have hkept := kept_isPrefix_of_le input estimator hle
  have hlines : keptSource input estimator <+:
      keptSource { input with budget } estimator :=
    regrouped_isPrefix hkept _
  refine ⟨regrouped_isPrefix hkept _, ?_, ?_, regrouped_isPrefix hkept _,
    regrouped_isPrefix hkept _, regrouped_isPrefix hkept _,
    regrouped_isPrefix hkept _, regrouped_isPrefix hkept _,
    regrouped_isPrefix hkept _⟩
  · intro source hsource
    cases hbody : input.body with
    | none =>
        rw [(noSource_buildContext input estimator hbody).1] at hsource
        cases hsource
    | some body =>
        cases hmatched : body.matched with
        | false =>
            have hwhole :=
              (wholeSource_buildContext input estimator hbody hmatched).1
            obtain rfl := Option.some.inj (hwhole.symm.trans hsource)
            exact ⟨_, (wholeSource_buildContext { input with budget } estimator
              hbody hmatched).1, hlines.map _⟩
        | true =>
            rw [(matchedSource_buildContext input estimator hbody hmatched).2]
              at hsource
            cases hsource
  · intro source hsource
    cases hbody : input.body with
    | none =>
        rw [(noSource_buildContext input estimator hbody).2] at hsource
        cases hsource
    | some body =>
        cases hmatched : body.matched with
        | false =>
            rw [(wholeSource_buildContext input estimator hbody hmatched).2]
              at hsource
            cases hsource
        | true =>
            have hnumbered :=
              (matchedSource_buildContext input estimator hbody hmatched).1
            obtain rfl := Option.some.inj (hnumbered.symm.trans hsource)
            exact ⟨_, (matchedSource_buildContext { input with budget } estimator
              hbody hmatched).1, hlines.filterMap _⟩

/-- What was offered to a section and what it holds. -/
theorem cut_buildContext {T : Type*} (value : Payload → Option T)
    {offered : List T}
    (hoffered : regrouped input.unitsInPriorityOrder value = offered) :
    Cut offered (sectionOf input.unitsInPriorityOrder
      (input.emission estimator).items value) := by
  rw [← hoffered]
  exact cut_sectionOf (kept_isPrefix input estimator) value

/-- Every bundle spends its budget by priority and accounts for what it was
offered. -/
theorem buildContext_spends_by_priority :
    SpentByPriority input estimator (buildContext input estimator) where
  declaration :=
    cut_buildContext input estimator _ (regrouped_declaration input)
  source body hbody hmatched := by
    obtain ⟨hsource, hother⟩ :=
      wholeSource_buildContext input estimator hbody hmatched
    have hkept := keptSource_isPrefix input estimator
    rw [offeredSource_eq input hbody] at hkept
    have hfewer := hkept.length_le
    refine ⟨_, hsource, hother, hkept.map _, ?_⟩
    simp only [List.length_map]
    omega
  matchedSource body hbody hmatched := by
    obtain ⟨hsource, hother⟩ :=
      matchedSource_buildContext input estimator hbody hmatched
    have hlength := length_keptSource_matched input estimator hbody hmatched
    have hkept := keptSource_isPrefix input estimator
    rw [offeredSource_eq input hbody] at hkept
    have hfewer := hkept.length_le
    refine ⟨_, hsource, hother, hkept.filterMap _, ?_⟩
    simp only [hlength]
    omega
  withoutBody := noSource_buildContext input estimator
  fileOutline := cut_buildContext input estimator _ (regrouped_outline input)
  callers := cut_buildContext input estimator _ (regrouped_callers input)
  annotated := cut_buildContext input estimator _ (regrouped_annotated input)
  javaTextReferences := cut_buildContext input estimator _ (regrouped_java input)
  kotlinTextReferences :=
    cut_buildContext input estimator _ (regrouped_kotlin input)
  implementors :=
    cut_buildContext input estimator _ (regrouped_implementors input)
  priority := priority_buildContext input estimator
  bound := tokenUpperBound_le_budget _ _ _ _
  everyCaller hcallers := by
    have hcut := cut_buildContext input estimator _ (regrouped_callers input)
    have hoffered : input.offeredCallers = input.cappedCallers.kept := by
      rw [ContextInput.offeredCallers, ContextInput.withCallers, if_pos hcallers]
    calc
      _ = input.offeredCallers.length + input.cappedCallers.productionOmitted +
            input.cappedCallers.testOmitted :=
        congrArg (· + _ + _) hcut.2
      _ = input.callers.length := by
        rw [hoffered]
        exact length_capCallers input.callers input.caps
  everyLine source hsource := by
    obtain ⟨hlength, hle, hlines⟩ := lines_buildContext input estimator hsource
    refine ⟨hlength, ?_, hlines⟩
    intro number
    rw [List.mem_range'_1]
    omega
  monotone _ hle := keptIn_buildContext input estimator hle

end Spending

end Ktsense.Core
