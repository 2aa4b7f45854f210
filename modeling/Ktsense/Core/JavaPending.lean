import Ktsense.Core.JavaBlocks

/-!
# What the declaration scan has read

The pending unit in terms of the tokens since the last boundary: whether one of them
opened a parameter list, gave a method its name or gave a field its name.
-/

namespace Ktsense.Core

open Ktsense.Foundation

/-- Tokens without their places. -/
def bare (tokens : List Token) : List Seen := tokens.map fun token => .token ⟨token, 0, 0⟩

/-- One of these items has this behind what stands before it. -/
def Occurs (holds : List Seen → Seen → Prop) (items : List Seen) : Prop :=
  ∃ before item after, items = before ++ item :: after ∧ holds before item

/-- A parenthesis at depth zero, before which no type is named. -/
def OpensList (depth : UInt32) (before : List Seen) (item : Seen) : Prop :=
  item.token? = some .lParen ∧ depthAfter depth before = 0 ∧ ¬NamesType before

def ListsParameters (depth : UInt32) (items : List Seen) : Prop :=
  Occurs (OpensList depth) items

/-- Such a parenthesis behind a name that is no control keyword, with no `new` before
it: the name is taken for a method's. -/
def NamesMethod (depth : UInt32) (items : List Seen) : Prop :=
  Occurs (fun before item => OpensList depth before item ∧
    ∃ name, (idents before).getLast? = some name ∧ isControlKeyword name = false ∧
      "new" ∉ idents before) items

/-- An equals sign behind a name, with no name taken for a method's before it: the name
is taken for a field's. -/
def NamesField (depth : UInt32) (items : List Seen) : Prop :=
  Occurs (fun before item => item.token? = some .eq ∧ idents before ≠ [] ∧
    ¬NamesMethod depth before) items

def HasAssignment (items : List Seen) : Prop := Occurs (fun _ item => item.token? = some .eq) items

theorem occurs_concat {holds : List Seen → Seen → Prop} {items : List Seen} {item : Seen} :
    Occurs holds (items ++ [item]) ↔ Occurs holds items ∨ holds items item := by
  constructor
  · rintro ⟨before, found, after, hsplit, hholds⟩
    cases after using List.reverseRecOn with
    | nil =>
        obtain ⟨rfl, hitem⟩ := List.append_inj' hsplit rfl
        cases hitem
        exact .inr hholds
    | append_singleton after last =>
        rw [← List.cons_append, ← List.append_assoc] at hsplit
        exact .inl ⟨before, found, after, (List.append_inj' hsplit rfl).1, hholds⟩
  · rintro (⟨before, found, after, rfl, hholds⟩ | hholds)
    · exact ⟨before, found, after ++ [item], by simp, hholds⟩
    · exact ⟨items, item, [], rfl, hholds⟩

theorem not_occurs_nil (holds : List Seen → Seen → Prop) : ¬Occurs holds [] := by
  rintro ⟨before, item, after, hsplit, -⟩
  simp at hsplit

/-! ## Tokens and their places -/

/-- Tokens at lines and offsets. -/
def layOut (place : ℕ → ℕ × ℕ) : ℕ → List Token → List Seen
  | _, [] => []
  | index, token :: rest =>
      .token ⟨token, (place index).1, (place index).2⟩ :: layOut place (index + 1) rest

theorem mem_layOut {place : ℕ → ℕ × ℕ} {index : ℕ} {tokens : List Token} {item : Seen}
    (hitem : item ∈ layOut place index tokens) :
    ∃ token ∈ tokens, ∃ line offset, item = .token ⟨token, line, offset⟩ := by
  induction tokens generalizing index with
  | nil => cases hitem
  | cons first rest ih =>
      rcases List.mem_cons.mp hitem with rfl | hrest
      · exact ⟨first, List.mem_cons_self, _, _, rfl⟩
      · obtain ⟨token, htoken, found⟩ := ih hrest
        exact ⟨token, List.mem_cons_of_mem _ htoken, found⟩

theorem isBoundary_token (token : Token) (line offset : ℕ) :
    (Seen.token ⟨token, line, offset⟩).isBoundary = true ↔
      token = .lBrace ∨ token = .rBrace ∨ token = .semi := by
  simp [Seen.isBoundary, Seen.token?, or_assoc]

/-- The unit in terms of the items since the boundary; what it shares with the unit of
the enclosing scan is read by that one. -/
structure PendingUnit.Reads (pending : PendingUnit) (depth : UInt32) (items : List Seen) :
    Prop where
  unit : ∃ unit : ScanUnit, InStep unit pending ∧ unit.Reads depth items
  parameters : pending.sawParamList = true ↔ ListsParameters depth items
  method : pending.methodName.isSome = true ↔ NamesMethod depth items
  assigned : pending.sawAssignment = true ↔ HasAssignment items
  field : pending.fieldName.isSome = true ↔ NamesField depth items

namespace PendingUnit.Reads

variable {pending : PendingUnit} {depth : UInt32} {items : List Seen}

theorem default (depth : UInt32) : PendingUnit.default.Reads depth [] where
  unit := ⟨.default, InStep.default, ScanUnit.reads_default depth⟩
  parameters := iff_of_false (by decide) (not_occurs_nil _)
  method := iff_of_false (by decide) (not_occurs_nil _)
  assigned := iff_of_false (by decide) (not_occurs_nil _)
  field := iff_of_false (by decide) (not_occurs_nil _)

theorem typeName (hreads : pending.Reads depth items) :
    pending.typeName.isSome = true ↔ NamesType items := by
  obtain ⟨unit, hstep, hunit⟩ := hreads.unit
  rw [← hstep.className]
  exact hunit.named

theorem prevIdent (hreads : pending.Reads depth items) :
    pending.prevIdent = (idents items).getLast? := by
  obtain ⟨unit, hstep, hunit⟩ := hreads.unit
  rw [← hstep.prevIdent]
  exact hunit.prevIdent

theorem arrow (hreads : pending.Reads depth items) :
    pending.sawArrow = true ↔ HasArrow items := by
  obtain ⟨unit, hstep, hunit⟩ := hreads.unit
  rw [← hstep.sawArrow]
  exact hunit.arrow

theorem new (hreads : pending.Reads depth items) (hnames : ¬NamesType items) :
    pending.sawNew = true ↔ "new" ∈ idents items := by
  obtain ⟨unit, hstep, hunit⟩ := hreads.unit
  rw [← hstep.sawNew]
  exact hunit.new hnames

/-- An item that is neither a parenthesis nor an equals sign: what only the declaration
scan keeps is as it was. -/
theorem quiet (hreads : pending.Reads depth items) {item : Seen} {after : PendingUnit}
    (hparen : item.token? ≠ some .lParen) (hsign : item.token? ≠ some .eq)
    (hparameters : after.sawParamList = pending.sawParamList)
    (hmethod : after.methodName = pending.methodName)
    (hassigned : after.sawAssignment = pending.sawAssignment)
    (hfield : after.fieldName = pending.fieldName)
    (hunit : ∃ unit : ScanUnit, InStep unit after ∧ unit.Reads depth (items ++ [item])) :
    after.Reads depth (items ++ [item]) where
  unit := hunit
  parameters := by
    rw [hparameters, hreads.parameters, ListsParameters, ListsParameters, occurs_concat]
    simp [OpensList, hparen]
  method := by
    rw [hmethod, hreads.method, NamesMethod, NamesMethod, occurs_concat]
    simp [OpensList, hparen]
  assigned := by
    rw [hassigned, hreads.assigned, HasAssignment, HasAssignment, occurs_concat]
    simp [hsign]
  field := by
    rw [hfield, hreads.field, NamesField, NamesField, occurs_concat]
    simp [hsign]

theorem ident (hreads : pending.Reads depth items) (name : String) (offset line : ℕ) :
    (pending.observeIdent name offset line).Reads depth
      (items ++ [.token ⟨.ident name, 0, 0⟩]) := by
  obtain ⟨unit, hstep, hunit⟩ := hreads.unit
  have hobserved := hstep.observeIdent name offset line
  -- the unit of the enclosing scan keeps a line as well, which is not read
  have hline : ∃ startLine, unit.observeIdent name 0 =
      { unit.observeIdent name line with startLine } := by
    refine ⟨(unit.observeIdent name 0).startLine, ?_⟩
    simp only [ScanUnit.observeIdent]
    split_ifs <;> rfl
  have hplaced : InStep (unit.observeIdent name 0) (pending.observeIdent name offset line) := by
    obtain ⟨startLine, hsame⟩ := hline
    rw [hsame]
    exact { hobserved with }
  have hkept : (pending.observeIdent name offset line).sawParamList = pending.sawParamList ∧
      (pending.observeIdent name offset line).methodName = pending.methodName ∧
      (pending.observeIdent name offset line).sawAssignment = pending.sawAssignment ∧
      (pending.observeIdent name offset line).fieldName = pending.fieldName := by
    rw [PendingUnit.observeIdent]
    split_ifs <;> exact ⟨rfl, rfl, rfl, rfl⟩
  exact hreads.quiet (by simp [Seen.token?]) (by simp [Seen.token?]) hkept.1 hkept.2.1
    hkept.2.2.1 hkept.2.2.2 ⟨_, hplaced, hunit.ident name 0 0⟩

theorem equals (hreads : pending.Reads depth items) :
    pending.observeAssignment.Reads depth (items ++ [.token ⟨.eq, 0, 0⟩]) := by
  obtain ⟨unit, hstep, hunit⟩ := hreads.unit
  have hsign : (Seen.token ⟨.eq, 0, 0⟩).token? = some .eq := rfl
  have hparen : (Seen.token ⟨.eq, 0, 0⟩).token? ≠ some .lParen := by simp [Seen.token?]
  have hkept : pending.observeAssignment.sawParamList = pending.sawParamList ∧
      pending.observeAssignment.methodName = pending.methodName ∧
      pending.observeAssignment.sawAssignment = true := by
    simp only [PendingUnit.observeAssignment]
    split_ifs
    · split <;> exact ⟨rfl, rfl, rfl⟩
    · exact ⟨rfl, rfl, rfl⟩
  have hfield : pending.observeAssignment.fieldName.isSome = true ↔
      pending.fieldName.isSome = true ∨
        pending.prevIdent.isSome = true ∧ ¬pending.methodName.isSome = true := by
    simp only [PendingUnit.observeAssignment]
    cases hname : pending.fieldName <;> cases hmethod : pending.methodName <;>
      cases hident : pending.prevIdent <;> simp
  exact {
    unit := ⟨unit, hstep.observeAssignment, hunit.silent rfl rfl hparen unit.sawArrow
      (by simp [Seen.token?])⟩
    parameters := by
      rw [hkept.1, hreads.parameters, ListsParameters, ListsParameters, occurs_concat]
      simp [OpensList, hparen]
    method := by
      rw [hkept.2.1, hreads.method, NamesMethod, NamesMethod, occurs_concat]
      simp [OpensList, hparen]
    assigned := by
      rw [hkept.2.2, HasAssignment, occurs_concat]
      exact iff_of_true rfl (.inr hsign)
    field := by
      have hidents : pending.prevIdent.isSome = true ↔ idents items ≠ [] := by
        rw [hreads.prevIdent, List.getLast?_isSome]
      rw [hfield, hreads.field, hreads.method, hidents, NamesField, NamesField, occurs_concat]
      simp only [hsign, true_and] }

theorem observeParamListOpen_kept (pending : PendingUnit) :
    pending.observeParamListOpen.sawAssignment = pending.sawAssignment ∧
      pending.observeParamListOpen.fieldName = pending.fieldName := by
  rw [PendingUnit.observeParamListOpen]
  split_ifs
  · exact ⟨rfl, rfl⟩
  · dsimp only
    split
    · split_ifs <;> exact ⟨rfl, rfl⟩
    · exact ⟨rfl, rfl⟩

/-- An opening parenthesis opens a parameter list where no type is named. -/
theorem sawParamList_open (hreads : pending.Reads depth items) :
    pending.observeParamListOpen.sawParamList = true ↔
      pending.sawParamList = true ∨ ¬NamesType items := by
  have htyped : pending.typeName.isSome = true ↔ NamesType items := hreads.typeName
  rw [PendingUnit.observeParamListOpen]
  split_ifs with htype
  · exact (or_iff_left (not_not_intro (htyped.mp htype))).symm
  · have hnames := htyped.not.mp htype
    refine iff_of_true ?_ (.inr hnames)
    dsimp only
    split
    · split_ifs <;> rfl
    · rfl

/-- It names a method where a word that is no control keyword stands before it, and no `new`. -/
theorem methodName_open (hreads : pending.Reads depth items) :
    pending.observeParamListOpen.methodName.isSome = true ↔
      pending.methodName.isSome = true ∨ ¬NamesType items ∧
        ∃ name, (idents items).getLast? = some name ∧ isControlKeyword name = false ∧
          "new" ∉ idents items := by
  have htyped : pending.typeName.isSome = true ↔ NamesType items := hreads.typeName
  rw [PendingUnit.observeParamListOpen]
  split_ifs with htype
  · exact (or_iff_left fun hcalled => hcalled.1 (htyped.mp htype)).symm
  · have hnames := htyped.not.mp htype
    have hnew : pending.sawNew = false ↔ "new" ∉ idents items := by
      rw [← hreads.new hnames, Bool.not_eq_true]
    rw [← hreads.prevIdent, ← hnew]
    dsimp only
    split
    · rename_i name hident
      split_ifs with hcalled
      · rw [Bool.and_eq_true, Bool.not_eq_true', Bool.not_eq_true'] at hcalled
        exact iff_of_true rfl (.inr ⟨hnames, name, hident, hcalled⟩)
      · refine (or_iff_left ?_).symm
        rintro ⟨-, other, hother, hcontrol, hfresh⟩
        rw [hident, Option.some.injEq] at hother
        exact hcalled (by rw [hother, hcontrol, hfresh]; rfl)
    · rename_i hident
      refine (or_iff_left ?_).symm
      rintro ⟨-, other, hother, -⟩
      rw [hident] at hother
      cases hother

/-- A parenthesis is noted where the scan stands at depth zero. -/
theorem paren (hreads : pending.Reads depth items) :
    PendingUnit.Reads
      (if depthAfter depth items = 0 then pending.observeParamListOpen else pending) depth
      (items ++ [.token ⟨.lParen, 0, 0⟩]) := by
  obtain ⟨unit, hstep, hunit⟩ := hreads.unit
  have hparen : (Seen.token ⟨.lParen, 0, 0⟩).token? = some .lParen := rfl
  have hsign : (Seen.token ⟨.lParen, 0, 0⟩).token? ≠ some .eq := by simp [Seen.token?]
  have hread := hunit.paren 0 0
  have hboth : ∃ unit : ScanUnit, InStep unit
      (if depthAfter depth items = 0 then pending.observeParamListOpen else pending) ∧
        unit.Reads depth (items ++ [.token ⟨.lParen, 0, 0⟩]) := by
    refine ⟨_, ?_, hread⟩
    split_ifs
    · exact hstep.observeParamListOpen
    · exact hstep
  have hkept := observeParamListOpen_kept pending
  by_cases hdepth : depthAfter depth items = 0
  · rw [if_pos hdepth] at hboth ⊢
    exact {
      unit := hboth
      parameters := by
        rw [hreads.sawParamList_open, hreads.parameters, ListsParameters, ListsParameters,
          occurs_concat]
        simp only [OpensList, hparen, hdepth, true_and]
      method := by
        rw [hreads.methodName_open, hreads.method, NamesMethod, NamesMethod, occurs_concat]
        simp only [OpensList, hparen, hdepth, true_and]
      assigned := by
        rw [hkept.1, hreads.assigned, HasAssignment, HasAssignment, occurs_concat]
        simp [hsign]
      field := by
        rw [hkept.2, hreads.field, NamesField, NamesField, occurs_concat]
        simp [hsign] }
  · rw [if_neg hdepth] at hboth ⊢
    exact {
      unit := hboth
      parameters := by
        rw [hreads.parameters, ListsParameters, ListsParameters, occurs_concat]
        simp [OpensList, hdepth]
      method := by
        rw [hreads.method, NamesMethod, NamesMethod, occurs_concat]
        simp [OpensList, hdepth]
      assigned := by
        rw [hreads.assigned, HasAssignment, HasAssignment, occurs_concat]
        simp [hsign]
      field := by
        rw [hreads.field, NamesField, NamesField, occurs_concat]
        simp [hsign] }

/-- A token that is no boundary. -/
theorem see {declared : DeclarationScan} (hreads : declared.pending.Reads depth items)
    (hdepth : declared.parenDepth = depthAfter depth items) (letters : Letters)
    (source : String) {token : Token} (hquiet : (Seen.token ⟨token, 0, 0⟩).isBoundary = false)
    (line offset : ℕ) :
    (declared.see letters source (.token ⟨token, line, offset⟩)).pending.Reads depth
      (items ++ [.token ⟨token, 0, 0⟩]) := by
  obtain ⟨unit, hstep, hunit⟩ := hreads.unit
  cases token with
  | ident name => exact hreads.ident name offset line
  | eq => exact hreads.equals
  | lParen =>
      have hparen := hreads.paren
      rw [← hdepth] at hparen
      exact hparen
  | arrow =>
      refine hreads.quiet (by simp [Seen.token?]) (by simp [Seen.token?]) rfl rfl rfl rfl
        ⟨{ unit with sawArrow := true }, { hstep with sawArrow := rfl }, ?_⟩
      exact hunit.silent rfl rfl (by simp [Seen.token?]) true (by simp [Seen.token?])
  | rParen | «at» | lAngle | rAngle =>
      refine hreads.quiet (by simp [Seen.token?]) (by simp [Seen.token?]) rfl rfl rfl rfl
        ⟨unit, { hstep with }, ?_⟩
      exact hunit.silent rfl rfl (by simp [Seen.token?]) unit.sawArrow (by simp [Seen.token?])
  | lBrace | rBrace | semi => simp [Seen.isBoundary, Seen.token?] at hquiet

end PendingUnit.Reads

end Ktsense.Core
