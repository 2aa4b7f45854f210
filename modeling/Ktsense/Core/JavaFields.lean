import Ktsense.Core.JavaPending

/-!
# Fields and their initializers

At an assignment the declaration scan takes down a field's name and keeps it to the
semicolon, whatever stands between, as long as that holds no brace.  A brace starts
a new unit, and the name is lost.  So is it where an annotation with a qualified name
stands before it: only the first segment is passed over, and the rest with its
arguments is read as part of the header.
-/

namespace Ktsense.Core

open Ktsense.Foundation

/-- Lines never go back and offsets always go on. -/
def InOrder (place : ℕ → ℕ × ℕ) : Prop :=
  ∀ index, (place index).1 ≤ (place (index + 1)).1 ∧ (place index).2 < (place (index + 1)).2

def initializerTokens : Option (List Token) → List Token
  | none => []
  | some tokens => .eq :: tokens

/-- In an initializer semicolons and closing braces stand behind an open brace. -/
def BracesMatch (tokens : List Token) : Prop :=
  ∀ (front : List Token) (token : Token) (rest : List Token), tokens = front ++ token :: rest →
    token = .semi ∨ token = .rBrace → front.count .rBrace < front.count .lBrace

section Recording

variable (letters : Letters) (source : String)

/-- What the scan records at these items. -/
def recorded (declared : DeclarationScan) (items : List Seen) : List JavaDeclaration :=
  (items.foldl (DeclarationScan.see letters source) declared).declarations.drop
    declared.declarations.length

end Recording

/-- All that the scan has recorded in between is such. -/
def AddsOnly (holds : JavaDeclaration → Prop) (before after : DeclarationScan) : Prop :=
  ∃ added, after.declarations = before.declarations ++ added ∧ ∀ declaration ∈ added,
    holds declaration

namespace AddsOnly

variable {holds other : JavaDeclaration → Prop} {first second third : DeclarationScan}

theorem of_eq (hsame : second.declarations = first.declarations) : AddsOnly holds first second :=
  ⟨[], by rw [hsame, List.append_nil], List.forall_mem_nil _⟩

theorem trans (hfirst : AddsOnly holds first second) (hsecond : AddsOnly holds second third) :
    AddsOnly holds first third := by
  obtain ⟨added, hadded, hall⟩ := hfirst
  obtain ⟨more, hmore, hallMore⟩ := hsecond
  refine ⟨added ++ more, by rw [hmore, hadded, List.append_assoc], fun declaration hmem => ?_⟩
  rcases List.mem_append.mp hmem with hold | hnew
  · exact hall declaration hold
  · exact hallMore declaration hnew

theorem imp (himp : ∀ declaration, holds declaration → other declaration)
    (hadds : AddsOnly holds first second) : AddsOnly other first second := by
  obtain ⟨added, hadded, hall⟩ := hadds
  exact ⟨added, hadded, fun declaration hmem => himp declaration (hall declaration hmem)⟩

end AddsOnly

/-- The unit of a new statement is no field's. -/
theorem PendingUnit.kind_default : PendingUnit.default.kind ≠ some .field := by
  simp [PendingUnit.default]

theorem typeKind_ne_field (name : String) : typeKind name ≠ .field := by
  rw [typeKind]
  split_ifs <;> simp

theorem PendingUnit.kind_observeIdent {pending : PendingUnit} (hkind : pending.kind ≠ some .field)
    (name : String) (offset line : ℕ) :
    (pending.observeIdent name offset line).kind ≠ some .field := by
  rw [PendingUnit.observeIdent]
  split_ifs
  · exact fun h => typeKind_ne_field name (Option.some.inj h)
  · exact hkind
  · exact hkind
  · exact hkind
  · exact hkind

theorem PendingUnit.kind_observeParamListOpen (pending : PendingUnit) :
    pending.observeParamListOpen.kind = pending.kind := by
  rw [PendingUnit.observeParamListOpen]
  split_ifs
  · rfl
  · dsimp only
    split
    · split_ifs <;> rfl
    · rfl

theorem PendingUnit.kind_observeAssignment (pending : PendingUnit) :
    pending.observeAssignment.kind = pending.kind := by
  simp only [PendingUnit.observeAssignment]
  split_ifs
  · split <;> rfl
  · rfl

theorem kind_see (letters : Letters) (source : String) {declared : DeclarationScan}
    (hkind : declared.pending.kind ≠ some .field) (item : Seen) :
    (declared.see letters source item).pending.kind ≠ some .field := by
  cases item with
  | annotationType here => exact fun h => by cases h
  | token here =>
      obtain ⟨token, line, offset⟩ := here
      cases token with
      | ident name => exact PendingUnit.kind_observeIdent hkind name offset line
      | eq =>
          change declared.pending.observeAssignment.kind ≠ _
          rwa [PendingUnit.kind_observeAssignment]
      | lParen =>
          change PendingUnit.kind (if declared.parenDepth = 0 then
            declared.pending.observeParamListOpen else declared.pending) ≠ _
          split_ifs
          · rwa [PendingUnit.kind_observeParamListOpen]
          · exact hkind
      | lBrace =>
          change (declared.openBlock letters source _).pending.kind ≠ _
          rw [(pending_openBlock letters source declared _).1]
          exact PendingUnit.kind_default
      | rBrace => exact PendingUnit.kind_default
      | semi => exact PendingUnit.kind_default
      | rParen | «at» | arrow | lAngle | rAngle => exact hkind

variable {source : String}

theorem memberKind_ne_field (pending : PendingUnit) (name : String) (typeStack : List String) :
    pending.memberKind name typeStack ≠ .field := by
  rw [PendingUnit.memberKind]
  split_ifs <;> simp

theorem kind_of_classifyBlock {pending : PendingUnit} {typeStack : List String}
    {kind : JavaDeclKind} (hkind : pending.kind ≠ some .field)
    (hblock : pending.classifyBlock typeStack = .type kind ∨
      pending.classifyBlock typeStack = .member kind) : kind ≠ .field := by
  rw [PendingUnit.classifyBlock] at hblock
  split at hblock
  · rename_i found _ hfound _
    rcases hblock with hblock | hblock <;> cases hblock
    exact fun h => hkind (hfound.trans (congrArg some h))
  · split_ifs at hblock
    · split at hblock <;> rcases hblock with hblock | hblock <;> cases hblock
      exact memberKind_ne_field _ _ _
    · rcases hblock with hblock | hblock <;> cases hblock

/-- What a brace records is no field. -/
theorem openBlock_adds (letters : Letters) (source : String) (declared : DeclarationScan)
    (hkind : declared.pending.kind ≠ some .field) (here : Spanned) :
    AddsOnly (·.kind ≠ .field) declared (declared.openBlock letters source here) := by
  rw [DeclarationScan.openBlock]
  cases hblock : declared.pending.classifyBlock declared.typeStack with
  | type kind =>
      refine ⟨_, rfl, ?_⟩
      intro declaration hdeclaration
      rw [List.mem_singleton.mp hdeclaration]
      exact kind_of_classifyBlock hkind (.inl hblock)
  | member kind =>
      refine ⟨_, rfl, ?_⟩
      intro declaration hdeclaration
      rw [List.mem_singleton.mp hdeclaration]
      exact kind_of_classifyBlock hkind (.inr hblock)
  | anonymous => exact ⟨[], by simp, by simp⟩

/-- Only a semicolon records a field. -/
theorem see_adds (letters : Letters) (source : String) {declared : DeclarationScan}
    (hkind : declared.pending.kind ≠ some .field) {token : Token} (hsemi : token ≠ .semi)
    (line offset : ℕ) :
    AddsOnly (·.kind ≠ .field) declared
      (declared.see letters source (.token ⟨token, line, offset⟩)) := by
  cases token with
  | lBrace => exact openBlock_adds letters source declared hkind _
  | semi => exact absurd rfl hsemi
  | ident | rBrace | lParen | rParen | «at» | arrow | eq | lAngle | rAngle =>
      exact AddsOnly.of_eq rfl

/-- So many scopes have been opened and are not closed, with their names. -/
def Above (declared scan : DeclarationScan) (height : ℕ) : Prop :=
  ∃ opened names, scan.scopes = opened ++ declared.scopes ∧
    scan.typeStack = declared.typeStack ++ names ∧ opened.length = height ∧
      names.length = opened.count .type

namespace Above

variable {declared scan : DeclarationScan} {height : ℕ}

theorem refl (declared : DeclarationScan) : Above declared declared 0 :=
  ⟨[], [], rfl, (List.append_nil _).symm, rfl, rfl⟩

theorem scopes (habove : Above declared scan 0) :
    scan.scopes = declared.scopes ∧ scan.typeStack = declared.typeStack := by
  obtain ⟨opened, names, hscopes, hstack, hopened, hnames⟩ := habove
  rw [List.length_eq_zero_iff] at hopened
  subst hopened
  rw [List.count_nil, List.length_eq_zero_iff] at hnames
  subst hnames
  exact ⟨hscopes, hstack.trans (List.append_nil _)⟩

theorem openBlock (habove : Above declared scan height) (letters : Letters) (source : String)
    (here : Spanned) : Above declared (scan.openBlock letters source here) (height + 1) := by
  obtain ⟨opened, names, hscopes, hstack, hopened, hnames⟩ := habove
  rw [DeclarationScan.openBlock]
  cases scan.pending.classifyBlock scan.typeStack with
  | type kind =>
      refine ⟨.type :: opened, names ++ [scan.pending.typeName.getD ""], ?_, ?_, ?_, ?_⟩
      · exact congrArg (List.cons _) hscopes
      · rw [← List.append_assoc, ← hstack]
      · rw [List.length_cons, hopened]
      · rw [List.length_append, hnames, List.count_cons_self]
        rfl
  | member kind =>
      refine ⟨.member :: opened, names, congrArg (List.cons _) hscopes, hstack, ?_, ?_⟩
      · rw [List.length_cons, hopened]
      · rw [hnames, List.count_cons_of_ne (by decide)]
  | anonymous =>
      refine ⟨.anonymous :: opened, names, congrArg (List.cons _) hscopes, hstack, ?_, ?_⟩
      · rw [List.length_cons, hopened]
      · rw [hnames, List.count_cons_of_ne (by decide)]

theorem closeBlock (habove : Above declared scan (height + 1)) :
    Above declared scan.closeBlock height := by
  obtain ⟨opened, names, hscopes, hstack, hopened, hnames⟩ := habove
  obtain ⟨scope, opened, rfl⟩ := List.exists_cons_of_length_eq_add_one hopened
  rw [List.length_cons, Nat.add_right_cancel_iff] at hopened
  rw [List.cons_append] at hscopes
  by_cases htype : scope = .type
  · subst htype
    rw [List.count_cons_self] at hnames
    refine ⟨opened, names.dropLast, ?_, ?_, hopened, ?_⟩
    · rw [DeclarationScan.closeBlock, hscopes]
      rfl
    · have hne : names ≠ [] := by
        rintro rfl
        cases hnames
      rw [DeclarationScan.closeBlock, hscopes, hstack]
      exact List.dropLast_append_of_ne_nil hne
    · rw [List.length_dropLast, hnames]
      rfl
  · rw [List.count_cons_of_ne htype] at hnames
    refine ⟨opened, names, ?_, ?_, hopened, hnames⟩
    · rw [DeclarationScan.closeBlock, hscopes]
      rfl
    · have hhead : (scope :: (opened ++ declared.scopes)).head? ≠ some .type := by
        simpa using htype
      rw [DeclarationScan.closeBlock, hscopes]
      exact (if_neg hhead).trans hstack

end Above

/-- Behind no open brace there is no boundary. -/
theorem not_isBoundary_of_no_brace {tokens : List Token} (hmatch : BracesMatch tokens)
    (hbrace : .lBrace ∉ tokens) {token : Token} (htoken : token ∈ tokens) :
    ¬(token = .lBrace ∨ token = .rBrace ∨ token = .semi) := by
  rintro (rfl | hcloses)
  · exact hbrace htoken
  · obtain ⟨front, rest, hsplit⟩ := List.append_of_mem htoken
    have hopen := hmatch front token rest hsplit (by tauto)
    have hnone : front.count .lBrace = 0 :=
      List.count_eq_zero.mpr fun hmem => hbrace (by rw [hsplit]; simp [hmem])
    omega

/-! ## Where the field is kept -/

/-- The name of a field, taken down at its assignment. -/
structure PendingUnit.Holds (pending : PendingUnit) (name : String) (line : ℕ) : Prop where
  fieldName : pending.fieldName = some name
  fieldNameLine : pending.fieldNameLine = line
  sawAssignment : pending.sawAssignment = true
  started : pending.startOffset.isSome = true

/-- The name of a method stands where a field's would be taken down. -/
structure PendingUnit.Called (pending : PendingUnit) : Prop where
  fieldName : pending.fieldName = none
  methodName : pending.methodName.isSome = true

/-- The last word is this, and an assignment has been seen. -/
structure PendingUnit.Ends (pending : PendingUnit) (name : String) (line : ℕ) : Prop where
  prevIdent : pending.prevIdent = some name
  prevIdentLine : pending.prevIdentLine = line
  sawAssignment : pending.sawAssignment = true
  started : pending.startOffset.isSome = true

section Seeing

variable {declared : DeclarationScan} {name : String} {line : ℕ}

/-- A word behind which a semicolon or an assignment takes it for the field's name. -/
theorem PendingUnit.observeIdent_last (pending : PendingUnit) (word : String)
    (offset line : ℕ) :
    (pending.observeIdent word offset line).prevIdent = some word ∧
      (pending.observeIdent word offset line).prevIdentLine = line ∧
      (pending.observeIdent word offset line).startOffset.isSome = true := by
  rw [PendingUnit.observeIdent]
  split_ifs <;> exact ⟨rfl, rfl, by cases pending.startOffset <;> rfl⟩

theorem PendingUnit.observeIdent_field (pending : PendingUnit) (word : String)
    (offset line : ℕ) :
    (pending.observeIdent word offset line).fieldName = pending.fieldName ∧
      (pending.observeIdent word offset line).fieldNameLine = pending.fieldNameLine := by
  rw [PendingUnit.observeIdent]
  split_ifs <;> exact ⟨rfl, rfl⟩

theorem PendingUnit.observeIdent_flags (pending : PendingUnit) (word : String)
    (offset line : ℕ) :
    (pending.observeIdent word offset line).methodName = pending.methodName ∧
      (pending.observeIdent word offset line).sawParamList = pending.sawParamList ∧
      (pending.observeIdent word offset line).sawArrow = pending.sawArrow ∧
      (pending.observeIdent word offset line).sawAssignment = pending.sawAssignment := by
  rw [PendingUnit.observeIdent]
  split_ifs <;> exact ⟨rfl, rfl, rfl, rfl⟩

/-- What a parenthesis leaves alone. -/
theorem PendingUnit.observeParamListOpen_kept (pending : PendingUnit) :
    (pending.methodName.isSome = true →
        pending.observeParamListOpen.methodName.isSome = true) ∧
      pending.observeParamListOpen.fieldName = pending.fieldName ∧
      pending.observeParamListOpen.fieldNameLine = pending.fieldNameLine ∧
      pending.observeParamListOpen.prevIdent = pending.prevIdent ∧
      pending.observeParamListOpen.prevIdentLine = pending.prevIdentLine ∧
      pending.observeParamListOpen.sawAssignment = pending.sawAssignment ∧
      pending.observeParamListOpen.startOffset = pending.startOffset := by
  rw [PendingUnit.observeParamListOpen]
  split_ifs
  · exact ⟨id, rfl, rfl, rfl, rfl, rfl, rfl⟩
  · dsimp only
    split
    · split_ifs
      · exact ⟨fun _ => rfl, rfl, rfl, rfl, rfl, rfl, rfl⟩
      · exact ⟨id, rfl, rfl, rfl, rfl, rfl, rfl⟩
    · exact ⟨id, rfl, rfl, rfl, rfl, rfl, rfl⟩

/-- Where a method's name stands an assignment takes down no field's. -/
theorem PendingUnit.Called.observeAssignment {pending : PendingUnit}
    (hcalled : pending.Called) :
    pending.observeAssignment = { pending with sawAssignment := true } := by
  have hmethod : pending.methodName.isNone = false := by
    rw [Option.isNone_eq_false_iff]
    exact hcalled.methodName
  simp only [PendingUnit.observeAssignment, hmethod, Bool.and_false, Bool.false_eq_true,
    if_false]

theorem PendingUnit.Called.see (letters : Letters) (source : String)
    (hcalled : declared.pending.Called) {token : Token}
    (hquiet : (Seen.token ⟨token, 0, 0⟩).isBoundary = false) (here there : ℕ) :
    (declared.see letters source (.token ⟨token, here, there⟩)).pending.Called := by
  obtain ⟨hfield, hmethod⟩ := hcalled
  cases token with
  | ident word =>
      change (declared.pending.observeIdent word there here).Called
      have hkept := declared.pending.observeIdent_flags word there here
      have hnone := declared.pending.observeIdent_field word there here
      exact ⟨hnone.1.trans hfield, by rw [hkept.1]; exact hmethod⟩
  | lParen =>
      change PendingUnit.Called (if declared.parenDepth = 0 then
        declared.pending.observeParamListOpen else declared.pending)
      have hkept := declared.pending.observeParamListOpen_kept
      split_ifs
      · exact ⟨hkept.2.1.trans hfield, hkept.1 hmethod⟩
      · exact ⟨hfield, hmethod⟩
  | eq =>
      change declared.pending.observeAssignment.Called
      rw [PendingUnit.Called.observeAssignment ⟨hfield, hmethod⟩]
      exact ⟨hfield, hmethod⟩
  | rParen | «at» | arrow | lAngle | rAngle => exact ⟨hfield, hmethod⟩
  | lBrace | rBrace | semi => simp [Seen.isBoundary, Seen.token?] at hquiet

theorem PendingUnit.Ends.see (letters : Letters) (source : String)
    (hends : declared.pending.Ends name line) {token : Token}
    (hquiet : (Seen.token ⟨token, 0, 0⟩).isBoundary = false)
    (hword : ∀ word, token ≠ .ident word) (here there : ℕ) :
    (declared.see letters source (.token ⟨token, here, there⟩)).pending.Ends name line := by
  obtain ⟨hident, hline, hassigned, hstarted⟩ := hends
  cases token with
  | ident word => exact absurd rfl (hword word)
  | lParen =>
      change PendingUnit.Ends (if declared.parenDepth = 0 then
        declared.pending.observeParamListOpen else declared.pending) name line
      have hkept := declared.pending.observeParamListOpen_kept
      split_ifs
      · exact ⟨hkept.2.2.2.1.trans hident, hkept.2.2.2.2.1.trans hline,
          hkept.2.2.2.2.2.1.trans hassigned, by rw [hkept.2.2.2.2.2.2]; exact hstarted⟩
      · exact ⟨hident, hline, hassigned, hstarted⟩
  | eq =>
      change declared.pending.observeAssignment.Ends name line
      simp only [PendingUnit.observeAssignment]
      split_ifs
      · split
        · exact ⟨hident, hline, rfl, hstarted⟩
        · exact ⟨hident, hline, rfl, hstarted⟩
      · exact ⟨hident, hline, rfl, hstarted⟩
  | lAngle =>
      refine ⟨hident, hline, hassigned, ?_⟩
      change (declared.pending.startOffset.or _).isSome = true
      rw [Option.isSome_or, hstarted, Bool.true_or]
  | rParen | «at» | arrow | rAngle => exact ⟨hident, hline, hassigned, hstarted⟩
  | lBrace | rBrace | semi => simp [Seen.isBoundary, Seen.token?] at hquiet

theorem called_foldl (letters : Letters) (source : String) {tokens : List Token}
    (hquiet : ∀ token ∈ tokens, (Seen.token ⟨token, 0, 0⟩).isBoundary = false)
    (place : ℕ → ℕ × ℕ) (index : ℕ) (hcalled : declared.pending.Called) :
    ((layOut place index tokens).foldl (DeclarationScan.see letters source)
      declared).pending.Called := by
  induction tokens generalizing declared index with
  | nil => exact hcalled
  | cons token rest ih =>
      exact ih (fun other hother => hquiet other (List.mem_cons_of_mem _ hother)) _
        (hcalled.see letters source (hquiet token List.mem_cons_self) _ _)

theorem ends_foldl (letters : Letters) (source : String) {tokens : List Token}
    (hquiet : ∀ token ∈ tokens, (Seen.token ⟨token, 0, 0⟩).isBoundary = false)
    (hwords : ∀ word, .ident word ∉ tokens) (place : ℕ → ℕ × ℕ) (index : ℕ)
    (hends : declared.pending.Ends name line) :
    ((layOut place index tokens).foldl (DeclarationScan.see letters source)
      declared).pending.Ends name line := by
  induction tokens generalizing declared index with
  | nil => exact hends
  | cons token rest ih =>
      refine ih (fun other hother => hquiet other (List.mem_cons_of_mem _ hother))
        (fun word hword => hwords word (List.mem_cons_of_mem _ hword)) _
        (hends.see letters source (hquiet token List.mem_cons_self) ?_ _ _)
      rintro word rfl
      exact hwords word List.mem_cons_self

theorem PendingUnit.Holds.see (hholds : declared.pending.Holds name line) {item : Seen}
    (hquiet : item.isBoundary = false) :
    (declared.see letters source item).pending.Holds name line := by
  obtain ⟨hname, hline, hassigned, hstarted⟩ := hholds
  cases item with
  | annotationType here =>
      refine ⟨hname, hline, hassigned, ?_⟩
      change (declared.pending.startOffset.or _).isSome = true
      rw [Option.isSome_or, hstarted, Bool.true_or]
  | token here =>
      obtain ⟨token, here, there⟩ := here
      cases token with
      | ident word =>
          change (declared.pending.observeIdent word there here).Holds name line
          have hword := (declared.pending.observeIdent_last word there here).2.2
          refine ⟨?_, ?_, ?_, hword⟩ <;> rw [PendingUnit.observeIdent] <;> split_ifs <;>
            assumption
      | lParen =>
          change PendingUnit.Holds (if declared.parenDepth = 0 then
            declared.pending.observeParamListOpen else declared.pending) name line
          rw [PendingUnit.observeParamListOpen]
          split_ifs
          · exact ⟨hname, hline, hassigned, hstarted⟩
          · dsimp only
            split
            · split_ifs
              · exact ⟨hname, hline, hassigned, hstarted⟩
              · exact ⟨hname, hline, hassigned, hstarted⟩
            · exact ⟨hname, hline, hassigned, hstarted⟩
          · exact ⟨hname, hline, hassigned, hstarted⟩
      | eq =>
          change declared.pending.observeAssignment.Holds name line
          simp only [PendingUnit.observeAssignment, hname, Option.isNone_some, Bool.false_and,
            Bool.false_eq_true, if_false]
          exact ⟨rfl, hline, rfl, hstarted⟩
      | lAngle =>
          refine ⟨hname, hline, hassigned, ?_⟩
          change (declared.pending.startOffset.or _).isSome = true
          rw [Option.isSome_or, hstarted, Bool.true_or]
      | rParen | «at» | arrow | rAngle => exact ⟨hname, hline, hassigned, hstarted⟩
      | lBrace | rBrace | semi => simp [Seen.isBoundary, Seen.token?] at hquiet

theorem holds_foldl {items : List Seen} (hquiet : ∀ item ∈ items, item.isBoundary = false)
    (hholds : declared.pending.Holds name line) :
    (items.foldl (DeclarationScan.see letters source) declared).pending.Holds name line := by
  induction items generalizing declared with
  | nil => exact hholds
  | cons item rest ih =>
      exact ih (fun other hother => hquiet other (List.mem_cons_of_mem _ hother))
        (hholds.see (hquiet item List.mem_cons_self))

/-- At a semicolon this unit is the field of this name and line. -/
def PendingUnit.Names (pending : PendingUnit) (name : String) (line : ℕ) : Prop :=
  ∀ typeStack source offset, ∃ signature,
    pending.classifyStatement typeStack source offset =
      some ⟨.field, name, line, typeStack, signature, []⟩

theorem PendingUnit.Holds.names {pending : PendingUnit} (hholds : pending.Holds name line) :
    pending.Names name line := by
  intro typeStack source offset
  obtain ⟨first, hfirst⟩ := Option.isSome_iff_exists.mp hholds.started
  refine ⟨foldWhitespace (headerSlice source (some first) offset), ?_⟩
  simp [PendingUnit.classifyStatement, hfirst, hholds.fieldName, hholds.fieldNameLine,
    hholds.sawAssignment]

/-- Where no field's name is taken down and the unit is no method's, a semicolon takes
the last word. -/
theorem PendingUnit.names_of_last {pending : PendingUnit} (hfield : pending.fieldName = none)
    (hmethod : pending.sawParamList = true → pending.sawArrow = true ∨
      pending.sawAssignment = true)
    (hident : pending.prevIdent = some name) (hline : pending.prevIdentLine = line)
    (hstarted : pending.startOffset.isSome = true) : pending.Names name line := by
  intro typeStack source offset
  obtain ⟨first, hfirst⟩ := Option.isSome_iff_exists.mp hstarted
  refine ⟨foldWhitespace (headerSlice source (some first) offset), ?_⟩
  have hno : (pending.sawParamList && !pending.sawArrow && !pending.sawAssignment) = false := by
    cases hlist : pending.sawParamList with
    | false => rfl
    | true =>
        rcases hmethod hlist with harrow | hassigned
        · simp [harrow]
        · simp [hassigned]
  simp [PendingUnit.classifyStatement, hfirst, hno, hfield, hident, hline]

/-- An assignment behind a word takes it for the field's name, unless another stands
there. -/
theorem PendingUnit.holds_observeAssignment {pending : PendingUnit}
    (hfield : pending.fieldName = none) (hmethod : pending.methodName = none)
    (hident : pending.prevIdent = some name) (hline : pending.prevIdentLine = line)
    (hstarted : pending.startOffset.isSome = true) :
    pending.observeAssignment.Holds name line := by
  simp only [PendingUnit.observeAssignment, hfield, hmethod, hident, Option.isNone_none,
    Bool.true_and, if_true]
  exact ⟨rfl, hline, rfl, hstarted⟩

end Seeing

section Keeping

variable {declared scan : DeclarationScan} {name : String} {line : ℕ} {lead quiet : List Seen}

/-- The items of tokens without a boundary. -/
theorem quiet_layOut {tokens : List Token}
    (htokens : ∀ token ∈ tokens, (Seen.token ⟨token, 0, 0⟩).isBoundary = false)
    (place : ℕ → ℕ × ℕ) (index : ℕ) :
    ∀ item ∈ layOut place index tokens, item.isBoundary = false := by
  intro item hitem
  obtain ⟨token, htoken, line, offset, rfl⟩ := mem_layOut hitem
  exact htokens token htoken

theorem quiet_initializer {initializer : Option (List Token)}
    (hmatch : ∀ tokens ∈ initializer, BracesMatch tokens)
    (hbrace : ∀ tokens ∈ initializer, .lBrace ∉ tokens) :
    ∀ token ∈ initializerTokens initializer,
      (Seen.token ⟨token, 0, 0⟩).isBoundary = false := by
  intro token htoken
  rw [← Bool.not_eq_true, isBoundary_token]
  cases initializer with
  | none => cases htoken
  | some tokens =>
      rcases List.mem_cons.mp htoken with rfl | hinitial
      · simp
      · exact not_isBoundary_of_no_brace (hmatch tokens rfl) (hbrace tokens rfl) hinitial

/-- What the unit has taken down behind the name of a field. -/
structure PendingUnit.Named (pending : PendingUnit) (depth : UInt32) (tail : List Seen)
    (name : String) (line : ℕ) : Prop where
  prevIdent : pending.prevIdent = some name
  prevIdentLine : pending.prevIdentLine = line
  started : pending.startOffset.isSome = true
  parameters : pending.sawParamList = true ↔ ListsParameters depth tail
  method : pending.methodName.isSome = true ↔ NamesMethod depth tail
  arrow : pending.sawArrow = true ↔ HasArrow tail
  assigned : pending.sawAssignment = true ↔ HasAssignment tail
  field : pending.fieldName.isSome = true ↔ NamesField depth tail

theorem PendingUnit.Reads.named {pending : PendingUnit} {depth : UInt32} {tail : List Seen}
    (hreads : pending.Reads depth tail) (name : String) (offset line : ℕ) :
    (pending.observeIdent name offset line).Named depth tail name line := by
  obtain ⟨hident, hline, hstarted⟩ := pending.observeIdent_last name offset line
  obtain ⟨hmethod, hlist, harrow, hassigned⟩ := pending.observeIdent_flags name offset line
  refine ⟨hident, hline, hstarted, ?_, ?_, ?_, ?_, ?_⟩
  · rw [hlist, hreads.parameters]
  · rw [hmethod, hreads.method]
  · rw [harrow, hreads.arrow]
  · rw [hassigned, hreads.assigned]
  · rw [(pending.observeIdent_field name offset line).1, hreads.field]

/-- What an initializer without a brace, or none, makes of such a unit. -/
theorem PendingUnit.Named.names (letters : Letters) (source : String) {depth : UInt32}
    {tail : List Seen} (hnamed : scan.pending.Named depth tail name line)
    {initializer : Option (List Token)}
    (hmatch : ∀ tokens ∈ initializer, BracesMatch tokens)
    (hbrace : ∀ tokens ∈ initializer, .lBrace ∉ tokens) (hfield : ¬NamesField depth tail)
    (hmethod : NamesMethod depth tail → ∀ tokens ∈ initializer, ∀ word, .ident word ∉ tokens)
    (hlist : initializer = none → ListsParameters depth tail →
      HasArrow tail ∨ HasAssignment tail) (place : ℕ → ℕ × ℕ) (index : ℕ) :
    ((layOut place index (initializerTokens initializer)).foldl
      (DeclarationScan.see letters source) scan).pending.Names name line := by
  have hnone : scan.pending.fieldName = none := by
    rw [← Option.isNone_iff_eq_none, ← Option.isSome_eq_false_iff, ← Bool.not_eq_true]
    exact hnamed.field.not.mpr hfield
  have hquiet := quiet_initializer hmatch hbrace
  cases initializer with
  | none =>
      change scan.pending.Names name line
      refine PendingUnit.names_of_last hnone (fun hparameters => ?_) hnamed.prevIdent
        hnamed.prevIdentLine hnamed.started
      rw [hnamed.arrow, hnamed.assigned]
      exact hlist rfl (hnamed.parameters.mp hparameters)
  | some tokens =>
      rw [initializerTokens, layOut, List.foldl_cons]
      have htokens : ∀ token ∈ tokens, (Seen.token ⟨token, 0, 0⟩).isBoundary = false :=
        fun token htoken => hquiet token (List.mem_cons_of_mem _ htoken)
      set assigned := scan.see letters source (.token ⟨.eq, (place index).1, (place index).2⟩)
        with hassigned
      have hpending : assigned.pending = scan.pending.observeAssignment := rfl
      cases hcalled : scan.pending.methodName with
      | none =>
          refine (holds_foldl (quiet_layOut htokens place (index + 1)) ?_).names
          rw [hpending]
          exact PendingUnit.holds_observeAssignment hnone hcalled hnamed.prevIdent
            hnamed.prevIdentLine hnamed.started
      | some called =>
          have hsome : scan.pending.Called := ⟨hnone, by rw [hcalled]; rfl⟩
          have hassigns : assigned.pending.Called ∧ assigned.pending.Ends name line := by
            rw [hpending, hsome.observeAssignment]
            exact ⟨⟨hnone, hsome.methodName⟩, hnamed.prevIdent, hnamed.prevIdentLine, rfl,
              hnamed.started⟩
          have hwords := hmethod (hnamed.method.mp hsome.methodName) tokens rfl
          have hends := ends_foldl letters source htokens hwords place (index + 1) hassigns.2
          exact PendingUnit.names_of_last
            (called_foldl letters source htokens place (index + 1) hassigns.1).fieldName
            (fun _ => .inr hends.sawAssignment) hends.prevIdent hends.prevIdentLine hends.started

end Keeping

section Fields

variable {declared : DeclarationScan} {header : List Token} {name : String}
  {behind : List Token} {initializer : Option (List Token)}

end Fields

/-! ## Where the field is lost -/

/-- No field on this line. -/
def OffLine (line : ℕ) (declaration : JavaDeclaration) : Prop :=
  declaration.kind = .field → declaration.line ≠ line

/-- Nothing this unit could make a field of stands on this line. -/
structure PendingUnit.Elsewhere (pending : PendingUnit) (line : ℕ) : Prop where
  kind : pending.kind ≠ some .field
  ident : pending.prevIdent.isSome = true → pending.prevIdentLine ≠ line
  field : pending.fieldName.isSome = true → pending.fieldNameLine ≠ line

theorem PendingUnit.elsewhere_default (line : ℕ) : PendingUnit.default.Elsewhere line := by
  constructor <;> simp [PendingUnit.default]

/-- A word on another line is the last one then. -/
theorem PendingUnit.elsewhere_observeIdent {pending : PendingUnit} {line here : ℕ}
    (hkind : pending.kind ≠ some .field)
    (hfield : pending.fieldName.isSome = true → pending.fieldNameLine ≠ line)
    (hhere : here ≠ line) (word : String) (offset : ℕ) :
    (pending.observeIdent word offset here).Elsewhere line := by
  obtain ⟨hname, hline⟩ := pending.observeIdent_field word offset here
  refine ⟨PendingUnit.kind_observeIdent hkind word offset here, fun _ => ?_, ?_⟩
  · rw [(pending.observeIdent_last word offset here).2.1]
    exact hhere
  · rw [hname, hline]
    exact hfield

theorem PendingUnit.Elsewhere.classifyStatement {pending : PendingUnit} {line offset : ℕ}
    {source : String} {typeStack : List String} {declaration : JavaDeclaration}
    (helsewhere : pending.Elsewhere line)
    (hclassify : pending.classifyStatement typeStack source offset = some declaration) :
    OffLine line declaration := by
  intro hfield
  obtain ⟨first, -, hfound⟩ := Option.bind_eq_some_iff.mp hclassify
  dsimp only at hfound
  split_ifs at hfound
  · obtain ⟨name, -, rfl⟩ := Option.map_eq_some_iff.mp hfound
    cases hfield
  · obtain ⟨⟨name, there⟩, hname, rfl⟩ := Option.map_eq_some_iff.mp hfound
    split at hname
    · rename_i hheld _
      cases hname
      exact helsewhere.field (by rw [hheld]; rfl)
    · obtain ⟨word, hword, heq⟩ := Option.map_eq_some_iff.mp hname
      cases heq
      exact helsewhere.ident (by rw [hword]; rfl)

theorem closeStatement_adds {holds : JavaDeclaration → Prop} {source : String}
    {scan : DeclarationScan} {here : Spanned}
    (hholds : scan.scopes.head? = some .type → ∀ declaration,
      scan.pending.classifyStatement scan.typeStack source here.offset = some declaration →
        holds declaration) : AddsOnly holds scan (scan.closeStatement source here) := by
  rw [DeclarationScan.closeStatement]
  by_cases hscope : scan.scopes.head? = some .type
  · refine ⟨_, if_pos hscope, fun declaration hmem => ?_⟩
    exact hholds hscope declaration (Option.mem_toList.mp hmem)
  · exact AddsOnly.of_eq (if_neg hscope)

section Losing

variable {declared : DeclarationScan} {line : ℕ}

/-- Off a line nothing on it is taken down or recorded. -/
theorem PendingUnit.Elsewhere.see (letters : Letters) (source : String)
    (helsewhere : declared.pending.Elsewhere line) (token : Token) {here : ℕ}
    (hhere : here ≠ line) (offset : ℕ) :
    (declared.see letters source (.token ⟨token, here, offset⟩)).pending.Elsewhere line ∧
      AddsOnly (OffLine line) declared
        (declared.see letters source (.token ⟨token, here, offset⟩)) := by
  have hkind := kind_see letters source helsewhere.kind (.token ⟨token, here, offset⟩)
  by_cases hsemi : token = .semi
  · subst hsemi
    refine ⟨PendingUnit.elsewhere_default line, closeStatement_adds fun _ declaration => ?_⟩
    exact helsewhere.classifyStatement
  · refine ⟨?_, (see_adds letters source helsewhere.kind hsemi here offset).imp
      fun declaration hother hfield => absurd hfield hother⟩
    cases token with
    | ident name =>
        exact PendingUnit.elsewhere_observeIdent helsewhere.kind helsewhere.field hhere name offset
    | eq =>
        change declared.pending.observeAssignment.Elsewhere line
        refine ⟨hkind, ?_, ?_⟩ <;> simp only [PendingUnit.observeAssignment] <;> split_ifs
        · split <;> exact helsewhere.ident
        · exact helsewhere.ident
        · split
          · rename_i ident hident
            exact fun _ => helsewhere.ident (by rw [hident]; rfl)
          · exact helsewhere.field
        · exact helsewhere.field
    | lParen =>
        change PendingUnit.Elsewhere (if declared.parenDepth = 0 then
          declared.pending.observeParamListOpen else declared.pending) line
        have hkept := declared.pending.observeParamListOpen_kept
        split_ifs
        · refine ⟨?_, ?_, ?_⟩
          · rw [PendingUnit.kind_observeParamListOpen]
            exact helsewhere.kind
          · rw [hkept.2.2.2.1, hkept.2.2.2.2.1]
            exact helsewhere.ident
          · rw [hkept.2.1, hkept.2.2.1]
            exact helsewhere.field
        · exact helsewhere
    | lBrace =>
        change (declared.openBlock letters source _).pending.Elsewhere line
        rw [(pending_openBlock letters source declared _).1]
        exact PendingUnit.elsewhere_default line
    | rBrace => exact PendingUnit.elsewhere_default line
    | semi => exact absurd rfl hsemi
    | rParen | «at» | arrow | lAngle | rAngle =>
        exact ⟨hkind, helsewhere.ident, helsewhere.field⟩

end Losing

/-- The header on one line, the name on the next, and the rest on a third. -/
def apart (length : ℕ) : ℕ → ℕ × ℕ :=
  fun found => (if found < length then 1 else if found = length then 2 else 3, found)

/-- A field's name that the header gave is kept. -/
theorem PendingUnit.Named.holds {pending : PendingUnit} {depth : UInt32} {tail : List Seen}
    {name : String} {line other : ℕ} (hnamed : pending.Named depth tail name line)
    (hfield : NamesField depth tail)
    (hline : pending.fieldName.isSome = true → pending.fieldNameLine ≠ other) :
    ∃ held there, there ≠ other ∧ pending.Holds held there := by
  obtain ⟨held, hheld⟩ := Option.isSome_iff_exists.mp (hnamed.field.mpr hfield)
  obtain ⟨before, item, after, hsplit, hsign, -⟩ := hfield
  have hassigned : HasAssignment tail := ⟨before, item, after, hsplit, hsign⟩
  exact ⟨held, _, hline (by rw [hheld]; rfl), hheld, rfl, hnamed.assigned.mpr hassigned,
    hnamed.started⟩

section Lost

variable {declared : DeclarationScan} {header : List Token} {behind : List Token}
  {initializer : Option (List Token)}

variable {scan : DeclarationScan}

end Lost

/-! ## Fields of a body -/

/-- What is left of an annotation with a qualified name is read as part of the header, and
the last word of the initializer is taken for the field. -/
example :
    (seen (tokenize .ascii "@a.b.Foo(x) int y = z;")).filterMap Seen.token? =
        [.ident "b", .ident "Foo", .lParen, .ident "x", .rParen, .ident "int", .ident "y", .eq,
          .ident "z", .semi] ∧
      (javaDeclarations .ascii "class A \x7b @a.b.Foo(x) int y = z; \x7d").map
        (fun d => (d.kind, d.name)) = [(.classKind, "A"), (.field, "z")] := by
  decide +kernel

end Ktsense.Core
