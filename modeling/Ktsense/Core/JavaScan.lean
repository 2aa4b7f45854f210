import Ktsense.Core.JavaText

/-!
# The two Java scans

`java_enclosing.rs` walks the tokens of a Java source twice, once for the scopes
around a line and once for its declarations, each with a record of what it has
seen since the last boundary.  The two records are kept in step, and the walks
part only at a brace inside an argument list.

The parenthesis depth of a walk is the `u32` of the source.  Line numbers and the depth
inside the arguments of an annotation are `u32` there and naturals here: they count what
stands in the source, so they agree below 2^32 lines and parentheses.
-/

namespace Ktsense.Core

open Ktsense.Foundation

def isClassKeyword (name : String) : Bool :=
  ["class", "interface", "enum", "record"].contains name

def isControlKeyword (name : String) : Bool :=
  ["if", "for", "while", "switch", "catch", "synchronized", "try"].contains name

def isModifier (name : String) : Bool :=
  ["public", "private", "protected", "static", "final", "abstract", "synchronized",
    "native", "strictfp", "default", "transient", "volatile", "sealed"].contains name

/-- A depth as `u32`: `+= 1` in a release build, and `saturating_sub(1)`. -/
def deeper (depth : UInt32) : UInt32 := depth + 1

def shallower (depth : UInt32) : UInt32 := if depth = 0 then 0 else depth - 1

/-- The argument list of an annotation, from its parenthesis on: what follows its
end. -/
def skipArguments : ℕ → List Spanned → List Spanned
  | _, [] => []
  | depth, here :: rest =>
      match here.token with
      | .lParen => skipArguments (depth + 1) rest
      | .rParen => if depth = 1 then rest else skipArguments (depth - 1) rest
      | _ => skipArguments depth rest

/-- `skip_annotation_use`: what follows an annotation whose `@` was read. -/
def skipAnnotationUse (tokens : List Spanned) : List Spanned :=
  let named :=
    match tokens with
    | ⟨.ident _, _, _⟩ :: rest => rest
    | _ => tokens
  match named with
  | ⟨.lParen, _, _⟩ :: _ => skipArguments 0 named
  | _ => named

/-! ## The enclosing scan -/

structure Interval where
  openLine : ℕ
  closeLine : ℕ
  path : Option String
  deriving DecidableEq, Repr

structure OpenScope where
  openLine : ℕ
  named : Bool
  path : Option String
  deriving DecidableEq, Repr

structure ScanUnit where
  className : Option String
  methodName : Option String
  prevIdent : Option String
  expectClassName : Bool
  sawNew : Bool
  sawArrow : Bool
  startLine : Option ℕ
  deriving DecidableEq, Repr

namespace ScanUnit

def default : ScanUnit := ⟨none, none, none, false, false, false, none⟩

def observeIdent (unit : ScanUnit) (name : String) (line : ℕ) : ScanUnit :=
  let unit := { unit with startLine := unit.startLine.or (some line) }
  let unit :=
    if isClassKeyword name then { unit with expectClassName := true }
    else if unit.expectClassName then
      { unit with className := some name, expectClassName := false }
    else if name = "new" then { unit with sawNew := true }
    else unit
  { unit with prevIdent := some name }

def observeParamListOpen (unit : ScanUnit) : ScanUnit :=
  if unit.className.isSome then unit
  else
    match unit.prevIdent with
    | some ident =>
        if !isControlKeyword ident && !unit.sawNew then
          { unit with methodName := some ident }
        else unit
    | none => unit

def scopeName (unit : ScanUnit) (parenDepth : UInt32) : Option String :=
  match unit.className with
  | some className => some className
  | none => if parenDepth = 0 ∧ !unit.sawArrow then unit.methodName else none

end ScanUnit

/-- `skip_annotation`: the unit and what follows. -/
def skipAnnotation (tokens : List Spanned) (unit : ScanUnit) :
    ScanUnit × List Spanned :=
  match tokens with
  | ⟨.ident "interface", _, _⟩ :: rest => ({ unit with expectClassName := true }, rest)
  | _ => (unit, skipAnnotationUse tokens)

/-- A brace at the time it is reached: the unit before it and the depth of
parentheses. -/
structure Brace where
  offset : ℕ
  unit : ScanUnit
  parenDepth : UInt32
  deriving DecidableEq, Repr

/-- The variables of the loop.  `braces` and `named` record what it came to: every
opening brace, and those that open a named scope, with the name. -/
structure EnclosingScan where
  intervals : List Interval
  namedStack : List String
  opened : List OpenScope
  unit : ScanUnit
  parenDepth : UInt32
  braces : List Brace
  named : List (ℕ × String)
  deriving DecidableEq, Repr

namespace EnclosingScan

def start : EnclosingScan := ⟨[], [], [], .default, 0, [], []⟩

def closeScope (scan : EnclosingScan) (line : ℕ) : EnclosingScan :=
  match scan.opened with
  | scope :: opened =>
      { scan with
        opened
        namedStack := if scope.named then scan.namedStack.dropLast else scan.namedStack
        intervals := scan.intervals ++ [⟨scope.openLine, line, scope.path⟩] }
  | [] => scan

def openScope (scan : EnclosingScan) (here : Spanned) : EnclosingScan :=
  let named := scan.unit.scopeName scan.parenDepth
  let namedStack := scan.namedStack ++ named.toList
  let openLine :=
    match named with
    | some _ => scan.unit.startLine.getD here.line
    | none => here.line
  let path := if namedStack.isEmpty then none else some (".".intercalate namedStack)
  { scan with
    namedStack
    opened := ⟨openLine, named.isSome, path⟩ :: scan.opened
    unit := .default
    braces := scan.braces ++ [⟨here.offset, scan.unit, scan.parenDepth⟩]
    named := scan.named ++ (named.map fun name => (here.offset, name)).toList }

/-- One turn of the loop: the state after it and the tokens left. -/
def step (scan : EnclosingScan) (here : Spanned) (rest : List Spanned) :
    EnclosingScan × List Spanned :=
  match here.token with
  | .at =>
      let (unit, left) := skipAnnotation rest scan.unit
      ({ scan with unit }, left)
  | .ident name => ({ scan with unit := scan.unit.observeIdent name here.line }, rest)
  | .lParen =>
      ({ scan with
        unit := if scan.parenDepth = 0 then scan.unit.observeParamListOpen else scan.unit
        parenDepth := deeper scan.parenDepth }, rest)
  | .rParen => ({ scan with parenDepth := shallower scan.parenDepth }, rest)
  | .arrow => ({ scan with unit := { scan.unit with sawArrow := true } }, rest)
  | .lBrace => (scan.openScope here, rest)
  | .rBrace => ({ scan.closeScope here.line with unit := .default }, rest)
  | .semi => ({ scan with unit := .default }, rest)
  | .eq | .lAngle | .rAngle => (scan, rest)

/-- The loop; each turn reads a token, so their number is fuel enough. -/
def run : ℕ → EnclosingScan → List Spanned → EnclosingScan
  | fuel + 1, scan, here :: rest =>
      let (scan, left) := scan.step here rest
      run fuel scan left
  | _, scan, _ => scan

end EnclosingScan

def enclosingScan (tokens : List Spanned) : EnclosingScan :=
  EnclosingScan.run tokens.length .start tokens

/-- `source.lines().count().max(1)`. -/
def lastLine (source : String) : ℕ :=
  let breaks := source.toList.count '\n'
  max (if source = "" ∨ source.toList.getLast? = some '\n' then breaks else breaks + 1) 1

def enclosingIntervals (letters : Letters) (source : String) : List Interval :=
  let scan := enclosingScan (tokenize letters source)
  -- What is still open is closed from the inside, at the last line.
  scan.intervals ++ scan.opened.map fun scope =>
    ⟨scope.openLine, lastLine source, scope.path⟩

/-! ## The declaration scan -/

inductive JavaDeclKind where
  | classKind
  | interface
  | enum
  | record
  | annotationType
  | method
  | constructor
  | field
  deriving DecidableEq, Repr

structure JavaDeclaration where
  kind : JavaDeclKind
  name : String
  line : ℕ
  enclosing : List String
  signature : String
  supertypes : List String
  deriving DecidableEq, Repr

def typeKind (name : String) : JavaDeclKind :=
  if name = "interface" then .interface
  else if name = "enum" then .enum
  else if name = "record" then .record
  else .classKind

/-- The text from a header's first token to the brace or semicolon. -/
def headerSlice (source : String) (first : Option ℕ) (last : ℕ) : String :=
  match first with
  | some first =>
      String.ofList (((charIndices 0 source.toList).filter fun (offset, _) =>
        first ≤ offset && offset < last).map Prod.snd)
  | none => ""

def foldWhitespace (text : String) : String :=
  " ".intercalate (((text.toList.splitOnP isWhitespace).filter (· ≠ [])).map
    String.ofList)

/-- The variables of the loop of `supertypes_in_header`. -/
structure SupertypeScan where
  supertypes : List String
  inClause : Bool
  angleDepth : ℕ
  current : Option String

namespace SupertypeScan

/-- `push_current`. -/
def pushCurrent (scan : SupertypeScan) (inClause : Bool) : SupertypeScan :=
  { scan with
    supertypes := if inClause then scan.supertypes ++ scan.current.toList
      else scan.supertypes
    current := none }

def observeWord (scan : SupertypeScan) (word : String) : SupertypeScan :=
  if scan.angleDepth ≠ 0 then scan
  else if word = "extends" ∨ word = "implements" then
    { scan.pushCurrent scan.inClause with inClause := true }
  else if word = "permits" then
    { scan.pushCurrent scan.inClause with inClause := false }
  else if scan.inClause then { scan with current := some word }
  else scan

def observePunctuation (scan : SupertypeScan) (letter : Char) : SupertypeScan :=
  if letter = '<' then { scan with angleDepth := scan.angleDepth + 1 }
  else if letter = '>' then { scan with angleDepth := scan.angleDepth - 1 }
  else if letter = ',' ∧ scan.angleDepth = 0 ∧ scan.inClause then scan.pushCurrent true
  else if (letter.toNat = 0x7B ∨ letter = ';') ∧ scan.angleDepth = 0 then
    { scan.pushCurrent scan.inClause with inClause := false }
  else scan

def run (letters : Letters) : ℕ → SupertypeScan → List Lexed → SupertypeScan
  | fuel + 1, scan, here :: rest =>
      if !here.state.isCode then run letters fuel scan rest
      else if isIdentStart letters here.letter then
        let word := here :: identWord letters rest
        run letters fuel (scan.observeWord (wordText word)) (rest.drop (word.length - 1))
      else run letters fuel (scan.observePunctuation here.letter) rest
  | _, scan, _ => scan

end SupertypeScan

def supertypesInHeader (letters : Letters) (header : String) : List String :=
  let lexed := lex header
  let scan := SupertypeScan.run letters lexed.length ⟨[], false, 0, none⟩ lexed
  (scan.pushCurrent scan.inClause).supertypes

section Packages

variable (letters : Letters)

def readPackageName (lexed : List Lexed) : Option String :=
  let code := lexed.filter (·.state.isCode)
  let name := (code.takeWhile (·.letter ≠ ';')).filter fun here =>
    isIdentContinue letters here.letter || here.letter = '.'
  if name.isEmpty then none else some (wordText name)

/-- The loop of `java_package`, from what is unread. -/
def javaPackageFrom : ℕ → List Lexed → Option String
  | fuel + 1, here :: rest =>
      if !here.state.isCode then javaPackageFrom fuel rest
      else if isIdentStart letters here.letter then
        let word := here :: identWord letters rest
        let left := rest.drop (word.length - 1)
        if wordText word = "package" then readPackageName letters left
        else javaPackageFrom fuel left
      else javaPackageFrom fuel rest
  | _, _ => none

def javaPackage (source : String) : Option String :=
  let lexed := lex source
  javaPackageFrom letters lexed.length lexed

end Packages

structure PendingUnit where
  startOffset : Option ℕ
  kind : Option JavaDeclKind
  expectTypeName : Bool
  typeName : Option String
  nameLine : ℕ
  prevIdent : Option String
  prevIdentLine : ℕ
  methodName : Option String
  methodNameLine : ℕ
  fieldName : Option String
  fieldNameLine : ℕ
  sawParamList : Bool
  sawNew : Bool
  sawArrow : Bool
  sawAssignment : Bool
  angleDepth : UInt32
  headerIdentCount : UInt32
  deriving DecidableEq, Repr

/-- What a brace opens. -/
inductive Block where
  | type (kind : JavaDeclKind)
  | member (kind : JavaDeclKind)
  | anonymous
  deriving DecidableEq, Repr

inductive ScopeKind where
  | type
  | member
  | anonymous
  deriving DecidableEq, Repr

namespace PendingUnit

def default : PendingUnit :=
  ⟨none, none, false, none, 0, none, 0, none, 0, none, 0, false, false, false, false, 0, 0⟩

def observeIdent (pending : PendingUnit) (name : String) (offset line : ℕ) :
    PendingUnit :=
  let pending := { pending with startOffset := pending.startOffset.or (some offset) }
  let pending :=
    if isClassKeyword name then
      { pending with kind := some (typeKind name), expectTypeName := true }
    else if pending.expectTypeName then
      { pending with typeName := some name, nameLine := line, expectTypeName := false }
    else if name = "new" then { pending with sawNew := true }
    else if pending.angleDepth = 0 && !pending.sawParamList && !isModifier name then
      { pending with headerIdentCount := pending.headerIdentCount + 1 }
    else pending
  { pending with prevIdent := some name, prevIdentLine := line }

def observeParamListOpen (pending : PendingUnit) : PendingUnit :=
  if pending.typeName.isSome then pending
  else
    let pending := { pending with sawParamList := true }
    match pending.prevIdent with
    | some ident =>
        if !isControlKeyword ident && !pending.sawNew then
          { pending with
            methodName := some ident
            methodNameLine := pending.prevIdentLine }
        else pending
    | none => pending

def observeAssignment (pending : PendingUnit) : PendingUnit :=
  let pending := { pending with sawAssignment := true }
  if pending.fieldName.isNone && pending.methodName.isNone then
    match pending.prevIdent with
    | some ident =>
        { pending with fieldName := some ident, fieldNameLine := pending.prevIdentLine }
    | none => pending
  else pending

def memberKind (pending : PendingUnit) (name : String) (typeStack : List String) :
    JavaDeclKind :=
  if typeStack.getLast? = some name ∧ pending.headerIdentCount ≤ 1 then .constructor
  else .method

def classifyBlock (pending : PendingUnit) (typeStack : List String) : Block :=
  match pending.kind, pending.typeName with
  | some kind, some _ => .type kind
  | _, _ =>
      if pending.sawParamList && !pending.sawArrow then
        match pending.methodName with
        | some name => .member (pending.memberKind name typeStack)
        | none => .anonymous
      else .anonymous

def classifyStatement (pending : PendingUnit) (typeStack : List String)
    (source : String) (semiOffset : ℕ) : Option JavaDeclaration :=
  pending.startOffset.bind fun first =>
    let header := foldWhitespace (headerSlice source (some first) semiOffset)
    if pending.sawParamList && !pending.sawArrow && !pending.sawAssignment then
      pending.methodName.map fun name =>
        ⟨.method, name, pending.methodNameLine, typeStack, header, []⟩
    else
      let found :=
        match pending.fieldName, pending.sawAssignment with
        | some name, true => some (name, pending.fieldNameLine)
        | _, _ => pending.prevIdent.map fun name => (name, pending.prevIdentLine)
      found.map fun (name, line) => ⟨.field, name, line, typeStack, header, []⟩

end PendingUnit

/-- `step_annotation`, past its `@`: the unit and what follows. -/
def stepAnnotation (here : Spanned) (tokens : List Spanned) (pending : PendingUnit) :
    PendingUnit × List Spanned :=
  match tokens with
  | ⟨.ident "interface", _, _⟩ :: rest =>
      ({ pending with
        startOffset := pending.startOffset.or (some here.offset)
        kind := some .annotationType
        expectTypeName := true }, rest)
  | _ => (pending, skipAnnotationUse tokens)

/-- The variables of the loop.  `blocks` records the braces classified as a type
or a member, with the name. -/
structure DeclarationScan where
  declarations : List JavaDeclaration
  typeStack : List String
  scopes : List ScopeKind
  pending : PendingUnit
  parenDepth : UInt32
  blocks : List (ℕ × String)
  deriving DecidableEq, Repr

namespace DeclarationScan

def start : DeclarationScan := ⟨[], [], [], .default, 0, []⟩

section Walking

variable (letters : Letters) (source : String)

def openBlock (scan : DeclarationScan) (here : Spanned) : DeclarationScan :=
  let pending := scan.pending
  let header := headerSlice source pending.startOffset here.offset
  let opened :=
    match pending.classifyBlock scan.typeStack with
    | .type kind =>
        let name := pending.typeName.getD ""
        let declaration : JavaDeclaration := ⟨kind, name, pending.nameLine,
          scan.typeStack, foldWhitespace header, supertypesInHeader letters header⟩
        { scan with
          declarations := scan.declarations ++ [declaration]
          typeStack := scan.typeStack ++ [name]
          scopes := .type :: scan.scopes
          blocks := scan.blocks ++ [(here.offset, name)] }
    | .member kind =>
        let name := pending.methodName.getD ""
        let declaration : JavaDeclaration := ⟨kind, name, pending.methodNameLine,
          scan.typeStack, foldWhitespace header, []⟩
        { scan with
          declarations := scan.declarations ++ [declaration]
          scopes := .member :: scan.scopes
          blocks := scan.blocks ++ [(here.offset, name)] }
    | .anonymous => { scan with scopes := .anonymous :: scan.scopes }
  { opened with pending := .default }

def closeBlock (scan : DeclarationScan) : DeclarationScan :=
  { scan with
    scopes := scan.scopes.tail
    typeStack := if scan.scopes.head? = some .type then scan.typeStack.dropLast
      else scan.typeStack
    pending := .default }

def closeStatement (scan : DeclarationScan) (here : Spanned) : DeclarationScan :=
  { scan with
    declarations :=
      if scan.scopes.head? = some .type then
        scan.declarations ++
          (scan.pending.classifyStatement scan.typeStack source here.offset).toList
      else scan.declarations
    pending := .default }

def step (scan : DeclarationScan) (here : Spanned) (rest : List Spanned) :
    DeclarationScan × List Spanned :=
  match here.token with
  | .at =>
      let (pending, left) := stepAnnotation here rest scan.pending
      ({ scan with pending }, left)
  | .ident name =>
      ({ scan with pending :=
          scan.pending.observeIdent name here.offset here.line }, rest)
  | .eq => ({ scan with pending := scan.pending.observeAssignment }, rest)
  | .lParen =>
      ({ scan with
        pending := if scan.parenDepth = 0 then scan.pending.observeParamListOpen
          else scan.pending
        parenDepth := deeper scan.parenDepth }, rest)
  | .rParen => ({ scan with parenDepth := shallower scan.parenDepth }, rest)
  | .arrow => ({ scan with pending := { scan.pending with sawArrow := true } }, rest)
  | .lAngle =>
      ({ scan with
        pending := { scan.pending with
          startOffset := scan.pending.startOffset.or (some here.offset)
          angleDepth := deeper scan.pending.angleDepth } }, rest)
  | .rAngle =>
      ({ scan with
        pending := { scan.pending with
          angleDepth := shallower scan.pending.angleDepth } }, rest)
  | .lBrace => (scan.openBlock letters source here, rest)
  | .rBrace => (scan.closeBlock, rest)
  | .semi => (scan.closeStatement source here, rest)

def run : ℕ → DeclarationScan → List Spanned → DeclarationScan
  | fuel + 1, scan, here :: rest =>
      let (scan, left) := scan.step letters source here rest
      run fuel scan left
  | _, scan, _ => scan

end Walking

end DeclarationScan

def declarationScan (letters : Letters) (source : String) (tokens : List Spanned) :
    DeclarationScan :=
  DeclarationScan.run letters source tokens.length .start tokens

def javaDeclarations (letters : Letters) (source : String) : List JavaDeclaration :=
  (declarationScan letters source (tokenize letters source)).declarations

/-! ## The two units in step -/

/-- The unit of the enclosing scan and that of the declaration scan after the same
tokens.  A type name comes with a kind, and a method name with its parameter
list. -/
structure InStep (unit : ScanUnit) (pending : PendingUnit) : Prop where
  className : unit.className = pending.typeName
  methodName : unit.methodName = pending.methodName
  prevIdent : unit.prevIdent = pending.prevIdent
  expectClassName : unit.expectClassName = pending.expectTypeName
  sawNew : unit.sawNew = pending.sawNew
  sawArrow : unit.sawArrow = pending.sawArrow
  kind : pending.typeName.isSome = true ∨ pending.expectTypeName = true →
    pending.kind.isSome = true
  paramList : pending.methodName.isSome = true → pending.sawParamList = true

namespace InStep

theorem default : InStep .default .default := by
  constructor <;> simp [ScanUnit.default, PendingUnit.default]

variable {unit : ScanUnit} {pending : PendingUnit}

theorem observeIdent (hstep : InStep unit pending) (name : String) (offset line : ℕ) :
    InStep (unit.observeIdent name line) (pending.observeIdent name offset line) := by
  simp only [ScanUnit.observeIdent, PendingUnit.observeIdent, hstep.expectClassName]
  split_ifs with hkeyword hexpected hnewWord hcounted
  · exact { hstep with prevIdent := rfl, expectClassName := rfl, kind := fun _ => rfl }
  · exact { hstep with
      className := rfl
      prevIdent := rfl
      expectClassName := rfl
      kind := fun _ => hstep.kind (Or.inr hexpected) }
  · exact { hstep with prevIdent := rfl, expectClassName := rfl, sawNew := rfl }
  · exact { hstep with prevIdent := rfl, expectClassName := rfl }
  · exact { hstep with prevIdent := rfl, expectClassName := rfl }

theorem observeParamListOpen (hstep : InStep unit pending) :
    InStep unit.observeParamListOpen pending.observeParamListOpen := by
  have hprev := hstep.prevIdent
  rw [ScanUnit.observeParamListOpen, PendingUnit.observeParamListOpen, hstep.className]
  split_ifs with htype
  · exact hstep
  · cases hident : pending.prevIdent with
    | none =>
        rw [hident] at hprev
        simp only [hprev]
        exact { hstep with prevIdent := hprev, paramList := fun _ => rfl }
    | some ident =>
        rw [hident] at hprev
        simp only [hprev, hstep.sawNew]
        split_ifs
        · exact { hstep with
            className := rfl
            methodName := rfl
            prevIdent := rfl
            sawNew := rfl
            paramList := fun _ => rfl }
        · exact { hstep with prevIdent := hprev, paramList := fun _ => rfl }

theorem observeAssignment (hstep : InStep unit pending) :
    InStep unit pending.observeAssignment := by
  -- what an assignment changes is not read by the enclosing scan
  simp only [PendingUnit.observeAssignment]
  split_ifs
  · split
    · exact { hstep with }
    · exact { hstep with }
  · exact { hstep with }

/-- An annotation leaves the same tokens to both, and `@interface` is expected to
be named by both. -/
theorem annotation (hstep : InStep unit pending) (here : Spanned)
    (tokens : List Spanned) :
    let enclosing := skipAnnotation tokens unit
    let declared := stepAnnotation here tokens pending
    InStep enclosing.1 declared.1 ∧ enclosing.2 = declared.2 := by
  unfold skipAnnotation stepAnnotation
  split
  · exact ⟨{ hstep with expectClassName := rfl, kind := fun _ => rfl }, rfl⟩
  · exact ⟨{ hstep with }, rfl⟩

end InStep

/-- The name of a brace classified as a type or a member. -/
def PendingUnit.blockName (pending : PendingUnit) (typeStack : List String) :
    Option String :=
  match pending.classifyBlock typeStack with
  | .type _ => some (pending.typeName.getD "")
  | .member _ => some (pending.methodName.getD "")
  | .anonymous => none

/-- The declaration scan names a brace as the enclosing scan does outside
parentheses. -/
theorem InStep.blockName {unit : ScanUnit} {pending : PendingUnit}
    (hstep : InStep unit pending) (typeStack : List String) :
    pending.blockName typeStack = unit.scopeName 0 := by
  obtain ⟨hclass, hmethod, -, -, -, harrow, hkind, hparam⟩ := hstep
  rw [PendingUnit.blockName, PendingUnit.classifyBlock, ScanUnit.scopeName, hclass,
    hmethod, harrow]
  cases htype : pending.typeName with
  | some name =>
      have hkept := hkind (Or.inl (by rw [htype]; rfl))
      obtain ⟨kind, hsome⟩ := Option.isSome_iff_exists.mp hkept
      rw [hsome]
      rfl
  | none =>
      cases hname : pending.methodName with
      | none => cases pending.kind <;> cases pending.sawParamList <;>
          cases pending.sawArrow <;> rfl
      | some name =>
          have hlist := hparam (by rw [hname]; rfl)
          rw [hlist]
          cases pending.kind <;> cases pending.sawArrow <;> rfl

/-! ## The walks in step -/

/-- The braces recorded by both walks: what the enclosing scan came to, and what
the declaration scan made of it. -/
structure WalksInStep (scan : EnclosingScan) (declared : DeclarationScan) : Prop where
  unit : InStep scan.unit declared.pending
  parenDepth : scan.parenDepth = declared.parenDepth
  named : scan.named = scan.braces.filterMap fun brace =>
    (brace.unit.scopeName brace.parenDepth).map fun name => (brace.offset, name)
  blocks : declared.blocks = scan.braces.filterMap fun brace =>
    (brace.unit.scopeName 0).map fun name => (brace.offset, name)

theorem blocks_openBlock (letters : Letters) (source : String)
    (scan : DeclarationScan) (here : Spanned) :
    (scan.openBlock letters source here).blocks = scan.blocks ++
      ((scan.pending.blockName scan.typeStack).map fun name =>
        (here.offset, name)).toList := by
  rw [DeclarationScan.openBlock, PendingUnit.blockName]
  cases scan.pending.classifyBlock scan.typeStack <;> simp

theorem pending_openBlock (letters : Letters) (source : String)
    (scan : DeclarationScan) (here : Spanned) :
    (scan.openBlock letters source here).pending = .default ∧
      (scan.openBlock letters source here).parenDepth = scan.parenDepth := by
  rw [DeclarationScan.openBlock]
  cases scan.pending.classifyBlock scan.typeStack <;> exact ⟨rfl, rfl⟩

namespace WalksInStep

variable {scan : EnclosingScan} {declared : DeclarationScan}

theorem openBrace (hwalks : WalksInStep scan declared) (letters : Letters)
    (source : String) (here : Spanned) :
    WalksInStep (scan.openScope here) (declared.openBlock letters source here) := by
  obtain ⟨hpending, hdepth⟩ := pending_openBlock letters source declared here
  refine ⟨?_, ?_, ?_, ?_⟩
  · rw [hpending]
    exact InStep.default
  · rw [hdepth]
    exact hwalks.parenDepth
  · simp only [EnclosingScan.openScope, List.filterMap_append, ← hwalks.named]
    cases hname : scan.unit.scopeName scan.parenDepth <;> simp [hname]
  · rw [blocks_openBlock, hwalks.unit.blockName, hwalks.blocks]
    simp only [EnclosingScan.openScope, List.filterMap_append]
    cases hname : scan.unit.scopeName 0 <;> simp [hname]

theorem closeScope (scan : EnclosingScan) (line : ℕ) :
    (scan.closeScope line).parenDepth = scan.parenDepth ∧
      (scan.closeScope line).named = scan.named ∧
      (scan.closeScope line).braces = scan.braces := by
  rw [EnclosingScan.closeScope]
  cases scan.opened <;> exact ⟨rfl, rfl, rfl⟩

/-- One token keeps the walks in step, and leaves both the same tokens. -/
theorem step (hwalks : WalksInStep scan declared) (letters : Letters)
    (source : String) (here : Spanned) (rest : List Spanned) :
    WalksInStep (scan.step here rest).1 (declared.step letters source here rest).1 ∧
      (scan.step here rest).2 = (declared.step letters source here rest).2 := by
  obtain ⟨hunit, hdepth, hnamed, hblocks⟩ := hwalks
  rw [EnclosingScan.step.eq_def, DeclarationScan.step.eq_def]
  cases htoken : here.token with
  | «at» =>
      obtain ⟨hstep, hleft⟩ := hunit.annotation here rest
      exact ⟨⟨hstep, hdepth, hnamed, hblocks⟩, hleft⟩
  | ident name =>
      have hobserved := hunit.observeIdent name here.offset here.line
      exact ⟨⟨hobserved, hdepth, hnamed, hblocks⟩, rfl⟩
  | lParen =>
      refine ⟨⟨?_, ?_, hnamed, hblocks⟩, rfl⟩
      · simp only [hdepth]
        split_ifs
        · exact hunit.observeParamListOpen
        · exact hunit
      · simp only [hdepth]
  | rParen => exact ⟨⟨hunit, congrArg shallower hdepth, hnamed, hblocks⟩, rfl⟩
  | arrow => exact ⟨⟨{ hunit with sawArrow := rfl }, hdepth, hnamed, hblocks⟩, rfl⟩
  | lBrace =>
      have hopened := openBrace ⟨hunit, hdepth, hnamed, hblocks⟩ letters source here
      exact ⟨hopened, rfl⟩
  | rBrace =>
      obtain ⟨hclosedDepth, hclosedNamed, hclosedBraces⟩ := closeScope scan here.line
      refine ⟨⟨InStep.default, hclosedDepth.trans hdepth, ?_, ?_⟩, rfl⟩
      · simp only [hclosedNamed, hclosedBraces]
        exact hnamed
      · simp only [hclosedBraces]
        exact hblocks
  | semi => exact ⟨⟨InStep.default, hdepth, hnamed, hblocks⟩, rfl⟩
  | eq => exact ⟨⟨hunit.observeAssignment, hdepth, hnamed, hblocks⟩, rfl⟩
  | lAngle => exact ⟨⟨{ hunit with }, hdepth, hnamed, hblocks⟩, rfl⟩
  | rAngle => exact ⟨⟨{ hunit with }, hdepth, hnamed, hblocks⟩, rfl⟩

theorem run (letters : Letters) (source : String) (fuel : ℕ)
    (hwalks : WalksInStep scan declared) (tokens : List Spanned) :
    WalksInStep (EnclosingScan.run fuel scan tokens)
      (DeclarationScan.run letters source fuel declared tokens) := by
  induction fuel generalizing scan declared tokens with
  | zero =>
      rw [EnclosingScan.run.eq_def, DeclarationScan.run.eq_def]
      exact hwalks
  | succ fuel ih =>
      cases tokens with
      | nil =>
          rw [EnclosingScan.run.eq_def, DeclarationScan.run.eq_def]
          exact hwalks
      | cons here rest =>
          obtain ⟨hstep, hleft⟩ := hwalks.step letters source here rest
          rw [EnclosingScan.run, DeclarationScan.run]
          simp only [← hleft]
          exact ih hstep _

end WalksInStep

theorem scans_in_step (letters : Letters) (source : String) (tokens : List Spanned) :
    WalksInStep (enclosingScan tokens) (declarationScan letters source tokens) :=
  WalksInStep.run letters source tokens.length ⟨InStep.default, rfl, rfl, rfl⟩ tokens

/-! ## Where the scans part -/

/-- Inside parentheses, in a unit with the name of a method or a call, no type
name and no arrow. -/
def Brace.inArguments (brace : Brace) : Prop :=
  brace.parenDepth ≠ 0 ∧ brace.unit.className = none ∧ brace.unit.sawArrow = false ∧
    brace.unit.methodName.isSome = true

theorem scopeName_eq_iff (brace : Brace) :
    brace.unit.scopeName brace.parenDepth = brace.unit.scopeName 0 ↔
      ¬brace.inArguments := by
  rw [Brace.inArguments, ScanUnit.scopeName, ScanUnit.scopeName]
  cases brace.unit.className with
  | some name => simp
  | none =>
      by_cases hdepth : brace.parenDepth = 0
      · simp [hdepth]
      · cases brace.unit.sawArrow <;> cases brace.unit.methodName <;> simp [hdepth]

theorem scopeName_eq_or_none (brace : Brace) :
    brace.unit.scopeName brace.parenDepth = brace.unit.scopeName 0 ∨
      brace.unit.scopeName brace.parenDepth = none := by
  rw [ScanUnit.scopeName, ScanUnit.scopeName]
  cases brace.unit.className with
  | some name => exact Or.inl rfl
  | none =>
      by_cases hdepth : brace.parenDepth = 0
      · exact Or.inl (by rw [hdepth])
      · exact Or.inr (by simp [hdepth])

/-- The scans name the braces alike exactly when none is reached inside an argument
list. -/
theorem named_eq_blocks_iff (letters : Letters) (source : String) (tokens : List Spanned) :
    (enclosingScan tokens).named = (declarationScan letters source tokens).blocks ↔
      ∀ brace ∈ (enclosingScan tokens).braces, ¬brace.inArguments := by
  have hwalks := scans_in_step letters source tokens
  have hfewer (brace : Brace) :
      ((brace.unit.scopeName brace.parenDepth).map fun name => (brace.offset, name)) =
          ((brace.unit.scopeName 0).map fun name => (brace.offset, name)) ∨
        ((brace.unit.scopeName brace.parenDepth).map fun name =>
          (brace.offset, name)) = none := by
    rcases scopeName_eq_or_none brace with heq | hnone
    · exact Or.inl (by rw [heq])
    · exact Or.inr (by rw [hnone]; rfl)
  have hinjective (brace : Brace) :
      Function.Injective fun name : String => (brace.offset, name) :=
    fun _ _ heq => congrArg Prod.snd heq
  rw [hwalks.named, hwalks.blocks, filterMap_eq_filterMap_iff hfewer]
  apply forall_congr'
  intro brace
  rw [(Option.map_injective (hinjective brace)).eq_iff, scopeName_eq_iff]

end Ktsense.Core
