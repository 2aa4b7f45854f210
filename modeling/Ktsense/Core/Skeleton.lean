import Mathlib

/-!
# The skeleton model

What is known of a source file once bodies are thrown away (`skeleton.rs`):
declarations in source order, each positioned on the line of its name and
nothing more.
-/

namespace Ktsense.Core

inductive DeclKind where
  | classKind
  | interface
  | object
  | function
  | val
  | var
  | typeAlias
  | enumEntry
  | constructor
  deriving DecidableEq, Repr

namespace DeclKind

def keyword : DeclKind → String
  | .classKind => "class"
  | .interface => "interface"
  | .object => "object"
  | .function => "fun"
  | .val => "val"
  | .var => "var"
  | .typeAlias => "typealias"
  -- A constructor's keyword is its name, so the kind contributes none.
  | .constructor => ""
  | .enumEntry => ""

def takesParentheses (kind : DeclKind) : Bool :=
  kind = .function || kind = .constructor

def typeParametersPrecedeName (kind : DeclKind) : Bool :=
  kind = .function || kind = .constructor

end DeclKind

inductive Visibility where
  | publicScope
  | internalScope
  | protectedScope
  | privateScope
  deriving DecidableEq, Repr

namespace Visibility

def isPublic (visibility : Visibility) : Bool := visibility = .publicScope

def keyword : Visibility → String
  | .publicScope => ""
  | .internalScope => "internal"
  | .protectedScope => "protected"
  | .privateScope => "private"

end Visibility

/-- Declaration modifiers, in the canonical order they are rendered in. -/
inductive Modifier where
  | expect
  | actual
  | final
  | open
  | abstract
  | sealed
  | const
  | external
  | override
  | lateinit
  | tailrec
  | vararg
  | suspend
  | inner
  | enum
  | annotationKind
  | fun
  | companion
  | inline
  | value
  | infixCall
  | operator
  | data
  deriving DecidableEq, Repr

namespace Modifier

def keyword : Modifier → String
  | .expect => "expect"
  | .actual => "actual"
  | .final => "final"
  | .open => "open"
  | .abstract => "abstract"
  | .sealed => "sealed"
  | .const => "const"
  | .external => "external"
  | .override => "override"
  | .lateinit => "lateinit"
  | .tailrec => "tailrec"
  | .vararg => "vararg"
  | .suspend => "suspend"
  | .inner => "inner"
  | .enum => "enum"
  | .annotationKind => "annotation"
  | .fun => "fun"
  | .companion => "companion"
  | .inline => "inline"
  | .value => "value"
  | .infixCall => "infix"
  | .operator => "operator"
  | .data => "data"

end Modifier

structure ParameterProperty where
  visibility : Visibility
  mutable : Bool
  deriving DecidableEq, Repr

structure Parameter where
  name : String
  typeName : String
  default : Option String
  property : Option ParameterProperty
  vararg : Bool
  deriving DecidableEq, Repr

/-- A single declaration, possibly containing others.  `line` is the line of
its name; neither its first nor its last line is kept. -/
structure Declaration where
  kind : DeclKind
  name : String
  receiver : Option String
  line : ℕ
  visibility : Visibility
  annotations : List String
  modifiers : List Modifier
  typeParameters : Option String
  parameters : List Parameter
  constructorVisibility : Option Visibility
  returnType : Option String
  typeInferred : Bool
  supertypes : List String
  typeConstraints : Option String
  doc : Option String
  children : List Declaration
  deriving Repr

namespace Declaration

def new (kind : DeclKind) (name : String) (line : ℕ) : Declaration where
  kind
  name
  receiver := none
  line
  visibility := .publicScope
  annotations := []
  modifiers := []
  typeParameters := none
  parameters := []
  constructorVisibility := none
  returnType := none
  typeInferred := false
  supertypes := []
  typeConstraints := none
  doc := none
  children := []

def containing (declaration : Declaration) (children : List Declaration) :
    Declaration :=
  { declaration with children }

/-- The `val` and `var` parameters of a primary constructor as properties, on
the line of their class. -/
def constructorProperties (declaration : Declaration) : List Declaration :=
  declaration.parameters.filterMap fun parameter =>
    parameter.property.map fun property =>
      let kind := if property.mutable then DeclKind.var else DeclKind.val
      { new kind parameter.name declaration.line with
        visibility := property.visibility
        returnType :=
          if parameter.typeName ≠ "" then some parameter.typeName else none }

/-- False only for a class that is neither `open`, `abstract` nor `sealed`; an
`enum` or `expect` class counts as subtypable too. -/
def canBeSubtyped (declaration : Declaration) : Bool :=
  declaration.kind ≠ .classKind ||
    declaration.modifiers.any fun modifier =>
      modifier = .open || modifier = .abstract || modifier = .sealed ||
        modifier = .enum || modifier = .expect

def isContainer (declaration : Declaration) : Bool :=
  declaration.kind = .classKind || declaration.kind = .interface ||
    declaration.kind = .object

end Declaration

structure FileSkeleton where
  path : String
  package : Option String
  imports : List String
  declarations : List Declaration
  truncated : Bool
  partialOutline : Bool
  deriving Repr

namespace FileSkeleton

def new (path : String) : FileSkeleton :=
  ⟨path, none, [], [], false, false⟩

def withDeclarations (skeleton : FileSkeleton)
    (declarations : List Declaration) : FileSkeleton :=
  { skeleton with declarations }

end FileSkeleton

end Ktsense.Core
