import Ktsense.Core.Skeleton
import Ktsense.Core.Text

/-!
# Rendering a skeleton

`render.rs`, the part that turns a skeleton back into Kotlin-like text: one
signature line for each declaration, in four-space steps, with a container
whose only member is a leaf on one line.
-/

namespace Ktsense.Core

open Ktsense.Foundation

structure RenderOptions where
  includePrivate : Bool
  includeDoc : Bool
  includeLines : Bool
  includeAnnotations : Bool
  deriving DecidableEq, Repr

def RenderOptions.default : RenderOptions := ⟨false, false, false, false⟩

/-- `str::len`. -/
def byteLength (text : String) : ℕ := (utf8 text).length

@[simp]
theorem byteLength_empty : byteLength "" = 0 := rfl

@[simp]
theorem byteLength_append (left right : String) :
    byteLength (left ++ right) = byteLength left + byteLength right := by
  rw [byteLength, utf8_append, List.length_append]
  rfl

theorem byteLength_join (texts : List String) :
    byteLength (String.join texts) = (texts.map byteLength).sum := by
  induction texts with
  | nil => rfl
  | cons text rest ih =>
      rw [String.join_cons, byteLength_append, ih, List.map_cons, List.sum_cons]

/-- `str::trim_end`. -/
def trimEnd (text : String) : String :=
  String.ofList (text.toList.rdropWhile isWhitespace)

def pluralize (count : ℕ) (singular : String) : String :=
  if count = 1 then toString count ++ " " ++ singular
  else toString count ++ " " ++ singular ++ "s"

def indent : String := "    "

def inferredTypeMarker : String := "/* inferred */"

def truncationNotice : String := "// truncated: nesting depth limit reached"

def partialNotice : String :=
  "// partial: recovered around a parse error; some declarations may be missing" ++
    " and shown signatures may be incomplete or malformed"

def maxInlineWidth : ℕ := 100

def maxNestingDepth : ℕ := 64

def isVisibleApi (visibility : Visibility) : Bool :=
  visibility = .publicScope || visibility = .protectedScope

def RenderOptions.admits (options : RenderOptions) (declaration : Declaration) :
    Bool :=
  options.includePrivate || isVisibleApi declaration.visibility

/-! ## The signature line -/

def canonicalModifiers (declaration : Declaration) : List Modifier :=
  (declaration.modifiers.insertionSort fun left right =>
    left.ctorIdx ≤ right.ctorIdx).destutter (· ≠ ·)

def keywordPrefix (declaration : Declaration) : String :=
  let visibility := declaration.visibility.keyword
  let keyword := declaration.kind.keyword
  let leadingTypeParameters := declaration.typeParameters.filter fun _ =>
    declaration.kind.typeParametersPrecedeName
  let words :=
    (if visibility ≠ "" then [visibility] else []) ++
      (canonicalModifiers declaration).map Modifier.keyword ++
      (if keyword ≠ "" then [keyword] else []) ++
      (leadingTypeParameters.map neutralize).toList
  if words.isEmpty then "" else " ".intercalate words ++ " "

def nameSegment (declaration : Declaration) : String :=
  let trailingTypeParameters := (declaration.typeParameters.filter fun _ =>
    !declaration.kind.typeParametersPrecedeName).getD ""
  let receiver :=
    match declaration.receiver with
    | some receiver => neutralize receiver ++ "."
    | none => ""
  receiver ++ neutralize declaration.name ++ neutralize trailingTypeParameters

def renderParameter (parameter : Parameter) : String :=
  let property :=
    match parameter.property with
    | some property =>
        let visibility := property.visibility.keyword
        (if visibility ≠ "" then visibility ++ " " else "") ++
          (if property.mutable then "var " else "val ")
    | none => ""
  let vararg := if parameter.vararg then Modifier.vararg.keyword ++ " " else ""
  let default :=
    match parameter.default with
    | some default => " = " ++ neutralize default
    | none => ""
  property ++ vararg ++ neutralize parameter.name ++ ": " ++
    neutralize parameter.typeName ++ default

def constructorKeyword (declaration : Declaration) : String :=
  match declaration.constructorVisibility with
  | some visibility =>
      if !visibility.isPublic then " " ++ visibility.keyword ++ " constructor"
      else ""
  | none => ""

def parameterSegment (declaration : Declaration) : String :=
  if !declaration.kind.takesParentheses && declaration.parameters.isEmpty then ""
  else
    constructorKeyword declaration ++ "(" ++
      ", ".intercalate (declaration.parameters.map renderParameter) ++ ")"

def typeSegment (declaration : Declaration) : String :=
  match declaration.returnType with
  | none => if declaration.typeInferred then " " ++ inferredTypeMarker else ""
  | some typeName =>
      (if declaration.kind = .typeAlias then " = " else ": ") ++
        neutralize typeName

def supertypeSegment (declaration : Declaration) : String :=
  if declaration.supertypes.isEmpty then ""
  else " : " ++ ", ".intercalate (declaration.supertypes.map neutralize)

def constraintSegment (declaration : Declaration) : String :=
  match declaration.typeConstraints with
  | some constraints => " where " ++ neutralize constraints
  | none => ""

def lineSegment (declaration : Declaration) (options : RenderOptions) : String :=
  if options.includeLines then "  # L" ++ toString declaration.line else ""

def headerOf (declaration : Declaration) (options : RenderOptions) : String :=
  trimEnd (keywordPrefix declaration ++ nameSegment declaration ++
    parameterSegment declaration ++ typeSegment declaration ++
    supertypeSegment declaration ++ constraintSegment declaration ++
    lineSegment declaration options)

/-! ## The skeleton writer -/

namespace SkeletonWriter

variable (options : RenderOptions)

/-- `INDENT.repeat(depth)`. -/
def padding (depth : ℕ) : String :=
  String.join (List.replicate depth indent)

def truncationLine (depth : ℕ) : String := padding depth ++ truncationNotice

def docLines (declaration : Declaration) (depth : ℕ) : List String :=
  match options.includeDoc, declaration.doc with
  | true, some doc => [padding depth ++ "/** " ++ neutralize doc ++ " */"]
  | _, _ => []

def annotationLines (declaration : Declaration) (depth : ℕ) : List String :=
  if options.includeAnnotations then
    declaration.annotations.map fun annotation =>
      padding depth ++ neutralize annotation
  else []

def inlineForm (header : String) (members : List Declaration)
    (indentWidth : ℕ) : Option String :=
  match members with
  | [only] =>
      let carriesDoc := options.includeDoc && only.doc.isSome
      let carriesAnnotations :=
        options.includeAnnotations && !only.annotations.isEmpty
      if !only.children.isEmpty || carriesDoc || carriesAnnotations then none
      else
        let inlined := header ++ " \x7b " ++ headerOf only options ++ " \x7d"
        if indentWidth + byteLength inlined ≤ maxInlineWidth then some inlined
        else none
  | _ => none

def joinNames (declarations : List Declaration) : String :=
  ", ".intercalate (declarations.map fun declaration =>
    neutralize declaration.name)

/-- The lines of the members of a container, each with what it writes: leading
enum entries share a line. -/
def memberLines (members : List (Declaration × List String)) (depth : ℕ) :
    List String :=
  let entries :=
    (members.map Prod.fst).takeWhile fun member => member.kind = .enumEntry
  let terminator := if entries.length < members.length then ";" else ""
  let entryLines :=
    if entries.isEmpty then []
    else [padding depth ++ joinNames entries ++ terminator]
  entryLines ++ (members.drop entries.length).flatMap Prod.snd

/-- The lines of a declaration, given its visible members with theirs. -/
def containerLines (declaration : Declaration)
    (members : List (Declaration × List String)) (depth : ℕ) : List String :=
  let header := headerOf declaration options
  if !declaration.isContainer || members.isEmpty then [padding depth ++ header]
  else if maxNestingDepth ≤ depth then
    [padding depth ++ header ++ " \x7b", truncationLine (depth + 1),
      padding depth ++ "\x7d"]
  else
    match inlineForm options header (members.map Prod.fst)
        (byteLength (padding depth)) with
    | some inlined => [padding depth ++ inlined]
    | none =>
        [padding depth ++ header ++ " \x7b"] ++ memberLines members (depth + 1) ++
          [padding depth ++ "\x7d"]

mutual

def write : Declaration → ℕ → List String
  | declaration@{ children, .. }, depth =>
      if options.admits declaration then
        docLines options declaration depth ++
          annotationLines options declaration depth ++
          containerLines options declaration
            ((writeEach children (depth + 1)).filter fun member =>
              options.admits member.1) depth
      else []

def writeEach : List Declaration → ℕ → List (Declaration × List String)
  | [], _ => []
  | declaration :: rest, depth =>
      (declaration, write declaration depth) :: writeEach rest depth

end

def writeAll (declarations : List Declaration) (depth : ℕ) : List String :=
  declarations.flatMap fun declaration => write options declaration depth

end SkeletonWriter

def renderSkeleton (file : FileSkeleton) (options : RenderOptions) : String :=
  "\n".intercalate
    ((if file.partialOutline then [partialNotice] else []) ++
      SkeletonWriter.writeAll options file.declarations 0 ++
      (if file.truncated then [SkeletonWriter.truncationLine 0] else []))

end Ktsense.Core
