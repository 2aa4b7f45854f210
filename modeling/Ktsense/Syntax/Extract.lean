import Ktsense.Core.LayoutFold
import Ktsense.Core.Render
import Ktsense.Foundation.Lines
import Ktsense.Foundation.Words
import Ktsense.Syntax.Tree

/-!
# The skeleton of a syntax tree

`extract.rs` without the search for local declarations.  Where the extractor sets a flag
once something was cut off, the functions here return it beside their result.  The depth
of a declaration is counted down, from `MAX_NESTING_DEPTH` at the top level to no room
left.
-/

namespace Ktsense.Syntax

open Ktsense.Foundation Ktsense.Core Ktsense.Core.Layout Node

/-- Node kinds that can stand where a type is expected. -/
def typeKinds : List String :=
  ["user_type", "nullable_type", "function_type", "parenthesized_type", "dynamic_type",
    "type_reference"]

def isType (node : Node) : Bool := node.kind ∈ typeKinds

/-! ## Words -/

def modifierFromKeyword : String → Option Modifier
  | "expect" => some .expect
  | "actual" => some .actual
  | "final" => some .final
  | "open" => some .open
  | "abstract" => some .abstract
  | "sealed" => some .sealed
  | "const" => some .const
  | "external" => some .external
  | "override" => some .override
  | "lateinit" => some .lateinit
  | "tailrec" => some .tailrec
  | "vararg" => some .vararg
  | "suspend" => some .suspend
  | "inner" => some .inner
  | "enum" => some .enum
  | "annotation" => some .annotationKind
  | "fun" => some .fun
  | "companion" => some .companion
  | "inline" => some .inline
  | "value" => some .value
  | "infix" => some .infixCall
  | "operator" => some .operator
  | "data" => some .data
  | _ => none

/-- The text up to the first full stop before a blank. -/
def firstSentence (summary : List Char) : List Char :=
  match findSubslice ['.', ' '] summary with
  | some stop => (summary.take (stop + 1)).rdropWhile isWhitespace
  | none => summary

/-- A line of a KDoc block without the star in front of it. -/
def kdocLine (line : String) : List Char :=
  trim (trimStartMatches ['*'] (trim line.toList))

/-- The first sentence of a KDoc block. -/
def summarizeKdoc (raw : String) : Option String :=
  let body := trimEndMatches "*/".toList (trimStartMatches "/**".toList raw.toList)
  let shown := ((textLines (String.ofList body)).map kdocLine).takeWhile fun line =>
    line.head? ≠ some '@'
  let summary := [' '].intercalate (splitWhitespace ([' '].intercalate shown))
  let sentence := firstSentence summary
  if sentence.isEmpty then none else some (String.ofList sentence)

/-! ## Parts of a declaration -/

section Extractor

variable (alphanumeric : Alphanumeric)

/-- The folding never fails. -/
def signatureLayout (text : String) : String :=
  (normalizeSignatureLayout alphanumeric text).get
    (by rw [normalizeSignatureLayout_eq]; rfl)

def signatureText (node : Node) : String := signatureLayout alphanumeric node.text

def readModifier (found : Visibility × List Modifier) (group : Node) :
    Visibility × List Modifier :=
  if group.kind = "annotation" then found
  else
    match String.ofList (trim group.text.toList) with
    | "private" => (.privateScope, found.2)
    | "internal" => (.internalScope, found.2)
    | "protected" => (.protectedScope, found.2)
    | "public" => (.publicScope, found.2)
    | keyword => (found.1, found.2 ++ (modifierFromKeyword keyword).toList)

def modifiersOf (node : Node) : Visibility × List Modifier :=
  match node.firstChildOfKind "modifiers" with
  | some modifiers => modifiers.children.foldl readModifier (.publicScope, [])
  | none => (.publicScope, [])

def annotationsOf (node : Node) : List String :=
  match node.firstChildOfKind "modifiers" with
  | some modifiers =>
      (modifiers.children.filter (·.kind = "annotation")).map (signatureText alphanumeric)
  | none => []

def receiverOf (node : Node) : Option String :=
  (node.firstChildOfKind "receiver_type").map text

def typeParametersOf (node : Node) : Option String :=
  (node.firstChildOfKind "type_parameters").map (signatureText alphanumeric)

def constraintsOf (node : Node) : Option String :=
  (node.firstChildOfKind "type_constraints").map fun constraints =>
    let text := (signatureText alphanumeric constraints).toList
    String.ofList (trim (trimStartMatches "where".toList text))

def supertypesOf (node : Node) : List String :=
  (node.children.filter (·.kind = "delegation_specifier")).map (signatureText alphanumeric)

/-- KDoc from the nearest named sibling before the declaration. -/
def docOf (previous : Option Node) : Option String :=
  previous.bind fun previous =>
    if previous.kind = "multiline_comment" && "/**".toList.isPrefixOf previous.text.toList
    then summarizeKdoc previous.text
    else none

def nameText (name : Option Node) : String := (name.map text).getD ""

/-! ## Parameters -/

def parameter (name : Option Node) (typeName : String) : Parameter :=
  ⟨nameText name, typeName, none, none, false⟩

def classParameter (node : Node) : Parameter :=
  let binding := node.firstChildOfKind "binding_pattern_kind"
  let typeIndex := node.children.findIdx? isType
  let typeNode := typeIndex.bind fun index => node.children[index]?
  let default := typeIndex.bind fun index => (node.children.drop (index + 1)).find? isNamed
  { parameter (node.firstChildOfKind "simple_identifier")
      ((typeNode.map (signatureText alphanumeric)).getD "") with
    property := binding.map fun binding => ⟨(modifiersOf node).1, binding.text = "var"⟩
    default := default.map (signatureText alphanumeric) }

def classParameters (constructor : Node) : List Parameter :=
  (constructor.children.filter (·.kind = "class_parameter")).map (classParameter alphanumeric)

/-- The type of a parameter after the modifier in front of it, such as `suspend`. -/
def parameterType (node : Node) : String :=
  match node.children.findIdx? isType with
  | none => ""
  | some index =>
      let previous := if index > 0 then node.children[index - 1]? else none
      let modifier := (previous.filter (·.kind = "type_modifiers")).map fun previous =>
        previous.text ++ " "
      signatureLayout alphanumeric
        (modifier.getD "" ++ (node.children[index]?.map text).getD "")

/-- The last parameter takes a default when it has none. -/
def defaultLast (parameters : List Parameter) (default : String) : List Parameter :=
  match parameters.getLast? with
  | some last =>
      if last.default.isNone then
        parameters.dropLast ++ [{ last with default := some default }]
      else parameters
  | none => []

/-- One child of a parameter list.  The flag says that the next parameter is variadic. -/
def readParameter (found : List Parameter × Bool) (child : Node) : List Parameter × Bool :=
  let (parameters, nextIsVararg) := found
  if !child.isNamed then found
  else if child.kind = "parameter_modifiers" then
    (parameters, (findSubslice "vararg".toList child.text.toList).isSome)
  else if child.kind = "parameter" then
    let read := parameter (child.firstChildOfKind "simple_identifier")
      (parameterType alphanumeric child)
    (parameters ++ [{ read with vararg := nextIsVararg }], false)
  else (defaultLast parameters (signatureText alphanumeric child), nextIsVararg)

def functionParameters (node : Node) : List Parameter :=
  (node.children.foldl (readParameter alphanumeric) ([], false)).1

def valueParametersOf (node : Node) : List Parameter :=
  ((node.firstChildOfKind "function_value_parameters").map
    (functionParameters alphanumeric)).getD []

def returnTypeOf (node : Node) : Option String :=
  let behind := (node.children.dropWhile (·.kind ≠ "function_value_parameters")).drop 1
  ((behind.takeWhile (·.kind ≠ "function_body")).find? isType).map
    (signatureText alphanumeric)

def hasExpressionBody (node : Node) : Bool :=
  match node.firstChildOfKind "function_body" with
  | some body => (trimStart body.text.toList).head? = some '='
  | none => false

/-! ## Declarations -/

/-- A declaration on the line of its name, or on the node's own where it has none. -/
def named (node : Node) (kind : DeclKind) (name : Option Node) : Declaration :=
  .new kind (nameText name) (name.getD node).lineOf

def declared (node : Node) (kind : DeclKind) (nameKind : String) : Declaration :=
  { named node kind (node.firstChildOfKind nameKind) with
    visibility := (modifiersOf node).1
    modifiers := (modifiersOf node).2 }

def function (previous : Option Node) (node : Node) : Declaration :=
  let returnType := returnTypeOf alphanumeric node
  { declared node .function "simple_identifier" with
    receiver := receiverOf node
    typeParameters := typeParametersOf alphanumeric node
    parameters := valueParametersOf alphanumeric node
    returnType
    typeInferred := returnType.isNone && hasExpressionBody node
    typeConstraints := constraintsOf alphanumeric node
    doc := docOf previous
    annotations := annotationsOf alphanumeric node }

def property (previous : Option Node) (node : Node) : Option Declaration := do
  let isMutable := (node.firstChildOfKind "binding_pattern_kind").any (·.text = "var")
  let variableNode ← node.firstChildOfKind "variable_declaration"
  let name ← variableNode.firstChildOfKind "simple_identifier"
  let returnType := (variableNode.children.find? isType).map (signatureText alphanumeric)
  return { named node (if isMutable then .var else .val) (some name) with
    visibility := (modifiersOf node).1
    modifiers := (modifiersOf node).2
    receiver := receiverOf node
    returnType
    typeInferred := returnType.isNone
    doc := docOf previous
    annotations := annotationsOf alphanumeric node }

def typeAlias (previous : Option Node) (node : Node) : Declaration :=
  let behind := (node.children.dropWhile (·.kind ≠ "type_identifier")).drop 1
  { declared node .typeAlias "type_identifier" with
    typeParameters := typeParametersOf alphanumeric node
    returnType := (behind.find? isType).map (signatureText alphanumeric)
    doc := docOf previous }

def enumEntry (node : Node) : Declaration :=
  named node .enumEntry (node.firstChildOfKind "simple_identifier")

def secondaryConstructor (previous : Option Node) (node : Node) : Declaration :=
  { Declaration.new .constructor "constructor" node.lineOf with
    visibility := (modifiersOf node).1
    modifiers := (modifiersOf node).2
    parameters := valueParametersOf alphanumeric node
    doc := docOf previous
    annotations := annotationsOf alphanumeric node }

/-! ## Containers -/

/-- Whether the body of a declaration holds members rather than local declarations. -/
def holdsMembers (kind : String) : Bool :=
  kind ∈ ["class_declaration", "object_declaration", "companion_object"]

/-- The keywords are children that the grammar does not name. -/
def keywordsOf (node : Node) : List String :=
  (node.children.filter fun child => !child.isNamed).map kind

def classKindOf (node : Node) : DeclKind :=
  if "interface" ∈ keywordsOf node then .interface else .classKind

def classLike (previous : Option Node) (node : Node) (children : List Declaration) :
    Declaration :=
  let kind := classKindOf node
  let isEnum := "enum" ∈ keywordsOf node
  let isFun := "fun" ∈ keywordsOf node ∧ kind = .interface
  let constructor := node.firstChildOfKind "primary_constructor"
  { declared node kind "type_identifier" with
    modifiers := (modifiersOf node).2 ++ (if isEnum then [.enum] else []) ++
      (if isFun then [.fun] else [])
    typeParameters := typeParametersOf alphanumeric node
    parameters := (constructor.map (classParameters alphanumeric)).getD []
    constructorVisibility :=
      (constructor.map fun constructor => (modifiersOf constructor).1).filter (!·.isPublic)
    supertypes := supertypesOf alphanumeric node
    typeConstraints := constraintsOf alphanumeric node
    doc := docOf previous
    annotations := annotationsOf alphanumeric node
    children }

def objectOf (previous : Option Node) (node : Node) (children : List Declaration) :
    Declaration :=
  { declared node .object "type_identifier" with
    supertypes := supertypesOf alphanumeric node
    doc := docOf previous
    annotations := annotationsOf alphanumeric node
    children }

def companionObject (previous : Option Node) (node : Node) (children : List Declaration) :
    Declaration :=
  let declaration := objectOf alphanumeric previous node children
  { declaration with modifiers := declaration.modifiers ++ [.companion] }

/-- What a node declares, given the members its body holds and whether some were cut off
on the way to them. -/
def declarationWith (bodyOf : Node → List Declaration × Bool) (previous : Option Node)
    (node : Node) : Option Declaration × Bool :=
  let container := fun build : Option Node → Node → List Declaration → Declaration =>
    (some (build previous node (bodyOf node).1), (bodyOf node).2)
  match node.kind with
  | "class_declaration" => container (classLike alphanumeric)
  | "object_declaration" => container (objectOf alphanumeric)
  | "companion_object" => container (companionObject alphanumeric)
  | "function_declaration" => (some (function alphanumeric previous node), false)
  | "property_declaration" => (property alphanumeric previous node, false)
  | "type_alias" => (some (typeAlias alphanumeric previous node), false)
  | "enum_entry" => (some (enumEntry node), false)
  | "secondary_constructor" => (some (secondaryConstructor alphanumeric previous node), false)
  | _ => (none, false)

/-- The declarations among some siblings. -/
def collect (declaration : Option Node → Node → Option Declaration × Bool)
    (nodes : List Node) : List Declaration × Bool :=
  let found := (withPrevious none nodes).map fun placed => declaration placed.1 placed.2
  (found.filterMap Prod.fst, found.any Prod.snd)

def bodyNode (node : Node) : Option Node :=
  (node.firstChildOfKind "class_body").or (node.firstChildOfKind "enum_class_body")

/-- The members of a container with room for so many levels below it. -/
def bodyOf : ℕ → Node → List Declaration × Bool
  | 0, node => ([], (bodyNode node).any fun body => body.namedChildCount > 0)
  | room + 1, node =>
      ((bodyNode node).map fun body =>
        collect (declarationWith alphanumeric (bodyOf room)) body.children).getD ([], false)

/-- What a node declares at the top level. -/
def declaration (previous : Option Node) (node : Node) : Option Declaration × Bool :=
  declarationWith alphanumeric (bodyOf alphanumeric maxNestingDepth) previous node

/-! ## Files -/

def identifierText (node : Node) : Option String :=
  (node.firstChildOfKind "identifier").map text

/-- One child of the root, read into the skeleton of its file. -/
def readTopLevel (file : FileSkeleton) (placed : Option Node × Node) : FileSkeleton :=
  match placed.2.kind with
  | "package_header" => { file with package := identifierText placed.2 }
  | "import_list" =>
      { file with
        imports := (placed.2.children.filter (·.kind = "import_header")).filterMap
          identifierText }
  | _ =>
      let found := declaration alphanumeric placed.1 placed.2
      { file with
        declarations := file.declarations ++ found.1.toList
        truncated := file.truncated || found.2 }

def isEmpty (file : FileSkeleton) : Bool :=
  file.package.isNone && file.imports.isEmpty && file.declarations.isEmpty

/-- The skeleton of a file, or the message of the error. -/
def extract (parse : String → Option Tree) (path source : String) :
    Except String FileSkeleton :=
  match parse source with
  | none => .error "parsing Kotlin source"
  | some tree =>
      let file := (withPrevious none tree.root.children).foldl (readTopLevel alphanumeric)
        (.new path)
      let file := { file with partialOutline := tree.hasError }
      if file.partialOutline && isEmpty file then
        .error "Kotlin syntax errors left no declaration to recover"
      else .ok file

end Extractor

end Ktsense.Syntax
