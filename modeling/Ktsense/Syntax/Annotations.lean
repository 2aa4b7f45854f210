import Ktsense.Cli.Locate
import Ktsense.Core.TextListings
import Ktsense.Syntax.ExtractShape

/-!
# Where an annotation is written

`annotations.rs`, and the grouping of `annotated.rs`.  The walk with a stack of names lists
the declarations of a skeleton that carry the annotation, in pre-order, under the names the
symbol index has for them.
-/

namespace Ktsense.Syntax.Annotations

open Ktsense.Foundation Ktsense.Core Ktsense.Core.Layout Ktsense.Cli

section Attachment

variable (alphanumeric : Alphanumeric)

def isIdentifierChar (letter : Char) : Bool := alphanumeric.test letter || letter = '_'

/-- The name an annotation is written with, without its target, its package and its
arguments. -/
def annotationSimpleName (written : String) : Option String :=
  match trim written.toList with
  | '@' :: rest =>
      let head := rest.takeWhile fun letter => letter ∉ ['(', '<', ' ', '\t']
      let simple := trim (afterLast '.' (afterLast ':' head))
      if !simple.isEmpty && simple.all (isIdentifierChar alphanumeric) then
        some (String.ofList simple)
      else none
  | _ => none

def carries (wanted : String) (declaration : Declaration) : Bool :=
  declaration.annotations.any fun written =>
    annotationSimpleName alphanumeric written = some wanted

def fullyQualified (package : Option String) (ancestors : List String) (name : String) :
    String :=
  ".".intercalate ((package.toList ++ ancestors ++ [name]).filter (· ≠ ""))

section Walking

variable (path : String) (package : Option String) (wanted : String)

def own (declaration : Declaration) (ancestors : List String) : List AnnotatedDeclaration :=
  if carries alphanumeric wanted declaration then
    [⟨path, declaration.line, fullyQualified package ancestors declaration.name,
      declaration.kind⟩]
  else []

mutual

def walkInto : Declaration → List String → List AnnotatedDeclaration
  | declaration@{ children, .. }, ancestors =>
      own alphanumeric path package wanted declaration ancestors ++
        walk children
          (if declaration.name ≠ "" then ancestors ++ [declaration.name] else ancestors)

def walk : List Declaration → List String → List AnnotatedDeclaration
  | [], _ => []
  | declaration :: rest, ancestors => walkInto declaration ancestors ++ walk rest ancestors

end

end Walking

/-- A file that is not extracted contributes nothing. -/
def annotatedDeclarations (parse : String → Option Tree) (path source wanted : String) :
    List AnnotatedDeclaration :=
  match extract alphanumeric parse path source with
  | .ok file => walk alphanumeric path file.package wanted file.declarations []
  | .error _ => []

end Attachment

/-- The order of `(line, fqn)`. -/
def position (declaration : AnnotatedDeclaration) : ℕ ×ₗ String :=
  toLex (declaration.line, declaration.fqn)

def member (declaration : AnnotatedDeclaration) : AnnotatedMember :=
  ⟨declaration.line, declaration.fqn, declaration.kind⟩

def buildAnnotated (wanted : String) (declarations : List AnnotatedDeclaration) :
    AnnotatedDeclarations :=
  let groups := (listing AnnotatedDeclaration.path position none declarations).map
    fun group => (⟨group.1, group.2.1.map member⟩ : AnnotatedGroup)
  { annotation := wanted
    total := declarations.length
    fileCount := groups.length
    groups }

/-! ## The walk as a pass over the skeleton -/

section Exact

variable {alphanumeric : Alphanumeric} (path : String) (package : Option String)
  (wanted : String)

/-- A declaration as it is listed, under the names around it. -/
def listed (ancestors : List String) (placed : Placed) : AnnotatedDeclaration :=
  ⟨path, placed.line,
    fullyQualified package (ancestors ++ placed.around.map (·.name)) placed.declaration.name,
    placed.declaration.kind⟩

theorem walkInto_eq (declaration : Declaration) (ancestors : List String) :
    walkInto alphanumeric path package wanted declaration ancestors =
      own alphanumeric path package wanted declaration ancestors ++
        walk alphanumeric path package wanted declaration.children
          (if declaration.name ≠ "" then ancestors ++ [declaration.name] else ancestors) := by
  cases declaration
  rw [walkInto]

/-- Names that are empty do not count. -/
theorem listed_under (ancestors : List String) (outer : Declaration) (placed : Placed) :
    listed path package ancestors (placed.under outer) =
      listed path package
        (if outer.name ≠ "" then ancestors ++ [outer.name] else ancestors) placed := by
  have hnames : (placed.under outer).around.map (·.name) =
      outer.name :: placed.around.map (·.name) := rfl
  rw [listed, listed, fullyQualified, fullyQualified, hnames]
  by_cases hname : outer.name = "" <;> simp [hname, Placed.under, Placed.line]

theorem own_eq (declaration : Declaration) (ancestors : List String) :
    own alphanumeric path package wanted declaration ancestors =
      (([⟨[], declaration⟩] : List Placed).filter fun placed =>
        carries alphanumeric wanted placed.declaration).map
          (listed path package ancestors) := by
  have hlisted : listed path package ancestors ⟨[], declaration⟩ =
      ⟨path, declaration.line, fullyQualified package ancestors declaration.name,
        declaration.kind⟩ := by
    rw [listed, List.map_nil, List.append_nil]
    rfl
  rw [own, List.filter_singleton]
  cases carries alphanumeric wanted declaration with
  | true => exact congrArg (fun one => [one]) hlisted.symm
  | false => rfl

theorem walk_eq (declarations : List Declaration) (ancestors : List String) :
    walk alphanumeric path package wanted declarations ancestors =
      ((preorder declarations).filter fun placed =>
        carries alphanumeric wanted placed.declaration).map
          (listed path package ancestors) := by
  induction declarations using siblings_induct generalizing ancestors with
  | nil => rfl
  | cons declaration following ihchildren ihrest =>
      have hunder : listed path package ancestors ∘ Placed.under declaration =
          listed path package
            (if declaration.name ≠ "" then ancestors ++ [declaration.name] else ancestors) := by
        funext placed
        exact listed_under path package ancestors declaration placed
      have hfirst : preorder (declaration :: following) = [⟨[], declaration⟩] ++
          ((preorder declaration.children).map (Placed.under declaration) ++
            preorder following) := preorder_cons declaration following
      rw [walk, walkInto_eq, own_eq, ihchildren, ihrest, hfirst, List.filter_append,
        List.filter_append, List.filter_map, List.map_append, List.map_append, List.map_map,
        hunder, List.append_assoc]
      rfl

/-! ## The index -/

theorem occurrences_eq_preorder (declarations : List Declaration) (ancestors : List String) :
    occurrences declarations ancestors = (preorder declarations).map fun placed =>
      ⟨placed.declaration, ancestors ++ placed.around.map (·.name)⟩ := by
  induction declarations using siblings_induct generalizing ancestors with
  | nil => rfl
  | cons declaration following ihchildren ihrest =>
      rw [occurrences, occurrencesWithin_eq, ihchildren, ihrest, preorder_cons, List.map_cons,
        List.map_append, List.map_map, List.map_nil, List.append_nil]
      simp [Function.comp_def, Placed.under]

/-- A named declaration is indexed under the name it is listed with, but for a package with an
empty name, which the index keeps and the list drops. -/
theorem indexed_of_listed {declarations : List Declaration} {placed : Placed}
    (hplaced : placed ∈ preorder declarations) (hname : placed.declaration.name ≠ "") :
    ∃ found ∈ gatherDeclarations package path declarations [],
      (package ≠ some "" → found.qualifiedName = (listed path package [] placed).fqn) ∧
        found.kind = placed.declaration.kind ∧ found.path = path ∧
        found.line = placed.line := by
  have hmem : (⟨placed.declaration, placed.around.map (·.name)⟩ : Located) ∈
      occurrences declarations [] := by
    rw [occurrences_eq_preorder]
    exact List.mem_map_of_mem hplaced
  refine ⟨symbolMatch package path (placed.around.map (·.name)) placed.declaration, ?_, ?_,
    rfl, rfl, rfl⟩
  · rw [gatherDeclarations_eq, List.mem_flatMap]
    refine ⟨_, hmem, List.mem_append_left _ ?_⟩
    rw [ownMatches, if_pos hname]
    exact List.mem_singleton_self _
  · intro hpackage
    have hkept : package.toList.filter (· ≠ "") = package.toList := by
      cases package with
      | none => rfl
      | some package => simpa using hpackage
    simp only [symbolMatch, fqn, listed, fullyQualified, List.filter_append, hkept,
      List.nil_append]
    simp [hname]

end Exact

/-! ## Files and groups -/

/-- What a file contributes is what carries the annotation, in the order of the skeleton,
and what of it has a name is indexed under the name it is listed with. -/
theorem annotatedDeclarations_exact {alphanumeric : Alphanumeric}
    {parse : String → Option Tree} {path source wanted : String} {file : FileSkeleton}
    (hfile : extract alphanumeric parse path source = .ok file) :
    annotatedDeclarations alphanumeric parse path source wanted =
        ((preorder file.declarations).filter fun placed =>
          carries alphanumeric wanted placed.declaration).map
            (listed path file.package []) ∧
      ∀ placed ∈ preorder file.declarations, placed.declaration.name ≠ "" →
        ∃ found ∈ gatherDeclarations file.package path file.declarations [],
          (file.package ≠ some "" →
            found.qualifiedName = (listed path file.package [] placed).fqn) ∧
            found.kind = placed.declaration.kind ∧ found.path = path ∧
            found.line = placed.line := by
  refine ⟨?_, fun placed hplaced hname => ?_⟩
  · rw [annotatedDeclarations, hfile]
    exact walk_eq path file.package wanted file.declarations []
  · exact indexed_of_listed path file.package hplaced hname

/-! A class with an annotation. -/

def auditedTree : Tree :=
  ⟨.node ⟨"source_file", true, "@Audited\nclass A\n", 0⟩
    [.node ⟨"class_declaration", true, "@Audited\nclass A", 0⟩
      [.node ⟨"modifiers", true, "@Audited", 0⟩ [leaf "annotation" "@Audited" 0],
        token "class" 1, leaf "type_identifier" "A" 1]], false⟩

def parseAudited (source : String) : Option Tree :=
  if source = auditedTree.root.text then some auditedTree else none

theorem annotatedDeclarations_exact_audited :
    ∃ file, extract Alphanumeric.onAscii parseAudited "A.kt" auditedTree.root.text = .ok file ∧
      annotatedDeclarations Alphanumeric.onAscii parseAudited "A.kt" auditedTree.root.text
          "Audited" =
        ((preorder file.declarations).filter fun placed =>
          carries Alphanumeric.onAscii "Audited" placed.declaration).map
            (listed "A.kt" file.package []) ∧
      ∀ placed ∈ preorder file.declarations, placed.declaration.name ≠ "" →
        ∃ found ∈ gatherDeclarations file.package "A.kt" file.declarations [],
          found.qualifiedName = (listed "A.kt" file.package [] placed).fqn := by
  have hfile : ∃ file, extract Alphanumeric.onAscii parseAudited "A.kt"
      auditedTree.root.text = .ok file ∧ file.package ≠ some "" := ⟨_, rfl, nofun⟩
  obtain ⟨file, hfile, hpackage⟩ := hfile
  obtain ⟨hlisted, hindexed⟩ := @annotatedDeclarations_exact _ _ _ _ "Audited" _ hfile
  refine ⟨file, hfile, hlisted, ?_⟩
  intro placed hplaced hname
  obtain ⟨found, hmem, hnamed, -⟩ := hindexed placed hplaced hname
  exact ⟨found, hmem, hnamed hpackage⟩

end Ktsense.Syntax.Annotations
