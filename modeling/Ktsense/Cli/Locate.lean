import Ktsense.Cli.Symbols
import Ktsense.Core.Attribution
import Ktsense.Core.RepoMap

/-!
# Naming a declaration

`symbols.rs` names the declarations of a file in two ways: the index gathers all
of them with an ancestor stack, and a location is enriched by a search for a
name and a line.  `references.rs` names the declaration around a line by the
spans that hold it.  The three agree on every tree.
-/

namespace Ktsense.Cli

open Ktsense.Core Ktsense.Foundation

structure SymbolMatch where
  qualifiedName : String
  simpleName : String
  kind : DeclKind
  path : String
  line : ℕ
  signature : String
  deriving DecidableEq, Repr

def fqn (package : Option String) (ancestors : List String) (name : String) :
    String :=
  ".".intercalate (package.toList ++ ancestors.filter (· ≠ "") ++ [name])

/-- The `signature_of` of the symbols path, which shows private declarations. -/
def symbolSignature (path : String) (declaration : Declaration) : String :=
  let skeleton : FileSkeleton :=
    ⟨path, none, [], [declaration.containing []], false, false⟩
  let rendered :=
    renderSkeleton skeleton { RenderOptions.default with includePrivate := true }
  String.ofList (trim ((firstLine rendered).getD "").toList)

/-! ## Gathering the index -/

section Gathering

variable (package : Option String) (path : String)

/-- The match pushed for a declaration or a constructor property. -/
def symbolMatch (ancestors : List String) (declaration : Declaration) :
    SymbolMatch where
  qualifiedName := fqn package ancestors declaration.name
  simpleName := declaration.name
  kind := declaration.kind
  path
  line := declaration.line
  signature := symbolSignature path declaration

def ownMatches (ancestors : List String) (declaration : Declaration) :
    List SymbolMatch :=
  if declaration.name ≠ "" then [symbolMatch package path ancestors declaration]
  else []

def propertyMatches (ancestors : List String) (declaration : Declaration) :
    List SymbolMatch :=
  declaration.constructorProperties.map
    (symbolMatch package path (ancestors ++ [declaration.name]))

mutual

def gatherDeclaration : Declaration → List String → List SymbolMatch
  | declaration@{ children, .. }, ancestors =>
      ownMatches package path ancestors declaration ++
        propertyMatches package path ancestors declaration ++
        gatherDeclarations children (ancestors ++ [declaration.name])

def gatherDeclarations : List Declaration → List String → List SymbolMatch
  | [], _ => []
  | declaration :: rest, ancestors =>
      gatherDeclaration declaration ancestors ++ gatherDeclarations rest ancestors

end

end Gathering

/-! ## Searching for a name and a line -/

structure Located where
  declaration : Declaration
  ancestors : List String

section Walking

variable (name : String) (line : ℕ)

mutual

/-- One turn of the loop of `walk`: the best candidate so far, and whether it is
an exact match. -/
def walkInto : Declaration → List String → Option Located → Option Located × Bool
  | declaration@{ children, .. }, ancestors, best =>
      let candidate : Located := ⟨declaration, ancestors⟩
      if declaration.name = name ∧ declaration.line = line then (some candidate, true)
      else
        let best := if declaration.name = name then best.or (some candidate) else best
        walk children (ancestors ++ [declaration.name]) best

def walk : List Declaration → List String → Option Located → Option Located × Bool
  | [], _, best => (best, false)
  | declaration :: rest, ancestors, best =>
      match walkInto declaration ancestors best with
      | (best, true) => (best, true)
      | (best, false) => walk rest ancestors best

end

end Walking

def locate (skeleton : FileSkeleton) (name : String) (line : ℕ) : Option Located :=
  (walk name line skeleton.declarations [] none).1

/-! ## Both as passes over one order -/

mutual

/-- A declaration and what is nested in it, outermost first, each with the names
around it. -/
def occurrencesWithin : Declaration → List String → List Located
  | declaration@{ children, .. }, ancestors =>
      ⟨declaration, ancestors⟩ :: occurrences children (ancestors ++ [declaration.name])

def occurrences : List Declaration → List String → List Located
  | [], _ => []
  | declaration :: rest, ancestors =>
      occurrencesWithin declaration ancestors ++ occurrences rest ancestors

end

mutual

theorem gatherDeclaration_eq (package : Option String) (path : String) :
    (declaration : Declaration) → (ancestors : List String) →
    gatherDeclaration package path declaration ancestors =
      (occurrencesWithin declaration ancestors).flatMap fun found =>
        ownMatches package path found.ancestors found.declaration ++
          propertyMatches package path found.ancestors found.declaration
  | declaration@{ children, .. }, ancestors => by
      rw [gatherDeclaration, occurrencesWithin, List.flatMap_cons,
        gatherDeclarations_eq]

theorem gatherDeclarations_eq (package : Option String) (path : String) :
    (declarations : List Declaration) → (ancestors : List String) →
    gatherDeclarations package path declarations ancestors =
      (occurrences declarations ancestors).flatMap fun found =>
        ownMatches package path found.ancestors found.declaration ++
          propertyMatches package path found.ancestors found.declaration
  | [], ancestors => by
      rw [gatherDeclarations, occurrences, List.flatMap_nil]
  | declaration :: rest, ancestors => by
      rw [gatherDeclarations, occurrences, List.flatMap_append,
        gatherDeclaration_eq, gatherDeclarations_eq]

end

/-- A declaration of that name on that line. -/
def isExact (name : String) (line : ℕ) (found : Located) : Bool :=
  found.declaration.name = name ∧ found.declaration.line = line

/-- What a search over some occurrences makes of the best candidate so far. -/
def searched (name : String) (line : ℕ) (found : List Located)
    (best : Option Located) : Option Located × Bool :=
  match found.find? (isExact name line) with
  | some exactMatch => (some exactMatch, true)
  | none => (best.or (found.find? (·.declaration.name = name)), false)

theorem searched_append (name : String) (line : ℕ) (left right : List Located)
    (best : Option Located) :
    searched name line (left ++ right) best =
      match searched name line left best with
      | (best, true) => (best, true)
      | (best, false) => searched name line right best := by
  cases hleft : left.find? (isExact name line) with
  | some exactMatch => simp [searched, List.find?_append, hleft]
  | none =>
      cases hright : right.find? (isExact name line) with
      | some exactMatch => simp [searched, List.find?_append, hleft, hright]
      | none => simp [searched, List.find?_append, hleft, hright, Option.or_assoc]

theorem searched_cons (name : String) (line : ℕ) (first : Located)
    (rest : List Located) (best : Option Located) :
    searched name line (first :: rest) best =
      if first.declaration.name = name ∧ first.declaration.line = line then
        (some first, true)
      else
        searched name line rest
          (if first.declaration.name = name then best.or (some first) else best) := by
  by_cases hname : first.declaration.name = name
  · by_cases hline : first.declaration.line = line
    · simp [searched, isExact, hname, hline]
    · cases hrest : rest.find? (isExact name line) with
      | some exactMatch =>
          simp [searched, isExact, hname, hline, hrest]
      | none =>
          simp [searched, isExact, hname, hline, hrest]
  · simp [searched, isExact, hname]

mutual

theorem walkInto_eq (name : String) (line : ℕ) :
    (declaration : Declaration) → (ancestors : List String) →
    (best : Option Located) →
    walkInto name line declaration ancestors best =
      searched name line (occurrencesWithin declaration ancestors) best
  | declaration@{ children, .. }, ancestors, best => by
      rw [walkInto, occurrencesWithin, searched_cons, walk_eq]

theorem walk_eq (name : String) (line : ℕ) :
    (declarations : List Declaration) → (ancestors : List String) →
    (best : Option Located) →
    walk name line declarations ancestors best =
      searched name line (occurrences declarations ancestors) best
  | [], ancestors, best => by
      simp [walk, occurrences, searched]
  | declaration :: rest, ancestors, best => by
      rw [walk, occurrences, searched_append, walkInto_eq]
      simp only [walk_eq name line rest]

end

theorem occurrencesWithin_eq (declaration : Declaration) (ancestors : List String) :
    occurrencesWithin declaration ancestors =
      ⟨declaration, ancestors⟩ ::
        occurrences declaration.children (ancestors ++ [declaration.name]) := by
  cases declaration
  rfl

theorem occurrences_eq_flatMap (declarations : List Declaration)
    (ancestors : List String) :
    occurrences declarations ancestors =
      declarations.flatMap fun declaration =>
        occurrencesWithin declaration ancestors := by
  induction declarations with
  | nil => rfl
  | cons declaration rest ih => rw [occurrences, List.flatMap_cons, ih]

/-! ## The chain of spans -/

theorem mem_of_enclosingChain {declarations rest : List Declaration}
    {outer : Declaration} {line : ℕ} {parentEnd : Option ℕ}
    (hchain : enclosingChain declarations line parentEnd = outer :: rest) :
    outer ∈ declarations := by
  induction declarations with
  | nil => cases hchain
  | cons declaration following ih =>
      rw [enclosingChain_cons] at hchain
      split_ifs at hchain
      · exact (List.cons.inj hchain).1 ▸ List.mem_cons_self
      · exact List.mem_cons_of_mem _ (ih hchain)

/-- The chain of spans around a line leads to an occurrence, and the names along
it are those around that occurrence. -/
theorem mem_occurrences_of_chain {line : ℕ} {innermost : Declaration}
    {outer declarations : List Declaration} {parentEnd : Option ℕ}
    (ancestors : List String)
    (hchain : enclosingChain declarations line parentEnd = outer ++ [innermost]) :
    ⟨innermost, ancestors ++ outer.map (·.name)⟩ ∈
      occurrences declarations ancestors := by
  induction outer generalizing declarations parentEnd ancestors with
  | nil =>
      rw [occurrences_eq_flatMap, List.mem_flatMap]
      use innermost, mem_of_enclosingChain hchain
      rw [occurrencesWithin_eq, List.map_nil, List.append_nil]
      exact List.mem_cons_self
  | cons declaration rest ih =>
      rw [List.cons_append] at hchain
      obtain ⟨-, last, hrest⟩ := head_of_enclosingChain hchain
      rw [occurrences_eq_flatMap, List.mem_flatMap]
      use declaration, mem_of_enclosingChain hchain
      have hnested := ih (ancestors ++ [declaration.name]) hrest
      rw [List.append_assoc, List.singleton_append] at hnested
      rw [occurrencesWithin_eq, List.map_cons]
      exact List.mem_cons_of_mem _ hnested

/-! ## One name -/

/-- The name built from an ancestor stack is the name built from a chain: the
package, the names around that are not empty, and the declaration's own. -/
theorem fqn_eq_qualified (package : Option String) (outer : List String)
    {name : String} (hname : name ≠ "") :
    fqn package outer name =
      match package with
      | some package =>
          if ".".intercalate ((outer ++ [name]).filter (· ≠ "")) ≠ "" then
            package ++ "." ++ ".".intercalate ((outer ++ [name]).filter (· ≠ ""))
          else package
      | none => ".".intercalate ((outer ++ [name]).filter (· ≠ "")) := by
  have hnames : (outer ++ [name]).filter (· ≠ "") = outer.filter (· ≠ "") ++ [name] := by
    rw [List.filter_append]
    simp [hname]
  have hne : ".".intercalate (outer.filter (· ≠ "") ++ [name]) ≠ "" := by
    intro hempty
    have hwithin := piece_within_intercalate "."
      (List.mem_append_right (outer.filter (· ≠ "")) (List.mem_singleton_self name))
    rw [hempty] at hwithin
    exact hname (by simpa using hwithin)
  rw [fqn, hnames]
  cases package with
  | none => rfl
  | some package =>
      simp only [Option.toList_some, List.append_assoc, if_pos hne]
      rw [List.singleton_append, String.intercalate_cons_of_ne_nil (by simp)]

theorem fullyQualifiedEnclosing_of_chain {skeleton : FileSkeleton} {line : ℕ}
    {outer : List Declaration} {innermost : Declaration} (hname : innermost.name ≠ "")
    (hchain : enclosingChain skeleton.declarations line none = outer ++ [innermost]) :
    fullyQualifiedEnclosing skeleton line =
      some ⟨fqn skeleton.package (outer.map (·.name)) innermost.name,
        innermost.kind, innermost.line⟩ := by
  have hne : enclosingChain skeleton.declarations line none ≠ [] := by
    rw [hchain]
    exact List.append_ne_nil_of_right_ne_nil _ (List.cons_ne_nil _ _)
  rw [fullyQualifiedEnclosing, enclosingDeclaration, dif_neg hne, Option.map_some,
    fqn_eq_qualified _ _ hname]
  cases skeleton.package with
  | none =>
      simp only [EnclosingDeclaration.fromChain, hchain, List.map_append, List.map_cons,
        List.map_nil, List.getLast_append_singleton]
  | some package =>
      simp only [EnclosingDeclaration.fromChain, hchain, List.map_append, List.map_cons,
        List.map_nil, List.getLast_append_singleton]

/-- The one occurrence of a name on a line parts the occurrences. -/
theorem occurrences_of_only {name : String} {line : ℕ} {all : List Located}
    {found : Located} (hfound : found ∈ all) (hexact : isExact name line found = true)
    (honly : (all.filter (isExact name line)).length ≤ 1) :
    ∃ before after, all = before ++ found :: after ∧
      ∀ other ∈ before ++ after, isExact name line other = false := by
  obtain ⟨before, after, rfl⟩ := List.append_of_mem hfound
  refine ⟨before, after, rfl, ?_⟩
  rw [List.filter_append, List.filter_cons_of_pos hexact, List.length_append,
    List.length_cons] at honly
  have hbefore : before.filter (isExact name line) = [] :=
    List.eq_nil_of_length_eq_zero (by omega)
  have hafter : after.filter (isExact name line) = [] :=
    List.eq_nil_of_length_eq_zero (by omega)
  rw [List.filter_eq_nil_iff] at hbefore hafter
  intro other hother
  rcases List.mem_append.mp hother with hmem | hmem
  · exact Bool.eq_false_of_not_eq_true (hbefore other hmem)
  · exact Bool.eq_false_of_not_eq_true (hafter other hmem)

theorem locate_of_only {skeleton : FileSkeleton} {name : String} {line : ℕ}
    {found : Located} {before after : List Located}
    (hall : occurrences skeleton.declarations [] = before ++ found :: after)
    (hexact : isExact name line found = true)
    (hothers : ∀ other ∈ before ++ after, isExact name line other = false) :
    locate skeleton name line = some found := by
  have hbefore : before.find? (isExact name line) = none := by
    rw [List.find?_eq_none]
    intro other hother
    rw [hothers other (List.mem_append_left _ hother)]
    exact Bool.false_ne_true
  rw [locate, walk_eq, hall, searched, List.find?_append, hbefore,
    List.find?_cons_of_pos hexact]
  rfl

theorem isExact_of_ownMatch {package : Option String} {path name : String} {line : ℕ}
    {found : Located} {pushed : SymbolMatch}
    (hmatch : pushed ∈ ownMatches package path found.ancestors found.declaration)
    (hname : pushed.simpleName = name) (hline : pushed.line = line) :
    isExact name line found = true := by
  rw [ownMatches] at hmatch
  split_ifs at hmatch with hnamed
  · rw [List.mem_singleton] at hmatch
    subst hmatch
    simp only [symbolMatch] at hname hline
    simp [isExact, hname, hline]
  · cases hmatch

/-- A named declaration that the spans give on its own line, and that is the only
one of its name there, has one name: the index gathers it under the name that
`fully_qualified_enclosing` gives, and the search for its name and line finds it
with ancestors that spell the same.  Another match of that name on that line is a
constructor property. -/
theorem one_name_everywhere (skeleton : FileSkeleton) (path : String)
    (declaration : Declaration) (hnamed : declaration.name ≠ "")
    (hreturned : (enclosingChain skeleton.declarations declaration.line none).getLast? =
      some declaration)
    (honly : ((occurrences skeleton.declarations []).filter
      (isExact declaration.name declaration.line)).length ≤ 1) :
    ∃ enclosing found before after,
      fullyQualifiedEnclosing skeleton declaration.line = some enclosing ∧
      locate skeleton declaration.name declaration.line = some found ∧
      found.declaration = declaration ∧
      fqn skeleton.package found.ancestors found.declaration.name = enclosing.fqn ∧
      gatherDeclarations skeleton.package path skeleton.declarations [] =
        before ++ ⟨enclosing.fqn, declaration.name, declaration.kind, path,
          declaration.line, symbolSignature path declaration⟩ :: after ∧
      ∀ other ∈ before ++ after, other.simpleName = declaration.name →
        other.line = declaration.line →
        ∃ around ∈ occurrences skeleton.declarations [],
          other ∈ propertyMatches skeleton.package path around.ancestors
            around.declaration := by
  obtain ⟨outer, hchain⟩ := List.getLast?_eq_some_iff.mp hreturned
  have hmem := mem_occurrences_of_chain [] hchain
  rw [List.nil_append] at hmem
  have hexact : isExact declaration.name declaration.line
      ⟨declaration, outer.map (·.name)⟩ = true := by
    simp [isExact]
  obtain ⟨before, after, hall, hothers⟩ := occurrences_of_only hmem hexact honly
  let matchesOf : Located → List SymbolMatch := fun found =>
    ownMatches skeleton.package path found.ancestors found.declaration ++
      propertyMatches skeleton.package path found.ancestors found.declaration
  have hproperty : ∀ around ∈ before ++ after, ∀ other ∈ matchesOf around,
      other.simpleName = declaration.name → other.line = declaration.line →
      other ∈ propertyMatches skeleton.package path around.ancestors
        around.declaration := by
    intro around haround other hother hname hline
    rcases List.mem_append.mp hother with hown | hproperty
    · have := isExact_of_ownMatch hown hname hline
      rw [hothers around haround] at this
      cases this
    · exact hproperty
  refine ⟨_, ⟨declaration, outer.map (·.name)⟩, before.flatMap matchesOf,
    propertyMatches skeleton.package path (outer.map (·.name)) declaration ++
      after.flatMap matchesOf,
    fullyQualifiedEnclosing_of_chain hnamed hchain,
    locate_of_only hall hexact hothers, rfl, rfl, ?_, ?_⟩
  · rw [gatherDeclarations_eq, hall, List.flatMap_append, List.flatMap_cons, ownMatches,
      if_pos hnamed]
    rfl
  · intro other hother hname hline
    simp only [List.mem_append, List.mem_flatMap] at hother
    rcases hother with ⟨around, haround, hother⟩ | hown | ⟨around, haround, hother⟩
    · refine ⟨around, hall ▸ by simp [haround], ?_⟩
      exact hproperty around (List.mem_append_left _ haround) other hother hname hline
    · exact ⟨_, hmem, hown⟩
    · refine ⟨around, hall ▸ by simp [haround], ?_⟩
      exact hproperty around (List.mem_append_right _ haround) other hother hname hline

/-- A function of an unnamed companion object. -/
def companionMember : Declaration := .new .function "create" 3

def companionFile : FileSkeleton where
  path := "Order.kt"
  package := some "shop"
  imports := []
  declarations :=
    [(Declaration.new .classKind "Order" 1).containing
      [(Declaration.new .object "" 2).containing [companionMember]]]
  truncated := false
  partialOutline := false

theorem companionMember_has_one_name :
    (fullyQualifiedEnclosing companionFile 3).map (·.fqn) = some "shop.Order.create" ∧
      ∃ enclosing found before after,
        fullyQualifiedEnclosing companionFile 3 = some enclosing ∧
        locate companionFile "create" 3 = some found ∧
        found.declaration = companionMember ∧
        fqn companionFile.package found.ancestors found.declaration.name =
          enclosing.fqn ∧
        gatherDeclarations companionFile.package "Order.kt"
            companionFile.declarations [] =
          before ++ ⟨enclosing.fqn, "create", .function, "Order.kt", 3,
            symbolSignature "Order.kt" companionMember⟩ :: after ∧
        ∀ other ∈ before ++ after, other.simpleName = "create" → other.line = 3 →
          ∃ around ∈ occurrences companionFile.declarations [],
            other ∈ propertyMatches companionFile.package "Order.kt"
              around.ancestors around.declaration :=
  ⟨by decide,
    one_name_everywhere companionFile "Order.kt" companionMember (by decide) rfl
      (by decide)⟩

end Ktsense.Cli
