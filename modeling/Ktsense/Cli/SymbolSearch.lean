import Ktsense.Foundation.Listing
import Ktsense.Syntax.Annotations

/-!
# The search of the syntax index

`symbols --contains` and the fallback for a name the engine does not know ask one index: every
named declaration of the files that are walked and of the generated ones.  A search ranks what
it finds; the fallback answers with the head of what the search would list.
-/

namespace Ktsense.Cli.SymbolSearch

open Ktsense.Foundation Ktsense.Core Ktsense.Core.Layout Ktsense.Syntax
open Ktsense.Syntax.Annotations (auditedTree parseAudited)

/-! ## Ranking -/

/-- The name itself, then what begins with it, then what holds it elsewhere. -/
def containmentTier (query simpleName : String) : ℕ :=
  if simpleName = query then 0
  else if query.toList.isPrefixOf simpleName.toList then 1
  else 2

/-- The key of the fallback: the qualified name, the path and the line. -/
def place (candidate : SymbolMatch) : String ×ₗ String ×ₗ ℕ :=
  toLex (candidate.qualifiedName, toLex (candidate.path, candidate.line))

def matchRank (query : String) (candidate : SymbolMatch) :
    ℕ ×ₗ ℕ ×ₗ String ×ₗ String ×ₗ ℕ :=
  toLex (containmentTier query candidate.simpleName,
    toLex (candidate.simpleName.utf8ByteSize, place candidate))

def containedDeclarations (query : String) (candidates : List SymbolMatch) :
    List SymbolMatch :=
  sortByKey (matchRank query) (candidates.filter fun candidate =>
    containsText candidate.simpleName query)

/-- The candidates the fallback keeps, in its order. -/
def exactDeclarations (query : String) (candidates : List SymbolMatch) : List SymbolMatch :=
  sortByKey place (candidates.filter fun candidate => candidate.simpleName = query)

/-! ## The index -/

/-- What the walks read files with. -/
structure Workspace (P : Type) where
  read : P → Option String
  display : P → String
  parse : String → Option Tree
  alphanumeric : Alphanumeric

structure SyntaxIndex where
  found : List SymbolMatch
  generated : Finset String

section Gathering

variable {P : Type} (workspace : Workspace P)

def collectFileDeclarations (out : List SymbolMatch) (path : P) : List SymbolMatch :=
  match workspace.read path with
  | none => out
  | some source =>
      let display := workspace.display path
      match extract workspace.alphanumeric workspace.parse display source with
      | .error _ => out
      | .ok skeleton =>
          out ++ gatherDeclarations skeleton.package display skeleton.declarations []

def collectGenerated (index : SyntaxIndex) (path : P) : SyntaxIndex :=
  let before := index.found.length
  let found := collectFileDeclarations workspace index.found path
  ⟨found, if before < found.length then insert (workspace.display path) index.generated
    else index.generated⟩

/-- `gather_syntax_index`, from the paths of the two walks on. -/
def gatherSyntaxIndex (kotlin generated : List P) : SyntaxIndex :=
  generated.foldl (collectGenerated workspace)
    ⟨kotlin.foldl (collectFileDeclarations workspace) [], ∅⟩

end Gathering

/-! ## The answers -/

inductive KindFilter where
  | classKind
  | interface
  | object
  | function
  | val
  | var
  | typealias
  | constructor
  deriving DecidableEq, Repr

def KindFilter.label : KindFilter → String
  | .classKind => "class"
  | .interface => "interface"
  | .object => "object"
  | .function => "fun"
  | .val => "val"
  | .var => "var"
  | .typealias => "typealias"
  | .constructor => "constructor"

def kindLabel : DeclKind → String
  | .classKind => "class"
  | .interface => "interface"
  | .object => "object"
  | .function => "fun"
  | .val => "val"
  | .var => "var"
  | .typeAlias => "typealias"
  | .enumEntry => "enum-entry"
  | .constructor => "constructor"

def defaultContainsLimit : ℕ := 50

def resolvedFromMatch (generated : Finset String) (found : SymbolMatch) : ResolvedSymbol where
  fqn := found.qualifiedName
  kind := kindLabel found.kind
  file := found.path
  line := found.line
  signature := found.signature
  isLocal := false
  entries := []
  properties := []
  generated := decide (found.path ∈ generated)

def containsMarkdown (query : String) (resolved : List ResolvedSymbol) (hidden : ℕ) : String :=
  "## Symbols: " ++ neutralize query ++ "\n" ++ "source: syntax index\n" ++ "\n" ++
    fencedBlock (rows resolved) ++
    (if 0 < hidden then "\n... " ++ toString hidden ++ " more matches not shown\n" else "")

/-- Whether the generated walk found no file decides the wording. -/
def noSymbolScoped (query : String) (noneGenerated : Bool) : CommandError :=
  let named := CommandError.noSymbol query
  ⟨named.exit, named.message ++
    if noneGenerated then ". No generated Kotlin sources were found under build/generated, " ++
      "so if " ++ query ++ " is generated, run the build and retry"
    else ". Generated Kotlin sources under build/generated were also searched"⟩

structure Request where
  query : String
  kind : Option KindFilter
  limit : Option ℕ
  format : Format

section Presenting

variable {P : Type} (containsJson : List ResolvedSymbol → ℕ → Except CommandError String)
  (workspace : Workspace P) (request : Request)

def ofKind (found : SymbolMatch) : Bool :=
  request.kind.all fun kind => kindLabel found.kind = kind.label

/-- The text of a listing in the format that is asked for. -/
def renderListing (resolved : List ResolvedSymbol) (hidden : ℕ) :
    Except CommandError SymbolsOutcome :=
  match request.format with
  | .md => .ok ⟨containsMarkdown request.query resolved hidden, .success, none⟩
  | .json => (containsJson resolved hidden).map fun text => ⟨text, .success, none⟩
  | .dot => .error (.unsupportedFormat "symbols")

/-- The end both commands share: the kind, the limit and the text. -/
def presentRanked (ranked : List SymbolMatch) (marked : Finset String) (noneGenerated : Bool) :
    Except CommandError SymbolsOutcome :=
  let wanted := ranked.filter (ofKind request)
  if wanted.isEmpty then .error (noSymbolScoped request.query noneGenerated)
  else
    let total := wanted.length
    let shown := min (request.limit.getD defaultContainsLimit) total
    let resolved := (wanted.take shown).map (resolvedFromMatch marked)
    renderListing containsJson request resolved (total - shown)

variable (kotlin generated : List P)

/-- `present_contained`, from the paths of the two walks on. -/
def presentContained : Except CommandError SymbolsOutcome :=
  let index := gatherSyntaxIndex workspace kotlin generated
  presentRanked containsJson request (containedDeclarations request.query index.found)
    index.generated generated.isEmpty

def presentExactFromSyntaxIndex : Except CommandError SymbolsOutcome :=
  let index := gatherSyntaxIndex workspace kotlin generated
  presentRanked containsJson request (exactDeclarations request.query index.found)
    index.generated generated.isEmpty

end Presenting

/-! ## What the index holds -/

section Index

variable {P : Type} (workspace : Workspace P)

/-- What one file adds to the index. -/
def declarationsOf (path : P) : List SymbolMatch := collectFileDeclarations workspace [] path

theorem collectFileDeclarations_eq (out : List SymbolMatch) (path : P) :
    collectFileDeclarations workspace out path = out ++ declarationsOf workspace path := by
  rw [declarationsOf, collectFileDeclarations, collectFileDeclarations]
  cases workspace.read path with
  | none => exact (List.append_nil out).symm
  | some source =>
      simp only
      cases extract workspace.alphanumeric workspace.parse (workspace.display path) source with
      | error => exact (List.append_nil out).symm
      | ok skeleton => rfl

theorem foldl_collectFileDeclarations (out : List SymbolMatch) (paths : List P) :
    paths.foldl (collectFileDeclarations workspace) out =
      out ++ paths.flatMap (declarationsOf workspace) := by
  induction paths generalizing out with
  | nil => exact (List.append_nil out).symm
  | cons path rest ih =>
      rw [List.foldl_cons, ih, collectFileDeclarations_eq, List.flatMap_cons,
        List.append_assoc]

theorem foldl_collectGenerated (index : SyntaxIndex) (paths : List P) :
    (paths.foldl (collectGenerated workspace) index).found =
        index.found ++ paths.flatMap (declarationsOf workspace) ∧
      ∀ name, name ∈ (paths.foldl (collectGenerated workspace) index).generated ↔
        name ∈ index.generated ∨ ∃ path ∈ paths, workspace.display path = name ∧
          declarationsOf workspace path ≠ [] := by
  induction paths generalizing index with
  | nil => exact ⟨(List.append_nil _).symm, fun name => by simp⟩
  | cons path rest ih =>
      obtain ⟨hfound, hgenerated⟩ := ih (collectGenerated workspace index path)
      have hone : (collectGenerated workspace index path).found =
          index.found ++ declarationsOf workspace path :=
        collectFileDeclarations_eq workspace index.found path
      have hgrew : index.found.length <
          (collectFileDeclarations workspace index.found path).length ↔
            declarationsOf workspace path ≠ [] := by
        rw [collectFileDeclarations_eq, List.length_append, Nat.lt_add_right_iff_pos,
          List.length_pos_iff]
      constructor
      · rw [List.foldl_cons, hfound, hone, List.flatMap_cons, List.append_assoc]
      · intro name
        rw [List.foldl_cons, hgenerated name, collectGenerated, List.exists_mem_cons_iff]
        by_cases hnew : declarationsOf workspace path ≠ []
        · rw [if_pos (hgrew.mpr hnew), Finset.mem_insert]
          simp only [hnew, ne_eq, not_false_eq_true, and_true]
          tauto
        · rw [if_neg (hnew ∘ hgrew.mp)]
          simp only [hnew, and_false, false_or]

/-- The index lists the declarations of the walked files and then of the generated ones. -/
theorem found_gatherSyntaxIndex (kotlin generated : List P) :
    (gatherSyntaxIndex workspace kotlin generated).found =
      (kotlin ++ generated).flatMap (declarationsOf workspace) := by
  rw [gatherSyntaxIndex, (foldl_collectGenerated workspace _ generated).1,
    foldl_collectFileDeclarations, List.nil_append, List.flatMap_append]

theorem mem_generated_gatherSyntaxIndex (kotlin generated : List P) (name : String) :
    name ∈ (gatherSyntaxIndex workspace kotlin generated).generated ↔
      ∃ path ∈ generated, workspace.display path = name ∧
        declarationsOf workspace path ≠ [] := by
  rw [gatherSyntaxIndex, (foldl_collectGenerated workspace _ generated).2]
  exact or_iff_right (Finset.notMem_empty name)

theorem path_of_mem_gatherDeclarations {package : Option String} {path : String}
    {declarations : List Declaration} {ancestors : List String} {found : SymbolMatch}
    (hfound : found ∈ gatherDeclarations package path declarations ancestors) :
    found.path = path := by
  rw [gatherDeclarations_eq] at hfound
  obtain ⟨around, -, hfound⟩ := List.mem_flatMap.mp hfound
  rcases List.mem_append.mp hfound with hown | hproperty
  · rw [ownMatches] at hown
    split_ifs at hown with hname
    · rw [List.mem_singleton.mp hown]
      rfl
    · cases hown
  · obtain ⟨property, -, rfl⟩ := List.mem_map.mp hproperty
    rfl

theorem path_of_mem_declarationsOf {path : P} {found : SymbolMatch}
    (hfound : found ∈ declarationsOf workspace path) :
    found.path = workspace.display path := by
  rw [declarationsOf, collectFileDeclarations] at hfound
  cases hread : workspace.read path with
  | none => simp [hread] at hfound
  | some source =>
      simp only [hread] at hfound
      cases hfile : extract workspace.alphanumeric workspace.parse (workspace.display path)
          source with
      | error => simp [hfile] at hfound
      | ok skeleton =>
          simp only [hfile, List.nil_append] at hfound
          exact path_of_mem_gatherDeclarations hfound

variable {kotlin generated : List P}

/-- A row is marked as generated exactly where its declaration is one of a generated file, unless
another generated file is displayed like its own. -/
theorem generated_resolvedFromMatch {path : P}
    (halone : ∀ other ∈ generated, workspace.display other = workspace.display path →
      other = path)
    {found : SymbolMatch} (hfound : found ∈ declarationsOf workspace path) :
    (resolvedFromMatch (gatherSyntaxIndex workspace kotlin generated).generated
      found).generated = true ↔ path ∈ generated := by
  rw [resolvedFromMatch, decide_eq_true_iff, mem_generated_gatherSyntaxIndex,
    path_of_mem_declarationsOf workspace hfound]
  constructor
  · rintro ⟨other, hother, hsame, -⟩
    rwa [← halone other hother hsame]
  · exact fun hpath => ⟨path, hpath, rfl, List.ne_nil_of_mem hfound⟩

end Index

/-! ## What a search answers -/

section Answers

variable {P : Type} (containsJson : List ResolvedSymbol → ℕ → Except CommandError String)
  (workspace : Workspace P) (request : Request) (kotlin generated : List P)

/-- Every named declaration of the files that are read. -/
def declared : List SymbolMatch := (kotlin ++ generated).flatMap (declarationsOf workspace)

/-- A declaration as a row of the answer. -/
def row (found : SymbolMatch) : ResolvedSymbol :=
  resolvedFromMatch (gatherSyntaxIndex workspace kotlin generated).generated found

/-- An answer that shows the first of the declarations that are wanted, in the order of a
key, and counts the others. -/
structure Answers {K : Type} [LinearOrder K] (key : SymbolMatch → K)
    (wanted : SymbolMatch → Bool) (answer : Except CommandError SymbolsOutcome)
    (shown hidden : List SymbolMatch) : Prop where
  complete : (shown ++ hidden).Perm ((declared workspace kotlin generated).filter wanted)
  ordered : (shown ++ hidden).Pairwise (key · ≤ key ·)
  limited : shown.length =
    min (request.limit.getD defaultContainsLimit) (shown.length + hidden.length)
  rendered : answer = renderListing containsJson request
    (shown.map (row workspace kotlin generated)) hidden.length

theorem presentRanked_of_none {ranked : List SymbolMatch} {marked : Finset String}
    {noneGenerated : Bool} (hnone : ∀ found ∈ ranked, ofKind request found = false) :
    presentRanked containsJson request ranked marked noneGenerated =
      .error (noSymbolScoped request.query noneGenerated) := by
  have hempty : ranked.filter (ofKind request) = [] :=
    List.filter_eq_nil_iff.mpr fun found hfound => by simp [hnone found hfound]
  rw [presentRanked, hempty]
  rfl

/-- What is shown of a ranked list, and what is left. -/
theorem presentRanked_of_some {ranked : List SymbolMatch} {marked : Finset String}
    {noneGenerated : Bool} {found : SymbolMatch} (hfound : found ∈ ranked)
    (hkind : ofKind request found = true) :
    ∃ shown hidden, ranked.filter (ofKind request) = shown ++ hidden ∧
      shown.length =
        min (request.limit.getD defaultContainsLimit) (shown.length + hidden.length) ∧
      presentRanked containsJson request ranked marked noneGenerated =
        renderListing containsJson request (shown.map (resolvedFromMatch marked))
          hidden.length := by
  set wanted := ranked.filter (ofKind request)
  set count := min (request.limit.getD defaultContainsLimit) wanted.length with hcount
  have hwanted : found ∈ wanted := List.mem_filter.mpr ⟨hfound, hkind⟩
  have hle : count ≤ wanted.length := min_le_right _ _
  refine ⟨wanted.take count, wanted.drop count, (List.take_append_drop _ _).symm, ?_, ?_⟩
  · rw [List.length_take_of_le hle, List.length_drop, Nat.add_sub_cancel' hle]
  · rw [presentRanked, if_neg, List.length_drop]
    rw [List.isEmpty_iff]
    exact List.ne_nil_of_mem hwanted

/-- A search over a list in the order of a key. -/
theorem answers_of_sorted {K : Type} [LinearOrder K] (key : SymbolMatch → K)
    (kept : SymbolMatch → Bool) (noneGenerated : Bool)
    (hsome : ∃ found ∈ declared workspace kotlin generated,
      kept found = true ∧ ofKind request found = true) :
    ∃ shown hidden,
      (sortByKey key ((declared workspace kotlin generated).filter kept)).filter
          (ofKind request) = shown ++ hidden ∧
      Answers containsJson workspace request kotlin generated key
        (fun found => ofKind request found && kept found)
        (presentRanked containsJson request
          (sortByKey key ((declared workspace kotlin generated).filter kept))
          (gatherSyntaxIndex workspace kotlin generated).generated noneGenerated)
        shown hidden := by
  have hsort := stableSort_sortByKey key ((declared workspace kotlin generated).filter kept)
  obtain ⟨found, hfound, hkept, hkind⟩ := hsome
  have hranked := (hsort.mem_iff found).mpr (List.mem_filter.mpr ⟨hfound, hkept⟩)
  obtain ⟨shown, hidden, hwanted, hlimited, hrendered⟩ :=
    presentRanked_of_some containsJson request hranked hkind
  refine ⟨shown, hidden, hwanted, ?_, ?_, hlimited, hrendered⟩
  · rw [← hwanted, ← List.filter_filter]
    exact hsort.perm.filter _
  · rw [← hwanted]
    exact hsort.ordered.sublist List.filter_sublist

end Answers

section Search

variable {P : Type} (containsJson : List ResolvedSymbol → ℕ → Except CommandError String)
  (workspace : Workspace P) (request : Request) {kotlin generated : List P}

/-- What a search keeps: a name that holds the query, of the kind asked for. -/
def contained (found : SymbolMatch) : Bool :=
  ofKind request found && containsText found.simpleName request.query

/-- What the fallback keeps: the very name, of the kind asked for. -/
def named (found : SymbolMatch) : Bool :=
  ofKind request found && decide (found.simpleName = request.query)

theorem containedDeclarations_gather :
    containedDeclarations request.query (gatherSyntaxIndex workspace kotlin generated).found =
      sortByKey (matchRank request.query) ((declared workspace kotlin generated).filter
        fun found => containsText found.simpleName request.query) := by
  rw [containedDeclarations, found_gatherSyntaxIndex]
  rfl

theorem exactDeclarations_gather :
    exactDeclarations request.query (gatherSyntaxIndex workspace kotlin generated).found =
      sortByKey place ((declared workspace kotlin generated).filter
        fun found => found.simpleName = request.query) := by
  rw [exactDeclarations, found_gatherSyntaxIndex]
  rfl

/-- A rank tells the path. -/
theorem filter_rank_of_path (candidates : List SymbolMatch) (kept : SymbolMatch → Bool)
    (wanted : ℕ ×ₗ ℕ ×ₗ String ×ₗ String ×ₗ ℕ) :
    (candidates.filter kept).filter (matchRank request.query · = wanted) =
      ((candidates.filter (SymbolMatch.path · = (ofLex (ofLex (ofLex (ofLex wanted).2).2).2).1)
        ).filter kept).filter (matchRank request.query · = wanted) := by
  rw [List.filter_filter, List.filter_filter, List.filter_filter]
  apply List.filter_congr
  intro found _
  by_cases hrank : matchRank request.query found = wanted
  · subst hrank
    simp [matchRank, place]
  · simp [hrank]

/-- In whatever order the files come, a search ranks their declarations alike. -/
theorem containedDeclarations_of_perm {others moreGenerated : List P}
    (hkotlin : others.Perm kotlin) (hgenerated : moreGenerated.Perm generated)
    (hdisplays : ((kotlin ++ generated).map workspace.display).Nodup) :
    containedDeclarations request.query
        (gatherSyntaxIndex workspace others moreGenerated).found =
      containedDeclarations request.query
        (gatherSyntaxIndex workspace kotlin generated).found := by
  rw [containedDeclarations_gather, containedDeclarations_gather]
  apply sortByKey_eq_of_filter
  intro wanted
  have hperm : (others ++ moreGenerated).Perm (kotlin ++ generated) := hkotlin.append hgenerated
  rw [filter_rank_of_path, filter_rank_of_path request (declared workspace kotlin generated),
    declared, declared, filter_flatMap_of_perm hperm hdisplays fun _ _ =>
      path_of_mem_declarationsOf workspace]

theorem generated_of_perm {others moreGenerated : List P}
    (hgenerated : moreGenerated.Perm generated) :
    (gatherSyntaxIndex workspace others moreGenerated).generated =
      (gatherSyntaxIndex workspace kotlin generated).generated := by
  ext name
  rw [mem_generated_gatherSyntaxIndex, mem_generated_gatherSyntaxIndex]
  exact exists_congr fun path => and_congr_left fun _ => hgenerated.mem_iff

/-- A search lists every declaration of every file that is read, whose name holds the query
and whose kind is asked for: the first in rank order, the others counted, and those of
generated files marked.  Where no two files are displayed alike, it answers the same in
whatever order they come. -/
theorem contained_accounts {others moreGenerated : List P} (hkotlin : others.Perm kotlin)
    (hgenerated : moreGenerated.Perm generated) :
    (((kotlin ++ generated).map workspace.display).Nodup →
        presentContained containsJson workspace request others moreGenerated =
          presentContained containsJson workspace request kotlin generated) ∧
      ((∀ found ∈ declared workspace kotlin generated, contained request found = false) →
        presentContained containsJson workspace request kotlin generated =
          .error (noSymbolScoped request.query generated.isEmpty)) ∧
      ((∃ found ∈ declared workspace kotlin generated, contained request found = true) →
        ∃ shown hidden, Answers containsJson workspace request kotlin generated
          (matchRank request.query) (contained request)
          (presentContained containsJson workspace request kotlin generated) shown hidden) ∧
      ∀ path, (∀ other ∈ generated, workspace.display other = workspace.display path →
          other = path) →
        ∀ found ∈ declarationsOf workspace path,
          ((row workspace kotlin generated found).generated = true ↔ path ∈ generated) := by
  refine ⟨fun hdisplays => ?_, fun hnone => ?_, fun hsome => ?_,
    fun path halone found hfound => generated_resolvedFromMatch workspace halone hfound⟩
  · have hempty : moreGenerated.isEmpty = generated.isEmpty := by
      rw [Bool.eq_iff_iff, List.isEmpty_iff, List.isEmpty_iff, ← List.length_eq_zero_iff,
        hgenerated.length_eq, List.length_eq_zero_iff]
    rw [presentContained, presentContained,
      containedDeclarations_of_perm workspace request hkotlin hgenerated hdisplays,
      generated_of_perm workspace hgenerated, hempty]
  · rw [presentContained]
    apply presentRanked_of_none
    rw [containedDeclarations_gather]
    intro found hfound
    obtain ⟨hmem, hkept⟩ :=
      List.mem_filter.mp (((stableSort_sortByKey _ _).mem_iff found).mp hfound)
    have := hnone found hmem
    rwa [contained, hkept, Bool.and_true] at this
  · rw [presentContained, containedDeclarations_gather]
    obtain ⟨found, hfound, hcontained⟩ := hsome
    obtain ⟨hkind, hkept⟩ := Bool.and_eq_true_iff.mp hcontained
    obtain ⟨shown, hidden, -, hanswers⟩ := answers_of_sorted containsJson workspace request
      kotlin generated (matchRank request.query)
      (fun found => containsText found.simpleName request.query) generated.isEmpty
      ⟨found, hfound, hkept, hkind⟩
    exact ⟨shown, hidden, hanswers⟩

/-! ## The fallback is the head of a search -/

theorem containsText_self (text : String) : containsText text text = true := by
  rw [containsText, findSubslice_of_isPrefix List.prefix_rfl]
  rfl

theorem containmentTier_eq_zero_iff (query simpleName : String) :
    containmentTier query simpleName = 0 ↔ simpleName = query := by
  rw [containmentTier]
  by_cases hname : simpleName = query
  · exact iff_of_true (if_pos hname) hname
  · rw [if_neg hname]
    split_ifs <;> simp [hname]

/-- Nothing ranks before the very name but the very name. -/
theorem named_of_matchRank_le {query : String} {found other : SymbolMatch}
    (hother : other.simpleName = query) (hle : matchRank query found ≤ matchRank query other) :
    found.simpleName = query := by
  have htier : containmentTier query other.simpleName = 0 :=
    (containmentTier_eq_zero_iff _ _).mpr hother
  have hfound : containmentTier query found.simpleName ≤ 0 := by
    rw [← htier]
    exact Prod.Lex.monotone_fst _ _ hle
  exact (containmentTier_eq_zero_iff _ _).mp (Nat.le_zero.mp hfound)

/-- Declarations of one name are ranked by where they stand. -/
theorem matchRank_le_iff {query : String} {left right : SymbolMatch}
    (hsame : left.simpleName = right.simpleName) :
    matchRank query left ≤ matchRank query right ↔ place left ≤ place right := by
  rw [matchRank, matchRank, hsame, Prod.Lex.toLex_le_toLex, Prod.Lex.toLex_le_toLex]
  simp

variable (kotlin generated)

/-- The fallback lists what heads a search for the same query. -/
theorem exactDeclarations_eq_takeWhile :
    (exactDeclarations request.query
        (gatherSyntaxIndex workspace kotlin generated).found).filter (ofKind request) =
      ((containedDeclarations request.query
        (gatherSyntaxIndex workspace kotlin generated).found).filter
          (ofKind request)).takeWhile fun found => found.simpleName = request.query := by
  have hsort := stableSort_sortByKey (matchRank request.query)
    ((declared workspace kotlin generated).filter fun found =>
      containsText found.simpleName request.query)
  have hexact : ((declared workspace kotlin generated).filter fun found =>
      containsText found.simpleName request.query).filter
        (fun found => found.simpleName = request.query) =
      (declared workspace kotlin generated).filter
        fun found => found.simpleName = request.query := by
    rw [List.filter_filter]
    apply List.filter_congr
    intro found _
    by_cases hname : found.simpleName = request.query
    · simp [hname, containsText_self]
    · simp [hname]
  have hplaced : sortByKey place ((declared workspace kotlin generated).filter
      fun found => found.simpleName = request.query) =
      sortByKey (matchRank request.query) ((declared workspace kotlin generated).filter
        fun found => found.simpleName = request.query) := by
    apply (sortByKey_congr _).symm
    intro left hleft right hright
    exact matchRank_le_iff ((of_decide_eq_true (List.mem_filter.mp hleft).2).trans
      (of_decide_eq_true (List.mem_filter.mp hright).2).symm)
  rw [exactDeclarations_gather, containedDeclarations_gather, hplaced, ← hexact,
    ← filter_sortByKey, List.filter_comm]
  exact (takeWhile_eq_filter_of_ordered (hsort.ordered.sublist List.filter_sublist)
    fun found other hother hle => decide_eq_true
      (named_of_matchRank_le (of_decide_eq_true hother) hle)).symm

/-- The fallback for a name answers with the rows that head a search for it: it lists the
declarations of that very name, and where there are none says so. -/
theorem exact_heads_contained :
    ((∀ found ∈ declared workspace kotlin generated, named request found = false) →
      presentExactFromSyntaxIndex containsJson workspace request kotlin generated =
        .error (noSymbolScoped request.query generated.isEmpty)) ∧
    ((∃ found ∈ declared workspace kotlin generated, named request found = true) →
      ∃ shownExact hiddenExact shown hidden,
        Answers containsJson workspace request kotlin generated place (named request)
          (presentExactFromSyntaxIndex containsJson workspace request kotlin generated)
          shownExact hiddenExact ∧
        Answers containsJson workspace request kotlin generated (matchRank request.query)
          (contained request)
          (presentContained containsJson workspace request kotlin generated) shown hidden ∧
        shownExact ++ hiddenExact =
          (shown ++ hidden).takeWhile (fun found => found.simpleName = request.query) ∧
        shownExact <+: shown) := by
  constructor
  · intro hnone
    rw [presentExactFromSyntaxIndex]
    apply presentRanked_of_none
    rw [exactDeclarations_gather]
    intro found hfound
    obtain ⟨hmem, hname⟩ :=
      List.mem_filter.mp (((stableSort_sortByKey _ _).mem_iff found).mp hfound)
    have hnamed := hnone found hmem
    rwa [named, hname, Bool.and_true] at hnamed
  · rintro ⟨found, hfound, hnamed⟩
    obtain ⟨hkind, hname⟩ := Bool.and_eq_true_iff.mp hnamed
    have hkept : containsText found.simpleName request.query = true := by
      rw [of_decide_eq_true hname]
      exact containsText_self _
    obtain ⟨shownExact, hiddenExact, hexact, hexactly⟩ := answers_of_sorted containsJson
      workspace request kotlin generated place
      (fun found => found.simpleName = request.query) generated.isEmpty
      ⟨found, hfound, hname, hkind⟩
    obtain ⟨shown, hidden, hranked, hanswers⟩ := answers_of_sorted containsJson workspace
      request kotlin generated (matchRank request.query)
      (fun found => containsText found.simpleName request.query) generated.isEmpty
      ⟨found, hfound, hkept, hkind⟩
    have hheads : shownExact ++ hiddenExact =
        (shown ++ hidden).takeWhile (fun found => found.simpleName = request.query) := by
      rw [← hexact, ← hranked, ← exactDeclarations_gather, ← containedDeclarations_gather]
      exact exactDeclarations_eq_takeWhile workspace request kotlin generated
    refine ⟨shownExact, hiddenExact, shown, hidden, ?_, ?_, hheads, ?_⟩
    · rw [presentExactFromSyntaxIndex, exactDeclarations_gather]
      exact hexactly
    · rw [presentContained, containedDeclarations_gather]
      exact hanswers
    · have hprefix : shownExact ++ hiddenExact <+: shown ++ hidden :=
        hheads ▸ List.takeWhile_prefix _
      apply List.prefix_of_prefix_length_le ((List.prefix_append _ _).trans hprefix)
        (List.prefix_append _ _)
      rw [hexactly.limited, hanswers.limited, ← List.length_append, ← List.length_append]
      exact min_le_min_left _ hprefix.length_le

end Search

/-! Two files that are walked and a generated one, each with the same class. -/

def auditedFiles : Workspace String :=
  ⟨fun _ => some auditedTree.root.text, id, parseAudited, Alphanumeric.onAscii⟩

def classRequest : Request := ⟨"A", some .classKind, some 2, .md⟩

theorem contained_accounts_audited :
    presentContained (fun _ _ => .ok "") auditedFiles classRequest ["C.kt", "A.kt"] ["B.kt"] =
        presentContained (fun _ _ => .ok "") auditedFiles classRequest ["A.kt", "C.kt"]
          ["B.kt"] ∧
      ∀ found ∈ declarationsOf auditedFiles "B.kt",
        (row auditedFiles ["A.kt", "C.kt"] ["B.kt"] found).generated = true := by
  have hswap : List.Perm ["C.kt", "A.kt"] ["A.kt", "C.kt"] := List.Perm.swap _ _ _
  have hdisplays : ((["A.kt", "C.kt"] ++ ["B.kt"]).map auditedFiles.display).Nodup := by decide
  obtain ⟨hsame, -, -, hmarked⟩ := contained_accounts (fun _ _ => .ok "") auditedFiles
    classRequest hswap (List.Perm.refl ["B.kt"])
  have halone : ∀ other ∈ ["B.kt"], auditedFiles.display other = auditedFiles.display "B.kt" →
      other = "B.kt" := fun other hother _ => List.mem_singleton.mp hother
  exact ⟨hsame hdisplays, fun found hfound =>
    (hmarked "B.kt" halone found hfound).mpr List.mem_cons_self⟩

end Ktsense.Cli.SymbolSearch
