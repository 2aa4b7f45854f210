import Ktsense.Core.RepoMap
import Ktsense.Foundation.Tally
import Ktsense.Syntax.ExtractShape

/-!
# Counting identifiers

`identifiers.rs`: the walk of each file with a stack, and the counts by name that rank the
declarations of a map.  The counts do not depend on the order of the walk or of the files,
and every declared name is counted at least as often as it is declared.
-/

namespace Ktsense.Cli.Identifiers

open Ktsense.Foundation Ktsense.Core Ktsense.Core.Layout Ktsense.Syntax
open Ktsense.Syntax.Node

def identifierKinds : List String := ["simple_identifier", "type_identifier"]

def nonReferenceSubtrees : List String := ["import_header", "package_header"]

/-- Whether the walk goes on below a node. -/
def opens (node : Node) : Bool :=
  node.kind ∉ nonReferenceSubtrees && node.kind ∉ identifierKinds

def isReference (node : Node) : Bool :=
  node.kind ∉ nonReferenceSubtrees && node.kind ∈ identifierKinds

def visitNode (counts : ReferenceCounts) (node : Node) : ReferenceCounts :=
  if isReference node then counts.bump node.text else counts

/-- The walk of one file.  The fuel is more than the nodes there are. -/
def countInto (parse : String → Option Tree) (counts : ReferenceCounts) (source : String) :
    Option ReferenceCounts :=
  match parse source with
  | none => some counts
  | some tree =>
      runLoop (Rose.stackTurn opens visitNode) (tree.root.preorder.length + 1)
        (counts, [tree.root])

section Corpus

variable {Path : Type*} (read : Path → Option String) (parse : String → Option Tree)

/-- A file that is not read or parsed contributes nothing. -/
def countIdentifiers (sources : List Path) : Option ReferenceCounts :=
  sources.foldlM (fun counts path =>
    match read path with
    | none => some counts
    | some source => countInto parse counts source) .empty

/-! ## What is counted -/

/-- The identifiers at and below a node that are no headers, in order. -/
def identifiers (node : Node) : List String :=
  ((node.visit opens).filter isReference).map text

def fileIdentifiers (source : String) : List String :=
  (parse source).elim [] fun tree => identifiers tree.root

def corpusIdentifiers (sources : List Path) : List String :=
  sources.flatMap fun path => (read path).elim [] (fileIdentifiers parse)

theorem foldl_visitNode (counts : ReferenceCounts) (nodes : List Node) :
    nodes.foldl visitNode counts =
      ((nodes.filter isReference).map text).foldl OrderedMap.bump counts := by
  induction nodes generalizing counts with
  | nil => rfl
  | cons node rest ih =>
      rw [List.foldl_cons, ih, visitNode, List.filter_cons]
      split_ifs <;> rfl

/-- The walk of a file ends, and counts its identifiers. -/
theorem countInto_eq (counts : ReferenceCounts) (source : String) :
    countInto parse counts source =
      some ((fileIdentifiers parse source).foldl OrderedMap.bump counts) := by
  rw [countInto, fileIdentifiers]
  cases parse source with
  | none => rfl
  | some tree =>
      have hperm := ((Rose.visitBack_perm opens tree.root).filter isReference).map text
      have hwalk := Rose.stackWalk_eq opens visitNode counts tree.root
      rw [foldl_visitNode, OrderedMap.foldl_bump_perm counts hperm] at hwalk
      exact hwalk

theorem countIdentifiers_eq (sources : List Path) :
    countIdentifiers read parse sources =
      some ((corpusIdentifiers read parse sources).foldl OrderedMap.bump .empty) := by
  rw [countIdentifiers, corpusIdentifiers]
  generalize (.empty : ReferenceCounts) = counts
  induction sources generalizing counts with
  | nil => rfl
  | cons path rest ih =>
      rw [List.foldlM_cons, List.flatMap_cons, List.foldl_append]
      cases hread : read path with
      | none => exact ih counts
      | some source =>
          simp only [Option.elim_some, countInto_eq parse counts source]
          exact ih _

/-- The counts are those of the identifiers outside headers in all files, whichever way the
files are ordered. -/
theorem countIdentifiers_exact (sources : List Path) :
    ∃ counts, countIdentifiers read parse sources = some counts ∧
      (∀ name, counts.get? name =
        if name ∈ corpusIdentifiers read parse sources then
          some ((corpusIdentifiers read parse sources).count name)
        else none) ∧
      ∀ other : List Path, other.Perm sources →
        countIdentifiers read parse other = some counts := by
  refine ⟨_, countIdentifiers_eq read parse sources, fun name => ?_, fun other hperm => ?_⟩
  · rw [OrderedMap.get?_foldl_bump, OrderedMap.countOf, OrderedMap.get?_empty,
      Option.getD_none, Nat.zero_add]
  · rw [countIdentifiers_eq]
    exact congrArg some (OrderedMap.foldl_bump_perm _ (hperm.flatMap_right _))

end Corpus

/-! ## Declared names -/

/-- The name a declaration is counted under. -/
def ownName (declaration : Declaration) : List String :=
  if declaration.kind = .constructor ∨ declaration.name = "" then [] else [declaration.name]

theorem identifiers_of_opens {node : Node} (hopens : opens node = true) :
    identifiers node = node.children.flatMap identifiers := by
  have hnone : isReference node = false := by
    rw [opens, Bool.and_eq_true] at hopens
    rw [isReference, hopens.1, Bool.true_and]
    simpa using hopens.2
  rw [identifiers, Rose.visit_eq, if_pos hopens, List.filter_cons, hnone, if_neg (by simp),
    List.filter_flatMap, List.map_flatMap]
  rfl

theorem identifiers_of_kind {node : Node}
    (hkind : node.kind ∈ ["simple_identifier", "type_identifier"]) :
    identifiers node = [node.text] := by
  have hreference : isReference node = true ∧ opens node = false := by
    rw [isReference, opens]
    simp only [List.mem_cons, List.not_mem_nil, or_false] at hkind
    rcases hkind with hkind | hkind <;> rw [hkind] <;> decide
  rw [identifiers, Rose.visit_eq, hreference.2, if_neg (by simp), List.filter_cons,
    hreference.1]
  rfl

/-- The names of the declarations are identifiers of their nodes, in order. -/
theorem names_covered : Covers ownName identifiers where
  container {bodyOf node declaration} hcontainer hleads := by
    have hopens : opens node = true := by
      have hkind := hcontainer.kind
      simp only [holdsMembers, List.mem_cons, List.not_mem_nil, or_false,
        decide_eq_true_eq] at hkind
      rw [opens]
      rcases hkind with hkind | hkind | hkind <;> rw [hkind] <;> decide
    rw [identifiers_of_opens hopens]
    cases hname : node.firstChildOfKind "type_identifier" with
    | none =>
        have hempty : declaration.name = "" := by
          rw [hcontainer.name, hname]
          rfl
        rw [ownName, if_pos (.inr hempty), List.nil_append]
        exact body_sublist identifiers node
    | some name =>
        have htext : declaration.name = name.text := by
          rw [hcontainer.name, hname]
          rfl
        have hread : (ownName declaration).Sublist (identifiers name) := by
          rw [identifiers_of_kind (by rw [kind_of_firstChildOfKind hname]; decide), ownName,
            htext]
          split_ifs
          · exact List.nil_sublist _
          · exact List.Sublist.refl _
        exact name_body_sublist identifiers hleads hcontainer.kind hname hread
  leaf {node declaration} hleaf := by
    have hopens : ∀ {inner : Node},
        inner.kind ∈ "variable_declaration" :: declarationKinds → opens inner = true := by
      intro inner hkind
      simp only [declarationKinds, List.mem_cons, List.not_mem_nil, or_false] at hkind
      rw [opens]
      rcases hkind with h | h | h | h | h | h | h | h | h <;> rw [h] <;> decide
    rw [ownName]
    split_ifs with hnone
    · exact List.nil_sublist _
    · rw [not_or] at hnone
      obtain ⟨name, ⟨hkind, hplace⟩, htext⟩ :=
        (hleaf.name.resolve_left hnone.1).resolve_left hnone.2
      have hname := identifiers_of_kind hkind
      rw [htext, ← hname, identifiers_of_opens (hopens (List.mem_cons_of_mem _ hleaf.kind.1))]
      rcases hplace with hchild | ⟨between, hbetween, hvariable, hchild⟩
      · exact sublist_flatMap_of_mem identifiers hchild
      · refine List.Sublist.trans ?_ (sublist_flatMap_of_mem identifiers hbetween)
        have hopened : opens between = true :=
          hopens (List.mem_cons.mpr (.inl hvariable))
        rw [identifiers_of_opens hopened]
        exact sublist_flatMap_of_mem identifiers hchild
  body {node body} hbody := by
    have hopens : opens body = true := by
      rw [bodyNode, Option.or_eq_some_iff] at hbody
      rw [opens]
      rcases hbody with hclass | ⟨_, henum⟩
      · rw [kind_of_firstChildOfKind hclass]
        decide
      · rw [kind_of_firstChildOfKind henum]
        decide
    rw [identifiers_of_opens hopens]

section Declared

variable {Path : Type*} {alphanumeric : Alphanumeric} {read : Path → Option String}
  {parse : String → Option Tree} {display : Path → String}

/-- `skeleton_for_deps`. -/
def skeletonForDeps (alphanumeric : Alphanumeric) (read : Path → Option String)
    (parse : String → Option Tree) (display : Path → String) (path : Path) :
    Option FileSkeleton :=
  (read path).bind fun source =>
    (extract alphanumeric parse (display path) source).toOption

/-- What is counted on of a parser: its trees are well placed below a root of a file. -/
structure ParsesFiles (parse : String → Option Tree) : Prop where
  placed : ∀ source, ∀ tree ∈ parse source, WellPlaced tree.root
  root : ∀ source, ∀ tree ∈ parse source, tree.root.kind ∈ ["source_file", "ERROR"]

/-- The declared names of a file are among its identifiers, in order. -/
theorem declaredNames_sublist (hparse : ParsesFiles parse) (path : Path) :
    ((skeletonForDeps alphanumeric read parse display path).elim []
      fun file => readOff ownName file.declarations).Sublist
        ((read path).elim [] (fileIdentifiers parse)) := by
  rw [skeletonForDeps]
  cases read path with
  | none => exact List.nil_sublist _
  | some source =>
      rw [Option.bind_some, Option.elim_some]
      cases hfile : extract alphanumeric parse (display path) source with
      | error => exact List.nil_sublist _
      | ok file =>
          obtain ⟨tree, htree, htop⟩ := extract_eq_ok hfile
          have hdeclarations : file.declarations = (topLevel alphanumeric tree.root).1 :=
            congrArg Prod.fst htop
          have hopens : opens tree.root = true := by
            have hkind := hparse.root source tree htree
            simp only [List.mem_cons, List.not_mem_nil, or_false] at hkind
            rw [opens]
            rcases hkind with hkind | hkind <;> rw [hkind] <;> decide
          rw [fileIdentifiers, htree, Option.elim_some, identifiers_of_opens hopens]
          rw [Except.toOption, Option.elim_some, hdeclarations]
          exact topLevel_covered names_covered (hparse.placed source tree htree).names

/-- In the counts that rank a map, a name counts at least once for every declaration of
that name in the skeletons of the same files. -/
theorem declared_names_counted (hparse : ParsesFiles parse) {sources : List Path}
    {counts : ReferenceCounts} (hcounts : countIdentifiers read parse sources = some counts)
    (name : String) :
    ((sources.filterMap (skeletonForDeps alphanumeric read parse display)).flatMap
      fun file => readOff ownName file.declarations).count name ≤ counts.countOf name := by
  rw [countIdentifiers_eq] at hcounts
  cases hcounts
  rw [OrderedMap.countOf_foldl_bump, OrderedMap.countOf, OrderedMap.get?_empty,
    Option.getD_none, Nat.zero_add]
  refine List.Sublist.count_le name ?_
  rw [corpusIdentifiers]
  induction sources with
  | nil => exact List.Sublist.refl _
  | cons path rest ih =>
      have hfirst : ((skeletonForDeps alphanumeric read parse display path).elim []
          fun file => readOff ownName file.declarations).Sublist _ :=
        declaredNames_sublist hparse path
      rw [List.filterMap_cons, List.flatMap_cons]
      cases hskeleton : skeletonForDeps alphanumeric read parse display path with
      | none => exact ih.trans (List.sublist_append_right _ _)
      | some file =>
          rw [hskeleton, Option.elim_some] at hfirst
          exact hfirst.append ih

theorem parseClass_parsesFiles : ParsesFiles parseClass where
  placed source tree htree := by
    rw [parseClass_eq_some htree]
    exact classTree_wellPlaced
  root source tree htree := by
    rw [parseClass_eq_some htree]
    decide

theorem declared_names_counted_class :
    ∃ counts, countIdentifiers some parseClass [classTree.root.text] = some counts ∧
      (([classTree.root.text].filterMap
        (skeletonForDeps Alphanumeric.onAscii some parseClass fun _ => "A.kt")).flatMap
          fun file => readOff ownName file.declarations).count "A" ≤ counts.countOf "A" := by
  obtain ⟨counts, hcounts, _⟩ :=
    countIdentifiers_exact some parseClass [classTree.root.text]
  exact ⟨counts, hcounts, declared_names_counted parseClass_parsesFiles hcounts "A"⟩

end Declared

end Ktsense.Cli.Identifiers
