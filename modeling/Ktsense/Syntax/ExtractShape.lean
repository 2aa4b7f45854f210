import Ktsense.Core.Enclosure
import Ktsense.Core.OutlineAccounting
import Ktsense.Syntax.Extract

/-!
# What every extracted skeleton looks like

The lines of the extracted declarations are lines of nodes in the order of the tree, so
they never descend where the parser's rows do not.  Only containers have children, and
none is deeper than the bound.
-/

namespace Ktsense.Syntax

open Ktsense.Foundation Ktsense.Core Ktsense.Core.Layout Node

/-! ## What one node declares -/

/-- The node kinds the extractor turns into declarations. -/
def declarationKinds : List String :=
  ["class_declaration", "object_declaration", "companion_object", "function_declaration",
    "property_declaration", "type_alias", "enum_entry", "secondary_constructor"]

section Declares

variable (bodyOf : Node → List Declaration × Bool) (node : Node)

/-- A container is placed on its name and has what its body holds. -/
structure DeclaresContainer (declaration : Declaration) : Prop where
  kind : holdsMembers node.kind = true
  container : declaration.isContainer = true
  name : declaration.name = nameText (node.firstChildOfKind "type_identifier")
  line : declaration.line = ((node.firstChildOfKind "type_identifier").getD node).lineOf
  children : declaration.children = (bodyOf node).1

/-- The identifier a declaration is named with: a child of its node, or of the variable
there. -/
def NamesDeclaration (name : Node) : Prop :=
  name.kind ∈ ["simple_identifier", "type_identifier"] ∧
    (name ∈ node.children ∨
      ∃ variableNode ∈ node.children, kind variableNode = "variable_declaration" ∧
        name ∈ variableNode.children)

/-- Anything else is placed somewhere in its node and has no children. -/
structure DeclaresLeaf (declaration : Declaration) : Prop where
  kind : node.kind ∈ declarationKinds ∧ holdsMembers node.kind = false
  name : declaration.kind = .constructor ∨ declaration.name = "" ∨
    ∃ name, NamesDeclaration node name ∧ declaration.name = name.text
  line : ∃ name ∈ node.preorder, declaration.line = lineOf name
  entry : declaration.kind = .enumEntry →
    declaration.doc = none ∧ declaration.annotations = []
  children : declaration.children = []

inductive Declares : Option Declaration × Bool → Prop where
  | container {declaration : Declaration} (h : DeclaresContainer bodyOf node declaration) :
      Declares (some declaration, (bodyOf node).2)
  | leaf {declaration : Declaration} (h : DeclaresLeaf node declaration) :
      Declares (some declaration, false)
  | nothing (kind : holdsMembers node.kind = false) : Declares (none, false)

end Declares

theorem mem_preorder_of_mem_children {node child : Node} (hchild : child ∈ node.children) :
    child ∈ node.preorder :=
  Rose.mem_preorder_of_child hchild child.self_mem_preorder

/-- The name of a declaration or the node itself is in the node. -/
theorem getD_mem_preorder (node : Node) (kind : String) :
    (node.firstChildOfKind kind).getD node ∈ node.preorder := by
  cases hname : node.firstChildOfKind kind with
  | none => exact node.self_mem_preorder
  | some name => exact mem_preorder_of_mem_children (mem_of_firstChildOfKind hname)

/-- A first child of an identifier's kind names the declaration, where there is one. -/
theorem nameText_firstChildOfKind (node : Node) (kind : String)
    (hkind : kind ∈ ["simple_identifier", "type_identifier"]) :
    nameText (node.firstChildOfKind kind) = "" ∨
      ∃ name, NamesDeclaration node name ∧ nameText (node.firstChildOfKind kind) = name.text := by
  cases hname : node.firstChildOfKind kind with
  | none => exact .inl rfl
  | some name =>
      have hnamed : name.kind ∈ ["simple_identifier", "type_identifier"] := by
        rw [kind_of_firstChildOfKind hname]
        exact hkind
      exact .inr ⟨name, ⟨hnamed, .inl (mem_of_firstChildOfKind hname)⟩, rfl⟩

section Extracting

variable {alphanumeric : Alphanumeric} {bodyOf : Node → List Declaration × Bool}
  {previous : Option Node} {node : Node}

theorem property_leaf {declaration : Declaration} (hkind : node.kind = "property_declaration")
    (hproperty : property alphanumeric previous node = some declaration) :
    DeclaresLeaf node declaration := by
  simp only [property, Option.bind_eq_bind, Option.bind_eq_some_iff] at hproperty
  obtain ⟨variableNode, hvariable, name, hname, hread⟩ := hproperty
  have hchild := mem_of_firstChildOfKind hvariable
  have hinner := mem_of_firstChildOfKind hname
  have hnames : NamesDeclaration node name := by
    refine ⟨?_, .inr ⟨variableNode, hchild, kind_of_firstChildOfKind hvariable, hinner⟩⟩
    rw [kind_of_firstChildOfKind hname]
    exact List.mem_cons_self
  have hmem : name ∈ node.preorder :=
    Rose.mem_preorder_of_child hchild (mem_preorder_of_mem_children hinner)
  cases hread
  refine ⟨by rw [hkind]; decide, .inr (.inr ⟨name, hnames, rfl⟩), ⟨name, hmem, rfl⟩,
    fun hentry => ?_, rfl⟩
  simp only [named, Declaration.new] at hentry
  split at hentry <;> cases hentry

/-- The dispatch on the kind of the node, said once. -/
theorem declares (alphanumeric : Alphanumeric) (bodyOf : Node → List Declaration × Bool)
    (previous : Option Node) (node : Node) :
    Declares bodyOf node (declarationWith alphanumeric bodyOf previous node) := by
  have hplace := fun kind => (⟨_, getD_mem_preorder node kind, rfl⟩ :
    ∃ name ∈ node.preorder, ((node.firstChildOfKind kind).getD node).lineOf = lineOf name)
  have hsimple := nameText_firstChildOfKind node "simple_identifier" (by decide)
  have htype := nameText_firstChildOfKind node "type_identifier" (by decide)
  unfold declarationWith
  split
  case h_1 hkind =>
    have hcontainer : (classKindOf node = .classKind) ∨ (classKindOf node = .interface) := by
      rw [classKindOf]
      split <;> simp
    refine .container ⟨by rw [hkind]; rfl, ?_, rfl, rfl, rfl⟩
    rw [Declaration.isContainer]
    rcases hcontainer with h | h <;> simp [classLike, declared, named, Declaration.new, h]
  case h_2 hkind => exact .container ⟨by rw [hkind]; rfl, rfl, rfl, rfl, rfl⟩
  case h_3 hkind => exact .container ⟨by rw [hkind]; rfl, rfl, rfl, rfl, rfl⟩
  case h_4 hkind =>
    exact .leaf ⟨by rw [hkind]; decide, .inr hsimple, hplace "simple_identifier",
      fun hentry => DeclKind.noConfusion hentry, rfl⟩
  case h_5 hkind =>
    cases hproperty : property alphanumeric previous node with
    | none => exact .nothing (by rw [hkind]; rfl)
    | some declaration => exact .leaf (property_leaf hkind hproperty)
  case h_6 hkind =>
    exact .leaf ⟨by rw [hkind]; decide, .inr htype, hplace "type_identifier",
      fun hentry => DeclKind.noConfusion hentry, rfl⟩
  case h_7 hkind =>
    exact .leaf ⟨by rw [hkind]; decide, .inr hsimple, hplace "simple_identifier",
      fun _ => ⟨rfl, rfl⟩, rfl⟩
  case h_8 hkind =>
    exact .leaf ⟨by rw [hkind]; decide, .inl rfl, ⟨node, node.self_mem_preorder, rfl⟩,
      fun hentry => DeclKind.noConfusion hentry, rfl⟩
  case h_9 hclass hobject hcompanion _ _ _ _ _ =>
    refine .nothing ?_
    simp only [holdsMembers, List.mem_cons, List.not_mem_nil, or_false,
      decide_eq_false_iff_not]
    rintro (h | h | h)
    · exact hclass h
    · exact hobject h
    · exact hcompanion h

end Extracting

/-! ## What is read off the declarations in order -/

/-- The name of a container comes before its body. -/
def NameLeads (node : Node) : Prop :=
  holdsMembers node.kind = true → ∀ name ∈ node.firstChildOfKind "type_identifier",
    ∀ body ∈ bodyNode node, List.Sublist [name, body] node.children

theorem bodyNode_mem {node body : Node} (hbody : bodyNode node = some body) :
    body ∈ node.children := by
  rw [bodyNode, Option.or_eq_some_iff] at hbody
  rcases hbody with hclass | ⟨_, henum⟩
  · exact mem_of_firstChildOfKind hclass
  · exact mem_of_firstChildOfKind henum

section ReadOff

variable {X : Type*} (own : Declaration → List X) (trace : Node → List X)

/-- What some declarations and those inside them have of their own, in order. -/
def readOff (declarations : List Declaration) : List X :=
  (preorder declarations).flatMap fun placed => own placed.declaration

theorem readOff_cons (declaration : Declaration) (rest : List Declaration) :
    readOff own (declaration :: rest) =
      own declaration ++ (readOff own declaration.children ++ readOff own rest) := by
  rw [readOff, preorder_cons, List.flatMap_cons, List.flatMap_append, List.flatMap_map]
  rfl

theorem readOff_singleton (declaration : Declaration) :
    readOff own [declaration] = own declaration ++ readOff own declaration.children := by
  rw [readOff_cons]
  exact congrArg _ (List.append_nil _)

/-- What a node leaves behind has in it, in order, what its declaration has of its own. -/
structure Covers : Prop where
  container : ∀ {bodyOf : Node → List Declaration × Bool} {node : Node}
    {declaration : Declaration}, DeclaresContainer bodyOf node declaration → NameLeads node →
      (own declaration ++ ((bodyNode node).map trace).getD []).Sublist (trace node)
  leaf : ∀ {node : Node} {declaration : Declaration}, DeclaresLeaf node declaration →
    (own declaration).Sublist (trace node)
  body : ∀ {node body : Node}, bodyNode node = some body →
    (body.children.flatMap trace).Sublist (trace body)

theorem sublist_flatMap_of_mem {node : Node} {nodes : List Node} (hmem : node ∈ nodes) :
    (trace node).Sublist (nodes.flatMap trace) := by
  have hsingle := (List.singleton_sublist.mpr hmem).flatMap trace
  rwa [List.flatMap_singleton] at hsingle

/-- What the name of a container leaves behind, then what its body does. -/
theorem name_body_sublist {node name : Node} {read : List X} (hleads : NameLeads node)
    (hkind : holdsMembers node.kind = true)
    (hname : node.firstChildOfKind "type_identifier" = some name)
    (hread : read.Sublist (trace name)) :
    (read ++ ((bodyNode node).map trace).getD []).Sublist (node.children.flatMap trace) := by
  cases hbody : bodyNode node with
  | none =>
      rw [Option.map_none, Option.getD_none, List.append_nil]
      exact hread.trans (sublist_flatMap_of_mem trace (mem_of_firstChildOfKind hname))
  | some body =>
      have hpair := (hleads hkind name hname body hbody).flatMap trace
      rw [List.flatMap_cons, List.flatMap_singleton] at hpair
      exact (hread.append (List.Sublist.refl (trace body))).trans hpair

theorem body_sublist (node : Node) :
    (((bodyNode node).map trace).getD []).Sublist (node.children.flatMap trace) := by
  cases hbody : bodyNode node with
  | none => exact List.nil_sublist _
  | some body => exact sublist_flatMap_of_mem trace (bodyNode_mem hbody)

variable {own trace} {alphanumeric : Alphanumeric} (hcovers : Covers own trace)
include hcovers

/-- One step: a node covers its declaration when its body covers the members. -/
theorem declaration_covered {bodyOf : Node → List Declaration × Bool} {node : Node}
    {previous : Option Node} {declaration : Declaration} (hleads : NameLeads node)
    (hbody : (readOff own (bodyOf node).1).Sublist (((bodyNode node).map trace).getD []))
    (hdeclared : (declarationWith alphanumeric bodyOf previous node).1 = some declaration) :
    (readOff own [declaration]).Sublist (trace node) := by
  rw [readOff_singleton]
  have hcases := declares alphanumeric bodyOf previous node
  generalize declarationWith alphanumeric bodyOf previous node = found at hcases hdeclared
  cases hcases with
  | container hcontainer =>
      cases hdeclared
      rw [hcontainer.children]
      exact (hbody.append_left _).trans (hcovers.container hcontainer hleads)
  | leaf hleaf =>
      cases hdeclared
      have hnone : readOff own ([] : List Declaration) = [] := rfl
      rw [hleaf.children, hnone, List.append_nil]
      exact hcovers.leaf hleaf
  | nothing => cases hdeclared

omit hcovers in
/-- Siblings cover what is collected from them, given the step for each. -/
theorem collect_covered {declaration : Option Node → Node → Option Declaration × Bool}
    {nodes : List Node}
    (hstep : ∀ node ∈ nodes, ∀ previous found, (declaration previous node).1 = some found →
      (readOff own [found]).Sublist (trace node)) :
    (readOff own (collect declaration nodes).1).Sublist (nodes.flatMap trace) := by
  rw [collect, List.filterMap_map]
  generalize (none : Option Node) = previous
  induction nodes generalizing previous with
  | nil => exact List.nil_sublist _
  | cons node rest ih =>
      have hrest := fun previous => ih
        (fun node hnode => hstep node (List.mem_cons_of_mem _ hnode)) previous
      rw [withPrevious, List.filterMap_cons, List.flatMap_cons]
      split
      · exact (hrest _).trans (List.sublist_append_right _ _)
      case _ found hfound =>
        have hfirst := hstep node List.mem_cons_self previous found hfound
        rw [readOff_singleton] at hfirst
        rw [readOff_cons, ← List.append_assoc]
        exact hfirst.append (hrest _)

theorem bodyOf_covered (room : ℕ) {node : Node}
    (hleads : ∀ inner ∈ node.preorder, NameLeads inner) :
    (readOff own (bodyOf alphanumeric room node).1).Sublist
      (((bodyNode node).map trace).getD []) := by
  induction room generalizing node with
  | zero => exact List.nil_sublist _
  | succ room ih =>
      rw [bodyOf]
      cases hbody : bodyNode node with
      | none => exact List.nil_sublist _
      | some body =>
          refine (collect_covered fun child hchild previous found hfound => ?_).trans
            (hcovers.body hbody)
          have hbelow : ∀ inner ∈ child.preorder, NameLeads inner := fun inner hinner =>
            hleads inner (Rose.mem_preorder_of_child (bodyNode_mem hbody)
              (Rose.mem_preorder_of_child hchild hinner))
          exact declaration_covered hcovers (hbelow child child.self_mem_preorder)
            (ih hbelow) hfound

end ReadOff

/-! ## Lines -/

/-- The lines on which the nodes of a tree start, in order. -/
def nodeLines (node : Node) : List ℕ := node.preorder.map lineOf

/-- What the extractor counts on in a tree: nodes start in order, and names lead. -/
structure WellPlaced (root : Node) : Prop where
  rows : (nodeLines root).Pairwise (· ≤ ·)
  names : ∀ node ∈ root.preorder, NameLeads node

theorem nodeLines_eq (node : Node) :
    nodeLines node = node.lineOf :: node.children.flatMap nodeLines := by
  rw [nodeLines, Rose.preorder_eq, List.map_cons, List.map_flatMap]
  rfl

/-- Every declaration is on the line of a node, in order. -/
theorem lines_covered : Covers (fun declaration => [declaration.line]) nodeLines where
  container {bodyOf node declaration} hcontainer hleads := by
    rw [hcontainer.line, nodeLines_eq]
    cases hname : node.firstChildOfKind "type_identifier" with
    | none => exact (body_sublist nodeLines node).cons_cons _
    | some name =>
        have hhead : List.Sublist [name.lineOf] (nodeLines name) := by
          rw [nodeLines_eq]
          exact (List.nil_sublist _).cons_cons _
        exact (name_body_sublist nodeLines hleads hcontainer.kind hname hhead).cons _
  leaf {node declaration} hleaf := by
    obtain ⟨name, hname, hline⟩ := hleaf.line
    rw [hline]
    exact List.singleton_sublist.mpr (List.mem_map_of_mem hname)
  body {node body} _ := by
    rw [nodeLines_eq body]
    exact List.sublist_cons_self _ _

/-! ## Shape -/

section Shape

variable {alphanumeric : Alphanumeric} {depth : ℕ}

theorem eachExtractorShaped_of_forall {declarations : List Declaration}
    (hshape : ∀ declaration ∈ declarations, extractorShaped declaration depth = true) :
    eachExtractorShaped declarations depth = true := by
  induction declarations with
  | nil => rfl
  | cons first rest ih =>
      rw [List.forall_mem_cons] at hshape
      rw [eachExtractorShaped, hshape.1, ih hshape.2]
      rfl

theorem extractorShaped_of {declaration : Declaration} (hdepth : depth ≤ maxNestingDepth)
    (hcontainer : declaration.isContainer = true ∨ declaration.children = [])
    (hentry : declaration.kind = .enumEntry →
      declaration.doc = none ∧ declaration.annotations = [])
    (hchildren : eachExtractorShaped declaration.children (depth + 1) = true) :
    extractorShaped declaration depth = true := by
  obtain ⟨⟩ := declaration
  simp only [extractorShaped, Bool.and_eq_true, Bool.or_eq_true, decide_eq_true_eq,
    List.isEmpty_iff, Option.isNone_iff_eq_none]
  exact ⟨⟨⟨hdepth, hcontainer⟩, Decidable.not_or_of_imp hentry⟩, hchildren⟩

/-- One step: a declaration is shaped when the members are, a level deeper. -/
theorem declaration_shaped {bodyOf : Node → List Declaration × Bool} {node : Node}
    {previous : Option Node} {declaration : Declaration} (hdepth : depth ≤ maxNestingDepth)
    (hbody : eachExtractorShaped (bodyOf node).1 (depth + 1) = true)
    (hdeclared : (declarationWith alphanumeric bodyOf previous node).1 = some declaration) :
    extractorShaped declaration depth = true := by
  have hcases := declares alphanumeric bodyOf previous node
  generalize declarationWith alphanumeric bodyOf previous node = found at hcases hdeclared
  cases hcases with
  | container hcontainer =>
      cases hdeclared
      refine extractorShaped_of hdepth (.inl hcontainer.container) (fun hentry => ?_) ?_
      · have hkind := hcontainer.container
        rw [Declaration.isContainer, hentry] at hkind
        cases hkind
      · rw [hcontainer.children]
        exact hbody
  | leaf hleaf =>
      cases hdeclared
      refine extractorShaped_of hdepth (.inr hleaf.children) hleaf.entry ?_
      rw [hleaf.children]
      rfl
  | nothing => cases hdeclared

theorem collect_shaped {declaration : Option Node → Node → Option Declaration × Bool}
    {nodes : List Node}
    (hstep : ∀ previous node found, (declaration previous node).1 = some found →
      extractorShaped found depth = true) :
    eachExtractorShaped (collect declaration nodes).1 depth = true := by
  refine eachExtractorShaped_of_forall fun found hfound => ?_
  rw [collect, List.filterMap_map, List.mem_filterMap] at hfound
  obtain ⟨placed, _, hplaced⟩ := hfound
  exact hstep placed.1 placed.2 found hplaced

/-- The room counts the levels that are left. -/
theorem bodyOf_shaped (room : ℕ) (node : Node) (hroom : room + depth = maxNestingDepth) :
    eachExtractorShaped (bodyOf alphanumeric room node).1 (depth + 1) = true := by
  induction room generalizing node depth with
  | zero => rfl
  | succ room ih =>
      rw [bodyOf]
      cases bodyNode node with
      | none => rfl
      | some body =>
          refine collect_shaped fun previous child found hfound => ?_
          have hdepth : depth + 1 ≤ maxNestingDepth := by omega
          exact declaration_shaped hdepth (ih child (by omega)) hfound

end Shape

/-! ## Files -/

section Files

variable {alphanumeric : Alphanumeric}

/-- The declarations of the top level, and whether some were cut off below them. -/
def topLevel (alphanumeric : Alphanumeric) (root : Node) : List Declaration × Bool :=
  collect (declaration alphanumeric) root.children

theorem declaration_eq_nothing {previous : Option Node} {node : Node}
    (hkind : node.kind = "package_header" ∨ node.kind = "import_list") :
    declaration alphanumeric previous node = (none, false) := by
  rcases hkind with hkind | hkind <;> simp [declaration, declarationWith, hkind]

/-- One step: a child of the root adds what it declares. -/
theorem readTopLevel_adds (alphanumeric : Alphanumeric) (file : FileSkeleton)
    (placed : Option Node × Node) :
    (readTopLevel alphanumeric file placed).declarations =
        file.declarations ++ (declaration alphanumeric placed.1 placed.2).1.toList ∧
      (readTopLevel alphanumeric file placed).truncated =
        (file.truncated || (declaration alphanumeric placed.1 placed.2).2) := by
  unfold readTopLevel
  split
  case h_1 hkind => simp [declaration_eq_nothing (.inl hkind)]
  case h_2 hkind => simp [declaration_eq_nothing (.inr hkind)]
  case h_3 => exact ⟨rfl, rfl⟩

theorem foldl_readTopLevel (alphanumeric : Alphanumeric) (file : FileSkeleton)
    (placed : List (Option Node × Node)) :
    (placed.foldl (readTopLevel alphanumeric) file).declarations =
        file.declarations ++
          placed.filterMap (fun one => (declaration alphanumeric one.1 one.2).1) ∧
      (placed.foldl (readTopLevel alphanumeric) file).truncated =
        (file.truncated || placed.any fun one => (declaration alphanumeric one.1 one.2).2) := by
  induction placed generalizing file with
  | nil => simp
  | cons one rest ih =>
      have hadds := readTopLevel_adds alphanumeric file one
      rw [List.foldl_cons, (ih _).1, (ih _).2, hadds.1, hadds.2, List.append_assoc,
        Bool.or_assoc, List.any_cons, List.filterMap_cons]
      refine ⟨congrArg _ ?_, rfl⟩
      cases (declaration alphanumeric one.1 one.2).1 <;> rfl

theorem path_readTopLevel (alphanumeric : Alphanumeric) (file : FileSkeleton)
    (placed : Option Node × Node) : (readTopLevel alphanumeric file placed).path = file.path := by
  unfold readTopLevel
  split <;> rfl

/-- A skeleton has the path it is read for. -/
theorem path_extract {alphanumeric : Alphanumeric} {parse : String → Option Tree}
    {path source : String} {file : FileSkeleton}
    (hfile : extract alphanumeric parse path source = .ok file) : file.path = path := by
  have hfold (file : FileSkeleton) (placed : List (Option Node × Node)) :
      (placed.foldl (readTopLevel alphanumeric) file).path = file.path := by
    induction placed generalizing file with
    | nil => rfl
    | cons one rest ih => rw [List.foldl_cons, ih, path_readTopLevel]
  rw [extract] at hfile
  cases hparse : parse source with
  | none =>
      rw [hparse] at hfile
      cases hfile
  | some tree =>
      rw [hparse] at hfile
      simp only at hfile
      split at hfile
      · cases hfile
      · cases hfile
        exact hfold _ _

/-- An extracted file holds what the top level of its tree declares. -/
theorem extract_eq_ok {parse : String → Option Tree} {path source : String}
    {file : FileSkeleton} (hfile : extract alphanumeric parse path source = .ok file) :
    ∃ tree, parse source = some tree ∧
      (file.declarations, file.truncated) = topLevel alphanumeric tree.root := by
  rw [extract] at hfile
  cases hparse : parse source with
  | none =>
      rw [hparse] at hfile
      cases hfile
  | some tree =>
      rw [hparse] at hfile
      refine ⟨tree, rfl, ?_⟩
      have hfold := foldl_readTopLevel alphanumeric (.new path)
        (withPrevious none tree.root.children)
      simp only at hfile
      split at hfile
      · cases hfile
      · cases hfile
        rw [hfold.1, hfold.2, topLevel, collect, List.filterMap_map, List.any_map]
        rfl

theorem topLevel_covered {X : Type*} {own : Declaration → List X} {trace : Node → List X}
    (hcovers : Covers own trace) {root : Node}
    (hleads : ∀ node ∈ root.preorder, NameLeads node) :
    (readOff own (topLevel alphanumeric root).1).Sublist (root.children.flatMap trace) := by
  refine collect_covered fun node hnode previous found hfound => ?_
  have hbelow : ∀ inner ∈ node.preorder, NameLeads inner := fun inner hinner =>
    hleads inner (Rose.mem_preorder_of_child hnode hinner)
  exact declaration_covered hcovers (hbelow node node.self_mem_preorder)
    (bodyOf_covered hcovers maxNestingDepth hbelow) hfound

/-- Every extracted file has its lines in order, in the shape that the renderer and the
attribution of lines to declarations count on. -/
theorem extract_well_formed {parse : String → Option Tree} {path source : String}
    {file : FileSkeleton}
    (hparse : ∀ source, ∀ tree ∈ parse source, WellPlaced tree.root)
    (hfile : extract alphanumeric parse path source = .ok file) :
    Ascending file.declarations ∧ eachExtractorShaped file.declarations 0 = true := by
  obtain ⟨tree, htree, htop⟩ := extract_eq_ok hfile
  have hplaced := hparse source tree htree
  have hdeclarations : file.declarations = (topLevel alphanumeric tree.root).1 :=
    congrArg Prod.fst htop
  have hlines : ((preorder file.declarations).map Placed.line).Sublist
      (nodeLines tree.root) := by
    rw [hdeclarations, nodeLines_eq, ← List.flatMap_pure_eq_map]
    exact (topLevel_covered lines_covered hplaced.names).cons _
  refine ⟨⟨fun placed hmem => ?_, ?_⟩, ?_⟩
  · have hline := hlines.subset (List.mem_map_of_mem hmem)
    obtain ⟨node, _, heq⟩ := List.mem_map.mp hline
    rw [← heq]
    exact Nat.succ_le_succ (Nat.zero_le _)
  · exact List.pairwise_map.mp (hplaced.rows.sublist hlines)
  · rw [hdeclarations]
    refine collect_shaped fun previous node found hfound => ?_
    exact declaration_shaped (Nat.zero_le _) (bodyOf_shaped maxNestingDepth node rfl) hfound

/-! A class with one function, as the grammar has it. -/

def token (kind : String) (row : ℕ) : Node := .node ⟨kind, false, kind, row⟩ []

def leaf (kind text : String) (row : ℕ) : Node := .node ⟨kind, true, text, row⟩ []

def functionNode : Node :=
  .node ⟨"function_declaration", true, "fun f() \x7b\x7d", 1⟩
    [token "fun" 1, leaf "simple_identifier" "f" 1,
      .node ⟨"function_value_parameters", true, "()", 1⟩ [token "(" 1, token ")" 1],
      .node ⟨"function_body", true, "\x7b\x7d", 1⟩ [token "\x7b" 1, token "\x7d" 1]]

def bodyOfClass : Node :=
  .node ⟨"class_body", true, "\x7b\n    fun f() \x7b\x7d\n\x7d", 0⟩
    [token "\x7b" 0, functionNode, token "\x7d" 2]

def classNode : Node :=
  .node ⟨"class_declaration", true, "class A \x7b\n    fun f() \x7b\x7d\n\x7d", 0⟩
    [token "class" 0, leaf "type_identifier" "A" 0, bodyOfClass]

def classTree : Tree :=
  ⟨.node ⟨"source_file", true, "class A \x7b\n    fun f() \x7b\x7d\n\x7d\n", 0⟩
    [classNode], false⟩

def parseClass (source : String) : Option Tree :=
  if source = classTree.root.text then some classTree else none

theorem parseClass_eq_some {source : String} {tree : Tree} (htree : tree ∈ parseClass source) :
    tree = classTree := by
  rw [parseClass, Option.mem_def, Option.ite_none_right_eq_some] at htree
  exact (Option.some.inj htree.2).symm

theorem classTree_wellPlaced : WellPlaced classTree.root where
  rows := by decide
  names node hnode hkind := by
    have hcontainers : (classTree.root.preorder.filter fun node => holdsMembers (kind node)) =
        [classNode] := rfl
    have hmem : node ∈ [classNode] := by
      rw [← hcontainers, List.mem_filter]
      exact ⟨hnode, hkind⟩
    rw [List.mem_singleton.mp hmem]
    rintro name ⟨⟩ body ⟨⟩
    exact (List.Sublist.refl _).cons _

theorem extract_class :
    ∃ file, extract Alphanumeric.onAscii parseClass "A.kt" classTree.root.text = .ok file :=
  ⟨_, rfl⟩

theorem extract_well_formed_class :
    ∃ file, extract Alphanumeric.onAscii parseClass "A.kt" classTree.root.text = .ok file ∧
      Ascending file.declarations ∧ eachExtractorShaped file.declarations 0 = true := by
  have hparse : ∀ source, ∀ tree ∈ parseClass source, WellPlaced tree.root := by
    intro source tree htree
    rw [parseClass_eq_some htree]
    exact classTree_wellPlaced
  obtain ⟨file, hfile⟩ := extract_class
  exact ⟨file, hfile, extract_well_formed hparse hfile⟩

end Files

end Ktsense.Syntax
