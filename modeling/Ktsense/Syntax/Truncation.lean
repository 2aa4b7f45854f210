import Ktsense.Syntax.ExtractShape

/-!
# What the depth bound cuts off

The extractor stops `MAX_NESTING_DEPTH` levels below the top and says so.  What it gives is
the skeleton that any deeper bound gives with the levels below removed, and the flag tells
exactly whether it met a body with something in it at the last level.
-/

namespace Ktsense.Syntax

open Ktsense.Foundation Ktsense.Core Ktsense.Core.Layout Node

/-- The inner node is so many levels of members below the outer one. -/
inductive MemberAt : ℕ → Node → Node → Prop where
  | here (node : Node) : MemberAt 0 node node
  | within {level : ℕ} {outer body child inner : Node}
      (hkind : holdsMembers outer.kind = true) (hbody : bodyNode outer = some body)
      (hchild : child ∈ body.children) (hinner : MemberAt level child inner) :
      MemberAt (level + 1) outer inner

/-- A container with something in its body. -/
def HoldsSomething (node : Node) : Prop :=
  holdsMembers node.kind = true ∧ ∃ body ∈ bodyNode node, 0 < body.namedChildCount

/-- The grammar names every node that declares something. -/
def DeclarationsNamed (root : Node) : Prop :=
  ∀ node ∈ root.preorder, kind node ∈ declarationKinds → isNamed node = true

/-- Keep so many levels below some declarations. -/
def keepLevels : ℕ → List Declaration → List Declaration
  | 0, _ => []
  | levels + 1, declarations =>
      declarations.map fun declaration =>
        declaration.containing (keepLevels levels declaration.children)

section Bound

variable {alphanumeric : Alphanumeric} {shallow deep : Node → List Declaration × Bool}

/-! ## What the members of a node decide -/

theorem containing_children (declaration : Declaration) :
    declaration.containing declaration.children = declaration := by
  cases declaration
  rfl

/-- Of what a node declares, the members decide the children and nothing else. -/
theorem declarationWith_containing (change : List Declaration → List Declaration)
    (hnil : change [] = []) {node : Node} (previous : Option Node)
    (hbody : holdsMembers node.kind = true → (shallow node).1 = change (deep node).1) :
    (declarationWith alphanumeric shallow previous node).1 =
      (declarationWith alphanumeric deep previous node).1.map fun declaration =>
        declaration.containing (change declaration.children) := by
  have hleaf : ∀ declaration : Declaration, declaration.children = [] →
      declaration.containing (change declaration.children) = declaration := by
    intro declaration hchildren
    rw [hchildren, hnil, ← hchildren, containing_children]
  unfold declarationWith
  split
  case h_1 hkind => simp only [hbody (by rw [hkind]; rfl)]; rfl
  case h_2 hkind => simp only [hbody (by rw [hkind]; rfl)]; rfl
  case h_3 hkind => simp only [hbody (by rw [hkind]; rfl)]; rfl
  case h_5 hkind =>
    cases hproperty : property alphanumeric previous node with
    | none => rfl
    | some declaration =>
        have hnone := (property_leaf hkind hproperty).children
        exact congrArg some (hleaf declaration hnone).symm
  case h_9 => rfl
  all_goals exact congrArg some (hleaf _ rfl).symm

theorem declarationWith_congr {node : Node} (previous : Option Node)
    (hbody : holdsMembers node.kind = true → (shallow node).1 = (deep node).1) :
    (declarationWith alphanumeric shallow previous node).1 =
      (declarationWith alphanumeric deep previous node).1 := by
  have hsame : (declarationWith alphanumeric shallow previous node).1 = _ :=
    declarationWith_containing id rfl previous hbody
  simpa only [id, containing_children, Option.map_id'] using hsame

theorem declarationWith_cut (node : Node) (previous : Option Node) :
    (declarationWith alphanumeric shallow previous node).2 =
      (holdsMembers node.kind && (shallow node).2) := by
  have hcases := declares alphanumeric shallow previous node
  generalize declarationWith alphanumeric shallow previous node = found at hcases
  cases hcases with
  | container hcontainer => rw [hcontainer.kind, Bool.true_and]
  | leaf hleaf => rw [hleaf.kind.2, Bool.false_and]
  | nothing hkind => rw [hkind, Bool.false_and]

theorem declarationWith_of_not_mem {node : Node} {previous : Option Node}
    (hkind : node.kind ∉ declarationKinds) :
    declarationWith alphanumeric shallow previous node = (none, false) := by
  unfold declarationWith
  split
  case h_9 => rfl
  all_goals
    rename_i heq
    exact absurd (by rw [heq]; decide) hkind

/-! ## Siblings -/

theorem collect_cut {declaration : Option Node → Node → Option Declaration × Bool}
    {cut : Node → Prop} {nodes : List Node}
    (hcut : ∀ node ∈ nodes, ∀ previous, (declaration previous node).2 = true ↔ cut node) :
    (collect declaration nodes).2 = true ↔ ∃ node ∈ nodes, cut node := by
  rw [collect, List.any_map, List.any_eq_true]
  constructor
  · rintro ⟨placed, hplaced, hset⟩
    have hmem := mem_of_mem_withPrevious hplaced
    exact ⟨placed.2, hmem, (hcut placed.2 hmem placed.1).mp hset⟩
  · rintro ⟨node, hnode, hholds⟩
    rw [← map_snd_withPrevious none nodes] at hnode
    obtain ⟨placed, hplaced, rfl⟩ := List.mem_map.mp hnode
    exact ⟨placed, hplaced,
      (hcut placed.2 (mem_of_mem_withPrevious hplaced) placed.1).mpr hholds⟩

theorem collect_map {declaration other : Option Node → Node → Option Declaration × Bool}
    {change : Declaration → Declaration} {nodes : List Node}
    (hchange : ∀ node ∈ nodes, ∀ previous,
      (declaration previous node).1 = (other previous node).1.map change) :
    (collect declaration nodes).1 = (collect other nodes).1.map change := by
  rw [collect, collect, List.filterMap_map, List.filterMap_map, List.map_filterMap]
  exact List.filterMap_congr fun placed hplaced =>
    hchange placed.2 (mem_of_mem_withPrevious hplaced) placed.1

/-- Siblings below which nothing was cut off: what finds the same members in each
container among them finds the same declarations. -/
theorem collect_complete {nodes : List Node}
    (hcut : (collect (declarationWith alphanumeric shallow) nodes).2 = false)
    (hsame : ∀ node ∈ nodes, (shallow node).2 = false → (shallow node).1 = (deep node).1) :
    (collect (declarationWith alphanumeric shallow) nodes).1 =
      (collect (declarationWith alphanumeric deep) nodes).1 := by
  rw [collect, List.any_map, List.any_eq_false] at hcut
  rw [collect, collect, List.filterMap_map, List.filterMap_map]
  refine List.filterMap_congr fun placed hplaced => declarationWith_congr placed.1 fun hkind => ?_
  refine hsame placed.2 (mem_of_mem_withPrevious hplaced) ?_
  have hflag := hcut placed hplaced
  rw [Function.comp_apply, declarationWith_cut, hkind, Bool.true_and] at hflag
  exact Bool.eq_false_iff.mpr hflag

/-! ## Bodies -/

theorem keepLevels_nil (levels : ℕ) : keepLevels levels [] = [] := by
  cases levels <;> rfl

/-- The members found with less room are those found with more, cut at that level. -/
theorem bodyOf_eq_keepLevels (room more : ℕ) (node : Node) :
    (bodyOf alphanumeric room node).1 =
      keepLevels room (bodyOf alphanumeric (room + more) node).1 := by
  induction room generalizing node with
  | zero => rfl
  | succ room ih =>
      rw [Nat.succ_add, bodyOf, bodyOf]
      cases bodyNode node with
      | none => rfl
      | some body =>
          exact collect_map fun child _ previous =>
            declarationWith_containing _ (keepLevels_nil room) previous fun _ => ih child

theorem memberAt_zero {outer inner : Node} : MemberAt 0 outer inner ↔ inner = outer := by
  constructor
  · intro hmember
    cases hmember
    rfl
  · rintro rfl
    exact .here inner

theorem memberAt_succ {level : ℕ} {outer inner : Node} :
    MemberAt (level + 1) outer inner ↔ holdsMembers outer.kind = true ∧
      ∃ body ∈ bodyNode outer, ∃ child ∈ body.children, MemberAt level child inner := by
  constructor
  · intro hmember
    cases hmember with
    | within hkind hbody hchild hinner => exact ⟨hkind, _, hbody, _, hchild, hinner⟩
  · rintro ⟨hkind, body, hbody, child, hchild, hinner⟩
    exact .within hkind hbody hchild hinner

/-- Something is cut off exactly when a container at the last level holds something. -/
theorem declaration_cut_iff (room : ℕ) (previous : Option Node) (node : Node) :
    (declarationWith alphanumeric (bodyOf alphanumeric room) previous node).2 = true ↔
      ∃ inner, MemberAt room node inner ∧ HoldsSomething inner := by
  induction room generalizing previous node with
  | zero =>
      simp only [memberAt_zero, exists_eq_left]
      rw [declarationWith_cut, Bool.and_eq_true, bodyOf, Option.any_eq_true, HoldsSomething]
      simp only [decide_eq_true_eq, Option.mem_def, gt_iff_lt]
  | succ room ih =>
      rw [declarationWith_cut, Bool.and_eq_true, bodyOf]
      simp only [memberAt_succ, and_assoc, exists_and_left]
      refine and_congr_right fun _ => ?_
      cases hbody : bodyNode node with
      | none => simp
      | some body =>
          rw [Option.map_some, Option.getD_some, collect_cut fun child _ previous =>
            ih previous child]
          simp only [Option.mem_def, Option.some.injEq, exists_eq_left']
          constructor
          · rintro ⟨child, hchild, inner, hinner, hholds⟩
            exact ⟨inner, ⟨child, hchild, hinner⟩, hholds⟩
          · rintro ⟨inner, ⟨child, hchild, hinner⟩, hholds⟩
            exact ⟨child, hchild, inner, hinner, hholds⟩

theorem namedBelow {node body child : Node} (hnamed : DeclarationsNamed node)
    (hbody : bodyNode node = some body) (hchild : child ∈ body.children) :
    DeclarationsNamed child := fun inner hinner =>
  hnamed inner (Rose.mem_preorder_of_child (bodyNode_mem hbody)
    (Rose.mem_preorder_of_child hchild hinner))

/-- A body without named children declares nothing. -/
theorem collect_of_unnamed {node body : Node} (hnamed : DeclarationsNamed node)
    (hbody : bodyNode node = some body) (hcount : ¬0 < body.namedChildCount) :
    (collect (declarationWith alphanumeric shallow) body.children).1 = [] := by
  rw [collect, List.filterMap_map, List.filterMap_eq_nil_iff]
  intro placed hplaced
  have hchild := mem_of_mem_withPrevious hplaced
  have hunnamed : placed.2.isNamed ≠ true := fun hset =>
    hcount (List.length_pos_of_mem (List.mem_filter.mpr ⟨hchild, hset⟩))
  have hkind : placed.2.kind ∉ declarationKinds := fun hmem =>
    hunnamed (namedBelow hnamed hbody hchild _ placed.2.self_mem_preorder hmem)
  exact congrArg Prod.fst (declarationWith_of_not_mem hkind)

/-- Where nothing was cut off, more room finds nothing more. -/
theorem bodyOf_complete (room more : ℕ) {node : Node} (hnamed : DeclarationsNamed node)
    (hcut : (bodyOf alphanumeric room node).2 = false) :
    (bodyOf alphanumeric room node).1 = (bodyOf alphanumeric (room + more) node).1 := by
  induction room generalizing node with
  | zero =>
      rw [bodyOf] at hcut ⊢
      cases more with
      | zero => rfl
      | succ more =>
          rw [Nat.zero_add, bodyOf]
          cases hbody : bodyNode node with
          | none => rfl
          | some body =>
              rw [hbody, Option.any_some, decide_eq_false_iff_not] at hcut
              exact (collect_of_unnamed hnamed hbody hcut).symm
  | succ room ih =>
      rw [Nat.succ_add, bodyOf]
      rw [bodyOf] at hcut ⊢
      cases hbody : bodyNode node with
      | none => rfl
      | some body =>
          rw [hbody] at hcut
          simp only [Option.map_some, Option.getD_some] at hcut ⊢
          exact collect_complete hcut fun child hchild hkept =>
            ih (namedBelow hnamed hbody hchild) hkept

/-! ## Files -/

/-- The declarations of the top level when the bound is so many levels deep. -/
def topLevelWithin (alphanumeric : Alphanumeric) (room : ℕ) (root : Node) :
    List Declaration :=
  (collect (declarationWith alphanumeric (bodyOf alphanumeric room)) root.children).1

/-- An extracted file is what any deeper bound gives, cut at `MAX_NESTING_DEPTH`.  It is
marked as truncated exactly when a container at that depth holds something, and where it
is not marked nothing is missing from it. -/
theorem extract_truncation {parse : String → Option Tree} {path source : String}
    {file : FileSkeleton}
    (hparse : ∀ source, ∀ tree ∈ parse source, DeclarationsNamed tree.root)
    (hfile : extract alphanumeric parse path source = .ok file) :
    ∃ tree ∈ parse source,
      (∀ more, file.declarations = keepLevels (maxNestingDepth + 1)
        (topLevelWithin alphanumeric (maxNestingDepth + more) tree.root)) ∧
      (file.truncated = true ↔ ∃ top ∈ tree.root.children, ∃ inner,
        MemberAt maxNestingDepth top inner ∧ HoldsSomething inner) ∧
      (file.truncated = false → ∀ more, file.declarations =
        topLevelWithin alphanumeric (maxNestingDepth + more) tree.root) := by
  obtain ⟨tree, htree, htop⟩ := extract_eq_ok hfile
  have hdeclarations : file.declarations = (topLevel alphanumeric tree.root).1 :=
    congrArg Prod.fst htop
  have htruncated : file.truncated = (topLevel alphanumeric tree.root).2 :=
    congrArg Prod.snd htop
  refine ⟨tree, htree, fun more => ?_, ?_, fun hcut more => ?_⟩
  · rw [hdeclarations]
    exact collect_map fun node _ previous =>
      declarationWith_containing _ (keepLevels_nil maxNestingDepth) previous fun _ =>
        bodyOf_eq_keepLevels maxNestingDepth more node
  · rw [htruncated]
    exact collect_cut fun node _ previous =>
      declaration_cut_iff maxNestingDepth previous node
  · rw [htruncated] at hcut
    rw [hdeclarations]
    refine collect_complete hcut fun node hnode hkept => ?_
    have hnamed : DeclarationsNamed node := fun inner hinner =>
      hparse source tree htree inner (Rose.mem_preorder_of_child hnode hinner)
    exact bodyOf_complete maxNestingDepth more hnamed hkept

/-! A class in a class, as deep as this, with a function in the innermost. -/

def bodyAround (member : Node) : Node :=
  .node ⟨"class_body", true, "\x7b\n" ++ member.text ++ "\n\x7d", 0⟩
    [token "\x7b" 0, member, token "\x7d" 0]

def nestedNode : ℕ → Node
  | 0 => classNode
  | depth + 1 =>
      .node ⟨"class_declaration", true, "class A " ++ (bodyAround (nestedNode depth)).text, 0⟩
        [token "class" 0, leaf "type_identifier" "A" 0, bodyAround (nestedNode depth)]

def nestedTree : Tree :=
  ⟨.node ⟨"source_file", true, (nestedNode maxNestingDepth).text ++ "\n", 0⟩
    [nestedNode maxNestingDepth], false⟩

def parseNested (source : String) : Option Tree :=
  if source = nestedTree.root.text then some nestedTree else none

theorem declarationsNamed_node {node : Node}
    (hself : node.kind ∈ declarationKinds → node.isNamed = true)
    (hchildren : ∀ child ∈ node.children, DeclarationsNamed child) :
    DeclarationsNamed node := by
  intro inner hinner hkind
  rw [Rose.preorder_eq] at hinner
  rcases List.mem_cons.mp hinner with rfl | hbelow
  · exact hself hkind
  · obtain ⟨child, hchild, hmem⟩ := List.mem_flatMap.mp hbelow
    exact hchildren child hchild inner hmem hkind

theorem declarationsNamed_nested (depth : ℕ) : DeclarationsNamed (nestedNode depth) := by
  have htoken (kind : String) (hkind : kind ∉ declarationKinds) :
      DeclarationsNamed (token kind 0) :=
    declarationsNamed_node (fun hmem => absurd hmem hkind)
      fun _ hmem => absurd hmem List.not_mem_nil
  induction depth with
  | zero =>
      unfold DeclarationsNamed nestedNode
      decide
  | succ depth ih =>
      refine declarationsNamed_node (fun _ => rfl) ?_
      intro child hchild
      have hcases : child = token "class" 0 ∨ child = leaf "type_identifier" "A" 0 ∨
          child = bodyAround (nestedNode depth) := by
        simpa [nestedNode, Rose.children] using hchild
      rcases hcases with rfl | rfl | rfl
      · exact htoken "class" (by decide)
      · exact declarationsNamed_node (fun _ => rfl) fun _ hmem => absurd hmem List.not_mem_nil
      · refine declarationsNamed_node (fun _ => rfl) ?_
        intro inner hinner
        have hinner' : inner = token "\x7b" 0 ∨ inner = nestedNode depth ∨
            inner = token "\x7d" 0 := by simpa [bodyAround, Rose.children] using hinner
        rcases hinner' with rfl | rfl | rfl
        · exact htoken "\x7b" (by decide)
        · exact ih
        · exact htoken "\x7d" (by decide)

theorem memberAt_nested (depth : ℕ) : MemberAt depth (nestedNode depth) classNode := by
  induction depth with
  | zero => exact .here classNode
  | succ depth ih =>
      refine @MemberAt.within _ _ _ (nestedNode depth) _ rfl rfl ?_ ih
      exact List.mem_cons_of_mem _ List.mem_cons_self

theorem extract_truncation_nested :
    ∃ file, extract Alphanumeric.onAscii parseNested "A.kt" nestedTree.root.text = .ok file ∧
      file.truncated = true ∧ ∀ more, file.declarations = keepLevels (maxNestingDepth + 1)
        (topLevelWithin Alphanumeric.onAscii (maxNestingDepth + more) nestedTree.root) := by
  have honly {source : String} {tree : Tree} (htree : tree ∈ parseNested source) :
      tree = nestedTree := by
    rw [parseNested, Option.mem_def, Option.ite_none_right_eq_some] at htree
    exact (Option.some.inj htree.2).symm
  have hparse : ∀ source, ∀ tree ∈ parseNested source, DeclarationsNamed tree.root := by
    intro source tree htree
    rw [honly htree]
    refine declarationsNamed_node (fun _ => rfl) ?_
    intro child hchild
    rw [List.mem_singleton.mp hchild]
    exact declarationsNamed_nested maxNestingDepth
  have hfile : ∃ file, extract Alphanumeric.onAscii parseNested "A.kt" nestedTree.root.text =
      .ok file := by
    rw [extract, parseNested, if_pos rfl]
    exact ⟨_, rfl⟩
  obtain ⟨file, hfile⟩ := hfile
  obtain ⟨tree, htree, hcut, htruncated, -⟩ := extract_truncation hparse hfile
  obtain rfl := honly htree
  refine ⟨file, hfile, htruncated.mpr ?_, hcut⟩
  exact ⟨nestedNode maxNestingDepth, List.mem_singleton_self _, classNode,
    memberAt_nested maxNestingDepth, rfl, bodyOfClass, rfl, by decide⟩

end Bound

end Ktsense.Syntax
