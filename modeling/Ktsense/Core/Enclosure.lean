import Ktsense.Core.Attribution

/-!
# The declaration above a line

When the lines of the names never descend in pre-order, following the recovered
spans inwards comes out at the last declaration at or above the line, and the
body of a declaration spans exactly the lines that are attributed to it.  A
declaration is told from an equal one elsewhere by its position, the indices of
the siblings on the way down to it.
-/

namespace Ktsense.Core

/-- Induction over siblings: what holds of the children of the first and of the
rest holds of all. -/
theorem siblings_induct {motive : List Declaration → Prop} (nil : motive [])
    (cons : ∀ declaration following, motive declaration.children →
      motive following → motive (declaration :: following)) :
    (siblings : List Declaration) → motive siblings
  | [] => nil
  | { children, .. } :: following =>
      cons _ following (siblings_induct nil cons children)
        (siblings_induct nil cons following)

/-! ## Pre-order -/

/-- A declaration with the declarations around it, outermost first. -/
structure Placed where
  around : List Declaration
  declaration : Declaration

namespace Placed

def under (outer : Declaration) (placed : Placed) : Placed :=
  { placed with around := outer :: placed.around }

def chain (placed : Placed) : List Declaration :=
  placed.around ++ [placed.declaration]

def line (placed : Placed) : ℕ := placed.declaration.line

/-- The dotted names that are not empty, from the outside in. -/
def dottedName (placed : Placed) : String :=
  ".".intercalate ((placed.chain.map (·.name)).filter (· ≠ ""))

@[simp]
theorem line_under (outer : Declaration) (placed : Placed) :
    (placed.under outer).line = placed.line := rfl

@[simp]
theorem chain_under (outer : Declaration) (placed : Placed) :
    (placed.under outer).chain = outer :: placed.chain := rfl

end Placed

mutual

def preorderWithin : Declaration → List Placed
  | declaration@{ children, .. } =>
      ⟨[], declaration⟩ :: (preorder children).map (Placed.under declaration)

/-- The declarations at and below some siblings, each before its children. -/
def preorder : List Declaration → List Placed
  | [] => []
  | declaration :: following => preorderWithin declaration ++ preorder following

end

theorem preorder_cons (declaration : Declaration) (following : List Declaration) :
    preorder (declaration :: following) =
      ⟨[], declaration⟩ ::
        ((preorder declaration.children).map (Placed.under declaration) ++
          preorder following) := by
  cases declaration
  rfl

/-- Lines that count from one and never descend in pre-order. -/
structure Ascending (declarations : List Declaration) : Prop where
  positive : ∀ placed ∈ preorder declarations, 1 ≤ placed.line
  sorted : (preorder declarations).Pairwise fun left right =>
    left.line ≤ right.line

/-- The last declaration at or above a line. -/
def lastAbove (declarations : List Declaration) (line : ℕ) : Option Placed :=
  ((preorder declarations).filter (·.line ≤ line)).getLast?

section Siblings

variable {declaration : Declaration} {following : List Declaration} {line : ℕ}

theorem mem_preorder_cons (placed : Placed) :
    placed ∈ preorder (declaration :: following) ↔
      placed = ⟨[], declaration⟩ ∨
        (∃ inner ∈ preorder declaration.children,
          inner.under declaration = placed) ∨
        placed ∈ preorder following := by
  rw [preorder_cons, List.mem_cons, List.mem_append, List.mem_map]

namespace Ascending

theorem children (hascending : Ascending (declaration :: following)) :
    Ascending declaration.children := by
  obtain ⟨hpositive, hsorted⟩ := hascending
  rw [preorder_cons] at hsorted
  have hinner := (List.pairwise_append.1 hsorted.tail).1
  refine ⟨fun placed hplaced => ?_, ?_⟩
  · exact hpositive (placed.under declaration)
      ((mem_preorder_cons _).2 (Or.inr (Or.inl ⟨placed, hplaced, rfl⟩)))
  · rw [List.pairwise_map] at hinner
    exact hinner

theorem rest (hascending : Ascending (declaration :: following)) :
    Ascending following := by
  obtain ⟨hpositive, hsorted⟩ := hascending
  rw [preorder_cons] at hsorted
  refine ⟨fun placed hplaced => ?_, (List.pairwise_append.1 hsorted.tail).2.1⟩
  exact hpositive placed ((mem_preorder_cons _).2 (Or.inr (Or.inr hplaced)))

/-- The first sibling is above everything else. -/
theorem first_le (hascending : Ascending (declaration :: following))
    {placed : Placed} (hplaced : placed ∈ preorder (declaration :: following)) :
    declaration.line ≤ placed.line := by
  have hsorted := hascending.sorted
  rw [preorder_cons] at hsorted hplaced
  rcases List.mem_cons.1 hplaced with rfl | hmem
  · exact le_rfl
  · exact (List.pairwise_cons.1 hsorted).1 placed hmem

theorem child_ge (hascending : Ascending (declaration :: following))
    {inner : Placed} (hinner : inner ∈ preorder declaration.children) :
    declaration.line ≤ inner.line := by
  have hplaced : inner.under declaration ∈ preorder (declaration :: following) :=
    (mem_preorder_cons _).2 (Or.inr (Or.inl ⟨inner, hinner, rfl⟩))
  have hle : declaration.line ≤ (inner.under declaration).line := hascending.first_le hplaced
  exact hle

/-- What is inside the first sibling is above what follows it. -/
theorem child_le (hascending : Ascending (declaration :: following))
    {inner later : Placed} (hinner : inner ∈ preorder declaration.children)
    (hlater : later ∈ preorder following) : inner.line ≤ later.line := by
  have hsorted := hascending.sorted
  rw [preorder_cons] at hsorted
  have hacross := (List.pairwise_append.1 hsorted.tail).2.2
  exact hacross _ (List.mem_map_of_mem hinner) later hlater

end Ascending

theorem mem_preorder_of_mem {declarations : List Declaration}
    (hmem : declaration ∈ declarations) : ⟨[], declaration⟩ ∈ preorder declarations := by
  induction declarations with
  | nil => cases hmem
  | cons first rest ih =>
      rcases List.mem_cons.1 hmem with rfl | hlater
      · exact (mem_preorder_cons _).2 (Or.inl rfl)
      · exact (mem_preorder_cons _).2 (Or.inr (Or.inr (ih hlater)))

/-- The span of the first sibling holds a line the parent's bound admits if and
only if the line is between its name and all that follows. -/
theorem spans_first_iff (hascending : Ascending (declaration :: following))
    {parentEnd : Option ℕ} (hwithin : Within line parentEnd) :
    spans declaration.line (spanEnd following parentEnd) line = true ↔
      declaration.line ≤ line ∧ ∀ later ∈ preorder following, line < later.line := by
  rw [spans_iff]
  apply and_congr_right
  intro _
  cases following with
  | nil => simpa [preorder, spanEnd] using hwithin
  | cons next rest =>
      have hnext : 1 ≤ next.line :=
        hascending.rest.positive ⟨[], next⟩ (mem_preorder_of_mem List.mem_cons_self)
      have hbound : Within line (spanEnd (next :: rest) parentEnd) ↔
          line < next.line := by
        simp only [spanEnd, Within, Option.mem_def, Option.some.injEq, forall_eq']
        omega
      rw [hbound]
      constructor
      · intro hbelow later hlater
        exact hbelow.trans_le (hascending.rest.first_le hlater)
      · intro hbelow
        exact hbelow ⟨[], next⟩ (mem_preorder_of_mem List.mem_cons_self)

end Siblings

/-! ## The chain of a line -/

theorem filter_above_eq_nil {declarations : List Declaration} {line : ℕ}
    (hbelow : ∀ placed ∈ preorder declarations, line < placed.line) :
    (preorder declarations).filter (·.line ≤ line) = [] := by
  rw [List.filter_eq_nil_iff]
  intro placed hplaced
  simpa using hbelow placed hplaced

/-- The last declaration above a line is looked for among the siblings that
follow, then in the children, and is the sibling itself at last. -/
theorem lastAbove_cons (declaration : Declaration) (following : List Declaration)
    (line : ℕ) :
    lastAbove (declaration :: following) line =
      (lastAbove following line).or
        (((lastAbove declaration.children line).map (Placed.under declaration)).or
          (if declaration.line ≤ line then some ⟨[], declaration⟩ else none)) := by
  have hinner : ((preorder declaration.children).map
        (Placed.under declaration)).filter (·.line ≤ line) =
      ((preorder declaration.children).filter (·.line ≤ line)).map
        (Placed.under declaration) := by
    rw [List.filter_map]
    rfl
  have hitself : (([⟨[], declaration⟩] : List Placed).filter (·.line ≤ line)).getLast? =
      if declaration.line ≤ line then some ⟨[], declaration⟩ else none := by
    by_cases habove : declaration.line ≤ line <;> simp [Placed.line, habove]
  rw [lastAbove, preorder_cons, ← List.singleton_append, List.filter_append,
    List.filter_append, hinner, List.getLast?_append, List.getLast?_append,
    List.getLast?_map, hitself, Option.or_assoc]
  rfl

theorem lastAbove_eq_none {declarations : List Declaration} {line : ℕ}
    (hbelow : ∀ placed ∈ preorder declarations, line < placed.line) :
    lastAbove declarations line = none := by
  rw [lastAbove, filter_above_eq_nil hbelow]
  rfl

/-- The chain of a line is that of the last declaration at or above it. -/
theorem enclosingChain_eq_lastAbove {declarations : List Declaration}
    (hascending : Ascending declarations) {line : ℕ} {parentEnd : Option ℕ}
    (hwithin : Within line parentEnd) :
    enclosingChain declarations line parentEnd =
      (lastAbove declarations line).elim [] Placed.chain := by
  induction declarations using siblings_induct generalizing parentEnd with
  | nil => rfl
  | cons declaration following ihchildren ihfollowing =>
      have hspans := spans_first_iff hascending hwithin
      rw [enclosingChain_cons, lastAbove_cons]
      by_cases hinside : spans declaration.line (spanEnd following parentEnd) line = true
      · have hlast : Within line (spanEnd following parentEnd) :=
          ((spans_iff _ _ _).1 hinside).2
        obtain ⟨habove, hbelow⟩ := hspans.1 hinside
        rw [if_pos hinside, ihchildren hascending.children hlast,
          lastAbove_eq_none hbelow, if_pos habove]
        cases lastAbove declaration.children line with
        | none => rfl
        | some inner => rfl
      · rw [if_neg hinside, ihfollowing hascending.rest hwithin]
        cases hfollowing : lastAbove following line with
        | some later => rfl
        | none =>
            -- nothing that follows is at or above the line, so the name is below it
            have hbelow : ∀ later ∈ preorder following, line < later.line := by
              intro later hlater
              have hnil := List.getLast?_eq_none_iff.1 hfollowing
              simpa using List.filter_eq_nil_iff.1 hnil later hlater
            have hname : ¬declaration.line ≤ line := fun habove =>
              hinside (hspans.2 ⟨habove, hbelow⟩)
            have hchildren : lastAbove declaration.children line = none := by
              apply lastAbove_eq_none
              intro inner hinner
              exact (not_le.1 hname).trans_le (hascending.child_ge hinner)
            rw [hchildren, if_neg hname]
            rfl

/-- A class with three declarations on its second line, one inside another, and a
class below it. -/
def sharedLineFile : FileSkeleton :=
  (FileSkeleton.new "A.kt").withDeclarations
    [(Declaration.new .classKind "A" 1).containing
      [Declaration.new .val "x" 2,
        (Declaration.new .object "O" 2).containing [Declaration.new .val "y" 2]],
      Declaration.new .classKind "B" 4]

theorem ascending_sharedLineFile : Ascending sharedLineFile.declarations :=
  ⟨by decide, by decide⟩

/-- `enclosing_declaration` answers with the last declaration in pre-order at or
above the line, under the dotted names around it, and with none exactly when the
line precedes the first declaration. -/
theorem enclosing_is_last_above (skeleton : FileSkeleton)
    (hascending : Ascending skeleton.declarations) (line : ℕ) :
    enclosingDeclaration skeleton line =
        (lastAbove skeleton.declarations line).map (fun placed =>
          ⟨placed.declaration.kind, placed.dottedName, placed.line⟩) ∧
      (enclosingDeclaration skeleton line = none ↔
        ∀ first ∈ (preorder skeleton.declarations).head?, line < first.line) := by
  have hwithin : Within line none := by simp [Within]
  have hchain := enclosingChain_eq_lastAbove hascending hwithin
  have hanswer : enclosingDeclaration skeleton line =
      (lastAbove skeleton.declarations line).map (fun placed =>
        ⟨placed.declaration.kind, placed.dottedName, placed.line⟩) := by
    cases hlast : lastAbove skeleton.declarations line with
    | none =>
        rw [hlast, Option.elim_none] at hchain
        simp [enclosingDeclaration, hchain]
    | some placed =>
        rw [hlast, Option.elim_some] at hchain
        simp [enclosingDeclaration, hchain, EnclosingDeclaration.fromChain,
          Placed.dottedName, Placed.chain, Placed.line]
  refine ⟨hanswer, ?_⟩
  rw [hanswer, Option.map_eq_none_iff, lastAbove, List.getLast?_eq_none_iff,
    List.filter_eq_nil_iff]
  cases hfirst : preorder skeleton.declarations with
  | nil => simp
  | cons first rest =>
      simp only [decide_eq_true_eq, not_le, List.head?_cons, Option.mem_def,
        Option.some.injEq, forall_eq']
      constructor
      · intro hbelow
        exact hbelow first List.mem_cons_self
      · intro hbelow placed hplaced
        have hsorted := hascending.sorted
        rw [hfirst] at hsorted
        rcases List.mem_cons.1 hplaced with rfl | hlater
        · exact hbelow
        · exact hbelow.trans_le ((List.pairwise_cons.1 hsorted).1 placed hlater)

theorem sharedLine_enclosed :
    enclosingDeclaration sharedLineFile 3 = some ⟨.val, "A.O.y", 2⟩ ∧
      (enclosingDeclaration sharedLineFile 0 = none ↔
        ∀ first ∈ (preorder sharedLineFile.declarations).head?, 0 < first.line) :=
  ⟨((enclosing_is_last_above sharedLineFile ascending_sharedLineFile 3).1.trans
      (by decide)),
    (enclosing_is_last_above sharedLineFile ascending_sharedLineFile 0).2⟩

/-! ## Positions -/

/-- The position of a sibling further on. -/
def further : List ℕ → List ℕ
  | [] => []
  | index :: inner => (index + 1) :: inner

mutual

def pathWithin : Declaration → ℕ → Option ℕ → List ℕ
  | { children, .. }, line, last => enclosingPath children line last

/-- The walk of `enclosingChain`, with the indices of the declarations it enters
in place of the declarations. -/
def enclosingPath : List Declaration → ℕ → Option ℕ → List ℕ
  | [], _, _ => []
  | declaration :: following, line, parentEnd =>
      let last := spanEnd following parentEnd
      if spans declaration.line last line then 0 :: pathWithin declaration line last
      else further (enclosingPath following line parentEnd)

end

/-- The declaration at a position and the end recovered for it there. -/
def declarationAt : List ℕ → List Declaration → Option ℕ →
    Option (Declaration × Option ℕ)
  | [], _, _ => none
  | index :: inner, siblings, parentEnd =>
      match siblings.drop index with
      | [] => none
      | declaration :: following =>
          let last := spanEnd following parentEnd
          if inner = [] then some (declaration, last)
          else declarationAt inner declaration.children last

/-- The declarations on the way to a position, outermost first. -/
def declarationsAlong : List ℕ → List Declaration → List Declaration
  | [], _ => []
  | index :: inner, siblings =>
      match siblings[index]? with
      | none => []
      | some declaration => declaration :: declarationsAlong inner declaration.children

theorem enclosingPath_cons (declaration : Declaration)
    (following : List Declaration) (line : ℕ) (parentEnd : Option ℕ) :
    enclosingPath (declaration :: following) line parentEnd =
      if spans declaration.line (spanEnd following parentEnd) line then
        0 :: enclosingPath declaration.children line (spanEnd following parentEnd)
      else further (enclosingPath following line parentEnd) := by
  cases declaration
  rw [enclosingPath, pathWithin]

theorem declarationsAlong_further (declaration : Declaration)
    (following : List Declaration) (position : List ℕ) :
    declarationsAlong (further position) (declaration :: following) =
      declarationsAlong position following := by
  cases position <;> rfl

theorem declarationAt_further (declaration : Declaration)
    (following : List Declaration) (position : List ℕ) (parentEnd : Option ℕ) :
    declarationAt (further position) (declaration :: following) parentEnd =
      declarationAt position following parentEnd := by
  cases position <;> rfl

/-- The positions are those of the declarations in the chain. -/
theorem declarationsAlong_enclosingPath (declarations : List Declaration)
    (line : ℕ) (parentEnd : Option ℕ) :
    declarationsAlong (enclosingPath declarations line parentEnd) declarations =
      enclosingChain declarations line parentEnd := by
  induction declarations using siblings_induct generalizing parentEnd with
  | nil => rfl
  | cons declaration following ihchildren ihfollowing =>
      rw [enclosingPath_cons, enclosingChain_cons]
      split_ifs with hspans
      · simp only [declarationsAlong, List.getElem?_cons_zero, ihchildren]
      · rw [declarationsAlong_further, ihfollowing]

/-! ## The lines of a declaration -/

/-- A span among siblings stays inside the bound of their parent. -/
def Bounded (declarations : List Declaration) (bound : Option ℕ) : Prop :=
  ∀ placed ∈ preorder declarations, ∀ last ∈ bound, placed.line ≤ last + 1

section Bounds

variable {declaration : Declaration} {following : List Declaration} {line : ℕ}
  {parentEnd : Option ℕ}

theorem Bounded.rest (hbounded : Bounded (declaration :: following) parentEnd) :
    Bounded following parentEnd :=
  fun placed hplaced => hbounded placed
    ((mem_preorder_cons _).2 (Or.inr (Or.inr hplaced)))

/-- The children are bounded by the end recovered for their parent. -/
theorem Bounded.children (hascending : Ascending (declaration :: following))
    (hbounded : Bounded (declaration :: following) parentEnd) :
    Bounded declaration.children (spanEnd following parentEnd) := by
  intro inner hinner last hlast
  cases following with
  | nil =>
      exact hbounded (inner.under declaration)
        ((mem_preorder_cons _).2 (Or.inr (Or.inl ⟨inner, hinner, rfl⟩))) last hlast
  | cons next rest =>
      have hnext := hascending.child_le hinner (mem_preorder_of_mem List.mem_cons_self)
      have hlast : next.line - 1 = last := Option.some.inj hlast
      have hline : inner.line ≤ next.line := hnext
      omega

/-- A line inside the span of the first sibling is inside the bound. -/
theorem Bounded.within (hascending : Ascending (declaration :: following))
    (hbounded : Bounded (declaration :: following) parentEnd)
    (hlast : Within line (spanEnd following parentEnd)) : Within line parentEnd := by
  cases following with
  | nil => exact hlast
  | cons next rest =>
      intro bound hbound
      have hnext := hbounded ⟨[], next⟩
        (mem_preorder_of_mem (List.mem_cons_of_mem _ List.mem_cons_self)) bound hbound
      have hpositive := hascending.rest.positive ⟨[], next⟩
        (mem_preorder_of_mem List.mem_cons_self)
      have hline := hlast (next.line - 1) rfl
      simp only [Placed.line] at hnext hpositive
      omega

end Bounds

theorem cons_prefix_further (index : ℕ) (inner position : List ℕ) :
    (index + 1) :: inner <+: further position ↔ index :: inner <+: position := by
  cases position with
  | nil => simp [further]
  | cons first rest => simp [further, List.cons_prefix_cons]

theorem not_zero_prefix_further (inner position : List ℕ) :
    ¬0 :: inner <+: further position := by
  cases position with
  | nil => simp [further]
  | cons first rest => simp [further, List.cons_prefix_cons]

theorem declarationAt_zero (declaration : Declaration) (following : List Declaration)
    (inner : List ℕ) (parentEnd : Option ℕ) :
    declarationAt (0 :: inner) (declaration :: following) parentEnd =
      if inner = [] then some (declaration, spanEnd following parentEnd)
      else declarationAt inner declaration.children (spanEnd following parentEnd) := rfl

/-- What stands at a position stands somewhere in pre-order. -/
theorem mem_preorder_of_declarationAt {declarations : List Declaration}
    {position : List ℕ} {parentEnd last : Option ℕ} {found : Declaration}
    (hfound : declarationAt position declarations parentEnd = some (found, last)) :
    ∃ placed ∈ preorder declarations, placed.declaration = found := by
  induction declarations using siblings_induct generalizing position parentEnd with
  | nil => cases position <;> simp [declarationAt] at hfound
  | cons declaration following ihchildren ihfollowing =>
      cases position with
      | nil => simp [declarationAt] at hfound
      | cons index inner =>
          cases index with
          | zero =>
              rw [declarationAt_zero] at hfound
              split_ifs at hfound with hinner
              · obtain ⟨rfl, -⟩ := Prod.mk.inj (Option.some.inj hfound)
                exact ⟨_, mem_preorder_of_mem List.mem_cons_self, rfl⟩
              · obtain ⟨placed, hplaced, rfl⟩ := ihchildren hfound
                exact ⟨placed.under declaration,
                  (mem_preorder_cons _).2 (Or.inr (Or.inl ⟨placed, hplaced, rfl⟩)), rfl⟩
          | succ index =>
              have hrest : declarationAt (index :: inner) following parentEnd =
                  some (found, last) := hfound
              obtain ⟨placed, hplaced, rfl⟩ := ihfollowing hrest
              exact ⟨placed, (mem_preorder_cons _).2 (Or.inr (Or.inr hplaced)), rfl⟩

/-- The lines of a declaration are those whose chain goes through its position. -/
theorem spans_iff_isPrefix {declarations : List Declaration}
    (hascending : Ascending declarations) {parentEnd : Option ℕ}
    (hbounded : Bounded declarations parentEnd) {position : List ℕ}
    {found : Declaration} {last : Option ℕ}
    (hfound : declarationAt position declarations parentEnd = some (found, last))
    (line : ℕ) :
    spans found.line last line = true ↔
      Within line parentEnd ∧ position <+: enclosingPath declarations line parentEnd := by
  induction declarations using siblings_induct generalizing position parentEnd with
  | nil => cases position <;> simp [declarationAt] at hfound
  | cons declaration following ihchildren ihfollowing =>
      cases position with
      | nil => simp [declarationAt] at hfound
      | cons index inner =>
          rw [enclosingPath_cons]
          cases index with
          | zero =>
              rw [declarationAt_zero] at hfound
              split_ifs at hfound with hinner
              · obtain ⟨rfl, rfl⟩ := Prod.mk.inj (Option.some.inj hfound)
                rw [hinner]
                split_ifs with hspans
                · have hlast := ((spans_iff _ _ _).1 hspans).2
                  have hwithin := hbounded.within hascending hlast
                  simp [hspans, hwithin, List.cons_prefix_cons]
                · simp [hspans, not_zero_prefix_further]
              · have hchildren := hbounded.children hascending
                rw [ihchildren hascending.children hchildren hfound]
                constructor
                · rintro ⟨hlast, hprefix⟩
                  have hspan := (ihchildren hascending.children hchildren hfound).2
                    ⟨hlast, hprefix⟩
                  obtain ⟨placed, hplaced, rfl⟩ := mem_preorder_of_declarationAt hfound
                  have hname : declaration.line ≤ line :=
                    (hascending.child_ge hplaced).trans ((spans_iff _ _ _).1 hspan).1
                  rw [if_pos ((spans_iff _ _ _).2 ⟨hname, hlast⟩)]
                  exact ⟨hbounded.within hascending hlast,
                    List.cons_prefix_cons.2 ⟨rfl, hprefix⟩⟩
                · rintro ⟨-, hprefix⟩
                  split_ifs at hprefix with hspans
                  · exact ⟨((spans_iff _ _ _).1 hspans).2,
                      (List.cons_prefix_cons.1 hprefix).2⟩
                  · exact absurd hprefix (not_zero_prefix_further _ _)
          | succ index =>
              have hlater : declarationAt (index :: inner) following parentEnd =
                  some (found, last) := hfound
              rw [ihfollowing hascending.rest hbounded.rest hlater]
              apply and_congr_right
              intro hwithin
              split_ifs with hspans
              · -- a line of the first sibling is above everything that follows
                obtain ⟨-, hbelow⟩ := (spans_first_iff hascending hwithin).1 hspans
                obtain ⟨placed, hplaced, rfl⟩ := mem_preorder_of_declarationAt hlater
                have hapart : ¬index :: inner <+: enclosingPath following line parentEnd := by
                  intro hprefix
                  have hspan := (ihfollowing hascending.rest hbounded.rest hlater).2
                    ⟨hwithin, hprefix⟩
                  have hname := ((spans_iff _ _ _).1 hspan).1
                  exact absurd hname (not_le.2 (hbelow placed hplaced))
                simp [hapart, List.cons_prefix_cons]
              · rw [cons_prefix_further]

/-! ## The declaration a line starts -/

/-- The walk comes out at a declaration whose name is at or above the line. -/
theorem declarationAt_enclosingPath {declarations : List Declaration} {line : ℕ}
    {parentEnd : Option ℕ} (hpath : enclosingPath declarations line parentEnd ≠ []) :
    ∃ found last, found.line ≤ line ∧
      declarationAt (enclosingPath declarations line parentEnd) declarations parentEnd =
        some (found, last) := by
  induction declarations using siblings_induct generalizing parentEnd with
  | nil => exact absurd rfl hpath
  | cons declaration following ihchildren ihfollowing =>
      rw [enclosingPath_cons] at hpath ⊢
      split_ifs at hpath ⊢ with hspans
      · rw [declarationAt_zero]
        by_cases hinner : enclosingPath declaration.children line
            (spanEnd following parentEnd) = []
        · rw [if_pos hinner]
          exact ⟨declaration, _, ((spans_iff _ _ _).1 hspans).1, rfl⟩
        · rw [if_neg hinner]
          exact ihchildren hinner
      · rw [declarationAt_further]
        apply ihfollowing
        intro hnil
        exact hpath (by rw [hnil]; rfl)

/-- The declaration the walk for a line comes out at, with its recovered end, if
its name is on the line. -/
def startingOn (declarations : List Declaration) (line : ℕ) (parentEnd : Option ℕ) :
    Option (Declaration × Option ℕ) :=
  (declarationAt (enclosingPath declarations line parentEnd) declarations
    parentEnd).filter fun found => found.1.line = line

theorem startingOn_of_below {declarations : List Declaration} {line : ℕ}
    (hbelow : ∀ placed ∈ preorder declarations, line < placed.line)
    (parentEnd : Option ℕ) : startingOn declarations line parentEnd = none := by
  have hchain : enclosingChain declarations line parentEnd = [] :=
    enclosingChain_eq_nil (fun declaration hmem =>
      hbelow ⟨[], declaration⟩ (mem_preorder_of_mem hmem)) parentEnd
  have hpath : enclosingPath declarations line parentEnd = [] := by
    by_contra hne
    obtain ⟨found, last, habove, hfound⟩ := declarationAt_enclosingPath hne
    obtain ⟨placed, hplaced, rfl⟩ := mem_preorder_of_declarationAt hfound
    exact absurd habove (not_le.2 (hbelow placed hplaced))
  rw [startingOn, hpath]
  rfl

/-- A declaration inside the first sibling comes before the sibling itself, and
that before what follows. -/
theorem startingOn_cons {declaration : Declaration} {following : List Declaration}
    (hascending : Ascending (declaration :: following)) (line : ℕ)
    (parentEnd : Option ℕ) :
    startingOn (declaration :: following) line parentEnd =
      if spans declaration.line (spanEnd following parentEnd) line then
        (startingOn declaration.children line (spanEnd following parentEnd)).or
          (if declaration.line = line then
            some (declaration, spanEnd following parentEnd) else none)
      else startingOn following line parentEnd := by
  rw [startingOn, enclosingPath_cons]
  split_ifs with hspans hline
  · rw [declarationAt_zero]
    split_ifs with hinner
    · simp [startingOn, hinner, declarationAt, hline]
    · obtain ⟨found, last, habove, hfound⟩ := declarationAt_enclosingPath hinner
      obtain ⟨placed, hplaced, rfl⟩ := mem_preorder_of_declarationAt hfound
      have hname : placed.declaration.line = line :=
        le_antisymm habove (hline ▸ hascending.child_ge hplaced)
      simp [startingOn, hfound, Option.filter, hname]
  · rw [declarationAt_zero, Option.or_none]
    split_ifs with hinner
    · simp [startingOn, hinner, declarationAt, hline]
    · rfl
  · rw [declarationAt_further]
    rfl

/-- `declaration_starting_at` and `declaration_span_at` are two readings of one
search. -/
theorem search_eq_startingOn {declarations : List Declaration}
    (hascending : Ascending declarations) {line : ℕ} {parentEnd : Option ℕ}
    (hwithin : Within line parentEnd) :
    (enclosingChain declarations line parentEnd).reverse.find? (·.line = line) =
        (startingOn declarations line parentEnd).map Prod.fst ∧
      spanAt declarations line parentEnd =
        (startingOn declarations line parentEnd).map fun found =>
          ⟨found.1.line, found.2⟩ := by
  induction declarations using siblings_induct generalizing parentEnd with
  | nil => exact ⟨rfl, rfl⟩
  | cons declaration following ihchildren ihfollowing =>
      obtain ⟨hchainRest, hspanRest⟩ := ihfollowing hascending.rest hwithin
      have hwithinSpan : spanWithin declaration line (spanEnd following parentEnd) =
          (spanAt declaration.children line (spanEnd following parentEnd)).or
            (if declaration.line = line then
              some ⟨line, spanEnd following parentEnd⟩ else none) := by
        cases declaration
        rfl
      rw [startingOn_cons hascending, enclosingChain_cons, spanAt]
      split_ifs with hspans hline
      · obtain ⟨hchainInner, hspanInner⟩ :=
          ihchildren hascending.children ((spans_iff _ _ _).1 hspans).2
        rw [List.reverse_cons, List.find?_append, hchainInner, hwithinSpan, hspanInner]
        cases startingOn declaration.children line (spanEnd following parentEnd) with
        | some found => simp
        | none => simp [hline]
      · obtain ⟨hchainInner, hspanInner⟩ :=
          ihchildren hascending.children ((spans_iff _ _ _).1 hspans).2
        obtain ⟨-, hbelow⟩ := (spans_first_iff hascending hwithin).1 hspans
        rw [List.reverse_cons, List.find?_append, hchainInner, hwithinSpan, hspanInner,
          hspanRest, startingOn_of_below hbelow]
        cases startingOn declaration.children line (spanEnd following parentEnd) with
        | some found => simp
        | none => simp [hline]
      · exact ⟨hchainRest, by rw [Option.none_or, hspanRest]⟩

/-- `declaration_span_at` answers when `declaration_starting_at` does, with the
span recovered for that declaration at its position, and the lines of the span are
those whose chain goes through that position.  The chain of a line is what stands
along its path. -/
theorem body_ends_with_references (skeleton : FileSkeleton)
    (hascending : Ascending skeleton.declarations) (line : ℕ) :
    (∀ other, enclosingChain skeleton.declarations other none =
        declarationsAlong (enclosingPath skeleton.declarations other none)
          skeleton.declarations) ∧
      (declarationSpanAt skeleton line).isSome =
        (declarationStartingAt skeleton line).isSome ∧
      ∀ declaration, declarationStartingAt skeleton line = some declaration →
        ∃ position last,
          position = enclosingPath skeleton.declarations line none ∧
          declarationAt position skeleton.declarations none = some (declaration, last) ∧
          declarationSpanAt skeleton line = some ⟨declaration.line, last⟩ ∧
          ∀ other, spans declaration.line last other = true ↔
            position <+: enclosingPath skeleton.declarations other none := by
  have hwithin (other : ℕ) : Within other none := by simp [Within]
  have hbounded : Bounded skeleton.declarations none := by simp [Bounded]
  obtain ⟨hstarting, hspan⟩ := search_eq_startingOn hascending (hwithin line)
  rw [← declarationSpanAt] at hspan
  rw [← declarationStartingAt] at hstarting
  refine ⟨fun other => (declarationsAlong_enclosingPath _ other none).symm,
    by rw [hspan, hstarting, Option.isSome_map, Option.isSome_map], ?_⟩
  intro declaration hdeclaration
  rw [hstarting, Option.map_eq_some_iff] at hdeclaration
  obtain ⟨⟨found, last⟩, hfound, rfl⟩ := hdeclaration
  have hplace := (Option.filter_eq_some_iff.1 hfound).1
  refine ⟨_, last, rfl, hplace, by rw [hspan, hfound]; rfl, ?_⟩
  intro other
  rw [spans_iff_isPrefix hascending hbounded hplace other, and_iff_right (hwithin other)]

theorem sharedLine_body :
    declarationStartingAt sharedLineFile 2 = some (Declaration.new .val "y" 2) ∧
      ∃ last, declarationSpanAt sharedLineFile 2 = some ⟨2, last⟩ ∧
        ∀ other, spans 2 last other = true ↔
          [0, 1, 0] <+: enclosingPath sharedLineFile.declarations other none := by
  have hstarting : declarationStartingAt sharedLineFile 2 =
      some (Declaration.new .val "y" 2) := rfl
  obtain ⟨-, -, hbody⟩ := body_ends_with_references sharedLineFile
    ascending_sharedLineFile 2
  obtain ⟨position, last, rfl, -, hspan, hlines⟩ := hbody _ hstarting
  exact ⟨hstarting, last, hspan, hlines⟩

end Ktsense.Core
