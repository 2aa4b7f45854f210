import Ktsense.Core.References

/-!
# How exact the attribution of a line is

A declaration of the source has a first line, where its annotations and
modifiers start, the line of its name and a last line; the skeleton keeps the
line of the name alone.  A line belongs to a declaration when it lies inside
its extent and outside the extents of its children.  `attribution_exact_iff`
says which such lines the recovered spans attribute to that declaration: those
at or below every name on the way in, and above the name of every child.
-/

namespace Ktsense.Core

open Ktsense.Foundation

/-- A declaration as it stands in the source: what the extractor records of it
apart from its children, and the lines it really covers. -/
structure SourceDeclaration where
  head : Declaration
  first : ℕ
  last : ℕ
  children : List SourceDeclaration

namespace SourceDeclaration

/-- The line of the name. -/
def nameLine (source : SourceDeclaration) : ℕ := source.head.line

def Covers (source : SourceDeclaration) (line : ℕ) : Prop :=
  source.first ≤ line ∧ line ≤ source.last

/-- A line of the declaration that belongs to none of its children. -/
def Owns (source : SourceDeclaration) (line : ℕ) : Prop :=
  source.Covers line ∧ ∀ child ∈ source.children, ¬child.Covers line

end SourceDeclaration

mutual

/-- The declaration the extractor stores: the extent is not kept. -/
def extract : SourceDeclaration → Declaration
  | { head, children, .. } => head.containing (extractAll children)

def extractAll : List SourceDeclaration → List Declaration
  | [] => []
  | source :: following => extract source :: extractAll following

end

/-- Siblings in source order with disjoint extents, each name inside its
declaration and each child inside its parent, all the way down. -/
inductive LaidOut : List SourceDeclaration → Prop
  | intro {siblings : List SourceDeclaration}
      (hdisjoint : siblings.Pairwise fun left right => left.last < right.first)
      (hname : ∀ source ∈ siblings, source.Covers source.nameLine)
      (hinside : ∀ source ∈ siblings, ∀ child ∈ source.children,
        source.first ≤ child.first ∧ child.last ≤ source.last)
      (hchildren : ∀ source ∈ siblings, LaidOut source.children) :
      LaidOut siblings

/-- A way down from a top-level declaration to the one it ends in. -/
inductive Nesting : List SourceDeclaration → List SourceDeclaration →
    SourceDeclaration → Prop
  | here {siblings : List SourceDeclaration} {source : SourceDeclaration}
      (hmem : source ∈ siblings) : Nesting siblings [source] source
  | inside {siblings chain : List SourceDeclaration}
      {source target : SourceDeclaration} (hmem : source ∈ siblings)
      (hnesting : Nesting source.children chain target) :
      Nesting siblings (source :: chain) target

/-- A source file: its declarations, laid out as a parser finds them. -/
structure SourceFile where
  skeleton : FileSkeleton
  declarations : List SourceDeclaration
  laidOut : LaidOut declarations

/-- The skeleton the extractor makes of the file. -/
def SourceFile.extracted (file : SourceFile) : FileSkeleton :=
  file.skeleton.withDeclarations (extractAll file.declarations)

/-- `enclosing_declaration` names the declaration the chain ends in: the spans
that hold the line are those of the chain, and the answer is made of it. -/
def AttributedTo (skeleton : FileSkeleton) (line : ℕ)
    (chain : List SourceDeclaration) : Prop :=
  enclosingChain skeleton.declarations line none = extractAll chain ∧
    ∃ hchain : extractAll chain ≠ [],
      enclosingDeclaration skeleton line =
        some (EnclosingDeclaration.fromChain (extractAll chain) hchain)

/-- Every line that is code is attributed to the declaration it belongs to. -/
def AttributionExact (file : SourceFile) (isCode : ℕ → Prop) : Prop :=
  ∀ chain source, Nesting file.declarations chain source →
    ∀ line, source.Owns line → isCode line →
      AttributedTo file.extracted line chain

/-- No code line of a declaration lies above its name or above the name of a
declaration around it, or at or below the name of one of its children. -/
def CodeBetweenNames (file : SourceFile) (isCode : ℕ → Prop) : Prop :=
  ∀ chain source, Nesting file.declarations chain source →
    ∀ line, source.Owns line → isCode line →
      (∀ around ∈ chain, around.nameLine ≤ line) ∧
        ∀ child ∈ source.children, line < child.nameLine

/-! ## What extraction keeps -/

@[simp]
theorem extract_line (source : SourceDeclaration) :
    (extract source).line = source.nameLine := by
  cases source
  rfl

@[simp]
theorem extract_children (source : SourceDeclaration) :
    (extract source).children = extractAll source.children := by
  cases source
  rfl

theorem extractAll_eq_map (sources : List SourceDeclaration) :
    extractAll sources = sources.map extract := by
  induction sources with
  | nil => rfl
  | cons source following ih => rw [extractAll, ih, List.map_cons]

/-! ## The walk into the spans -/

theorem chainWithin_eq (declaration : Declaration) (line : ℕ)
    (last : Option ℕ) :
    chainWithin declaration line last =
      declaration :: enclosingChain declaration.children line last := by
  cases declaration
  rfl

theorem enclosingChain_cons (declaration : Declaration)
    (following : List Declaration) (line : ℕ) (parentEnd : Option ℕ) :
    enclosingChain (declaration :: following) line parentEnd =
      if spans declaration.line (spanEnd following parentEnd) line then
        declaration :: enclosingChain declaration.children line
          (spanEnd following parentEnd)
      else enclosingChain following line parentEnd := by
  rw [enclosingChain, chainWithin_eq]

/-- The bound of the parent does not cut the line off. -/
def Within (line : ℕ) (bound : Option ℕ) : Prop :=
  ∀ last ∈ bound, line ≤ last

theorem spans_iff (start line : ℕ) (last : Option ℕ) :
    spans start last line = true ↔ start ≤ line ∧ Within line last := by
  cases last <;> simp [spans, Within]

/-- The outermost declaration of a chain holds the line, and the rest of the
chain is what its children give. -/
theorem head_of_enclosingChain {declarations rest : List Declaration}
    {outer : Declaration} {line : ℕ} {parentEnd : Option ℕ}
    (hchain : enclosingChain declarations line parentEnd = outer :: rest) :
    outer.line ≤ line ∧
      ∃ last, enclosingChain outer.children line last = rest := by
  induction declarations with
  | nil => cases hchain
  | cons declaration following ih =>
      rw [enclosingChain_cons] at hchain
      split_ifs at hchain with hspans
      · obtain ⟨rfl, hrest⟩ := List.cons.inj hchain
        exact ⟨((spans_iff _ _ _).1 hspans).1, _, hrest⟩
      · exact ih hchain

/-- Every declaration of the chain starts at or above the line. -/
theorem line_le_of_mem_enclosingChain {declarations chain : List Declaration}
    {line : ℕ} {parentEnd : Option ℕ}
    (hchain : enclosingChain declarations line parentEnd = chain) :
    ∀ declaration ∈ chain, declaration.line ≤ line := by
  induction chain generalizing declarations parentEnd with
  | nil => simp
  | cons outer rest ih =>
      obtain ⟨houter, last, hrest⟩ := head_of_enclosingChain hchain
      intro declaration hmem
      rcases List.mem_cons.1 hmem with rfl | hinner
      · exact houter
      · exact ih hrest declaration hinner

/-- A line above every name is in no span. -/
theorem enclosingChain_eq_nil {declarations : List Declaration} {line : ℕ}
    (habove : ∀ declaration ∈ declarations, line < declaration.line)
    (parentEnd : Option ℕ) :
    enclosingChain declarations line parentEnd = [] := by
  induction declarations with
  | nil => rfl
  | cons declaration following ih =>
      have hbelow : ¬declaration.line ≤ line :=
        not_le.2 (habove _ List.mem_cons_self)
      rw [enclosingChain_cons, if_neg fun hspans =>
        hbelow ((spans_iff _ _ _).1 hspans).1]
      exact ih fun other hmem => habove other (List.mem_cons_of_mem _ hmem)

/-! ## Siblings in order -/

variable {siblings chain : List SourceDeclaration}
  {source target : SourceDeclaration} {line : ℕ} {parentEnd : Option ℕ}

/-- Names of siblings ascend with their extents. -/
theorem LaidOut.names_ascend (hlaid : LaidOut siblings) :
    siblings.Pairwise fun left right => left.nameLine < right.nameLine := by
  obtain ⟨hdisjoint, hname, -, -⟩ := hlaid
  refine hdisjoint.imp_of_mem ?_
  intro left right hleft hright hlt
  exact ((hname left hleft).2.trans_lt hlt).trans_le (hname right hright).1

theorem LaidOut.tail {following : List SourceDeclaration}
    (hlaid : LaidOut (source :: following)) : LaidOut following := by
  obtain ⟨hdisjoint, hname, hinside, hchildren⟩ := hlaid
  exact ⟨hdisjoint.tail,
    fun other hmem => hname other (List.mem_cons_of_mem _ hmem),
    fun other hmem => hinside other (List.mem_cons_of_mem _ hmem),
    fun other hmem => hchildren other (List.mem_cons_of_mem _ hmem)⟩

/-- A line a declaration covers is within the span recovered for it. -/
theorem within_spanEnd {following : List SourceDeclaration}
    (hlaid : LaidOut (source :: following)) (hcovers : source.Covers line)
    (hwithin : Within line parentEnd) :
    Within line (spanEnd (extractAll following) parentEnd) := by
  cases following with
  | nil => exact hwithin
  | cons next rest =>
      obtain ⟨hdisjoint, hname, -, -⟩ := hlaid
      have hgap : source.last < next.first :=
        (List.pairwise_cons.1 hdisjoint).1 next List.mem_cons_self
      have hnext : next.first ≤ next.nameLine :=
        (hname next (by simp)).1
      intro last hlast
      simp only [extractAll, spanEnd, extract_line, Option.mem_def,
        Option.some.injEq] at hlast
      have := hcovers.2
      omega

/-- A declaration that covers the line and whose name is not below it is the
one the walk enters. -/
theorem enclosingChain_of_covers (hlaid : LaidOut siblings)
    (hmem : source ∈ siblings) (hcovers : source.Covers line)
    (hname : source.nameLine ≤ line) (hwithin : Within line parentEnd) :
    ∃ last, Within line last ∧
      enclosingChain (extractAll siblings) line parentEnd =
        extract source ::
          enclosingChain (extractAll source.children) line last := by
  induction siblings with
  | nil => cases hmem
  | cons first following ih =>
      rw [extractAll, enclosingChain_cons]
      rcases List.mem_cons.1 hmem with rfl | hlater
      · have hspan := within_spanEnd hlaid hcovers hwithin
        refine ⟨_, hspan, ?_⟩
        rw [if_pos ((spans_iff _ _ _).2 ⟨by simpa using hname, hspan⟩),
          extract_children]
      · -- The span of an earlier sibling ends above the next name, hence above
        -- the name of `source`.
        have hends : ¬Within line (spanEnd (extractAll following) parentEnd) := by
          cases following with
          | nil => cases hlater
          | cons next rest =>
              have hnext : next.nameLine ≤ line := by
                rcases List.mem_cons.1 hlater with rfl | hrest
                · exact hname
                · have hascend := (List.pairwise_cons.1 hlaid.tail.names_ascend).1
                  exact (hascend source hrest).le.trans hname
              have hpositive : 0 < next.nameLine :=
                (Nat.zero_le _).trans_lt
                  ((List.pairwise_cons.1 hlaid.names_ascend).1 next
                    List.mem_cons_self)
              intro hwithin
              have := hwithin (next.nameLine - 1) (by simp [extractAll, spanEnd])
              omega
        rw [if_neg fun hspans => hends ((spans_iff _ _ _).1 hspans).2]
        exact ih hlaid.tail hlater

/-- With a name at or above a line inside the bound, some span holds it. -/
theorem enclosingChain_ne_nil (hlaid : LaidOut siblings)
    (hmem : source ∈ siblings) (hname : source.nameLine ≤ line)
    (hwithin : Within line parentEnd) :
    enclosingChain (extractAll siblings) line parentEnd ≠ [] := by
  induction siblings generalizing source with
  | nil => cases hmem
  | cons first following ih =>
      rw [extractAll, enclosingChain_cons]
      split_ifs with hspans
      · exact List.cons_ne_nil _ _
      · rcases List.mem_cons.1 hmem with rfl | hlater
        · cases following with
          | nil =>
              exact absurd ((spans_iff _ _ _).2
                ⟨by simpa using hname, by simpa [extractAll, spanEnd]⟩) hspans
          | cons next rest =>
              refine ih hlaid.tail List.mem_cons_self ?_
              by_contra hbelow
              refine hspans ((spans_iff _ _ _).2 ⟨by simpa using hname, ?_⟩)
              intro last hlast
              simp only [extractAll, spanEnd, extract_line, Option.mem_def,
                Option.some.injEq] at hlast
              omega
        · exact ih hlaid.tail hlater hname

/-! ## The chain of an owned line -/

/-- A declaration covers what its children cover. -/
theorem LaidOut.covers_of_child {child : SourceDeclaration}
    (hlaid : LaidOut siblings) (hmem : source ∈ siblings)
    (hchild : child ∈ source.children) (hcovers : child.Covers line) :
    source.Covers line := by
  obtain ⟨-, -, hinside, -⟩ := hlaid
  have hbounds := hinside source hmem child hchild
  exact ⟨hbounds.1.trans hcovers.1, hcovers.2.trans hbounds.2⟩

theorem LaidOut.children (hlaid : LaidOut siblings)
    (hmem : source ∈ siblings) : LaidOut source.children := by
  obtain ⟨-, -, -, hchildren⟩ := hlaid
  exact hchildren source hmem

theorem Nesting.laidOut (hnesting : Nesting siblings chain target)
    (hlaid : LaidOut siblings) : LaidOut target.children := by
  induction hnesting with
  | here hmem => exact hlaid.children hmem
  | inside hmem _ ih => exact ih (hlaid.children hmem)

/-- What the target of a nesting covers, a sibling at its start covers. -/
theorem Nesting.covers (hnesting : Nesting siblings chain target)
    (hlaid : LaidOut siblings) (hcovers : target.Covers line) :
    ∃ source ∈ siblings, source.Covers line := by
  induction hnesting with
  | here hmem => exact ⟨_, hmem, hcovers⟩
  | inside hmem _ ih =>
      obtain ⟨child, hchild, hline⟩ := ih (hlaid.children hmem) hcovers
      exact ⟨_, hmem, hlaid.covers_of_child hmem hchild hline⟩

/-- The walk follows a nesting whose names are all at or above the line, and
then goes on into the children of its target. -/
theorem Nesting.enclosingChain_eq (hnesting : Nesting siblings chain target)
    (hlaid : LaidOut siblings) (hcovers : target.Covers line)
    (hnames : ∀ source ∈ chain, source.nameLine ≤ line)
    (hwithin : Within line parentEnd) :
    ∃ last, Within line last ∧
      enclosingChain (extractAll siblings) line parentEnd =
        extractAll chain ++
          enclosingChain (extractAll target.children) line last := by
  induction hnesting generalizing parentEnd with
  | here hmem =>
      exact enclosingChain_of_covers hlaid hmem hcovers
        (hnames _ List.mem_cons_self) hwithin
  | @inside siblings chain source target hmem hnesting ih =>
      obtain ⟨child, hchild, hline⟩ :=
        hnesting.covers (hlaid.children hmem) hcovers
      have hsource := hlaid.covers_of_child hmem hchild hline
      obtain ⟨last, hlast, houter⟩ := enclosingChain_of_covers hlaid hmem
        hsource (hnames _ List.mem_cons_self) hwithin
      obtain ⟨inner, hinner, hchain⟩ := ih (hlaid.children hmem) hcovers
        (fun other hother => hnames other (List.mem_cons_of_mem _ hother)) hlast
      refine ⟨inner, hinner, ?_⟩
      rw [houter, hchain, extractAll, List.cons_append]

theorem Nesting.chain_ne_nil (hnesting : Nesting siblings chain target) :
    extractAll chain ≠ [] := by
  cases hnesting <;> simp [extractAll]

/-- An owned line is attributed to its declaration exactly when it lies between
the names on the way in and the names of the children. -/
theorem Nesting.enclosingChain_eq_iff (hnesting : Nesting siblings chain target)
    (hlaid : LaidOut siblings) (hcovers : target.Covers line) :
    enclosingChain (extractAll siblings) line none = extractAll chain ↔
      (∀ around ∈ chain, around.nameLine ≤ line) ∧
        ∀ child ∈ target.children, line < child.nameLine := by
  have hwithin : Within line none := by simp [Within]
  constructor
  · intro hchain
    have hnames : ∀ around ∈ chain, around.nameLine ≤ line := by
      intro around haround
      have hmem : extract around ∈ extractAll chain := by
        rw [extractAll_eq_map]
        exact List.mem_map_of_mem haround
      simpa using line_le_of_mem_enclosingChain hchain _ hmem
    refine ⟨hnames, ?_⟩
    intro child hchild
    by_contra hbelow
    obtain ⟨last, hlast, hwalk⟩ :=
      hnesting.enclosingChain_eq hlaid hcovers hnames hwithin
    have hentered := enclosingChain_ne_nil (hnesting.laidOut hlaid) hchild
      (not_lt.1 hbelow) hlast
    rw [hchain] at hwalk
    exact hentered (List.self_eq_append_right.1 hwalk)
  · rintro ⟨hnames, hbelow⟩
    obtain ⟨last, -, hwalk⟩ :=
      hnesting.enclosingChain_eq hlaid hcovers hnames hwithin
    have hstop : enclosingChain (extractAll target.children) line last = [] := by
      apply enclosingChain_eq_nil
      intro declaration hmem
      rw [extractAll_eq_map] at hmem
      obtain ⟨child, hchild, rfl⟩ := List.mem_map.1 hmem
      simpa using hbelow child hchild
    rw [hwalk, hstop, List.append_nil]

/-- The answer follows the chain. -/
theorem attributedTo_iff (skeleton : FileSkeleton)
    (hchain : extractAll chain ≠ []) :
    AttributedTo skeleton line chain ↔
      enclosingChain skeleton.declarations line none = extractAll chain := by
  refine ⟨And.left, fun heq => ⟨heq, hchain, ?_⟩⟩
  simp only [enclosingDeclaration, heq, dif_neg hchain]

/-- Attribution is exact for the code of a file if and only if its code keeps
between the names. -/
theorem attribution_exact_iff (file : SourceFile) (isCode : ℕ → Prop) :
    AttributionExact file isCode ↔ CodeBetweenNames file isCode := by
  refine forall₅_congr fun chain source hnesting line howns => ?_
  refine imp_congr_right fun _ => ?_
  rw [attributedTo_iff _ hnesting.chain_ne_nil]
  exact hnesting.enclosingChain_eq_iff file.laidOut howns.1

/-- `class A {` on line 1, `fun f() = 1` on line 2, `init { g() }` on line 3 and
the closing brace on line 4. -/
def initializerFile : SourceFile where
  skeleton := FileSkeleton.new "A.kt"
  declarations :=
    [{ head := Declaration.new .classKind "A" 1
       first := 1
       last := 4
       children :=
         [{ head := Declaration.new .function "f" 2
            first := 2
            last := 2
            children := [] }] }]
  laidOut := by
    refine ⟨by simp, ?_, ?_, ?_⟩
    · simp [SourceDeclaration.Covers, SourceDeclaration.nameLine, Declaration.new]
    · simp
    · intro source hsource
      obtain rfl := List.mem_singleton.1 hsource
      refine ⟨by simp, ?_, by simp, ?_⟩
      · simp [SourceDeclaration.Covers, SourceDeclaration.nameLine,
          Declaration.new]
      · intro child hchild
        obtain rfl := List.mem_singleton.1 hchild
        exact ⟨by simp, by simp, by simp, by simp⟩

/-- The call in the initializer block is reported as a call from `f`. -/
theorem initializer_block_misattributed :
    enclosingDeclaration initializerFile.extracted 3 =
        some ⟨.function, "A.f", 2⟩ ∧
      ¬AttributionExact initializerFile (· ≤ 3) := by
  have hreported : enclosingDeclaration initializerFile.extracted 3 =
      some ⟨.function, "A.f", 2⟩ := by decide
  refine ⟨hreported, fun hexact => ?_⟩
  have howns : ∀ source ∈ initializerFile.declarations, source.Owns 3 := by
    simp [initializerFile, SourceDeclaration.Owns, SourceDeclaration.Covers]
  obtain ⟨-, hchain, hanswer⟩ := hexact initializerFile.declarations _
    (.here List.mem_cons_self) 3 (howns _ List.mem_cons_self) le_rfl
  rw [hreported] at hanswer
  have hline : 2 = 1 :=
    congrArg EnclosingDeclaration.line (Option.some.inj hanswer)
  exact absurd hline (by decide)

end Ktsense.Core
