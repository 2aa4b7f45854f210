import Ktsense.Core.JavaTokens
import Ktsense.Foundation.Sorting

/-!
# The scope a line is attributed to

The brace scopes of a source are nested in one another or apart, and a line goes to
the scope that opens on the greatest line among those that contain it; of several
that open there, to the last one closed.  Nested scopes that open on one line close
from the inside, so the outer one is taken.
-/

namespace Ktsense.Core

open Ktsense.Foundation

/-- `innermost_path`. -/
def innermostPath (intervals : List Interval) (line : ℕ) : Option String :=
  (lastMaxBy Interval.openLine (intervals.filter fun interval =>
    interval.openLine ≤ line && line ≤ interval.closeLine)).bind (·.path)

def javaEnclosingDeclarations (letters : Letters) (source : String) (lines : List ℕ) :
    List (Option String) :=
  let intervals := enclosingIntervals letters source
  lines.map (innermostPath intervals)

/-! ## Scopes with their braces -/

/-- The offsets of a scope's braces, the lines it spans, and the names of the named
scopes around it, its own among them. -/
structure BraceScope where
  opens : ℕ
  closes : ℕ
  openLine : ℕ
  closeLine : ℕ
  names : List String
  deriving DecidableEq, Repr

def dotted (names : List String) : Option String :=
  if names.isEmpty then none else some (".".intercalate names)

namespace BraceScope

def interval (scope : BraceScope) : Interval :=
  ⟨scope.openLine, scope.closeLine, dotted scope.names⟩

def Contains (scope : BraceScope) (line : ℕ) : Prop :=
  scope.openLine ≤ line ∧ line ≤ scope.closeLine

/-- Between the braces of the other. -/
def Inside (inner outer : BraceScope) : Prop :=
  outer.opens < inner.opens ∧ inner.closes ≤ outer.closes

end BraceScope

structure OpenBrace where
  opens : ℕ
  openLine : ℕ
  names : List String
  deriving DecidableEq, Repr

def OpenBrace.close (brace : OpenBrace) (closes closeLine : ℕ) : BraceScope :=
  ⟨brace.opens, closes, brace.openLine, closeLine, brace.names⟩

/-- The enclosing scan together with the braces of the scopes it has open and has
closed. -/
structure ScopeWalk where
  scan : EnclosingScan
  around : List OpenBrace
  closed : List BraceScope
  deriving DecidableEq, Repr

namespace ScopeWalk

def start : ScopeWalk := ⟨.start, [], []⟩

def see (walk : ScopeWalk) (item : Seen) : ScopeWalk :=
  let scan := walk.scan.see item
  match item with
  | .token ⟨.lBrace, line, offset⟩ =>
      let openLine := (scan.opened.head?.map (·.openLine)).getD line
      { walk with scan, around := ⟨offset, openLine, scan.namedStack⟩ :: walk.around }
  | .token ⟨.rBrace, line, offset⟩ =>
      { scan
        around := walk.around.tail
        closed := walk.closed ++ (walk.around.head?.map (·.close offset line)).toList }
  | _ => { walk with scan }

end ScopeWalk

def scopeWalk (tokens : List Spanned) : ScopeWalk := (seen tokens).foldl ScopeWalk.see .start

/-- The scopes in the order they close; what is still open closes where the source
ends. -/
def braceScopes (letters : Letters) (source : String) : List BraceScope :=
  let walk := scopeWalk (tokenize letters source)
  walk.closed ++ walk.around.map (·.close source.utf8ByteSize (lastLine source))

theorem scan_scopeWalk (tokens : List Spanned) :
    (scopeWalk tokens).scan = enclosingScan tokens := by
  rw [scopeWalk, enclosingScan_eq_foldl]
  have hfold (items : List Seen) (walk : ScopeWalk) :
      (items.foldl ScopeWalk.see walk).scan = items.foldl EnclosingScan.see walk.scan := by
    induction items generalizing walk with
    | nil => rfl
    | cons item rest ih =>
        rw [List.foldl_cons, List.foldl_cons, ih]
        congr 1
        rw [ScopeWalk.see.eq_def]
        split <;> rfl
  exact hfold _ _

/-! ## Nested or apart -/

/-- An inner scope against one around it. -/
structure Nested (inner outer : BraceScope) : Prop where
  inside : inner.Inside outer
  openLine : outer.openLine ≤ inner.openLine
  closeLine : inner.closeLine ≤ outer.closeLine
  names : outer.names <+: inner.names

/-- A scope against one that opens after it is closed. -/
structure Apart (first second : BraceScope) : Prop where
  offsets : first.closes < second.opens
  lines : first.closeLine ≤ second.openLine

/-- A scope against one that closes later. -/
def Related (first second : BraceScope) : Prop := Nested first second ∨ Apart first second

/-- The open scopes of the scan and their braces, under the names of the innermost
one. -/
def Aligned : List OpenScope → List OpenBrace → List String → Prop
  | [], [], names => names = []
  | scope :: opened, brace :: around, names =>
      scope.openLine = brace.openLine ∧ scope.path = dotted brace.names ∧
        brace.names = names ∧ ∃ own : Option String, scope.named = own.isSome ∧
          ∃ outer, names = outer ++ own.toList ∧ Aligned opened around outer
  | _, _, _ => False

/-- The order of a walk that has seen what stands before an offset, up to a line. -/
structure ScopeWalk.Ordered (walk : ScopeWalk) (offset line : ℕ) : Prop where
  aligned : Aligned walk.scan.opened walk.around walk.scan.namedStack
  intervals : walk.scan.intervals = walk.closed.map BraceScope.interval
  opened : ∀ brace ∈ walk.around, brace.opens < offset ∧ brace.openLine ≤ line
  around : walk.around.Pairwise fun inner outer => outer.opens < inner.opens ∧
    outer.openLine ≤ inner.openLine ∧ outer.names <+: inner.names
  finished : ∀ scope ∈ walk.closed,
    scope.opens < scope.closes ∧ scope.closes < offset ∧ scope.closeLine ≤ line
  closed : walk.closed.Pairwise Related
  between : ∀ scope ∈ walk.closed, ∀ brace ∈ walk.around,
    (brace.opens < scope.opens ∧ brace.openLine ≤ scope.openLine ∧
        brace.names <+: scope.names) ∨
      scope.closes < brace.opens ∧ scope.closeLine ≤ brace.openLine
  header : ∀ first, walk.scan.unit.startLine = some first → first ≤ line ∧
    (∀ brace ∈ walk.around, brace.openLine ≤ first) ∧
      ∀ scope ∈ walk.closed, scope.closeLine ≤ first

theorem ScopeWalk.ordered_start : ScopeWalk.start.Ordered 0 0 where
  aligned := rfl
  intervals := rfl
  opened := by simp [ScopeWalk.start]
  around := List.Pairwise.nil
  finished := by simp [ScopeWalk.start]
  closed := List.Pairwise.nil
  between := by simp [ScopeWalk.start]
  header := by simp [ScopeWalk.start, EnclosingScan.start, ScanUnit.default]

/-! ## One item -/

theorem ScanUnit.startLine_observeIdent (unit : ScanUnit) (name : String) (line : ℕ) :
    (unit.observeIdent name line).startLine = unit.startLine.or (some line) := by
  rw [ScanUnit.observeIdent]
  split_ifs <;> rfl

theorem ScanUnit.startLine_observeParamListOpen (unit : ScanUnit) :
    unit.observeParamListOpen.startLine = unit.startLine := by
  rw [ScanUnit.observeParamListOpen]
  split_ifs
  · rfl
  · split
    · split_ifs <;> rfl
    · rfl

section Seeing

variable {walk : ScopeWalk} {offset line : ℕ}

theorem ScopeWalk.Ordered.weaken (hordered : walk.Ordered offset line) {here there : ℕ}
    (hhere : offset ≤ here) (hthere : line ≤ there) : walk.Ordered here there where
  aligned := hordered.aligned
  intervals := hordered.intervals
  opened := fun brace hbrace => by
    have hbounds := hordered.opened brace hbrace
    omega
  around := hordered.around
  finished := fun scope hscope => by
    have hbounds := hordered.finished scope hscope
    omega
  closed := hordered.closed
  between := hordered.between
  header := fun first hfirst => by
    obtain ⟨hline, hrest⟩ := hordered.header first hfirst
    exact ⟨hline.trans hthere, hrest⟩

/-- An item that opens and closes nothing. -/
theorem ScopeWalk.Ordered.pass (hordered : walk.Ordered offset line) {scan : EnclosingScan}
    (hopened : scan.opened = walk.scan.opened)
    (hstack : scan.namedStack = walk.scan.namedStack)
    (hintervals : scan.intervals = walk.scan.intervals)
    (hstart : ∀ first, scan.unit.startLine = some first →
      walk.scan.unit.startLine = some first ∨ first = line) :
    ScopeWalk.Ordered { walk with scan } offset line where
  aligned := by
    rw [hopened, hstack]
    exact hordered.aligned
  intervals := hintervals.trans hordered.intervals
  opened := hordered.opened
  around := hordered.around
  finished := hordered.finished
  closed := hordered.closed
  between := hordered.between
  header := by
    intro first hfirst
    rcases hstart first hfirst with hold | rfl
    · exact hordered.header first hold
    · exact ⟨le_rfl, fun brace hbrace => (hordered.opened brace hbrace).2,
        fun scope hscope => (hordered.finished scope hscope).2.2⟩

/-- The line a scope is opened on: not before anything open or closed. -/
theorem ScopeWalk.Ordered.openLine (hordered : walk.Ordered offset line) (here : Spanned)
    (hline : line ≤ here.line) :
    ∃ scope, (walk.scan.openScope here).opened = scope :: walk.scan.opened ∧
      scope.openLine ≤ here.line ∧ (∀ brace ∈ walk.around, brace.openLine ≤ scope.openLine) ∧
        ∀ closed ∈ walk.closed, closed.closeLine ≤ scope.openLine := by
  have hbrace : ∀ brace ∈ walk.around, brace.openLine ≤ here.line :=
    fun brace hbrace => (hordered.opened brace hbrace).2.trans hline
  have hclosed : ∀ closed ∈ walk.closed, closed.closeLine ≤ here.line :=
    fun closed hclosed => (hordered.finished closed hclosed).2.2.trans hline
  refine ⟨_, rfl, ?_⟩
  dsimp only
  split
  · cases hstart : walk.scan.unit.startLine with
    | none => exact ⟨le_rfl, hbrace, hclosed⟩
    | some first =>
        obtain ⟨hfirst, hrest⟩ := hordered.header first hstart
        exact ⟨hfirst.trans hline, hrest⟩
  · exact ⟨le_rfl, hbrace, hclosed⟩

theorem Aligned.isPrefix {opened : List OpenScope} {around : List OpenBrace}
    {names : List String} (haligned : Aligned opened around names) :
    ∀ brace ∈ around, brace.names <+: names := by
  induction around generalizing opened names with
  | nil => simp
  | cons first rest ih =>
      cases opened with
      | nil => exact absurd haligned (by simp [Aligned])
      | cons scope opened =>
          obtain ⟨-, -, hnames, own, -, outer, hsplit, hrest⟩ := haligned
          rintro brace (_ | ⟨_, hbrace⟩)
          · exact hnames ▸ List.prefix_refl _
          · exact (ih hrest brace hbrace).trans (hsplit ▸ List.prefix_append _ _)

theorem ScopeWalk.Ordered.open (hordered : walk.Ordered offset line) (here : Spanned)
    (htoken : here.token = .lBrace) (hoffset : offset ≤ here.offset)
    (hline : line ≤ here.line) :
    (walk.see (.token here)).Ordered (here.offset + 1) here.line := by
  obtain ⟨scope, hscope, hopenLine, hbrace, hclosed⟩ := hordered.openLine here hline
  have hsee : walk.see (.token here) =
      { walk with
        scan := walk.scan.openScope here
        around := ⟨here.offset, scope.openLine, (walk.scan.openScope here).namedStack⟩ ::
          walk.around } := by
    obtain ⟨token, there, place⟩ := here
    cases htoken
    simp only [ScopeWalk.see, EnclosingScan.see, EnclosingScan.step, hscope, List.head?_cons,
      Option.map_some, Option.getD_some]
  obtain ⟨own, hown, hstack⟩ : ∃ own : Option String, scope.named = own.isSome ∧
      (walk.scan.openScope here).namedStack = walk.scan.namedStack ++ own.toList := by
    obtain ⟨rfl, -⟩ := List.cons.inj hscope
    exact ⟨_, rfl, rfl⟩
  have hpath : scope.path = dotted (walk.scan.openScope here).namedStack := by
    obtain ⟨rfl, -⟩ := List.cons.inj hscope
    rfl
  have hlater := hordered.weaken (hoffset.trans (Nat.le_succ _)) hline
  rw [hsee]
  exact {
    aligned := by
      show Aligned (walk.scan.openScope here).opened _ _
      rw [hscope]
      exact ⟨rfl, hpath, rfl, own, hown, _, hstack, hordered.aligned⟩
    intervals := hordered.intervals
    opened := by
      rintro brace (_ | ⟨_, hmem⟩)
      · exact ⟨Nat.lt_succ_self _, hopenLine⟩
      · exact hlater.opened brace hmem
    around := by
      refine List.Pairwise.cons (fun brace hmem => ?_) hordered.around
      refine ⟨(hordered.opened brace hmem).1.trans_le hoffset, hbrace brace hmem, ?_⟩
      exact (hordered.aligned.isPrefix brace hmem).trans (hstack ▸ List.prefix_append _ _)
    finished := hlater.finished
    closed := hordered.closed
    between := by
      rintro closed hmem brace (_ | ⟨_, hinside⟩)
      · exact .inr ⟨(hordered.finished closed hmem).2.1.trans_le hoffset, hclosed closed hmem⟩
      · exact hordered.between closed hmem brace hinside
    header := by
      intro first hfirst
      cases hfirst }

/-- A brace that is closed now lies apart from each scope closed before it, or around it. -/
theorem ScopeWalk.Ordered.related_close (hordered : walk.Ordered offset line)
    {brace : OpenBrace} (hbrace : brace ∈ walk.around) {place there : ℕ}
    (hoffset : offset ≤ place) (hline : line ≤ there) :
    ∀ closed ∈ walk.closed, Related closed (brace.close place there) := by
  intro closed hclosed
  obtain ⟨-, hcloses, hcloseLine⟩ := hordered.finished closed hclosed
  rcases hordered.between closed hclosed brace hbrace with
    ⟨hinside, hlines, hnames⟩ | ⟨hapart, hlines⟩
  · exact .inl ⟨⟨hinside, hcloses.le.trans hoffset⟩, hlines, hcloseLine.trans hline, hnames⟩
  · exact .inr ⟨hapart, hlines⟩

theorem ScopeWalk.Ordered.close (hordered : walk.Ordered offset line) (here : Spanned)
    (htoken : here.token = .rBrace) (hoffset : offset ≤ here.offset)
    (hline : line ≤ here.line) :
    (walk.see (.token here)).Ordered (here.offset + 1) here.line := by
  obtain ⟨token, there, place⟩ := here
  cases htoken
  have hlater := hordered.weaken (hoffset.trans (Nat.le_succ _)) hline
  have haligned := hordered.aligned
  cases hopened : walk.scan.opened with
  | nil =>
      cases haround : walk.around with
      | cons brace around => simp [Aligned, hopened, haround] at haligned
      | nil =>
          have hsee : walk.see (.token ⟨.rBrace, there, place⟩) =
              { walk with scan := { walk.scan with unit := .default } } := by
            simp [ScopeWalk.see, EnclosingScan.see, EnclosingScan.step,
              EnclosingScan.closeScope, hopened, haround]
          rw [hsee]
          exact hlater.pass rfl rfl rfl fun first hfirst => by cases hfirst
  | cons scope opened =>
      cases haround : walk.around with
      | nil => simp [Aligned, hopened, haround] at haligned
      | cons brace around =>
          rw [hopened, haround] at haligned
          obtain ⟨hopenLine, hpath, hnames, own, hown, outer, hsplit, hrest⟩ := haligned
          have hbrace : brace ∈ walk.around := by rw [haround]; exact List.mem_cons_self
          have hopens := hordered.opened brace hbrace
          have hpairs := hordered.around
          rw [haround, List.pairwise_cons] at hpairs
          have hsub : ∀ other ∈ around, other ∈ walk.around := by
            intro other hother
            rw [haround]
            exact List.mem_cons_of_mem _ hother
          have hstack : (if scope.named then walk.scan.namedStack.dropLast
              else walk.scan.namedStack) = outer := by
            rw [hown, hsplit]
            cases own <;> simp
          have hsee : walk.see (.token ⟨.rBrace, there, place⟩) =
              { scan := { walk.scan with
                  opened
                  namedStack := outer
                  intervals := walk.scan.intervals ++ [⟨scope.openLine, there, scope.path⟩]
                  unit := .default }
                around
                closed := walk.closed ++ [brace.close place there] } := by
            simp [ScopeWalk.see, EnclosingScan.see, EnclosingScan.step,
              EnclosingScan.closeScope, hopened, haround, hstack]
          rw [hsee]
          exact {
            aligned := hrest
            intervals := by
              rw [List.map_append, ← hordered.intervals, hopenLine, hpath]
              rfl
            opened := fun other hother => hlater.opened other (hsub other hother)
            around := hpairs.2
            finished := by
              intro closed hclosed
              rcases List.mem_append.mp hclosed with hold | hnew
              · exact hlater.finished closed hold
              · rw [List.mem_singleton] at hnew
                subst hnew
                exact ⟨hopens.1.trans_le hoffset, Nat.lt_succ_self _, le_rfl⟩
            closed := by
              refine List.pairwise_append.mpr
                ⟨hordered.closed, List.pairwise_singleton _ _, ?_⟩
              intro closed hclosed other hother
              rw [List.mem_singleton] at hother
              subst hother
              exact hordered.related_close hbrace hoffset hline closed hclosed
            between := by
              intro closed hclosed other hother
              rcases List.mem_append.mp hclosed with hold | hnew
              · exact hordered.between closed hold other (hsub other hother)
              · rw [List.mem_singleton] at hnew
                subst hnew
                exact .inl (hpairs.1 other hother)
            header := fun first hfirst => by cases hfirst }

theorem ScopeWalk.Ordered.see (hordered : walk.Ordered offset line) (item : Seen)
    (hoffset : offset ≤ item.spanned.offset) (hline : line ≤ item.spanned.line) :
    (walk.see item).Ordered (item.spanned.offset + 1) item.spanned.line := by
  have hpass := hordered.weaken (hoffset.trans (Nat.le_succ _)) hline
  cases item with
  | annotationType here => exact hpass.pass rfl rfl rfl fun first hfirst => .inl hfirst
  | token here =>
      obtain ⟨token, here, there⟩ := here
      cases token with
      | lBrace => exact hordered.open _ rfl hoffset hline
      | rBrace => exact hordered.close _ rfl hoffset hline
      | semi => exact hpass.pass rfl rfl rfl fun first hfirst => by cases hfirst
      | ident name =>
          refine hpass.pass rfl rfl rfl fun first hfirst => ?_
          change (walk.scan.unit.observeIdent name here).startLine = some first at hfirst
          rw [ScanUnit.startLine_observeIdent, Option.or_eq_some_iff] at hfirst
          exact hfirst.imp_right fun hnew => (Option.some.inj hnew.2).symm
      | lParen =>
          refine hpass.pass rfl rfl rfl fun first hfirst => .inl ?_
          change (if walk.scan.parenDepth = 0 then walk.scan.unit.observeParamListOpen
            else walk.scan.unit).startLine = some first at hfirst
          rwa [apply_ite ScanUnit.startLine, ScanUnit.startLine_observeParamListOpen,
            ite_self] at hfirst
      | rParen | «at» | arrow | eq | lAngle | rAngle =>
          exact hpass.pass rfl rfl rfl fun first hfirst => .inl hfirst

end Seeing

/-! ## The scopes of a source -/

/-- What is left open closes inside out, after everything else. -/
theorem ScopeWalk.Ordered.finish {walk : ScopeWalk} {offset line : ℕ}
    (hordered : walk.Ordered offset line) {closes closeLine : ℕ} (hcloses : offset ≤ closes)
    (hcloseLine : line ≤ closeLine) :
    (walk.closed ++ walk.around.map (·.close closes closeLine)).Pairwise Related ∧
      (∀ scope ∈ walk.closed ++ walk.around.map (·.close closes closeLine),
        scope.opens < scope.closes) ∧
      (walk.closed ++ walk.around.map (·.close closes closeLine)).map BraceScope.interval =
        walk.scan.intervals ++ walk.scan.opened.map fun scope =>
          ⟨scope.openLine, closeLine, scope.path⟩ := by
  refine ⟨List.pairwise_append.mpr ⟨hordered.closed, ?_, ?_⟩, ?_, ?_⟩
  · rw [List.pairwise_map]
    refine hordered.around.imp fun {inner outer} hpair => .inl ?_
    exact ⟨⟨hpair.1, le_rfl⟩, hpair.2.1, le_rfl, hpair.2.2⟩
  · intro scope hscope other hother
    obtain ⟨brace, hbrace, rfl⟩ := List.mem_map.mp hother
    obtain ⟨-, hoffset, hline⟩ := hordered.finished scope hscope
    rcases hordered.between scope hscope brace hbrace with
      ⟨hinside, hlines, hnames⟩ | ⟨hapart, hlines⟩
    · exact .inl ⟨⟨hinside, hoffset.le.trans hcloses⟩, hlines, hline.trans hcloseLine, hnames⟩
    · exact .inr ⟨hapart, hlines⟩
  · intro scope hscope
    rcases List.mem_append.mp hscope with hclosed | hopen
    · exact (hordered.finished scope hclosed).1
    · obtain ⟨brace, hbrace, rfl⟩ := List.mem_map.mp hopen
      exact (hordered.opened brace hbrace).1.trans_le hcloses
  · rw [List.map_append, hordered.intervals, List.map_map]
    congr 1
    have haligned := hordered.aligned
    generalize walk.scan.opened = opened at haligned
    generalize walk.around = around at haligned
    generalize walk.scan.namedStack = names at haligned
    induction around generalizing opened names with
    | nil =>
        cases opened with
        | nil => rfl
        | cons scope opened => exact absurd haligned (by simp [Aligned])
    | cons brace rest ih =>
        cases opened with
        | nil => exact absurd haligned (by simp [Aligned])
        | cons scope opened =>
            obtain ⟨hline, hpath, -, -, -, outer, -, hrest⟩ := haligned
            rw [List.map_cons, List.map_cons, ih opened outer hrest, hline, hpath]
            rfl

/-- Items in order keep a walk in order. -/
theorem ScopeWalk.Ordered.foldl {walk : ScopeWalk} {offset line : ℕ}
    (hordered : walk.Ordered offset line) {items : List Seen}
    (hitems : (items.map Seen.spanned).Pairwise Spanned.Precedes)
    (hlater : ∀ item ∈ items, offset ≤ item.spanned.offset ∧ line ≤ item.spanned.line)
    {bound last : ℕ} (hbound : offset ≤ bound) (hlast : line ≤ last)
    (hwithin : ∀ item ∈ items, item.spanned.offset < bound ∧ item.spanned.line ≤ last) :
    (items.foldl ScopeWalk.see walk).Ordered bound last := by
  induction items generalizing walk offset line with
  | nil => exact hordered.weaken hbound hlast
  | cons item rest ih =>
      rw [List.map_cons, List.pairwise_cons] at hitems
      obtain ⟨hoffset, hline⟩ := hlater item List.mem_cons_self
      obtain ⟨hitemBound, hitemLast⟩ := hwithin item List.mem_cons_self
      refine ih (hordered.see item hoffset hline) hitems.2 ?_ hitemBound hitemLast
        fun other hother => hwithin other (List.mem_cons_of_mem _ hother)
      intro other hother
      exact hitems.1 other.spanned (List.mem_map_of_mem hother)

theorem scopeWalk_ordered (letters : Letters) (source : String) :
    (scopeWalk (tokenize letters source)).Ordered source.utf8ByteSize (lastLine source) := by
  have hsublist := seen_sublist (tokenize letters source)
  refine ScopeWalk.ordered_start.foldl ((pairwise_tokenize letters source).sublist hsublist)
    (fun item _ => ⟨Nat.zero_le _, Nat.zero_le _⟩) (Nat.zero_le _) (Nat.zero_le _) ?_
  intro item hitem
  exact tokenize_bounds letters source _ (hsublist.subset (List.mem_map_of_mem hitem))

theorem interval_braceScopes (letters : Letters) (source : String) :
    (braceScopes letters source).map BraceScope.interval =
      enclosingIntervals letters source := by
  rw [braceScopes, ((scopeWalk_ordered letters source).finish le_rfl le_rfl).2.2,
    scan_scopeWalk, enclosingIntervals]

theorem pairwise_braceScopes (letters : Letters) (source : String) :
    (braceScopes letters source).Pairwise Related :=
  ((scopeWalk_ordered letters source).finish le_rfl le_rfl).1

theorem opens_lt_closes (letters : Letters) (source : String) :
    ∀ scope ∈ braceScopes letters source, scope.opens < scope.closes :=
  ((scopeWalk_ordered letters source).finish le_rfl le_rfl).2.1

/-! ## The scope of a line -/

/-- A scope that contains the line, and no scope inside it does. -/
structure Innermost (scopes : List BraceScope) (line : ℕ) (scope : BraceScope) : Prop where
  mem : scope ∈ scopes
  contains : scope.Contains line
  inside : ∀ inner ∈ scopes, inner.Inside scope → ¬inner.Contains line

/-- The path is that of an innermost scope, or there is none where no scope contains the
line. -/
def AttributedInnermost (scopes : List BraceScope) (line : ℕ) (path : Option String) : Prop :=
  (path = none ∧ ∀ scope ∈ scopes, ¬scope.Contains line) ∨
    ∃ scope, Innermost scopes line scope ∧ path = dotted scope.names

/-- Of the scopes that contain the line and open on the greatest line, the last closed. -/
def LastOpened (scopes : List BraceScope) (line : ℕ) (scope : BraceScope) : Prop :=
  ∃ before after, scopes = before ++ scope :: after ∧ scope.Contains line ∧
    (∀ other ∈ before, other.Contains line → other.openLine ≤ scope.openLine) ∧
      ∀ other ∈ after, other.Contains line → other.openLine < scope.openLine

/-- One scope inside another that opens on the same line, and both contain the line.  No
scope that contains it opens on a later line, and another that opens with them lies inside
the outer one or is closed before it. -/
structure OpenTogether (scopes : List BraceScope) (line : ℕ) (outer inner : BraceScope) :
    Prop where
  mem : outer ∈ scopes ∧ inner ∈ scopes
  contains : outer.Contains line ∧ inner.Contains line
  inside : inner.Inside outer
  openLine : inner.openLine = outer.openLine
  others : ∀ other ∈ scopes, other.Contains line → other.openLine < outer.openLine ∨
    other.openLine = outer.openLine ∧
      (other = outer ∨ other.Inside outer ∨ other.closes < outer.opens)

/-- A scope of the line with no other of its scopes inside it has the same path: it lies
inside this one through unnamed braces only, or it closes on the line before this one
opens. -/
def SharesPath (scopes : List BraceScope) (line : ℕ) (outer : BraceScope) : Prop :=
  ∃ other, Innermost scopes line other ∧
    (other.Inside outer ∧ other.names = outer.names ∨
      dotted other.names = dotted outer.names ∧ other.closes < outer.opens ∧
        other.closeLine = line)

theorem innermostPath_cases (scopes : List BraceScope) (line : ℕ) :
    (innermostPath (scopes.map BraceScope.interval) line = none ∧
        ∀ scope ∈ scopes, ¬scope.Contains line) ∨
      ∃ scope, LastOpened scopes line scope ∧
        innermostPath (scopes.map BraceScope.interval) line = dotted scope.names := by
  have hholds (scope : BraceScope) : (decide (scope.interval.openLine ≤ line) &&
      decide (line ≤ scope.interval.closeLine)) = true ↔ scope.Contains line := by
    rw [Bool.and_eq_true, decide_eq_true_eq, decide_eq_true_eq]
    rfl
  rw [innermostPath]
  cases hlast : lastMaxBy Interval.openLine ((scopes.map BraceScope.interval).filter
      fun interval => interval.openLine ≤ line && line ≤ interval.closeLine) with
  | none =>
      refine .inl ⟨rfl, fun scope hscope hcontains => ?_⟩
      have hempty := List.filter_eq_nil_iff.mp (lastMaxBy_eq_none.mp hlast)
      exact hempty _ (List.mem_map_of_mem hscope) ((hholds scope).mpr hcontains)
  | some greatest =>
      obtain ⟨before, after, hsplit, hbefore, hafter⟩ := lastMaxBy_eq_some hlast
      rw [List.filter_map, List.map_eq_append_iff] at hsplit
      obtain ⟨prior, kept, hkept, rfl, hrest⟩ := hsplit
      obtain ⟨scope, later, rfl, rfl, rfl⟩ := List.map_eq_cons_iff.mp hrest
      obtain ⟨front, back, rfl, hfront, hback⟩ := List.filter_eq_append_iff.mp hkept
      obtain ⟨passed, behind, rfl, hpassed, hscope, hbehind⟩ := List.filter_eq_cons_iff.mp hback
      refine .inr ⟨scope, ⟨front ++ passed, behind, by simp, (hholds scope).mp hscope, ?_, ?_⟩,
        rfl⟩
      · intro other hother hcontains
        rcases List.mem_append.mp hother with hearly | hmissed
        · refine hbefore other.interval (List.mem_map_of_mem ?_)
          rw [← hfront]
          exact List.mem_filter.mpr ⟨hearly, (hholds other).mpr hcontains⟩
        · exact absurd ((hholds other).mpr hcontains) (hpassed other hmissed)
      · intro other hother hcontains
        refine hafter other.interval (List.mem_map_of_mem ?_)
        rw [← hbehind]
        exact List.mem_filter.mpr ⟨hother, (hholds other).mpr hcontains⟩

theorem dotted_eq_of_isPrefix {outer inner : List String} (hpart : outer <+: inner)
    (hdotted : dotted inner = dotted outer) : inner = outer := by
  obtain ⟨extra, rfl⟩ := hpart
  by_cases hextra : extra = []
  · rw [hextra, List.append_nil]
  · by_cases houter : outer = []
    · simp [dotted, houter, hextra] at hdotted
    · simp only [dotted, List.isEmpty_iff, List.append_eq_nil_iff, houter, false_and,
        if_false, Option.some.injEq] at hdotted
      have hlength := congrArg String.length hdotted
      rw [String.intercalate_append_of_ne_nil houter hextra, String.length_append,
        String.length_append] at hlength
      have hdot : ".".length = 1 := rfl
      omega

/-- Of two scopes only one closes before the other. -/
theorem Related.asymm {first second : BraceScope} (hfirst : first.opens < first.closes)
    (hsecond : second.opens < second.closes) (hrelated : Related first second) :
    ¬Related second first := by
  rintro (⟨⟨hopens, hcloses⟩, -⟩ | ⟨hapart, -⟩) <;>
    rcases hrelated with ⟨⟨hopens', hcloses'⟩, -⟩ | ⟨hapart', -⟩ <;> omega

section Attributing

variable {scopes : List BraceScope} {line : ℕ}

theorem LastOpened.mem {scope : BraceScope} (hlast : LastOpened scopes line scope) :
    scope ∈ scopes := by
  obtain ⟨before, after, rfl, -⟩ := hlast
  simp

/-- What stands before and behind the scope that opened last. -/
theorem LastOpened.cases {scope : BraceScope} (hlast : LastOpened scopes line scope)
    (hpairs : scopes.Pairwise Related) {other : BraceScope} (hother : other ∈ scopes)
    (hcontains : other.Contains line) :
    other = scope ∨ (Related other scope ∧ other.openLine ≤ scope.openLine) ∨
      Related scope other ∧ other.openLine < scope.openLine := by
  obtain ⟨before, after, rfl, -, hbefore, hafter⟩ := hlast
  rw [List.pairwise_append, List.pairwise_cons] at hpairs
  rcases List.mem_append.mp hother with hearly | hlate
  · exact .inr (.inl ⟨hpairs.2.2 other hearly scope List.mem_cons_self,
      hbefore other hearly hcontains⟩)
  · rcases List.mem_cons.mp hlate with rfl | hbehind
    · exact .inl rfl
    · exact .inr (.inr ⟨hpairs.2.1.1 other hbehind, hafter other hbehind hcontains⟩)

theorem LastOpened.contains {scope : BraceScope} (hlast : LastOpened scopes line scope) :
    scope.Contains line := by
  obtain ⟨-, -, -, hcontains, -⟩ := hlast
  exact hcontains

theorem LastOpened.unique (hpairs : scopes.Pairwise Related)
    (hopens : ∀ scope ∈ scopes, scope.opens < scope.closes) {first second : BraceScope}
    (hfirst : LastOpened scopes line first) (hsecond : LastOpened scopes line second) :
    first = second := by
  have hasymm := fun hrelated => Related.asymm (hopens first hfirst.mem)
    (hopens second hsecond.mem) hrelated
  rcases hfirst.cases hpairs hsecond.mem hsecond.contains with heq | ⟨hbefore, hle⟩ | ⟨hafter, hlt⟩
  · exact heq.symm
  · rcases hsecond.cases hpairs hfirst.mem hfirst.contains with heq | ⟨hbefore', -⟩ | ⟨-, hlt⟩
    · exact heq
    · exact absurd hbefore (hasymm hbefore')
    · omega
  · rcases hsecond.cases hpairs hfirst.mem hfirst.contains with heq | ⟨-, hle⟩ | ⟨-, hlt'⟩
    · exact heq
    · omega
    · omega

/-- An innermost scope with the path of the scope that opened last is that one, inside
it, or closed before it on the line. -/
theorem LastOpened.sharesPath {scope inner : BraceScope} (hlast : LastOpened scopes line scope)
    (hpairs : scopes.Pairwise Related) (hinner : Innermost scopes line inner)
    (hdotted : dotted inner.names = dotted scope.names) :
    inner = scope ∨ SharesPath scopes line scope := by
  have hcontains := hlast.contains
  have hinside := hinner.contains
  rcases hlast.cases hpairs hinner.mem hinside with rfl | ⟨hbefore, -⟩ | ⟨hafter, hlt⟩
  · exact .inl rfl
  · rcases hbefore with hnested | hapart
    · exact .inr ⟨inner, hinner,
        .inl ⟨hnested.inside, dotted_eq_of_isPrefix hnested.names hdotted⟩⟩
    · refine .inr ⟨inner, hinner, .inr ⟨hdotted, hapart.offsets, ?_⟩⟩
      have hlines := hapart.lines
      have hopens := hcontains.1
      exact le_antisymm (hlines.trans hopens) hinside.2
  · rcases hafter with hnested | hapart
    · exact absurd hcontains (hinner.inside scope hlast.mem hnested.inside)
    · have hlines := hapart.lines
      have hcloses := hcontains.2
      have hopens := hcontains.1
      omega

/-- The outer of two scopes that open together opened last. -/
theorem OpenTogether.lastOpened {outer inner : BraceScope}
    (htogether : OpenTogether scopes line outer inner) (hpairs : scopes.Pairwise Related)
    (hopens : ∀ scope ∈ scopes, scope.opens < scope.closes) :
    LastOpened scopes line outer := by
  obtain ⟨before, after, rfl⟩ := List.append_of_mem htogether.mem.1
  refine ⟨before, after, rfl, htogether.contains.1, fun other hother hcontains => ?_,
    fun other hother hcontains => ?_⟩
  · rcases htogether.others other (List.mem_append_left _ hother) hcontains with hlt | ⟨heq, -⟩
    · exact hlt.le
    · exact heq.le
  · have hmem : other ∈ before ++ outer :: after :=
      List.mem_append_right _ (List.mem_cons_of_mem _ hother)
    have houter := hopens outer (by simp)
    have hwidth := hopens other hmem
    rw [List.pairwise_append, List.pairwise_cons] at hpairs
    -- what closes behind the outer scope is around it or opens behind it
    have hbehind := hpairs.2.1.1 other hother
    rcases htogether.others other hmem hcontains with hlt | ⟨-, rfl | hinside | hearlier⟩
    · exact hlt
    · exact absurd hbehind (Related.asymm hwidth hwidth hbehind)
    · rcases hbehind with ⟨⟨hfirst, -⟩, -⟩ | ⟨happart, -⟩
      · exact absurd hfirst (not_lt.mpr hinside.1.le)
      · have hcloses := hinside.2
        omega
    · rcases hbehind with ⟨⟨-, hcloses⟩, -⟩ | ⟨happart, -⟩ <;> omega

/-- A scope that opened last and has another of the line inside it opened together with
that one. -/
theorem LastOpened.openTogether {scope inner : BraceScope}
    (hlast : LastOpened scopes line scope) (hpairs : scopes.Pairwise Related)
    (hopens : ∀ scope ∈ scopes, scope.opens < scope.closes) (hinner : inner ∈ scopes)
    (hinside : inner.Inside scope) (hcontains : inner.Contains line) :
    OpenTogether scopes line scope inner where
  mem := ⟨hlast.mem, hinner⟩
  contains := ⟨hlast.contains, hcontains⟩
  inside := hinside
  openLine := by
    have hwidth := hopens inner hinner
    obtain ⟨hbelow, hcloses⟩ := hinside
    rcases hlast.cases hpairs hinner hcontains with rfl | ⟨hbefore, hle⟩ | ⟨hafter, -⟩
    · rfl
    · rcases hbefore with hnested | hapart
      · exact le_antisymm hle hnested.openLine
      · have hoffsets := hapart.offsets
        omega
    · rcases hafter with ⟨⟨habove, -⟩, -⟩ | ⟨happart, -⟩ <;> omega
  others := by
    intro other hother hcontained
    rcases hlast.cases hpairs hother hcontained with rfl | ⟨hbefore, hle⟩ | ⟨-, hlt⟩
    · exact .inr ⟨rfl, .inl rfl⟩
    · refine hle.lt_or_eq.imp_right fun heq => ⟨heq, .inr ?_⟩
      exact hbefore.imp (·.inside) (·.offsets)
    · exact .inl hlt

end Attributing

/-- Every line is attributed to an innermost scope exactly when, wherever two nested scopes
of the line open together behind all others, an innermost one shares the outer one's
path. -/
theorem java_lines_innermost_iff (letters : Letters) (source : String) (lines : List ℕ) :
    ∀ answered ∈ lines.zip (javaEnclosingDeclarations letters source lines),
      AttributedInnermost (braceScopes letters source) answered.1 answered.2 ↔
        ∀ outer inner, OpenTogether (braceScopes letters source) answered.1 outer inner →
          SharesPath (braceScopes letters source) answered.1 outer := by
  intro answered hanswered
  rw [javaEnclosingDeclarations, List.zip_eq_zipWith, List.zipWith_map_right, List.zipWith_self]
    at hanswered
  obtain ⟨line, -, rfl⟩ := List.mem_map.mp hanswered
  have hpairs := pairwise_braceScopes letters source
  have hopens := opens_lt_closes letters source
  rw [← interval_braceScopes]
  dsimp only
  rcases innermostPath_cases (braceScopes letters source) line with
    ⟨hnone, hoff⟩ | ⟨last, hlast, hpath⟩
  · exact iff_of_true (.inl ⟨hnone, hoff⟩) fun outer inner htogether =>
      absurd htogether.contains.1 (hoff outer htogether.mem.1)
  · simp only [hpath]
    constructor
    · rintro (⟨-, hoff⟩ | ⟨found, hfound, hdotted⟩) outer inner htogether
      · exact absurd hlast.contains (hoff last hlast.mem)
      · obtain rfl := hlast.unique hpairs hopens (htogether.lastOpened hpairs hopens)
        refine (hlast.sharesPath hpairs hfound hdotted.symm).resolve_left ?_
        rintro rfl
        exact hfound.inside inner htogether.mem.2 htogether.inside htogether.contains.2
    · intro hshares
      by_cases hinner : ∃ inner ∈ braceScopes letters source,
          inner.Inside last ∧ inner.Contains line
      · obtain ⟨inner, hmem, hinside, hcontains⟩ := hinner
        obtain ⟨other, hother, hsame⟩ := hshares last inner
          (hlast.openTogether hpairs hopens hmem hinside hcontains)
        refine .inr ⟨other, hother, ?_⟩
        rcases hsame with ⟨-, hnames⟩ | ⟨hdotted, -⟩
        · rw [hnames]
        · exact hdotted.symm
      · exact .inr ⟨last, ⟨hlast.mem, hlast.contains, fun inner hmem hinside hcontains =>
          hinner ⟨inner, hmem, hinside, hcontains⟩⟩, rfl⟩

def twoLineSource : String := "class A \x7b\n\x7d"

/-- The last line of a type goes to the type. -/
theorem last_line_attributed :
    AttributedInnermost (braceScopes .ascii twoLineSource) 2 (some "A") := by
  have hscopes : braceScopes .ascii twoLineSource = [⟨8, 10, 1, 2, ["A"]⟩] := by
    decide +kernel
  have hanswered : (2, some "A") ∈
      [2].zip (javaEnclosingDeclarations .ascii twoLineSource [2]) := by
    decide +kernel
  refine (java_lines_innermost_iff .ascii twoLineSource [2] _ hanswered).mpr ?_
  rw [hscopes]
  intro outer inner htogether
  -- one scope is not inside itself
  have hinside := htogether.inside
  rw [List.mem_singleton.mp htogether.mem.1, List.mem_singleton.mp htogether.mem.2] at hinside
  exact absurd hinside.1 (lt_irrefl _)

def oneLineSource : String := "class A \x7b void f() \x7b \x7d \x7d"

/-- A type on one line: the line goes to the type, and the method inside it contains
the line. -/
theorem one_line_type_not_innermost :
    javaEnclosingDeclarations .ascii oneLineSource [1] = [some "A"] ∧
      ¬AttributedInnermost (braceScopes .ascii oneLineSource) 1 (some "A") := by
  refine ⟨by decide +kernel, ?_⟩
  have hscopes : braceScopes .ascii oneLineSource =
      [⟨19, 21, 1, 1, ["A", "f"]⟩, ⟨8, 23, 1, 1, ["A"]⟩] := by decide +kernel
  rw [hscopes]
  rintro (⟨hnone, -⟩ | ⟨scope, hinner, hpath⟩)
  · cases hnone
  · rcases List.mem_cons.mp hinner.mem with rfl | hlast
    · exact absurd hpath (by decide)
    · rw [List.mem_singleton] at hlast
      subst hlast
      have hmethod : BraceScope.Contains ⟨19, 21, 1, 1, ["A", "f"]⟩ 1 := ⟨le_rfl, le_rfl⟩
      refine hinner.inside ⟨19, 21, 1, 1, ["A", "f"]⟩ List.mem_cons_self ⟨?_, ?_⟩ hmethod
      · decide
      · decide

end Ktsense.Core
