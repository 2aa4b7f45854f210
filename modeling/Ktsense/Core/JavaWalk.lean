import Ktsense.Core.JavaInsertion
import Ktsense.Core.JavaScopes
import Ktsense.Foundation.FailingLoop

/-!
# The scope walk is well formed

Whatever the braces of a source look like, the enclosing scan ends, gives one interval
to each opening brace it comes to, and has on its stack the names of the named scopes
that are open.  Lines are naturals, as everywhere in the scans: those of the source for
files of fewer than 2^32 lines.
-/

namespace Ktsense.Core

open Ktsense.Foundation

/-! ## The walk ends -/

/-- A turn of the loop of `enclosing_intervals`. -/
def enclosingTurn (loop : EnclosingScan × List Spanned) :
    Option ((EnclosingScan × List Spanned) ⊕ EnclosingScan) :=
  match loop with
  | (scan, here :: rest) => some (.inl (scan.step here rest))
  | (scan, []) => some (.inr scan)

/-- An annotation consumes any number of tokens, and never gives one back. -/
theorem EnclosingScan.step_suffix (scan : EnclosingScan) (here : Spanned)
    (rest : List Spanned) : (scan.step here rest).2 <:+ rest := by
  by_cases hat : here.token = .at
  · rw [step_at scan hat]
    exact seenAt_suffix here rest
  · rw [step_of_ne_at scan hat]

/-- With what is left the walk comes to this scan. -/
def WalkLeadsTo (done : EnclosingScan) (loop : EnclosingScan × List Spanned) : Prop :=
  ∃ fuel, loop.2.length ≤ fuel ∧ EnclosingScan.run fuel loop.1 loop.2 = done

theorem enclosingTurn_proceeds {done : EnclosingScan}
    {loop : EnclosingScan × List Spanned} (hleads : WalkLeadsTo done loop) :
    Proceeds enclosingTurn (WalkLeadsTo done) (·.2.length) done loop := by
  obtain ⟨scan, tokens⟩ := loop
  obtain ⟨fuel, hfuel, hdone⟩ := hleads
  cases tokens with
  | nil =>
      refine .inr (congrArg (some ∘ Sum.inr) ?_)
      cases fuel <;> exact hdone
  | cons here rest =>
      obtain ⟨fuel, rfl, hrest⟩ := exists_fuel_of_cons hfuel
      have hleft := (scan.step_suffix here rest).length_le
      exact .inl ⟨_, rfl, ⟨fuel, hleft.trans hrest, hdone⟩, Nat.lt_succ_of_le hleft⟩

theorem runLoop_enclosingTurn (tokens : List Spanned) :
    runLoop enclosingTurn (tokens.length + 1) (.start, tokens) =
      some (enclosingScan tokens) :=
  runLoop_eq_some (fun _ hleads => enclosingTurn_proceeds hleads) ⟨_, le_rfl, rfl⟩
    (Nat.lt_succ_self _)

/-! ## One interval for each brace -/

/-- The offset of an opening brace. -/
def Seen.opening? : Seen → Option ℕ
  | .token ⟨.lBrace, _, offset⟩ => some offset
  | _ => none

/-- The offsets of all braces behind some items: those of closed scopes, then those of
open ones. -/
def ScopeWalk.offsets (walk : ScopeWalk) : List ℕ :=
  walk.closed.map (·.opens) ++ walk.around.map (·.opens)

theorem ScopeWalk.offsets_see (walk : ScopeWalk) (item : Seen) :
    (walk.see item).offsets.Perm (walk.offsets ++ item.opening?.toList) := by
  have hpass (scan : EnclosingScan) : ({ walk with scan } : ScopeWalk).offsets.Perm
      (walk.offsets ++ []) := by
    rw [List.append_nil]
    exact List.Perm.refl _
  cases item with
  | annotationType here => exact hpass _
  | token here =>
      obtain ⟨token, line, offset⟩ := here
      cases token with
      | lBrace =>
          change (walk.closed.map (·.opens) ++ offset :: walk.around.map (·.opens)).Perm
            (walk.closed.map (·.opens) ++ walk.around.map (·.opens) ++ [offset])
          rw [List.append_assoc]
          exact (List.perm_append_singleton _ _).symm.append_left _
      | rBrace =>
          change ((walk.closed ++ (walk.around.head?.map (·.close offset line)).toList).map
            (·.opens) ++ walk.around.tail.map (·.opens)).Perm (walk.offsets ++ [])
          rw [List.append_nil, offsets]
          cases walk.around with
          | nil => simp
          | cons brace around => simp [OpenBrace.close]
      | ident | lParen | rParen | semi | «at» | arrow | eq | lAngle | rAngle => exact hpass _

theorem offsets_scopeWalk (items : List Seen) :
    (items.foldl ScopeWalk.see .start).offsets.Perm (items.filterMap Seen.opening?) := by
  induction items using List.reverseRecOn with
  | nil => exact List.Perm.refl _
  | append_singleton items item ih =>
      have hitem : [item].filterMap Seen.opening? = item.opening?.toList := by
        cases hopening : item.opening? <;> simp [hopening]
      rw [List.foldl_append, List.foldl_cons, List.foldl_nil, List.filterMap_append, hitem]
      exact (ScopeWalk.offsets_see _ item).trans (ih.append_right _)

theorem opens_braceScopes (letters : Letters) (source : String) :
    ((braceScopes letters source).map (·.opens)).Perm
      ((seen (tokenize letters source)).filterMap Seen.opening?) := by
  have hoffsets := offsets_scopeWalk (seen (tokenize letters source))
  rw [braceScopes, List.map_append, List.map_map]
  exact hoffsets

/-! ## Lines in order -/

theorem ScopeWalk.Ordered.openLine_le {walk : ScopeWalk} {offset line : ℕ}
    (hordered : walk.Ordered offset line)
    (hlines : ∀ scope ∈ walk.closed, scope.openLine ≤ scope.closeLine) (item : Seen)
    (hline : line ≤ item.spanned.line) :
    ∀ scope ∈ (walk.see item).closed, scope.openLine ≤ scope.closeLine := by
  cases item with
  | annotationType here => exact hlines
  | token here =>
      obtain ⟨token, there, place⟩ := here
      cases token with
      | rBrace =>
          intro scope hscope
          rcases List.mem_append.mp hscope with hold | hnew
          · exact hlines scope hold
          · obtain ⟨brace, hbrace, rfl⟩ : ∃ brace, walk.around.head? = some brace ∧
                brace.close place there = scope := by
              simpa using hnew
            have hopened := (hordered.opened brace (List.mem_of_head? hbrace)).2
            exact hopened.trans hline
      | lBrace | ident | lParen | rParen | semi | «at» | arrow | eq | lAngle | rAngle =>
          exact hlines

/-- Before each item the walk is in order up to it. -/
theorem ordered_before (letters : Letters) (source : String) {before after : List Seen}
    {item : Seen} (hseen : seen (tokenize letters source) = before ++ item :: after) :
    (before.foldl ScopeWalk.see .start).Ordered item.spanned.offset item.spanned.line := by
  have hordered := (pairwise_tokenize letters source).sublist
    (seen_sublist (tokenize letters source))
  rw [hseen, List.map_append, List.map_cons, List.pairwise_append] at hordered
  refine ScopeWalk.ordered_start.foldl hordered.1 (fun other _ => ⟨Nat.zero_le _, Nat.zero_le _⟩)
    (Nat.zero_le _) (Nat.zero_le _) fun other hother => ?_
  exact hordered.2.2 _ (List.mem_map_of_mem hother) _ List.mem_cons_self

theorem openLine_le_of_closed (letters : Letters) (source : String) {before after : List Seen}
    (hseen : seen (tokenize letters source) = before ++ after) :
    ∀ scope ∈ (before.foldl ScopeWalk.see .start).closed,
      scope.openLine ≤ scope.closeLine := by
  induction before using List.reverseRecOn generalizing after with
  | nil => simp [ScopeWalk.start]
  | append_singleton before item ih =>
      rw [List.append_assoc, List.singleton_append] at hseen
      rw [List.foldl_append, List.foldl_cons, List.foldl_nil]
      exact (ordered_before letters source hseen).openLine_le (ih hseen) item le_rfl

/-- No scope ends on a line before the one it begins on. -/
theorem openLine_le_closeLine (letters : Letters) (source : String) :
    ∀ scope ∈ braceScopes letters source, scope.openLine ≤ scope.closeLine := by
  intro scope hscope
  rcases List.mem_append.mp hscope with hclosed | hopen
  · exact openLine_le_of_closed letters source (List.append_nil _).symm scope hclosed
  · obtain ⟨brace, hbrace, rfl⟩ := List.mem_map.mp hopen
    exact ((scopeWalk_ordered letters source).opened brace hbrace).2

/-! ## The names on the stack -/

/-- The name a brace gives to its scope. -/
def Brace.name? (brace : Brace) : Option String := brace.unit.scopeName brace.parenDepth

/-- The enclosing scan together with the opening braces that are not closed yet, the
last one first. -/
structure BraceWalk where
  scan : EnclosingScan
  unclosed : List Brace
  deriving DecidableEq, Repr

namespace BraceWalk

def start : BraceWalk := ⟨.start, []⟩

def see (walk : BraceWalk) (item : Seen) : BraceWalk where
  scan := walk.scan.see item
  unclosed :=
    match item with
    | .token ⟨.lBrace, _, offset⟩ =>
        ⟨offset, walk.scan.unit, walk.scan.parenDepth⟩ :: walk.unclosed
    | .token ⟨.rBrace, _, _⟩ => walk.unclosed.tail
    | _ => walk.unclosed

end BraceWalk

def braceWalk (items : List Seen) : BraceWalk := items.foldl BraceWalk.see .start

theorem scan_braceWalk (items : List Seen) :
    (braceWalk items).scan = items.foldl EnclosingScan.see .start := by
  induction items using List.reverseRecOn with
  | nil => rfl
  | append_singleton items item ih =>
      rw [braceWalk, List.foldl_append, List.foldl_append, List.foldl_cons, List.foldl_cons,
        List.foldl_nil, List.foldl_nil, ← ih]
      rfl

/-- The scopes of the scan are those of the unclosed braces, and its stack holds the names
of the named ones, from the outermost on. -/
structure BraceWalk.Named (walk : BraceWalk) : Prop where
  opened : walk.scan.opened.map (·.named) = walk.unclosed.map (·.name?.isSome)
  namedStack : walk.scan.namedStack = walk.unclosed.reverse.filterMap Brace.name?

theorem BraceWalk.named_start : BraceWalk.start.Named := ⟨rfl, rfl⟩

theorem filterMap_reverse_cons (brace : Brace) (unclosed : List Brace) :
    (brace :: unclosed).reverse.filterMap Brace.name? =
      unclosed.reverse.filterMap Brace.name? ++ brace.name?.toList := by
  rw [List.reverse_cons, List.filterMap_append]
  cases hname : brace.name? <;> simp [hname]

theorem BraceWalk.Named.open {walk : BraceWalk} (hnamed : walk.Named) (line offset : ℕ) :
    (walk.see (.token ⟨.lBrace, line, offset⟩)).Named where
  opened := congrArg (List.cons _) hnamed.opened
  namedStack := by
    rw [see, filterMap_reverse_cons, ← hnamed.namedStack]
    rfl

/-- A closing brace with no scope open changes none. -/
theorem EnclosingScan.see_unmatched {scan : EnclosingScan} (hopened : scan.opened = [])
    (line offset : ℕ) :
    scan.see (.token ⟨.rBrace, line, offset⟩) = { scan with unit := .default } := by
  have hsame : scan.closeScope line = scan := by rw [closeScope, hopened]
  change { scan.closeScope line with unit := .default } = { scan with unit := .default }
  rw [hsame]

theorem EnclosingScan.see_close {scan : EnclosingScan} {scope : OpenScope}
    {opened : List OpenScope} (hopened : scan.opened = scope :: opened) (line offset : ℕ) :
    scan.see (.token ⟨.rBrace, line, offset⟩) = { scan with
      opened
      namedStack := if scope.named then scan.namedStack.dropLast else scan.namedStack
      intervals := scan.intervals ++ [⟨scope.openLine, line, scope.path⟩]
      unit := .default } := by
  change { scan.closeScope line with unit := .default } = _
  rw [closeScope, hopened]

theorem BraceWalk.Named.close {walk : BraceWalk} (hnamed : walk.Named) (line offset : ℕ) :
    (walk.see (.token ⟨.rBrace, line, offset⟩)).Named := by
  obtain ⟨scan, unclosed⟩ := walk
  obtain ⟨hopened, hstack⟩ := hnamed
  cases unclosed with
  | nil =>
      have hnone : scan.opened = [] := List.map_eq_nil_iff.mp hopened
      rw [see, EnclosingScan.see_unmatched hnone]
      exact ⟨hopened, hstack⟩
  | cons brace unclosed =>
      obtain ⟨scope, opened, hscan, hscope, hrest⟩ := List.map_eq_cons_iff.mp hopened
      have hkept : (if scope.named then scan.namedStack.dropLast else scan.namedStack) =
          unclosed.reverse.filterMap Brace.name? := by
        have hnamed : scope.named = brace.name?.isSome := hscope
        have hnames : scan.namedStack =
            unclosed.reverse.filterMap Brace.name? ++ brace.name?.toList :=
          hstack.trans (filterMap_reverse_cons brace unclosed)
        rw [hnamed, hnames]
        cases brace.name? <;> simp
      rw [see, EnclosingScan.see_close hscan, hkept]
      exact ⟨hrest, rfl⟩

theorem BraceWalk.Named.see {walk : BraceWalk} (hnamed : walk.Named) (item : Seen) :
    (walk.see item).Named := by
  cases item with
  | annotationType here => exact ⟨hnamed.opened, hnamed.namedStack⟩
  | token here =>
      obtain ⟨token, line, offset⟩ := here
      cases token with
      | lBrace => exact hnamed.open line offset
      | rBrace => exact hnamed.close line offset
      | ident | lParen | rParen | semi | «at» | arrow | eq | lAngle | rAngle =>
          exact ⟨hnamed.opened, hnamed.namedStack⟩

theorem named_braceWalk (items : List Seen) : (braceWalk items).Named := by
  induction items using List.reverseRecOn with
  | nil => exact BraceWalk.named_start
  | append_singleton items item ih =>
      rw [braceWalk, List.foldl_append]
      exact ih.see item

/-- On every source the enclosing scan ends.  Its intervals are those of the opening
braces it comes to, one for each; none ends before it begins, and of two either one is
inside the other or they are apart.  Wherever it stands, its open scopes are those of the
braces that are not closed, its stack holds the names of the named ones from the
outermost on, and a closing brace that matches none changes no scope. -/
theorem java_scope_walk_well_formed (letters : Letters) (source : String) :
    runLoop enclosingTurn ((tokenize letters source).length + 1)
        (.start, tokenize letters source) = some (enclosingScan (tokenize letters source)) ∧
      (braceScopes letters source).map BraceScope.interval =
        enclosingIntervals letters source ∧
      ((braceScopes letters source).map (·.opens)).Perm
        ((seen (tokenize letters source)).filterMap Seen.opening?) ∧
      (∀ interval ∈ enclosingIntervals letters source,
        interval.openLine ≤ interval.closeLine) ∧
      (∀ scope ∈ braceScopes letters source, scope.opens < scope.closes) ∧
      (braceScopes letters source).Pairwise (fun first second =>
        first.Inside second ∨ first.closes < second.opens) ∧
      ∀ before after, seen (tokenize letters source) = before ++ after →
        ∀ scan, before.foldl EnclosingScan.see .start = scan →
          scan.opened.map (·.named) =
              (braceWalk before).unclosed.map (·.name?.isSome) ∧
            scan.namedStack = (braceWalk before).unclosed.reverse.filterMap Brace.name? ∧
            ((braceWalk before).unclosed = [] → ∀ line offset,
              scan.see (.token ⟨.rBrace, line, offset⟩) = { scan with unit := .default }) := by
  refine ⟨runLoop_enclosingTurn _, interval_braceScopes letters source,
    opens_braceScopes letters source, ?_, opens_lt_closes letters source,
    (pairwise_braceScopes letters source).imp ?_, ?_⟩
  · rw [← interval_braceScopes]
    intro interval hinterval
    obtain ⟨scope, hscope, rfl⟩ := List.mem_map.mp hinterval
    exact openLine_le_closeLine letters source scope hscope
  · intro first second hrelated
    exact hrelated.imp (·.inside) (·.offsets)
  · rintro before after - scan rfl
    have hnamed := named_braceWalk before
    rw [← scan_braceWalk]
    refine ⟨hnamed.opened, hnamed.namedStack, fun hnone line offset => ?_⟩
    have hopened := hnamed.opened
    rw [hnone] at hopened
    exact EnclosingScan.see_unmatched (List.map_eq_nil_iff.mp hopened) line offset

end Ktsense.Core
