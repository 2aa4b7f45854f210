import Ktsense.Cli.Outcome
import Ktsense.Core.Pick

/-!
# Selecting a declaration

The part of `symbols.rs` between the enriched candidates of a name and the
answer: a pick narrows them to one, several are listed with a hint, none is an
error or a missing name.  Reading a file again for the members of a single match
and writing JSON are taken as given.
-/

namespace Ktsense.Cli

open Ktsense.Core

structure NamedProperty where
  name : String
  typeName : String
  deriving DecidableEq, Repr

structure ResolvedSymbol where
  fqn : String
  kind : String
  file : String
  line : ℕ
  signature : String
  isLocal : Bool
  entries : List String
  properties : List NamedProperty
  generated : Bool
  deriving DecidableEq, Repr

structure SymbolCandidate where
  name : String
  file : String
  line : ℕ
  col : ℕ
  deriving DecidableEq, Repr

/-- `SymbolsOutcome` has the fields of the command outcome it turns into. -/
abbrev SymbolsOutcome := CommandOutcome

inductive PickFilter where
  | none
  | dotted (pick : String)
  | explicit (pick : String)

def PickFilter.forQuery (query : String) : Option String → PickFilter
  | some pick => .explicit pick
  | Option.none => if query.toList.contains '.' then .dotted query else .none

inductive Selection where
  | one (candidate : SymbolCandidate) (resolved : ResolvedSymbol)
  | ambiguous (outcome : SymbolsOutcome)
  | notFound

def renderMemberSummary (entries : List String)
    (properties : List NamedProperty) : Option String :=
  if entries ≠ [] then some ("entries: " ++ String.intercalate ", " entries)
  else if properties ≠ [] then
    some ("properties: " ++ String.intercalate ", "
      (properties.map fun property => property.name ++ ": " ++ property.typeName))
  else none

def kindWithMarkers (symbol : ResolvedSymbol) : String :=
  symbol.kind ++ (if symbol.isLocal then " (local)" else "") ++
    (if symbol.generated then " (generated)" else "")

def rows (resolved : List ResolvedSymbol) : List String :=
  resolved.map fun symbol =>
    symbol.fqn ++ "  " ++ kindWithMarkers symbol ++ "  " ++ symbol.file ++ ":" ++
      toString symbol.line ++ "  " ++ symbol.signature

def symbolsMarkdown (query : String) (resolved : List ResolvedSymbol)
    (hidden : Option ℕ) : String :=
  let members := match resolved with
    | [single] => (renderMemberSummary single.entries single.properties).toList
    | _ => []
  "## Symbols: " ++ neutralize query ++ "\n\n" ++
    fencedBlock (rows resolved ++ members) ++
    (hidden.map fun count =>
      "\n... " ++ toString count ++ " more (use --limit)\n").getD ""

def ambiguousMarkdown (query : String) (resolved : List ResolvedSymbol)
    (hint : String) : String :=
  "## Ambiguous: " ++ neutralize query ++ " (" ++ toString resolved.length ++
    " candidates)\n\n" ++ fencedBlock (rows resolved) ++ "\n" ++ hint ++ "\n"

def ambiguityHint (query : String) (resolved : List ResolvedSymbol) : String :=
  let fqns := resolved.map ResolvedSymbol.fqn
  let ending := shortestUniqueSuffix (fqns.headD "") fqns
  neutralize ("ambiguous: " ++ toString resolved.length ++
    " declarations named " ++ query ++ "; rerun with --pick " ++ ending)

def retainIndices {T : Type*} (items : List T) (indices : List ℕ) : List T :=
  (items.zipIdx.filter fun (_, index) => indices.contains index).map Prod.fst

section Selecting

variable (symbolsJson : List ResolvedSymbol → Except CommandError String)
  (attachMembers : ResolvedSymbol → ResolvedSymbol)

def render (query : String) (resolved : List ResolvedSymbol) (hidden : Option ℕ)
    (exit : Exit) : Format → Except CommandError SymbolsOutcome
  | .md => .ok ⟨symbolsMarkdown query resolved hidden, exit, none⟩
  | .json => (symbolsJson resolved).map fun text => ⟨text, exit, none⟩
  | .dot => .error (.unsupportedFormat "symbols")

def renderAmbiguousSelection (query : String) (resolved : List ResolvedSymbol) :
    Format → Except CommandError SymbolsOutcome
  | .md =>
      let hint := ambiguityHint query resolved
      .ok ⟨ambiguousMarkdown query resolved hint, .ambiguous, some hint⟩
  | .json => (symbolsJson resolved).map fun text =>
      ⟨text, .ambiguous, some (ambiguityHint query resolved)⟩
  | .dot => .error (.unsupportedFormat "symbols")

def fqnsOf (enriched : List (SymbolCandidate × ResolvedSymbol)) : List String :=
  enriched.map fun (_, resolved) => resolved.fqn

/-- `swap_remove` takes out the item at the index it is given. -/
def selectByPick (query : String)
    (enriched : List (SymbolCandidate × ResolvedSymbol)) (pick : String)
    (format : Format) (onMiss : Except CommandError Selection) :
    Except CommandError Selection :=
  match matchPick pick (fqnsOf enriched) with
  | .selected index =>
      match enriched[index]? with
      | some (candidate, resolved) => .ok (.one candidate resolved)
      | none => onMiss
  | .ambiguous indices =>
      let subset := (retainIndices enriched indices).map Prod.snd
      (renderAmbiguousSelection symbolsJson query subset format).map .ambiguous
  | .missed => onMiss

def pickPresent (query : String) (resolved : List ResolvedSymbol) (pick : String)
    (format : Format) (onMiss : Except CommandError SymbolsOutcome) :
    Except CommandError SymbolsOutcome :=
  match matchPick pick (resolved.map ResolvedSymbol.fqn) with
  | .selected index =>
      match resolved[index]? with
      | some chosen =>
          render symbolsJson query [attachMembers chosen] none .success format
      | none => onMiss
  | .ambiguous indices =>
      renderAmbiguousSelection symbolsJson query (retainIndices resolved indices)
        format
  | .missed => onMiss

/-- `select`, from the enriched and sorted candidates on. -/
def select (query : String) (enriched : List (SymbolCandidate × ResolvedSymbol))
    (format : Format) : PickFilter → Except CommandError Selection
  | .explicit pick =>
      selectByPick symbolsJson query enriched pick format (.error (.pickMissed pick))
  | .dotted pick =>
      selectByPick symbolsJson query enriched pick format (.ok .notFound)
  | .none =>
      match enriched with
      | [] => .ok .notFound
      | [(candidate, resolved)] => .ok (.one candidate resolved)
      | _ => (renderAmbiguousSelection symbolsJson query (enriched.map Prod.snd)
          format).map .ambiguous

/-- `present_symbols`, from the enriched, sorted and filtered candidates on. -/
def presentSymbols (query : String) (resolved : List ResolvedSymbol)
    (limit : Option ℕ) (format : Format) :
    PickFilter → Except CommandError SymbolsOutcome
  | .explicit pick =>
      pickPresent symbolsJson attachMembers query resolved pick format
        (.error (.pickMissed pick))
  | .dotted pick =>
      pickPresent symbolsJson attachMembers query resolved pick format
        (.error (.noSymbol query))
  | .none =>
      match resolved with
      | [] => .error (.noSymbol query)
      | [single] =>
          render symbolsJson query [attachMembers single] none .success format
      | _ =>
          let total := resolved.length
          let shown := min (limit.getD total) total
          let hidden := if 0 < total - shown then some (total - shown) else none
          (render symbolsJson query (resolved.take shown) hidden .ambiguous
            format).map fun outcome =>
              { outcome with stderr := some (ambiguityHint query resolved) }

/-! ## One answer for one match -/

theorem exit_of_renderAmbiguousSelection {query : String}
    {resolved : List ResolvedSymbol} {format : Format} {outcome : SymbolsOutcome}
    (houtcome : renderAmbiguousSelection symbolsJson query resolved format =
      .ok outcome) : outcome.exit = .ambiguous := by
  cases format with
  | md =>
      rw [← Except.ok.inj houtcome]
  | json =>
      rw [renderAmbiguousSelection] at houtcome
      cases hjson : symbolsJson resolved with
      | error failure => simp [hjson, Except.map] at houtcome
      | ok text =>
          rw [hjson] at houtcome
          rw [← Except.ok.inj houtcome]
  | dot => simp [renderAmbiguousSelection] at houtcome

/-- A single declaration is selected only from the index `matchPick` chose. -/
theorem selected_of_selectByPick {query pick : String}
    {enriched : List (SymbolCandidate × ResolvedSymbol)} {format : Format}
    {onMiss : Except CommandError Selection} {candidate : SymbolCandidate}
    {resolved : ResolvedSymbol}
    (hmiss : onMiss ≠ .ok (.one candidate resolved))
    (hone : selectByPick symbolsJson query enriched pick format onMiss =
      .ok (.one candidate resolved)) :
    ∃ index, matchPick pick (fqnsOf enriched) = .selected index ∧
      enriched[index]? = some (candidate, resolved) := by
  rw [selectByPick] at hone
  cases hmatch : matchPick pick (fqnsOf enriched) with
  | missed => exact absurd (by simpa [hmatch] using hone) hmiss
  | ambiguous indices =>
      simp only [hmatch] at hone
      cases hlisting : renderAmbiguousSelection symbolsJson query
        ((retainIndices enriched indices).map Prod.snd) format with
      | error failure => simp [hlisting, Except.map] at hone
      | ok outcome => simp [hlisting, Except.map] at hone
  | selected index =>
      simp only [hmatch] at hone
      cases hget : enriched[index]? with
      | none => exact absurd (by simpa [hget] using hone) hmiss
      | some chosen =>
          simp only [hget, Except.ok.injEq, Selection.one.injEq] at hone
          exact ⟨index, rfl, by rw [hget, ← hone.1, ← hone.2]⟩

theorem selected_of_pickPresent {query pick : String}
    {resolved : List ResolvedSymbol} {format : Format} {missed : CommandError}
    {outcome : SymbolsOutcome}
    (houtcome : pickPresent symbolsJson attachMembers query resolved pick format
      (.error missed) = .ok outcome) (hexit : outcome.exit = .success) :
    ∃ index, matchPick pick (resolved.map ResolvedSymbol.fqn) =
      .selected index := by
  rw [pickPresent] at houtcome
  cases hmatch : matchPick pick (resolved.map ResolvedSymbol.fqn) with
  | missed => simp [hmatch] at houtcome
  | selected index => exact ⟨index, rfl⟩
  | ambiguous indices =>
      simp only [hmatch] at houtcome
      have hlisting := exit_of_renderAmbiguousSelection symbolsJson houtcome
      rw [hexit] at hlisting
      exact absurd hlisting (by decide)

/-- A pick never guesses, and `select` and `present_symbols` answer with one
declaration only for one match, exactly when no two candidates carry the picked
name itself. -/
theorem pick_honest_iff (query pick : String)
    (enriched : List (SymbolCandidate × ResolvedSymbol)) (limit : Option ℕ)
    (format : Format) :
    (NeverGuesses pick (fqnsOf enriched) (matchPick pick (fqnsOf enriched)) ∧
      (matchPick pick (fqnsOf enriched) = .missed ↔
        ∀ fqn ∈ fqnsOf enriched, ¬Matches fqn pick) ∧
      ∀ filter, filter = .explicit pick ∨ filter = .dotted pick →
        (∀ candidate resolved,
          select symbolsJson query enriched format filter =
            .ok (.one candidate resolved) →
          ∃ index, enriched[index]? = some (candidate, resolved) ∧
            OnlyMatch pick (fqnsOf enriched) index) ∧
        ∀ outcome,
          presentSymbols symbolsJson attachMembers query (enriched.map Prod.snd)
            limit format filter = .ok outcome →
          outcome.exit = .success →
          ∃ index, OnlyMatch pick (fqnsOf enriched) index) ↔
      (fqnsOf enriched).count pick ≤ 1 := by
  rw [← neverGuesses_iff]
  refine ⟨And.left, fun hhonest => ⟨hhonest, matchPick_eq_missed_iff _ _, ?_⟩⟩
  have honly : ∀ index, matchPick pick (fqnsOf enriched) = .selected index →
      OnlyMatch pick (fqnsOf enriched) index := by
    intro index hmatch
    rwa [hmatch] at hhonest
  have hnames : (enriched.map Prod.snd).map ResolvedSymbol.fqn = fqnsOf enriched := by
    rw [List.map_map]
    rfl
  intro filter hfilter
  constructor
  · intro candidate resolved hone
    have hselected : ∃ index, matchPick pick (fqnsOf enriched) = .selected index ∧
        enriched[index]? = some (candidate, resolved) := by
      cases hfilter with
      | inl hexplicit =>
          rw [hexplicit] at hone
          exact selected_of_selectByPick symbolsJson (by simp) hone
      | inr hdotted =>
          rw [hdotted] at hone
          exact selected_of_selectByPick symbolsJson (by simp) hone
    obtain ⟨index, hmatch, hget⟩ := hselected
    exact ⟨index, hget, honly index hmatch⟩
  · intro outcome houtcome hexit
    have hselected : ∃ index,
        matchPick pick ((enriched.map Prod.snd).map ResolvedSymbol.fqn) =
          .selected index := by
      cases hfilter with
      | inl hexplicit =>
          rw [hexplicit] at houtcome
          exact selected_of_pickPresent symbolsJson attachMembers houtcome hexit
      | inr hdotted =>
          rw [hdotted] at houtcome
          exact selected_of_pickPresent symbolsJson attachMembers houtcome hexit
    obtain ⟨index, hmatch⟩ := hselected
    rw [hnames] at hmatch
    exact ⟨index, honly index hmatch⟩

end Selecting

/-- Two overloads share one name: the first is selected although both match. -/
theorem matchPick_overloads :
    matchPick "shop.Repo.save" ["shop.Repo.save", "shop.Repo.save"] = .selected 0 ∧
      ¬NeverGuesses "shop.Repo.save" ["shop.Repo.save", "shop.Repo.save"]
        (matchPick "shop.Repo.save" ["shop.Repo.save", "shop.Repo.save"]) := by
  refine ⟨by decide, ?_⟩
  rw [neverGuesses_iff]
  decide

end Ktsense.Cli
