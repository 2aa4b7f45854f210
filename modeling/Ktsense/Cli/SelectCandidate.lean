import Ktsense.Cli.CallerLevels
import Ktsense.Cli.Collect
import Ktsense.Cli.JavaSymbols
import Ktsense.Cli.Passthrough
import Ktsense.Cli.SymbolSearch
import Ktsense.Cli.TraceRun
import Ktsense.Cli.WarmCommands
import Ktsense.Syntax.Local

/-!
# From candidates to rows

What `symbols`, `trace` and `context` make of the candidates the engine names, in whatever
order it names them: each is read in the file it points at, a Java constructor is folded into
its type, and the rows are put in an order of their own.
-/

namespace Ktsense.Core

def Declaration.enumEntries (declaration : Declaration) : List String :=
  if declaration.kind ≠ .classKind ∨ Modifier.enum ∉ declaration.modifiers then []
  else (declaration.children.filter (·.kind = .enumEntry)).map Declaration.name

end Ktsense.Core

namespace Ktsense.Cli.SelectCandidate

open Ktsense.Foundation Ktsense.Core Ktsense.Core.Layout Ktsense.Syntax
open Ktsense.Cli.Passthrough (pathOf)
open Ktsense.Cli.SymbolSearch (kindLabel KindFilter)
open Ktsense.Cli.TraceRun (Target)

def dataClassProperties (declaration : Declaration) : List NamedProperty :=
  if declaration.kind ≠ .classKind ∨ Modifier.data ∉ declaration.modifiers then []
  else (declaration.parameters.filter (·.property.isSome)).map fun parameter =>
    ⟨parameter.name, parameter.typeName⟩

/-! ## Enriching -/

/-- What the files of the candidates are read with. -/
structure SourceReader where
  canonicalize : Path → Option Path
  read : String → Option String
  parse : String → Option Tree
  alphanumeric : Alphanumeric
  letters : Letters

abbrev Row := SymbolCandidate × ResolvedSymbol

section Enriching

variable (reading : SourceReader) (root : String)

/-- `normalized_path` of a file as the engine names it. -/
def display (file : String) : String :=
  normalizedPath reading.canonicalize (pathOf root) (pathOf file)

def localDeclaration (display source : String) (candidate : SymbolCandidate) :
    Option ResolvedSymbol :=
  (locateLocal reading.alphanumeric candidate.name candidate.line reading.parse source).map
    fun found =>
      { fqn := fqn found.package found.ancestors found.declaration.name
        kind := kindLabel found.declaration.kind
        file := display
        line := candidate.line
        signature := symbolSignature display found.declaration
        isLocal := true
        entries := []
        properties := []
        generated := false }

/-- A row with nothing but what the engine said. -/
def bare (display : String) (candidate : SymbolCandidate) : ResolvedSymbol where
  fqn := candidate.name
  kind := "symbol"
  file := display
  line := candidate.line
  signature := ""
  isLocal := false
  entries := []
  properties := []
  generated := false

def enrich (candidate : SymbolCandidate) : ResolvedSymbol :=
  let display := display reading root candidate.file
  match reading.read candidate.file with
  | none => bare display candidate
  | some source =>
      if endsWith candidate.file ".java" then
        (enrichJava reading.letters display source candidate).getD (bare display candidate)
      else
        match extract reading.alphanumeric reading.parse display source with
        | .error _ => bare display candidate
        | .ok skeleton =>
            match locate skeleton candidate.name candidate.line with
            | some found =>
                { fqn := fqn skeleton.package found.ancestors found.declaration.name
                  kind := kindLabel found.declaration.kind
                  file := display
                  line := candidate.line
                  signature := symbolSignature display found.declaration
                  isLocal := false
                  entries := []
                  properties := []
                  generated := false }
            | none =>
                (localDeclaration reading display source candidate).getD
                  (bare display candidate)

/-- `attach_members`: the members of a single row, read again. -/
def attachMembers (resolved : ResolvedSymbol) : ResolvedSymbol :=
  match reading.read (joinText root resolved.file) with
  | none => resolved
  | some source =>
      match extract reading.alphanumeric reading.parse resolved.file source with
      | .error _ => resolved
      | .ok skeleton =>
          match locate skeleton (lastSegment resolved.fqn) resolved.line with
          | none => resolved
          | some found =>
              { resolved with
                entries := found.declaration.enumEntries
                properties := dataClassProperties found.declaration }

end Enriching

/-! ## Folding and ordering -/

def simpleNameOf (fqn : String) : String := lastSegment fqn

def isJavaTypeKind (kind : String) : Bool :=
  kind ∈ ["class", "interface", "enum", "record", "@interface"]

def isJavaType (resolved : ResolvedSymbol) : Bool :=
  endsWith resolved.file ".java" && isJavaTypeKind resolved.kind

def isJavaConstructor (resolved : ResolvedSymbol) : Bool :=
  endsWith resolved.file ".java" && resolved.kind = "constructor"

/-- The file and the simple name, by which a constructor is known as that of a type. -/
def typeKey (resolved : ResolvedSymbol) : String × String :=
  (resolved.file, simpleNameOf resolved.fqn)

def javaTypes (enriched : List Row) : Finset (String × String) :=
  ((enriched.filter fun row => isJavaType row.2).map fun row => typeKey row.2).toFinset

def foldJavaConstructors (enriched : List Row) : List Row :=
  let types := javaTypes enriched
  enriched.filter fun row => !(isJavaConstructor row.2 && decide (typeKey row.2 ∈ types))

def rowKey (row : Row) : String ×ₗ String ×ₗ ℕ ×ₗ ℕ :=
  toLex (row.2.fqn, toLex (row.2.file, toLex (row.2.line, row.1.col)))

section Rows

variable (reading : SourceReader) (root : String)

def enriched (candidates : List SymbolCandidate) : List Row :=
  candidates.map fun candidate => (candidate, enrich reading root candidate)

def enrichSorted (candidates : List SymbolCandidate) : List Row :=
  sortByKey rowKey (foldJavaConstructors (enriched reading root candidates))

def isIgnored (candidate : SymbolCandidate) : Bool :=
  isInsideIgnoredDir reading.canonicalize (pathOf root) (pathOf candidate.file)

end Rows

/-! ## The commands -/

section Commands

variable (symbolsJson : List ResolvedSymbol → Except CommandError String) (reading : SourceReader)

def selectCandidate (request : TraceRequest) (candidates : List SymbolCandidate) :
    Except CommandError (Warm.Resolution Target) :=
  let (ignored, candidates) := candidates.partition (isIgnored reading request.root)
  (select symbolsJson request.symbol (enrichSorted reading request.root candidates)
    request.format (.forQuery request.symbol request.pick)).map fun
      | .one candidate resolved =>
          .ready ⟨candidate, resolved.definition, ignored.length⟩
      | .ambiguous outcome => .ambiguous outcome
      | .notFound => .notFound

structure SymbolsRequest where
  root : String
  query : String
  kind : Option KindFilter
  limit : Option ℕ
  pick : Option String
  format : Format

/-- `SymbolsOutcome::noting_ignored`. -/
def notingIgnored (ignored : ℕ) (format : Format) (outcome : SymbolsOutcome) :
    SymbolsOutcome :=
  if 0 < ignored ∧ format = .md then
    { outcome with
      text := outcome.text ++ "\nignored: " ++ toString ignored ++ " engine " ++
        (if ignored = 1 then "result" else "results") ++
        " inside ignored directories such as bin/\n" }
  else outcome

def filtersNothing : PickFilter → Bool
  | .none => true
  | _ => false

/-- The `symbols` command, from what `find` answers on; `fallback` is
`present_exact_from_syntax_index`. -/
def symbols (fallback : Except CommandError SymbolsOutcome) (request : SymbolsRequest)
    (found : List SymbolCandidate) : Except CommandError SymbolsOutcome :=
  let filter := PickFilter.forQuery request.query request.pick
  let (ignored, candidates) := found.partition (isIgnored reading request.root)
  if candidates.isEmpty && filtersNothing filter then fallback
  else
    let resolved := (enrichSorted reading request.root candidates).map Prod.snd
    let wanted := resolved.filter fun symbol =>
      request.kind.all fun kind => symbol.kind = kind.label
    (presentSymbols symbolsJson (attachMembers reading request.root) request.query wanted
      request.limit request.format filter).map (notingIgnored ignored.length request.format)

end Commands

/-! ## Any order answers alike -/

section AnyOrder

variable {reading : SourceReader} {root : String} {first second : List SymbolCandidate}

/-- A place, as it is displayed, is that of one candidate. -/
def OnePlaceEach (reading : SourceReader) (root : String) (candidates : List SymbolCandidate) :
    Prop :=
  ∀ one ∈ candidates, ∀ other ∈ candidates,
    display reading root one.file = display reading root other.file →
      one.line = other.line → one.col = other.col → one = other

/-- A row stands at its candidate. -/
structure StandsAt (display : String) (candidate : SymbolCandidate)
    (resolved : ResolvedSymbol) : Prop where
  file : resolved.file = display
  line : resolved.line = candidate.line

theorem standsAt_bare (display : String) (candidate : SymbolCandidate) :
    StandsAt display candidate (bare display candidate) := ⟨rfl, rfl⟩

theorem standsAt_getD {display : String} {candidate : SymbolCandidate}
    {found : Option ResolvedSymbol}
    (hfound : ∀ resolved, found = some resolved → StandsAt display candidate resolved) :
    StandsAt display candidate (found.getD (bare display candidate)) := by
  cases found with
  | none => exact standsAt_bare display candidate
  | some resolved => exact hfound resolved rfl

theorem standsAt_enrichJava {letters : Letters} {display source : String}
    {candidate : SymbolCandidate} {resolved : ResolvedSymbol}
    (hresolved : enrichJava letters display source candidate = some resolved) :
    StandsAt display candidate resolved := by
  simp only [enrichJava, Option.bind_eq_bind, Option.bind_eq_some_iff, Option.some.injEq]
    at hresolved
  obtain ⟨found, -, rfl⟩ := hresolved
  exact ⟨rfl, rfl⟩

theorem standsAt_localDeclaration {display source : String} {candidate : SymbolCandidate}
    {resolved : ResolvedSymbol}
    (hresolved : localDeclaration reading display source candidate = some resolved) :
    StandsAt display candidate resolved := by
  rw [localDeclaration, Option.map_eq_some_iff] at hresolved
  obtain ⟨found, -, rfl⟩ := hresolved
  exact ⟨rfl, rfl⟩

theorem standsAt_enrich (candidate : SymbolCandidate) :
    StandsAt (display reading root candidate.file) candidate
      (enrich reading root candidate) := by
  rw [enrich]
  cases reading.read candidate.file with
  | none => exact standsAt_bare _ _
  | some source =>
      dsimp only
      split_ifs
      · exact standsAt_getD fun _ => standsAt_enrichJava
      · cases extract reading.alphanumeric reading.parse (display reading root candidate.file)
          source with
        | error message => exact standsAt_bare _ _
        | ok skeleton =>
            dsimp only
            cases locate skeleton candidate.name candidate.line with
            | some found => exact ⟨rfl, rfl⟩
            | none => exact standsAt_getD fun _ => standsAt_localDeclaration

theorem mem_enriched {candidates : List SymbolCandidate} {row : Row} :
    row ∈ enriched reading root candidates ↔
      row.1 ∈ candidates ∧ row.2 = enrich reading root row.1 := by
  constructor
  · intro hrow
    obtain ⟨candidate, hcandidate, rfl⟩ := List.mem_map.mp hrow
    exact ⟨hcandidate, rfl⟩
  · rintro ⟨hcandidate, hresolved⟩
    exact List.mem_map.mpr ⟨row.1, hcandidate, Prod.ext rfl hresolved.symm⟩

theorem foldJavaConstructors_perm {rows others : List Row} (hperm : rows.Perm others) :
    (foldJavaConstructors rows).Perm (foldJavaConstructors others) := by
  have htypes : javaTypes rows = javaTypes others :=
    List.toFinset_eq_of_perm _ _ ((hperm.filter _).map _)
  rw [foldJavaConstructors, foldJavaConstructors, htypes]
  exact hperm.filter _

theorem mem_javaTypes {rows : List Row} {key : String × String} :
    key ∈ javaTypes rows ↔ ∃ row ∈ rows, isJavaType row.2 = true ∧ typeKey row.2 = key := by
  rw [javaTypes, List.mem_toFinset, List.mem_map]
  constructor
  · rintro ⟨row, hrow, hkey⟩
    exact ⟨row, (List.mem_filter.mp hrow).1, (List.mem_filter.mp hrow).2, hkey⟩
  · rintro ⟨row, hrow, htype, hkey⟩
    exact ⟨row, List.mem_filter.mpr ⟨hrow, htype⟩, hkey⟩

/-- A constructor among the rows whose type is among them. -/
def FoldedIn (rows : List Row) (row : Row) : Prop :=
  isJavaConstructor row.2 = true ∧
    ∃ other ∈ rows, isJavaType other.2 = true ∧ typeKey other.2 = typeKey row.2

theorem mem_foldJavaConstructors {rows : List Row} {row : Row} :
    row ∈ foldJavaConstructors rows ↔ row ∈ rows ∧ ¬FoldedIn rows row := by
  rw [foldJavaConstructors, List.mem_filter, FoldedIn, ← mem_javaTypes, Bool.not_eq_true',
    Bool.and_eq_false_iff, decide_eq_false_iff_not, not_and_or, Bool.not_eq_true]

theorem not_isJavaConstructor {resolved : ResolvedSymbol} (htype : isJavaType resolved = true) :
    ¬isJavaConstructor resolved = true := by
  intro hconstructor
  have hkind : resolved.kind = "constructor" :=
    of_decide_eq_true (Bool.and_eq_true_iff.mp hconstructor).2
  have hlisted := (Bool.and_eq_true_iff.mp htype).2
  rw [hkind] at hlisted
  exact absurd hlisted (by decide)

theorem mem_enrichSorted {candidates : List SymbolCandidate} {row : Row} :
    row ∈ enrichSorted reading root candidates ↔
      row ∈ enriched reading root candidates ∧
        ¬FoldedIn (enriched reading root candidates) row := by
  rw [enrichSorted, (stableSort_sortByKey rowKey _).mem_iff, mem_foldJavaConstructors]

/-- Rows that sort alike are one row. -/
theorem row_eq_of_key {candidates : List SymbolCandidate}
    (hplaces : OnePlaceEach reading root candidates) {one other : Row}
    (hone : one ∈ enriched reading root candidates)
    (hother : other ∈ enriched reading root candidates) (hkey : rowKey one = rowKey other) :
    one = other := by
  obtain ⟨honeCandidate, honeRow⟩ := mem_enriched.mp hone
  obtain ⟨hotherCandidate, hotherRow⟩ := mem_enriched.mp hother
  have honeStands : StandsAt (display reading root one.1.file) one.1 one.2 :=
    honeRow ▸ standsAt_enrich one.1
  have hotherStands : StandsAt (display reading root other.1.file) other.1 other.2 :=
    hotherRow ▸ standsAt_enrich other.1
  simp only [rowKey, toLex_inj, Prod.mk.injEq] at hkey
  obtain ⟨-, hfile, hline, hcol⟩ := hkey
  have hcandidate : one.1 = other.1 :=
    hplaces _ honeCandidate _ hotherCandidate
      (honeStands.file.symm.trans (hfile.trans hotherStands.file))
      (honeStands.line.symm.trans (hline.trans hotherStands.line)) hcol
  apply Prod.ext hcandidate
  rw [honeRow, hotherRow, hcandidate]

theorem enrichSorted_perm (hperm : first.Perm second)
    (hplaces : OnePlaceEach reading root first) :
    enrichSorted reading root first = enrichSorted reading root second := by
  apply sortByKey_eq_of_perm (foldJavaConstructors_perm (hperm.map _))
  intro one hone other hother hkey
  exact row_eq_of_key hplaces (mem_foldJavaConstructors.mp hone).1
    (mem_foldJavaConstructors.mp hother).1 hkey

theorem OnePlaceEach.filter (hplaces : OnePlaceEach reading root first)
    (kept : SymbolCandidate → Bool) : OnePlaceEach reading root (first.filter kept) :=
  fun one hone other hother =>
    hplaces one (List.mem_filter.mp hone).1 other (List.mem_filter.mp hother).1

variable {symbolsJson : List ResolvedSymbol → Except CommandError String}

theorem selectCandidate_perm {request : TraceRequest} (hperm : first.Perm second)
    (hplaces : OnePlaceEach reading request.root first) :
    selectCandidate symbolsJson reading request first =
      selectCandidate symbolsJson reading request second := by
  rw [selectCandidate, selectCandidate, List.partition_eq_filter_filter,
    List.partition_eq_filter_filter]
  dsimp only
  rw [enrichSorted_perm (hperm.filter _) (hplaces.filter _), (hperm.filter _).length_eq]

theorem symbols_perm {fallback : Except CommandError SymbolsOutcome} {request : SymbolsRequest}
    (hperm : first.Perm second) (hplaces : OnePlaceEach reading request.root first) :
    symbols symbolsJson reading fallback request first =
      symbols symbolsJson reading fallback request second := by
  rw [symbols, symbols, List.partition_eq_filter_filter, List.partition_eq_filter_filter]
  dsimp only
  rw [enrichSorted_perm (hperm.filter _) (hplaces.filter _), (hperm.filter _).length_eq,
    (hperm.filter _).isEmpty_eq]

/-- The rows of the candidates: every one, but for the constructors of the types that stand
among them. -/
structure RowsOf (reading : SourceReader) (root : String) (candidates : List SymbolCandidate)
    (rows : List Row) : Prop where
  ordered : rows.Pairwise (rowKey · ≤ rowKey ·)
  shown : ∀ row, row ∈ rows ↔ row ∈ enriched reading root candidates ∧
    ¬FoldedIn (enriched reading root candidates) row
  apart : ∀ one ∈ rows, ∀ other ∈ rows, isJavaType one.2 = true →
    isJavaConstructor other.2 = true → typeKey one.2 ≠ typeKey other.2
  kept : candidates ≠ [] → rows ≠ []

theorem rowsOf_enrichSorted (candidates : List SymbolCandidate) :
    RowsOf reading root candidates (enrichSorted reading root candidates) where
  ordered := (stableSort_sortByKey rowKey _).ordered
  shown row := mem_enrichSorted
  apart one hone other hother htype hconstructor hkey :=
    (mem_enrichSorted.mp hother).2
      ⟨hconstructor, one, (mem_enrichSorted.mp hone).1, htype, hkey⟩
  kept hcandidates hrows := by
    have hnone : ∀ row ∈ enriched reading root candidates,
        FoldedIn (enriched reading root candidates) row := by
      intro row hrow
      by_contra hfolded
      exact List.eq_nil_iff_forall_not_mem.mp hrows row (mem_enrichSorted.mpr ⟨hrow, hfolded⟩)
    obtain ⟨candidate, hcandidate⟩ := List.exists_mem_of_ne_nil candidates hcandidates
    obtain ⟨-, other, hother, htype, -⟩ :=
      hnone (candidate, enrich reading root candidate) (mem_enriched.mpr ⟨hcandidate, rfl⟩)
    -- a type is folded into nothing
    exact not_isJavaConstructor htype (hnone other hother).1

variable (symbolsJson)

/-- In whatever order the engine names the candidates, `symbols` answers alike and so does the
selection of `trace` and `context`. -/
theorem any_order_answers_alike (hperm : first.Perm second)
    (hplaces : OnePlaceEach reading root first) :
    RowsOf reading root first (enrichSorted reading root second) ∧
      (∀ request : TraceRequest, request.root = root →
        selectCandidate symbolsJson reading request first =
          selectCandidate symbolsJson reading request second) ∧
      ∀ fallback, ∀ request : SymbolsRequest, request.root = root →
        symbols symbolsJson reading fallback request first =
          symbols symbolsJson reading fallback request second := by
  refine ⟨?_, ?_, ?_⟩
  · rw [← enrichSorted_perm hperm hplaces]
    exact rowsOf_enrichSorted first
  · rintro request rfl
    exact selectCandidate_perm hperm hplaces
  · rintro fallback request rfl
    exact symbols_perm hperm hplaces

end AnyOrder

/-! A Java class and its constructor, named in either order. -/

def accountSource : String := "class Account \x7b\n  Account() \x7b\x7d\n\x7d"

def accountReading : SourceReader where
  canonicalize := some
  read _ := some accountSource
  parse _ := none
  alphanumeric := Alphanumeric.onAscii
  letters := .ascii

def accountType : SymbolCandidate := ⟨"Account", "/work/Account.java", 1, 7⟩

def accountConstructor : SymbolCandidate := ⟨"Account", "/work/Account.java", 2, 3⟩

def accountRequest : TraceRequest := ⟨"/work", "Account", none, 1, none, .capped, .md, none⟩

def accountSymbols : SymbolsRequest := ⟨"/work", "Account", none, none, none, .md⟩

def noJson (_ : List ResolvedSymbol) : Except CommandError String := .ok ""

example : (enrichSorted accountReading "/work" [accountConstructor, accountType]).map Prod.fst =
    [accountType] := by decide +kernel

theorem any_order_answers_alike_account :
    RowsOf accountReading "/work" [accountConstructor, accountType]
        (enrichSorted accountReading "/work" [accountType, accountConstructor]) ∧
      selectCandidate noJson accountReading accountRequest [accountConstructor, accountType] =
        selectCandidate noJson accountReading accountRequest [accountType, accountConstructor] ∧
      symbols noJson accountReading (.error (.noSymbol "Account")) accountSymbols
          [accountConstructor, accountType] =
        symbols noJson accountReading (.error (.noSymbol "Account")) accountSymbols
          [accountType, accountConstructor] := by
  have hplaces : OnePlaceEach accountReading "/work" [accountConstructor, accountType] := by
    rw [OnePlaceEach]
    decide +kernel
  obtain ⟨hrows, hselect, hsymbols⟩ :=
    any_order_answers_alike noJson (List.Perm.swap accountType accountConstructor []) hplaces
  exact ⟨hrows, hselect accountRequest rfl, hsymbols _ accountSymbols rfl⟩

end Ktsense.Cli.SelectCandidate
