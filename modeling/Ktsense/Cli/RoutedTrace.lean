import Ktsense.Cli.SelectCandidate
import Ktsense.Cli.WarmDeclarations

/-!
# Routed and in-process traces

The in-process `trace` and `context` beside those that a daemon answers from its warm session.
The one asks `find` first and opens a session only where it needs one; the other asks the index
of the session it has.  What follows the candidates is shared.
-/

namespace Ktsense.Cli.RoutedTrace

open Ktsense.Foundation Ktsense.Core Ktsense.Lsp
open Ktsense.Cli.Warm Ktsense.Cli.SelectCandidate
open Ktsense.Cli.TraceRun (Target)

section InProcess

variable {Target Candidate Site Caller Report : Type}
  (parts : TraceParts Candidate Target Site Caller Report)

/-- What `resolve_warm` and `indexed_trace` make of the candidates on an open session. -/
def answerFrom (request : TraceRequest) (index : IndexCompleteness)
    (candidates : List Candidate) : Warm.Session (Except CommandError (Traced Report)) :=
  match parts.select request candidates with
  | .error failure => .done (.error failure)
  | .ok (.ambiguous outcome) => .done (.ok (.ambiguous outcome))
  | .ok .notFound => .done (.ok .notFound)
  | .ok (.ready target) =>
      (sessionRun parts target request.depth index).map fun
        | .ok report => .ok (.resolved report)
        | .error error => .error (engineError parts.durationText error)

def indexedTrace (request : TraceRequest) (index : IndexCompleteness) :
    Warm.Session (Except CommandError (Traced Report)) :=
  (declarationsFromIndex parts request index).bind fun candidates =>
    answerFrom parts request index (candidates.getD [])

-- what launching an engine and waiting for its index comes to
variable (openFreshSession : TraceRequest → Except LspError IndexCompleteness)

def resolvedAgainstAFreshIndex (request : TraceRequest) :
    Warm.Session (Except CommandError (Traced Report)) :=
  match openFreshSession request with
  | .error error => .done (.error (engineError parts.durationText error))
  | .ok index => indexedTrace parts request index

def collectFresh (request : TraceRequest) (target : Target) :
    Warm.Session (Except LspError Report) :=
  match openFreshSession request with
  | .error error => .done (.error error)
  | .ok index => sessionRun parts target request.depth index

def traced (request : TraceRequest) :
    Resolution Target → Warm.Session (Except CommandError (Traced Report))
  | .ambiguous outcome => .done (.ok (.ambiguous outcome))
  | .notFound => .done (.ok .notFound)
  | .ready target =>
      (collectFresh parts openFreshSession request target).map fun
        | .ok report => .ok (.resolved report)
        | .error error => .error (engineError parts.durationText error)

def resolveInProcess (request : TraceRequest) :
    Warm.Session (Except CommandError (Traced Report)) :=
  match parts.find request with
  | .error failure => .done (.error failure)
  | .ok found =>
      if found.isEmpty then resolvedAgainstAFreshIndex parts openFreshSession request
      else
        match parts.select request found with
        | .error failure => .done (.error failure)
        | .ok resolution => traced parts openFreshSession request resolution

/-- The in-process `trace`. -/
def trace (request : TraceRequest) : Warm.Session (Except CommandError CommandOutcome) :=
  (resolveInProcess parts openFreshSession request).andThen fun
    | .resolved report => .done (parts.present request report)
    | .ambiguous outcome => .done (.ok outcome)
    | .notFound => .done (parts.textReferences request)

/-- The in-process `context`. -/
def context {Regex : Type}
    (finish : ContextRequest Regex → Traced Report → Except CommandError CommandOutcome)
    (request : ContextRequest Regex) : Warm.Session (Except CommandError CommandOutcome) :=
  (resolveInProcess parts openFreshSession (contextTraceRequest request)).andThen
    fun traced => .done (finish request traced)

/-! ## One answer for the same candidates -/

variable {parts openFreshSession} {request : TraceRequest} {index : IndexCompleteness}

theorem resolveWarm_eq (hindex : parts.awaitIndex request.wait = index) :
    resolveWarm parts request =
      (warmDeclarations parts request index).andThen (answerFrom parts request index) := by
  rw [← hindex]
  rfl

theorem resolveInProcess_of_empty (hopen : openFreshSession request = .ok index)
    (hfind : parts.find request = .ok []) :
    resolveInProcess parts openFreshSession request = indexedTrace parts request index := by
  simp only [resolveInProcess, hfind, resolvedAgainstAFreshIndex, hopen, List.isEmpty_nil,
    if_true]

theorem resolveInProcess_of_found {found : List Candidate}
    (hopen : openFreshSession request = .ok index) (hfind : parts.find request = .ok found)
    (hfound : found ≠ []) :
    resolveInProcess parts openFreshSession request = answerFrom parts request index found := by
  have hnonempty : found.isEmpty = false := by
    rw [List.isEmpty_eq_false_iff]
    exact hfound
  simp only [resolveInProcess, hfind, hnonempty, Bool.false_eq_true, if_false, answerFrom]
  cases parts.select request found with
  | error failure => rfl
  | ok resolution =>
      cases resolution with
      | ready target => simp only [traced, collectFresh, hopen]
      | ambiguous outcome => rfl
      | notFound => rfl

/-- What is selected from the candidates of the index is what is selected from those of
`find`, where `find` names any. -/
def SelectsAlike (parts : TraceParts Candidate Target Site Caller Report)
    (request : TraceRequest) (index : IndexCompleteness) (found : List Candidate)
    (oracle : EngineRequest → Except LspError Json) : Prop :=
  ∀ candidates, (declarationsFromIndex parts request index).eval oracle = some candidates →
    found ≠ [] → parts.select request candidates = parts.select request found

theorem eval_resolve {found : List Candidate} {oracle : EngineRequest → Except LspError Json}
    (hopen : openFreshSession request = .ok (parts.awaitIndex request.wait))
    (hfind : parts.find request = .ok found)
    (hselect : SelectsAlike parts request (parts.awaitIndex request.wait) found oracle) :
    (resolveWarm parts request).eval oracle =
      (resolveInProcess parts openFreshSession request).eval oracle := by
  rw [resolveWarm_eq rfl, Dialogue.andThen, Dialogue.eval_bind, warmDeclarations,
    Dialogue.eval_map]
  by_cases hempty : found = []
  · subst hempty
    rw [resolveInProcess_of_empty hopen hfind, indexedTrace, Dialogue.eval_bind]
    cases (declarationsFromIndex parts request (parts.awaitIndex request.wait)).eval oracle with
    | some candidates => rfl
    | none =>
        dsimp only
        rw [hfind]
        rfl
  · rw [resolveInProcess_of_found hopen hfind hempty]
    cases hdeclarations :
        (declarationsFromIndex parts request (parts.awaitIndex request.wait)).eval oracle with
    | some candidates =>
        dsimp only
        rw [answerFrom, hselect candidates hdeclarations hempty, answerFrom]
    | none =>
        dsimp only
        rw [hfind]

end InProcess

/-! ## A routed answer is the in-process answer -/

section Agreement

variable {Site Caller Report : Type}

/-- The lookup, the columns and the selection as they are, the rest as given. -/
def settledParts (parts : TraceParts SymbolCandidate Target Site Caller Report)
    (canonicalize : String → Option String) (isAlphanumeric : Char → Bool)
    (deserialize : Json → Except String (Option (List ReportedSymbol)))
    (symbolsJson : List ResolvedSymbol → Except CommandError String) (reading : SourceReader) :
    TraceParts SymbolCandidate Target Site Caller Report :=
  { parts.lookingUp canonicalize isAlphanumeric reading.read deserialize with
    select := selectCandidate symbolsJson reading }

/-- The question that a name is looked up with. -/
def lookup (name : String) : EngineRequest :=
  ⟨"workspace/symbol", .obj [("query", .str name)]⟩

/-- The candidates of an index are those that the one answer settles on. -/
theorem answered_of_eval {Candidate Target : Type}
    {parts : TraceParts Candidate Target Site Caller Report} {request : TraceRequest}
    {index : IndexCompleteness} {oracle : EngineRequest → Except LspError Json}
    {candidates : List Candidate}
    (heval : (declarationsFromIndex parts request index).eval oracle = some candidates) :
    ∃ answer, oracle (lookup (lastSegment request.symbol)) = .ok answer ∧
      parts.declarations request answer = some candidates := by
  rw [declarationsFromIndex] at heval
  split_ifs at heval with hcomplete
  · cases heval
  · rw [Dialogue.eval] at heval
    rw [lookup]
    cases hanswer : oracle ⟨"workspace/symbol",
        .obj [("query", .str (lastSegment request.symbol))]⟩ with
    | error failure =>
        rw [hanswer] at heval
        cases heval
    | ok answer =>
        rw [hanswer] at heval
        exact ⟨answer, rfl, heval⟩

variable {parts : TraceParts SymbolCandidate Target Site Caller Report}
  {canonicalize : String → Option String} {isAlphanumeric : Char → Bool}
  {deserialize : Json → Except String (Option (List ReportedSymbol))}
  {symbolsJson : List ResolvedSymbol → Except CommandError String} {reading : SourceReader}
  {openFreshSession : TraceRequest → Except LspError IndexCompleteness}
  {request : TraceRequest} {oracle : EngineRequest → Except LspError Json}
  {name : String} {index : List ReportedSymbol} {found : List SymbolCandidate}
  {declared : List (NameOccurrence isAlphanumeric reading.read)}
  {mentions : String → String → Bool}

/-- Files that are displayed alike are one file. -/
def DisplayedApart (reading : SourceReader) (root : String)
    (declared : List (NameOccurrence isAlphanumeric reading.read)) : Prop :=
  ∀ one ∈ declared, ∀ other ∈ declared,
    display reading root one.path = display reading root other.path → one.path = other.path

theorem onePlaceEach_declaredAt (hnamed : ∀ one ∈ declared, one.name = name)
    (hfiles : DisplayedApart reading request.root declared) :
    OnePlaceEach reading request.root (declared.map declaredAt) := by
  intro one hone other hother hfile hline hcol
  obtain ⟨left, hleft, rfl⟩ := List.mem_map.mp hone
  obtain ⟨right, hright, rfl⟩ := List.mem_map.mp hother
  have hname : left.name = right.name := (hnamed left hleft).trans (hnamed right hright).symm
  have hpath : left.path = right.path := hfiles left hleft right hright hfile
  exact SymbolCandidate.mk.injEq .. |>.mpr ⟨hname, hpath, hline, hcol⟩

theorem selectsAlike_of_sameDeclarations {completeness : IndexCompleteness}
    (hsame : SameDeclarations canonicalize name request.root index found declared)
    (hname : lastSegment request.symbol = name) (hmentions : mentions name name = true)
    (hfiles : DisplayedApart reading request.root declared)
    (hanswer : ∀ answer, oracle (lookup name) = .ok answer →
      ∀ reported, deserialize answer = .ok reported →
        reported.getD [] = (mentioned mentions name index).take workspaceSymbolCap) :
    SelectsAlike (settledParts parts canonicalize isAlphanumeric deserialize symbolsJson reading)
      request completeness (correctColumns isAlphanumeric reading.read found) oracle := by
  intro candidates heval _
  obtain ⟨answer, horacle, hsettled⟩ := answered_of_eval heval
  simp only [settledParts, TraceParts.lookingUp] at hsettled
  rw [hname] at horacle hsettled
  have hcandidates : candidates = declared.map declaredAt :=
    settled_declared hsame hmentions (hanswer answer horacle) hsettled
  rw [hcandidates]
  exact selectCandidate_perm (correctColumns_perm hsame).symm
    (onePlaceEach_declaredAt (fun one hone => (hsame.named one hone).1) hfiles)

/-- On engines that answer alike and have come as far with their index, a routed `trace` ends
as the in-process one does and a routed `context` as the in-process one. -/
theorem routed_agrees_in_process
    (hname : lastSegment request.symbol = name) (hmentions : mentions name name = true)
    (hfiles : DisplayedApart reading request.root declared)
    (hopen : openFreshSession request = .ok (parts.awaitIndex request.wait))
    (hfind : parts.find request = .ok [] ∨
      SameDeclarations canonicalize name request.root index found declared ∧
        parts.find request = .ok (correctColumns isAlphanumeric reading.read found))
    (hanswer : ∀ answer, oracle (lookup name) = .ok answer →
      ∀ reported, deserialize answer = .ok reported →
        reported.getD [] = (mentioned mentions name index).take workspaceSymbolCap) :
    let routed := settledParts parts canonicalize isAlphanumeric deserialize symbolsJson reading
    Dialogue.EndAlike oracle (traceWarm routed request)
        (trace routed openFreshSession request) ∧
      ∀ {Regex : Type} (finish : ContextRequest Regex → Traced Report →
          Except CommandError CommandOutcome) (bundle : ContextRequest Regex),
        contextTraceRequest bundle = request →
          Dialogue.EndAlike oracle (contextWarm routed finish bundle)
            (context routed openFreshSession finish bundle) := by
  intro routed
  have hresolve : (resolveWarm routed request).eval oracle =
      (resolveInProcess routed openFreshSession request).eval oracle := by
    cases hfind with
    | inl hnone =>
        exact eval_resolve hopen hnone fun candidates _ hfound => absurd rfl hfound
    | inr hsome =>
        exact eval_resolve hopen hsome.2
          (selectsAlike_of_sameDeclarations hsome.1 hname hmentions hfiles hanswer)
  constructor
  · exact Dialogue.endAlike_of_eval (Dialogue.eval_andThen_congr _ hresolve)
  · rintro Regex finish bundle rfl
    exact Dialogue.endAlike_of_eval (Dialogue.eval_andThen_congr _ hresolve)

end Agreement

/-! The name behind a character of two code units, traced on a settled engine. -/

def plainRequest : TraceRequest := ⟨"/work", "value", none, 1, none, .capped, .md, none⟩

def valueReader : SourceReader where
  canonicalize := some
  read := readMain
  parse _ := none
  alphanumeric := Layout.Alphanumeric.onAscii
  letters := .ascii

def tracedParts : TraceParts SymbolCandidate Target Unit Unit Target where
  awaitIndex _ := .complete
  declarations _ _ := none
  find _ := .ok (correctColumns Char.isAlphanum readMain valueFound)
  select _ _ := .ok .notFound
  positionParams _ := .null
  referenceParams _ := .null
  sites _ := .ok []
  build target _ _ _ := target
  directCallers _ := []
  callerParams _ := none
  callersAt _ _ := []
  sorted callers := callers
  deepen report callers := (callers, report)
  present _ target := .ok ⟨target.definition.path, .success, none⟩
  textReferences _ := .error ⟨.failure, ""⟩
  durationText _ := ""

def routedParts : TraceParts SymbolCandidate Target Unit Unit Target :=
  settledParts tracedParts some Char.isAlphanum readIndex noJson valueReader

def valueOracle (_ : EngineRequest) : Except LspError Json := .ok .null

def openedValue (_ : TraceRequest) : Except LspError IndexCompleteness := .ok .complete

theorem routed_agrees_in_process_value :
    Dialogue.EndAlike valueOracle (traceWarm routedParts plainRequest)
        (trace routedParts openedValue plainRequest) ∧
      (traceWarm routedParts plainRequest).eval valueOracle =
        .ok ⟨"Main.kt", .success, none⟩ := by
  have hname : lastSegment plainRequest.symbol = "value" := by decide +kernel
  have hmentions : mentionsText "value" "value" = true := by decide +kernel
  have hfiles : DisplayedApart valueReader plainRequest.root [astralOccurrence] := by
    intro one hone other hother _
    rw [List.mem_singleton.mp hone, List.mem_singleton.mp hother]
  have hopen : openedValue plainRequest = .ok (tracedParts.awaitIndex plainRequest.wait) := rfl
  have hfind : tracedParts.find plainRequest = .ok [] ∨
      SameDeclarations some "value" plainRequest.root valueIndex valueFound [astralOccurrence] ∧
        tracedParts.find plainRequest =
          .ok (correctColumns Char.isAlphanum valueReader.read valueFound) :=
    .inr ⟨value_known_to_both, rfl⟩
  have hanswer : ∀ answer, valueOracle (lookup "value") = .ok answer →
      ∀ reported, readIndex answer = .ok reported →
        reported.getD [] = (mentioned mentionsText "value" valueIndex).take
          workspaceSymbolCap := by
    rintro answer - reported hreported
    cases hreported
    decide +kernel
  refine ⟨(routed_agrees_in_process hname hmentions hfiles hopen hfind hanswer).1, ?_⟩
  decide +kernel

end Ktsense.Cli.RoutedTrace
