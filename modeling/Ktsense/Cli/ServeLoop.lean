import Ktsense.Cli.WarmCommands

/-!
# Serving a warm session

`serve_loop` and `serve_connection` of `server.rs` over the engine of the CLI.  A
framing fault may be recorded at any moment, a connection may break wherever it is
read or written, and the loop may grow idle between connections; every request
that is handled is kept with what it asked the engine.
-/

namespace Ktsense.Cli.Warm

open Ktsense.Foundation
open Ktsense.Core
open Ktsense.Daemon
open Ktsense.Lsp

/-- A handled request: the fault recorded when its handling began, what it asked,
and its outcome. -/
structure Handled where
  request : EngineRequest
  fault : Option FramingError
  exchanges : List (EngineRequest × Except LspError Json)
  outcome : HandlerOutcome

/-- The request asked the engine for something on a session that had faulted. -/
def Handled.Struck (handled : Handled) : Prop :=
  handled.fault ≠ none ∧ handled.exchanges ≠ []

def Handled.Faulted (handled : Handled) : Prop :=
  ∃ message, handled.outcome = .faulted message

/-- What the daemon keeps between requests. -/
structure ServerState where
  fault : Option FramingError
  served : UInt64

inductive ConnectionEnd where
  | closed
  | stop
  | faulted
  deriving DecidableEq, Repr

inductive StopReason where
  | stopped
  | idle
  | engineFaulted
  deriving DecidableEq, Repr

section Serving

variable {Regex : Type} (engine : CommandEngine Regex)

/-- A request is handled; a fault may have been recorded since the last. -/
inductive Handles : ServerState → EngineRequest → Handled → ServerState → Prop where
  | run {state : ServerState} {request : EngineRequest} {fault after : Option FramingError}
      {exchanges : List (EngineRequest × Except LspError Json)}
      {outcome : HandlerOutcome}
      (hlater : state.fault = none ∨ fault = state.fault)
      (hruns : Dialogue.Runs ClientAnswers (engine.handle state.served request).2 fault
        exchanges outcome after) :
      Handles state request ⟨request, fault, exchanges, outcome⟩
        ⟨after, (engine.handle state.served request).1⟩

/-- `serve_connection` on the frames a client sends. -/
inductive ServesConnection : ServerState → List ClientFrame → List Handled →
    ConnectionEnd → ServerState → Prop where
  -- the peer is gone, sends what is no frame, or cannot be written to
  | closed (state : ServerState) (frames : List ClientFrame) :
      ServesConnection state frames [] .closed state
  | stop (state : ServerState) (frames : List ClientFrame) :
      ServesConnection state (.stop :: frames) [] .stop state
  | faulted {state after : ServerState} {method : String} {params : Json}
      {frames : List ClientFrame} {handled : Handled}
      (hhandles : Handles engine state ⟨method, params⟩ handled after)
      (hfaulted : handled.Faulted) :
      ServesConnection state (.request method params :: frames) [handled] .faulted after
  | answered {state after last : ServerState} {method : String} {params : Json}
      {frames : List ClientFrame} {handled : Handled} {events : List Handled}
      {ending : ConnectionEnd}
      (hhandles : Handles engine state ⟨method, params⟩ handled after)
      (hintact : ¬handled.Faulted)
      (hrest : ServesConnection after frames events ending last) :
      ServesConnection state (.request method params :: frames) (handled :: events)
        ending last

/-- `serve_loop` on the connections that are accepted; without a reason where
accepting fails. -/
inductive ServesLoop : ServerState → List (List ClientFrame) → List Handled →
    Option StopReason → Prop where
  | idle (state : ServerState) (connections : List (List ClientFrame)) :
      ServesLoop state connections [] (some .idle)
  | acceptFails (state : ServerState) (connections : List (List ClientFrame)) :
      ServesLoop state connections [] none
  | closed {state after : ServerState} {frames : List ClientFrame}
      {connections : List (List ClientFrame)} {events later : List Handled}
      {reason : Option StopReason}
      (hserves : ServesConnection engine state frames events .closed after)
      (hrest : ServesLoop after connections later reason) :
      ServesLoop state (frames :: connections) (events ++ later) reason
  | stop {state after : ServerState} {frames : List ClientFrame}
      {connections : List (List ClientFrame)} {events : List Handled}
      (hserves : ServesConnection engine state frames events .stop after) :
      ServesLoop state (frames :: connections) events (some .stopped)
  | faulted {state after : ServerState} {frames : List ClientFrame}
      {connections : List (List ClientFrame)} {events : List Handled}
      (hserves : ServesConnection engine state frames events .faulted after) :
      ServesLoop state (frames :: connections) events (some .engineFaulted)

end Serving

/-- The first request that asks the engine on a faulted session is answered with
`Faulted`, is the last one handled, and stops the daemon for it. -/
def StopsAtFault (events : List Handled) (reason : Option StopReason) : Prop :=
  ∀ before event after, events = before ++ event :: after → event.Struck →
    (∀ earlier ∈ before, ¬earlier.Struck) →
      event.Faulted ∧ after = [] ∧ reason = some .engineFaulted

/-- The first request that asks the engine on a faulted session is an engine
method, and none of the daemon's own. -/
def AsksRawFirst (events : List Handled) : Prop :=
  ∀ before event after, events = before ++ event :: after → event.Struck →
    (∀ earlier ∈ before, ¬earlier.Struck) →
      event.request.method ≠ statusMethod ∧ event.request.method ≠ commandMethod

/-! ## One request -/

section Requests

variable {Regex : Type} {engine : CommandEngine Regex}
variable {state after : ServerState} {request : EngineRequest} {handled : Handled}

theorem Handles.request_eq (hhandles : Handles engine state request handled after) :
    handled.request = request := by
  cases hhandles
  rfl

/-- No command is ever answered with `Faulted`. -/
theorem commandOutcome_ne_faulted (result : Except CommandError CommandOutcome)
    (message : String) : CommandEngine.commandOutcome result ≠ .faulted message := by
  cases result <;> simp [CommandEngine.commandOutcome]

theorem outcome_of_answer {params : Json} {fault last : Option FramingError}
    {exchanges : List (EngineRequest × Except LspError Json)} {outcome : HandlerOutcome}
    (hruns : Dialogue.Runs ClientAnswers (engine.answer params) fault exchanges outcome
      last) (message : String) : outcome ≠ .faulted message := by
  rw [CommandEngine.answer] at hruns
  cases hparams : paramsFromJson params with
  | none =>
      rw [hparams] at hruns
      cases hruns
      simp
  | some command =>
      rw [hparams] at hruns
      obtain ⟨result, rfl, _⟩ := Dialogue.Runs.of_map hruns
      exact commandOutcome_ne_faulted result message

/-- Only an engine method faults. -/
theorem Handles.raw_of_faulted (hhandles : Handles engine state request handled after)
    (hfaulted : handled.Faulted) :
    request.method ≠ statusMethod ∧ request.method ≠ commandMethod := by
  obtain ⟨message, hmessage⟩ := hfaulted
  cases hhandles with
  | run hlater hruns =>
      constructor
      · intro hstatus
        rw [CommandEngine.handle, if_pos hstatus] at hruns
        cases hruns
        exact absurd hmessage (by simp)
      · intro hcommand
        have hother : request.method ≠ statusMethod := by
          rw [hcommand]
          decide
        rw [CommandEngine.handle, if_neg hother, if_pos hcommand] at hruns
        exact outcome_of_answer hruns message hmessage

/-- An engine method faults on a session that has. -/
theorem Handles.faulted_of_raw (hhandles : Handles engine state request handled after)
    (hstatus : request.method ≠ statusMethod)
    (hcommand : request.method ≠ commandMethod) (hfault : handled.fault ≠ none) :
    handled.Faulted := by
  cases hhandles with
  | @run fault _ _ _ hlater hruns =>
      rw [CommandEngine.handle, if_neg hstatus, if_neg hcommand, engineHandle] at hruns
      cases fault with
      | none => exact absurd rfl hfault
      | some recorded =>
          cases hruns with
          | ask hanswer hnext =>
              obtain ⟨rfl, rfl⟩ := hanswer
              cases hnext
              exact ⟨_, rfl⟩

end Requests

/-! ## Whole runs -/

section Runs

variable {Regex : Type} {engine : CommandEngine Regex}
variable {state after : ServerState}

/-- A list with one element more in front, split somewhere. -/
theorem cons_eq_append_cons {T : Type*} {first event : T} {events before later : List T}
    (hsplit : first :: events = before ++ event :: later) :
    before = [] ∧ event = first ∧ later = events ∨
      ∃ more, before = first :: more ∧ events = more ++ event :: later := by
  cases before with
  | nil =>
      rw [List.nil_append, List.cons.injEq] at hsplit
      exact .inl ⟨rfl, hsplit.1.symm, hsplit.2.symm⟩
  | cons other more =>
      rw [List.cons_append, List.cons.injEq] at hsplit
      exact .inr ⟨more, by rw [hsplit.1], hsplit.2⟩

/-- Every event of a connection is a request it handled. -/
theorem ServesConnection.handles {frames : List ClientFrame} {events : List Handled}
    {ending : ConnectionEnd}
    (hserves : ServesConnection engine state frames events ending after) :
    ∀ event ∈ events, ∃ before later,
      Handles engine before event.request event later := by
  induction hserves with
  | closed | stop => simp
  | faulted hhandles hfaulted =>
      intro event hevent
      rw [List.mem_singleton] at hevent
      rw [hevent, hhandles.request_eq]
      exact ⟨_, _, hhandles⟩
  | answered hhandles hintact hrest ih =>
      intro event hevent
      rcases List.mem_cons.1 hevent with rfl | hlater
      · rw [hhandles.request_eq]
        exact ⟨_, _, hhandles⟩
      · exact ih event hlater

/-- Nothing is handled on a connection after a `Faulted`, and it ends so. -/
theorem ServesConnection.last_of_faulted {frames : List ClientFrame}
    {events : List Handled} {ending : ConnectionEnd}
    (hserves : ServesConnection engine state frames events ending after)
    {before later : List Handled} {event : Handled}
    (hsplit : events = before ++ event :: later) (hfaulted : event.Faulted) :
    later = [] ∧ ending = .faulted := by
  induction hserves generalizing before with
  | closed | stop => simp at hsplit
  | faulted hhandles hown =>
      rcases cons_eq_append_cons hsplit with ⟨_, _, hlater⟩ | ⟨more, _, hmore⟩
      · exact ⟨hlater, rfl⟩
      · simp at hmore
  | answered hhandles hintact hrest ih =>
      rcases cons_eq_append_cons hsplit with ⟨_, hfirst, _⟩ | ⟨more, _, hmore⟩
      · exact absurd (hfirst ▸ hfaulted) hintact
      · exact ih hmore

theorem ServesLoop.handles {connections : List (List ClientFrame)}
    {events : List Handled} {reason : Option StopReason}
    (hserves : ServesLoop engine state connections events reason) :
    ∀ event ∈ events, ∃ before later,
      Handles engine before event.request event later := by
  induction hserves with
  | idle | acceptFails => simp
  | closed hserves hrest ih =>
      intro event hevent
      rcases List.mem_append.1 hevent with hown | hlater
      · exact hserves.handles event hown
      · exact ih event hlater
  | stop hserves => exact hserves.handles
  | faulted hserves => exact hserves.handles

/-- Nothing is handled at all after a `Faulted`, and the loop stops for it. -/
theorem ServesLoop.last_of_faulted {connections : List (List ClientFrame)}
    {events : List Handled} {reason : Option StopReason}
    (hserves : ServesLoop engine state connections events reason)
    {before later : List Handled} {event : Handled}
    (hsplit : events = before ++ event :: later) (hfaulted : event.Faulted) :
    later = [] ∧ reason = some .engineFaulted := by
  induction hserves generalizing before with
  | idle | acceptFails => simp at hsplit
  | @closed _ _ _ _ events others _ hserves hrest ih =>
      rcases List.append_eq_append_iff.1 hsplit with
        ⟨more, _, hmore⟩ | ⟨more, hevents, hmore⟩
      · exact ih hmore
      · cases more with
        | nil =>
            have hothers : others = [] ++ event :: later := hmore.symm
            exact ih hothers
        | cons first rest =>
            -- the event is on this connection, which did not end for it
            rw [List.cons_append, List.cons.injEq] at hmore
            rw [← hmore.1] at hevents
            exact absurd (hserves.last_of_faulted hevents hfaulted).2 (by simp)
  | stop hserves => exact absurd (hserves.last_of_faulted hsplit hfaulted).2 (by simp)
  | faulted hserves => exact ⟨(hserves.last_of_faulted hsplit hfaulted).1, rfl⟩

/-- A daemon whose session has faulted stops at the first request that asks its
engine exactly when that request is an engine method. -/
theorem stops_at_fault_iff {connections : List (List ClientFrame)}
    {events : List Handled} {reason : Option StopReason}
    (hserves : ServesLoop engine state connections events reason) :
    StopsAtFault events reason ↔ AsksRawFirst events := by
  have hhandled : ∀ before event later, events = before ++ event :: later →
      ∃ state after, Handles engine state event.request event after := by
    intro before event later hsplit
    exact hserves.handles event (by rw [hsplit]; simp)
  constructor
  · intro hstops before event later hsplit hstruck hfirst
    obtain ⟨state, after, hhandles⟩ := hhandled before event later hsplit
    exact hhandles.raw_of_faulted (hstops before event later hsplit hstruck hfirst).1
  · intro hraw before event later hsplit hstruck hfirst
    obtain ⟨state, after, hhandles⟩ := hhandled before event later hsplit
    obtain ⟨hstatus, hcommand⟩ := hraw before event later hsplit hstruck hfirst
    have hfaulted := hhandles.faulted_of_raw hstatus hcommand hstruck.1
    exact ⟨hfaulted, hserves.last_of_faulted hsplit hfaulted⟩

end Runs

/-! ## A trace on a faulted session -/

section Trace

variable {Candidate Target Site Caller Report : Type}
variable (parts : TraceParts Candidate Target Site Caller Report)
variable {request : TraceRequest} (fault : FramingError)

/-- The lookup is refused, and that is taken for no index. -/
theorem runs_warmDeclarations_of_fault :
    Dialogue.Runs ClientAnswers (warmDeclarations parts request .complete) (some fault)
      [(⟨"workspace/symbol", .obj [("query", .str (lastSegment request.symbol))]⟩,
        .error (.framing fault))]
      (parts.find request) (some fault) := by
  have hlookup : Dialogue.Runs ClientAnswers
      (declarationsFromIndex parts request .complete) (some fault)
      [(⟨"workspace/symbol", .obj [("query", .str (lastSegment request.symbol))]⟩,
        .error (.framing fault))] none (some fault) := by
    rw [declarationsFromIndex, if_neg (by simp)]
    exact .ask ⟨rfl, rfl⟩ (.done none _)
  exact hlookup.map _

/-- The first question of a run is refused, and that ends it. -/
theorem runs_sessionRun_of_fault (target : Target) (depth : ℕ)
    (index : IndexCompleteness) :
    Dialogue.Runs ClientAnswers (sessionRun parts target depth index) (some fault)
      [(⟨"textDocument/implementation", parts.positionParams target⟩,
        .error (.framing fault))]
      (.error (.framing fault)) (some fault) :=
  .andThen_error (.ask ⟨rfl, rfl⟩ (.done _ _))

/-- A trace that settles on a declaration without the index ends with the text of
the fault, and says no more of it. -/
theorem runs_traceWarm_of_fault {candidates : List Candidate} {target : Target}
    (hindex : parts.awaitIndex request.wait = .complete)
    (hfind : parts.find request = .ok candidates)
    (hselect : parts.select request candidates = .ok (.ready target)) :
    Dialogue.Runs ClientAnswers (traceWarm parts request) (some fault)
      [(⟨"workspace/symbol", .obj [("query", .str (lastSegment request.symbol))]⟩,
          .error (.framing fault)),
        (⟨"textDocument/implementation", parts.positionParams target⟩,
          .error (.framing fault))]
      (.error (engineError parts.durationText (.framing fault))) (some fault) := by
  refine .andThen_error ?_
  rw [resolveWarm, hindex]
  refine .andThen (hfind ▸ runs_warmDeclarations_of_fault parts fault) ?_
  rw [hselect]
  exact (runs_sessionRun_of_fault parts fault target _ _).map _

end Trace

/-- A workspace with one declaration, found without the index. -/
def oneDeclaration : TraceParts Unit Unit Unit Unit Unit where
  awaitIndex := fun _ => .complete
  declarations := fun _ _ => some [()]
  find := fun _ => .ok [()]
  select := fun _ _ => .ok (.ready ())
  positionParams := fun _ => .null
  referenceParams := fun _ => .null
  sites := fun _ => .ok []
  build := fun _ _ _ _ => ()
  directCallers := fun _ => []
  callerParams := fun _ => none
  callersAt := fun _ _ => []
  sorted := id
  deepen := fun report callers => (callers, report)
  present := fun _ _ => .ok (.success "")
  textReferences := fun _ => .ok (.success "")
  durationText := fun _ => "10s"

def oneDeclarationEngine : CommandEngine Unit where
  root := "/shop"
  bodies := rejectingBodies
  trace := traceWarm oneDeclaration
  context := contextWarm oneDeclaration fun _ _ => .ok (.success "")
  snapshot := fun served => .ofNat served.toNat
  decodeError := fun _ => ""
  durationText := fun _ => "10s"

/-- A routed trace of `Repo`. -/
def traceRepo : EngineRequest :=
  ⟨commandMethod, paramsToJson (.trace "Repo" none 1 none false [] .all) .md⟩

/-- It asks twice on the faulted session, and is answered with an error. -/
def lostTrace : Handled where
  request := traceRepo
  fault := some .missingContentLength
  exchanges :=
    [(⟨"workspace/symbol", .obj [("query", .str (lastSegment "Repo"))]⟩,
        .error (.framing .missingContentLength)),
      (⟨"textDocument/implementation", .null⟩,
        .error (.framing .missingContentLength))]
  outcome := CommandEngine.commandOutcome
    (.error (engineError (fun _ => "10s") (.framing .missingContentLength)))

theorem handle_traceRepo (served : UInt64) :
    oneDeclarationEngine.handle served traceRepo =
      (served + 1, (traceWarm oneDeclaration ⟨"/shop", "Repo", none, 1, none, .capped,
        .md, SiteFilter.new [] .all⟩).map CommandEngine.commandOutcome) := by
  have hmethod : traceRepo.method = commandMethod := rfl
  rw [CommandEngine.handle, if_neg (by decide), if_pos hmethod, CommandEngine.answer,
    traceRepo, paramsFromJson_paramsToJson]
  rfl

theorem handles_lostTrace {state : ServerState}
    (hfault : state.fault = none ∨ state.fault = some .missingContentLength) :
    Handles oneDeclarationEngine state traceRepo lostTrace
      ⟨some .missingContentLength, state.served + 1⟩ := by
  have hruns : Dialogue.Runs ClientAnswers
      (oneDeclarationEngine.handle state.served traceRepo).2 (some .missingContentLength)
      lostTrace.exchanges lostTrace.outcome (some .missingContentLength) := by
    rw [handle_traceRepo]
    exact (runs_traceWarm_of_fault oneDeclaration .missingContentLength rfl rfl rfl).map
      CommandEngine.commandOutcome
  have hcount : (oneDeclarationEngine.handle state.served traceRepo).1 =
      state.served + 1 := by
    rw [handle_traceRepo]
  rw [← hcount]
  exact .run (hfault.imp_right Eq.symm) hruns

/-- Both of two traces on one connection are served after the fault, and the daemon
grows idle. -/
theorem routed_trace_survives_fault :
    ¬∀ (connections : List (List ClientFrame)) (events : List Handled)
      (reason : Option StopReason),
      ServesLoop oneDeclarationEngine ⟨none, 0⟩ connections events reason →
        StopsAtFault events reason := by
  intro hall
  have hintact : ¬lostTrace.Faulted := by
    intro hfaulted
    obtain ⟨message, hmessage⟩ := hfaulted
    simp [lostTrace, CommandEngine.commandOutcome] at hmessage
  have hserves : ServesLoop oneDeclarationEngine ⟨none, 0⟩
      [[.request traceRepo.method traceRepo.params,
        .request traceRepo.method traceRepo.params]]
      ([lostTrace, lostTrace] ++ []) (some .idle) :=
    .closed (.answered (handles_lostTrace (.inl rfl)) hintact
      (.answered (handles_lostTrace (.inr rfl)) hintact (.closed _ _))) (.idle _ _)
  have hstruck : lostTrace.Struck := ⟨by simp [lostTrace], by simp [lostTrace]⟩
  exact hintact (hall _ _ _ hserves [] lostTrace [lostTrace] rfl hstruck (by simp)).1

/-- A raw hover on the faulted session. -/
def lostHover : Handled where
  request := ⟨"textDocument/hover", .null⟩
  fault := some .missingContentLength
  exchanges := [(⟨"textDocument/hover", .null⟩,
    .error (.framing .missingContentLength))]
  outcome := outcomeFor (fun _ => "10s") (.error (.framing .missingContentLength))

theorem hover_stops_at_fault :
    StopsAtFault [lostHover] (some .engineFaulted) := by
  have hruns : Dialogue.Runs ClientAnswers
      (oneDeclarationEngine.handle 0 lostHover.request).2 (some .missingContentLength)
      lostHover.exchanges lostHover.outcome (some .missingContentLength) := by
    rw [CommandEngine.handle, if_neg (by decide), if_neg (by decide)]
    exact .ask ⟨rfl, rfl⟩ (.done _ _)
  have hserves : ServesLoop oneDeclarationEngine ⟨none, 0⟩
      [[.request lostHover.request.method lostHover.request.params]] [lostHover]
      (some .engineFaulted) :=
    .faulted (.faulted (.run (.inl rfl) hruns) ⟨_, rfl⟩)
  refine (stops_at_fault_iff hserves).2 ?_
  intro before event later hsplit _ _
  have hevent : event ∈ [lostHover] := by rw [hsplit]; simp
  rw [List.mem_singleton.1 hevent]
  exact ⟨by decide, by decide⟩

end Ktsense.Cli.Warm
