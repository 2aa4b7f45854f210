import Ktsense.Cli.Routing
import Ktsense.Core.Pick
import Ktsense.Foundation.Dialogue
import Ktsense.Lsp.Client

/-!
# Commands on a warm session

What the daemon makes of a request, with every question it puts to its one
`LspClient` on the way: `WarmEngine::handle` for a raw engine method,
`trace_warm` and `context_warm` for the two routed commands that ask the engine,
and nothing for the others.  How an answer is read, how a candidate is chosen and
how a report is built are given.
-/

namespace Ktsense.Cli.Warm

open Ktsense.Foundation
open Ktsense.Core
open Ktsense.Lsp

structure EngineRequest where
  method : String
  params : Json

/-- A computation that asks the engine. -/
abbrev Session (R : Type) := Dialogue EngineRequest (Except LspError Json) R

/-- `LspClient::request`, as far as the fault of the client goes: once one is
recorded every request is refused with it; before that any answer may come, and a
fault may be recorded meanwhile. -/
def ClientAnswers (fault : Option FramingError) (_ : EngineRequest)
    (answer : Except LspError Json) (after : Option FramingError) : Prop :=
  match fault with
  | some recorded => answer = .error (.framing recorded) ∧ after = some recorded
  | none => ∀ recorded, answer = .error (.framing recorded) → after = some recorded

/-- How an `LspError` is printed; the text of a duration is given. -/
def errorText (durationText : ℕ → String) : LspError → String
  | .io text => "i/o error talking to the engine: " ++ text
  | .json text => "could not encode/decode LSP JSON: " ++ text
  | .timeout method timeout =>
      "request `" ++ method ++ "` timed out after " ++ durationText timeout
  | .response method code message =>
      "engine answered `" ++ method ++ "` with error " ++ toString code.toInt ++ ": " ++
        message
  | .childExited method =>
      "engine stream closed before `" ++ method ++ "` was answered"
  | .framing fault =>
      "engine produced a malformed frame and the client is faulted: " ++ fault.message

/-- `CommandError::engine`. -/
def engineError (durationText : ℕ → String) (error : LspError) : CommandError :=
  ⟨.failure, "ktsense: " ++ errorText durationText error⟩

/-- What a raw engine method ends with: a framing fault stops the daemon. -/
def outcomeFor (durationText : ℕ → String) : Except LspError Json → HandlerOutcome
  | .ok value => .reply value
  | .error (.framing fault) => .faulted (errorText durationText (.framing fault))
  | .error other => .error (errorText durationText other)

/-- `WarmEngine::handle`. -/
def engineHandle (durationText : ℕ → String) (request : EngineRequest) :
    Session HandlerOutcome :=
  .ask request fun answer => .done (outcomeFor durationText answer)

/-! ## A warm trace -/

inductive Resolution (Target : Type) where
  | ready (target : Target)
  | ambiguous (outcome : CommandOutcome)
  | notFound

inductive Traced (Report : Type) where
  | resolved (report : Report)
  | ambiguous (outcome : CommandOutcome)
  | notFound

/-- What a warm trace does besides asking. -/
structure TraceParts (Candidate Target Site Caller Report : Type) where
  awaitIndex : IndexWaitPolicy → IndexCompleteness
  declarations : TraceRequest → Json → Option (List Candidate)
  find : TraceRequest → Except CommandError (List Candidate)
  select : TraceRequest → List Candidate → Except CommandError (Resolution Target)
  positionParams : Target → Json
  referenceParams : Target → Json
  sites : Json → Except LspError (List Site)
  build : Target → IndexCompleteness → List Site → List Site → Report
  directCallers : Report → List Caller
  callerParams : Caller → Option Json
  callersAt : Caller → List Site → List Caller
  sorted : List Caller → List Caller
  deepen : Report → List Caller → List Caller × Report
  present : TraceRequest → Report → Except CommandError CommandOutcome
  textReferences : TraceRequest → Except CommandError CommandOutcome
  durationText : ℕ → String

section Trace

variable {Candidate Target Site Caller Report : Type}
variable (parts : TraceParts Candidate Target Site Caller Report)

/-- `declarations_from_index`: no failure of the lookup is told apart. -/
def declarationsFromIndex (request : TraceRequest) (index : IndexCompleteness) :
    Session (Option (List Candidate)) :=
  if index ≠ .complete then .done none
  else
    .ask ⟨"workspace/symbol", .obj [("query", .str (lastSegment request.symbol))]⟩
      fun
        | .ok value => .done (parts.declarations request value)
        | .error _ => .done none

def warmDeclarations (request : TraceRequest) (index : IndexCompleteness) :
    Session (Except CommandError (List Candidate)) :=
  (declarationsFromIndex parts request index).map fun
    | some candidates => .ok candidates
    | none => parts.find request

/-- A request of the engine and the sites it answers with. -/
def askSites (method : String) (params : Json) :
    Session (Except LspError (List Site)) :=
  .ask ⟨method, params⟩ fun
    | .ok value => .done (parts.sites value)
    | .error error => .done (.error error)

def callersOfEach : List Caller → Session (Except LspError (List Caller))
  | [] => .done (.ok [])
  | caller :: callers =>
      match parts.callerParams caller with
      | none => callersOfEach callers
      | some params =>
          (askSites parts "textDocument/references" params).andThen fun sites =>
            (callersOfEach callers).andThen fun found =>
              .done (.ok (parts.callersAt caller sites ++ found))

/-- The further levels of depth. -/
def deeperLevels : ℕ → List Caller → Report → Session (Except LspError Report)
  | 0, _, report => .done (.ok report)
  | _ + 1, [], report => .done (.ok report)
  | levels + 1, caller :: frontier, report =>
      (callersOfEach parts (caller :: frontier)).andThen fun next =>
        let (kept, deeper) := parts.deepen report (parts.sorted next)
        deeperLevels levels kept deeper

/-- `Session::run`. -/
def sessionRun (target : Target) (depth : ℕ) (index : IndexCompleteness) :
    Session (Except LspError Report) :=
  (askSites parts "textDocument/implementation" (parts.positionParams target)).andThen
    fun implementations =>
      (askSites parts "textDocument/references"
        (parts.referenceParams target)).andThen fun references =>
          let report := parts.build target index implementations references
          deeperLevels parts (depth - 1) (parts.directCallers report) report

def resolveWarm (request : TraceRequest) :
    Session (Except CommandError (Traced Report)) :=
  let index := parts.awaitIndex request.wait
  (warmDeclarations parts request index).andThen fun candidates =>
    match parts.select request candidates with
    | .error failure => .done (.error failure)
    | .ok (.ambiguous outcome) => .done (.ok (.ambiguous outcome))
    | .ok .notFound => .done (.ok .notFound)
    | .ok (.ready target) =>
        (sessionRun parts target request.depth index).map fun
          | .ok report => .ok (.resolved report)
          | .error error => .error (engineError parts.durationText error)

def traceWarm (request : TraceRequest) : Session (Except CommandError CommandOutcome) :=
  (resolveWarm parts request).andThen fun
    | .resolved report => .done (parts.present request report)
    | .ambiguous outcome => .done (.ok outcome)
    | .notFound => .done (parts.textReferences request)

/-- The depth-1 trace a context is built on. -/
def contextTraceRequest {Regex : Type} (request : ContextRequest Regex) : TraceRequest :=
  ⟨request.root, request.symbol, request.pick, 1, none, .capped, request.format,
    request.filter⟩

def contextWarm {Regex : Type}
    (finish : ContextRequest Regex → Traced Report → Except CommandError CommandOutcome)
    (request : ContextRequest Regex) : Session (Except CommandError CommandOutcome) :=
  (resolveWarm parts (contextTraceRequest request)).andThen fun traced =>
    .done (finish request traced)

end Trace

/-! ## The engine of a daemon -/

/-- The warm engine with the commands beside it; of `bodies` only those that need
no session are used. -/
structure CommandEngine (Regex : Type) where
  root : String
  bodies : Bodies Regex
  trace : TraceRequest → Session (Except CommandError CommandOutcome)
  context : ContextRequest Regex → Session (Except CommandError CommandOutcome)
  snapshot : UInt64 → Json
  decodeError : Json → String
  durationText : ℕ → String

namespace CommandEngine

variable {Regex : Type} (engine : CommandEngine Regex)

def runCommand (command : RoutedCommand) (format : Format) :
    Session (Except CommandError CommandOutcome) :=
  match command with
  | .trace symbol pick depth limit waitIndex path scope =>
      engine.trace ⟨engine.root, symbol, pick, depth.toNat, limit,
        if waitIndex then .untilReady else .capped, format, SiteFilter.new path scope⟩
  | .context symbol pick budget sections matchPattern around path scope =>
      match contextRequest engine.bodies engine.root symbol pick budget sections
        matchPattern around (SiteFilter.new path scope) format with
      | .ok request => engine.context request
      | .error failure => .done (.error failure)
  | other => .done (runBodies engine.bodies engine.root other format)

/-- What a command's result is answered with. -/
def commandOutcome : Except CommandError CommandOutcome → HandlerOutcome
  | .ok outcome => .reply (RoutedReply.of outcome).toJson
  | .error failure => .error failure.message

def answer (params : Json) : Session HandlerOutcome :=
  match paramsFromJson params with
  | none => .done (.error ("malformed command request: " ++ engine.decodeError params))
  | some (command, format) => (engine.runCommand command format).map commandOutcome

/-- `handle`, with the count of requests served. -/
def handle (served : UInt64) (request : EngineRequest) :
    UInt64 × Session HandlerOutcome :=
  if request.method = statusMethod then
    (served, .done (.reply (engine.snapshot served)))
  else if request.method = commandMethod then (served + 1, engine.answer request.params)
  else (served + 1, engineHandle engine.durationText request)

end CommandEngine

end Ktsense.Cli.Warm
