import Ktsense.Cli.Outcome
import Ktsense.Core.Context
import Ktsense.Core.Render
import Ktsense.Daemon.Wire

/-!
# Commands answered by a daemon

`routing.rs` sends a command to the daemon of its root and prints what comes
back, or runs it in process.  The whole path is modelled: the parameters and the
reply as JSON, the two frames on the socket, the handler on the daemon's side and
the way each side turns an outcome into the other's.  The bodies of the commands
and the text form of JSON are given.
-/

namespace Ktsense.Cli

open Ktsense.Foundation
open Ktsense.Core
open Ktsense.Daemon

inductive RoutedLevel where
  | package
  | file
  deriving DecidableEq, Repr

inductive RoutedCommand where
  | outline (file : String) (includePrivate kdoc annotations : Bool)
  | deps (level : RoutedLevel)
  | trace (symbol : String) (pick : Option String) (depth : UInt8)
      (limit : Option UInt64) (waitIndex : Bool) (path : List String)
      (scope : TestScope)
  | map (budget : UInt64) (compact : Bool) (focus : Option String) (fill : Bool)
      (path : List String)
  | context (symbol : String) (pick : Option String) (budget : UInt64)
      (sections : ContextSections) (matchPattern : Option String) (around : UInt64)
      (path : List String) (scope : TestScope)
  deriving DecidableEq, Repr

/-! ## The request on the wire -/

def RoutedLevel.toJson : RoutedLevel → Json
  | .package => .str "package"
  | .file => .str "file"

def RoutedLevel.fromJson : Json → Option RoutedLevel
  | .str "package" => some .package
  | .str "file" => some .file
  | _ => none

def TestScope.toJson : TestScope → Json
  | .all => .str "all"
  | .tests => .str "tests"
  | .production => .str "production"

def TestScope.fromJson : Json → Option TestScope
  | .str "all" => some .all
  | .str "tests" => some .tests
  | .str "production" => some .production
  | _ => none

/-- `WireFormat`. -/
def Format.toJson : Format → Json
  | .md => .str "md"
  | .json => .str "json"
  | .dot => .str "dot"

def Format.fromJson : Json → Option Format
  | .str "md" => some .md
  | .str "json" => some .json
  | .str "dot" => some .dot
  | _ => none

def sectionsToJson (sections : ContextSections) : Json :=
  .obj [("source", .bool sections.source), ("outline", .bool sections.outline),
    ("callers", .bool sections.callers),
    ("implementors", .bool sections.implementors)]

def sectionsFromJson (json : Json) : Option ContextSections := do
  return ⟨← (← json.member? "source").bool?, ← (← json.member? "outline").bool?,
    ← (← json.member? "callers").bool?, ← (← json.member? "implementors").bool?⟩

def wordToJson (word : UInt64) : Json := .ofNat word.toNat

def wordFromJson (json : Json) : Option UInt64 :=
  (json.unsigned? (2 ^ 64 - 1)).map UInt64.ofNat

def byteFromJson (json : Json) : Option UInt8 :=
  (json.unsigned? (2 ^ 8 - 1)).map UInt8.ofNat

def stringsToJson (texts : List String) : Json := .arr (texts.map .str)

/-- The members `path` and `tests` that are left out at their defaults. -/
def scopeMembers (path : List String) (scope : TestScope) : List (String × Json) :=
  (if path.isEmpty then [] else [("path", stringsToJson path)]) ++
    (if scope.isAll then [] else [("tests", TestScope.toJson scope)])

def pathFromJson (json : Json) : Option (List String) :=
  match json.member? "path" with
  | some value => value.list? Json.str?
  | none => some []

def testsFromJson (json : Json) : Option TestScope :=
  match json.member? "tests" with
  | some value => TestScope.fromJson value
  | none => some .all

/-- A member that may be null, or absent. -/
def optionalFromJson {T : Type} (read : Json → Option T) (json : Json)
    (name : String) : Option (Option T) :=
  match json.member? name with
  | some value => value.option? read
  | none => some none

/-- `RoutedParams` as its derived serialiser writes it: the command's tag and
members, then the format. -/
def paramsToJson (command : RoutedCommand) (format : Format) : Json :=
  .obj ((match command with
    | .outline file includePrivate kdoc annotations =>
        [("command", .str "outline"), ("file", .str file),
          ("private", .bool includePrivate), ("kdoc", .bool kdoc),
          ("annotations", .bool annotations)]
    | .deps level => [("command", .str "deps"), ("level", level.toJson)]
    | .trace symbol pick depth limit waitIndex path scope =>
        [("command", .str "trace"), ("symbol", .str symbol),
          ("pick", .ofOption .str pick), ("depth", .ofNat depth.toNat),
          ("limit", .ofOption wordToJson limit), ("wait_index", .bool waitIndex)] ++
          scopeMembers path scope
    | .map budget compact focus fill path =>
        [("command", .str "map"), ("budget", wordToJson budget),
          ("compact", .bool compact), ("focus", .ofOption .str focus),
          ("fill", .bool fill), ("path", stringsToJson path)]
    | .context symbol pick budget sections matchPattern around path scope =>
        [("command", .str "context"), ("symbol", .str symbol),
          ("pick", .ofOption .str pick), ("budget", wordToJson budget),
          ("sections", sectionsToJson sections),
          ("match_pattern", .ofOption .str matchPattern),
          ("around", wordToJson around)] ++ scopeMembers path scope) ++
    [("format", format.toJson)])

def commandFromJson (json : Json) : Option RoutedCommand := do
  let tag ← (← json.member? "command").str?
  match tag with
  | "outline" =>
      return .outline (← (← json.member? "file").str?)
        (← (← json.member? "private").bool?) (← (← json.member? "kdoc").bool?)
        (← (← json.member? "annotations").bool?)
  | "deps" => return .deps (← RoutedLevel.fromJson (← json.member? "level"))
  | "trace" =>
      return .trace (← (← json.member? "symbol").str?)
        (← optionalFromJson Json.str? json "pick")
        (← byteFromJson (← json.member? "depth"))
        (← optionalFromJson wordFromJson json "limit")
        (← (← json.member? "wait_index").bool?) (← pathFromJson json)
        (← testsFromJson json)
  | "map" =>
      return .map (← wordFromJson (← json.member? "budget"))
        (← (← json.member? "compact").bool?)
        (← optionalFromJson Json.str? json "focus")
        (← (← json.member? "fill").bool?)
        (← (← json.member? "path").list? Json.str?)
  | "context" =>
      return .context (← (← json.member? "symbol").str?)
        (← optionalFromJson Json.str? json "pick")
        (← wordFromJson (← json.member? "budget"))
        (← sectionsFromJson (← json.member? "sections"))
        (← optionalFromJson Json.str? json "match_pattern")
        (← wordFromJson (← json.member? "around")) (← pathFromJson json)
        (← testsFromJson json)
  | _ => none

def paramsFromJson (json : Json) : Option (RoutedCommand × Format) := do
  return (← commandFromJson json, ← Format.fromJson (← json.member? "format"))

/-! ## The reply on the wire -/

inductive WireExit where
  | success
  | ambiguous
  | failure
  deriving DecidableEq, Repr

structure RoutedReply where
  text : String
  exit : WireExit
  stderr : Option String
  deriving DecidableEq, Repr

def RoutedReply.of (outcome : CommandOutcome) : RoutedReply :=
  ⟨outcome.text,
    match outcome.exit with
    | .ambiguous => .ambiguous
    | .failure => .failure
    | _ => .success,
    outcome.stderr⟩

def RoutedReply.intoOutcome (reply : RoutedReply) : CommandOutcome :=
  ⟨reply.text,
    match reply.exit with
    | .success => .success
    | .ambiguous => .ambiguous
    | .failure => .failure,
    reply.stderr⟩

def WireExit.toJson : WireExit → Json
  | .success => .str "success"
  | .ambiguous => .str "ambiguous"
  | .failure => .str "failure"

def WireExit.fromJson : Json → Option WireExit
  | .str "success" => some .success
  | .str "ambiguous" => some .ambiguous
  | .str "failure" => some .failure
  | _ => none

def RoutedReply.toJson (reply : RoutedReply) : Json :=
  .obj ([("text", .str reply.text), ("exit", reply.exit.toJson)] ++
    (match reply.stderr with
    | some stderr => [("stderr", .str stderr)]
    | none => []))

def RoutedReply.fromJson (json : Json) : Option RoutedReply := do
  let text ← (← json.member? "text").str?
  let exit ← match json.member? "exit" with
    | some value => WireExit.fromJson value
    | none => some .success
  return ⟨text, exit, ← optionalFromJson Json.str? json "stderr"⟩

/-! ## Running a command -/

inductive IndexWaitPolicy where
  | capped
  | untilReady
  deriving DecidableEq, Repr

structure TraceRequest where
  root : String
  symbol : String
  pick : Option String
  depth : ℕ
  limit : Option UInt64
  wait : IndexWaitPolicy
  format : Format
  filter : Option SiteFilter

/-- The compiled `--match` pattern and its lines of context. -/
structure SourceMatch (Regex : Type) where
  matcher : Regex
  around : UInt64

structure ContextRequest (Regex : Type) where
  root : String
  symbol : String
  pick : Option String
  budget : UInt64
  sections : ContextSections
  sourceMatch : Option (SourceMatch Regex)
  format : Format
  filter : Option SiteFilter

/-- The bodies a command ends in: once those of the fresh path, once those that
work on the daemon's warm session. -/
structure Bodies (Regex : Type) where
  outline : String → String → Format → RenderOptions → Except CommandError String
  deps : String → RoutedLevel → Format → Except CommandError String
  trace : TraceRequest → Except CommandError CommandOutcome
  repositoryMap : String → UInt64 → Bool → Option String → Bool → List String →
    Format → Except CommandError String
  context : ContextRequest Regex → Except CommandError CommandOutcome
  resolveRoot : String → String → String
  compile : String → Except String Regex

section Running

variable {Regex : Type} (bodies : Bodies Regex)

def renderOptions (includePrivate kdoc annotations : Bool) : RenderOptions :=
  { RenderOptions.default with
    includePrivate := includePrivate
    includeDoc := kdoc
    includeAnnotations := annotations }

def SourceMatch.compile (pattern : String) (around : UInt64) :
    Except CommandError (SourceMatch Regex) :=
  match bodies.compile pattern with
  | .ok matcher => .ok ⟨matcher, around⟩
  | .error message => .error (.badMatchPattern message)

def contextRequest (root symbol : String) (pick : Option String) (budget : UInt64)
    (sections : ContextSections) (matchPattern : Option String) (around : UInt64)
    (filter : Option SiteFilter) (format : Format) :
    Except CommandError (ContextRequest Regex) := do
  let sourceMatch ← match matchPattern with
    | some pattern => (SourceMatch.compile bodies pattern around).map some
    | none => .ok none
  return ⟨root, symbol, pick, budget, sections, sourceMatch, format, filter⟩

/-- The match both sides make on the command. -/
def runBodies (root : String) (command : RoutedCommand) (format : Format) :
    Except CommandError CommandOutcome :=
  match command with
  | .outline file includePrivate kdoc annotations =>
      (bodies.outline root (bodies.resolveRoot root file) format
        (renderOptions includePrivate kdoc annotations)).map .success
  | .deps level => (bodies.deps root level format).map .success
  | .trace symbol pick depth limit waitIndex path scope =>
      bodies.trace ⟨root, symbol, pick, depth.toNat, limit,
        if waitIndex then .untilReady else .capped, format,
        SiteFilter.new path scope⟩
  | .map budget compact focus fill path =>
      (bodies.repositoryMap root budget compact focus fill path format).map .success
  | .context symbol pick budget sections matchPattern around path scope => do
      bodies.context (← contextRequest bodies root symbol pick budget sections
        matchPattern around (SiteFilter.new path scope) format)

end Running

def runInProcess {Regex : Type} (fresh : Bodies Regex) (root : String)
    (command : RoutedCommand) (format : Format) :
    Except CommandError CommandOutcome :=
  runBodies fresh root command format

def CommandEngine.runCommand {Regex : Type} (warm : Bodies Regex) (root : String)
    (command : RoutedCommand) (format : Format) :
    Except CommandError CommandOutcome :=
  runBodies warm root command format

/-! ## The daemon's side -/

inductive HandlerOutcome where
  | reply (value : Json)
  | error (message : String)
  | faulted (message : String)

def commandMethod : String := "ktsense/command"

def statusMethod : String := "ktsense/status"

/-- The warm engine of a daemon, and what it answers besides commands. -/
structure CommandEngine (Regex : Type) where
  root : String
  warm : Bodies Regex
  status : HandlerOutcome
  engine : String → Json → HandlerOutcome
  decodeError : Json → String

namespace CommandEngine

variable {Regex : Type} (engine : CommandEngine Regex)

def answer (params : Json) : HandlerOutcome :=
  match paramsFromJson params with
  | none => .error ("malformed command request: " ++ engine.decodeError params)
  | some (command, format) =>
      match runCommand engine.warm engine.root command format with
      | .ok outcome => .reply (RoutedReply.of outcome).toJson
      | .error failure => .error failure.message

def handle (method : String) (params : Json) : HandlerOutcome :=
  if method = statusMethod then engine.status
  else if method = commandMethod then engine.answer params
  else engine.engine method params

end CommandEngine

/-- The frame `serve_connection` answers a request with. -/
def HandlerOutcome.toFrame : HandlerOutcome → ServerFrame
  | .reply value => .result value
  | .error message => .error message
  | .faulted message => .error message

section Socket

variable (printJson : Json → List UInt8) (parseJson : List UInt8 → Option Json)

/-- What a daemon writes: a greeting, and an answer to the frame it reads. -/
structure Link where
  greeting : List UInt8
  respond : List UInt8 → List UInt8

/-- Bytes written, or nothing when the frame is refused. -/
def written : Except WireError (List UInt8) → List UInt8
  | .ok bytes => bytes
  | .error _ => []

/-- `serve_connection` up to its first answer. -/
def CommandEngine.serve {Regex : Type} (engine : CommandEngine Regex) : Link where
  greeting := written (writeFrame printJson
    (ServerFrame.hello Daemon.protocolVersion).toJson)
  respond := fun incoming =>
    match readFrame parseJson ClientFrame.fromJson incoming with
    | .ok (some (.request method params, _)) =>
        written (writeFrame printJson (engine.handle method params).toFrame.toJson)
    | _ => []

/-! ## The client's side -/

inductive DaemonAnswer where
  | answered (outcome : CommandOutcome)
  | commandFailed (message : String)
  | unreachable

/-- `Client::connect`: what the stream still holds after a hello of this build's
version. -/
def connect (greeting : List UInt8) : Option (List UInt8) :=
  match readFrame parseJson ServerFrame.fromJson greeting with
  | .ok (some (.hello version, rest)) =>
      if version = Daemon.protocolVersion then some rest else none
  | _ => none

def askDaemon (socket : Option Link) (command : RoutedCommand) (format : Format) :
    DaemonAnswer :=
  match socket with
  | none => .unreachable
  | some link =>
      match connect parseJson link.greeting with
      | none => .unreachable
      | some rest =>
          match writeFrame printJson (ClientFrame.request commandMethod
              (paramsToJson command format)).toJson with
          | .error _ => .unreachable
          | .ok request =>
              match readFrame parseJson ServerFrame.fromJson
                  (rest ++ link.respond request) with
              | .ok (some (.result value, _)) =>
                  match RoutedReply.fromJson value with
                  | some reply => .answered reply.intoOutcome
                  | none => .unreachable
              | .ok (some (.error message, _)) => .commandFailed message
              | _ => .unreachable

/-- The two environment flags `route` reads. -/
structure Flags where
  noDaemon : Bool
  requireDaemon : Bool

/-- `route`; the background start of `answer_then_warm` leaves the answer as it
is. -/
def route {Regex : Type} (fresh : Bodies Regex) (flags : Flags) (root : String)
    (socket : Option Link) (command : RoutedCommand) (format : Format) :
    Except CommandError CommandOutcome :=
  if flags.noDaemon then runInProcess fresh root command format
  else
    match askDaemon printJson parseJson socket command format with
    | .answered outcome => .ok outcome
    | .commandFailed message => .error (.routedFailure message)
    | .unreachable =>
        if flags.requireDaemon then .error (.noDaemon root)
        else runInProcess fresh root command format

end Socket

/-! ## Round trips -/

section RoundTrips

@[simp]
theorem wordFromJson_wordToJson (word : UInt64) :
    wordFromJson (wordToJson word) = some word := by
  have hword : word.toNat ≤ 2 ^ 64 - 1 := by
    have := word.toNat_lt
    omega
  rw [wordFromJson, wordToJson, Json.unsigned?_ofNat hword]
  simp

@[simp]
theorem byteFromJson_ofNat (byte : UInt8) :
    byteFromJson (.ofNat byte.toNat) = some byte := by
  have hbyte : byte.toNat ≤ 2 ^ 8 - 1 := by
    have := byte.toNat_lt
    omega
  rw [byteFromJson, Json.unsigned?_ofNat hbyte]
  simp

@[simp]
theorem option?_str (text : Option String) :
    Json.option? Json.str? (.ofOption .str text) = some text := by
  have hread : ∀ value, Json.str? (.str value) = some value := fun _ => rfl
  exact Json.option?_ofOption hread (fun _ => by simp) text

@[simp]
theorem option?_word (word : Option UInt64) :
    Json.option? wordFromJson (.ofOption wordToJson word) = some word :=
  Json.option?_ofOption wordFromJson_wordToJson
    (fun _ => by simp [wordToJson, Json.ofNat]) word

@[simp]
theorem list?_strings (texts : List String) :
    Json.list? Json.str? (stringsToJson texts) = some texts := by
  have hread : ∀ value, Json.str? (.str value) = some value := fun _ => rfl
  exact Json.list?_arr_map hread texts

@[simp]
theorem Format.fromJson_toJson (format : Format) :
    Format.fromJson format.toJson = some format := by
  cases format <;> rfl

@[simp]
theorem TestScope.fromJson_toJson (scope : TestScope) :
    TestScope.fromJson (TestScope.toJson scope) = some scope := by
  cases scope <;> rfl

@[simp]
theorem sectionsFromJson_sectionsToJson (sections : ContextSections) :
    sectionsFromJson (sectionsToJson sections) = some sections :=
  rfl

section Scope

variable (path : List String) (scope : TestScope) (format : Format)

theorem pathFromJson_scopeMembers :
    pathFromJson (.obj (scopeMembers path scope ++ [("format", format.toJson)])) =
      some path := by
  rw [pathFromJson, Json.member?, List.find?_append]
  cases path <;> cases scope <;> simp [scopeMembers, TestScope.isAll]

theorem testsFromJson_scopeMembers :
    testsFromJson (.obj (scopeMembers path scope ++ [("format", format.toJson)])) =
      some scope := by
  rw [testsFromJson, Json.member?, List.find?_append]
  cases path <;> cases scope <;> simp [scopeMembers, TestScope.isAll]

theorem member?_format_scopeMembers :
    Json.member? "format" (.obj (scopeMembers path scope ++ [("format", format.toJson)])) =
      some format.toJson := by
  rw [Json.member?, List.find?_append]
  cases path <;> cases scope <;> simp [scopeMembers, TestScope.isAll]

end Scope

/-- The format is read from the members behind those of the command. -/
theorem paramsFromJson_of {json rest : Json} {command : RoutedCommand} {format : Format}
    (hcommand : commandFromJson json = some command)
    (hrest : json.member? "format" = rest.member? "format")
    (hformat : rest.member? "format" = some format.toJson) :
    paramsFromJson json = some (command, format) := by
  rw [paramsFromJson, hcommand, hrest, hformat]
  simp

theorem paramsFromJson_paramsToJson (command : RoutedCommand) (format : Format) :
    paramsFromJson (paramsToJson command format) = some (command, format) := by
  cases command with
  | outline file includePrivate kdoc annotations => cases format <;> rfl
  | deps level => cases level <;> cases format <;> rfl
  | map budget compact focus fill path =>
      refine @paramsFromJson_of _ (.obj [("format", format.toJson)]) _ _ ?_ rfl rfl
      have hread : commandFromJson (paramsToJson (.map budget compact focus fill path) format) =
          do
            return .map (← wordFromJson (wordToJson budget)) compact
              (← Json.option? Json.str? (.ofOption .str focus)) fill
              (← Json.list? Json.str? (stringsToJson path)) := rfl
      rw [hread, wordFromJson_wordToJson, option?_str, list?_strings]
      rfl
  | trace symbol pick depth limit waitIndex path scope =>
      refine paramsFromJson_of ?_ rfl (member?_format_scopeMembers path scope format)
      have hread : commandFromJson
          (paramsToJson (.trace symbol pick depth limit waitIndex path scope) format) =
          do
            return .trace symbol (← Json.option? Json.str? (.ofOption .str pick))
              (← byteFromJson (.ofNat depth.toNat))
              (← Json.option? wordFromJson (.ofOption wordToJson limit)) waitIndex
              (← pathFromJson (.obj (scopeMembers path scope ++ [("format", format.toJson)])))
              (← testsFromJson (.obj (scopeMembers path scope ++ [("format", format.toJson)]))) :=
        rfl
      rw [hread, option?_str, byteFromJson_ofNat, option?_word, pathFromJson_scopeMembers,
        testsFromJson_scopeMembers]
      rfl
  | context symbol pick budget sections matchPattern around path scope =>
      refine paramsFromJson_of ?_ rfl (member?_format_scopeMembers path scope format)
      have hread : commandFromJson
          (paramsToJson (.context symbol pick budget sections matchPattern around path scope)
            format) =
          do
            return .context symbol (← Json.option? Json.str? (.ofOption .str pick))
              (← wordFromJson (wordToJson budget))
              (← sectionsFromJson (sectionsToJson sections))
              (← Json.option? Json.str? (.ofOption .str matchPattern))
              (← wordFromJson (wordToJson around))
              (← pathFromJson (.obj (scopeMembers path scope ++ [("format", format.toJson)])))
              (← testsFromJson (.obj (scopeMembers path scope ++ [("format", format.toJson)]))) :=
        rfl
      rw [hread, option?_str, wordFromJson_wordToJson, sectionsFromJson_sectionsToJson,
        option?_str, wordFromJson_wordToJson, pathFromJson_scopeMembers,
        testsFromJson_scopeMembers]
      rfl

theorem RoutedReply.fromJson_toJson (reply : RoutedReply) :
    RoutedReply.fromJson reply.toJson = some reply := by
  obtain ⟨text, exit, stderr⟩ := reply
  cases exit <;> cases stderr <;> rfl

/-- The three exits with a name on the wire come back as they were. -/
theorem RoutedReply.intoOutcome_of {outcome : CommandOutcome}
    (hexit : outcome.exit = .success ∨ outcome.exit = .ambiguous ∨
      outcome.exit = .failure) :
    (RoutedReply.of outcome).intoOutcome = outcome := by
  obtain ⟨text, exit, stderr⟩ := outcome
  rcases hexit with rfl | rfl | rfl <;> rfl

/-- What `ask_daemon` sends and what it is answered are read as they were
written. -/
theorem routed_requests_read_back :
    (∀ (command : RoutedCommand) (format : Format),
      paramsFromJson (paramsToJson command format) = some (command, format)) ∧
    ∀ outcome : CommandOutcome,
      outcome.exit = .success ∨ outcome.exit = .ambiguous ∨
          outcome.exit = .failure →
        (RoutedReply.fromJson (RoutedReply.of outcome).toJson).map
          RoutedReply.intoOutcome = some outcome := by
  refine ⟨paramsFromJson_paramsToJson, fun outcome hexit => ?_⟩
  calc (RoutedReply.fromJson (RoutedReply.of outcome).toJson).map
          RoutedReply.intoOutcome
      = (some (RoutedReply.of outcome)).map RoutedReply.intoOutcome := by
        rw [RoutedReply.fromJson_toJson]
    _ = some outcome := congrArg some (RoutedReply.intoOutcome_of hexit)

/-- A filtered `trace` that lists candidates, its request and its reply. -/
theorem filtered_trace_reads_back :
    paramsFromJson (paramsToJson (.trace "Repo" none 1 (some 20) false ["app"]
        .production) .json) =
      some (.trace "Repo" none 1 (some 20) false ["app"] .production, .json) ∧
    (RoutedReply.fromJson (RoutedReply.of ⟨"", .ambiguous, some "pick one"⟩).toJson).map
      RoutedReply.intoOutcome = some ⟨"", .ambiguous, some "pick one"⟩ :=
  ⟨routed_requests_read_back.1 _ _,
    routed_requests_read_back.2 ⟨"", .ambiguous, some "pick one"⟩ (Or.inr (Or.inl rfl))⟩

end RoundTrips

/-! ## A daemon answers as the process would -/

section Answered

variable {Regex : Type} {printJson : Json → List UInt8}
  {parseJson : List UInt8 → Option Json}

/-- A value that fits a frame and that the JSON text carries unchanged. -/
structure Carried (printJson : Json → List UInt8)
    (parseJson : List UInt8 → Option Json) (json : Json) : Prop where
  fits : (printJson json).length ≤ maxFrame
  parsed : parseJson (printJson json) = some json

/-- The frame a daemon answers a command's result with. -/
def answerFrame : Except CommandError CommandOutcome → ServerFrame
  | .ok outcome => .result (RoutedReply.of outcome).toJson
  | .error failure => .error failure.message

theorem handle_command (engine : CommandEngine Regex) (command : RoutedCommand)
    (format : Format) :
    (engine.handle commandMethod (paramsToJson command format)).toFrame =
      answerFrame (CommandEngine.runCommand engine.warm engine.root command
        format) := by
  have hmethod : ¬commandMethod = statusMethod := by decide
  rw [CommandEngine.handle, if_neg hmethod, if_pos rfl, CommandEngine.answer,
    paramsFromJson_paramsToJson]
  cases hresult : CommandEngine.runCommand engine.warm engine.root command format with
  | ok outcome => simp only [hresult, HandlerOutcome.toFrame, answerFrame]
  | error failure => simp only [hresult, HandlerOutcome.toFrame, answerFrame]

/-- What the client makes of the frame it reads. -/
def clientAnswer : Except CommandError CommandOutcome → DaemonAnswer
  | .ok outcome => .answered (RoutedReply.of outcome).intoOutcome
  | .error failure => .commandFailed failure.message

/-- The conversation with a live daemon whose frames all fit. -/
theorem askDaemon_live (engine : CommandEngine Regex) (command : RoutedCommand)
    (format : Format) {result : Except CommandError CommandOutcome}
    (hresult : CommandEngine.runCommand engine.warm engine.root command format =
      result)
    (hhello : Carried printJson parseJson
      (ServerFrame.hello Daemon.protocolVersion).toJson)
    (hrequest : Carried printJson parseJson
      (ClientFrame.request commandMethod (paramsToJson command format)).toJson)
    (hanswer : Carried printJson parseJson (answerFrame result).toJson) :
    askDaemon printJson parseJson (some (engine.serve printJson parseJson)) command
      format = clientAnswer result := by
  have hversion : ∀ version, ServerFrame.hello Daemon.protocolVersion =
      .hello version → version < 2 ^ 32 := by
    intro version hsame
    rw [← ServerFrame.hello.inj hsame]
    decide
  have hdecodeAnswer : ServerFrame.fromJson (answerFrame result).toJson =
      some (answerFrame result) := by
    apply ServerFrame.fromJson_toJson
    cases result <;> simp [answerFrame]
  obtain ⟨hello, hwriteHello, hreadHello⟩ := readFrame_writeFrame hhello.fits
    hhello.parsed (ServerFrame.fromJson_toJson hversion) []
  obtain ⟨request, hwriteRequest, hreadRequest⟩ := readFrame_writeFrame
    hrequest.fits hrequest.parsed (ClientFrame.fromJson_toJson _) []
  obtain ⟨answer, hwriteAnswer, hreadAnswer⟩ := readFrame_writeFrame hanswer.fits
    hanswer.parsed hdecodeAnswer []
  rw [List.append_nil] at hreadHello hreadRequest hreadAnswer
  have hgreeting : (engine.serve printJson parseJson).greeting = hello := by
    simp only [CommandEngine.serve, hwriteHello, written]
  have hconnect : connect parseJson hello = some [] := by
    simp only [connect, hreadHello, if_true]
  have hrespond : (engine.serve printJson parseJson).respond request = answer := by
    simp only [CommandEngine.serve, hreadRequest, handle_command, hresult,
      hwriteAnswer, written]
  simp only [askDaemon, hgreeting, hconnect, hwriteRequest, hrespond,
    List.nil_append, hreadAnswer]
  cases result with
  | ok outcome => simp only [answerFrame, RoutedReply.fromJson_toJson, clientAnswer]
  | error failure => simp only [answerFrame, clientAnswer]

/-- What `route` returns through a live daemon. -/
def routed : Except CommandError CommandOutcome → Except CommandError CommandOutcome
  | .ok outcome => .ok (RoutedReply.of outcome).intoOutcome
  | .error failure => .error (.routedFailure failure.message)

theorem route_live (fresh : Bodies Regex) (engine : CommandEngine Regex)
    {flags : Flags} (hflag : flags.noDaemon = false) (root : String)
    (command : RoutedCommand) (format : Format)
    {result : Except CommandError CommandOutcome}
    (hresult : CommandEngine.runCommand engine.warm engine.root command format =
      result)
    (hhello : Carried printJson parseJson
      (ServerFrame.hello Daemon.protocolVersion).toJson)
    (hrequest : Carried printJson parseJson
      (ClientFrame.request commandMethod (paramsToJson command format)).toJson)
    (hanswer : Carried printJson parseJson (answerFrame result).toJson) :
    route printJson parseJson fresh flags root
      (some (engine.serve printJson parseJson)) command format = routed result := by
  rw [route, hflag, askDaemon_live engine command format hresult hhello hrequest
    hanswer]
  cases result <;> rfl

/-- The exits that have a form on the wire: three for an outcome, and one for an
error, which travels as its message alone. -/
def HasWireForm : Except CommandError CommandOutcome → Prop
  | .ok outcome =>
      outcome.exit = .success ∨ outcome.exit = .ambiguous ∨ outcome.exit = .failure
  | .error failure => failure.exit = .failure

theorem report_routed_iff (result : Except CommandError CommandOutcome) :
    report (routed result) = report result ↔ HasWireForm result := by
  cases result with
  | ok outcome =>
      obtain ⟨text, exit, stderr⟩ := outcome
      cases exit <;>
        simp [routed, report, RoutedReply.of, RoutedReply.intoOutcome, HasWireForm,
          Exit.code]
  | error failure =>
      obtain ⟨exit, message⟩ := failure
      cases exit <;>
        simp [routed, report, CommandError.routedFailure, HasWireForm, Exit.code]

/-- Through a live daemon the user sees what the process itself would have
printed exactly when the command's result has a form on the wire. -/
theorem routed_as_in_process_iff (fresh : Bodies Regex)
    (engine : CommandEngine Regex) (flags : Flags) (root : String)
    (command : RoutedCommand) (format : Format)
    (hflag : flags.noDaemon = false)
    (hsame : CommandEngine.runCommand engine.warm engine.root command format =
      runInProcess fresh root command format)
    (hhello : Carried printJson parseJson
      (ServerFrame.hello Daemon.protocolVersion).toJson)
    (hrequest : Carried printJson parseJson
      (ClientFrame.request commandMethod (paramsToJson command format)).toJson)
    (hanswer : Carried printJson parseJson
      (answerFrame (runInProcess fresh root command format)).toJson) :
    report (route printJson parseJson fresh flags root
        (some (engine.serve printJson parseJson)) command format) =
      report (runInProcess fresh root command format) ↔
      HasWireForm (runInProcess fresh root command format) := by
  rw [route_live fresh engine hflag root command format hsame hhello hrequest
    hanswer]
  exact report_routed_iff _

end Answered

/-! ## A pattern that does not compile -/

/-- A `context` whose `--match` is an unclosed group. -/
def unclosedGroup : RoutedCommand :=
  .context "save" none 2000 ⟨true, true, true, true⟩ (some "(") 1 [] .all

/-- Bodies that reject every pattern and find nothing to print. -/
def rejectingBodies : Bodies Unit where
  outline := fun _ _ _ _ => .ok ""
  deps := fun _ _ _ => .ok ""
  trace := fun _ => .ok (.success "")
  repositoryMap := fun _ _ _ _ _ _ _ => .ok ""
  context := fun _ => .ok (.success "")
  resolveRoot := fun _ file => file
  compile := fun _ =>
    .error "regex parse error:\n    (\n    ^\nerror: unclosed group"

def rejectingEngine : CommandEngine Unit where
  root := "/shop"
  warm := rejectingBodies
  status := .error ""
  engine := fun _ _ => .error ""
  decodeError := fun _ => ""

def jsonBytes (json : Json) : List UInt8 :=
  utf8 (String.ofList json.compact)

/-- The size of a value's text, without writing its bytes out. -/
def textSize (json : Json) : ℕ := (json.compact.map Char.utf8Size).sum

theorem length_jsonBytes (json : Json) :
    (jsonBytes json).length = textSize json := by
  rw [jsonBytes, utf8, String.toList_ofList, List.length_flatMap, textSize]
  simp only [String.length_utf8EncodeChar]

/-- A reader that knows the texts of a few values. -/
def readerOf (known : List Json) (bytes : List UInt8) : Option Json :=
  known.find? fun json => jsonBytes json == bytes

def exchanged (command : RoutedCommand) (format : Format) : List Json :=
  [(ServerFrame.hello Daemon.protocolVersion).toJson,
    (ClientFrame.request commandMethod (paramsToJson command format)).toJson,
    (answerFrame (runInProcess rejectingBodies "/shop" command format)).toJson]

theorem carried_exchanged (command : RoutedCommand) (format : Format)
    (hsizes : ((exchanged command format).map textSize).all (· ≤ maxFrame) = true)
    (hdistinct : ((exchanged command format).map textSize).Nodup) :
    ∀ json ∈ exchanged command format,
      Carried jsonBytes (readerOf (exchanged command format)) json := by
  intro json hjson
  constructor
  · rw [List.all_map, List.all_eq_true] at hsizes
    rw [length_jsonBytes]
    simpa using hsizes json hjson
  · obtain ⟨found, hfound⟩ : ∃ found,
        readerOf (exchanged command format) (jsonBytes json) = some found := by
      apply Option.isSome_iff_exists.1
      rw [readerOf, List.find?_isSome]
      exact ⟨json, hjson, by simp⟩
    have hbytes : jsonBytes found = jsonBytes json := by
      simpa using List.find?_some hfound
    have hsize : textSize found = textSize json := by
      rw [← length_jsonBytes, hbytes, length_jsonBytes]
    rw [hfound, List.inj_on_of_nodup_map hdistinct
      (List.mem_of_find?_eq_some hfound) hjson hsize]

/-- In process an invalid `--match` is a usage error and ends 2; through the
daemon the same message ends 1. -/
theorem unclosed_group_exit_differs :
    let inProcess := report (runInProcess rejectingBodies "/shop" unclosedGroup .md)
    let throughDaemon := report (route jsonBytes
      (readerOf (exchanged unclosedGroup .md)) rejectingBodies ⟨false, false⟩ "/shop"
      (some (rejectingEngine.serve jsonBytes (readerOf (exchanged unclosedGroup .md))))
      unclosedGroup .md)
    inProcess.code = 2 ∧ throughDaemon.code = 1 ∧
      inProcess.stderr = throughDaemon.stderr := by
  have hcarried := carried_exchanged unclosedGroup .md
    (by decide +kernel) (by decide +kernel)
  simp only [exchanged, List.forall_mem_cons] at hcarried
  have hflag : (⟨false, false⟩ : Flags).noDaemon = false := rfl
  have hroute := route_live rejectingBodies rejectingEngine hflag "/shop"
    unclosedGroup .md rfl hcarried.1 hcarried.2.1 hcarried.2.2.1
  intro inProcess throughDaemon
  have hdaemon : throughDaemon = report (routed
      (runInProcess rejectingBodies "/shop" unclosedGroup .md)) :=
    congrArg report hroute
  rw [hdaemon]
  exact ⟨rfl, rfl, rfl⟩

/-- A `deps` that succeeds looks the same through the daemon. -/
theorem deps_routed_as_in_process :
    report (route jsonBytes (readerOf (exchanged (.deps .file) .md)) rejectingBodies
        ⟨false, false⟩ "/shop" (some (rejectingEngine.serve jsonBytes
          (readerOf (exchanged (.deps .file) .md)))) (.deps .file) .md) =
      report (runInProcess rejectingBodies "/shop" (.deps .file) .md) := by
  have hcarried := carried_exchanged (.deps .file) .md
    (by decide +kernel) (by decide +kernel)
  simp only [exchanged, List.forall_mem_cons] at hcarried
  exact (routed_as_in_process_iff rejectingBodies rejectingEngine ⟨false, false⟩
    "/shop" (.deps .file) .md rfl rfl hcarried.1 hcarried.2.1 hcarried.2.2.1).2
    (Or.inl rfl)

end Ktsense.Cli
