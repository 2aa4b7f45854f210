import Ktsense.Cli.ServeLoop
import Ktsense.Daemon.FrameStream
import Ktsense.Foundation.Transition

/-!
# One connection to the daemon

`Client` and `AnyClient` of `client.rs` at one end of a socket, `serve_connection` of
`server.rs` at the other.  Both write their frames a few bytes at a time, either reads a
frame once all of it has arrived, and each may be gone at any moment; the steps of the two
come in any order.  What the engine does with a request belongs to the engine.
-/

namespace Ktsense.Daemon.Session

open Ktsense.Foundation Ktsense.Cli.Warm Ktsense.Cli

/-- One direction of the socket: what waits to be read, and what is still to be written. -/
structure Pipe where
  waiting : List UInt8
  unsent : List UInt8

namespace Pipe

def bytes (pipe : Pipe) : List UInt8 := pipe.waiting ++ pipe.unsent

/-- Some of the bytes arrive. -/
def carry (pipe : Pipe) (count : ℕ) : Pipe :=
  ⟨pipe.waiting ++ pipe.unsent.take count, pipe.unsent.drop count⟩

/-- The writer is gone. -/
def cut (pipe : Pipe) : Pipe := ⟨pipe.waiting, []⟩

@[simp]
theorem bytes_carry (pipe : Pipe) (count : ℕ) : (pipe.carry count).bytes = pipe.bytes := by
  rw [bytes, carry, List.append_assoc, List.take_append_drop]
  rfl

@[simp]
theorem bytes_unsent (waiting unsent : List UInt8) :
    bytes ⟨waiting, unsent⟩ = waiting ++ unsent := rfl

theorem bytes_cut_prefix (pipe : Pipe) : pipe.cut.bytes <+: pipe.bytes := by
  rw [bytes, cut, List.append_nil]
  exact List.prefix_append _ _

end Pipe

inductive ClientError where
  | wire (fault : WireError)
  -- any other error of the socket
  | io
  | noHello
  | closedEarly
  | protocol (expected actual : ℕ)
  | unexpectedFrame
  | engine (message : String)

/-- Where the client is.  An `AnyClient` knows the version of the daemon and does not
compare it; all that it can do is to stop it. -/
inductive ClientPhase where
  | connecting
  | ready
  | known
  | awaiting (request : EngineRequest)
  | stopping
  | gone

inductive ServerPhase where
  | greeting
  | reading
  | faulting
  | ended (ending : ConnectionEnd)
  deriving DecidableEq

/-- The frame a request is answered with. -/
def answerFrame : HandlerOutcome → ServerFrame
  | .reply value => .result value
  | .error message => .error message
  | .faulted message => .error message

/-- What `request` makes of the frame it reads. -/
def ofFrame : ServerFrame → Except ClientError Json
  | .result value => .ok value
  | .error message => .error (.engine message)
  | .hello _ => .error .unexpectedFrame

def Faulted : HandlerOutcome → Prop
  | .faulted _ => True
  | _ => False

instance (outcome : HandlerOutcome) : Decidable (Faulted outcome) := by
  cases outcome <;> simp only [Faulted] <;> infer_instance

def requestFrame (request : EngineRequest) : ClientFrame :=
  .request request.method request.params

theorem fromJson_answerFrame (outcome : HandlerOutcome) :
    ServerFrame.fromJson (answerFrame outcome).toJson = some (answerFrame outcome) :=
  ServerFrame.fromJson_toJson (by cases outcome <;> nofun)

theorem requestFrame_injective : Function.Injective requestFrame := by
  rintro ⟨method, params⟩ ⟨_, _⟩ hsame
  cases hsame
  rfl

/-- Both ends, the socket between them, and what each has done. -/
structure World (E : Type*) where
  version : ℕ
  engine : E
  client : ClientPhase
  server : ServerPhase
  toServer : Pipe
  toClient : Pipe
  asked : List EngineRequest
  stopAsked : Bool
  handled : List (EngineRequest × HandlerOutcome)
  answers : List (EngineRequest × Except ClientError Json)

/-- A step of one end.  An engine method takes any outcome and leaves the engine anywhere;
which of them it may be `Allowed` says. -/
inductive Move (E : Type*) where
  | carryToServer (count : ℕ)
  | carryToClient (count : ℕ)
  | connect
  | connectAny
  | request (request : EngineRequest)
  | receive
  | stop
  | stopped
  | broken
  | leave
  | greet
  | serve (outcome : HandlerOutcome) (after : E)
  | unwritable
  | settle

section Steps

variable (printJson : Json → List UInt8) (parseJson : List UInt8 → Option Json)

/-- `read_frame` while the peer may still write: it waits where the bytes break off. -/
def reads {T : Type*} (decode : Json → Option T) (peerGone : Bool) (waiting : List UInt8) :
    Option (Except WireError (Option (T × List UInt8))) :=
  match readFrame parseJson decode waiting with
  | .ok none => if peerGone then some (.ok none) else none
  | .error .unexpectedEof => if peerGone then some (.error .unexpectedEof) else none
  | result => some result

namespace World

variable {E : Type*} (world : World E)

def clientGone : Bool :=
  match world.client with
  | .gone => true
  | _ => false

def serverGone : Bool :=
  match world.server with
  | .ended _ => true
  | _ => false

/-- The client drops its end. -/
def leave : World E := { world with client := .gone, toServer := world.toServer.cut }

/-- `serve_connection` returns. -/
def finish (ending : ConnectionEnd) : World E :=
  { world with server := .ended ending, toClient := world.toClient.cut }

/-- The request is over, with an answer. -/
def answered (request : EngineRequest) (answer : Except ClientError Json) : World E :=
  { world with answers := world.answers ++ [(request, answer)] }

def clientReads : Option (Except WireError (Option (ServerFrame × List UInt8))) :=
  reads parseJson ServerFrame.fromJson world.serverGone world.toClient.waiting

def serverReads : Option (Except WireError (Option (ClientFrame × List UInt8))) :=
  reads parseJson ClientFrame.fromJson world.clientGone world.toServer.waiting

/-- The hello is read; any version will do, or only that of this build. -/
def greeted (anyVersion : Bool) :
    Except WireError (Option (ServerFrame × List UInt8)) → World E
  | .ok (some (.hello version, rest)) =>
      if anyVersion then
        { world with client := .known, toClient := ⟨rest, world.toClient.unsent⟩ }
      else if version = protocolVersion then
        { world with client := .ready, toClient := ⟨rest, world.toClient.unsent⟩ }
      else world.leave
  | _ => world.leave

/-- What `request` read. -/
def received (request : EngineRequest) :
    Except WireError (Option (ServerFrame × List UInt8)) → World E
  | .ok (some (frame, rest)) =>
      { world.answered request (ofFrame frame) with
        client := .ready
        toClient := ⟨rest, world.toClient.unsent⟩ }
  | .ok none => (world.answered request (.error .closedEarly)).leave
  | .error fault => (world.answered request (.error (.wire fault))).leave

/-- The engine has handled a request; a frame that is too large is not written. -/
def served (request : EngineRequest) (outcome : HandlerOutcome) (after : E)
    (rest : List UInt8) : World E :=
  let handled : World E :=
    { world with
      engine := after
      toServer := ⟨rest, world.toServer.unsent⟩
      handled := world.handled ++ [(request, outcome)] }
  match writeFrame printJson (answerFrame outcome).toJson with
  | .ok bytes =>
      { handled with
        toClient := ⟨world.toClient.waiting, bytes⟩
        server := if Faulted outcome then .faulting else .reading }
  | .error _ => handled.finish (if Faulted outcome then .faulted else .closed)

/-- What a step does; `none` where its end is not at it. -/
def next : Move E → Option (World E)
  | .carryToServer count =>
      if world.toServer.unsent ≠ [] ∧ world.serverGone = false then
        some { world with toServer := world.toServer.carry (count + 1) }
      else none
  | .carryToClient count =>
      if world.toClient.unsent ≠ [] ∧ world.clientGone = false then
        some { world with toClient := world.toClient.carry (count + 1) }
      else none
  | .connect =>
      match world.client with
      | .connecting => (world.clientReads parseJson).map (world.greeted false)
      | _ => none
  | .connectAny =>
      match world.client with
      | .connecting => (world.clientReads parseJson).map (world.greeted true)
      | _ => none
  | .request request =>
      match world.client with
      | .ready =>
          match writeFrame printJson (requestFrame request).toJson with
          | .ok bytes =>
              some { world with
                client := .awaiting request
                toServer := ⟨world.toServer.waiting, bytes⟩
                asked := world.asked ++ [request] }
          | .error _ => some world
      | _ => none
  | .receive =>
      match world.client with
      | .awaiting request =>
          if world.toServer.unsent = [] then
            (world.clientReads parseJson).map (world.received request)
          else none
      | _ => none
  | .stop =>
      if world.client matches .ready | .known then
        match writeFrame printJson ClientFrame.stop.toJson with
        | .ok bytes =>
            some { world with
              client := .stopping
              toServer := ⟨world.toServer.waiting, bytes⟩
              stopAsked := true }
        | .error _ => some world.leave
      else none
  | .stopped =>
      match world.client with
      | .stopping => if world.toServer.unsent = [] then some world.leave else none
      | _ => none
  | .broken =>
      if world.serverGone then
        match world.client with
        | .awaiting request => some (world.answered request (.error .io)).leave
        | .gone => none
        | _ => some world.leave
      else none
  | .leave => some world.leave
  | .greet =>
      match world.server with
      | .greeting =>
          match writeFrame printJson (ServerFrame.hello world.version).toJson with
          | .ok bytes =>
              some { world with
                server := .reading
                toClient := ⟨world.toClient.waiting, bytes⟩ }
          | .error _ => some (world.finish .closed)
      | _ => none
  | .serve outcome after =>
      match world.server with
      | .reading =>
          if world.toClient.unsent = [] then
            (world.serverReads parseJson).map fun
              | .ok (some (.request method params, rest)) =>
                  world.served printJson ⟨method, params⟩ outcome after rest
              | .ok (some (.stop, _)) => world.finish .stop
              | .ok none => world.finish .closed
              | .error _ => world.finish .closed
          else none
      | _ => none
  | .unwritable =>
      if world.clientGone then
        match world.server with
        | .ended _ => none
        | .faulting => some (world.finish .faulted)
        | _ => some (world.finish .closed)
      else none
  | .settle =>
      match world.server with
      | .faulting => if world.toClient.unsent = [] then some (world.finish .faulted) else none
      | _ => none

end World

end Steps

section Runs

variable (version : ℕ) (printJson : Json → List UInt8) (parseJson : List UInt8 → Option Json)
variable {E : Type*} (asks : EngineRequest → Prop)
  (handles : E → EngineRequest → HandlerOutcome → E → Prop)

/-- `serde_json` reads back what it prints of the frames of this connection. -/
structure Speaks : Prop where
  small : version < 2 ^ 32
  hello : parseJson (printJson (ServerFrame.hello version).toJson) =
    some (ServerFrame.hello version).toJson
  request : ∀ request, asks request → parseJson (printJson (requestFrame request).toJson) =
    some (requestFrame request).toJson
  stop : parseJson (printJson ClientFrame.stop.toJson) = some ClientFrame.stop.toJson
  answer : ∀ engine request outcome after, handles engine request outcome after →
    parseJson (printJson (answerFrame outcome).toJson) = some (answerFrame outcome).toJson

namespace World

variable (world : World E)

/-- The client asks what it may, and the engine does with a request what it may. -/
def Allowed : Move E → Prop
  | .request request => asks request
  | .serve outcome after => ∀ request rest,
      world.serverReads parseJson = some (.ok (some (requestFrame request, rest))) →
        handles world.engine request outcome after
  | _ => True

def Step (world after : World E) : Prop :=
  ∃ move, world.Allowed parseJson asks handles move ∧
    world.next printJson parseJson move = some after

/-- The daemon has accepted a connection. -/
def Initial : Prop :=
  world.version = version ∧ world.client = .connecting ∧ world.server = .greeting ∧
    world.toServer = ⟨[], []⟩ ∧ world.toClient = ⟨[], []⟩ ∧ world.asked = [] ∧
    world.stopAsked = false ∧ world.handled = [] ∧ world.answers = []

end World

end Runs

/-! ## Frames that arrive -/

section Arrival

variable {printJson : Json → List UInt8} {parseJson : List UInt8 → Option Json}
  {T : Type*} {toJson : T → Json} {decode : Json → Option T} {frame : T}

theorem exchanged_of_written {bytes : List UInt8}
    (hparsed : parseJson (printJson (toJson frame)) = some (toJson frame))
    (hdecoded : decode (toJson frame) = some frame)
    (hwrite : writeFrame printJson (toJson frame) = .ok bytes) :
    Exchanged printJson parseJson toJson decode frame ∧
      bytes = frameBytes printJson (toJson frame) := by
  rw [writeFrame] at hwrite
  split at hwrite
  · cases hwrite
  · next hfits => exact ⟨⟨not_lt.mp hfits, hparsed, hdecoded⟩, (Except.ok.inj hwrite).symm⟩

theorem readFrame_of_readAll_error {stream : List UInt8} {fault : WireError}
    (hread : readAll parseJson decode stream = ([], .error fault)) :
    readFrame parseJson decode stream = .error fault := by
  rw [readAll] at hread
  split at hread
  · next other hother =>
      rw [hother]
      exact congrArg Except.error (Except.error.inj (Prod.mk.inj hread).2)
  · cases hread
  · cases hread

/-- Of the bytes of one frame, all are read as the frame, and a part of them is waited on
while more may come. -/
theorem reads_part (hframe : Exchanged printJson parseJson toJson decode frame)
    {waiting : List UInt8} (hpart : waiting <+: frameBytes printJson (toJson frame))
    (peerGone : Bool) :
    waiting = frameBytes printJson (toJson frame) ∧
        reads parseJson decode peerGone waiting = some (.ok (some (frame, []))) ∨
      waiting ≠ frameBytes printJson (toJson frame) ∧
        (reads parseJson decode peerGone waiting = none ∨ peerGone = true ∧
          (reads parseJson decode peerGone waiting = some (.ok none) ∨
            reads parseJson decode peerGone waiting = some (.error .unexpectedEof))) := by
  by_cases hwhole : waiting = frameBytes printJson (toJson frame)
  · have hread := readFrame_frameBytes hframe []
    rw [List.append_nil, ← hwhole] at hread
    exact .inl ⟨hwhole, by rw [reads, hread]⟩
  · refine .inr ⟨hwhole, ?_⟩
    have htaken := List.prefix_iff_eq_take.mp hpart
    have hless : waiting.length < (frameBytes printJson (toJson frame)).length :=
      lt_of_le_of_ne hpart.length_le fun hlength => hwhole (hpart.eq_of_length hlength)
    by_cases hshort : waiting.length < 4
    · have hnone : readFrame parseJson decode waiting = .ok none := by
        rw [readFrame, if_pos hshort]
      cases peerGone <;> simp [reads, hnone]
    · have htorn : readFrame parseJson decode waiting = .error .unexpectedEof := by
        rw [htaken]
        exact readFrame_of_readAll_error (readAll_torn hframe (not_lt.mp hshort) hless)
      cases peerGone <;> simp [reads, htorn]

/-- Where nothing has arrived, nothing is read but the end of the stream. -/
theorem reads_nil (peerGone : Bool) :
    reads parseJson decode peerGone [] = none ∨
      reads parseJson decode peerGone [] = some (.ok none) := by
  have hnone : readFrame parseJson decode [] = .ok none := rfl
  cases peerGone <;> simp [reads, hnone]

end Arrival

/-! ## The invariant -/

/-- What a client is told of a request that was handled. -/
def told (handled : EngineRequest × HandlerOutcome) : EngineRequest × Except ClientError Json :=
  (handled.1, ofFrame (answerFrame handled.2))

/-- The errors of a request that is not answered. -/
inductive BrokenOff : ClientError → Prop where
  | io : BrokenOff .io
  | closedEarly : BrokenOff .closedEarly
  | torn : BrokenOff (.wire .unexpectedEof)

namespace World

variable {E : Type*} (version : ℕ) (printJson : Json → List UInt8)
  (parseJson : List UInt8 → Option Json) (world : World E)

/-- The frame that the server has still to hear. -/
def Coming (frame : ClientFrame) : Prop :=
  (∃ request, frame = requestFrame request ∧
    world.asked = world.handled.map Prod.fst ++ [request]) ∨
  frame = .stop ∧ world.asked = world.handled.map Prod.fst ∧ world.stopAsked = true

/-- What is on the way to the server: nothing, or one frame, of which a client that is gone
may have written a part. -/
def Incoming : Prop :=
  world.toServer.bytes = [] ∧ world.asked = world.handled.map Prod.fst ∨
    ∃ frame, world.Coming frame ∧
      Exchanged printJson parseJson ClientFrame.toJson ClientFrame.fromJson frame ∧
      world.toServer.bytes <+: frameBytes printJson frame.toJson ∧
      (world.clientGone = false → world.toServer.bytes = frameBytes printJson frame.toJson)

/-- A frame is all that is on the way to the client. -/
def Sending (frame : ServerFrame) : Prop :=
  Exchanged printJson parseJson ServerFrame.toJson ServerFrame.fromJson frame ∧
    world.toClient.bytes = frameBytes printJson frame.toJson

/-- Every request so far has been handled and answered. -/
def Even : Prop :=
  world.toClient.bytes = [] ∧ world.asked = world.handled.map Prod.fst ∧
    world.answers = world.handled.map told

/-- The last request has not been handled yet. -/
def Unheard (request : EngineRequest) : Prop :=
  world.toClient.bytes = [] ∧ world.asked = world.handled.map Prod.fst ++ [request] ∧
    world.answers = world.handled.map told

/-- The last request has been handled, and its answer is on the way if it could be
written. -/
def Heard (request : EngineRequest) : Prop :=
  ∃ before outcome, world.handled = before ++ [(request, outcome)] ∧
    world.asked = world.handled.map Prod.fst ∧ world.answers = before.map told ∧
    (world.Sending printJson parseJson (answerFrame outcome) ∨
      world.toClient.bytes = [] ∧ world.serverGone = true)

/-- The answers are those to the requests in order, up to one that is not answered, and
one request at most is open. -/
def InOrder : Prop :=
  world.answers.map Prod.fst <+: world.asked ∧
    world.asked.length ≤ world.answers.length + 1 ∧
    ∃ heard broken, world.answers = heard ++ broken ∧ heard <+: world.handled.map told ∧
      (broken = [] ∨ ∃ request error, BrokenOff error ∧ broken = [(request, .error error)])

def ClientSide : Prop :=
  match world.client with
  | .connecting => world.asked = [] ∧ world.handled = [] ∧ world.answers = [] ∧
      (world.toClient.bytes = [] ∨ world.Sending printJson parseJson (.hello world.version))
  | .ready => world.Even ∧ world.version = protocolVersion
  | .known => world.Even
  | .awaiting request => world.version = protocolVersion ∧
      (world.Unheard request ∨ world.Heard printJson parseJson request)
  | .stopping => world.Even
  | .gone => world.InOrder

/-- Only the last request can have faulted, and the server stops for it. -/
def Faults : Prop :=
  if world.server = .faulting ∨ world.server = .ended .faulted then
    ∃ intact request outcome, world.handled = intact ++ [(request, outcome)] ∧
      Faulted outcome ∧ ∀ handled ∈ intact, ¬Faulted handled.2
  else ∀ handled ∈ world.handled, ¬Faulted handled.2

structure Inv : Prop where
  version : world.version = version
  incoming : world.serverGone = false → world.Incoming printJson parseJson
  order : world.handled.map Prod.fst <+: world.asked
  client : world.ClientSide printJson parseJson
  stop : world.stopAsked = true → world.client = .stopping ∨ world.client = .gone
  matched : world.asked ≠ [] → world.version = protocolVersion
  greeting : world.server = .greeting →
    (world.client = .connecting ∨ world.client = .gone) ∧ world.toClient.bytes = []
  faults : world.Faults
  stopped : world.server = .ended .stop → world.stopAsked = true

end World

namespace World

variable {E : Type*} {version : ℕ} {printJson : Json → List UInt8}
  {parseJson : List UInt8 → Option Json} {asks : EngineRequest → Prop}
  {handles : E → EngineRequest → HandlerOutcome → E → Prop}
  {world after : World E}

theorem inv_initial (hinitial : world.Initial version) : world.Inv version printJson parseJson := by
  obtain ⟨hversion, hclient, hserver, hto, hfrom, hasked, hstop, hhandled, hanswers⟩ := hinitial
  constructor
  · exact hversion
  · intro _
    exact .inl ⟨by rw [hto]; rfl, by rw [hasked, hhandled]; rfl⟩
  · rw [hhandled]
    exact List.nil_prefix
  · rw [ClientSide, hclient]
    exact ⟨hasked, hhandled, hanswers, .inl (by rw [hfrom]; rfl)⟩
  · rw [hstop]
    nofun
  · exact fun hne => absurd hasked hne
  · exact fun _ => ⟨.inl hclient, by rw [hfrom]; rfl⟩
  · rw [Faults, hserver, hhandled]
    simp
  · rw [hserver]
    nofun

theorem InOrder.of_told (hasked : world.handled.map Prod.fst <+: world.asked)
    (hanswers : world.answers <+: world.handled.map told)
    (hlength : world.asked.length ≤ world.answers.length + 1) : world.InOrder := by
  refine ⟨?_, hlength, world.answers, [], (List.append_nil _).symm, hanswers, .inl rfl⟩
  have hnames : (world.handled.map told).map Prod.fst = world.handled.map Prod.fst := by
    rw [List.map_map]
    rfl
  exact (hnames ▸ hanswers.map Prod.fst).trans hasked

theorem Even.inOrder (heven : world.Even)
    (horder : world.handled.map Prod.fst <+: world.asked) : world.InOrder := by
  refine .of_told horder (by rw [heven.2.2]) ?_
  rw [heven.2.1, heven.2.2]
  simp

theorem Inv.inOrder (hinv : world.Inv version printJson parseJson) : world.InOrder := by
  have hclient := hinv.client
  rw [ClientSide] at hclient
  split at hclient
  · refine .of_told hinv.order ?_ ?_
    · rw [hclient.2.2.1]
      exact List.nil_prefix
    · rw [hclient.1]
      exact Nat.zero_le _
  · exact hclient.1.inOrder hinv.order
  · exact hclient.inOrder hinv.order
  · rcases hclient.2 with ⟨_, hasked, hanswers⟩ | ⟨before, outcome, hhandled, hasked, hanswers, _⟩
    · refine .of_told hinv.order (by rw [hanswers]) ?_
      rw [hasked, hanswers]
      simp
    · refine .of_told hinv.order ?_ ?_
      · rw [hanswers, hhandled, List.map_append]
        exact List.prefix_append _ _
      · rw [hasked, hanswers, hhandled]
        simp
  · exact hclient.inOrder hinv.order
  · exact hclient

/-- A request that is not answered comes behind those that were. -/
theorem Inv.inOrder_broken (hinv : world.Inv version printJson parseJson) {request : EngineRequest}
    {error : ClientError} (hclient : world.client = .awaiting request)
    (hbroken : BrokenOff error) : (world.answered request (.error error)).InOrder := by
  have hside := hinv.client
  rw [ClientSide, hclient] at hside
  have hlast : ∃ heard, heard <+: world.handled ∧ world.answers = heard.map told ∧
      world.asked = heard.map Prod.fst ++ [request] := by
    rcases hside.2 with ⟨_, hasked, hanswers⟩ | ⟨before, outcome, hhandled, hasked, hanswers, _⟩
    · exact ⟨_, List.prefix_refl _, hanswers, hasked⟩
    · refine ⟨before, ?_, hanswers, ?_⟩
      · rw [hhandled]
        exact List.prefix_append _ _
      · rw [hasked, hhandled, List.map_append]
        rfl
  obtain ⟨heard, hprefix, hanswers, hasked⟩ := hlast
  refine ⟨?_, ?_, heard.map told, _, congrArg (· ++ _) hanswers, hprefix.map told,
    .inr ⟨request, error, hbroken, rfl⟩⟩
  rotate_left
  · rw [answered, hanswers, hasked]
    simp
  have hnames : (world.answered request (.error error)).answers.map Prod.fst = world.asked := by
    rw [answered, hanswers, hasked, List.map_append, List.map_map]
    rfl
  rw [hnames]
  exact List.prefix_refl _

/-- The client drops its end, with the answers it has. -/
theorem inv_gone (hinv : world.Inv version printJson parseJson)
    (answers : List (EngineRequest × Except ClientError Json))
    (hanswers : InOrder { world with answers }) :
    (leave { world with answers }).Inv version printJson parseJson := by
  constructor
  · exact hinv.version
  · intro hserver
    rcases hinv.incoming hserver with ⟨hnone, hasked⟩ | ⟨frame, hcoming, hframe, hpart, _⟩
    · have hcut := world.toServer.bytes_cut_prefix
      rw [hnone, List.prefix_nil] at hcut
      exact .inl ⟨hcut, hasked⟩
    · exact .inr ⟨frame, hcoming, hframe, world.toServer.bytes_cut_prefix.trans hpart, nofun⟩
  · exact hinv.order
  · exact hanswers
  · exact fun _ => .inr rfl
  · exact hinv.matched
  · exact fun hserver => ⟨.inr rfl, (hinv.greeting hserver).2⟩
  · exact hinv.faults
  · exact hinv.stopped

theorem inv_leave (hinv : world.Inv version printJson parseJson) :
    world.leave.Inv version printJson parseJson :=
  inv_gone hinv world.answers hinv.inOrder

theorem inv_broken (hinv : world.Inv version printJson parseJson) {request : EngineRequest}
    {error : ClientError} (hclient : world.client = .awaiting request)
    (hbroken : BrokenOff error) :
    (world.answered request (.error error)).leave.Inv version printJson parseJson :=
  inv_gone hinv _ (hinv.inOrder_broken hclient hbroken)

theorem ClientSide.of_same (hside : world.ClientSide printJson parseJson)
    (hclient : after.client = world.client) (hversion : after.version = world.version)
    (hbytes : after.toClient.bytes = world.toClient.bytes) (hasked : after.asked = world.asked)
    (hhandled : after.handled = world.handled) (hanswers : after.answers = world.answers)
    (hgone : world.serverGone = true → after.serverGone = true) :
    after.ClientSide printJson parseJson := by
  rw [ClientSide] at hside ⊢
  rw [hclient]
  cases hphase : world.client with
  | awaiting request =>
      simp only [hphase, Unheard, Heard, Sending, hbytes, hasked, hhandled, hanswers,
        hversion] at hside ⊢
      refine ⟨hside.1, hside.2.imp_right ?_⟩
      rintro ⟨before, outcome, hlast, hsame, htold, hsent⟩
      exact ⟨before, outcome, hlast, hsame, htold, hsent.imp_right (And.imp_right hgone)⟩
  | _ =>
      simpa only [hphase, Sending, Even, InOrder, hbytes, hasked, hhandled, hanswers,
        hversion] using hside

/-- Bytes that arrive are still the same bytes. -/
theorem inv_carry (hinv : world.Inv version printJson parseJson) (toServer toClient : Pipe)
    (hto : toServer.bytes = world.toServer.bytes)
    (hfrom : toClient.bytes = world.toClient.bytes) :
    Inv version printJson parseJson { world with toServer, toClient } := by
  constructor
  · exact hinv.version
  · intro hserver
    have hincoming := hinv.incoming hserver
    rw [Incoming] at hincoming ⊢
    rw [hto]
    exact hincoming
  · exact hinv.order
  · exact hinv.client.of_same rfl rfl hfrom rfl rfl rfl id
  · exact hinv.stop
  · exact hinv.matched
  · intro hserver
    rw [hfrom]
    exact hinv.greeting hserver
  · exact hinv.faults
  · exact hinv.stopped

/-- `serve_connection` returns with nothing left to write, or with nobody to write to. -/
theorem inv_finish (hinv : world.Inv version printJson parseJson) {ending : ConnectionEnd}
    (hidle : world.toClient.unsent = [] ∨ world.client = .gone)
    (hfaults : (world.finish ending).Faults)
    (hstopped : ending = .stop → world.stopAsked = true) :
    (world.finish ending).Inv version printJson parseJson := by
  constructor
  · exact hinv.version
  · nofun
  · exact hinv.order
  · rcases hidle with hunsent | hgone
    · refine hinv.client.of_same rfl rfl ?_ rfl rfl rfl fun _ => rfl
      rw [Pipe.bytes, Pipe.bytes, hunsent]
      rfl
    · have hafter : (world.finish ending).client = .gone := hgone
      rw [ClientSide, hafter]
      exact hinv.inOrder
  · exact hinv.stop
  · exact hinv.matched
  · nofun
  · exact hfaults
  · rintro ⟨⟩
    exact hstopped rfl

/-- The daemon writes its hello. -/
theorem inv_greet (hinv : world.Inv version printJson parseJson)
    (hspeaks : Speaks version printJson parseJson asks handles) (hserver : world.server = .greeting)
    (hnext : world.next printJson parseJson .greet = some after) :
    after.Inv version printJson parseJson := by
  obtain ⟨hclient, hbytes⟩ := hinv.greeting hserver
  obtain ⟨hwaiting, hunsent⟩ := List.append_eq_nil_iff.mp hbytes
  have hintact : ∀ handled ∈ world.handled, ¬Faulted handled.2 := by
    simpa [Faults, hserver] using hinv.faults
  simp only [next, hserver] at hnext
  split at hnext
  · next bytes hwrite =>
      rw [hinv.version] at hwrite
      obtain ⟨hframe, hsent⟩ := exchanged_of_written hspeaks.hello
        (ServerFrame.fromJson_toJson fun _ heq => by cases heq; exact hspeaks.small) hwrite
      rw [← hinv.version] at hframe hsent
      cases hnext
      constructor
      · exact hinv.version
      · exact fun _ => hinv.incoming (by rw [serverGone, hserver])
      · exact hinv.order
      · rw [ClientSide]
        rcases hclient with hclient | hclient
        · have hside := hinv.client
          rw [ClientSide, hclient] at hside
          simp only [hclient]
          refine ⟨hside.1, hside.2.1, hside.2.2.1, .inr ⟨hframe, ?_⟩⟩
          rw [Pipe.bytes_unsent, hwaiting, List.nil_append, hsent]
        · simp only [hclient]
          exact hinv.inOrder
      · exact hinv.stop
      · exact hinv.matched
      · nofun
      · simpa [Faults] using hintact
      · nofun
  · cases hnext
    refine inv_finish hinv (.inl hunsent) ?_ nofun
    simpa [Faults, finish] using hintact

/-- The client has taken a frame off the socket. -/
theorem inv_taken (hinv : world.Inv version printJson parseJson) {client : ClientPhase}
    {toClient : Pipe} {answers : List (EngineRequest × Except ClientError Json)}
    (hserver : world.server ≠ .greeting) (hpresent : world.clientGone = false)
    (hstop : world.stopAsked = false)
    (hside : ClientSide printJson parseJson { world with client, toClient, answers }) :
    Inv version printJson parseJson { world with client, toClient, answers } := by
  constructor
  · exact hinv.version
  · intro hopen
    rcases hinv.incoming hopen with hnone | ⟨frame, hcoming, hframe, _, hwhole⟩
    · exact .inl hnone
    · have hbytes := hwhole hpresent
      exact .inr ⟨frame, hcoming, hframe, by rw [hbytes], fun _ => hbytes⟩
  · exact hinv.order
  · exact hside
  · intro hasked
    rw [hstop] at hasked
    cases hasked
  · exact hinv.matched
  · exact fun hgreeting => absurd hgreeting hserver
  · exact hinv.faults
  · exact hinv.stopped

theorem Inv.stopAsked_eq_false (hinv : world.Inv version printJson parseJson)
    (hstopping : world.client ≠ .stopping) (hgone : world.client ≠ .gone) :
    world.stopAsked = false := by
  cases hasked : world.stopAsked with
  | false => rfl
  | true => exact absurd (hinv.stop hasked) (not_or.mpr ⟨hstopping, hgone⟩)

theorem Inv.not_greeting (hinv : world.Inv version printJson parseJson)
    (hbytes : world.toClient.bytes ≠ []) : world.server ≠ .greeting :=
  fun hserver => hbytes (hinv.greeting hserver).2

theorem frameBytes_ne_nil (json : Json) : frameBytes printJson json ≠ [] := nofun

/-- The client reads the hello. -/
theorem inv_greeted (hinv : world.Inv version printJson parseJson)
    (hclient : world.client = .connecting) {anyVersion : Bool}
    (hnext : (world.clientReads parseJson).map (world.greeted anyVersion) = some after) :
    after.Inv version printJson parseJson := by
  have hside := hinv.client
  rw [ClientSide, hclient] at hside
  obtain ⟨hasked, hhandled, hanswers, hbytes⟩ := hside
  obtain ⟨result, hread, rfl⟩ := Option.map_eq_some_iff.mp hnext
  rw [clientReads] at hread
  rcases hbytes with hnone | ⟨hframe, hbytes⟩
  · obtain ⟨hwaiting, _⟩ := List.append_eq_nil_iff.mp hnone
    rw [hwaiting] at hread
    rcases reads_nil world.serverGone with hreads | hreads
    · rw [hreads] at hread
      cases hread
    · rw [hreads] at hread
      cases hread
      exact inv_leave hinv
  · have hpart : world.toClient.waiting <+:
        frameBytes printJson (ServerFrame.hello world.version).toJson := by
      rw [← hbytes]
      exact List.prefix_append _ _
    rcases reads_part hframe hpart world.serverGone with
      ⟨hwhole, hreads⟩ | ⟨_, hreads | ⟨_, hreads | hreads⟩⟩
    · rw [hreads] at hread
      cases hread
      have hunsent : world.toClient.unsent = [] := by
        rw [Pipe.bytes, hwhole] at hbytes
        exact List.append_right_eq_self.mp hbytes
      have hserver := hinv.not_greeting (by rw [hbytes]; exact frameBytes_ne_nil _)
      have hpresent : world.clientGone = false := by rw [clientGone, hclient]
      have hstop := hinv.stopAsked_eq_false (by rw [hclient]; nofun) (by rw [hclient]; nofun)
      have heven : Even { world with toClient := ⟨[], world.toClient.unsent⟩ } := by
        refine ⟨hunsent, ?_, ?_⟩
        · rw [hasked, hhandled]
          rfl
        · rw [hanswers, hhandled]
          rfl
      rw [greeted]
      split
      · exact inv_taken hinv hserver hpresent hstop heven
      · split
        · next hmatch => exact inv_taken hinv hserver hpresent hstop ⟨heven, hmatch⟩
        · exact inv_leave hinv
    · rw [hreads] at hread
      cases hread
    all_goals
      rw [hreads] at hread
      cases hread
      exact inv_leave hinv

/-- The client reads what its request is answered with. -/
theorem inv_received (hinv : world.Inv version printJson parseJson) {request : EngineRequest}
    (hclient : world.client = .awaiting request)
    (hnext : (world.clientReads parseJson).map (world.received request) = some after) :
    after.Inv version printJson parseJson := by
  have hside := hinv.client
  rw [ClientSide, hclient] at hside
  obtain ⟨result, hread, rfl⟩ := Option.map_eq_some_iff.mp hnext
  rw [clientReads] at hread
  obtain ⟨hversion, hside⟩ := hside
  have hnothing : world.toClient.bytes = [] →
      (world.received request result).Inv version printJson parseJson := by
    intro hnone
    obtain ⟨hwaiting, _⟩ := List.append_eq_nil_iff.mp hnone
    rw [hwaiting] at hread
    rcases reads_nil world.serverGone with hreads | hreads
    · rw [hreads] at hread
      cases hread
    · rw [hreads] at hread
      cases hread
      exact inv_broken hinv hclient .closedEarly
  rcases hside with ⟨hnone, _⟩ | ⟨before, outcome, hhandled, hasked, hanswers, hsent⟩
  · exact hnothing hnone
  rcases hsent with ⟨hframe, hbytes⟩ | ⟨hnone, _⟩
  · have hpart : world.toClient.waiting <+:
        frameBytes printJson (answerFrame outcome).toJson := by
      rw [← hbytes]
      exact List.prefix_append _ _
    rcases reads_part hframe hpart world.serverGone with
      ⟨hwhole, hreads⟩ | ⟨_, hreads | ⟨_, hreads | hreads⟩⟩
    · rw [hreads] at hread
      cases hread
      have hunsent : world.toClient.unsent = [] := by
        rw [Pipe.bytes, hwhole] at hbytes
        exact List.append_right_eq_self.mp hbytes
      have hserver := hinv.not_greeting (by rw [hbytes]; exact frameBytes_ne_nil _)
      have hpresent : world.clientGone = false := by rw [clientGone, hclient]
      have hstop := hinv.stopAsked_eq_false (by rw [hclient]; nofun) (by rw [hclient]; nofun)
      refine inv_taken hinv hserver hpresent hstop ⟨⟨hunsent, hasked, ?_⟩, hversion⟩
      change world.answers ++ _ = world.handled.map told
      rw [hanswers, hhandled, List.map_append]
      rfl
    · rw [hreads] at hread
      cases hread
    · rw [hreads] at hread
      cases hread
      exact inv_broken hinv hclient .closedEarly
    · rw [hreads] at hread
      cases hread
      exact inv_broken hinv hclient .torn
  · exact hnothing hnone

/-- While every request is answered, nothing is on the way to the server. -/
theorem Inv.nothing_coming (hinv : world.Inv version printJson parseJson) (heven : world.Even)
    (hstop : world.stopAsked = false) (hopen : world.serverGone = false) :
    world.toServer.bytes = [] := by
  rcases hinv.incoming hopen with ⟨hnone, _⟩ | ⟨frame, hcoming, _⟩
  · exact hnone
  · rcases hcoming with ⟨request, _, hasked⟩ | ⟨_, _, hasked⟩
    · have hlength := congrArg List.length (heven.2.1.symm.trans hasked)
      simp at hlength
    · rw [hstop] at hasked
      cases hasked

theorem inv_request (hinv : world.Inv version printJson parseJson)
    (hspeaks : Speaks version printJson parseJson asks handles) {request : EngineRequest}
    (hasks : asks request)
    (hnext : world.next printJson parseJson (.request request) = some after) :
    after.Inv version printJson parseJson := by
  cases hclient : world.client <;> simp only [next, hclient] at hnext <;> try cases hnext
  have hside := hinv.client
  rw [ClientSide, hclient] at hside
  obtain ⟨heven, hversion⟩ := hside
  have hstop := hinv.stopAsked_eq_false (by rw [hclient]; nofun) (by rw [hclient]; nofun)
  split at hnext
  · next bytes hwrite =>
      obtain ⟨hframe, hsent⟩ := exchanged_of_written (hspeaks.request request hasks)
        (ClientFrame.fromJson_toJson _) hwrite
      cases hnext
      have hasked : world.asked ++ [request] = world.handled.map Prod.fst ++ [request] := by
        rw [heven.2.1]
      constructor
      · exact hinv.version
      · intro hopen
        obtain ⟨hwaiting, _⟩ :=
          List.append_eq_nil_iff.mp (hinv.nothing_coming heven hstop hopen)
        have hbytes : Pipe.bytes ⟨world.toServer.waiting, bytes⟩ =
            frameBytes printJson (requestFrame request).toJson := by
          rw [Pipe.bytes_unsent, hwaiting, List.nil_append, hsent]
        exact .inr ⟨requestFrame request, .inl ⟨request, rfl, hasked⟩, hframe,
          by rw [hbytes], fun _ => hbytes⟩
      · exact hinv.order.trans (List.prefix_append _ _)
      · exact ⟨hversion, .inl ⟨heven.1, hasked, heven.2.2⟩⟩
      · exact fun hasked => absurd (hstop.symm.trans hasked) Bool.false_ne_true
      · exact fun _ => hversion
      · intro hgreeting
        have hphase := (hinv.greeting hgreeting).1
        rw [hclient] at hphase
        rcases hphase with hphase | hphase <;> cases hphase
      · exact hinv.faults
      · exact hinv.stopped
  · cases hnext
    exact hinv

theorem inv_stop (hinv : world.Inv version printJson parseJson)
    (hspeaks : Speaks version printJson parseJson asks handles)
    (hnext : world.next printJson parseJson .stop = some after) :
    after.Inv version printJson parseJson := by
  have hcases : (world.client = .ready ∨ world.client = .known) ∧ world.Even := by
    have hside := hinv.client
    rw [ClientSide] at hside
    cases hclient : world.client <;> simp only [next, hclient] at hnext hside <;>
      simp at hnext
    · exact ⟨.inl rfl, hside.1⟩
    · exact ⟨.inr rfl, hside⟩
  obtain ⟨hclient, heven⟩ := hcases
  have hnot : ∀ phase, phase ≠ .ready → phase ≠ .known → world.client ≠ phase := by
    rintro phase hready hknown rfl
    exact hclient.elim hready hknown
  have hstop := hinv.stopAsked_eq_false (hnot _ nofun nofun) (hnot _ nofun nofun)
  rw [next, if_pos (by rcases hclient with hclient | hclient <;> rw [hclient])] at hnext
  split at hnext
  · next bytes hwrite =>
      obtain ⟨hframe, hsent⟩ := exchanged_of_written hspeaks.stop
        (ClientFrame.fromJson_toJson _) hwrite
      cases hnext
      constructor
      · exact hinv.version
      · intro hopen
        obtain ⟨hwaiting, _⟩ :=
          List.append_eq_nil_iff.mp (hinv.nothing_coming heven hstop hopen)
        have hbytes : Pipe.bytes ⟨world.toServer.waiting, bytes⟩ =
            frameBytes printJson ClientFrame.stop.toJson := by
          rw [Pipe.bytes_unsent, hwaiting, List.nil_append, hsent]
        exact .inr ⟨.stop, .inr ⟨rfl, heven.2.1, rfl⟩, hframe, by rw [hbytes], fun _ => hbytes⟩
      · exact hinv.order
      · exact heven
      · exact fun _ => .inl rfl
      · exact hinv.matched
      · intro hgreeting
        rcases (hinv.greeting hgreeting).1 with hphase | hphase
        · exact absurd hphase (hnot _ nofun nofun)
        · exact absurd hphase (hnot _ nofun nofun)
      · exact hinv.faults
      · exact fun _ => rfl
  · cases hnext
    exact inv_leave hinv

/-- Whoever asked last is told next. -/
theorem Inv.clientSide_served (hinv : world.Inv version printJson parseJson)
    {request : EngineRequest} {outcome : HandlerOutcome}
    (hasked : world.asked = world.handled.map Prod.fst ++ [request])
    (hclient : after.client = world.client) (hversion : after.version = world.version)
    (hsame : after.asked = world.asked)
    (hhandled : after.handled = world.handled ++ [(request, outcome)])
    (hanswers : after.answers = world.answers)
    (hsent : world.toClient.bytes = [] →
      after.Sending printJson parseJson (answerFrame outcome) ∨
        after.toClient.bytes = [] ∧ after.serverGone = true) :
    after.ClientSide printJson parseJson := by
  have hside := hinv.client
  have hlonger : world.asked ≠ world.handled.map Prod.fst := by
    intro heq
    have hlength := congrArg List.length (heq.symm.trans hasked)
    simp at hlength
  rw [ClientSide] at hside ⊢
  rw [hclient]
  cases hphase : world.client with
  | connecting =>
      rw [hphase] at hside
      exact absurd hside.1 (by rw [hasked]; simp)
  | ready =>
      rw [hphase] at hside
      exact absurd hside.1.2.1 hlonger
  | known =>
      rw [hphase] at hside
      exact absurd hside.2.1 hlonger
  | stopping =>
      rw [hphase] at hside
      exact absurd hside.2.1 hlonger
  | awaiting awaited =>
      rw [hphase] at hside
      refine ⟨hversion.trans hside.1, ?_⟩
      rcases hside.2 with ⟨hnone, hunheard, htold⟩ | ⟨_, _, _, hheard, _⟩
      · have hone : [awaited] = [request] := List.append_cancel_left (hunheard.symm.trans hasked)
        cases hone
        refine .inr ⟨world.handled, outcome, hhandled, ?_, hanswers.trans htold, hsent hnone⟩
        rw [hsame, hhandled, hasked, List.map_append]
        rfl
      · exact absurd hheard hlonger
  | gone =>
      rw [hphase] at hside
      obtain ⟨hnames, hopen, heard, broken, hsplit, hheard, hbroken⟩ := hside
      refine ⟨by rwa [hanswers, hsame], by rwa [hanswers, hsame], heard, broken,
        hanswers.trans hsplit, ?_, hbroken⟩
      rw [hhandled, List.map_append]
      exact hheard.trans (List.prefix_append _ _)

/-- The server stops for the outcome exactly when it is a fault. -/
theorem Inv.faults_served (hinv : world.Inv version printJson parseJson)
    (hserver : world.server = .reading) {request : EngineRequest} {outcome : HandlerOutcome}
    (hhandled : after.handled = world.handled ++ [(request, outcome)])
    (hfaulted : after.server = .faulting ∨ after.server = .ended .faulted ↔ Faulted outcome) :
    after.Faults := by
  have hintact : ∀ handled ∈ world.handled, ¬Faulted handled.2 := by
    simpa [Faults, hserver] using hinv.faults
  rw [Faults]
  split
  · next hstops => exact ⟨_, request, outcome, hhandled, hfaulted.mp hstops, hintact⟩
  · next hgoes =>
      intro handled hmem
      rw [hhandled] at hmem
      rcases List.mem_append.mp hmem with hmem | hmem
      · exact hintact handled hmem
      · rw [List.mem_singleton.mp hmem]
        exact fun houtcome => hgoes (hfaulted.mpr houtcome)

/-- The engine has handled the request that the client has asked last. -/
theorem inv_served (hinv : world.Inv version printJson parseJson)
    (hspeaks : Speaks version printJson parseJson asks handles) (hserver : world.server = .reading)
    (hunsent : world.toServer.unsent = []) {request : EngineRequest} {outcome : HandlerOutcome}
    {engine : E} (hasked : world.asked = world.handled.map Prod.fst ++ [request])
    (hhandles : handles world.engine request outcome engine) :
    (world.served printJson request outcome engine []).Inv version printJson parseJson := by
  have hnames : world.asked = (world.handled ++ [(request, outcome)]).map Prod.fst := by
    rw [hasked, List.map_append]
    rfl
  have horder : (world.handled ++ [(request, outcome)]).map Prod.fst <+: world.asked := by
    rw [hnames]
  rw [served]
  split
  · next bytes hwrite =>
      obtain ⟨hframe, hsent⟩ := exchanged_of_written
        (hspeaks.answer _ _ _ _ hhandles)
        (fromJson_answerFrame outcome) hwrite
      constructor
      · exact hinv.version
      · exact fun _ => .inl ⟨hunsent, hnames⟩
      · exact horder
      · refine hinv.clientSide_served hasked rfl rfl rfl rfl rfl
          fun hnone => .inl ⟨hframe, ?_⟩
        rw [Pipe.bytes_unsent, (List.append_eq_nil_iff.mp hnone).1, List.nil_append, hsent]
      · exact hinv.stop
      · exact hinv.matched
      · split <;> nofun
      · refine hinv.faults_served hserver rfl ?_
        by_cases houtcome : Faulted outcome <;> simp [houtcome]
      · split <;> nofun
  · constructor
    · exact hinv.version
    · nofun
    · exact horder
    · refine hinv.clientSide_served hasked rfl rfl rfl rfl rfl
        fun hnone => .inr ⟨?_, rfl⟩
      have hcut := Pipe.bytes_cut_prefix world.toClient
      rw [hnone] at hcut
      exact List.prefix_nil.mp hcut
    · exact hinv.stop
    · exact hinv.matched
    · nofun
    · refine hinv.faults_served hserver rfl ?_
      by_cases houtcome : Faulted outcome <;> simp [houtcome, finish]
    · intro hended
      simp only [finish] at hended
      split at hended <;> cases hended

/-- The server reads what there is to read. -/
theorem inv_serve (hinv : world.Inv version printJson parseJson)
    (hspeaks : Speaks version printJson parseJson asks handles)
    {outcome : HandlerOutcome} {engine : E}
    (hallowed : world.Allowed parseJson asks handles (.serve outcome engine))
    (hnext : world.next printJson parseJson (.serve outcome engine) = some after) :
    after.Inv version printJson parseJson := by
  cases hserver : world.server <;> simp only [next, hserver] at hnext <;> try cases hnext
  split at hnext
  case isFalse => cases hnext
  next hidle =>
  have hintact : ∀ handled ∈ world.handled, ¬Faulted handled.2 := by
    simpa [Faults, hserver] using hinv.faults
  have hclosed : (world.finish .closed).Inv version printJson parseJson :=
    inv_finish hinv (.inl hidle) (by simpa [Faults, finish] using hintact) nofun
  obtain ⟨result, hread, rfl⟩ := Option.map_eq_some_iff.mp hnext
  have hreads := hread
  rw [serverReads] at hreads
  rcases hinv.incoming (by rw [serverGone, hserver]) with
    ⟨hnone, _⟩ | ⟨frame, hcoming, hframe, hpart, _⟩
  · obtain ⟨hwaiting, _⟩ := List.append_eq_nil_iff.mp hnone
    rw [hwaiting] at hreads
    rcases reads_nil world.clientGone with hnil | hnil
    · rw [hnil] at hreads
      cases hreads
    · rw [hnil] at hreads
      cases hreads
      exact hclosed
  · rcases reads_part hframe ((List.prefix_append _ _).trans hpart) world.clientGone with
      ⟨hwhole, hall⟩ | ⟨_, hsome | ⟨_, hsome | hsome⟩⟩
    · rw [hall] at hreads
      cases hreads
      have hunsent : world.toServer.unsent = [] := by
        rw [Pipe.bytes, hwhole] at hpart
        have hlength := hpart.length_le
        rw [List.length_append] at hlength
        exact List.eq_nil_of_length_eq_zero (by omega)
      rcases hcoming with ⟨request, rfl, hasked⟩ | ⟨rfl, _, hstop⟩
      · exact inv_served hinv hspeaks hserver hunsent hasked (hallowed request [] hread)
      · exact inv_finish hinv (.inl hidle) (by simpa [Faults, finish] using hintact)
          fun _ => hstop
    · rw [hsome] at hreads
      cases hreads
    all_goals
      rw [hsome] at hreads
      cases hreads
      exact hclosed

/-- The server gives up what it cannot write, or has written its last. -/
theorem inv_ended (hinv : world.Inv version printJson parseJson)
    (hidle : world.toClient.unsent = [] ∨ world.client = .gone)
    (hserver : world.serverGone = false) :
    (world.finish (if world.server = .faulting then .faulted else .closed)).Inv
      version printJson parseJson := by
  refine inv_finish hinv hidle ?_ (by split <;> nofun)
  have hfaults := hinv.faults
  by_cases hfaulting : world.server = .faulting
  · simpa [Faults, finish, hfaulting] using hfaults
  · have hopen : world.server ≠ .ended .faulted := by
      intro hended
      rw [serverGone, hended] at hserver
      cases hserver
    simpa [Faults, finish, hfaulting, hopen] using hfaults

theorem inv_step (hspeaks : Speaks version printJson parseJson asks handles)
    (hinv : world.Inv version printJson parseJson)
    (hstep : world.Step printJson parseJson asks handles after) :
    after.Inv version printJson parseJson := by
  obtain ⟨move, hallowed, hnext⟩ := hstep
  cases move with
  | carryToServer count =>
      simp only [next] at hnext
      split at hnext <;> cases hnext
      exact inv_carry hinv _ world.toClient (Pipe.bytes_carry _ _) rfl
  | carryToClient count =>
      simp only [next] at hnext
      split at hnext <;> cases hnext
      exact inv_carry hinv world.toServer _ rfl (Pipe.bytes_carry _ _)
  | connect =>
      cases hclient : world.client <;> simp only [next, hclient] at hnext <;> try cases hnext
      exact inv_greeted hinv hclient hnext
  | connectAny =>
      cases hclient : world.client <;> simp only [next, hclient] at hnext <;> try cases hnext
      exact inv_greeted hinv hclient hnext
  | request request => exact inv_request hinv hspeaks hallowed hnext
  | receive =>
      cases hclient : world.client <;> simp only [next, hclient] at hnext <;> try cases hnext
      split at hnext
      · exact inv_received hinv hclient hnext
      · cases hnext
  | stop => exact inv_stop hinv hspeaks hnext
  | stopped =>
      cases hclient : world.client <;> simp only [next, hclient] at hnext <;> try cases hnext
      split at hnext <;> cases hnext
      exact inv_leave hinv
  | broken =>
      simp only [next] at hnext
      split at hnext
      · cases hclient : world.client with
        | awaiting request =>
            simp only [hclient] at hnext
            cases hnext
            exact inv_broken hinv hclient .io
        | gone =>
            simp only [hclient] at hnext
            cases hnext
        | _ =>
            simp only [hclient] at hnext
            cases hnext
            exact inv_leave hinv
      · cases hnext
  | leave =>
      cases hnext
      exact inv_leave hinv
  | greet =>
      cases hserver : world.server with
      | greeting => exact inv_greet hinv hspeaks hserver hnext
      | _ =>
          simp only [next, hserver] at hnext
          cases hnext
  | serve outcome engine => exact inv_serve hinv hspeaks hallowed hnext
  | unwritable =>
      simp only [next] at hnext
      split at hnext
      · next hgone =>
          have hclient : world.client = .gone := by
            cases hclient : world.client <;> simp [clientGone, hclient] at hgone
            rfl
          cases hserver : world.server <;> simp only [hserver] at hnext <;> cases hnext
          all_goals
            simpa [hserver] using
              inv_ended hinv (.inr hclient) (by rw [serverGone, hserver])
      · cases hnext
  | settle =>
      cases hserver : world.server <;> simp only [next, hserver] at hnext <;> try cases hnext
      split at hnext
      · next hidle =>
          cases hnext
          simpa [hserver] using inv_ended hinv (.inl hidle) (by rw [serverGone, hserver])
      · cases hnext

theorem inv_reachable (hspeaks : Speaks version printJson parseJson asks handles)
    (hreach : Reachable (Initial version) (Step printJson parseJson asks handles) world) :
    world.Inv version printJson parseJson :=
  hreach.invariant (fun _ => inv_initial) fun _ _ hinv hstep => inv_step hspeaks hinv hstep

/-- On one connection, in any order of the steps of its two ends: requests are handled as
they were asked, no more than one is open, a client is told of each what the engine made of
it until one is not answered, no request goes to a daemon of another version, and the daemon
ends for a request to stop or for a fault only if there was one. -/
theorem answers_in_order (hspeaks : Speaks version printJson parseJson asks handles)
    (hreach : Reachable (Initial version) (Step printJson parseJson asks handles) world) :
    world.handled.map Prod.fst <+: world.asked ∧
    world.InOrder ∧
    (world.asked ≠ [] → world.version = protocolVersion) ∧
    world.Faults ∧
    (world.server = .ended .stop → world.stopAsked = true) := by
  have hinv := inv_reachable hspeaks hreach
  exact ⟨hinv.order, hinv.inOrder, hinv.matched, hinv.faults, hinv.stopped⟩

/-- While a client awaits an answer there is always a step to take, other than to give up. -/
theorem awaiting_proceeds (hspeaks : Speaks version printJson parseJson asks handles)
    (hanswers : ∀ engine request, ∃ outcome after, handles engine request outcome after)
    (hreach : Reachable (Initial version) (Step printJson parseJson asks handles) world)
    {request : EngineRequest} (hclient : world.client = .awaiting request) :
    ∃ move after, move ≠ .leave ∧ world.Allowed parseJson asks handles move ∧
      world.next printJson parseJson move = some after := by
  have hinv := inv_reachable hspeaks hreach
  have hside := hinv.client
  rw [ClientSide, hclient] at hside
  have hpresent : world.clientGone = false := by rw [clientGone, hclient]
  by_cases hgone : world.serverGone = true
  · exact ⟨.broken, _, nofun, trivial, by rw [next, if_pos hgone, hclient]⟩
  have hopen : world.serverGone = false := eq_false_of_ne_true hgone
  by_cases hwritten : world.toServer.unsent = []
  case neg => exact ⟨.carryToServer 0, _, nofun, trivial, by rw [next, if_pos ⟨hwritten, hopen⟩]⟩
  by_cases hidle : world.toClient.unsent = []
  case neg => exact ⟨.carryToClient 0, _, nofun, trivial, by rw [next, if_pos ⟨hidle, hpresent⟩]⟩
  have hwaits : ∀ pipe : Pipe, pipe.unsent = [] → pipe.bytes = pipe.waiting := by
    intro pipe hunsent
    rw [Pipe.bytes, hunsent, List.append_nil]
  rcases hside.2 with ⟨hnone, hasked, _⟩ | ⟨before, outcome, _, _, _, hsent⟩
  · cases hserver : world.server with
    | greeting =>
        rcases (hinv.greeting hserver).1 with hphase | hphase <;>
          rw [hclient] at hphase <;> cases hphase
    | faulting =>
        refine ⟨.settle, world.finish .faulted, nofun, trivial, ?_⟩
        simp only [next, hserver, if_pos hidle]
    | ended ending =>
        rw [serverGone, hserver] at hopen
        cases hopen
    | reading =>
        have hbehind : world.asked ≠ world.handled.map Prod.fst := by
          intro heq
          have hlength := congrArg List.length (heq.symm.trans hasked)
          simp at hlength
        rcases hinv.incoming hopen with ⟨_, heq⟩ | ⟨frame, hcoming, hframe, hpart, hwhole⟩
        · exact absurd heq hbehind
        · have hall := hwhole hpresent
          rw [hwaits _ hwritten] at hall
          have hread := readFrame_frameBytes hframe []
          rw [List.append_nil, ← hall] at hread
          have hreads : world.serverReads parseJson = some (.ok (some (frame, []))) := by
            rw [serverReads, reads, hread]
          obtain ⟨outcome, engine, hhandles⟩ := hanswers world.engine request
          rcases hcoming with ⟨heard, rfl, hlast⟩ | ⟨_, heq, _⟩
          · have hone : [request] = [heard] :=
              List.append_cancel_left (hasked.symm.trans hlast)
            cases hone
            refine ⟨.serve outcome engine, world.served printJson request outcome engine [],
              nofun, fun other rest hother => ?_, ?_⟩
            · have hframes := hreads.symm.trans hother
              rw [Option.some.injEq, Except.ok.injEq, Option.some.injEq, Prod.mk.injEq] at hframes
              rw [← requestFrame_injective hframes.1]
              exact hhandles
            · simp only [next, hserver, if_pos hidle, hreads, Option.map_some]
              rfl
          · exact absurd heq hbehind
  · rcases hsent with ⟨hframe, hbytes⟩ | ⟨_, hended⟩
    · rw [hwaits _ hidle] at hbytes
      have hread := readFrame_frameBytes hframe []
      rw [List.append_nil, ← hbytes] at hread
      have hreads : world.clientReads parseJson =
          some (.ok (some (answerFrame outcome, []))) := by
        rw [clientReads, reads, hread]
      refine ⟨.receive, world.received request (.ok (some (answerFrame outcome, []))), nofun,
        trivial, ?_⟩
      simp only [next, hclient, if_pos hwritten, hreads, Option.map_some]
    · exact absurd hended hgone

end World

/-! ## A session that asks twice -/

def statusRequest : EngineRequest := ⟨statusMethod, .null⟩

def strangeRequest : EngineRequest := ⟨"strange", .null⟩

def statusOutcome : HandlerOutcome := .reply (.str "up")

def strangeOutcome : HandlerOutcome := .error "no such method"

/-- A reader of the frames of that session. -/
def parseKnown (bytes : List UInt8) : Option Json :=
  [(ServerFrame.hello protocolVersion).toJson, ClientFrame.stop.toJson,
    (requestFrame statusRequest).toJson, (answerFrame statusOutcome).toJson,
    (requestFrame strangeRequest).toJson, (answerFrame strangeOutcome).toJson].find?
      fun json => jsonText json = bytes

def AsksKnown (request : EngineRequest) : Prop :=
  request = statusRequest ∨ request = strangeRequest

def AnswersKnown (_ : Unit) (_ : EngineRequest) (outcome : HandlerOutcome) (_ : Unit) : Prop :=
  outcome = statusOutcome ∨ outcome = strangeOutcome

theorem speaks_known :
    Speaks protocolVersion jsonText parseKnown AsksKnown AnswersKnown where
  small := by decide
  hello := rfl
  request := by
    rintro _ (rfl | rfl)
    · rfl
    · rfl
  stop := rfl
  answer := by
    rintro _ _ _ _ (rfl | rfl)
    · rfl
    · rfl

def accepted : World Unit where
  version := protocolVersion
  engine := ()
  client := .connecting
  server := .greeting
  toServer := ⟨[], []⟩
  toClient := ⟨[], []⟩
  asked := []
  stopAsked := false
  handled := []
  answers := []

def follow (world : World Unit) : List (Move Unit) → Option (World Unit)
  | [] => some world
  | move :: moves => (world.next jsonText parseKnown move).bind (follow · moves)

theorem reachable_follow {world after : World Unit} {moves : List (Move Unit)}
    (hreach : Reachable (World.Initial protocolVersion)
      (World.Step jsonText parseKnown AsksKnown AnswersKnown) world)
    (hmoves : ∀ move ∈ moves, ∀ world : World Unit,
      world.Allowed parseKnown AsksKnown AnswersKnown move)
    (hfollow : follow world moves = some after) :
    Reachable (World.Initial protocolVersion)
      (World.Step jsonText parseKnown AsksKnown AnswersKnown) after := by
  induction moves generalizing world with
  | nil =>
      cases hfollow
      exact hreach
  | cons move moves ih =>
      obtain ⟨next, hnext, hrest⟩ := Option.bind_eq_some_iff.mp hfollow
      rw [List.forall_mem_cons] at hmoves
      exact ih (hreach.tail ⟨move, hmoves.1 world, hnext⟩) hmoves.2 hrest

/-- The request has been written, and nothing more. -/
def askingMoves : List (Move Unit) :=
  [.greet, .carryToClient 60, .connect, .request statusRequest, .carryToServer 2]

def answeringMoves : List (Move Unit) :=
  List.append askingMoves
    [.carryToServer 100, .serve statusOutcome (), .carryToClient 2, .carryToClient 100, .receive,
      .request strangeRequest, .carryToServer 2, .carryToServer 100, .serve strangeOutcome (),
      .carryToClient 100, .receive]

theorem allowed_answering : ∀ move ∈ answeringMoves, ∀ world : World Unit,
    world.Allowed parseKnown AsksKnown AnswersKnown move := by
  simp [answeringMoves, askingMoves, World.Allowed, AsksKnown, AnswersKnown]

theorem reachable_accepted : Reachable (World.Initial protocolVersion)
    (World.Step jsonText parseKnown AsksKnown AnswersKnown) accepted :=
  .start ⟨rfl, rfl, rfl, rfl, rfl, rfl, rfl, rfl, rfl⟩

theorem answers_in_order_twice :
    ∃ world : World Unit,
      world.answers.map (·.1.method) = [statusRequest.method, strangeRequest.method] ∧
        world.handled.map Prod.fst <+: world.asked ∧ world.InOrder := by
  have hfollow : (follow accepted answeringMoves).any (fun world =>
      world.answers.map (·.1.method) = [statusRequest.method, strangeRequest.method]) = true := rfl
  obtain ⟨world, hworld, htwo⟩ := (Option.any_eq_true _ _).mp hfollow
  have horder := World.answers_in_order speaks_known
    (reachable_follow reachable_accepted allowed_answering hworld)
  exact ⟨world, of_decide_eq_true htwo, horder.1, horder.2.1⟩

theorem awaiting_proceeds_status :
    ∃ (world after : World Unit) (move : Move Unit),
      world.client = .awaiting statusRequest ∧ move ≠ .leave ∧
        world.next jsonText parseKnown move = some after := by
  have hfollow : ∃ world, follow accepted askingMoves = some world ∧
      world.client = .awaiting statusRequest := ⟨_, rfl, rfl⟩
  obtain ⟨world, hworld, hclient⟩ := hfollow
  have hallowed : ∀ move ∈ askingMoves, ∀ world : World Unit,
      world.Allowed parseKnown AsksKnown AnswersKnown move := fun move hmove =>
    allowed_answering move (List.mem_append_left _ hmove)
  obtain ⟨move, after, hmove, _, hnext⟩ := World.awaiting_proceeds speaks_known
    (fun _ _ => ⟨statusOutcome, (), .inl rfl⟩)
    (reachable_follow reachable_accepted hallowed hworld) hclient
  exact ⟨world, after, move, hclient, hmove, hnext⟩

end Ktsense.Daemon.Session
