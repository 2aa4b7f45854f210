import Ktsense.Foundation.Json
import Ktsense.Foundation.Transition
import Ktsense.Lsp.Framing

/-!
# Requests and responses

`client.rs` has any number of `request_within` calls, a reader task and timers
share one map from request ids to one-shot senders.  The calls and the reader
are modelled as parties that reach the shared state one access a step, in any
interleaving; a timer may elapse, and a caller may drop its call, wherever the
call awaits.  The engine is whatever its bytes are: the reader decodes them with
`FrameDecoder` and dispatches every body that comes out.

A sender is known by the call that made it.  It lies in the map under the id of
its call or in the reader's hand, and is dropped otherwise.  What a call receives
is kept with the number of the body it came from.
-/

namespace Ktsense.Lsp

open Ktsense.Foundation

/-- What `request_within` fails with. -/
inductive LspError where
  | io (text : String)
  | json (text : String)
  | timeout (method : String) (timeout : ℕ)
  | response (method : String) (code : Int64) (message : String)
  | childExited (method : String)
  | framing (fault : FramingError)

def stdinClosed : LspError := .io "the engine's stdin was closed by shutdown"

/-- What `write_message` fails with while the engine's stdin is open. -/
inductive WriteFailure where
  | io (text : String)
  | json (text : String)

def WriteFailure.error : WriteFailure → LspError
  | io text => .io text
  | json text => .json text

structure Notification where
  method : String
  params : Json

/-- The arguments of a `request_within`. -/
structure Call where
  method : String
  params : Json
  bound : ℕ

def requestMessage (id : Int64) (call : Call) : Json :=
  .obj [("id", .number (toString id.toInt)), ("jsonrpc", .str "2.0"),
    ("method", .str call.method), ("params", call.params)]

def messageMethod (message : Json) : Option String :=
  (message.member? "method").bind Json.str?

def messageId (message : Json) : Option Int64 :=
  (message.member? "id").bind Json.int64?

def responseOutcome (message : Json) : Except (Int64 × String) Json :=
  match message.member? "error" with
  | some error =>
      let code := ((error.member? "code").bind Json.int64?).getD 0
      let text := ((error.member? "message").bind Json.str?).getD ""
      .error (code, text)
  | none => .ok ((message.member? "result").getD .null)

/-- The arms on a received outcome. -/
def Call.received (call : Call) : Except (Int64 × String) Json → Except LspError Json
  | .ok result => .ok result
  | .error (code, text) => .error (.response call.method code text)

/-- A dispatched response: the number of its body among all bodies, and what the
body says. -/
structure Delivery where
  arrival : ℕ
  message : Json

/-- Where a `request_within` is. -/
inductive Phase where
  | idle
  | checked
  | numbered
  | writing
  | waiting
  | elapsed
  | returned (result : Except LspError Json) (source : Option Delivery)
  | dropped

namespace Phase

/-- No id has been drawn yet. -/
def unnumbered : Phase → Bool
  | idle => true
  | checked => true
  | _ => false

/-- The receiver is gone. -/
def deaf : Phase → Bool
  | elapsed => true
  | returned _ _ => true
  | dropped => true
  | _ => false

end Phase

/-- Where `Reader::run` is. -/
inductive ReaderPhase (P : Type*) where
  | reading (decoder : FrameDecoder)
  | draining (decoder : FrameDecoder)
  | sending (decoder : FrameDecoder) (owner : P) (delivery : Delivery)
  | faulted (fault : FramingError)
  | killing
  | closing
  | stopped

/-- The client, its reader and every call made on it.  `number` and `issued`
count the ids handed out and `dispatched` has the bodies so far; nothing of the
source reads them. -/
structure World (P : Type*) where
  nextId : Int64
  pending : Int64 → Option P
  fault : Option FramingError
  stdinOpen : Bool
  outbox : List Json
  notifications : List Notification
  reader : ReaderPhase P
  phase : P → Phase
  id : P → Option Int64
  slot : P → Option Delivery
  number : P → Option ℕ
  issued : ℕ
  dispatched : List (List UInt8)

namespace World

variable {P : Type*} [DecidableEq P]

def move (world : World P) (request : P) (phase : Phase) : World P :=
  { world with phase := Function.update world.phase request phase }

/-- `fetch_add`. -/
def draw (world : World P) (request : P) : World P :=
  { world.move request .numbered with
    nextId := world.nextId + 1
    id := Function.update world.id request (some world.nextId)
    number := Function.update world.number request (some world.issued)
    issued := world.issued + 1 }

def setPending (world : World P) (id : Int64) (owner : Option P) : World P :=
  { world with pending := Function.update world.pending id owner }

/-- `dispatch`, up to the send. -/
def dispatch (parse : List UInt8 → Option Json) (world : World P)
    (decoder : FrameDecoder) (body : List UInt8) : World P :=
  let after :=
    { world with
      reader := .draining decoder
      dispatched := world.dispatched ++ [body] }
  match parse body with
  | none => after
  | some message =>
      match messageMethod message with
      | some method =>
          if (message.member? "id").isNone then
            { after with notifications := world.notifications ++
                [⟨method, (message.member? "params").getD .null⟩] }
          else after
      | none =>
          match messageId message with
          | none => after
          | some id =>
              match world.pending id with
              | none => after
              | some owner =>
                  { after.setPending id none with
                    reader :=
                      .sending decoder owner ⟨world.dispatched.length, message⟩ }

/-- A one-shot send: a receiver that is gone gets nothing. -/
def send (world : World P) (owner : P) (delivery : Delivery) : World P :=
  if (world.phase owner).deaf then world
  else { world with slot := Function.update world.slot owner (some delivery) }

/-- The sender of a call is somewhere. -/
def SenderAlive (world : World P) (request : P) : Prop :=
  (∃ id, world.pending id = some request) ∨
    ∃ decoder delivery, world.reader = .sending decoder request delivery

/-- One access to the shared state, or what the engine, a timer or a caller
does. -/
inductive Step (parse : List UInt8 → Option Json) (call : P → Call) :
    World P → World P → Prop where
  | refuse {world : World P} {request : P} {fault : FramingError}
      (hphase : world.phase request = .idle) (hfault : world.fault = some fault) :
      Step parse call world
        (world.move request (.returned (.error (.framing fault)) none))
  | check {world : World P} {request : P} (hphase : world.phase request = .idle)
      (hfault : world.fault = none) :
      Step parse call world (world.move request .checked)
  | draw {world : World P} {request : P} (hphase : world.phase request = .checked) :
      Step parse call world (world.draw request)
  -- an old sender under the same id is dropped
  | register {world : World P} {request : P} {id : Int64}
      (hphase : world.phase request = .numbered) (hid : world.id request = some id) :
      Step parse call world
        ((world.setPending id (some request)).move request .writing)
  | write {world : World P} {request : P} {id : Int64}
      (hphase : world.phase request = .writing) (hid : world.id request = some id)
      (hopen : world.stdinOpen = true) :
      Step parse call world
        { world.move request .waiting with
          outbox := world.outbox ++ [requestMessage id (call request)] }
  -- the sender stays in the map
  | writeFails {world : World P} {request : P} (failure : WriteFailure)
      (hphase : world.phase request = .writing) (hopen : world.stdinOpen = true) :
      Step parse call world
        (world.move request (.returned (.error failure.error) none))
  | writeClosed {world : World P} {request : P}
      (hphase : world.phase request = .writing) (hclosed : world.stdinOpen = false) :
      Step parse call world
        (world.move request (.returned (.error stdinClosed) none))
  | receive {world : World P} {request : P} {delivery : Delivery}
      (hphase : world.phase request = .waiting)
      (hslot : world.slot request = some delivery) :
      Step parse call world
        (world.move request (.returned
          ((call request).received (responseOutcome delivery.message))
          (some delivery)))
  | receiveClosed {world : World P} {request : P}
      (hphase : world.phase request = .waiting) (hslot : world.slot request = none)
      (hsender : ¬world.SenderAlive request) :
      Step parse call world
        (world.move request
          (.returned (.error (.childExited (call request).method)) none))
  -- the timer and a dropped call end the receiver wherever it is
  | elapse {world : World P} {request : P}
      (hphase : world.phase request = .writing ∨ world.phase request = .waiting) :
      Step parse call world (world.move request .elapsed)
  | forget {world : World P} {request : P} {id : Int64}
      (hphase : world.phase request = .elapsed) (hid : world.id request = some id) :
      Step parse call world
        ((world.setPending id none).move request (.returned
          (.error (.timeout (call request).method (call request).bound)) none))
  | drop {world : World P} {request : P}
      (hphase : world.phase request = .writing ∨ world.phase request = .waiting) :
      Step parse call world (world.move request .dropped)
  | closeStdin {world : World P} :
      Step parse call world { world with stdinOpen := false }
  | read {world : World P} {decoder : FrameDecoder} (chunk : List UInt8)
      (hreader : world.reader = .reading decoder) (hchunk : chunk ≠ []) :
      Step parse call world { world with reader := .draining (decoder.push chunk) }
  | readEnds {world : World P} {decoder : FrameDecoder}
      (hreader : world.reader = .reading decoder) :
      Step parse call world { world with reader := .closing }
  | frame {world : World P} {decoder rest : FrameDecoder} {body : List UInt8}
      (hreader : world.reader = .draining decoder)
      (hframe : decoder.nextFrame = (.ok (some body), rest)) :
      Step parse call world (world.dispatch parse rest body)
  | noFrame {world : World P} {decoder rest : FrameDecoder}
      (hreader : world.reader = .draining decoder)
      (hframe : decoder.nextFrame = (.ok none, rest)) :
      Step parse call world { world with reader := .reading rest }
  | badFrame {world : World P} {decoder rest : FrameDecoder} {fault : FramingError}
      (hreader : world.reader = .draining decoder)
      (hframe : decoder.nextFrame = (.error fault, rest)) :
      Step parse call world { world with reader := .faulted fault }
  | send {world : World P} {decoder : FrameDecoder} {owner : P} {delivery : Delivery}
      (hreader : world.reader = .sending decoder owner delivery) :
      Step parse call world
        { world.send owner delivery with reader := .draining decoder }
  | setFault {world : World P} {fault : FramingError}
      (hreader : world.reader = .faulted fault) :
      Step parse call world { world with fault := some fault, reader := .killing }
  | kill {world : World P} (hreader : world.reader = .killing) :
      Step parse call world { world with reader := .closing }
  | failPending {world : World P} (hreader : world.reader = .closing) :
      Step parse call world { world with pending := fun _ => none, reader := .stopped }

/-- A client just spawned. -/
def spawned : World P where
  nextId := 1
  pending := fun _ => none
  fault := none
  stdinOpen := true
  outbox := []
  notifications := []
  reader := .reading .fresh
  phase := fun _ => .idle
  id := fun _ => none
  slot := fun _ => none
  number := fun _ => none
  issued := 0
  dispatched := []

/-- Reached from a spawned client. -/
def Run (parse : List UInt8 → Option Json) (call : P → Call) : World P → Prop :=
  Reachable (· = spawned) (Step parse call)

/-- The call got the body numbered `arrival`. -/
def Gets (world : World P) (request : P) (arrival : ℕ) : Prop :=
  (∃ delivery, world.slot request = some delivery ∧ delivery.arrival = arrival) ∨
    ∃ result delivery, world.phase request = .returned result (some delivery) ∧
      delivery.arrival = arrival

/-- The timer of a call has elapsed. -/
def TimedOut (call : P → Call) (world : World P) (request : P) : Prop :=
  world.phase request = .elapsed ∨
    world.phase request = .returned
      (.error (.timeout (call request).method (call request).bound)) none

/-- The reader takes a body off its decoder that says `message`. -/
def Arrives (parse : List UInt8 → Option Json) (message : Json)
    (world after : World P) : Prop :=
  ∃ decoder rest body, world.reader = .draining decoder ∧
    decoder.nextFrame = (.ok (some body), rest) ∧ parse body = some message ∧
    after = world.dispatch parse rest body

/-! ## What a step can do -/

section Steps

variable {parse : List UInt8 → Option Json} {call : P → Call}
variable {world after : World P} {request : P}

omit [DecidableEq P] in
/-- A dispatched body is done with, or its message takes the sender its id
names. -/
theorem dispatch_cases (parse : List UInt8 → Option Json) (world : World P)
    (decoder : FrameDecoder) (body : List UInt8) :
    (∃ notifications, world.dispatch parse decoder body =
      { world with
        reader := .draining decoder
        dispatched := world.dispatched ++ [body]
        notifications := notifications }) ∨
    ∃ message id owner, parse body = some message ∧ messageMethod message = none ∧
      messageId message = some id ∧ world.pending id = some owner ∧
      world.dispatch parse decoder body =
        { world.setPending id none with
          reader := .sending decoder owner ⟨world.dispatched.length, message⟩
          dispatched := world.dispatched ++ [body] } := by
  cases hparse : parse body with
  | none =>
      left
      exact ⟨world.notifications, by simp only [dispatch, hparse]⟩
  | some message =>
      cases hmethod : messageMethod message with
      | some method =>
          left
          by_cases hid : (message.member? "id").isNone = true
          · exact ⟨_, by simp only [dispatch, hparse, hmethod, if_pos hid]; rfl⟩
          · exact ⟨world.notifications, by
              simp only [dispatch, hparse, hmethod, if_neg hid]⟩
      | none =>
          cases hid : messageId message with
          | none =>
              left
              exact ⟨world.notifications, by
                simp only [dispatch, hparse, hmethod, hid]⟩
          | some id =>
              cases howner : world.pending id with
              | none =>
                  left
                  exact ⟨world.notifications, by
                    simp only [dispatch, hparse, hmethod, hid, howner]⟩
              | some owner =>
                  right
                  refine ⟨message, id, owner, rfl, hmethod, hid, howner, ?_⟩
                  simp only [dispatch, hparse, hmethod, hid, howner]
                  rfl

/-- The result is the engine's, of either kind. -/
def answered : Except LspError Json → Bool
  | .ok _ => true
  | .error (.response _ _ _) => true
  | .error _ => false

/-- What any step leaves alone: a call keeps its id, its result and the loss of
its receiver; a sender is put under its call's id and taken by a response with
that id; a channel is filled by the reader while the receiver is there; the
engine's result is what the channel had. -/
structure Moves (parse : List UInt8 → Option Json) (call : P → Call)
    (world after : World P) : Prop where
  dispatched : world.dispatched <+: after.dispatched
  id : ∀ request, after.id request = world.id request ∨
    (world.phase request).unnumbered = true
  pending : ∀ id request, after.pending id = some request →
    world.pending id = some request ∨ world.id request = some id
  sending : ∀ decoder owner delivery, after.reader = .sending decoder owner delivery →
    world.reader = .sending decoder owner delivery ∨
      ∃ body id, delivery.arrival = world.dispatched.length ∧
        after.dispatched = world.dispatched ++ [body] ∧
        parse body = some delivery.message ∧ messageMethod delivery.message = none ∧
        messageId delivery.message = some id ∧ world.pending id = some owner
  slot : ∀ request delivery, after.slot request = some delivery →
    world.slot request = some delivery ∨
      ((world.phase request).deaf = false ∧
        ∃ decoder, world.reader = .sending decoder request delivery)
  returned : ∀ request result source, after.phase request = .returned result source →
    world.phase request = .returned result source ∨
      (source = none ∧ answered result = false) ∨
      ∃ delivery, source = some delivery ∧ world.slot request = some delivery ∧
        result = (call request).received (responseOutcome delivery.message)
  kept : ∀ request result source, world.phase request = .returned result source →
    after.phase request = .returned result source
  deaf : ∀ request, (world.phase request).deaf = true →
    (after.phase request).deaf = true

/-- A step of one call that leaves the reader and the channels alone. -/
theorem Moves.of_move {phase : Phase}
    (hphase : after.phase = Function.update world.phase request phase)
    (hdispatched : after.dispatched = world.dispatched)
    (hid : ∀ other, after.id other = world.id other ∨
      (world.phase other).unnumbered = true)
    (hslot : after.slot = world.slot) (hreader : after.reader = world.reader)
    (hpending : ∀ id other, after.pending id = some other →
      world.pending id = some other ∨ world.id other = some id)
    (hopen : ∀ result source, world.phase request ≠ .returned result source)
    (hdeaf : (world.phase request).deaf = true → phase.deaf = true)
    (hresult : ∀ result source, phase = .returned result source →
      (source = none ∧ answered result = false) ∨
        ∃ delivery, source = some delivery ∧ world.slot request = some delivery ∧
          result = (call request).received (responseOutcome delivery.message)) :
    Moves parse call world after where
  dispatched := hdispatched ▸ List.prefix_rfl
  id := hid
  pending := hpending
  sending := by
    intro decoder owner delivery hsending
    exact .inl (hreader ▸ hsending)
  slot := by
    intro other delivery hother
    exact .inl (hslot ▸ hother)
  returned := by
    intro other result source hother
    rw [hphase] at hother
    by_cases hsame : other = request
    · subst hsame
      rw [Function.update_self] at hother
      exact .inr (hresult result source hother)
    · rw [Function.update_of_ne hsame] at hother
      exact .inl hother
  kept := by
    intro other result source hother
    have hsame : other ≠ request := by
      intro hsame
      exact hopen result source (hsame ▸ hother)
    rw [hphase, Function.update_of_ne hsame, hother]
  deaf := by
    intro other hother
    rw [hphase]
    by_cases hsame : other = request
    · subst hsame
      rw [Function.update_self]
      exact hdeaf hother
    · rw [Function.update_of_ne hsame]
      exact hother

omit [DecidableEq P] in
/-- A step of the reader that takes no sender and fills no channel. -/
theorem Moves.of_reader (hphase : after.phase = world.phase)
    (hdispatched : world.dispatched <+: after.dispatched) (hid : after.id = world.id)
    (hslot : after.slot = world.slot)
    (hpending : ∀ id other, after.pending id = some other →
      world.pending id = some other)
    (hreader : ∀ decoder owner delivery,
      after.reader = .sending decoder owner delivery →
        world.reader = .sending decoder owner delivery) :
    Moves parse call world after where
  dispatched := hdispatched
  id := fun other => .inl (congrFun hid other)
  pending := fun id other hother => .inl (hpending id other hother)
  sending := fun decoder owner delivery hsending =>
    .inl (hreader decoder owner delivery hsending)
  slot := fun _ _ hother => .inl (hslot ▸ hother)
  returned := fun _ _ _ hother => .inl (hphase ▸ hother)
  kept := fun _ _ _ hother => hphase ▸ hother
  deaf := fun _ hother => hphase ▸ hother

omit [DecidableEq P] in
/-- Taking a sender out of the map adds none. -/
theorem setPending_none {id other : Int64} {owner : P}
    (hpending : (world.setPending id none).pending other = some owner) :
    world.pending other = some owner := by
  by_cases hsame : other = id
  · subst hsame
    exact absurd hpending (by simp [setPending])
  · change Function.update world.pending id none other = some owner at hpending
    rwa [Function.update_of_ne hsame] at hpending

omit [DecidableEq P] in
theorem moves_dispatch (decoder : FrameDecoder) (body : List UInt8) :
    Moves parse call world (world.dispatch parse decoder body) := by
  rcases dispatch_cases parse world decoder body with
    ⟨notifications, hdone⟩ |
    ⟨message, id, owner, hparse, hmethod, hid, howner, htaken⟩
  · rw [hdone]
    exact .of_reader rfl (List.prefix_append _ _) rfl rfl
      (fun _ _ hother => hother) (by simp)
  · rw [htaken]
    exact {
      dispatched := List.prefix_append _ _
      id := fun _ => .inl rfl
      pending := fun _ _ hother => .inl (setPending_none hother)
      sending := by
        intro other taker delivery hsending
        obtain ⟨_, rfl, rfl⟩ := ReaderPhase.sending.inj hsending
        exact .inr ⟨body, id, rfl, rfl, hparse, hmethod, hid, howner⟩
      slot := fun _ _ hslot => .inl hslot
      returned := fun _ _ _ hreturned => .inl hreturned
      kept := fun _ _ _ hreturned => hreturned
      deaf := fun _ hdeaf => hdeaf }

theorem moves_send {decoder : FrameDecoder} {owner : P} {delivery : Delivery}
    (hreader : world.reader = .sending decoder owner delivery) :
    Moves parse call world
      { world.send owner delivery with reader := .draining decoder } := by
  by_cases hdeaf : (world.phase owner).deaf = true
  · rw [send, if_pos hdeaf]
    exact .of_reader rfl List.prefix_rfl rfl rfl (fun _ _ hother => hother) (by simp)
  · rw [send, if_neg hdeaf]
    exact {
      dispatched := List.prefix_rfl
      id := fun _ => .inl rfl
      pending := fun _ _ hother => .inl hother
      sending := by simp
      slot := by
        intro other received hslot
        by_cases hsame : other = owner
        · subst hsame
          change Function.update world.slot other (some delivery) other = _ at hslot
          rw [Function.update_self, Option.some.injEq] at hslot
          subst hslot
          exact .inr ⟨by simpa using hdeaf, decoder, hreader⟩
        · change Function.update world.slot owner (some delivery) other = _ at hslot
          rw [Function.update_of_ne hsame] at hslot
          exact .inl hslot
      returned := fun _ _ _ hreturned => .inl hreturned
      kept := fun _ _ _ hreturned => hreturned
      deaf := fun _ hother => hother }

/-- A call that still has its receiver goes on. -/
theorem moves_move {phase : Phase} (hlive : (world.phase request).deaf = false)
    (hresult : ∀ result source, phase = .returned result source →
      (source = none ∧ answered result = false) ∨
        ∃ delivery, source = some delivery ∧ world.slot request = some delivery ∧
          result = (call request).received (responseOutcome delivery.message)) :
    Moves parse call world (world.move request phase) := by
  refine .of_move rfl rfl (fun _ => .inl rfl) rfl rfl
    (fun _ _ h => .inl h) ?_ ?_ hresult
  · intro result source hreturned
    rw [hreturned] at hlive
    exact absurd hlive (by simp [Phase.deaf])
  · intro hdeaf
    rw [hlive] at hdeaf
    exact absurd hdeaf (by simp)

theorem moves_draw (hphase : world.phase request = .checked) :
    Moves parse call world (world.draw request) := by
  refine .of_move rfl rfl ?_ rfl rfl (fun _ _ h => .inl h) ?_ ?_ ?_
  · intro other
    by_cases hsame : other = request
    · right
      rw [hsame, hphase]
      rfl
    · left
      exact Function.update_of_ne hsame _ _
  · simp [hphase]
  · simp [hphase, Phase.deaf]
  · simp

theorem moves_register {id : Int64} (hphase : world.phase request = .numbered)
    (hid : world.id request = some id) :
    Moves parse call world
      ((world.setPending id (some request)).move request .writing) := by
  refine .of_move rfl rfl (fun _ => .inl rfl) rfl rfl ?_ ?_ ?_ ?_
  · intro other owner hother
    change Function.update world.pending id (some request) other = _ at hother
    by_cases hsame : other = id
    · rw [hsame, Function.update_self, Option.some.injEq] at hother
      rw [← hother, hsame]
      exact .inr hid
    · rw [Function.update_of_ne hsame] at hother
      exact .inl hother
  · simp [hphase]
  · simp [hphase, Phase.deaf]
  · simp

theorem moves_forget {id : Int64} (hphase : world.phase request = .elapsed) :
    Moves parse call world ((world.setPending id none).move request (.returned
      (.error (.timeout (call request).method (call request).bound)) none)) := by
  refine .of_move rfl rfl (fun _ => .inl rfl) rfl rfl
    (fun _ _ h => .inl (setPending_none h)) ?_ ?_ ?_
  · simp [hphase]
  · simp [Phase.deaf]
  · simp [answered]

theorem Step.moves (hstep : Step parse call world after) :
    Moves parse call world after := by
  cases hstep with
  | refuse hphase hfault =>
      exact moves_move (by rw [hphase]; rfl) (by simp [answered])
  | check hphase hfault => exact moves_move (by rw [hphase]; rfl) (by simp)
  | draw hphase => exact moves_draw hphase
  | register hphase hid => exact moves_register hphase hid
  | write hphase hid hopen =>
      exact .of_move rfl rfl (fun _ => .inl rfl) rfl rfl (fun _ _ h => .inl h)
        (by simp [hphase]) (by simp [hphase, Phase.deaf]) (by simp)
  | writeFails failure hphase hopen =>
      apply moves_move (by rw [hphase]; rfl)
      cases failure <;> simp [answered, WriteFailure.error]
  | writeClosed hphase hclosed =>
      exact moves_move (by rw [hphase]; rfl) (by simp [answered, stdinClosed])
  | receive hphase hslot =>
      apply moves_move (by rw [hphase]; rfl)
      intro result source hreturned
      obtain ⟨rfl, rfl⟩ := Phase.returned.inj hreturned
      exact .inr ⟨_, rfl, hslot, rfl⟩
  | receiveClosed hphase hslot hsender =>
      exact moves_move (by rw [hphase]; rfl) (by simp [answered])
  | elapse hphase =>
      apply moves_move
      · rcases hphase with hphase | hphase <;> rw [hphase] <;> rfl
      · simp
  | forget hphase hid => exact moves_forget hphase
  | drop hphase =>
      apply moves_move
      · rcases hphase with hphase | hphase <;> rw [hphase] <;> rfl
      · simp
  | closeStdin =>
      exact .of_reader rfl List.prefix_rfl rfl rfl (fun _ _ h => h) (fun _ _ _ h => h)
  | frame hreader hframe => exact moves_dispatch _ _
  | send hreader => exact moves_send hreader
  | failPending hreader =>
      exact .of_reader rfl List.prefix_rfl rfl rfl (by simp) (by simp)
  | _ => exact .of_reader rfl List.prefix_rfl rfl rfl (fun _ _ h => h) (by simp)

/-! ## Ids -/

/-- No id is drawn. -/
structure SameIds (world after : World P) : Prop where
  nextId : after.nextId = world.nextId
  id : after.id = world.id
  number : after.number = world.number
  issued : after.issued = world.issued
  unnumbered : ∀ request, (after.phase request).unnumbered = true →
    (world.phase request).unnumbered = true

/-- A call with an id goes on, or one without stays so. -/
theorem unnumbered_move {phase : Phase}
    (hphase : phase.unnumbered = true → (world.phase request).unnumbered = true)
    (other : P)
    (hother : (Function.update world.phase request phase other).unnumbered = true) :
    (world.phase other).unnumbered = true := by
  by_cases hsame : other = request
  · subst hsame
    rw [Function.update_self] at hother
    exact hphase hother
  · rwa [Function.update_of_ne hsame] at hother

omit [DecidableEq P] in
theorem sameIds_dispatch (decoder : FrameDecoder) (body : List UInt8) :
    SameIds world (world.dispatch parse decoder body) := by
  rcases dispatch_cases parse world decoder body with
    ⟨notifications, hdone⟩ | ⟨message, id, owner, _, _, _, _, htaken⟩
  · rw [hdone]
    exact ⟨rfl, rfl, rfl, rfl, fun _ h => h⟩
  · rw [htaken]
    exact ⟨rfl, rfl, rfl, rfl, fun _ h => h⟩

theorem sameIds_send (owner : P) (delivery : Delivery) (reader : ReaderPhase P) :
    SameIds world { world.send owner delivery with reader := reader } := by
  by_cases hdeaf : (world.phase owner).deaf = true
  · rw [send, if_pos hdeaf]
    exact ⟨rfl, rfl, rfl, rfl, fun _ h => h⟩
  · rw [send, if_neg hdeaf]
    exact ⟨rfl, rfl, rfl, rfl, fun _ h => h⟩

/-- A step draws an id for a call that has none, or draws none. -/
theorem Step.ids (hstep : Step parse call world after) :
    SameIds world after ∨
      ∃ request, world.phase request = .checked ∧ after = world.draw request := by
  cases hstep with
  | draw hphase => exact .inr ⟨_, hphase, rfl⟩
  | check hphase hfault =>
      left
      exact ⟨rfl, rfl, rfl, rfl, unnumbered_move fun _ => by rw [hphase]; rfl⟩
  | refuse | register | write | writeFails | writeClosed | receive | receiveClosed
  | elapse | forget | drop =>
      left
      exact ⟨rfl, rfl, rfl, rfl, unnumbered_move (by simp [Phase.unnumbered])⟩
  | frame hreader hframe => exact .inl (sameIds_dispatch _ _)
  | send hreader => exact .inl (sameIds_send _ _ _)
  | closeStdin | read | readEnds | noFrame | badFrame | setFault | kill
  | failPending =>
      left
      exact ⟨rfl, rfl, rfl, rfl, fun _ h => h⟩

/-- The ids handed out are the counter's values in turn. -/
structure Numbered (world : World P) : Prop where
  nextId : world.nextId = Int64.ofNat (world.issued + 1)
  id : ∀ request, world.id request =
    (world.number request).map fun number => Int64.ofNat (number + 1)
  issued : ∀ request number, world.number request = some number →
    number < world.issued
  unique : ∀ first second number, world.number first = some number →
    world.number second = some number → first = second
  unnumbered : ∀ request, (world.phase request).unnumbered = true →
    world.number request = none

omit [DecidableEq P] in
theorem numbered_spawned : (spawned : World P).Numbered where
  nextId := rfl
  id := fun _ => rfl
  issued := by simp [spawned]
  unique := by simp [spawned]
  unnumbered := fun _ _ => rfl

omit [DecidableEq P] in
theorem Numbered.of_sameIds (hnumbered : world.Numbered)
    (hsame : SameIds world after) : after.Numbered where
  nextId := by rw [hsame.nextId, hsame.issued, hnumbered.nextId]
  id := by
    intro request
    rw [hsame.id, hsame.number, hnumbered.id]
  issued := by
    rw [hsame.number, hsame.issued]
    exact hnumbered.issued
  unique := by
    rw [hsame.number]
    exact hnumbered.unique
  unnumbered := by
    intro request hrequest
    rw [hsame.number]
    exact hnumbered.unnumbered request (hsame.unnumbered request hrequest)

theorem draw_number_of_ne {other : P} (hother : other ≠ request) :
    (world.draw request).number other = world.number other :=
  Function.update_of_ne hother _ _

theorem draw_number_self : (world.draw request).number request = some world.issued :=
  Function.update_self _ _ _

theorem Numbered.draw (hnumbered : world.Numbered) (request : P) :
    (world.draw request).Numbered where
  nextId := by
    change world.nextId + 1 = Int64.ofNat (world.issued + 1 + 1)
    rw [Int64.ofNat_add (world.issued + 1) 1, hnumbered.nextId]
    rfl
  id := by
    intro other
    by_cases hsame : other = request
    · rw [hsame, draw_number_self]
      change Function.update world.id request (some world.nextId) request = _
      rw [Function.update_self, hnumbered.nextId]
      rfl
    · rw [draw_number_of_ne hsame, ← hnumbered.id]
      exact Function.update_of_ne hsame _ _
  issued := by
    intro other number hnumber
    change number < world.issued + 1
    by_cases hsame : other = request
    · rw [hsame, draw_number_self, Option.some.injEq] at hnumber
      omega
    · rw [draw_number_of_ne hsame] at hnumber
      have := hnumbered.issued other number hnumber
      omega
  unique := by
    -- an older number is below the counter
    intro first second number hfirst hsecond
    by_cases hone : first = request <;> by_cases htwo : second = request
    · rw [hone, htwo]
    · rw [hone, draw_number_self, Option.some.injEq] at hfirst
      rw [draw_number_of_ne htwo] at hsecond
      exact absurd (hnumbered.issued second number hsecond) (by omega)
    · rw [htwo, draw_number_self, Option.some.injEq] at hsecond
      rw [draw_number_of_ne hone] at hfirst
      exact absurd (hnumbered.issued first number hfirst) (by omega)
    · rw [draw_number_of_ne hone] at hfirst
      rw [draw_number_of_ne htwo] at hsecond
      exact hnumbered.unique first second number hfirst hsecond
  unnumbered := by
    intro other hother
    change (Function.update world.phase request .numbered other).unnumbered = true
      at hother
    by_cases hsame : other = request
    · rw [hsame, Function.update_self] at hother
      exact absurd hother (by simp [Phase.unnumbered])
    · rw [Function.update_of_ne hsame] at hother
      rw [draw_number_of_ne hsame]
      exact hnumbered.unnumbered other hother

theorem Numbered.step (hnumbered : world.Numbered)
    (hstep : Step parse call world after) : after.Numbered := by
  rcases hstep.ids with hsame | ⟨request, _, hdraw⟩
  · exact hnumbered.of_sameIds hsame
  · rw [hdraw]
    exact hnumbered.draw request

omit [DecidableEq P] in
theorem Numbered.id_of_unnumbered (hnumbered : world.Numbered)
    (hrequest : (world.phase request).unnumbered = true) :
    world.id request = none := by
  rw [hnumbered.id, hnumbered.unnumbered request hrequest]
  rfl

theorem ofNat_eq_mod {first second : ℕ}
    (hequal : Int64.ofNat first = Int64.ofNat second) :
    first % 2 ^ 64 = second % 2 ^ 64 := by
  have hbits := congrArg (fun id : Int64 => id.toBitVec.toNat) hequal
  simpa using hbits

omit [DecidableEq P] in
/-- The number behind an id. -/
theorem Numbered.number_of_id (hnumbered : world.Numbered) {id : Int64}
    (hid : world.id request = some id) :
    ∃ number, world.number request = some number ∧ number < world.issued ∧
      Int64.ofNat (number + 1) = id := by
  rw [hnumbered.id, Option.map_eq_some_iff] at hid
  obtain ⟨number, hnumber, hcount⟩ := hid
  exact ⟨number, hnumber, hnumbered.issued request number hnumber, hcount⟩

omit [DecidableEq P] in
/-- Two calls with one id are a whole turn of the counter apart. -/
theorem Numbered.turn_apart (hnumbered : world.Numbered) {first second : P}
    {id : Int64} (hne : first ≠ second) (hfirst : world.id first = some id)
    (hsecond : world.id second = some id) :
    2 ^ 64 < world.issued ∧ ∃ left right, world.number first = some left ∧
      world.number second = some right ∧
      (left + 2 ^ 64 ≤ right ∨ right + 2 ^ 64 ≤ left) := by
  obtain ⟨left, hleft, hleftIssued, hleftId⟩ := hnumbered.number_of_id hfirst
  obtain ⟨right, hright, hrightIssued, hrightId⟩ := hnumbered.number_of_id hsecond
  have hmod : (left + 1) % 2 ^ 64 = (right + 1) % 2 ^ 64 :=
    ofNat_eq_mod (hleftId.trans hrightId.symm)
  have hdistinct : left ≠ right := by
    intro hsame
    exact hne (hnumbered.unique first second left hleft (hsame ▸ hright))
  have hapart : left + 2 ^ 64 ≤ right ∨ right + 2 ^ 64 ≤ left := by omega
  exact ⟨by omega, left, right, hleft, hright, hapart⟩

/-! ## Responses -/

/-- A delivery to a call came from a body that was dispatched and carries the
call's id. -/
def Own (parse : List UInt8 → Option Json) (world : World P) (request : P)
    (delivery : Delivery) : Prop :=
  ∃ body id, world.dispatched[delivery.arrival]? = some body ∧
    parse body = some delivery.message ∧ messageMethod delivery.message = none ∧
    messageId delivery.message = some id ∧ world.id request = some id

/-- Senders lie under their calls' ids, and whatever is on its way to a call, in
its channel or returned by it is its own. -/
structure Inv (parse : List UInt8 → Option Json) (call : P → Call)
    (world : World P) : Prop where
  numbered : world.Numbered
  pending : ∀ id request, world.pending id = some request → world.id request = some id
  sending : ∀ decoder owner delivery, world.reader = .sending decoder owner delivery →
    world.Own parse owner delivery
  slot : ∀ request delivery, world.slot request = some delivery →
    world.Own parse request delivery
  returned : ∀ request result delivery,
    world.phase request = .returned result (some delivery) →
      world.Own parse request delivery ∧
        result = (call request).received (responseOutcome delivery.message)
  unanswered : ∀ request result, world.phase request = .returned result none →
    answered result = false

omit [DecidableEq P] in
theorem inv_spawned (world : World P) (hspawned : world = spawned) :
    world.Inv parse call := by
  subst hspawned
  exact ⟨numbered_spawned, by simp [spawned], by simp [spawned], by simp [spawned],
    by simp [spawned], by simp [spawned]⟩

omit [DecidableEq P] in
theorem Moves.id_kept (hmoves : Moves parse call world after)
    (hnumbered : world.Numbered) {id : Int64} (hid : world.id request = some id) :
    after.id request = some id := by
  rcases hmoves.id request with hsame | hunnumbered
  · rw [hsame, hid]
  · rw [hnumbered.id_of_unnumbered hunnumbered] at hid
    exact absurd hid (by simp)

omit [DecidableEq P] in
theorem Moves.own_kept (hmoves : Moves parse call world after)
    (hnumbered : world.Numbered) {delivery : Delivery}
    (hown : world.Own parse request delivery) : after.Own parse request delivery := by
  obtain ⟨body, id, hbody, hparse, hmethod, hmessage, hid⟩ := hown
  refine ⟨body, id, ?_, hparse, hmethod, hmessage, hmoves.id_kept hnumbered hid⟩
  obtain ⟨more, hmore⟩ := hmoves.dispatched
  have hlt : delivery.arrival < world.dispatched.length :=
    (List.getElem?_eq_some_iff.1 hbody).1
  rw [← hmore, List.getElem?_append_left hlt, hbody]

theorem inv_step (world after : World P) (hinv : world.Inv parse call)
    (hstep : Step parse call world after) : after.Inv parse call := by
  have hmoves := hstep.moves
  have hkept : ∀ request delivery, world.Own parse request delivery →
      after.Own parse request delivery :=
    fun _ _ => hmoves.own_kept hinv.numbered
  refine ⟨hinv.numbered.step hstep, ?_, ?_, ?_, ?_, ?_⟩
  · intro id request hpending
    apply hmoves.id_kept hinv.numbered
    rcases hmoves.pending id request hpending with hold | hid
    · exact hinv.pending id request hold
    · exact hid
  · intro decoder owner delivery hsending
    rcases hmoves.sending decoder owner delivery hsending with
      hold | ⟨body, id, harrival, hdispatched, hparse, hmethod, hmessage, howner⟩
    · exact hkept owner delivery (hinv.sending decoder owner delivery hold)
    · -- the sender lay under the id the message carries
      have hid := hmoves.id_kept hinv.numbered (hinv.pending id owner howner)
      refine ⟨body, id, ?_, hparse, hmethod, hmessage, hid⟩
      rw [harrival, hdispatched]
      simp
  · intro request delivery hslot
    rcases hmoves.slot request delivery hslot with hold | ⟨_, decoder, hsending⟩
    · exact hkept request delivery (hinv.slot request delivery hold)
    · exact hkept request delivery (hinv.sending decoder request delivery hsending)
  · intro request result delivery hreturned
    rcases hmoves.returned request result (some delivery) hreturned with
      hold | ⟨hnone, _⟩ | ⟨received, hsource, hslot, hresult⟩
    · obtain ⟨hown, hresult⟩ := hinv.returned request result delivery hold
      exact ⟨hkept request delivery hown, hresult⟩
    · exact absurd hnone (by simp)
    · rw [← Option.some.inj hsource] at hslot hresult
      exact ⟨hkept request delivery (hinv.slot request delivery hslot), hresult⟩
  · intro request result hreturned
    rcases hmoves.returned request result none hreturned with
      hold | ⟨_, hunanswered⟩ | ⟨received, hsource, _⟩
    · exact hinv.unanswered request result hold
    · exact hunanswered
    · exact absurd hsource (by simp)

theorem inv_run (hrun : Run parse call world) : world.Inv parse call :=
  hrun.invariant inv_spawned inv_step

/-- A result stays what it is for the rest of the run. -/
theorem returned_kept {later : World P}
    (hsteps : Relation.ReflTransGen (Step parse call) world later)
    {result : Except LspError Json} {source : Option Delivery}
    (hreturned : world.phase request = .returned result source) :
    later.phase request = .returned result source := by
  induction hsteps with
  | refl => exact hreturned
  | tail _ hstep ih => exact hstep.moves.kept request result source ih

/-! ## Late responses -/

/-- The body numbered `arrival` got to nobody: at most it is on its way to a call
whose receiver is gone. -/
structure Lost (arrival : ℕ) (request : P) (world : World P) : Prop where
  deaf : (world.phase request).deaf = true
  arrived : arrival < world.dispatched.length
  sending : ∀ decoder owner delivery, world.reader = .sending decoder owner delivery →
    delivery.arrival = arrival → owner = request
  slot : ∀ other delivery, world.slot other = some delivery →
    delivery.arrival ≠ arrival
  returned : ∀ other result delivery,
    world.phase other = .returned result (some delivery) → delivery.arrival ≠ arrival

omit [DecidableEq P] in
theorem Lost.not_gets {arrival : ℕ} (hlost : Lost arrival request world) (other : P) :
    ¬world.Gets other arrival := by
  rintro (⟨delivery, hslot, harrival⟩ | ⟨result, delivery, hreturned, harrival⟩)
  · exact hlost.slot other delivery hslot harrival
  · exact hlost.returned other result delivery hreturned harrival

omit [DecidableEq P] in
theorem Lost.moves {arrival : ℕ} (hlost : Lost arrival request world)
    (hmoves : Moves parse call world after) : Lost arrival request after where
  deaf := hmoves.deaf request hlost.deaf
  arrived := lt_of_lt_of_le hlost.arrived hmoves.dispatched.length_le
  sending := by
    intro decoder owner delivery hsending harrival
    rcases hmoves.sending decoder owner delivery hsending with hold | ⟨_, _, hnew, _⟩
    · exact hlost.sending decoder owner delivery hold harrival
    · exact absurd hlost.arrived (by omega)
  slot := by
    intro other delivery hslot harrival
    rcases hmoves.slot other delivery hslot with hold | ⟨hlistens, decoder, hsending⟩
    · exact hlost.slot other delivery hold harrival
    · have hother := hlost.sending decoder other delivery hsending harrival
      rw [hother, hlost.deaf] at hlistens
      exact absurd hlistens (by simp)
  returned := by
    intro other result delivery hreturned harrival
    rcases hmoves.returned other result (some delivery) hreturned with
      hold | ⟨hnone, _⟩ | ⟨received, hsource, hslot, _⟩
    · exact hlost.returned other result delivery hold harrival
    · exact absurd hnone (by simp)
    · rw [← Option.some.inj hsource] at hslot
      exact hlost.slot other delivery hslot harrival

theorem Lost.run {arrival : ℕ} {later : World P} (hlost : Lost arrival request world)
    (hsteps : Relation.ReflTransGen (Step parse call) world later) :
    Lost arrival request later := by
  induction hsteps with
  | refl => exact hlost
  | tail _ hstep ih => exact ih.moves hstep.moves

omit [DecidableEq P] in
theorem TimedOut.deaf (htimed : TimedOut call world request) :
    (world.phase request).deaf = true := by
  rcases htimed with helapsed | hreturned
  · rw [helapsed]
    rfl
  · rw [hreturned]
    rfl

omit [DecidableEq P] in
theorem Own.arrival_lt {delivery : Delivery}
    (hown : world.Own parse request delivery) :
    delivery.arrival < world.dispatched.length := by
  obtain ⟨body, _, hbody, _⟩ := hown
  exact (List.getElem?_eq_some_iff.1 hbody).1

omit [DecidableEq P] in
/-- A response with the id of a call that has timed out is lost at once. -/
theorem lost_of_arrives (hinv : world.Inv parse call) {message : Json} {id : Int64}
    (htimed : TimedOut call world request) (hmessage : messageId message = some id)
    (halone : ∀ other, world.id other = some id → other = request)
    (harrives : Arrives parse message world after) :
    Lost world.dispatched.length request after := by
  obtain ⟨decoder, rest, body, hreader, hframe, hparse, rfl⟩ := harrives
  -- the number is new, so nothing delivered so far has it
  have hslots : ∀ other delivery, world.slot other = some delivery →
      delivery.arrival ≠ world.dispatched.length :=
    fun other delivery hslot => (hinv.slot other delivery hslot).arrival_lt.ne
  have hresults : ∀ other result delivery,
      world.phase other = .returned result (some delivery) →
        delivery.arrival ≠ world.dispatched.length :=
    fun other result delivery hreturned =>
      (hinv.returned other result delivery hreturned).1.arrival_lt.ne
  rcases dispatch_cases parse world rest body with
    ⟨notifications, hdone⟩ | ⟨taken, key, owner, htaken, _, hkey, howner, hsent⟩
  · rw [hdone]
    exact ⟨htimed.deaf, by simp, by simp, hslots, hresults⟩
  · have hsame : taken = message := Option.some.inj (htaken.symm.trans hparse)
    have hkeyed : key = id := by
      rw [hsame, hmessage] at hkey
      exact (Option.some.inj hkey).symm
    have howned : owner = request :=
      halone owner (hkeyed ▸ hinv.pending key owner howner)
    rw [hsent]
    refine ⟨htimed.deaf, by simp, ?_, hslots, hresults⟩
    intro other taker delivery hsending _
    obtain ⟨_, htaker, _⟩ := ReaderPhase.sending.inj hsending
    rw [← htaker, howned]

/-- In every run of a client a call has at most one result, the engine's result
came from a dispatched body with the call's own id, two calls with one id are
`2 ^ 64` calls apart, and a response that comes after its call timed out gets to
nobody unless another call has its id by then. -/
theorem request_response_safe (hrun : Run parse call world) :
    (∀ later, Relation.ReflTransGen (Step parse call) world later →
      ∀ request result source, world.phase request = .returned result source →
        later.phase request = .returned result source) ∧
    (∀ request result source, world.phase request = .returned result source →
      answered result = true → ∃ delivery, source = some delivery ∧
        world.Own parse request delivery ∧
        result = (call request).received (responseOutcome delivery.message)) ∧
    (∀ first second id, first ≠ second →
      world.id first = some id → world.id second = some id →
      2 ^ 64 < world.issued ∧ ∃ left right, world.number first = some left ∧
        world.number second = some right ∧
        (left + 2 ^ 64 ≤ right ∨ right + 2 ^ 64 ≤ left)) ∧
    (∀ request id message after later, TimedOut call world request →
      world.id request = some id → messageId message = some id →
      (∀ other, world.id other = some id → other = request) →
      Arrives parse message world after →
      Relation.ReflTransGen (Step parse call) after later →
        ∀ other, ¬later.Gets other world.dispatched.length) := by
  have hinv := inv_run hrun
  refine ⟨?_, ?_, ?_, ?_⟩
  · intro later hsteps request result source hreturned
    exact returned_kept hsteps hreturned
  · intro request result source hreturned hanswered
    cases source with
    | none =>
        rw [hinv.unanswered request result hreturned] at hanswered
        exact absurd hanswered (by simp)
    | some delivery =>
        exact ⟨delivery, rfl, hinv.returned request result delivery hreturned⟩
  · intro first second id hne hfirst hsecond
    exact hinv.numbered.turn_apart hne hfirst hsecond
  · intro request id message after later htimed hid hmessage halone harrives hsteps
    exact ((lost_of_arrives hinv htimed hmessage halone harrives).run hsteps).not_gets

/-- A call the engine never answers, from its start to its timeout. -/
def timeOut (call : P → Call) (world : World P) (request : P) : World P :=
  let numbered := (world.move request .checked).draw request
  let writing :=
    (numbered.setPending world.nextId (some request)).move request .writing
  ((writing.move request .elapsed).setPending world.nextId none).move request
    (.returned (.error (.timeout (call request).method (call request).bound)) none)

theorem steps_timeOut (hidle : world.phase request = .idle)
    (hfault : world.fault = none) :
    Relation.ReflTransGen (Step parse call) world (timeOut call world request) := by
  have hphase : ∀ (state : World P) phase,
      (state.move request phase).phase request = phase :=
    fun _ _ => Function.update_self _ _ _
  have hid : ((world.move request .checked).draw request).id request =
      some world.nextId := Function.update_self _ _ _
  refine .tail (.tail (.tail (.tail (.single (.check hidle hfault)) (.draw ?_))
    (.register ?_ hid)) (.elapse (.inl ?_))) (.forget ?_ hid)
  · exact hphase _ _
  · exact hphase _ _
  · exact hphase _ _
  · exact hphase _ _

theorem timeOut_phase_of_ne {other : P} (hother : other ≠ request) :
    (timeOut call world request).phase other = world.phase other := by
  simp [timeOut, draw, setPending, move, Function.update_of_ne hother]

end Steps

/-! ## A response after the timeout -/

namespace LateResponse

def body : List UInt8 := utf8 "\x7b\"id\":1,\"result\":null\x7d"

def message : Json := .obj [("id", .number "1"), ("result", .null)]

def parse (bytes : List UInt8) : Option Json :=
  if bytes = body then some message else none

def call (_ : Bool) : Call := ⟨"textDocument/references", .null, 10⟩

/-- The first call has timed out, and its response is in the decoder. -/
def timedOut : World Bool :=
  { timeOut call spawned true with reader := .draining ⟨encode body⟩ }

theorem run_timedOut : Run parse call timedOut := by
  have hsteps : Relation.ReflTransGen (Step parse call) spawned
      (timeOut call spawned true) := steps_timeOut rfl rfl
  have hread : Step parse call (timeOut call spawned true) timedOut :=
    @Step.read Bool _ parse call (timeOut call spawned true) .fresh (encode body) rfl
      (by decide)
  exact ⟨spawned, rfl, hsteps.tail hread⟩

theorem nobody_gets_late_response : ∃ after, Arrives parse message timedOut after ∧
    ∀ later, Relation.ReflTransGen (Step parse call) after later →
      ∀ other, ¬later.Gets other 0 := by
  have hframe : FrameDecoder.nextFrame ⟨encode body⟩ = (.ok (some body), ⟨[]⟩) := by
    have hlength : body.length ≤ maxContentLength := by decide
    simpa using nextFrame_encode hlength []
  have harrives : Arrives parse message timedOut
      (timedOut.dispatch parse ⟨[]⟩ body) :=
    ⟨⟨encode body⟩, ⟨[]⟩, body, rfl, hframe, if_pos rfl, rfl⟩
  refine ⟨_, harrives, ?_⟩
  intro later hsteps
  refine (request_response_safe run_timedOut).2.2.2 true 1 message _ later
    (.inr rfl) rfl ?_ ?_ harrives hsteps
  · decide
  · intro other hother
    cases other with
    | true => rfl
    | false => exact absurd hother (by decide)

end LateResponse

/-! ## A whole turn of the counter -/

namespace SilentEngine

def parse (_ : List UInt8) : Option Json := none

def call (_ : ℕ) : Call := ⟨"textDocument/references", .null, 10⟩

/-- Any number of calls can time out one after the other. -/
theorem run_timeOuts (calls : ℕ) :
    ∃ world, Run parse call world ∧ world.fault = none ∧ world.issued = calls ∧
      (∀ request < calls, world.number request = some request) ∧
      ∀ request, calls ≤ request → world.phase request = .idle := by
  induction calls with
  | zero => exact ⟨spawned, .start rfl, rfl, rfl, by simp, fun _ _ => rfl⟩
  | succ calls ih =>
      obtain ⟨world, ⟨start, hstart, hsteps⟩, hfault, hissued, hnumber, hidle⟩ := ih
      have hnext : Relation.ReflTransGen (Step parse call) world
          (timeOut call world calls) := steps_timeOut (hidle calls le_rfl) hfault
      refine ⟨timeOut call world calls, ⟨start, hstart, hsteps.trans hnext⟩, hfault,
        congrArg (· + 1) hissued, ?_, ?_⟩
      · intro request hrequest
        change Function.update world.number calls (some world.issued) request = _
        by_cases hsame : request = calls
        · rw [hsame, Function.update_self, hissued]
        · rw [Function.update_of_ne hsame]
          exact hnumber request (by omega)
      · intro request hrequest
        rw [timeOut_phase_of_ne (by omega)]
        exact hidle request (by omega)

theorem ids_come_back : ¬∀ world : World ℕ, Run parse call world →
    ∀ first second id, world.id first = some id → world.id second = some id →
      first = second := by
  intro hunique
  obtain ⟨world, hrun, _, _, hnumber, _⟩ := run_timeOuts (2 ^ 64 + 1)
  have hnumbered := (inv_run hrun).numbered
  have hfirst : world.id 0 = some 1 := by
    rw [hnumbered.id, hnumber 0 (by omega)]
    rfl
  have hagain : world.id (2 ^ 64) = some 1 := by
    rw [hnumbered.id, hnumber (2 ^ 64) (by omega)]
    exact congrArg some (by decide)
  exact absurd (hunique world hrun 0 (2 ^ 64) 1 hfirst hagain) (by omega)

end SilentEngine

end World

end Ktsense.Lsp
