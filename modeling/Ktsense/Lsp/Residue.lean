import Ktsense.Lsp.Client

/-!
# What calls leave in the map

`request_within` puts a sender into the map before it writes, and has three ways
to take it out again: the reader takes it for a response, the timeout removes it,
and the end of the stream clears the map.  A write that fails has none.
-/

namespace Ktsense.Lsp

open Ktsense.Foundation

namespace Phase

/-- The sender has been put into the map. -/
def registered : Phase → Bool
  | idle => false
  | checked => false
  | numbered => false
  | _ => true

/-- The call may still have a sender in the map. -/
def enlisted : Phase → Bool
  | writing => true
  | waiting => true
  | elapsed => true
  | dropped => true
  | _ => false

theorem registered_of_enlisted {phase : Phase} (henlisted : phase.enlisted = true) :
    phase.registered = true := by
  cases phase <;> simp_all [registered, enlisted]

end Phase

namespace World

variable {P : Type*} [DecidableEq P]

/-- No call that has returned left anything in the map: not its sender, and not
its id while the counter has not come round; with no call under way the map is
empty. -/
structure NoResidue (world : World P) : Prop where
  sender : ∀ request result source, world.phase request = .returned result source →
    ∀ id, world.pending id ≠ some request
  key : world.issued ≤ 2 ^ 64 →
    ∀ request result source, world.phase request = .returned result source →
      ∀ id, world.id request = some id → world.pending id = none
  quiescent : (∀ request, world.phase request = .idle ∨
      ∃ result source, world.phase request = .returned result source) →
    ∀ id, world.pending id = none

/-- No write fails while its call's sender is in the map. -/
def WritesTidily (world after : World P) : Prop :=
  ∀ request result source, world.phase request = .writing →
    after.phase request = .returned result source →
      ∀ id, world.pending id ≠ some request

/-- The sender of a call has left the map for good. -/
def Taken (world : World P) (request : P) : Prop :=
  (∃ delivery, world.slot request = some delivery) ∨
    ∃ decoder delivery, world.reader = .sending decoder request delivery

/-- Only calls under way have senders in the map, and a sender that was taken is
in it no more. -/
structure Listed (world : World P) : Prop where
  pending : ∀ id request, world.pending id = some request →
    (world.phase request).enlisted = true
  taken : ∀ request, world.Taken request →
    (world.phase request).registered = true ∧
      ∀ id, world.pending id ≠ some request

section Steps

variable {parse : List UInt8 → Option Json} {call : P → Call}
variable {world after : World P} {request : P}

omit [DecidableEq P] in
theorem listed_spawned : (spawned : World P).Listed where
  pending := by simp [spawned]
  taken := by simp [spawned, Taken]

/-- A call goes on, with no sender put into the map. -/
theorem Listed.of_move (hlisted : world.Listed) {phase : Phase}
    (hphase : after.phase = Function.update world.phase request phase)
    (hpending : ∀ id other, after.pending id = some other →
      world.pending id = some other)
    (hslot : after.slot = world.slot) (hreader : after.reader = world.reader)
    (hregistered : (world.phase request).registered = true → phase.registered = true)
    (hlisting : ∀ id, after.pending id = some request → phase.enlisted = true) :
    after.Listed where
  pending := by
    intro id other hother
    rw [hphase]
    by_cases hsame : other = request
    · rw [hsame, Function.update_self]
      exact hlisting id (hsame ▸ hother)
    · rw [Function.update_of_ne hsame]
      exact hlisted.pending id other (hpending id other hother)
  taken := by
    intro other htaken
    have hbefore : world.Taken other := by
      rw [Taken, ← hslot, ← hreader]
      exact htaken
    have hlast := hlisted.taken other hbefore
    refine ⟨?_, fun id hother => hlast.2 id (hpending id other hother)⟩
    rw [hphase]
    by_cases hsame : other = request
    · rw [hsame, Function.update_self]
      exact hregistered (hsame ▸ hlast.1)
    · rw [Function.update_of_ne hsame]
      exact hlast.1

omit [DecidableEq P] in
/-- The reader goes on, and takes no sender. -/
theorem Listed.of_reader (hlisted : world.Listed) (hphase : after.phase = world.phase)
    (hpending : ∀ id other, after.pending id = some other →
      world.pending id = some other)
    (htaken : ∀ other, after.Taken other → world.Taken other) : after.Listed where
  pending := by
    intro id other hother
    rw [hphase]
    exact hlisted.pending id other (hpending id other hother)
  taken := by
    intro other hother
    have hlast := hlisted.taken other (htaken other hother)
    rw [hphase]
    exact ⟨hlast.1, fun id hthere => hlast.2 id (hpending id other hthere)⟩

theorem Listed.register (hlisted : world.Listed) {id : Int64}
    (hphase : world.phase request = .numbered) :
    ((world.setPending id (some request)).move request .writing).Listed := by
  -- a call that has just drawn its id has nothing of its own taken yet
  have hfresh : ¬world.Taken request := by
    intro htaken
    have hregistered := (hlisted.taken request htaken).1
    rw [hphase] at hregistered
    exact absurd hregistered (by decide)
  have hentry : ∀ key other,
      Function.update world.pending id (some request) key = some other →
        other = request ∨ world.pending key = some other := by
    intro key other hother
    by_cases hsame : key = id
    · rw [hsame, Function.update_self, Option.some.injEq] at hother
      exact .inl hother.symm
    · rw [Function.update_of_ne hsame] at hother
      exact .inr hother
  constructor
  · intro key other hother
    change (Function.update world.phase request .writing other).enlisted = true
    by_cases hsame : other = request
    · rw [hsame, Function.update_self]
      rfl
    · rw [Function.update_of_ne hsame]
      exact hlisted.pending key other ((hentry key other hother).resolve_left hsame)
  · intro other htaken
    have hsame : other ≠ request := by
      intro hsame
      exact hfresh (hsame ▸ htaken)
    have hlast := hlisted.taken other htaken
    refine ⟨?_, fun key hother =>
      hlast.2 key ((hentry key other hother).resolve_left hsame)⟩
    change (Function.update world.phase request .writing other).registered = true
    rw [Function.update_of_ne hsame]
    exact hlast.1

omit [DecidableEq P] in
/-- A reader that holds no sender took none. -/
theorem Taken.of_held {other : P} (hslot : after.slot = world.slot)
    (hreader : ∀ decoder owner delivery,
      after.reader = .sending decoder owner delivery →
        world.reader = .sending decoder owner delivery)
    (htaken : after.Taken other) : world.Taken other := by
  rcases htaken with ⟨delivery, hother⟩ | ⟨decoder, delivery, hother⟩
  · exact .inl ⟨delivery, hslot ▸ hother⟩
  · exact .inr ⟨decoder, delivery, hreader decoder other delivery hother⟩

omit [DecidableEq P] in
theorem Listed.dispatch (hlisted : world.Listed)
    (hids : ∀ id request, world.pending id = some request →
      world.id request = some id)
    (decoder : FrameDecoder) (body : List UInt8) :
    (world.dispatch parse decoder body).Listed := by
  rcases dispatch_cases parse world decoder body with
    ⟨notifications, hdone⟩ | ⟨message, id, owner, _, _, _, howner, htaken⟩
  · rw [hdone]
    exact hlisted.of_reader rfl (fun _ _ h => h) fun other =>
      Taken.of_held rfl (by simp)
  · rw [htaken]
    constructor
    · intro key other hother
      exact hlisted.pending key other (setPending_none hother)
    · rintro other (⟨delivery, hslot⟩ | ⟨_, delivery, hsending⟩)
      · have hlast := hlisted.taken other (.inl ⟨delivery, hslot⟩)
        exact ⟨hlast.1, fun key hother => hlast.2 key (setPending_none hother)⟩
      · obtain ⟨_, rfl, _⟩ := ReaderPhase.sending.inj hsending
        have henlisted := hlisted.pending id owner howner
        refine ⟨Phase.registered_of_enlisted henlisted, fun key hother => ?_⟩
        -- its one sender lay under its id, and is gone
        have hkey : key = id := by
          have hlast := hids key owner (setPending_none hother)
          rw [hids id owner howner, Option.some.injEq] at hlast
          exact hlast.symm
        rw [hkey] at hother
        exact absurd hother (by simp [setPending])

theorem Listed.send (hlisted : world.Listed) {decoder : FrameDecoder} {owner : P}
    {delivery : Delivery} (hreader : world.reader = .sending decoder owner delivery) :
    ({ world.send owner delivery with reader := .draining decoder } :
      World P).Listed := by
  by_cases hdeaf : (world.phase owner).deaf = true
  · rw [World.send, if_pos hdeaf]
    exact hlisted.of_reader rfl (fun _ _ h => h) fun other =>
      Taken.of_held rfl (by simp)
  · rw [World.send, if_neg hdeaf]
    refine hlisted.of_reader rfl (fun _ _ h => h) ?_
    rintro other (⟨received, hslot⟩ | ⟨_, _, hsending⟩)
    · by_cases hsame : other = owner
      · exact hsame ▸ .inr ⟨decoder, delivery, hreader⟩
      · change Function.update world.slot owner (some delivery) other = _ at hslot
        rw [Function.update_of_ne hsame] at hslot
        exact .inl ⟨received, hslot⟩
    · exact absurd hsending (by simp)

theorem Listed.step (hlisted : world.Listed)
    (hids : ∀ id request, world.pending id = some request →
      world.id request = some id)
    (hstep : Step parse call world after) (htidy : WritesTidily world after) :
    after.Listed := by
  -- a call without a sender in the map may go on in any way
  have hgone : ∀ (request : P) (phase : Phase), phase.registered = true →
      (∀ id, world.pending id ≠ some request) →
      (world.move request phase).Listed := fun request phase hregistered hnone =>
    hlisted.of_move rfl (fun _ _ h => h) rfl rfl (fun _ => hregistered)
      fun id hother => absurd hother (hnone id)
  -- and so may one that stays under way
  have hstays : ∀ (request : P) (phase : Phase), phase.enlisted = true →
      (world.move request phase).Listed := fun request phase henlisted =>
    hlisted.of_move rfl (fun _ _ h => h) rfl rfl
      (fun _ => Phase.registered_of_enlisted henlisted) fun _ _ => henlisted
  cases hstep with
  | @refuse request fault hphase hfault =>
      apply hgone request _ rfl
      intro id hother
      have hlast := hlisted.pending id request hother
      rw [hphase] at hlast
      exact absurd hlast (by decide)
  | @check request hphase hfault =>
      refine hlisted.of_move rfl (fun _ _ h => h) rfl rfl ?_ ?_
      · rw [hphase]
        decide
      · intro id hother
        have hlast := hlisted.pending id request hother
        rw [hphase] at hlast
        exact absurd hlast (by decide)
  | @draw request hphase =>
      refine hlisted.of_move rfl (fun _ _ h => h) rfl rfl ?_ ?_
      · rw [hphase]
        decide
      · intro id hother
        have hlast := hlisted.pending id request hother
        rw [hphase] at hlast
        exact absurd hlast (by decide)
  | register hphase hid => exact hlisted.register hphase
  | write hphase hid hopen =>
      exact hlisted.of_move rfl (fun _ _ h => h) rfl rfl (fun _ => rfl)
        (fun _ _ => rfl)
  | @writeFails request failure hphase hopen =>
      exact hgone request _ rfl
        (htidy request _ _ hphase (Function.update_self _ _ _))
  | @writeClosed request hphase hclosed =>
      exact hgone request _ rfl
        (htidy request _ _ hphase (Function.update_self _ _ _))
  | @receive request delivery hphase hslot =>
      exact hgone request _ rfl (hlisted.taken request (.inl ⟨delivery, hslot⟩)).2
  | @receiveClosed request hphase hslot hsender =>
      exact hgone request _ rfl fun id hother => hsender (.inl ⟨id, hother⟩)
  | elapse hphase => exact hstays _ _ rfl
  | @forget request id hphase hid =>
      refine hlisted.of_move rfl (fun _ _ h => setPending_none h) rfl rfl
        (fun _ => rfl) fun key hother => ?_
      have hkey : id = key := by
        have hlast := hids key request (setPending_none hother)
        rwa [hid, Option.some.injEq] at hlast
      rw [← hkey] at hother
      exact absurd hother (by simp [setPending, move])
  | drop hphase => exact hstays _ _ rfl
  | frame hreader hframe => exact hlisted.dispatch hids _ _
  | send hreader => exact hlisted.send hreader
  | failPending hreader =>
      exact hlisted.of_reader rfl (by simp) fun other => Taken.of_held rfl (by simp)
  | closeStdin =>
      exact hlisted.of_reader rfl (fun _ _ h => h) fun other =>
        Taken.of_held rfl fun _ _ _ h => h
  | _ =>
      exact hlisted.of_reader rfl (fun _ _ h => h) fun other =>
        Taken.of_held rfl (by simp)

omit [DecidableEq P] in
theorem Listed.noResidue (hlisted : world.Listed) (hinv : world.Inv parse call) :
    world.NoResidue := by
  have hsender : ∀ request result source,
      world.phase request = .returned result source →
        ∀ id, world.pending id ≠ some request := by
    intro request result source hreturned id hother
    have henlisted := hlisted.pending id request hother
    rw [hreturned] at henlisted
    exact absurd henlisted (by simp [Phase.enlisted])
  refine ⟨hsender, ?_, ?_⟩
  · intro hissued request result source hreturned id hid
    cases hother : world.pending id with
    | none => rfl
    | some owner =>
        -- the only call with this id is the one that returned
        have hsame : owner = request := by
          by_contra hne
          have hturn := hinv.numbered.turn_apart hne (hinv.pending id owner hother) hid
          exact absurd hturn.1 (by omega)
        exact absurd (hsame ▸ hother) (hsender request result source hreturned id)
  · intro hquiet id
    cases hother : world.pending id with
    | none => rfl
    | some owner =>
        have henlisted := hlisted.pending id owner hother
        rcases hquiet owner with hidle | ⟨result, source, hreturned⟩
        · rw [hidle] at henlisted
          exact absurd henlisted (by decide)
        · rw [hreturned] at henlisted
          exact absurd henlisted (by simp [Phase.enlisted])

theorem listed_of_tidy_writes
    (hreach : Reachable (· = spawned)
      (fun world after => Step parse call world after ∧ WritesTidily world after)
      world) :
    world.Inv parse call ∧ world.Listed := by
  obtain ⟨start, rfl, hsteps⟩ := hreach
  induction hsteps with
  | refl => exact ⟨inv_spawned _ rfl, listed_spawned⟩
  | tail _ hstep ih =>
      exact ⟨inv_step _ _ ih.1 hstep.1, ih.2.step ih.1.pending hstep.1 hstep.2⟩

/-- Only a failed write takes a call from its write to a result, and it leaves
the map as it was. -/
theorem Step.pending_of_failed_write (hstep : Step parse call world after)
    {result : Except LspError Json} {source : Option Delivery}
    (hwriting : world.phase request = .writing)
    (hreturned : after.phase request = .returned result source) :
    after.pending = world.pending := by
  have hmoved : after.phase request ≠ world.phase request := by
    rw [hwriting, hreturned]
    simp
  cases hstep with
  | @register other id hphase hid =>
      refine absurd ?_ hmoved
      by_cases hsame : request = other
      · rw [hsame, hphase] at hwriting
        exact absurd hwriting (by simp)
      · exact Function.update_of_ne hsame _ _
  | @forget other id hphase hid =>
      refine absurd ?_ hmoved
      by_cases hsame : request = other
      · rw [hsame, hphase] at hwriting
        exact absurd hwriting (by simp)
      · exact Function.update_of_ne hsame _ _
  | @frame decoder rest body hreader hframe =>
      refine absurd ?_ hmoved
      rcases dispatch_cases parse world rest body with
        ⟨_, hdone⟩ | ⟨_, _, _, _, _, _, _, htaken⟩
      · rw [hdone]
      · rw [htaken]
        rfl
  | failPending hreader => exact absurd rfl hmoved
  | @send decoder owner delivery hreader =>
      change (world.send owner delivery).pending = world.pending
      rw [World.send]
      split_ifs <;> rfl
  | _ => rfl

/-- No call leaves anything in the map in any state of a run whose writes never
fail with the call's sender in the map; a write that does leaves it there. -/
theorem no_residue_of_tidy_writes :
    (∀ world : World P, Reachable (· = spawned)
        (fun world after => Step parse call world after ∧ WritesTidily world after)
        world → world.NoResidue) ∧
    ∀ world after : World P, Step parse call world after → after.NoResidue →
      WritesTidily world after := by
  refine ⟨fun world hreach => ?_, ?_⟩
  · exact (listed_of_tidy_writes hreach).2.noResidue (listed_of_tidy_writes hreach).1
  · intro world after hstep hclean request result source hwriting hreturned id
    rw [← hstep.pending_of_failed_write hwriting hreturned]
    exact hclean.sender request result source hreturned id

end Steps

/-! ## A closed stdin -/

namespace ClosedStdin

def parse (_ : List UInt8) : Option Json := none

def call (_ : Unit) : Call := ⟨"shutdown", .null, 10⟩

/-- The call has put its sender into the map. -/
def registered (world : World Unit) : World Unit :=
  ((((world.move () .checked).draw ()).setPending 1 (some ())).move () .writing)

def closed : World Unit := { spawned with stdinOpen := false }

/-- The write has failed. -/
def failed : World Unit :=
  (registered closed).move () (.returned (.error stdinClosed) none)

theorem run_failed : Run parse call failed := by
  have hclose : Step parse call spawned closed := .closeStdin
  have hcheck : Step parse call closed (closed.move () .checked) := .check rfl rfl
  have hdraw := @Step.draw Unit _ parse call (closed.move () .checked) () rfl
  have hregister : Step parse call ((closed.move () .checked).draw ())
      (registered closed) := .register rfl rfl
  have hfail : Step parse call (registered closed) failed := .writeClosed rfl rfl
  exact ⟨spawned, rfl,
    ((((Relation.ReflTransGen.single hclose).tail hcheck).tail hdraw).tail
      hregister).tail hfail⟩

theorem sender_stays_after_failed_write :
    ¬∀ world : World Unit, Run parse call world → ∀ request result source,
      world.phase request = .returned result source →
        ∀ id, world.id request = some id → world.pending id = none := by
  intro hclean
  have hnone := hclean failed run_failed () (.error stdinClosed) none rfl 1 rfl
  exact absurd hnone (by simp [failed, registered, move, setPending])

/-- The timer elapses before the call writes. -/
def expired : World Unit := (registered spawned).move () .elapsed

/-- A call that is not at its write fails none. -/
theorem tidy_of_not_writing {world after : World Unit}
    (hphase : ∀ result source, world.phase () = .writing →
      after.phase () ≠ .returned result source) :
    WritesTidily world after :=
  fun _ result source hwriting hreturned =>
    absurd hreturned (hphase result source hwriting)

theorem timed_out_leaves_nothing : (timeOut call spawned ()).NoResidue := by
  have hcheck : Step parse call spawned (spawned.move () .checked) := .check rfl rfl
  have hdraw := @Step.draw Unit _ parse call (spawned.move () .checked) () rfl
  have hregister : Step parse call ((spawned.move () .checked).draw ())
      (registered spawned) := .register rfl rfl
  have helapse : Step parse call (registered spawned) expired := .elapse (.inl rfl)
  have hforget : Step parse call expired (timeOut call spawned ()) := .forget rfl rfl
  have hchecked : WritesTidily (spawned : World Unit) (spawned.move () .checked) :=
    tidy_of_not_writing fun _ _ hwriting => absurd hwriting (by simp [spawned])
  have hdrawn : WritesTidily (spawned.move () .checked)
      ((spawned.move () .checked).draw ()) :=
    tidy_of_not_writing fun _ _ hwriting => absurd hwriting (by simp [move])
  have hregistered : WritesTidily ((spawned.move () .checked).draw ())
      (registered spawned) :=
    tidy_of_not_writing fun _ _ hwriting => absurd hwriting (by simp [World.draw, move])
  have hexpired : WritesTidily (registered spawned) expired :=
    tidy_of_not_writing fun _ _ _ => by simp [expired, move]
  have hforgotten : WritesTidily expired (timeOut call spawned ()) :=
    tidy_of_not_writing fun _ _ hwriting =>
      absurd hwriting (by simp [expired, move])
  exact no_residue_of_tidy_writes.1 _ ⟨spawned, rfl,
    ((((Relation.ReflTransGen.single ⟨hcheck, hchecked⟩).tail ⟨hdraw, hdrawn⟩).tail
      ⟨hregister, hregistered⟩).tail ⟨helapse, hexpired⟩).tail
        ⟨hforget, hforgotten⟩⟩

end ClosedStdin

end World

end Ktsense.Lsp
