import Ktsense.Core.Trace
import Ktsense.Foundation.Transition
import Ktsense.Lsp.Client

/-!
# Waiting for a warm index

The daemon follows the progress notifications of its engine on a task of its own, and a
routed trace polls what that task has observed: first the phase, then whether the stream
has ended, and after that end the phase once more.  Notifications may arrive, and the task
may go on, between any two of these reads.
-/

namespace Ktsense.Cli.IndexWait

open Ktsense.Core
open Ktsense.Foundation
open Ktsense.Lsp

/-! ## Progress -/

inductive IndexPhase where
  | pending
  | indexing
  | ready
  deriving DecidableEq, Repr

inductive WorkDoneProgress where
  | begun
  | report
  | ended
  deriving DecidableEq, Repr

namespace IndexPhase

def isReady (phase : IndexPhase) : Bool := phase = .ready

def advance : WorkDoneProgress → IndexPhase
  | .begun => .indexing
  | .report => .indexing
  | .ended => .ready

/-- What is no well-formed progress leaves the phase; `progress` reads the parameters. -/
def observe (progress : Json → Option WorkDoneProgress) (phase : IndexPhase)
    (notification : Notification) : IndexPhase :=
  if notification.method ≠ "$/progress" then phase
  else (progress notification.params).elim phase advance

end IndexPhase

def completeness (phase : IndexPhase) : IndexCompleteness :=
  if phase.isReady then .complete else .partly

/-- The phase told by a whole stream. -/
def phaseAfter (progress : Json → Option WorkDoneProgress) (stream : List Notification) :
    IndexPhase :=
  stream.foldl (IndexPhase.observe progress) .pending

/-! ## A fresh session -/

/-- What the select of `wait_for_index` wakes up for. -/
inductive WaitEvent where
  | notified (notification : Notification)
  | closed
  | elapsed

/-- `wait_for_index`, `none` while it waits. -/
def waitForIndex (progress : Json → Option WorkDoneProgress) :
    IndexPhase → List WaitEvent → Option IndexPhase
  | _, [] => none
  | phase, .notified notification :: events =>
      let phase := phase.observe progress notification
      if phase.isReady then some phase else waitForIndex progress phase events
  | phase, .closed :: _ => some phase
  | phase, .elapsed :: _ => some phase

/-! ## The warm session -/

/-- Where a wait of `await_warm_index` is; `timedOut` when the deadline ended it. -/
inductive WaitState where
  | polling
  | phaseRead (phase : IndexPhase)
  | closedSeen
  | openSeen (phase : IndexPhase)
  | sleeping
  | answered (index : IndexCompleteness) (timedOut : Bool)
  deriving DecidableEq, Repr

/-- What a wait does next, by what it reads there. -/
def WaitState.next (phase : IndexPhase) (closed elapsed : Bool) : WaitState → WaitState
  | .polling => if phase.isReady then .answered .complete false else .phaseRead phase
  | .phaseRead read => if closed then .closedSeen else .openSeen read
  | .closedSeen => .answered (completeness phase) false
  | .openSeen read => if elapsed then .answered (completeness read) true else .sleeping
  | .sleeping => .polling
  | .answered index timedOut => .answered index timedOut

variable {Wait : Type*} [DecidableEq Wait]

/-- The channel of the notifications, the task that follows them, what it shows, and every
wait.  The task holds a notification between taking and observing it. -/
structure World (Wait : Type*) where
  sending : Bool
  queue : List Notification
  held : Option Notification
  observed : List Notification
  following : Bool
  phase : IndexPhase
  closed : Bool
  wait : Wait → WaitState

namespace World

/-- Everything sent so far. -/
def sent (world : World Wait) : List Notification :=
  world.observed ++ world.held.toList ++ world.queue

/-- A tracker that has just been started, on a stream or, taken by another, on none. -/
structure Initial (world : World Wait) : Prop where
  queue : world.queue = []
  held : world.held = none
  observed : world.observed = []
  phase : world.phase = .pending
  closed : world.closed = false
  wait : ∀ wait, world.wait wait = .polling

/-- A wait reads on. -/
def poll (world : World Wait) (wait : Wait) (elapsed : Bool) : World Wait :=
  { world with
    wait := Function.update world.wait wait
      ((world.wait wait).next world.phase world.closed elapsed) }

/-- One step of the engine or of the task. -/
inductive Goes (progress : Json → Option WorkDoneProgress) (world : World Wait) :
    World Wait → Prop where
  | sends (hsending : world.sending = true) (notification : Notification) :
      Goes progress world { world with queue := world.queue ++ [notification] }
  | hangsUp : Goes progress world { world with sending := false }
  | takes (hfollowing : world.following = true) (hfree : world.held = none)
      {notification : Notification} {rest : List Notification}
      (hqueue : world.queue = notification :: rest) :
      Goes progress world { world with queue := rest, held := some notification }
  | observes {notification : Notification} (hheld : world.held = some notification) :
      Goes progress world { world with
        held := none
        observed := world.observed ++ [notification]
        phase := world.phase.observe progress notification }
  | ends (hfollowing : world.following = true) (hfree : world.held = none)
      (hqueue : world.queue = []) (hsending : world.sending = false) :
      Goes progress world { world with following := false, closed := true }

inductive Step (progress : Json → Option WorkDoneProgress) (world : World Wait) :
    World Wait → Prop where
  | goes {after : World Wait} (hgoes : Goes progress world after) : Step progress world after
  | polls (wait : Wait) (elapsed : Bool) : Step progress world (world.poll wait elapsed)

end World

/-! ## What an answer says -/

/-- A complete answer is one a fresh session gives on the same stream, and an answer short
of that, unless the deadline ended the wait, is given at the end of the stream. -/
structure Honest (progress : Json → Option WorkDoneProgress) (world : World Wait)
    (index : IndexCompleteness) (timedOut : Bool) : Prop where
  complete : index = .complete →
    waitForIndex progress .pending (world.sent.map .notified ++ [.closed]) = some .ready
  partly : index = .partly → timedOut = false →
    world.closed = true ∧ completeness (phaseAfter progress world.sent) = .partly
  timedOut : timedOut = true → index = .partly

/-- What a wait has read stands. -/
def Sound (progress : Json → Option WorkDoneProgress) (world : World Wait) : WaitState → Prop
  | .polling => True
  | .phaseRead phase => phase.isReady = false
  | .closedSeen => world.closed = true
  | .openSeen phase => phase.isReady = false
  | .sleeping => True
  | .answered index timedOut => Honest progress world index timedOut

/-- What holds in every world that is reached. -/
structure Inv (progress : Json → Option WorkDoneProgress) (world : World Wait) : Prop where
  phase : world.phase = phaseAfter progress world.observed
  closed : world.closed = true → world.held = none ∧ world.queue = [] ∧ world.sending = false
  waits : ∀ wait, Sound progress world (world.wait wait)

section Streams

variable {progress : Json → Option WorkDoneProgress}

theorem phaseAfter_append_singleton (stream : List Notification) (notification : Notification) :
    phaseAfter progress (stream ++ [notification]) =
      (phaseAfter progress stream).observe progress notification := by
  rw [phaseAfter, List.foldl_append]
  rfl

/-- A fresh session that sees the whole stream answers complete exactly when some first part
of the stream ends ready. -/
theorem waitForIndex_ready_iff {phase : IndexPhase} (hphase : phase.isReady = false)
    (stream : List Notification) :
    waitForIndex progress phase (stream.map .notified ++ [.closed]) = some .ready ↔
      ∃ observed, observed <+: stream ∧
        (observed.foldl (IndexPhase.observe progress) phase).isReady = true := by
  induction stream generalizing phase with
  | nil =>
      refine iff_of_false ?_ ?_
      · intro hready
        rw [Option.some.inj hready] at hphase
        cases hphase
      · rintro ⟨observed, hprefix, hready⟩
        rw [List.prefix_nil.mp hprefix, List.foldl_nil, hphase] at hready
        cases hready
  | cons notification stream ih =>
      rw [List.map_cons, List.cons_append, waitForIndex]
      cases hobserve : (phase.observe progress notification).isReady with
      | true =>
          rw [if_pos rfl]
          refine iff_of_true (congrArg some (of_decide_eq_true hobserve)) ?_
          exact ⟨[notification], List.prefix_append [notification] stream, hobserve⟩
      | false =>
          rw [if_neg Bool.false_ne_true, ih hobserve]
          constructor
          · rintro ⟨observed, hprefix, hready⟩
            refine ⟨notification :: observed, ?_, hready⟩
            exact List.cons_prefix_cons.mpr ⟨rfl, hprefix⟩
          · rintro ⟨observed, hprefix, hready⟩
            cases observed with
            | nil =>
                rw [List.foldl_nil, hphase] at hready
                cases hready
            | cons first observed =>
                obtain ⟨rfl, hrest⟩ := List.cons_prefix_cons.mp hprefix
                exact ⟨observed, hrest, hready⟩

end Streams

/-! ## One step -/

namespace World

variable {progress : Json → Option WorkDoneProgress} {world after : World Wait}

omit [DecidableEq Wait] in
theorem inv_initial (hinitial : world.Initial) : Inv progress world where
  phase := by
    rw [hinitial.phase, hinitial.observed]
    rfl
  closed := by simp [hinitial.closed]
  waits := by simp [hinitial.wait, Sound]

/-- What was sent stays, and after its end the stream is the same. -/
structure Continues (world after : World Wait) : Prop where
  sent : world.sent <+: after.sent
  closed : world.closed = true → after.closed = true ∧ after.sent = world.sent

omit [DecidableEq Wait] in
theorem continues_of_same (hsent : after.sent = world.sent)
    (hclosed : world.closed = true → after.closed = true) : world.Continues after where
  sent := by rw [hsent]
  closed := fun hworld => ⟨hclosed hworld, hsent⟩

omit [DecidableEq Wait] in
theorem continues_of_goes (hinv : Inv progress world) (hgoes : Goes progress world after) :
    world.Continues after := by
  cases hgoes with
  | sends hsending notification =>
      refine ⟨⟨[notification], ?_⟩, fun hclosed => ?_⟩
      · simp [sent]
      · have hended := (hinv.closed hclosed).2.2
        rw [hsending] at hended
        cases hended
  | hangsUp => exact continues_of_same rfl id
  | takes hfollowing hfree hqueue =>
      exact continues_of_same (by simp [sent, hfree, hqueue]) id
  | observes hheld => exact continues_of_same (by simp [sent, hheld]) id
  | ends => exact continues_of_same rfl fun _ => rfl

omit [DecidableEq Wait] in
/-- An honest answer stays honest. -/
theorem Continues.honest (hcontinues : world.Continues after) {index : IndexCompleteness}
    {timedOut : Bool} (hhonest : Honest progress world index timedOut) :
    Honest progress after index timedOut where
  complete := by
    intro hcomplete
    obtain ⟨observed, hprefix, hready⟩ :=
      (waitForIndex_ready_iff rfl world.sent).mp (hhonest.complete hcomplete)
    exact (waitForIndex_ready_iff rfl after.sent).mpr
      ⟨observed, hprefix.trans hcontinues.sent, hready⟩
  partly := by
    intro hpartly htime
    obtain ⟨hclosed, hphase⟩ := hhonest.partly hpartly htime
    obtain ⟨hafter, hsent⟩ := hcontinues.closed hclosed
    exact ⟨hafter, by rw [hsent, hphase]⟩
  timedOut := hhonest.timedOut

omit [DecidableEq Wait] in
theorem Continues.sound (hcontinues : world.Continues after) {state : WaitState}
    (hsound : Sound progress world state) : Sound progress after state := by
  cases state with
  | polling => trivial
  | phaseRead phase => exact hsound
  | closedSeen => exact (hcontinues.closed hsound).1
  | openSeen phase => exact hsound
  | sleeping => trivial
  | answered index timedOut => exact hcontinues.honest hsound

omit [DecidableEq Wait] in
/-- The phase shown is ready only after a first part of the stream that ends ready. -/
theorem fresh_of_ready (hinv : Inv progress world) (hready : world.phase.isReady = true) :
    waitForIndex progress .pending (world.sent.map .notified ++ [.closed]) = some .ready := by
  refine (waitForIndex_ready_iff rfl world.sent).mpr ⟨world.observed, ?_, ?_⟩
  · rw [sent, List.append_assoc]
    exact List.prefix_append _ _
  · rw [hinv.phase] at hready
    exact hready

omit [DecidableEq Wait] in
/-- Once the stream has ended the phase shown is the phase of all of it. -/
theorem phase_of_closed (hinv : Inv progress world) (hclosed : world.closed = true) :
    world.phase = phaseAfter progress world.sent := by
  obtain ⟨hheld, hqueue, -⟩ := hinv.closed hclosed
  rw [hinv.phase, sent, hheld, hqueue, Option.toList_none, List.append_nil, List.append_nil]

omit [DecidableEq Wait] in
theorem sound_next (hinv : Inv progress world) {state : WaitState}
    (hsound : Sound progress world state) (elapsed : Bool) :
    Sound progress world (state.next world.phase world.closed elapsed) := by
  cases state with
  | polling =>
      rw [WaitState.next]
      cases hready : world.phase.isReady with
      | true => exact ⟨fun _ => fresh_of_ready hinv hready, nofun, nofun⟩
      | false => exact hready
  | phaseRead phase =>
      rw [WaitState.next]
      cases hclosed : world.closed with
      | true => exact hclosed
      | false => exact hsound
  | closedSeen =>
      refine ⟨fun hcomplete => ?_, fun hpartly _ => ⟨hsound, ?_⟩, nofun⟩
      · refine fresh_of_ready hinv ?_
        rw [completeness] at hcomplete
        split_ifs at hcomplete with hready
        exact hready
      · rw [← phase_of_closed hinv hsound, hpartly]
  | openSeen phase =>
      rw [WaitState.next]
      cases elapsed with
      | true =>
          have hpartly : completeness phase = .partly := by
            rw [completeness, hsound]
            rfl
          rw [if_pos rfl, hpartly]
          exact ⟨nofun, nofun, fun _ => rfl⟩
      | false => trivial
  | sleeping => trivial
  | answered index timedOut => exact hsound

omit [DecidableEq Wait] in
theorem inv_goes (hinv : Inv progress world) (hgoes : Goes progress world after) :
    Inv progress after := by
  have hcontinues := continues_of_goes hinv hgoes
  have hwaits : ∀ wait, Sound progress after (world.wait wait) :=
    fun wait => hcontinues.sound (hinv.waits wait)
  cases hgoes with
  | sends hsending notification =>
      refine ⟨hinv.phase, fun hclosed => ?_, hwaits⟩
      have hended := (hinv.closed hclosed).2.2
      rw [hsending] at hended
      cases hended
  | hangsUp =>
      refine ⟨hinv.phase, fun hclosed => ?_, hwaits⟩
      obtain ⟨hheld, hqueue, -⟩ := hinv.closed hclosed
      exact ⟨hheld, hqueue, rfl⟩
  | takes hfollowing hfree hqueue =>
      refine ⟨hinv.phase, fun hclosed => ?_, hwaits⟩
      have hempty := (hinv.closed hclosed).2.1
      rw [hqueue] at hempty
      cases hempty
  | @observes notification hheld =>
      refine ⟨?_, fun hclosed => ?_, hwaits⟩
      · rw [phaseAfter_append_singleton, hinv.phase]
      · have hnone := (hinv.closed hclosed).1
        rw [hheld] at hnone
        cases hnone
  | ends hfollowing hfree hqueue hsending =>
      exact ⟨hinv.phase, fun _ => ⟨hfree, hqueue, hsending⟩, hwaits⟩

@[simp]
theorem wait_poll_self (wait : Wait) (elapsed : Bool) :
    (world.poll wait elapsed).wait wait =
      (world.wait wait).next world.phase world.closed elapsed :=
  Function.update_self _ _ _

@[simp]
theorem wait_poll_of_ne {wait other : Wait} (hother : other ≠ wait) (elapsed : Bool) :
    (world.poll wait elapsed).wait other = world.wait other :=
  Function.update_of_ne hother _ _

theorem inv_poll (hinv : Inv progress world) (wait : Wait) (elapsed : Bool) :
    Inv progress (world.poll wait elapsed) := by
  have hsame : world.Continues (world.poll wait elapsed) := continues_of_same rfl id
  refine ⟨hinv.phase, hinv.closed, fun other => hsame.sound ?_⟩
  by_cases hother : other = wait
  · rw [hother, wait_poll_self]
    exact sound_next hinv (hinv.waits wait) elapsed
  · rw [wait_poll_of_ne hother]
    exact hinv.waits other

theorem inv_step (hinv : Inv progress world) (hstep : Step progress world after) :
    Inv progress after := by
  cases hstep with
  | goes hgoes => exact inv_goes hinv hgoes
  | polls wait elapsed => exact inv_poll hinv wait elapsed

/-- Whatever the engine, the task and the waits do in between, a wait answers complete only
where a fresh session would on the same stream, and short of it only at the deadline or with
the last phase of a stream that has ended. -/
theorem warm_answers_honest (hreach : Reachable Initial (Step progress) world) (wait : Wait)
    {index : IndexCompleteness} {timedOut : Bool}
    (hanswered : world.wait wait = .answered index timedOut) :
    Honest progress world index timedOut := by
  have hinv : Inv progress world :=
    hreach.invariant (fun _ hinitial => inv_initial hinitial)
      fun _ _ hinv hstep => inv_step hinv hstep
  have hsound := hinv.waits wait
  rw [hanswered] at hsound
  exact hsound

end World

/-! An index that is ready just before the stream ends, between two reads of a wait. -/

def readProgress (params : Json) : Option WorkDoneProgress :=
  match ((params.member? "value").bind fun value => value.member? "kind").bind Json.str? with
  | some "begin" => some .begun
  | some "report" => some .report
  | some "end" => some .ended
  | _ => none

def indexed : Notification :=
  ⟨"$/progress", .obj [("token", .str "index"), ("value", .obj [("kind", .str "end")])]⟩

theorem observe_indexed (phase : IndexPhase) :
    phase.observe readProgress indexed = .ready := by
  have hended : readProgress indexed.params = some .ended := by decide +kernel
  rw [IndexPhase.observe, if_neg (by decide), hended]
  rfl

def trackedWorld : World Unit where
  sending := true
  queue := []
  held := none
  observed := []
  following := true
  phase := .pending
  closed := false
  wait := fun _ => .polling

theorem warm_answers_honest_last :
    ∃ world : World Unit, world.wait () = .answered .complete false ∧
      Honest readProgress world .complete false := by
  have hstart : Reachable World.Initial (World.Step readProgress) trackedWorld :=
    .start ⟨rfl, rfl, rfl, rfl, rfl, fun _ => rfl⟩
  have hread := hstart.tail (.polls () false)
  have hsent := hread.tail (.goes (.sends rfl indexed))
  have htaken := hsent.tail (.goes (.takes rfl rfl rfl))
  have hobserved := htaken.tail (.goes (.observes rfl))
  rw [observe_indexed] at hobserved
  have hhungUp := hobserved.tail (.goes .hangsUp)
  have hended := hhungUp.tail (.goes (.ends rfl rfl rfl rfl))
  have hseen := hended.tail (.polls () false)
  have hanswered := hseen.tail (.polls () false)
  refine ⟨_, ?_, World.warm_answers_honest hanswered () ?_⟩
  · decide +kernel
  · decide +kernel

namespace World

variable {progress : Json → Option WorkDoneProgress} {world after : World Wait}

/-! ## After the end of the stream -/

/-- A run of steps, with the waits that polled. -/
inductive Run (progress : Json → Option WorkDoneProgress) :
    World Wait → List Wait → World Wait → Prop where
  | refl (world : World Wait) : Run progress world [] world
  | goes {world between after : World Wait} {polled : List Wait}
      (hgoes : Goes progress world between) (hrest : Run progress between polled after) :
      Run progress world polled after
  | polls {world after : World Wait} {polled : List Wait} (wait : Wait) (elapsed : Bool)
      (hrest : Run progress (world.poll wait elapsed) polled after) :
      Run progress world (wait :: polled) after

end World

/-- How many polls are left once the stream has ended. -/
def WaitState.left : WaitState → ℕ
  | .openSeen _ => 5
  | .sleeping => 4
  | .polling => 3
  | .phaseRead _ => 2
  | .closedSeen => 1
  | .answered _ _ => 0

theorem WaitState.left_next (state : WaitState) (phase : IndexPhase) (elapsed : Bool) :
    (state.next phase true elapsed).left ≤ state.left - 1 := by
  cases state with
  | polling =>
      rw [WaitState.next]
      split_ifs
      · exact Nat.zero_le _
      · exact le_refl _
  | openSeen read =>
      rw [WaitState.next]
      split_ifs
      · exact Nat.zero_le _
      · exact le_refl _
  | phaseRead read => exact le_refl _
  | closedSeen => exact le_refl _
  | sleeping => exact le_refl _
  | answered index timedOut => exact le_refl _

namespace World

variable {progress : Json → Option WorkDoneProgress} {world after : World Wait}

omit [DecidableEq Wait] in
theorem goes_waits (hgoes : Goes progress world after) :
    after.wait = world.wait ∧ (world.closed = true → after.closed = true) := by
  cases hgoes with
  | sends => exact ⟨rfl, id⟩
  | hangsUp => exact ⟨rfl, id⟩
  | takes => exact ⟨rfl, id⟩
  | observes => exact ⟨rfl, id⟩
  | ends => exact ⟨rfl, fun _ => rfl⟩

/-- Every poll of a wait takes one of those left. -/
theorem left_add_polls_le (hclosed : world.closed = true) {polled : List Wait}
    (hrun : Run progress world polled after) (wait : Wait) :
    (after.wait wait).left ≤ (world.wait wait).left - polled.count wait := by
  induction hrun with
  | refl => exact le_refl _
  | goes hgoes _ ih =>
      obtain ⟨hwait, hstays⟩ := goes_waits hgoes
      rw [← hwait]
      exact ih (hstays hclosed)
  | @polls world after polled polling elapsed _ ih =>
      have hleft := ih hclosed
      by_cases hwait : wait = polling
      · rw [hwait, wait_poll_self, hclosed] at hleft
        rw [hwait, List.count_cons_self]
        have hnext := WaitState.left_next (world.wait polling) world.phase elapsed
        omega
      · rw [wait_poll_of_ne hwait] at hleft
        rw [List.count_cons_of_ne (Ne.symm hwait)]
        exact hleft

/-- Once the stream has ended, a wait has answered after five polls of its own, whatever
happens in between. -/
theorem closed_wait_ends (hclosed : world.closed = true) {polled : List Wait}
    (hrun : Run progress world polled after) {wait : Wait} (hpolls : 5 ≤ polled.count wait) :
    ∃ index timedOut, after.wait wait = .answered index timedOut := by
  have hleft := left_add_polls_le hclosed hrun wait
  have hbound : (world.wait wait).left ≤ 5 := by
    cases world.wait wait <;> simp [WaitState.left]
  have hnone : (after.wait wait).left = 0 := by omega
  cases hwait : after.wait wait with
  | answered index timedOut => exact ⟨index, timedOut, rfl⟩
  | _ =>
      rw [hwait] at hnone
      cases hnone

theorem closed_wait_ends_tracked :
    ∃ after : World Unit, ∃ index timedOut, after.wait () = .answered index timedOut := by
  have hclosed : { trackedWorld with closed := true }.closed = true := rfl
  have hrun : Run readProgress { trackedWorld with closed := true } [(), (), (), (), ()] _ :=
    .polls () false (.polls () false (.polls () false (.polls () false (.polls () false
      (.refl _)))))
  exact ⟨_, closed_wait_ends hclosed hrun (by decide)⟩

end World

end Ktsense.Cli.IndexWait
