import Ktsense.Foundation.Transition

/-!
# The socket path

`server::run` finds out whether its socket path is free, takes away a file nobody
answers on, binds, serves, and removes the path again when it stops.  Each is a
system call of its own, so calls on one path are modelled as parties that make one
at a time, in any interleaving, and may die between any two.

The kernel is what the source assumes of it.  `bind` fails where a file is and
creates one otherwise, on an inode nothing has open; a connection is accepted
exactly while a listener listens on the file's inode; `remove_file` takes away the
name whatever file it leads to.  That connecting to a listener never fails is part of
this: a full backlog or a lack of descriptors (`EAGAIN`, `EMFILE`) also reads as
`Stale` in `probe`, and is left out.
-/

namespace Ktsense.Daemon.SocketPath

open Ktsense.Foundation

/-- Where a `run` is. -/
inductive Phase where
  | idle
  | probing
  | removing
  | binding
  | bound (inode : ℕ)
  | listening (inode : ℕ)
  | serving (inode : ℕ)
  | stopping (inode : ℕ)
  | unguarded (inode : ℕ)
  | returned
  deriving DecidableEq, Repr

namespace Phase

/-- The socket a call has bound and not closed. -/
def socket : Phase → Option ℕ
  | bound inode => some inode
  | listening inode => some inode
  | serving inode => some inode
  | stopping inode => some inode
  | unguarded inode => some inode
  | _ => none

/-- The socket whose file a call has put on the path and not removed. -/
def file : Phase → Option ℕ
  | unguarded _ => none
  | phase => phase.socket

/-- The socket a call listens on. -/
def listener : Phase → Option ℕ
  | bound _ => none
  | phase => phase.socket

end Phase

/-- The path, the listeners the kernel has, whose files belong to another user,
and every call. -/
structure World (P : Type*) where
  path : Option ℕ
  listens : ℕ → Bool
  foreign : ℕ → Bool
  phase : P → Phase

/-- One system call of a `run`, the end of its serving, or its death. -/
inductive Action where
  | metadata
  | connect
  | removeFile
  | bind (fresh : ℕ)
  | listen
  | listenFails
  | setMode
  | endServing
  | dropGuard
  | dropListener
  | crash
  deriving DecidableEq, Repr

namespace World

variable {P : Type*} [DecidableEq P]

def move (world : World P) (call : P) (phase : Phase) : World P :=
  { world with phase := Function.update world.phase call phase }

/-- The call is over and its socket closes. -/
def close (world : World P) (call : P) : World P :=
  { world.move call .returned with
    listens := fun inode =>
      if (world.phase call).socket = some inode then false else world.listens inode }

/-- `probe` finds a daemon. -/
def live (world : World P) : Bool := world.path.any world.listens

/-- What a call does next; `none` when it is not at that point.  A connect finds a daemon
exactly when one listens. -/
def next (world : World P) (call : P) : Action → Option (World P)
  | .metadata =>
      match world.phase call with
      | .idle =>
          match world.path with
          | none => some (world.move call .binding)
          | some inode =>
              if world.foreign inode then some (world.move call .returned)
              else some (world.move call .probing)
      | _ => none
  | .connect =>
      match world.phase call with
      | .probing =>
          if world.live then some (world.move call .returned)
          else some (world.move call .removing)
      | _ => none
  | .removeFile =>
      match world.phase call with
      | .removing =>
          match world.path with
          | none => some (world.move call .returned)
          | some _ => some { world.move call .binding with path := none }
      | _ => none
  | .bind fresh =>
      match world.phase call with
      | .binding =>
          match world.path with
          | none => some { world.move call (.bound fresh) with path := some fresh }
          | some _ => some (world.move call .returned)
      | _ => none
  | .listen =>
      match world.phase call with
      | .bound inode =>
          some { world.move call (.listening inode) with
            listens := Function.update world.listens inode true }
      | _ => none
  -- the file stays
  | .listenFails =>
      match world.phase call with
      | .bound _ => some (world.close call)
      | _ => none
  -- by path, and before there is a guard
  | .setMode =>
      match world.phase call with
      | .listening inode =>
          match world.path with
          | none => some (world.close call)
          | some _ => some (world.move call (.serving inode))
      | _ => none
  | .endServing =>
      match world.phase call with
      | .serving inode => some (world.move call (.stopping inode))
      | _ => none
  -- the guard goes before the listener
  | .dropGuard =>
      match world.phase call with
      | .stopping inode =>
          some { world.move call (.unguarded inode) with path := none }
      | _ => none
  | .dropListener =>
      match world.phase call with
      | .unguarded _ => some (world.close call)
      | _ => none
  | .crash => some (world.close call)

/-- A socket is created on an inode that no call has open. -/
def Allowed (world : World P) : Action → Prop
  | .bind fresh => ∀ call, (world.phase call).socket ≠ some fresh
  | _ => True

def Does (call : P) (action : Action) (world after : World P) : Prop :=
  world.Allowed action ∧ world.next call action = some after

/-- One step of anyone. -/
def Step (world after : World P) : Prop :=
  ∃ call action, Does call action world after

/-- No call has begun; a file that nothing listens on may have been left
behind. -/
def Initial (world : World P) : Prop :=
  (∀ inode, world.listens inode = false) ∧ ∀ call, world.phase call = .idle

/-- The step takes from the path the file of a socket `other` has bound and not
closed. -/
def TakesFileOf (world after : World P) (other : P) : Prop :=
  ∃ inode, world.path = some inode ∧ after.path ≠ some inode ∧
    (world.phase other).socket = some inode

/-- Nobody connects to see who answers between another call's bind and its
listen, and nobody binds between another call's failed connect and its removal. -/
def Serial (world : World P) : Action → Prop
  | .connect => ∀ other inode, world.phase other ≠ .bound inode
  | .bind _ => ∀ other, world.phase other ≠ .removing
  | _ => True

/-- One step of anyone, at a time that is not another's. -/
def SerialStep (world after : World P) : Prop :=
  ∃ call action, Does call action world after ∧ world.Serial action

/-! ## The invariant -/

/-- The path leads to the file of every call that has one on it, and to no other
call's; a call about to remove what it found finds no call's file. -/
structure Inv (world : World P) : Prop where
  named : ∀ call inode, (world.phase call).file = some inode →
    world.path = some inode
  gone : ∀ call inode, world.phase call = .unguarded inode →
    world.path ≠ some inode
  unique : ∀ first second inode, (world.phase first).socket = some inode →
    (world.phase second).socket = some inode → first = second
  answers : ∀ call inode, (world.phase call).listener = some inode →
    world.listens inode = true
  alone : ∀ remover, world.phase remover = .removing →
    ∀ call, (world.phase call).file = none

omit [DecidableEq P] in
theorem inv_initial (world : World P) (hinitial : world.Initial) : world.Inv := by
  obtain ⟨_, hphase⟩ := hinitial
  constructor <;> simp [hphase, Phase.file, Phase.socket, Phase.listener]

section Steps

variable {world after : World P} {call : P} {phase : Phase}

@[simp]
theorem move_path : (world.move call phase).path = world.path := rfl

@[simp]
theorem move_listens : (world.move call phase).listens = world.listens := rfl

@[simp]
theorem move_phase_self : (world.move call phase).phase call = phase :=
  Function.update_self _ _ _

theorem move_phase_of_ne {other : P} (hother : other ≠ call) :
    (world.move call phase).phase other = world.phase other :=
  Function.update_of_ne hother _ _

/-- A step of one call changes the phase of no other. -/
theorem phase_cases
    (hphase : after.phase = Function.update world.phase call phase) (other : P) :
    other = call ∧ after.phase other = phase ∨
      other ≠ call ∧ after.phase other = world.phase other := by
  rw [hphase]
  by_cases hother : other = call
  · exact .inl ⟨hother, hother ▸ Function.update_self _ _ _⟩
  · exact .inr ⟨hother, Function.update_of_ne hother _ _⟩

omit [DecidableEq P] in
theorem socket_of_file {phase : Phase} {inode : ℕ} (hfile : phase.file = some inode) :
    phase.socket = some inode := by
  cases phase <;> first | exact hfile | exact absurd hfile (by simp [Phase.file])

omit [DecidableEq P] in
theorem socket_of_listener {phase : Phase} {inode : ℕ}
    (hlistener : phase.listener = some inode) : phase.socket = some inode := by
  cases phase <;>
    first | exact hlistener | exact absurd hlistener (by simp [Phase.listener])

/-- A call goes on and changes neither the path nor its socket. -/
theorem inv_move (hinv : world.Inv)
    (hsocket : phase.socket = (world.phase call).socket)
    (hfile : phase.file = (world.phase call).file)
    (hlistener : phase.listener = (world.phase call).listener)
    (hremoving : phase = .removing → ∀ other, (world.phase other).file = none)
    (hguarded : ∀ inode, phase ≠ .unguarded inode) :
    (world.move call phase).Inv := by
  have hfiles : ∀ other, ((world.move call phase).phase other).file =
      (world.phase other).file := by
    intro other
    by_cases hother : other = call
    · rw [hother, move_phase_self, hfile]
    · rw [move_phase_of_ne hother]
  have hsockets : ∀ other, ((world.move call phase).phase other).socket =
      (world.phase other).socket := by
    intro other
    by_cases hother : other = call
    · rw [hother, move_phase_self, hsocket]
    · rw [move_phase_of_ne hother]
  constructor
  · intro other inode hother
    exact hinv.named other inode (hfiles other ▸ hother)
  · intro other inode hother
    by_cases hsame : other = call
    · rw [hsame, move_phase_self] at hother
      exact absurd hother (hguarded inode)
    · rw [move_phase_of_ne hsame] at hother
      exact hinv.gone other inode hother
  · intro first second inode hfirst hsecond
    exact hinv.unique first second inode (hsockets first ▸ hfirst)
      (hsockets second ▸ hsecond)
  · intro other inode hother
    by_cases hsame : other = call
    · rw [hsame, move_phase_self, hlistener] at hother
      exact hinv.answers call inode hother
    · rw [move_phase_of_ne hsame] at hother
      exact hinv.answers other inode hother
  · intro remover hremover other
    rw [hfiles]
    by_cases hsame : remover = call
    · rw [hsame, move_phase_self] at hremover
      exact hremoving hremover other
    · rw [move_phase_of_ne hsame] at hremover
      exact hinv.alone remover hremover other

theorem inv_close (hinv : world.Inv) (call : P) : (world.close call).Inv := by
  have hphase := phase_cases (rfl : (world.close call).phase = _)
  constructor
  · intro other inode hfile
    rcases hphase other with ⟨_, hreturned⟩ | ⟨_, hkept⟩
    · rw [hreturned] at hfile
      exact absurd hfile (by simp [Phase.file, Phase.socket])
    · exact hinv.named other inode (hkept ▸ hfile)
  · intro other inode hunguarded
    rcases hphase other with ⟨_, hreturned⟩ | ⟨_, hkept⟩
    · rw [hreturned] at hunguarded
      exact absurd hunguarded (by simp)
    · exact hinv.gone other inode (hkept ▸ hunguarded)
  · intro first second inode hfirst hsecond
    rcases hphase first with ⟨_, hreturned⟩ | ⟨_, hkept⟩
    · rw [hreturned] at hfirst
      exact absurd hfirst (by simp [Phase.socket])
    · rcases hphase second with ⟨_, hreturned⟩ | ⟨_, hkept'⟩
      · rw [hreturned] at hsecond
        exact absurd hsecond (by simp [Phase.socket])
      · exact hinv.unique first second inode (hkept ▸ hfirst) (hkept' ▸ hsecond)
  · intro other inode hlistener
    rcases hphase other with ⟨_, hreturned⟩ | ⟨hother, hkept⟩
    · rw [hreturned] at hlistener
      exact absurd hlistener (by simp [Phase.listener, Phase.socket])
    · rw [hkept] at hlistener
      -- the socket that closes is another
      have hnot : (world.phase call).socket ≠ some inode := fun hsocket =>
        hother (hinv.unique other call inode (socket_of_listener hlistener) hsocket)
      change (if (world.phase call).socket = some inode then false
        else world.listens inode) = true
      rw [if_neg hnot]
      exact hinv.answers other inode hlistener
  · intro remover hremover other
    rcases hphase other with ⟨_, hreturned⟩ | ⟨_, hkept⟩
    · rw [hreturned]
      rfl
    · rw [hkept]
      rcases hphase remover with ⟨_, hreturned⟩ | ⟨_, hkept'⟩
      · rw [hreturned] at hremover
        exact absurd hremover (by simp)
      · exact hinv.alone remover (hkept' ▸ hremover) other

/-- A call that has no socket goes on without one. -/
theorem inv_move_without (hinv : world.Inv)
    (hbefore : (world.phase call).socket = none) (hafter : phase.socket = none)
    (hremoving : phase = .removing → ∀ other, (world.phase other).file = none) :
    (world.move call phase).Inv := by
  have hnone : ∀ {state : Phase}, state.socket = none → state.file = none ∧
      state.listener = none ∧ ∀ inode, state ≠ .unguarded inode := by
    intro state hstate
    cases state <;> simp_all [Phase.file, Phase.listener, Phase.socket]
  obtain ⟨hfile, hlistener, _⟩ := hnone hbefore
  obtain ⟨hfile', hlistener', hguarded⟩ := hnone hafter
  exact inv_move hinv (hafter.trans hbefore.symm) (hfile'.trans hfile.symm)
    (hlistener'.trans hlistener.symm) hremoving hguarded

theorem inv_metadata (hinv : world.Inv)
    (hnext : world.next call .metadata = some after) : after.Inv := by
  cases hphase : world.phase call with
  | idle =>
      have hbefore : (world.phase call).socket = none := by
        rw [hphase]
        rfl
      simp only [next, hphase] at hnext
      cases hpath : world.path with
      | none =>
          simp only [hpath, Option.some.injEq] at hnext
          rw [← hnext]
          exact inv_move_without hinv hbefore rfl (by simp)
      | some inode =>
          simp only [hpath] at hnext
          split_ifs at hnext
          · rw [← Option.some.inj hnext]
            exact inv_move_without hinv hbefore rfl (by simp)
          · rw [← Option.some.inj hnext]
            exact inv_move_without hinv hbefore rfl (by simp)
  | _ => simp [next, hphase] at hnext

theorem inv_connect (hinv : world.Inv) (hserial : world.Serial .connect)
    (hnext : world.next call .connect = some after) : after.Inv := by
  cases hphase : world.phase call with
  | probing =>
      have hbefore : (world.phase call).socket = none := by
        rw [hphase]
        rfl
      simp only [next, hphase] at hnext
      split_ifs at hnext with hlive
      · rw [← Option.some.inj hnext]
        exact inv_move_without hinv hbefore rfl (by simp)
      · rw [← Option.some.inj hnext]
        refine inv_move_without hinv hbefore rfl fun _ other => ?_
        -- a call with a file on the path listens by now, and would have answered
        cases hfile : (world.phase other).file with
        | none => rfl
        | some inode =>
            have hlistener : (world.phase other).listener = some inode := by
              cases hother : world.phase other with
              | bound other => exact absurd hother (hserial _ _)
              | _ =>
                  rw [hother] at hfile
                  first | exact hfile | exact absurd hfile (by simp [Phase.file])
            have hanswers := hinv.answers other inode hlistener
            rw [live, hinv.named other inode hfile, Option.any_some, hanswers] at hlive
            exact absurd rfl hlive
  | _ => simp [next, hphase] at hnext

theorem inv_removeFile (hinv : world.Inv)
    (hnext : world.next call .removeFile = some after) : after.Inv := by
  cases hphase : world.phase call with
  | removing =>
      have hbefore : (world.phase call).socket = none := by
        rw [hphase]
        rfl
      simp only [next, hphase] at hnext
      cases hpath : world.path with
      | none =>
          simp only [hpath, Option.some.injEq] at hnext
          rw [← hnext]
          exact inv_move_without hinv hbefore rfl (by simp)
      | some inode =>
          simp only [hpath, Option.some.injEq] at hnext
          have hmoved : (world.move call .binding).Inv :=
            inv_move_without hinv hbefore rfl (by simp)
          rw [← hnext]
          refine { hmoved with named := ?_, gone := by simp }
          intro other named hfile
          by_cases hother : other = call
          · rw [hother] at hfile
            exact absurd hfile (by simp [move, Phase.file, Phase.socket])
          · have hnone := hinv.alone call hphase other
            rw [← move_phase_of_ne hother] at hnone
            exact absurd (hnone.symm.trans hfile) (by simp)
  | _ => simp [next, hphase] at hnext

theorem inv_bind (hinv : world.Inv) {fresh : ℕ}
    (hallowed : world.Allowed (.bind fresh)) (hserial : world.Serial (.bind fresh))
    (hnext : world.next call (.bind fresh) = some after) : after.Inv := by
  cases hphase : world.phase call with
  | binding =>
      have hbefore : (world.phase call).socket = none := by
        rw [hphase]
        rfl
      simp only [next, hphase] at hnext
      cases hpath : world.path with
      | some inode =>
          simp only [hpath, Option.some.injEq] at hnext
          rw [← hnext]
          exact inv_move_without hinv hbefore rfl (by simp)
      | none =>
          simp only [hpath, Option.some.injEq] at hnext
          -- with nothing on the path no other call has a file there
          have hnofile : ∀ other, (world.phase other).file = none := by
            intro other
            cases hfile : (world.phase other).file with
            | none => rfl
            | some inode =>
                have hnamed := hinv.named other inode hfile
                rw [hpath] at hnamed
                exact absurd hnamed (by simp)
          have hcases := phase_cases (congrArg World.phase hnext).symm
          have hpath' : after.path = some fresh := by rw [← hnext]
          constructor
          · intro other inode hfile
            rcases hcases other with ⟨_, hbound⟩ | ⟨_, hkept⟩
            · rw [hbound] at hfile
              exact hpath'.trans hfile
            · rw [hkept, hnofile] at hfile
              exact absurd hfile (by simp)
          · intro other inode hunguarded hnamed
            rcases hcases other with ⟨_, hbound⟩ | ⟨_, hkept⟩
            · rw [hbound] at hunguarded
              exact absurd hunguarded (by simp)
            · rw [hpath', Option.some.injEq] at hnamed
              apply hallowed other
              rw [← hkept, hunguarded, hnamed]
              rfl
          · intro first second inode hfirst hsecond
            rcases hcases first with ⟨hone, hbound⟩ | ⟨_, hkept⟩ <;>
              rcases hcases second with ⟨htwo, hbound'⟩ | ⟨_, hkept'⟩
            · exact hone.trans htwo.symm
            · rw [hbound] at hfirst
              rw [hkept', ← hfirst] at hsecond
              exact absurd hsecond (hallowed second)
            · rw [hbound'] at hsecond
              rw [hkept, ← hsecond] at hfirst
              exact absurd hfirst (hallowed first)
            · exact hinv.unique first second inode (hkept ▸ hfirst) (hkept' ▸ hsecond)
          · intro other inode hlistener
            rcases hcases other with ⟨_, hbound⟩ | ⟨_, hkept⟩
            · rw [hbound] at hlistener
              exact absurd hlistener (by simp [Phase.listener])
            · rw [← hnext]
              exact hinv.answers other inode (hkept ▸ hlistener)
          · intro remover hremover
            rcases hcases remover with ⟨_, hbound⟩ | ⟨_, hkept⟩
            · rw [hbound] at hremover
              exact absurd hremover (by simp)
            · exact absurd (hkept ▸ hremover) (hserial remover)
  | _ => simp [next, hphase] at hnext

theorem inv_listen (hinv : world.Inv)
    (hnext : world.next call .listen = some after) : after.Inv := by
  cases hphase : world.phase call with
  | bound inode =>
      simp only [next, hphase, Option.some.injEq] at hnext
      have hcases := phase_cases (congrArg World.phase hnext).symm
      have hsockets : ∀ other, (after.phase other).socket = (world.phase other).socket ∧
          (after.phase other).file = (world.phase other).file := by
        intro other
        rcases hcases other with ⟨rfl, hlistening⟩ | ⟨_, hkept⟩
        · rw [hlistening, hphase]
          exact ⟨rfl, rfl⟩
        · rw [hkept]
          exact ⟨rfl, rfl⟩
      have hpath : after.path = world.path := by rw [← hnext, move_path]
      constructor
      · intro other file hfile
        rw [hpath]
        exact hinv.named other file ((hsockets other).2 ▸ hfile)
      · intro other file hunguarded
        rw [hpath]
        rcases hcases other with ⟨_, hlistening⟩ | ⟨_, hkept⟩
        · rw [hlistening] at hunguarded
          exact absurd hunguarded (by simp)
        · exact hinv.gone other file (hkept ▸ hunguarded)
      · intro first second file hfirst hsecond
        exact hinv.unique first second file ((hsockets first).1 ▸ hfirst)
          ((hsockets second).1 ▸ hsecond)
      · intro other file hlistener
        rw [← hnext]
        change Function.update world.listens inode true file = true
        by_cases hsame : file = inode
        · rw [hsame, Function.update_self]
        · rw [Function.update_of_ne hsame]
          rcases hcases other with ⟨_, hlistening⟩ | ⟨_, hkept⟩
          · rw [hlistening] at hlistener
            exact absurd (Option.some.inj hlistener).symm hsame
          · exact hinv.answers other file (hkept ▸ hlistener)
      · intro remover hremover other
        rw [(hsockets other).2]
        rcases hcases remover with ⟨_, hlistening⟩ | ⟨_, hkept⟩
        · rw [hlistening] at hremover
          exact absurd hremover (by simp)
        · exact hinv.alone remover (hkept ▸ hremover) other
  | _ => simp [next, hphase] at hnext

theorem inv_setMode (hinv : world.Inv)
    (hnext : world.next call .setMode = some after) : after.Inv := by
  cases hphase : world.phase call with
  | listening inode =>
      simp only [next, hphase] at hnext
      cases hpath : world.path with
      | none =>
          simp only [hpath, Option.some.injEq] at hnext
          rw [← hnext]
          exact inv_close hinv call
      | some file =>
          simp only [hpath, Option.some.injEq] at hnext
          rw [← hnext]
          exact inv_move hinv (by rw [hphase]; rfl) (by rw [hphase]; rfl)
            (by rw [hphase]; rfl) (by simp) (by simp)
  | _ => simp [next, hphase] at hnext

theorem inv_endServing (hinv : world.Inv)
    (hnext : world.next call .endServing = some after) : after.Inv := by
  cases hphase : world.phase call with
  | serving inode =>
      simp only [next, hphase, Option.some.injEq] at hnext
      rw [← hnext]
      exact inv_move hinv (by rw [hphase]; rfl) (by rw [hphase]; rfl)
        (by rw [hphase]; rfl) (by simp) (by simp)
  | _ => simp [next, hphase] at hnext

/-- The guard's removal takes the call's own file. -/
theorem inv_dropGuard (hinv : world.Inv)
    (hnext : world.next call .dropGuard = some after) : after.Inv := by
  cases hphase : world.phase call with
  | stopping inode =>
      simp only [next, hphase, Option.some.injEq] at hnext
      have hcases := phase_cases (congrArg World.phase hnext).symm
      have hown : (world.phase call).file = some inode := by
        rw [hphase]
        rfl
      have hsockets : ∀ other,
          (after.phase other).socket = (world.phase other).socket := by
        intro other
        rcases hcases other with ⟨rfl, hunguarded⟩ | ⟨_, hkept⟩
        · rw [hunguarded, hphase]
          rfl
        · rw [hkept]
      have hnofile : ∀ other, (after.phase other).file = none := by
        intro other
        rcases hcases other with ⟨_, hunguarded⟩ | ⟨hother, hkept⟩
        · rw [hunguarded]
          rfl
        · rw [hkept]
          cases hfile : (world.phase other).file with
          | none => rfl
          | some file =>
              -- the path leads to one file only
              have hsame := (hinv.named other file hfile).symm.trans
                (hinv.named call inode hown)
              rw [Option.some.inj hsame] at hfile
              exact absurd (hinv.unique other call inode (socket_of_file hfile)
                (socket_of_file hown)) hother
      constructor
      · intro other file hfile
        rw [hnofile] at hfile
        exact absurd hfile (by simp)
      · intro other file _
        rw [← hnext]
        simp
      · intro first second file hfirst hsecond
        exact hinv.unique first second file (hsockets first ▸ hfirst)
          (hsockets second ▸ hsecond)
      · intro other file hlistener
        have hlistens : after.listens = world.listens := by rw [← hnext, move_listens]
        rw [hlistens]
        rcases hcases other with ⟨rfl, hunguarded⟩ | ⟨_, hkept⟩
        · rw [hunguarded] at hlistener
          exact hinv.answers other file (by rw [hphase]; exact hlistener)
        · exact hinv.answers other file (hkept ▸ hlistener)
      · exact fun _ _ => hnofile
  | _ => simp [next, hphase] at hnext

/-- The rest of a call's steps end it. -/
theorem inv_over (hinv : world.Inv) {action : Action}
    (hover : action = .listenFails ∨ action = .dropListener ∨ action = .crash)
    (hnext : world.next call action = some after) : after.Inv := by
  have hclosed : after = world.close call := by
    rcases hover with rfl | rfl | rfl <;> cases hphase : world.phase call <;>
      simp [next, hphase] at hnext <;> exact hnext.symm
  rw [hclosed]
  exact inv_close hinv call

theorem inv_step (world after : World P) (hinv : world.Inv)
    (hstep : SerialStep world after) : after.Inv := by
  obtain ⟨call, action, ⟨hallowed, hnext⟩, hserial⟩ := hstep
  cases action with
  | metadata => exact inv_metadata hinv hnext
  | connect => exact inv_connect hinv hserial hnext
  | removeFile => exact inv_removeFile hinv hnext
  | bind fresh => exact inv_bind hinv hallowed hserial hnext
  | listen => exact inv_listen hinv hnext
  | listenFails => exact inv_over hinv (.inl rfl) hnext
  | setMode => exact inv_setMode hinv hnext
  | endServing => exact inv_endServing hinv hnext
  | dropGuard => exact inv_dropGuard hinv hnext
  | dropListener => exact inv_over hinv (.inr (.inl rfl)) hnext
  | crash => exact inv_over hinv (.inr (.inr rfl)) hnext

/-- Only a removal after a failed connect and a guard take a file from the
path. -/
theorem remover_of_taken {action : Action} {inode : ℕ}
    (hnext : world.next call action = some after) (hpath : world.path = some inode)
    (htaken : after.path ≠ some inode) :
    world.phase call = .removing ∨ ∃ own, world.phase call = .stopping own := by
  cases hphase : world.phase call with
  | removing => exact .inl rfl
  | stopping own => exact .inr ⟨own, rfl⟩
  | _ =>
      refine absurd ?_ htaken
      cases action <;> simp only [next, hphase, hpath, reduceCtorEq] at hnext <;>
        first
        | (rw [← Option.some.inj hnext]; exact hpath)
        | (split_ifs at hnext <;> rw [← Option.some.inj hnext] <;> exact hpath)

/-- In every run whose connects and binds come at no other call's time, no step
takes from the path the file of a socket another call has bound and not closed. -/
theorem takes_no_other_file (hreach : Reachable Initial SerialStep world)
    {action : Action} (hdoes : Does call action world after) :
    ∀ other, other ≠ call → ¬TakesFileOf world after other := by
  have hinv : world.Inv := hreach.invariant inv_initial inv_step
  rintro other hother ⟨inode, hpath, htaken, hsocket⟩
  have hfile : (world.phase other).file = some inode := by
    cases hphase : world.phase other with
    | unguarded own =>
        rw [hphase] at hsocket
        rw [← Option.some.inj hsocket] at hpath
        exact absurd hpath (hinv.gone other own hphase)
    | _ =>
        rw [hphase] at hsocket
        exact hsocket
  rcases remover_of_taken hdoes.2 hpath htaken with hremoving | ⟨own, hstopping⟩
  · rw [hinv.alone call hremoving other] at hfile
    exact absurd hfile (by simp)
  · have hown : (world.phase call).file = some own := by
      rw [hstopping]
      rfl
    have hsame := (hinv.named call own hown).symm.trans hpath
    rw [Option.some.inj hsame] at hown
    exact hother (hinv.unique other call inode hsocket (socket_of_file hown))

end Steps

/-! ## Two starts -/

namespace TwoStarts

/-- Nobody has started on the path. -/
def idle (path : Option ℕ) : World Bool where
  path := path
  listens := fun _ => false
  foreign := fun _ => false
  phase := fun _ => .idle

theorem initial_idle (path : Option ℕ) : Initial (idle path) :=
  ⟨fun _ => rfl, fun _ => rfl⟩

/-- One call has bound a free path, and its serving is over. -/
def stopping : World Bool :=
  let bound := { ((idle none).move false .binding).move false (.bound 1) with
    path := some 1 }
  let listening := { bound.move false (.listening 1) with
    listens := Function.update bound.listens 1 true }
  (listening.move false (.serving 1)).move false (.stopping 1)

theorem reachable_stopping : Reachable Initial SerialStep stopping := by
  have hchecked : Reachable Initial SerialStep ((idle none).move false .binding) :=
    (Reachable.start (initial_idle none)).tail
      ⟨false, .metadata, ⟨trivial, rfl⟩, trivial⟩
  have hbound := hchecked.tail ⟨false, .bind 1,
    ⟨fun other => by cases other <;> decide, rfl⟩,
    fun other => by cases other <;> decide⟩
  have hlistening := hbound.tail ⟨false, .listen, ⟨trivial, rfl⟩, trivial⟩
  have hserving := hlistening.tail ⟨false, .setMode, ⟨trivial, rfl⟩, trivial⟩
  exact hserving.tail ⟨false, .endServing, ⟨trivial, rfl⟩, trivial⟩

/-- Its guard takes nothing of the other call. -/
theorem stopping_takes_no_other_file :
    ∃ after, Does false .dropGuard stopping after ∧
      ¬TakesFileOf stopping after true := by
  have hremoves : Does false .dropGuard stopping
      { stopping.move false (.unguarded 1) with path := none } := ⟨trivial, rfl⟩
  exact ⟨_, hremoves, takes_no_other_file reachable_stopping hremoves true (by decide)⟩

/-- Both calls find that nobody answers on the file left behind; one removes it
and serves, and the other is about to remove what it found. -/
def raced : World Bool :=
  let found := ((idle (some 0)).move false .probing).move true .probing
  let refused := (found.move false .removing).move true .removing
  let removed := { refused.move false .binding with path := none }
  let bound := { removed.move false (.bound 1) with path := some 1 }
  let listening := { bound.move false (.listening 1) with
    listens := Function.update bound.listens 1 true }
  listening.move false (.serving 1)

theorem reachable_raced : Reachable Initial Step raced := by
  have hfound : Reachable Initial Step ((idle (some 0)).move false .probing) :=
    (Reachable.start (initial_idle (some 0))).tail
      ⟨false, .metadata, trivial, rfl⟩
  have hboth := hfound.tail ⟨true, .metadata, trivial, rfl⟩
  have hrefused := hboth.tail ⟨false, .connect, trivial, rfl⟩
  have hrefusedBoth := hrefused.tail ⟨true, .connect, trivial, rfl⟩
  have hremoved := hrefusedBoth.tail ⟨false, .removeFile, trivial, rfl⟩
  have hbound := hremoved.tail ⟨false, .bind 1,
    fun other => by cases other <;> decide, rfl⟩
  have hlistening := hbound.tail ⟨false, .listen, trivial, rfl⟩
  exact hlistening.tail ⟨false, .setMode, trivial, rfl⟩

theorem late_removal_takes_live_socket :
    ¬∀ (world after : World Bool) (call : Bool) (action : Action),
      Reachable Initial Step world → Does call action world after →
        ∀ other, other ≠ call → ¬TakesFileOf world after other := by
  intro hsafe
  have hremoves : Does true .removeFile raced
      { raced.move true .binding with path := none } := ⟨trivial, rfl⟩
  exact hsafe raced _ true .removeFile reachable_raced hremoves false (by decide)
    ⟨1, rfl, by simp, rfl⟩

end TwoStarts

end World

end Ktsense.Daemon.SocketPath
