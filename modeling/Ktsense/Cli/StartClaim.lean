import Ktsense.Foundation.Transition

/-!
# The start claim

`daemon.rs` lets one start of a root's daemon proceed at a time: the claim is an
exclusive `flock` on a file found through one path, which a release unlinks
before it closes the descriptor.  Starts are modelled as parties that make one
system call a step, in any interleaving, and may crash between any two.

The kernel is what the source assumes of it.  `open` finds the file the path
names or creates one on an inode nothing links and no descriptor has open; a
lock belongs to the descriptor that took it and goes when that descriptor
closes; `unlink` takes away the name whatever file it leads to; a file's link
count is positive while the path names it.
-/

namespace Ktsense.Cli.StartClaim

open Ktsense.Foundation

/-- Where a start is in `take_claim` and in the release of its claim. -/
inductive Phase where
  | idle
  | opened (inode : ℕ)
  | refused (inode : ℕ)
  | locked (inode : ℕ)
  | stale (inode : ℕ)
  | granted (inode : ℕ)
  | unlinked (inode : ℕ)
  deriving DecidableEq, Repr

namespace Phase

/-- The file a start has open. -/
def descriptor : Phase → Option ℕ
  | idle => none
  | opened inode => some inode
  | refused inode => some inode
  | locked inode => some inode
  | stale inode => some inode
  | granted inode => some inode
  | unlinked inode => some inode

/-- The file a start has locked. -/
def lock : Phase → Option ℕ
  | locked inode => some inode
  | stale inode => some inode
  | granted inode => some inode
  | unlinked inode => some inode
  | _ => none

end Phase

variable {P : Type*} [DecidableEq P]

/-- The claim path, the locks the kernel keeps, and every start. -/
structure World (P : Type*) where
  claim : Option ℕ
  holder : ℕ → Option P
  phase : P → Phase

/-- One system call of a start, or its death. -/
inductive Action where
  | openClaim (fresh : ℕ)
  | flock
  | checkLinks
  | unlink
  | close
  | crash
  deriving DecidableEq, Repr

namespace World

def move (world : World P) (start : P) (phase : Phase) : World P :=
  { world with phase := Function.update world.phase start phase }

/-- The descriptor of `start` closes, and its lock with it. -/
def drop (world : World P) (start : P) : World P :=
  { world.move start .idle with
    holder := fun inode =>
      if world.holder inode = some start then none else world.holder inode }

/-- What a system call does; `none` when the start is not at that call. -/
def next (world : World P) (start : P) : Action → Option (World P)
  | .openClaim fresh =>
      match world.phase start with
      | .idle =>
          match world.claim with
          | some inode => some (world.move start (.opened inode))
          | none => some { world.move start (.opened fresh) with claim := some fresh }
      | _ => none
  | .flock =>
      match world.phase start with
      | .opened inode =>
          match world.holder inode with
          | none =>
              some { world.move start (.locked inode) with
                holder := Function.update world.holder inode (some start) }
          | some _ => some (world.move start (.refused inode))
      | _ => none
  | .checkLinks =>
      match world.phase start with
      | .locked inode =>
          if world.claim = some inode then some (world.move start (.granted inode))
          else some (world.move start (.stale inode))
      | _ => none
  | .unlink =>
      match world.phase start with
      | .granted inode =>
          some { world.move start (.unlinked inode) with claim := none }
      | _ => none
  | .close =>
      match world.phase start with
      | .refused _ => some (world.drop start)
      | .stale _ => some (world.drop start)
      | .unlinked _ => some (world.drop start)
      | _ => none
  | .crash => some (world.drop start)

/-- A file is created on an inode that no descriptor has open. -/
def Allowed (world : World P) : Action → Prop
  | .openClaim fresh => ∀ start, (world.phase start).descriptor ≠ some fresh
  | _ => True

def Does (start : P) (action : Action) (world after : World P) : Prop :=
  world.Allowed action ∧ world.next start action = some after

/-- One step of anyone. -/
def Step (world after : World P) : Prop :=
  ∃ start action, Does start action world after

/-- Nothing is running; a claim file may have been left behind. -/
def Initial (world : World P) : Prop :=
  (∀ inode, world.holder inode = none) ∧ ∀ start, world.phase start = .idle

/-- `take_claim` run alone: what it returns and the world it leaves. -/
inductive TakesClaim (start : P) : World P → Option ℕ → World P → Prop where
  | granted {world opened locked after : World P} {fresh inode : ℕ}
      (hopen : Does start (.openClaim fresh) world opened)
      (hflock : Does start .flock opened locked)
      (hcheck : Does start .checkLinks locked after)
      (hgranted : after.phase start = .granted inode) :
      TakesClaim start world (some inode) after
  | refused {world opened refused after : World P} {fresh inode : ℕ}
      (hopen : Does start (.openClaim fresh) world opened)
      (hflock : Does start .flock opened refused)
      (hrefused : refused.phase start = .refused inode)
      (hclose : Does start .close refused after) :
      TakesClaim start world none after
  | stale {world opened locked stale after : World P} {fresh inode : ℕ}
      (hopen : Does start (.openClaim fresh) world opened)
      (hflock : Does start .flock opened locked)
      (hcheck : Does start .checkLinks locked stale)
      (hstale : stale.phase start = .stale inode)
      (hclose : Does start .close stale after) :
      TakesClaim start world none after

/-! ## The invariant -/

/-- The kernel's locks are those the starts think they have, and a granted
claim is the file the path names. -/
structure Inv (world : World P) : Prop where
  holder_iff : ∀ inode start,
    world.holder inode = some start ↔ (world.phase start).lock = some inode
  granted_named : ∀ start inode,
    world.phase start = .granted inode → world.claim = some inode

omit [DecidableEq P] in
theorem inv_initial (world : World P) (hinitial : world.Initial) : world.Inv := by
  obtain ⟨hholder, hphase⟩ := hinitial
  constructor
  · intro inode start
    simp [hholder, hphase, Phase.lock]
  · intro start inode hgranted
    simp [hphase] at hgranted

section Steps

variable {world : World P} {start : P} {phase : Phase}

@[simp]
theorem move_claim : (world.move start phase).claim = world.claim := rfl

@[simp]
theorem move_holder : (world.move start phase).holder = world.holder := rfl

@[simp]
theorem move_phase_self : (world.move start phase).phase start = phase :=
  Function.update_self _ _ _

theorem move_phase_of_ne {other : P} (hother : other ≠ start) :
    (world.move start phase).phase other = world.phase other :=
  Function.update_of_ne hother _ _

/-- A move that neither takes nor gives up a lock. -/
theorem move_lock (hlock : phase.lock = (world.phase start).lock) (other : P) :
    ((world.move start phase).phase other).lock = (world.phase other).lock := by
  by_cases hother : other = start
  · rw [hother, move_phase_self, hlock]
  · rw [move_phase_of_ne hother]

theorem inv_move (hinv : world.Inv) (hlock : phase.lock = (world.phase start).lock)
    (hgranted : ∀ inode, phase = .granted inode → world.claim = some inode) :
    (world.move start phase).Inv := by
  constructor
  · intro inode other
    rw [move_holder, move_lock hlock, hinv.holder_iff]
  · intro other inode hother
    by_cases hsame : other = start
    · rw [hsame, move_phase_self] at hother
      exact hgranted inode hother
    · rw [move_phase_of_ne hsame] at hother
      exact hinv.granted_named other inode hother

theorem inv_drop (hinv : world.Inv) (start : P) : (world.drop start).Inv := by
  constructor
  · intro inode other
    change (if world.holder inode = some start then none
      else world.holder inode) = some other ↔
        ((world.move start .idle).phase other).lock = some inode
    by_cases hother : other = start
    · rw [hother, move_phase_self]
      by_cases hheld : world.holder inode = some start
      · simp [hheld, Phase.lock]
      · simp [hheld, Phase.lock]
    · rw [move_phase_of_ne hother, ← hinv.holder_iff]
      by_cases hheld : world.holder inode = some start
      · simp [hheld, Ne.symm hother]
      · simp [hheld]
  · intro other inode hgranted
    by_cases hother : other = start
    · rw [hother] at hgranted
      exact absurd hgranted (by simp [drop])
    · apply hinv.granted_named other
      rwa [← move_phase_of_ne hother]

omit [DecidableEq P] in
/-- At most one claim is granted at a time. -/
theorem Inv.granted_unique (hinv : world.Inv) {first second : P}
    {left right : ℕ} (hfirst : world.phase first = .granted left)
    (hsecond : world.phase second = .granted right) : first = second := by
  have hnamed : left = right := by
    have hleft := hinv.granted_named first left hfirst
    rw [hinv.granted_named second right hsecond] at hleft
    exact (Option.some.inj hleft).symm
  have hholdsFirst : world.holder left = some first :=
    (hinv.holder_iff left first).2 (by rw [hfirst]; rfl)
  have hholdsSecond : world.holder left = some second :=
    (hinv.holder_iff left second).2 (by rw [hsecond, hnamed]; rfl)
  rw [hholdsFirst] at hholdsSecond
  exact Option.some.inj hholdsSecond

theorem inv_open (hinv : world.Inv) {after : World P} {fresh : ℕ}
    (hnext : world.next start (.openClaim fresh) = some after) : after.Inv := by
  cases hphase : world.phase start with
  | idle =>
      simp only [next, hphase] at hnext
      cases hclaim : world.claim with
      | some inode =>
          simp only [hclaim, Option.some.injEq] at hnext
          rw [← hnext]
          exact inv_move hinv (by rw [hphase]; rfl) (by simp)
      | none =>
          simp only [hclaim, Option.some.injEq] at hnext
          have hmoved : (world.move start (.opened fresh)).Inv :=
            inv_move hinv (by rw [hphase]; rfl) (by simp)
          rw [← hnext]
          refine ⟨hmoved.holder_iff, ?_⟩
          -- while the path names nothing no claim is granted
          intro other inode hgranted
          have hnamed := hmoved.granted_named other inode hgranted
          rw [move_claim, hclaim] at hnamed
          exact absurd hnamed (by simp)
  | _ => simp [next, hphase] at hnext

theorem inv_flock (hinv : world.Inv) {after : World P}
    (hnext : world.next start .flock = some after) : after.Inv := by
  cases hphase : world.phase start with
  | opened inode =>
      simp only [next, hphase] at hnext
      cases hholder : world.holder inode with
      | some other =>
          simp only [hholder, Option.some.injEq] at hnext
          rw [← hnext]
          exact inv_move hinv (by rw [hphase]; rfl) (by simp)
      | none =>
          simp only [hholder, Option.some.injEq] at hnext
          rw [← hnext]
          constructor
          · intro file other
            change Function.update world.holder inode (some start) file = some other ↔
              ((world.move start (.locked inode)).phase other).lock = some file
            by_cases hother : other = start
            · subst hother
              rw [move_phase_self]
              by_cases hfile : file = inode
              · simp [hfile, Phase.lock]
              · rw [Function.update_of_ne hfile, hinv.holder_iff, hphase]
                simp [Phase.lock, Ne.symm hfile]
            · rw [move_phase_of_ne hother, ← hinv.holder_iff]
              by_cases hfile : file = inode
              · subst hfile
                simp [hholder, Ne.symm hother]
              · rw [Function.update_of_ne hfile]
          · intro other file hgranted
            by_cases hother : other = start
            · subst hother
              exact absurd hgranted (by simp [move])
            · apply hinv.granted_named other
              rwa [← move_phase_of_ne hother]
  | _ => simp [next, hphase] at hnext

theorem inv_checkLinks (hinv : world.Inv) {after : World P}
    (hnext : world.next start .checkLinks = some after) : after.Inv := by
  cases hphase : world.phase start with
  | locked inode =>
      simp only [next, hphase] at hnext
      split at hnext
      · rename_i hnamed
        rw [← Option.some.inj hnext]
        apply inv_move hinv (by rw [hphase]; rfl)
        intro file hgranted
        rw [hnamed, Phase.granted.inj hgranted]
      · rw [← Option.some.inj hnext]
        exact inv_move hinv (by rw [hphase]; rfl) (by simp)
  | _ => simp [next, hphase] at hnext

theorem inv_unlink (hinv : world.Inv) {after : World P}
    (hnext : world.next start .unlink = some after) : after.Inv := by
  cases hphase : world.phase start with
  | granted inode =>
      simp only [next, hphase, Option.some.injEq] at hnext
      have hmoved : (world.move start (.unlinked inode)).Inv :=
        inv_move hinv (by rw [hphase]; rfl) (by simp)
      rw [← hnext]
      refine ⟨hmoved.holder_iff, ?_⟩
      intro other file hgranted
      have hother : other ≠ start := by
        rintro rfl
        exact absurd hgranted (by simp [move])
      rw [move_phase_of_ne hother] at hgranted
      exact absurd (hinv.granted_unique hgranted hphase) hother
  | _ => simp [next, hphase] at hnext

theorem inv_close (hinv : world.Inv) {after : World P}
    (hnext : world.next start .close = some after) : after.Inv := by
  have hdropped : after = world.drop start := by
    cases hphase : world.phase start <;> simp [next, hphase] at hnext <;>
      exact hnext.symm
  rw [hdropped]
  exact inv_drop hinv start

theorem inv_step (world after : World P) (hinv : world.Inv)
    (hstep : Step world after) : after.Inv := by
  obtain ⟨start, action, _, hnext⟩ := hstep
  cases action with
  | openClaim fresh => exact inv_open hinv hnext
  | flock => exact inv_flock hinv hnext
  | checkLinks => exact inv_checkLinks hinv hnext
  | unlink => exact inv_unlink hinv hnext
  | close => exact inv_close hinv hnext
  | crash =>
      rw [← Option.some.inj hnext]
      exact inv_drop hinv start

theorem inv_reachable {world : World P} (hreach : Reachable Initial Step world) :
    world.Inv :=
  hreach.invariant inv_initial inv_step

end Steps

/-! ## A start on its own -/

section Alone

variable {world after : World P} {start : P}

theorem opened_of_open {fresh : ℕ} (hidle : world.phase start = .idle)
    (hopen : world.next start (.openClaim fresh) = some after) :
    ∃ inode, after.phase start = .opened inode ∧ after.claim = some inode ∧
      after.holder = world.holder := by
  simp only [next, hidle] at hopen
  cases hclaim : world.claim with
  | some inode =>
      simp only [hclaim, Option.some.injEq] at hopen
      rw [← hopen]
      exact ⟨inode, move_phase_self, hclaim, rfl⟩
  | none =>
      simp only [hclaim, Option.some.injEq] at hopen
      rw [← hopen]
      exact ⟨fresh, move_phase_self, rfl, rfl⟩

theorem next_flock_of_free {inode : ℕ} (hopened : world.phase start = .opened inode)
    (hfree : world.holder inode = none) :
    world.next start .flock =
      some { world.move start (.locked inode) with
        holder := Function.update world.holder inode (some start) } := by
  simp only [next, hopened, hfree]

theorem next_checkLinks_of_named {inode : ℕ}
    (hlocked : world.phase start = .locked inode)
    (hnamed : world.claim = some inode) :
    world.next start .checkLinks = some (world.move start (.granted inode)) := by
  simp only [next, hlocked, hnamed, if_true]

/-- With no descriptor open, an open is followed by a granted lock on the file
the path names. -/
theorem locked_of_open {fresh : ℕ} (hinv : world.Inv)
    (hidle : ∀ other, world.phase other = .idle)
    (hopen : world.next start (.openClaim fresh) = some after) :
    ∃ inode locked, after.next start .flock = some locked ∧
      locked.phase start = .locked inode ∧ locked.claim = some inode := by
  obtain ⟨inode, hopened, hclaim, hholder⟩ := opened_of_open (hidle start) hopen
  have hfree : after.holder inode = none := by
    rw [hholder]
    cases hheld : world.holder inode with
    | none => rfl
    | some other =>
        rw [hinv.holder_iff, hidle] at hheld
        exact absurd hheld (by simp [Phase.lock])
  exact ⟨inode, _, next_flock_of_free hopened hfree, move_phase_self, hclaim⟩

/-- `take_claim` run alone while no descriptor is open is granted. -/
theorem takesClaim_alone (hinv : world.Inv)
    (hidle : ∀ other, world.phase other = .idle) (start : P) :
    (∃ inode after, TakesClaim start world (some inode) after) ∧
      ∀ result after, TakesClaim start world result after →
        ∃ inode, result = some inode := by
  constructor
  · have hallowed : world.Allowed (.openClaim 0) := by
      intro other
      simp [hidle, Phase.descriptor]
    obtain ⟨opened, hopen⟩ : ∃ opened,
        world.next start (.openClaim 0) = some opened := by
      simp only [next, hidle]
      cases world.claim with
      | none => exact ⟨_, rfl⟩
      | some inode => exact ⟨_, rfl⟩
    obtain ⟨inode, locked, hflock, hlocked, hclaim⟩ :=
      locked_of_open hinv hidle hopen
    exact ⟨inode, _, .granted ⟨hallowed, hopen⟩ ⟨trivial, hflock⟩
      ⟨trivial, next_checkLinks_of_named hlocked hclaim⟩ move_phase_self⟩
  · intro result after htakes
    cases htakes with
    | granted hopen hflock hcheck hgranted => exact ⟨_, rfl⟩
    | refused hopen hflock hrefused hclose =>
        obtain ⟨inode, locked, hlocks, hlocked, _⟩ :=
          locked_of_open hinv hidle hopen.2
        rw [← Option.some.inj (hlocks.symm.trans hflock.2), hlocked] at hrefused
        exact absurd hrefused (by simp)
    | stale hopen hflock hcheck hstale hclose =>
        obtain ⟨inode, locked, hlocks, hlocked, hclaim⟩ :=
          locked_of_open hinv hidle hopen.2
        have hsame : locked = _ := Option.some.inj (hlocks.symm.trans hflock.2)
        subst hsame
        have hchecked := hcheck.2
        rw [next_checkLinks_of_named hlocked hclaim] at hchecked
        rw [← Option.some.inj hchecked, move_phase_self] at hstale
        exact absurd hstale (by simp)

/-- In every reachable world at most one claim is granted, a release unlinks
the file its own claim is on, and when no descriptor is open the next start
alone is granted. -/
theorem start_claim_safe {world : World P}
    (hreach : Reachable Initial Step world) :
    (∀ first second left right, world.phase first = .granted left →
      world.phase second = .granted right → first = second) ∧
    (∀ start inode after, world.phase start = .granted inode →
      Does start .unlink world after →
        world.claim = some inode ∧ after.claim = none) ∧
    ((∀ start, (world.phase start).descriptor = none) → ∀ start,
      (∃ inode after, TakesClaim start world (some inode) after) ∧
        ∀ result after, TakesClaim start world result after →
          ∃ inode, result = some inode) := by
  have hinv := inv_reachable hreach
  refine ⟨?_, ?_, ?_⟩
  · intro first second left right hfirst hsecond
    exact hinv.granted_unique hfirst hsecond
  · intro start inode after hgranted hunlink
    refine ⟨hinv.granted_named start inode hgranted, ?_⟩
    have hnext := hunlink.2
    simp only [next, hgranted, Option.some.injEq] at hnext
    rw [← hnext]
  · intro hclosed start
    apply takesClaim_alone hinv
    intro other
    cases hphase : world.phase other with
    | idle => rfl
    | _ => exact absurd (hclosed other) (by simp [hphase, Phase.descriptor])

/-- The file a holder left when it died is claimed again by the other start. -/
theorem abandoned_claim_is_taken :
    let abandoned : World Bool := ⟨some 7, fun _ => none, fun _ => .idle⟩
    Reachable Initial Step abandoned ∧
      ∃ inode after, TakesClaim true abandoned (some inode) after := by
  have hreach : Reachable Initial Step
      (⟨some 7, fun _ => none, fun _ => .idle⟩ : World Bool) :=
    Reachable.start ⟨fun _ => rfl, fun _ => rfl⟩
  exact ⟨hreach, ((start_claim_safe hreach).2.2 (fun _ => rfl) true).1⟩

end Alone

end World

end Ktsense.Cli.StartClaim
