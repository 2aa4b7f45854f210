import Ktsense.Cli.StartClaim

/-!
# Starts and the daemons they spawn

`start` of `daemon.rs` over the start claim: a start looks for a live daemon, takes the
claim, looks again, spawns a daemon and holds the claim until that daemon answers.  Starts
and daemons run in any interleaving; daemons may end at any time and starts may die.  Only
where a start gives up on, or dies before, a daemon that it spawned and that is still
warming up can a second daemon come to be beside it.
-/

namespace Ktsense.Cli.StartLifecycle

open Ktsense.Foundation Ktsense.Cli.StartClaim

inductive Outcome where
  | started
  | alreadyRunning
  | failed
  deriving DecidableEq, Repr

/-- Where a start is.  Between `claiming` and `releasing` the claim has its own phases. -/
inductive Stage where
  | idle
  | looping
  | claiming
  | checking
  | spawning
  | awaiting
  | releasing (outcome : Outcome)
  | ended (outcome : Outcome)
  | dead
  deriving DecidableEq, Repr

/-- The start has the claim and may still bring a daemon about. -/
def Stage.holds : Stage → Bool
  | .checking => true
  | .spawning => true
  | .awaiting => true
  | _ => false

variable {P : Type*} [DecidableEq P]

/-- The claim, every start, and the daemons that are warming up and that answer, each told
by the start that spawned it. -/
structure Machine (P : Type*) where
  claims : StartClaim.World P
  stage : P → Stage
  warming : Finset P
  live : Finset P

/-- What a start does, or what happens to it or to its daemon. -/
inductive Move where
  | firstCheck (mismatched : Bool)
  | topCheck
  | takeClaim (action : StartClaim.Action)
  | claimGranted
  | claimHeld (deadlinePassed : Bool)
  | claimFails
  | secondCheck
  | spawn (spawned : Bool)
  | awaitLiveness
  | giveUp
  | releaseClaim (action : StartClaim.Action)
  | finish
  | die
  | daemonAnswers
  | daemonEnds
  deriving DecidableEq, Repr

/-- The calls of `take_claim` before it knows what it returns. -/
def isTaking : StartClaim.Action → Bool
  | .openClaim _ => true
  | .flock => true
  | .checkLinks => true
  | _ => false

/-- The calls of a release. -/
def isReleasing : StartClaim.Action → Bool
  | .unlink => true
  | .close => true
  | _ => false

namespace Machine

def moveTo (machine : Machine P) (start : P) (stage : Stage) : Machine P :=
  { machine with stage := Function.update machine.stage start stage }

/-- What a move does; `none` when the start or its daemon is not there. -/
def next (machine : Machine P) (start : P) : Move → Option (Machine P)
  | .firstCheck mismatched =>
      match machine.stage start with
      | .idle =>
          if machine.live ≠ ∅ ∧ mismatched = false then
            some (machine.moveTo start (.ended .alreadyRunning))
          else some (machine.moveTo start .looping)
      | _ => none
  | .topCheck =>
      match machine.stage start with
      | .looping =>
          if machine.live ≠ ∅ then some (machine.moveTo start (.ended .alreadyRunning))
          else some (machine.moveTo start .claiming)
      | _ => none
  | .takeClaim action =>
      match machine.stage start with
      | .claiming =>
          if isTaking action then
            (machine.claims.next start action).map fun claims => { machine with claims }
          else none
      | _ => none
  | .claimGranted =>
      match machine.stage start, machine.claims.phase start with
      | .claiming, .granted _ => some (machine.moveTo start .checking)
      | _, _ => none
  | .claimHeld deadlinePassed =>
      match machine.stage start with
      | .claiming =>
          (machine.claims.next start .close).map fun claims =>
            { machine.moveTo start (if deadlinePassed then .ended .failed else .looping) with
              claims }
      | _ => none
  | .claimFails =>
      match machine.stage start with
      | .claiming =>
          some { machine.moveTo start (.ended .failed) with claims := machine.claims.drop start }
      | _ => none
  | .secondCheck =>
      match machine.stage start with
      | .checking =>
          if machine.live ≠ ∅ then some (machine.moveTo start (.releasing .alreadyRunning))
          else some (machine.moveTo start .spawning)
      | _ => none
  | .spawn spawned =>
      match machine.stage start with
      | .spawning =>
          if spawned then
            some { machine.moveTo start .awaiting with warming := insert start machine.warming }
          else some (machine.moveTo start (.releasing .failed))
      | _ => none
  | .awaitLiveness =>
      match machine.stage start with
      | .awaiting =>
          if machine.live ≠ ∅ then some (machine.moveTo start (.releasing .started)) else none
      | _ => none
  | .giveUp =>
      match machine.stage start with
      | .awaiting => some (machine.moveTo start (.releasing .failed))
      | _ => none
  | .releaseClaim action =>
      match machine.stage start with
      | .releasing _ =>
          if isReleasing action then
            (machine.claims.next start action).map fun claims => { machine with claims }
          else none
      | _ => none
  | .finish =>
      match machine.stage start, machine.claims.phase start with
      | .releasing outcome, .idle => some (machine.moveTo start (.ended outcome))
      | _, _ => none
  | .die => some { machine.moveTo start .dead with claims := machine.claims.drop start }
  | .daemonAnswers =>
      if start ∈ machine.warming then
        some { machine with
          warming := machine.warming.erase start
          live := insert start machine.live }
      else none
  | .daemonEnds =>
      some { machine with
        warming := machine.warming.erase start
        live := machine.live.erase start }

/-- A claim file is created on an inode that no descriptor has open. -/
def Allowed (machine : Machine P) : Move → Prop
  | .takeClaim action => machine.claims.Allowed action
  | _ => True

/-- A start does not give up on, or die before, a daemon of its own that warms up. -/
def Patient (machine : Machine P) (start : P) : Move → Prop
  | .giveUp => start ∉ machine.warming
  | .die => start ∉ machine.warming
  | _ => True

def PatientStep (machine after : Machine P) : Prop :=
  ∃ start move, machine.Allowed move ∧ machine.Patient start move ∧
    machine.next start move = some after

/-- No start has begun, and there is no daemon; a claim file may have been left behind. -/
def Initial (machine : Machine P) : Prop :=
  machine.claims.Initial ∧ (∀ start, machine.stage start = .idle) ∧
    machine.warming = ∅ ∧ machine.live = ∅

/-- A daemon of the start is warming up or answers. -/
def HasDaemon (machine : Machine P) (start : P) : Prop :=
  start ∈ machine.warming ∨ start ∈ machine.live

/-! ## The invariant -/

/-- Who may bring a daemon about has the claim, spawns only where there is none, and waits
for its own; a daemon that warms up is waited for. -/
structure Inv (machine : Machine P) : Prop where
  claims : machine.claims.Inv
  holds : ∀ start, (machine.stage start).holds = true →
    ∃ inode, machine.claims.phase start = .granted inode
  warming : ∀ start ∈ machine.warming, machine.stage start = .awaiting
  apart : ∀ start ∈ machine.warming, start ∉ machine.live
  spawning : ∀ start, machine.stage start = .spawning → machine.live = ∅
  awaiting : ∀ start other, machine.stage start = .awaiting → machine.HasDaemon other →
    other = start
  one : ∀ start other, machine.HasDaemon start → machine.HasDaemon other → start = other

section Steps

variable {machine after : Machine P} {start : P}

omit [DecidableEq P] in
theorem inv_initial (hinitial : machine.Initial) : machine.Inv := by
  obtain ⟨hclaims, hstage, hwarming, hlive⟩ := hinitial
  have hnone : ∀ start, ¬machine.HasDaemon start := by
    intro start hdaemon
    simp [HasDaemon, hwarming, hlive] at hdaemon
  exact
    { claims := StartClaim.World.inv_initial _ hclaims
      holds := fun start hholds => by simp [hstage, Stage.holds] at hholds
      warming := fun start hmem => by simp [hwarming] at hmem
      apart := fun start hmem => by simp [hwarming] at hmem
      spawning := fun _ _ => hlive
      awaiting := fun _ other _ hdaemon => absurd hdaemon (hnone other)
      one := fun start _ hdaemon => absurd hdaemon (hnone start) }

omit [DecidableEq P] in
/-- Two starts never hold at once. -/
theorem Inv.alone (hinv : machine.Inv) {other : P}
    (hstart : (machine.stage start).holds = true)
    (hother : (machine.stage other).holds = true) : start = other := by
  obtain ⟨_, hleft⟩ := hinv.holds start hstart
  obtain ⟨_, hright⟩ := hinv.holds other hother
  exact hinv.claims.granted_unique hleft hright

omit [DecidableEq P] in
/-- While a start holds, no daemon of another warms up. -/
theorem Inv.not_warming (hinv : machine.Inv) (hholds : (machine.stage start).holds = true)
    (hstage : machine.stage start ≠ .awaiting) : machine.warming = ∅ := by
  rw [Finset.eq_empty_iff_forall_notMem]
  intro other hother
  have hawaiting := hinv.warming other hother
  have hsame : start = other := hinv.alone hholds (by rw [hawaiting]; rfl)
  exact hstage (hsame ▸ hawaiting)

/-- A call of the claim by one start does not move another. -/
theorem claims_phase_of_ne {claims : StartClaim.World P} {action : StartClaim.Action}
    (hnext : machine.claims.next start action = some claims) {other : P}
    (hother : other ≠ start) : claims.phase other = machine.claims.phase other := by
  cases action <;> simp only [StartClaim.World.next] at hnext
  all_goals first
    | (split at hnext <;> first
        | (cases hnext; exact StartClaim.World.move_phase_of_ne hother)
        | (split at hnext <;> cases hnext <;> exact StartClaim.World.move_phase_of_ne hother)
        | cases hnext)
    | (cases hnext; exact StartClaim.World.move_phase_of_ne hother)

/-- A start without a daemon that warms up goes to a stage in which it does not wait for
one. -/
theorem inv_goes (hinv : machine.Inv) {claims : StartClaim.World P} {stage : Stage}
    (hclaims : claims.Inv)
    (hothers : ∀ other, other ≠ start → claims.phase other = machine.claims.phase other)
    (hwarming : start ∉ machine.warming)
    (hholds : stage.holds = true → ∃ inode, claims.phase start = .granted inode)
    (hspawning : stage = .spawning → machine.live = ∅) (hawaiting : stage ≠ .awaiting) :
    Inv { machine.moveTo start stage with claims } := by
  have hself : (machine.moveTo start stage).stage start = stage := Function.update_self _ _ _
  have hrest : ∀ other, other ≠ start →
      (machine.moveTo start stage).stage other = machine.stage other := fun other hother =>
    Function.update_of_ne hother _ _
  constructor
  · exact hclaims
  · intro other hother
    change ((machine.moveTo start stage).stage other).holds = true at hother
    by_cases hsame : other = start
    · rw [hsame, hself] at hother
      rw [hsame]
      exact hholds hother
    · rw [hrest other hsame] at hother
      obtain ⟨inode, hgranted⟩ := hinv.holds other hother
      exact ⟨inode, (hothers other hsame).trans hgranted⟩
  · intro other hother
    have hne : other ≠ start := fun heq => hwarming (heq ▸ hother)
    exact (hrest other hne).trans (hinv.warming other hother)
  · exact hinv.apart
  · intro other hother
    change (machine.moveTo start stage).stage other = _ at hother
    by_cases hsame : other = start
    · rw [hsame, hself] at hother
      exact hspawning hother
    · rw [hrest other hsame] at hother
      exact hinv.spawning other hother
  · intro other daemon hother hdaemon
    change (machine.moveTo start stage).stage other = _ at hother
    by_cases hsame : other = start
    · rw [hsame, hself] at hother
      exact absurd hother hawaiting
    · rw [hrest other hsame] at hother
      exact hinv.awaiting other daemon hother hdaemon
  · exact hinv.one

/-- The same where the claim stays as it is. -/
theorem inv_moveTo (hinv : machine.Inv) {stage : Stage}
    (hbefore : machine.stage start ≠ .awaiting)
    (hholds : stage.holds = true → (machine.stage start).holds = true)
    (hspawning : stage = .spawning → machine.live = ∅) (hawaiting : stage ≠ .awaiting) :
    (machine.moveTo start stage).Inv :=
  inv_goes hinv hinv.claims (fun _ _ => rfl) (fun hmem => hbefore (hinv.warming start hmem))
    (fun hstage => hinv.holds start (hholds hstage)) hspawning hawaiting

omit [DecidableEq P] in
theorem allowed_of_isReleasing {claims : StartClaim.World P} {action : StartClaim.Action}
    (hreleasing : isReleasing action = true) : claims.Allowed action := by
  cases action <;> trivial

/-- A call of the claim, after which the start brings no daemon about. -/
theorem inv_claims (hinv : machine.Inv) {action : StartClaim.Action}
    {claims : StartClaim.World P} (hallowed : machine.claims.Allowed action)
    (hnext : machine.claims.next start action = some claims) {stage : Stage}
    (hbefore : machine.stage start ≠ .awaiting) (hstage : stage.holds = false) :
    Inv { machine.moveTo start stage with claims } := by
  have hclaims : claims.Inv :=
    StartClaim.World.inv_step _ _ hinv.claims ⟨start, action, hallowed, hnext⟩
  refine inv_goes hinv hclaims (fun other => claims_phase_of_ne hnext)
    (fun hmem => hbefore (hinv.warming start hmem)) (fun hholds => ?_) ?_ ?_
  · rw [hstage] at hholds
    cases hholds
  · rintro rfl
    cases hstage
  · rintro rfl
    cases hstage

theorem moveTo_self (machine : Machine P) (start : P) :
    machine.moveTo start (machine.stage start) = machine := by
  rw [moveTo, Function.update_eq_self]

/-- The spawn of a daemon, where there is none. -/
theorem inv_spawn (hinv : machine.Inv) (hstage : machine.stage start = .spawning) :
    Inv { machine.moveTo start .awaiting with warming := insert start machine.warming } := by
  have hlive := hinv.spawning start hstage
  have hwarming : machine.warming = ∅ :=
    hinv.not_warming (by rw [hstage]; rfl) (by rw [hstage]; nofun)
  have hself : (machine.moveTo start .awaiting).stage start = .awaiting :=
    Function.update_self _ _ _
  have hrest : ∀ other, other ≠ start →
      (machine.moveTo start .awaiting).stage other = machine.stage other := fun other hother =>
    Function.update_of_ne hother _ _
  have honly : ∀ other, HasDaemon { machine.moveTo start .awaiting with
      warming := insert start machine.warming } other → other = start := by
    intro other hdaemon
    simpa [HasDaemon, moveTo, hwarming, hlive] using hdaemon
  constructor
  · exact hinv.claims
  · intro other hother
    change ((machine.moveTo start .awaiting).stage other).holds = true at hother
    by_cases hsame : other = start
    · rw [hsame]
      exact hinv.holds start (by rw [hstage]; rfl)
    · rw [hrest other hsame] at hother
      exact hinv.holds other hother
  · intro other hother
    rw [honly other (.inl hother)]
    exact hself
  · intro other _ hmem
    change other ∈ machine.live at hmem
    rw [hlive] at hmem
    exact absurd hmem (Finset.notMem_empty _)
  · exact fun _ _ => hlive
  · intro other daemon hother hdaemon
    change (machine.moveTo start .awaiting).stage other = _ at hother
    by_cases hsame : other = start
    · rw [hsame]
      exact honly daemon hdaemon
    · rw [hrest other hsame] at hother
      have halone : other = start :=
        hinv.alone (by rw [hother]; rfl) (by rw [hstage]; rfl)
      exact absurd halone hsame
  · intro left right hleft hright
    rw [honly left hleft, honly right hright]

/-- The daemon of a start answers, and the start has seen to it that it is the only one. -/
theorem inv_answers (hinv : machine.Inv) (hmem : start ∈ machine.warming) :
    Inv { machine with
      warming := machine.warming.erase start
      live := insert start machine.live } := by
  have hawaiting := hinv.warming start hmem
  have hdaemon : ∀ other, HasDaemon { machine with
      warming := machine.warming.erase start
      live := insert start machine.live } other → machine.HasDaemon other := by
    intro other hother
    simp only [HasDaemon, Finset.mem_erase, Finset.mem_insert] at hother
    rcases hother with ⟨_, hwarming⟩ | rfl | hlive
    · exact .inl hwarming
    · exact .inl hmem
    · exact .inr hlive
  constructor
  · exact hinv.claims
  · exact hinv.holds
  · exact fun other hother => hinv.warming other (Finset.mem_of_mem_erase hother)
  · intro other hother hlive
    obtain ⟨hne, hwarming⟩ := Finset.mem_erase.mp hother
    rcases Finset.mem_insert.mp hlive with heq | hlive
    · exact hne heq
    · exact hinv.apart other hwarming hlive
  · intro other hother
    have hsame : other = start :=
      hinv.alone (by rw [hother]; rfl) (by rw [hawaiting]; rfl)
    rw [hsame, hawaiting] at hother
    cases hother
  · exact fun other daemon hother hhas => hinv.awaiting other daemon hother (hdaemon daemon hhas)
  · exact fun left right hleft hright => hinv.one left right (hdaemon left hleft)
      (hdaemon right hright)

theorem inv_ends (hinv : machine.Inv) :
    Inv { machine with
      warming := machine.warming.erase start
      live := machine.live.erase start } := by
  have hdaemon : ∀ other, HasDaemon { machine with
      warming := machine.warming.erase start
      live := machine.live.erase start } other → machine.HasDaemon other := fun other hother =>
    hother.imp Finset.mem_of_mem_erase Finset.mem_of_mem_erase
  constructor
  · exact hinv.claims
  · exact hinv.holds
  · exact fun other hother => hinv.warming other (Finset.mem_of_mem_erase hother)
  · exact fun other hother hlive => hinv.apart other (Finset.mem_of_mem_erase hother)
      (Finset.mem_of_mem_erase hlive)
  · intro other hother
    have hnone := hinv.spawning other hother
    change machine.live.erase start = ∅
    rw [hnone, Finset.erase_empty]
  · exact fun other daemon hother hhas => hinv.awaiting other daemon hother (hdaemon daemon hhas)
  · exact fun left right hleft hright => hinv.one left right (hdaemon left hleft)
      (hdaemon right hright)

omit [DecidableEq P] in
/-- A start that sees an answer sees that of its own daemon. -/
theorem Inv.own_answer (hinv : machine.Inv) (hstage : machine.stage start = .awaiting)
    (hlive : machine.live ≠ ∅) : start ∈ machine.live := by
  obtain ⟨daemon, hdaemon⟩ := Finset.nonempty_of_ne_empty hlive
  rw [← hinv.awaiting start daemon hstage (.inr hdaemon)]
  exact hdaemon

/-- A start lets its claim go without a release: `take_claim` fails, or the start dies. -/
theorem inv_drops (hinv : machine.Inv) {stage : Stage} (hwarming : start ∉ machine.warming)
    (hholds : stage.holds = false) :
    Inv { machine.moveTo start stage with claims := machine.claims.drop start } := by
  refine inv_goes hinv (StartClaim.World.inv_drop hinv.claims start)
    (fun other hother => StartClaim.World.move_phase_of_ne hother) hwarming (fun htrue => ?_) ?_ ?_
  · rw [hholds] at htrue
    cases htrue
  · rintro rfl
    cases hholds
  · rintro rfl
    cases hholds

/-- A start that does not wait goes to where it brings no daemon about. -/
theorem inv_leaves (hinv : machine.Inv) {stage : Stage}
    (hbefore : machine.stage start ≠ .awaiting) (hholds : stage.holds = false) :
    (machine.moveTo start stage).Inv := by
  refine inv_moveTo hinv hbefore (fun htrue => ?_) ?_ ?_
  · rw [hholds] at htrue
    cases htrue
  · rintro rfl
    cases hholds
  · rintro rfl
    cases hholds

/-! ### One move each -/

theorem inv_firstCheck (hinv : machine.Inv) {mismatched : Bool}
    (hnext : machine.next start (.firstCheck mismatched) = some after) : after.Inv := by
  cases hstage : machine.stage start <;> simp only [next, hstage] at hnext <;> try cases hnext
  split at hnext <;> cases hnext
  · exact inv_leaves hinv (by rw [hstage]; nofun) rfl
  · exact inv_leaves hinv (by rw [hstage]; nofun) rfl

theorem inv_topCheck (hinv : machine.Inv)
    (hnext : machine.next start .topCheck = some after) : after.Inv := by
  cases hstage : machine.stage start <;> simp only [next, hstage] at hnext <;> try cases hnext
  split at hnext <;> cases hnext
  · exact inv_leaves hinv (by rw [hstage]; nofun) rfl
  · exact inv_leaves hinv (by rw [hstage]; nofun) rfl

theorem inv_takeClaim (hinv : machine.Inv) {action : StartClaim.Action}
    (hallowed : machine.claims.Allowed action)
    (hnext : machine.next start (.takeClaim action) = some after) : after.Inv := by
  cases hstage : machine.stage start <;> simp only [next, hstage] at hnext <;> try cases hnext
  split at hnext
  · obtain ⟨claims, hclaims, rfl⟩ := Option.map_eq_some_iff.mp hnext
    rw [← moveTo_self machine start]
    exact inv_claims hinv hallowed hclaims (by rw [hstage]; nofun) (by rw [hstage]; rfl)
  · cases hnext

theorem inv_claimGranted (hinv : machine.Inv)
    (hnext : machine.next start .claimGranted = some after) : after.Inv := by
  cases hstage : machine.stage start <;> simp only [next, hstage] at hnext <;> try cases hnext
  split at hnext
  · next inode hgranted =>
      cases hnext
      refine inv_goes hinv hinv.claims (fun _ _ => rfl) ?_ (fun _ => ⟨_, hgranted⟩) nofun nofun
      intro hmem
      rw [hinv.warming start hmem] at hstage
      cases hstage
  · cases hnext

theorem inv_claimHeld (hinv : machine.Inv) {deadlinePassed : Bool}
    (hnext : machine.next start (.claimHeld deadlinePassed) = some after) : after.Inv := by
  cases hstage : machine.stage start <;> simp only [next, hstage] at hnext <;> try cases hnext
  obtain ⟨claims, hclaims, rfl⟩ := Option.map_eq_some_iff.mp hnext
  have hallowed : machine.claims.Allowed .close := trivial
  exact inv_claims hinv hallowed hclaims (by rw [hstage]; nofun)
    (by cases deadlinePassed <;> rfl)

theorem inv_claimFails (hinv : machine.Inv)
    (hnext : machine.next start .claimFails = some after) : after.Inv := by
  cases hstage : machine.stage start <;> simp only [next, hstage] at hnext <;> try cases hnext
  refine inv_drops hinv (fun hmem => ?_) rfl
  rw [hinv.warming start hmem] at hstage
  cases hstage

theorem inv_secondCheck (hinv : machine.Inv)
    (hnext : machine.next start .secondCheck = some after) : after.Inv := by
  cases hstage : machine.stage start <;> simp only [next, hstage] at hnext <;> try cases hnext
  split at hnext
  · cases hnext
    exact inv_leaves hinv (by rw [hstage]; nofun) rfl
  · next hlive =>
      cases hnext
      exact inv_moveTo hinv (by rw [hstage]; nofun) (fun _ => by rw [hstage]; rfl)
        (fun _ => not_not.mp hlive) nofun

theorem inv_spawns (hinv : machine.Inv) {spawned : Bool}
    (hnext : machine.next start (.spawn spawned) = some after) : after.Inv := by
  cases hstage : machine.stage start <;> simp only [next, hstage] at hnext <;> try cases hnext
  split at hnext <;> cases hnext
  · exact inv_spawn hinv hstage
  · exact inv_leaves hinv (by rw [hstage]; nofun) rfl

theorem inv_awaitLiveness (hinv : machine.Inv)
    (hnext : machine.next start .awaitLiveness = some after) : after.Inv := by
  cases hstage : machine.stage start <;> simp only [next, hstage] at hnext <;> try cases hnext
  split at hnext
  · next hlive =>
      cases hnext
      refine inv_goes hinv hinv.claims (fun _ _ => rfl) (fun hmem => ?_) nofun nofun nofun
      exact hinv.apart start hmem (hinv.own_answer hstage hlive)
  · cases hnext

theorem inv_giveUp (hinv : machine.Inv) (hpatient : start ∉ machine.warming)
    (hnext : machine.next start .giveUp = some after) : after.Inv := by
  cases hstage : machine.stage start <;> simp only [next, hstage] at hnext <;> try cases hnext
  exact inv_goes hinv hinv.claims (fun _ _ => rfl) hpatient nofun nofun nofun

theorem inv_releaseClaim (hinv : machine.Inv) {action : StartClaim.Action}
    (hnext : machine.next start (.releaseClaim action) = some after) : after.Inv := by
  cases hstage : machine.stage start <;> simp only [next, hstage] at hnext <;> try cases hnext
  split at hnext
  · next hreleasing =>
      obtain ⟨claims, hclaims, rfl⟩ := Option.map_eq_some_iff.mp hnext
      rw [← moveTo_self machine start]
      exact inv_claims hinv (allowed_of_isReleasing hreleasing) hclaims (by rw [hstage]; nofun)
        (by rw [hstage]; rfl)
  · cases hnext

theorem inv_finish (hinv : machine.Inv)
    (hnext : machine.next start .finish = some after) : after.Inv := by
  cases hstage : machine.stage start <;> simp only [next, hstage] at hnext <;> try cases hnext
  split at hnext
  · cases hnext
    exact inv_leaves hinv (by rw [hstage]; nofun) rfl
  · cases hnext

theorem inv_daemonAnswers (hinv : machine.Inv)
    (hnext : machine.next start .daemonAnswers = some after) : after.Inv := by
  simp only [next] at hnext
  split at hnext
  · next hmem =>
      cases hnext
      exact inv_answers hinv hmem
  · cases hnext

theorem inv_step (machine after : Machine P) (hinv : machine.Inv)
    (hstep : PatientStep machine after) : after.Inv := by
  obtain ⟨start, move, hallowed, hpatient, hnext⟩ := hstep
  cases move with
  | firstCheck mismatched => exact inv_firstCheck hinv hnext
  | topCheck => exact inv_topCheck hinv hnext
  | takeClaim action => exact inv_takeClaim hinv hallowed hnext
  | claimGranted => exact inv_claimGranted hinv hnext
  | claimHeld deadlinePassed => exact inv_claimHeld hinv hnext
  | claimFails => exact inv_claimFails hinv hnext
  | secondCheck => exact inv_secondCheck hinv hnext
  | spawn spawned => exact inv_spawns hinv hnext
  | awaitLiveness => exact inv_awaitLiveness hinv hnext
  | giveUp => exact inv_giveUp hinv hpatient hnext
  | releaseClaim action => exact inv_releaseClaim hinv hnext
  | finish => exact inv_finish hinv hnext
  | die =>
      cases hnext
      exact inv_drops hinv hpatient rfl
  | daemonAnswers => exact inv_daemonAnswers hinv hnext
  | daemonEnds =>
      cases hnext
      exact inv_ends hinv

/-- In every patient run a root has at most one daemon, a daemon is spawned only where there
is none, and a start that reports that it started a daemon reports the one it spawned. -/
theorem one_daemon_per_root {machine : Machine P}
    (hreach : Reachable Initial PatientStep machine) :
    (∀ start other, machine.HasDaemon start → machine.HasDaemon other → start = other) ∧
    (∀ start after, machine.next start (.spawn true) = some after →
      ∀ other, ¬machine.HasDaemon other) ∧
    ∀ start after, machine.next start .awaitLiveness = some after → start ∈ machine.live := by
  have hinv : machine.Inv := hreach.invariant (fun _ => inv_initial) inv_step
  refine ⟨hinv.one, ?_, ?_⟩
  · intro start after hnext other hdaemon
    cases hstage : machine.stage start <;> simp only [next, hstage] at hnext <;>
      try cases hnext
    rcases hdaemon with hwarming | hlive
    · rw [hinv.not_warming (by rw [hstage]; rfl) (by rw [hstage]; nofun)] at hwarming
      exact Finset.notMem_empty _ hwarming
    · rw [hinv.spawning start hstage] at hlive
      exact Finset.notMem_empty _ hlive
  · intro start after hnext
    cases hstage : machine.stage start <;> simp only [next, hstage] at hnext <;>
      try cases hnext
    split at hnext
    · next hlive => exact hinv.own_answer hstage hlive
    · cases hnext

end Steps

/-- Two starts at once: one waits for the claim while the daemon of the other comes to
answer. -/
theorem one_daemon_per_root_two :
    ∃ machine : Machine Bool, machine.stage false = .ended .alreadyRunning ∧
      machine.HasDaemon true ∧
      ∀ start other, machine.HasDaemon start → machine.HasDaemon other → start = other := by
  have hbegun : Reachable Initial PatientStep
      (⟨⟨none, fun _ => none, fun _ => .idle⟩, fun _ => .idle, ∅, ∅⟩ : Machine Bool) :=
    .start ⟨⟨fun _ => rfl, fun _ => rfl⟩, fun _ => rfl, rfl, rfl⟩
  have hlooping := hbegun.tail ⟨true, .firstCheck false, trivial, trivial, rfl⟩
  have hsecond := hlooping.tail ⟨false, .firstCheck false, trivial, trivial, rfl⟩
  have hclaiming := hsecond.tail ⟨true, .topCheck, trivial, trivial, rfl⟩
  have hboth := hclaiming.tail ⟨false, .topCheck, trivial, trivial, rfl⟩
  have hopened := hboth.tail
    ⟨true, .takeClaim (.openClaim 7),
      fun _ => by simp [Machine.moveTo, StartClaim.Phase.descriptor], trivial, rfl⟩
  have hlocked := hopened.tail ⟨true, .takeClaim .flock, trivial, trivial, rfl⟩
  have hlate := hlocked.tail
    ⟨false, .takeClaim (.openClaim 8), fun start => by cases start <;> decide, trivial, rfl⟩
  have hrefused := hlate.tail ⟨false, .takeClaim .flock, trivial, trivial, rfl⟩
  have hchecked := hrefused.tail ⟨true, .takeClaim .checkLinks, trivial, trivial, rfl⟩
  have hgranted := hchecked.tail ⟨true, .claimGranted, trivial, trivial, rfl⟩
  have hspawning := hgranted.tail ⟨true, .secondCheck, trivial, trivial, rfl⟩
  have hawaiting := hspawning.tail ⟨true, .spawn true, trivial, trivial, rfl⟩
  have hheld := hawaiting.tail ⟨false, .claimHeld false, trivial, trivial, rfl⟩
  have hanswers := hheld.tail ⟨true, .daemonAnswers, trivial, trivial, rfl⟩
  have hreported := hanswers.tail ⟨true, .awaitLiveness, trivial, trivial, rfl⟩
  have hended := hreported.tail ⟨false, .topCheck, trivial, trivial, rfl⟩
  exact ⟨_, rfl, .inr (Finset.mem_insert_self _ _), (one_daemon_per_root hended).1⟩

end Machine

end Ktsense.Cli.StartLifecycle
