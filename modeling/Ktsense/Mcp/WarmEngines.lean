import Ktsense.Foundation.Transition

/-!
# One warm engine for each root

`warm.rs`: tool calls on one server ask, in any interleaving, that an engine be warm for
their roots.  A call claims its root in one step; the first claim decides the root, and
runs the rest of its decision while others claim.  The bound may cut it short wherever it
waits, and an engine that was launched by then goes with it.
-/

namespace Ktsense.Mcp.WarmEngines

open Ktsense.Foundation

inductive Warmth where
  | decided
  | leftToDaemon
  | opened
  | failed
  deriving DecidableEq, Repr

/-- Where a call is in `ensure`. -/
inductive Phase where
  | idle
  | claiming
  | probing
  | launching
  | settling
  | returned (warmth : Warmth)
  deriving DecidableEq, Repr

/-- The call decides its root. -/
def Phase.decides : Phase → Bool
  | .probing => true
  | .launching => true
  | .settling => true
  | .returned warmth => warmth ≠ .decided
  | _ => false

variable {Call Root : Type*} [DecidableEq Call] [DecidableEq Root]

/-- What the server keeps, and every call.  A held session is told by the call that opened
it. -/
structure World (Call Root : Type*) where
  decided : Finset Root
  held : List Call
  phase : Call → Phase

/-- What can happen to a call. -/
inductive Action where
  | start
  | claim
  | probed (daemonHolds : Bool)
  | launched (started : Bool)
  /-- `initialize` answered and the wait for the index is over, or `initialize` failed. -/
  | settled (initialized : Bool)
  | elapsed
  deriving DecidableEq, Repr

namespace World

def move (world : World Call Root) (call : Call) (phase : Phase) : World Call Root :=
  { world with phase := Function.update world.phase call phase }

/-- What an action does; `none` when the call is not there. -/
def next (rootOf : Call → Root) (world : World Call Root) (call : Call) :
    Action → Option (World Call Root)
  | .start =>
      match world.phase call with
      | .idle => some (world.move call .claiming)
      | _ => none
  | .claim =>
      match world.phase call with
      | .claiming =>
          if rootOf call ∈ world.decided then some (world.move call (.returned .decided))
          else some { world.move call .probing with
            decided := insert (rootOf call) world.decided }
      | _ => none
  | .probed daemonHolds =>
      match world.phase call with
      | .probing =>
          if daemonHolds then some (world.move call (.returned .leftToDaemon))
          else some (world.move call .launching)
      | _ => none
  | .launched started =>
      match world.phase call with
      | .launching =>
          if started then some (world.move call .settling)
          else some (world.move call (.returned .failed))
      | _ => none
  | .settled initialized =>
      match world.phase call with
      | .settling =>
          if initialized then some { world.move call (.returned .opened) with
            held := world.held ++ [call] }
          else some (world.move call (.returned .failed))
      | _ => none
  | .elapsed =>
      match world.phase call with
      | .probing => some (world.move call (.returned .failed))
      | .launching => some (world.move call (.returned .failed))
      | .settling => some (world.move call (.returned .failed))
      | _ => none

/-- `close`: every held session ends. -/
def close (world : World Call Root) : World Call Root := { world with held := [] }

/-- One step of any call, or the end of the held sessions. -/
def Step (rootOf : Call → Root) (world after : World Call Root) : Prop :=
  (∃ call action, world.next rootOf call action = some after) ∨ after = world.close

/-- A server that has just started. -/
def Initial (world : World Call Root) : Prop :=
  world.decided = ∅ ∧ world.held = [] ∧ ∀ call, world.phase call = .idle

/-- An engine runs on behalf of the call. -/
def RunsEngine (world : World Call Root) (call : Call) : Prop :=
  world.phase call = .settling ∨ call ∈ world.held

/-! ## What a step does -/

/-- A step of one call: it waits for its claim, claims its root first or later, goes on with
its decision, or holds the engine it launched. -/
inductive Does (rootOf : Call → Root) (world : World Call Root) (call : Call) :
    World Call Root → Prop where
  | waits (hbefore : world.phase call = .idle) :
      Does rootOf world call (world.move call .claiming)
  | claimsFirst (hbefore : world.phase call = .claiming)
      (hnew : rootOf call ∉ world.decided) :
      Does rootOf world call { world.move call .probing with
        decided := insert (rootOf call) world.decided }
  | claimsLater (hbefore : world.phase call = .claiming)
      (hknown : rootOf call ∈ world.decided) :
      Does rootOf world call (world.move call (.returned .decided))
  | goesOn {phase : Phase} (hbefore : (world.phase call).decides = true)
      (hheld : world.phase call ≠ .returned .opened) (hafter : phase.decides = true) :
      Does rootOf world call (world.move call phase)
  | holds (hbefore : world.phase call = .settling) :
      Does rootOf world call { world.move call (.returned .opened) with
        held := world.held ++ [call] }

theorem does {rootOf : Call → Root} {world after : World Call Root} {call : Call}
    {action : Action} (hnext : world.next rootOf call action = some after) :
    Does rootOf world call after := by
  cases action with
  | start =>
      cases hphase : world.phase call <;> simp only [next, hphase] at hnext <;> cases hnext
      exact .waits hphase
  | claim =>
      cases hphase : world.phase call <;> simp only [next, hphase] at hnext <;>
        first | cases hnext | skip
      split_ifs at hnext with hknown
      · cases hnext
        exact .claimsLater hphase hknown
      · cases hnext
        exact .claimsFirst hphase hknown
  | probed daemonHolds =>
      cases hphase : world.phase call <;> simp only [next, hphase] at hnext <;>
        first | cases hnext | skip
      split_ifs at hnext <;> cases hnext <;>
        exact .goesOn (by rw [hphase]; rfl) (by rw [hphase]; nofun) rfl
  | launched started =>
      cases hphase : world.phase call <;> simp only [next, hphase] at hnext <;>
        first | cases hnext | skip
      split_ifs at hnext <;> cases hnext <;>
        exact .goesOn (by rw [hphase]; rfl) (by rw [hphase]; nofun) rfl
  | settled initialized =>
      cases hphase : world.phase call <;> simp only [next, hphase] at hnext <;>
        first | cases hnext | skip
      split_ifs at hnext <;> cases hnext
      · exact .holds hphase
      · exact .goesOn (by rw [hphase]; rfl) (by rw [hphase]; nofun) rfl
  | elapsed =>
      cases hphase : world.phase call <;> simp only [next, hphase] at hnext <;>
        cases hnext <;> exact .goesOn (by rw [hphase]; rfl) (by rw [hphase]; nofun) rfl

/-! ## The invariant -/

/-- Every decided root has one call that decides it, and what is held was opened. -/
structure Inv (rootOf : Call → Root) (world : World Call Root) : Prop where
  decided_iff : ∀ root, root ∈ world.decided ↔
    ∃ call, rootOf call = root ∧ (world.phase call).decides = true
  alone : ∀ call other, (world.phase call).decides = true →
    (world.phase other).decides = true → rootOf call = rootOf other → call = other
  waved : ∀ call, world.phase call = .returned .decided → rootOf call ∈ world.decided
  held : ∀ call ∈ world.held, world.phase call = .returned .opened
  nodup : world.held.Nodup

section Steps

variable {rootOf : Call → Root} {world : World Call Root} {call : Call} {phase : Phase}

omit [DecidableEq Root] in
@[simp]
theorem move_phase_self : (world.move call phase).phase call = phase :=
  Function.update_self _ _ _

omit [DecidableEq Root] in
theorem move_phase_of_ne {other : Call} (hother : other ≠ call) :
    (world.move call phase).phase other = world.phase other :=
  Function.update_of_ne hother _ _

omit [DecidableEq Root] in
/-- A move that does not change whether the call decides its root. -/
theorem move_decides (hsame : phase.decides = (world.phase call).decides) (other : Call) :
    ((world.move call phase).phase other).decides = (world.phase other).decides := by
  by_cases hother : other = call
  · rw [hother, move_phase_self, hsame]
  · rw [move_phase_of_ne hother]

omit [DecidableEq Call] [DecidableEq Root] in
theorem inv_initial (hinitial : world.Initial) : world.Inv rootOf := by
  obtain ⟨hdecided, hheld, hphase⟩ := hinitial
  constructor
  · intro root
    simp [hdecided, hphase, Phase.decides]
  · intro call other hcall
    simp [hphase, Phase.decides] at hcall
  · intro call hcall
    simp [hphase] at hcall
  · simp [hheld]
  · simp [hheld]

omit [DecidableEq Root] in
/-- A move that neither decides a root nor gives up a held engine. -/
theorem inv_move (hinv : world.Inv rootOf)
    (hsame : phase.decides = (world.phase call).decides)
    (hheld : world.phase call ≠ .returned .opened)
    (hwaved : phase = .returned .decided → rootOf call ∈ world.decided) :
    (world.move call phase).Inv rootOf where
  decided_iff root := by
    simp only [move_decides hsame]
    exact hinv.decided_iff root
  alone := by
    simp only [move_decides hsame]
    exact hinv.alone
  waved other hother := by
    by_cases hcall : other = call
    · rw [hcall, move_phase_self] at hother
      rw [hcall]
      exact hwaved hother
    · rw [move_phase_of_ne hcall] at hother
      exact hinv.waved other hother
  held other hother := by
    have hne : other ≠ call := fun heq => hheld (heq ▸ hinv.held other hother)
    rw [move_phase_of_ne hne]
    exact hinv.held other hother
  nodup := hinv.nodup

/-- The first claim of a root. -/
theorem inv_claim (hinv : world.Inv rootOf) (hphase : world.phase call = .claiming)
    (hnew : rootOf call ∉ world.decided) :
    Inv rootOf { world.move call .probing with
      decided := insert (rootOf call) world.decided } := by
  have hother : ∀ other, (world.phase other).decides = true → rootOf other ≠ rootOf call :=
    fun other hdecides heq =>
      hnew ((hinv.decided_iff _).mpr ⟨other, heq, hdecides⟩)
  have hcases : ∀ other, ((world.move call .probing).phase other).decides = true ↔
      other = call ∨ (world.phase other).decides = true := by
    intro other
    by_cases hcall : other = call
    · simp [hcall, Phase.decides]
    · simp [hcall, move_phase_of_ne hcall]
  constructor
  · intro root
    rw [Finset.mem_insert, hinv.decided_iff]
    constructor
    · rintro (rfl | ⟨other, hroot, hdecides⟩)
      · exact ⟨call, rfl, (hcases call).mpr (.inl rfl)⟩
      · exact ⟨other, hroot, (hcases other).mpr (.inr hdecides)⟩
    · rintro ⟨other, hroot, hdecides⟩
      rcases (hcases other).mp hdecides with rfl | hbefore
      · exact .inl hroot.symm
      · exact .inr ⟨other, hroot, hbefore⟩
  · intro first second hfirst hsecond hroot
    rcases (hcases first).mp hfirst with rfl | hearlier
    · rcases (hcases second).mp hsecond with rfl | hother'
      · rfl
      · exact absurd hroot.symm (hother second hother')
    · rcases (hcases second).mp hsecond with rfl | hother'
      · exact absurd hroot (hother first hearlier)
      · exact hinv.alone first second hearlier hother' hroot
  · intro other hwaved
    have hne : other ≠ call := by
      rintro rfl
      change (world.move other .probing).phase other = _ at hwaved
      rw [move_phase_self] at hwaved
      cases hwaved
    change (world.move call .probing).phase other = _ at hwaved
    rw [move_phase_of_ne hne] at hwaved
    exact Finset.mem_insert_of_mem (hinv.waved other hwaved)
  · intro other hheld
    have hopened := hinv.held other hheld
    have hne : other ≠ call := by
      rintro rfl
      rw [hphase] at hopened
      cases hopened
    change (world.move call .probing).phase other = _
    rw [move_phase_of_ne hne]
    exact hopened
  · exact hinv.nodup

omit [DecidableEq Root] in
/-- The engine that a call launched is held. -/
theorem inv_hold (hinv : world.Inv rootOf) (hphase : world.phase call = .settling) :
    Inv rootOf { world.move call (.returned .opened) with held := world.held ++ [call] } := by
  have hmoved : (world.move call (.returned .opened)).Inv rootOf :=
    inv_move hinv (by rw [hphase]; rfl) (by rw [hphase]; nofun) (fun h => nomatch h)
  have hnew : call ∉ world.held := fun hmem => by
    have hopened := hinv.held call hmem
    rw [hphase] at hopened
    cases hopened
  refine ⟨hmoved.decided_iff, hmoved.alone, hmoved.waved, fun other hother => ?_, ?_⟩
  · rcases List.mem_append.mp hother with hbefore | hlast
    · exact hmoved.held other hbefore
    · rw [List.mem_singleton.mp hlast]
      exact move_phase_self
  · exact List.nodup_append_comm.mp (List.nodup_cons.mpr ⟨hnew, hinv.nodup⟩)

theorem inv_step {after : World Call Root} (hinv : world.Inv rootOf)
    (hstep : world.Step rootOf after) : after.Inv rootOf := by
  rcases hstep with ⟨call, action, hnext⟩ | rfl
  · cases does hnext with
    | waits hphase =>
        exact inv_move hinv (by rw [hphase]; rfl) (by rw [hphase]; nofun) nofun
    | claimsFirst hphase hnew => exact inv_claim hinv hphase hnew
    | claimsLater hphase hknown =>
        exact inv_move hinv (by rw [hphase]; rfl) (by rw [hphase]; nofun) fun _ => hknown
    | goesOn hbefore hheld hafter =>
        refine inv_move hinv (hafter.trans hbefore.symm) hheld ?_
        rintro rfl
        cases hafter
    | holds hphase => exact inv_hold hinv hphase
  · exact ⟨hinv.decided_iff, hinv.alone, hinv.waved, nofun, List.nodup_nil⟩

end Steps

/-! ## Every run -/

omit [DecidableEq Call] [DecidableEq Root] in
theorem decides_of_runsEngine {rootOf : Call → Root} {world : World Call Root} {call : Call}
    (hinv : world.Inv rootOf) (hruns : world.RunsEngine call) :
    (world.phase call).decides = true := by
  rcases hruns with hsettling | hheld
  · rw [hsettling]
    rfl
  · rw [hinv.held call hheld]
    rfl

/-- In every interleaving of calls, bounds that elapse and failures, a root is decided by at
most one call, every other call is told so only once that is settled, and at most one
engine runs for the root. -/
theorem one_engine_per_root (rootOf : Call → Root) (world : World Call Root)
    (hreach : Reachable World.Initial (World.Step rootOf) world) :
    (∀ call other, world.RunsEngine call → world.RunsEngine other →
      rootOf call = rootOf other → call = other) ∧
    world.held.Nodup ∧
    (∀ root, root ∈ world.decided → ∃! call, rootOf call = root ∧
      (world.phase call).decides = true) ∧
    ∀ call, world.phase call = .returned .decided →
      ∃ other, other ≠ call ∧ rootOf other = rootOf call ∧
        (world.phase other).decides = true := by
  have hinv : world.Inv rootOf :=
    hreach.invariant (fun _ => inv_initial) fun _ _ hinv hstep => inv_step hinv hstep
  refine ⟨fun call other hcall hother hroot => ?_, hinv.nodup, fun root hroot => ?_,
    fun call hwaved => ?_⟩
  · exact hinv.alone call other (decides_of_runsEngine hinv hcall)
      (decides_of_runsEngine hinv hother) hroot
  · obtain ⟨call, hcall, hdecides⟩ := (hinv.decided_iff root).mp hroot
    refine ⟨call, ⟨hcall, hdecides⟩, fun other hother => ?_⟩
    exact hinv.alone other call hother.2 hdecides (hother.1.trans hcall.symm)
  · obtain ⟨other, hroot, hdecides⟩ :=
      (hinv.decided_iff (rootOf call)).mp (hinv.waved call hwaved)
    refine ⟨other, ?_, hroot, hdecides⟩
    rintro rfl
    rw [hwaved] at hdecides
    cases hdecides

def startedWorld : World ℕ String := ⟨∅, [], fun _ => .idle⟩

/-- Two calls about one root, of which the first claims it. -/
def sharedWorld : World ℕ String :=
  let claimed := { (startedWorld.move 0 .claiming).move 0 .probing with
    decided := insert "/work" ∅ }
  (claimed.move 1 .claiming).move 1 (.returned .decided)

theorem sharedWorld_reachable :
    Reachable World.Initial (World.Step fun _ => "/work") sharedWorld := by
  have hinitial : startedWorld.Initial := ⟨rfl, rfl, fun _ => rfl⟩
  exact ((((Reachable.start hinitial).tail (.inl ⟨0, .start, rfl⟩)).tail
    (.inl ⟨0, .claim, rfl⟩)).tail (.inl ⟨1, .start, rfl⟩)).tail (.inl ⟨1, .claim, rfl⟩)

theorem one_engine_per_root_shared :
    ∃ other, other ≠ 1 ∧ (sharedWorld.phase other).decides = true := by
  obtain ⟨other, hne, _, hdecides⟩ :=
    (one_engine_per_root (fun _ => "/work") sharedWorld sharedWorld_reachable).2.2.2 1 rfl
  exact ⟨other, hne, hdecides⟩

end World

end Ktsense.Mcp.WarmEngines
