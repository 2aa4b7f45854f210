import Ktsense.Cli.CallerLevels

/-!
# Traces of some depth

`Session::run`: the engine is asked for the implementations and the references of a
declaration, and then level by level for the references of every caller of the level
before, until a level is empty or the depth is reached.  A greater depth asks the same
and goes on, so that it only appends levels; and what was asked, and how many of the
answered places were left out, can be read off the report.
-/

namespace Ktsense.Core

namespace TraceReport

def withDeeperLevel (report : TraceReport) (callers : List RelatedDeclaration)
    (productionOmitted testOmitted : ℕ) : TraceReport :=
  { report with
    callers := report.callers ++
      [⟨report.callers.length + 1, callers, productionOmitted, testOmitted⟩] }

def directCallers (report : TraceReport) : List RelatedDeclaration :=
  report.callers.head?.elim [] (·.callers)

def withIgnoredDirectoryResults (report : TraceReport) (count : ℕ) : TraceReport :=
  { report with ignoredDirectoryResults := count }

end TraceReport

end Ktsense.Core

namespace Ktsense.Cli.TraceRun

open Ktsense.Core
open Ktsense.Foundation
open Ktsense.Lsp

/-- What a session asks about a position. -/
inductive SiteQuestion where
  | implementations (position : FilePosition)
  | references (question : ReferenceQuestion)

abbrev SiteDialogue (R : Type) :=
  Dialogue SiteQuestion (Except LspError (List SiteLocation)) R

structure Target where
  candidate : SymbolCandidate
  definition : Definition
  ignoredCandidates : ℕ

section Run

variable (workspace : Workspace) (limit : Option ℕ) (filter : Option SiteFilter)

/-- `Session::grouping`. -/
def grouping : GroupingOptions := ⟨limit, false⟩

/-- The callers the filter keeps, and how many of production and of tests it drops. -/
def filterCallers (callers : List RelatedDeclaration) : List RelatedDeclaration × ℕ × ℕ :=
  match filter with
  | none => (callers, 0, 0)
  | some filter =>
      let (kept, dropped) := callers.partition fun caller =>
        filter.matchesSite caller.path caller.test
      (kept, dropped.countP (!·.test), dropped.countP (·.test))

/-- A walk over the levels: the report, the session and the callers to ask about next. -/
structure Walk where
  report : TraceReport
  session : Session
  frontier : List RelatedDeclaration

/-- One more level, of the callers of the frontier. -/
def Walk.deepened (walk : Walk) (next : List RelatedDeclaration) (session : Session) : Walk :=
  let filtered := filterCallers filter next
  ⟨walk.report.withDeeperLevel filtered.1 filtered.2.1 filtered.2.2, session, filtered.1⟩

/-- The levels after the first; an empty frontier ends the loop. -/
def deeperLevels : ℕ → Walk → SiteDialogue (Except LspError Walk)
  | 0, walk => .done (.ok walk)
  | levels + 1, walk =>
      if walk.frontier.isEmpty then .done (.ok walk)
      else
        ((callersOfEach workspace walk.session walk.frontier).relabel .references).andThen
          fun (next, session) => deeperLevels levels (walk.deepened filter next session)

/-- The report with the callers of the declaration itself. -/
def directWalk (target : Target) (index : IndexCompleteness)
    (implementations references : List SiteLocation) : Walk :=
  let session : Session := { newSession with ignored := target.ignoredCandidates }
  let (implementationSites, session) := session.sites workspace implementations
  let (referenceSites, session) := session.sites workspace references
  let (skeletons, loaded) :=
    (session.skeletons.load workspace target.definition.path).all
  let report := buildTrace
    { definition := target.definition
      index
      definitionSite := ⟨target.definition.path, target.definition.line, none, .code⟩
      implementationSites
      referenceSites
      skeletons
      options := grouping limit
      filter }
  ⟨report, { session with skeletons := loaded }, report.directCallers⟩

/-- The two questions about the declaration. -/
def directTrace (target : Target) (index : IndexCompleteness) :
    SiteDialogue (Except LspError Walk) :=
  let position := target.candidate.toFilePosition
  .ask (.implementations position) fun
    | .error failure => .done (.error failure)
    | .ok implementations =>
        .ask (.references ⟨position, .included⟩) fun
          | .error failure => .done (.error failure)
          | .ok references =>
              .done (.ok (directWalk workspace limit filter target index implementations
                references))

/-- `Session::run`; the first level is there whatever the depth. -/
def run (target : Target) (depth : ℕ) (index : IndexCompleteness) :
    SiteDialogue (Except LspError TraceReport) :=
  ((directTrace workspace limit filter target index).andThen
    (deeperLevels workspace filter (depth - 1))).andThen fun walk =>
      .done (.ok (walk.report.withIgnoredDirectoryResults walk.session.ignored))

end Run

/-! ## A greater depth goes on -/

section Deeper

variable {workspace : Workspace} {limit : Option ℕ} {filter : Option SiteFilter}

theorem deeperLevels_of_empty {walk : Walk} (hempty : walk.frontier = []) (levels : ℕ) :
    deeperLevels workspace filter levels walk = .done (.ok walk) := by
  cases levels with
  | zero => rfl
  | succ levels => rw [deeperLevels, hempty, List.isEmpty_nil, if_pos rfl]

theorem deeperLevels_add (levels more : ℕ) (walk : Walk) :
    deeperLevels workspace filter (levels + more) walk =
      (deeperLevels workspace filter levels walk).andThen
        (deeperLevels workspace filter more) := by
  induction levels generalizing walk with
  | zero =>
      rw [Nat.zero_add]
      rfl
  | succ levels ih =>
      rw [Nat.add_right_comm]
      cases hfrontier : walk.frontier with
      | nil =>
          rw [deeperLevels_of_empty hfrontier, deeperLevels_of_empty hfrontier]
          exact (deeperLevels_of_empty hfrontier more).symm
      | cons caller callers =>
          rw [deeperLevels, deeperLevels, hfrontier, List.isEmpty_cons, if_neg Bool.false_ne_true,
            if_neg Bool.false_ne_true, Dialogue.andThen_assoc]
          congr 1
          funext found
          exact ih _

end Deeper

/-! ## What a level asks -/

section Levels

variable (workspace : Workspace) (filter : Option SiteFilter)

/-- The questions about the callers of a level; a caller without a position gets none. -/
def askedAbout (callers : List RelatedDeclaration) : List ReferenceQuestion :=
  (callers.filterMap (positionOf workspace)).map fun position => ⟨position, .excluded⟩

/-- How many of the answered places lie in ignored directories. -/
def ignoredIn (answers : List (Except LspError (List SiteLocation))) : ℕ :=
  (answers.flatMap fun answer => answer.toOption.getD []).countP fun site =>
    isInsideIgnoredDir workspace.canonicalize workspace.root site.path

def Admits (caller : RelatedDeclaration) : Prop :=
  ∀ request ∈ filter, request.matchesSite caller.path caller.test = true

variable {workspace filter}

theorem ignoredIn_append (early later : List (Except LspError (List SiteLocation))) :
    ignoredIn workspace (early ++ later) =
      ignoredIn workspace early + ignoredIn workspace later := by
  rw [ignoredIn, List.flatMap_append, List.countP_append]
  rfl

theorem ignored_sites (session : Session) (references : List SiteLocation) :
    (session.sites workspace references).2.ignored =
      session.ignored + ignoredIn workspace [.ok references] := by
  rw [Session.sites, List.partition_eq_filter_filter, ignoredIn, List.flatMap_singleton,
    List.countP_eq_length_filter]
  rfl

theorem admits_of_mem_filterCallers {callers : List RelatedDeclaration}
    {caller : RelatedDeclaration} (hcaller : caller ∈ (filterCallers filter callers).1) :
    Admits filter caller := by
  intro request hrequest
  cases hrequest
  rw [filterCallers, List.partition_eq_filter_filter] at hcaller
  exact (List.mem_filter.mp hcaller).2

variable {S : Type*} {state last : S}
  {answers : S → ReferenceQuestion → Except LspError (List SiteLocation) → S → Prop}
  {exchanges : List (ReferenceQuestion × Except LspError (List SiteLocation))}

theorem gatherCallers_failsAsAnswered (frontier : List RelatedDeclaration) (session : Session)
    (found : List RelatedDeclaration) :
    (gatherCallers workspace frontier session found).FailsAsAnswered := by
  induction frontier generalizing session found with
  | nil => exact .done _
  | cons caller callers ih =>
      rw [gatherCallers]
      cases positionOf workspace caller with
      | none => exact ih session found
      | some position => exact .ask (fun failure => rfl) fun references => ih _ _

theorem callersOfEach_eq (session : Session) (frontier : List RelatedDeclaration) :
    callersOfEach workspace session frontier =
      (gatherCallers workspace frontier session []).andThen fun gathered =>
        .done (.ok (collapsed gathered.1, gathered.2)) := by
  rw [callersOfEach, Dialogue.map, Dialogue.andThen]
  congr 1
  funext outcome
  cases outcome with
  | ok gathered => rfl
  | error failure => rfl

/-- Every caller with a position is asked about once, in turn. -/
theorem gatherCallers_asks {frontier found level : List RelatedDeclaration}
    {session after : Session}
    (hruns : Dialogue.Runs answers (gatherCallers workspace frontier session found) state
      exchanges (.ok (level, after)) last) :
    exchanges.map Prod.fst = askedAbout workspace frontier ∧
      after.ignored = session.ignored + ignoredIn workspace (exchanges.map Prod.snd) := by
  induction frontier generalizing session found state exchanges with
  | nil =>
      rw [gatherCallers] at hruns
      cases hruns
      exact ⟨rfl, rfl⟩
  | cons caller callers ih =>
      rw [gatherCallers] at hruns
      cases hposition : positionOf workspace caller with
      | none =>
          rw [hposition] at hruns
          rw [askedAbout, List.filterMap_cons_none hposition]
          exact ih hruns
      | some position =>
          rw [hposition] at hruns
          rw [askedAbout, List.filterMap_cons_some hposition, List.map_cons]
          cases hruns with
          | @ask _ answer _ _ _ _ exchanges _ hanswer hnext =>
              cases answer with
              | error failure => cases hnext
              | ok references =>
                  obtain ⟨hasked, hignored⟩ := ih hnext
                  refine ⟨congrArg _ hasked, ?_⟩
                  calc
                    after.ignored
                    _ = (session.sites workspace references).2.ignored +
                          ignoredIn workspace (exchanges.map Prod.snd) := hignored
                    _ = session.ignored + ignoredIn workspace
                          (.ok references :: exchanges.map Prod.snd) := by
                      rw [ignored_sites, Nat.add_assoc, ← ignoredIn_append]
                      rfl

theorem callersOfEach_asks {frontier level : List RelatedDeclaration} {session after : Session}
    (hruns : Dialogue.Runs answers (callersOfEach workspace session frontier) state exchanges
      (.ok (level, after)) last) :
    exchanges.map Prod.fst = askedAbout workspace frontier ∧
      after.ignored = session.ignored + ignoredIn workspace (exchanges.map Prod.snd) := by
  rw [callersOfEach_eq] at hruns
  rcases hruns.of_andThen with ⟨failure, hfailed, -⟩ | hgathered
  · cases hfailed
  · obtain ⟨⟨found, loaded⟩, between, early, later, rfl, hfound, hdone⟩ := hgathered
    cases hdone
    rw [List.append_nil]
    exact gatherCallers_asks hfound

end Levels

/-! ## What a walk adds -/

section Walks

variable (workspace : Workspace) (filter : Option SiteFilter)

/-- What a walk of so many levels has added to another, and what it asked on the way: the
callers of every level but the deepest. -/
structure Deepened (levels : ℕ) (walk after : Walk) (further : List CallerLevel)
    (exchanges : List (SiteQuestion × Except LspError (List SiteLocation))) : Prop where
  report : after.report = { walk.report with callers := walk.report.callers ++ further }
  frontier : after.frontier =
    (walk.frontier :: further.map (·.callers)).getLast (List.cons_ne_nil _ _)
  length_le : further.length ≤ levels
  exhausted : further.length < levels → after.frontier = []
  depths : further.map (·.depth) =
    List.range' (walk.report.callers.length + 1) further.length
  questions : exchanges.map Prod.fst =
    (((walk.frontier :: further.map (·.callers)).take levels).flatMap
      (askedAbout workspace)).map .references
  ignored : after.session.ignored =
    walk.session.ignored + ignoredIn workspace (exchanges.map Prod.snd)
  admitted : ∀ level ∈ further, ∀ caller ∈ level.callers, Admits filter caller

variable {workspace filter}

theorem deepened_refl {walk : Walk} {levels : ℕ}
    (hdone : levels = 0 ∨ walk.frontier = []) :
    Deepened workspace filter levels walk walk [] [] where
  report := by rw [List.append_nil]
  frontier := rfl
  length_le := Nat.zero_le _
  exhausted := fun hlt => hdone.resolve_left hlt.ne'
  depths := rfl
  questions := by
    rcases hdone with rfl | hempty
    · rfl
    · rw [hempty]
      cases levels with
      | zero => rfl
      | succ levels => simp [askedAbout]
  ignored := rfl
  admitted := by simp

/-- One level, and then the others. -/
theorem Deepened.cons {levels : ℕ} {walk after : Walk} {session : Session}
    {next : List RelatedDeclaration} {further : List CallerLevel}
    {early later : List (SiteQuestion × Except LspError (List SiteLocation))}
    (hasked : early.map Prod.fst = (askedAbout workspace walk.frontier).map .references)
    (hignored : session.ignored =
      walk.session.ignored + ignoredIn workspace (early.map Prod.snd))
    (hrest : Deepened workspace filter levels (walk.deepened filter next session) after further
      later) :
    Deepened workspace filter (levels + 1) walk after
      (⟨walk.report.callers.length + 1, (filterCallers filter next).1,
        (filterCallers filter next).2.1, (filterCallers filter next).2.2⟩ :: further)
      (early ++ later) where
  report := by
    rw [hrest.report, Walk.deepened, TraceReport.withDeeperLevel, List.append_assoc]
    rfl
  frontier := hrest.frontier
  length_le := Nat.succ_le_succ hrest.length_le
  exhausted := fun hlt => hrest.exhausted (Nat.lt_of_succ_lt_succ hlt)
  depths := by
    rw [List.map_cons, hrest.depths, Walk.deepened, TraceReport.withDeeperLevel,
      List.length_append]
    rfl
  questions := by
    rw [List.map_append, hasked, hrest.questions, ← List.map_append]
    rfl
  ignored := by
    rw [hrest.ignored, List.map_append, ignoredIn_append, ← Nat.add_assoc, ← hignored]
    rfl
  admitted := by
    refine List.forall_mem_cons.mpr ⟨?_, hrest.admitted⟩
    intro caller hcaller
    exact admits_of_mem_filterCallers hcaller

variable {S : Type*} {state last : S}
  {answers : S → SiteQuestion → Except LspError (List SiteLocation) → S → Prop}
  {exchanges : List (SiteQuestion × Except LspError (List SiteLocation))}

theorem deepened_of_runs {levels : ℕ} {walk after : Walk}
    (hruns : Dialogue.Runs answers (deeperLevels workspace filter levels walk) state exchanges
      (.ok after) last) :
    ∃ further, Deepened workspace filter levels walk after further exchanges := by
  induction levels generalizing walk state exchanges with
  | zero =>
      rw [deeperLevels] at hruns
      cases hruns
      exact ⟨[], deepened_refl (.inl rfl)⟩
  | succ levels ih =>
      by_cases hempty : walk.frontier = []
      · rw [deeperLevels_of_empty hempty] at hruns
        cases hruns
        exact ⟨[], deepened_refl (.inr hempty)⟩
      · rw [deeperLevels, if_neg (mt List.isEmpty_iff.mp hempty)] at hruns
        rcases hruns.of_andThen with ⟨failure, hfailed, -⟩ | hgoes
        · cases hfailed
        · obtain ⟨⟨next, session⟩, between, early, later, rfl, hlevel, hrest⟩ := hgoes
          obtain ⟨asked, rfl, hasked⟩ := hlevel.of_relabel
          obtain ⟨hquestions, hignored⟩ := callersOfEach_asks hasked
          obtain ⟨further, hfurther⟩ := ih hrest
          refine ⟨_ :: further, hfurther.cons ?_ ?_⟩
          · rw [← hquestions, List.map_map, List.map_map]
            rfl
          · rw [hignored, List.map_map]
            rfl

theorem deeperLevels_failsAsAnswered (levels : ℕ) (walk : Walk) :
    (deeperLevels workspace filter levels walk).FailsAsAnswered := by
  induction levels generalizing walk with
  | zero => exact .done walk
  | succ levels ih =>
      rw [deeperLevels]
      split_ifs
      · exact .done walk
      · rw [callersOfEach_eq]
        refine (Dialogue.FailsAsAnswered.relabel ?_).andThen fun found => ih _
        exact (gatherCallers_failsAsAnswered _ _ _).andThen fun gathered => .done _

end Walks

/-! ## The report with the direct callers -/

section Direct

variable {workspace : Workspace} {limit : Option ℕ} {filter : Option SiteFilter}
  {target : Target} {index : IndexCompleteness}

theorem admits_of_mem_directCallers {input : TraceInput} {caller : RelatedDeclaration}
    (hcaller : caller ∈ (buildTrace input).directCallers) : Admits input.filter caller := by
  intro request hrequest
  change caller ∈ callersOf (partitionSites input.referenceSites input.filter).1
    (input.definitionSite ::
      implementationsOtherThan input.implementationSites input.definitionSite)
    input.skeletons at hcaller
  rw [Option.mem_def.mp hrequest, partitionSites_some,
    callersOf_filter request.matchesPath] at hcaller
  obtain ⟨hmem, hmatches⟩ := List.mem_filter.mp hcaller
  rw [test_of_mem_relatedDeclarations _ hmem]
  exact hmatches

/-- What the walk starts from: one level, and the two questions about the declaration. -/
structure Direct (workspace : Workspace) (filter : Option SiteFilter) (target : Target)
    (walk : Walk) (level : CallerLevel)
    (exchanges : List (SiteQuestion × Except LspError (List SiteLocation))) : Prop where
  callers : walk.report.callers = [level]
  depth : level.depth = 1
  frontier : walk.frontier = level.callers
  admitted : ∀ caller ∈ level.callers, Admits filter caller
  questions : exchanges.map Prod.fst =
    [.implementations target.candidate.toFilePosition,
      .references ⟨target.candidate.toFilePosition, .included⟩]
  ignored : walk.session.ignored =
    target.ignoredCandidates + ignoredIn workspace (exchanges.map Prod.snd)

variable {S : Type*} {state last : S}
  {answers : S → SiteQuestion → Except LspError (List SiteLocation) → S → Prop}
  {exchanges : List (SiteQuestion × Except LspError (List SiteLocation))}

theorem direct_of_runs {walk : Walk}
    (hruns : Dialogue.Runs answers (directTrace workspace limit filter target index) state
      exchanges (.ok walk) last) :
    ∃ level, Direct workspace filter target walk level exchanges := by
  rw [directTrace] at hruns
  cases hruns with
  | @ask _ answer _ _ _ _ _ _ himplementations hnext =>
      cases answer with
      | error failure => cases hnext
      | ok implementations =>
          cases hnext with
          | @ask _ answer _ _ _ _ _ _ hreferences hdone =>
              cases answer with
              | error failure => cases hdone
              | ok references =>
                  cases hdone
                  refine ⟨_, rfl, rfl, rfl, fun caller => admits_of_mem_directCallers, rfl, ?_⟩
                  calc
                    _ = ((Session.sites workspace { newSession with
                          ignored := target.ignoredCandidates } implementations).2.sites
                            workspace references).2.ignored := rfl
                    _ = target.ignoredCandidates + ignoredIn workspace
                          [.ok implementations, .ok references] := by
                      rw [ignored_sites, ignored_sites, Nat.add_assoc, ← ignoredIn_append]
                      rfl

theorem directTrace_failsAsAnswered :
    (directTrace workspace limit filter target index).FailsAsAnswered :=
  .ask (fun _ => rfl) fun _ => .ask (fun _ => rfl) fun _ => .done _

end Direct

/-! ## Whole traces -/

section Whole

variable {workspace : Workspace} {limit : Option ℕ} {filter : Option SiteFilter}
  {target : Target} {index : IndexCompleteness} {depth : ℕ}

/-- What was asked and answered, as the report has it. -/
structure Accounts (workspace : Workspace) (filter : Option SiteFilter) (target : Target)
    (depth : ℕ) (report : TraceReport)
    (exchanges : List (SiteQuestion × Except LspError (List SiteLocation))) : Prop where
  questions : exchanges.map Prod.fst =
    .implementations target.candidate.toFilePosition ::
      (⟨target.candidate.toFilePosition, .included⟩ ::
        (report.callers.take (depth - 1)).flatMap fun level =>
          askedAbout workspace level.callers).map .references
  answered : ∀ exchange ∈ exchanges, ∃ sites, exchange.2 = .ok sites
  ignored : report.ignoredDirectoryResults =
    target.ignoredCandidates + ignoredIn workspace (exchanges.map Prod.snd)
  depths : report.callers.map (·.depth) = List.range' 1 report.callers.length
  length_le : report.callers.length ≤ max 1 depth
  exhausted : report.callers.length < depth →
    ∀ level ∈ report.callers.getLast?, level.callers = []
  admitted : ∀ level ∈ report.callers, ∀ caller ∈ level.callers, Admits filter caller

variable {S : Type*} {state last : S}
  {answers : S → SiteQuestion → Except LspError (List SiteLocation) → S → Prop}
  {exchanges : List (SiteQuestion × Except LspError (List SiteLocation))}

theorem run_failsAsAnswered : (run workspace limit filter target depth index).FailsAsAnswered :=
  (directTrace_failsAsAnswered.andThen (deeperLevels_failsAsAnswered _)).andThen fun _ => .done _

/-- A walk goes on with the callers of its last level. -/
theorem last_of_walk {levels : ℕ} {walk after : Walk} {level : CallerLevel}
    {further : List CallerLevel}
    {early later : List (SiteQuestion × Except LspError (List SiteLocation))}
    (hdirect : Direct workspace filter target walk level early)
    (hdeepened : Deepened workspace filter levels walk after further later) :
    after.report.callers = level :: further ∧
      ∀ shown ∈ (level :: further).getLast?, shown.callers = after.frontier := by
  constructor
  · rw [hdeepened.report, hdirect.callers]
    rfl
  · intro shown hshown
    rw [List.getLast?_eq_some_getLast (List.cons_ne_nil _ _), Option.mem_some] at hshown
    calc
      shown.callers
      _ = ((level :: further).map (·.callers)).getLast (List.cons_ne_nil _ _) := by
        rw [List.getLast_map, hshown]
      _ = (walk.frontier :: further.map (·.callers)).getLast (List.cons_ne_nil _ _) := by
        simp only [hdirect.frontier, List.map_cons]
      _ = after.frontier := hdeepened.frontier.symm

/-- A walk from the direct callers accounts for what it asked. -/
theorem accounts_of_walk {walk after : Walk} {level : CallerLevel} {further : List CallerLevel}
    {early later : List (SiteQuestion × Except LspError (List SiteLocation))}
    (hdirect : Direct workspace filter target walk level early)
    (hdeepened : Deepened workspace filter (depth - 1) walk after further later)
    (hanswered : ∀ exchange ∈ early ++ later, ∃ sites, exchange.2 = .ok sites) :
    Accounts workspace filter target depth
      (after.report.withIgnoredDirectoryResults after.session.ignored) (early ++ later) := by
  obtain ⟨hlevels, hlast⟩ := last_of_walk hdirect hdeepened
  have hcallers : (after.report.withIgnoredDirectoryResults after.session.ignored).callers =
      level :: further := hlevels
  refine ⟨?_, hanswered, ?_, ?_, ?_, ?_, ?_⟩
  · have hlevels : walk.frontier :: further.map (·.callers) =
        (level :: further).map (·.callers) := by
      rw [hdirect.frontier]
      rfl
    rw [hcallers, List.map_append, hdirect.questions, hdeepened.questions, hlevels,
      ← List.map_take, List.flatMap_map]
    rfl
  · calc
      _ = after.session.ignored := rfl
      _ = target.ignoredCandidates + ignoredIn workspace ((early ++ later).map Prod.snd) := by
        rw [hdeepened.ignored, hdirect.ignored, Nat.add_assoc, ← ignoredIn_append,
          ← List.map_append]
  · rw [hcallers, List.map_cons, hdirect.depth, hdeepened.depths, hdirect.callers]
    rfl
  · have hle := hdeepened.length_le
    rw [hcallers, List.length_cons]
    omega
  · intro hlt shown hshown
    rw [hcallers] at hlt hshown
    rw [hlast shown hshown]
    exact hdeepened.exhausted (Nat.lt_pred_of_succ_lt hlt)
  · rw [hcallers]
    exact List.forall_mem_cons.mpr ⟨hdirect.admitted, hdeepened.admitted⟩

/-- What a walk has after its direct callers. -/
theorem walk_of_runs {levels : ℕ} {after : Walk}
    (hruns : Dialogue.Runs answers ((directTrace workspace limit filter target index).andThen
      (deeperLevels workspace filter levels)) state exchanges (.ok after) last) :
    ∃ walk level further early later, exchanges = early ++ later ∧
      Direct workspace filter target walk level early ∧
      Deepened workspace filter levels walk after further later := by
  rcases hruns.of_andThen with ⟨failure, hfailed, -⟩ | hgone
  · cases hfailed
  · obtain ⟨walk, _, early, later, rfl, hearly, hlater⟩ := hgone
    obtain ⟨level, hdirect⟩ := direct_of_runs hearly
    obtain ⟨further, hdeepened⟩ := deepened_of_runs hlater
    exact ⟨walk, level, further, early, later, rfl, hdirect, hdeepened⟩

/-- A trace asks about its declaration, and once about every caller that it lists above the
deepest level; it counts every ignored place it is answered, and fails only with the last
answer. -/
theorem trace_accounts_for_answers {outcome : Except LspError TraceReport}
    (hruns : Dialogue.Runs answers (run workspace limit filter target depth index) state
      exchanges outcome last) :
    (∀ report, outcome = .ok report →
      Accounts workspace filter target depth report exchanges) ∧
    ∀ failure, outcome = .error failure →
      ∃ before question, exchanges = before ++ [(question, .error failure)] ∧
        ∀ exchange ∈ before, ∃ sites, exchange.2 = .ok sites := by
  constructor
  · rintro report rfl
    have hanswered := run_failsAsAnswered.answered hruns
    rcases Dialogue.Runs.of_andThen hruns with ⟨failure, hfailed, -⟩ | hwalked
    · cases hfailed
    · obtain ⟨after, between, walked, ending, rfl, hwalk, hdone⟩ := hwalked
      cases hdone
      rw [List.append_nil] at hanswered ⊢
      obtain ⟨walk, level, further, early, later, rfl, hdirect, hdeepened⟩ :=
        walk_of_runs hwalk
      exact accounts_of_walk hdirect hdeepened hanswered
  · rintro failure rfl
    exact run_failsAsAnswered.failed hruns

/-- A report and one of a greater depth, which was asked for so much later. -/
structure GoesOn (workspace : Workspace) (report full : TraceReport)
    (later : List (SiteQuestion × Except LspError (List SiteLocation))) : Prop where
  callers : report.callers <+: full.callers
  ignored : full.ignoredDirectoryResults =
    report.ignoredDirectoryResults + ignoredIn workspace (later.map Prod.snd)
  same : { full with
    callers := report.callers
    ignoredDirectoryResults := report.ignoredDirectoryResults } = report
  exhausted : (∀ level ∈ report.callers.getLast?, level.callers = []) →
    full = report ∧ later = []

theorem goesOn_of_deepened {levels : ℕ} {walk after : Walk} {further : List CallerLevel}
    {level : CallerLevel} (hlevel : walk.report.callers.getLast? = some level)
    (hfrontier : level.callers = walk.frontier)
    (hdeepened : Deepened workspace filter levels walk after further exchanges)
    (hruns : Dialogue.Runs answers (deeperLevels workspace filter levels walk) state exchanges
      (.ok after) last) :
    GoesOn workspace (walk.report.withIgnoredDirectoryResults walk.session.ignored)
      (after.report.withIgnoredDirectoryResults after.session.ignored) exchanges where
  callers := by
    rw [TraceReport.withIgnoredDirectoryResults, hdeepened.report]
    exact List.prefix_append _ _
  ignored := hdeepened.ignored
  same := by
    rw [TraceReport.withIgnoredDirectoryResults, hdeepened.report]
    rfl
  exhausted := by
    intro hexhausted
    have hempty : walk.frontier = [] := hfrontier.symm.trans (hexhausted level hlevel)
    rw [deeperLevels_of_empty hempty] at hruns
    cases hruns
    exact ⟨rfl, rfl⟩

/-- A trace of a greater depth is the trace of the smaller one, gone on with. -/
theorem deeper_trace_goes_on {deeper : ℕ} (hdepth : depth ≤ deeper)
    {outcome : Except LspError TraceReport}
    (hruns : Dialogue.Runs answers (run workspace limit filter target deeper index) state
      exchanges outcome last) :
    ∃ shallow early later between, exchanges = early ++ later ∧
      Dialogue.Runs answers (run workspace limit filter target depth index) state early shallow
        between ∧
      (∀ failure, shallow = .error failure → outcome = .error failure ∧ later = []) ∧
      ∀ report full, shallow = .ok report → outcome = .ok full →
        GoesOn workspace report full later := by
  obtain ⟨more, hmore⟩ := Nat.exists_eq_add_of_le (Nat.sub_le_sub_right hdepth 1)
  have hwalk : (directTrace workspace limit filter target index).andThen
      (deeperLevels workspace filter (deeper - 1)) =
        ((directTrace workspace limit filter target index).andThen
          (deeperLevels workspace filter (depth - 1))).andThen
            (deeperLevels workspace filter more) := by
    rw [Dialogue.andThen_assoc, hmore]
    exact congrArg _ (funext (deeperLevels_add (depth - 1) more))
  rw [run, hwalk, Dialogue.andThen_assoc] at hruns
  rcases hruns.of_andThen with ⟨failure, rfl, hfailed⟩ | hwalked
  · refine ⟨.error failure, exchanges, [], last, (List.append_nil _).symm, hfailed.andThen_error,
      ?_, by simp⟩
    rintro other ⟨⟩
    exact ⟨rfl, rfl⟩
  · obtain ⟨walk, between, early, later, rfl, hearly, hlater⟩ := hwalked
    have hshallow : Dialogue.Runs answers (run workspace limit filter target depth index) state
        early (.ok (walk.report.withIgnoredDirectoryResults walk.session.ignored)) between := by
      rw [← List.append_nil early]
      exact hearly.andThen (.done _ _)
    refine ⟨_, early, later, between, rfl, hshallow, by simp, ?_⟩
    rintro report full ⟨⟩ rfl
    rcases hlater.of_andThen with ⟨failure, hfailed, -⟩ | hgone
    · cases hfailed
    · obtain ⟨after, _, asked, ending, rfl, hgone, hdone⟩ := hgone
      cases hdone
      rw [List.append_nil]
      obtain ⟨first, level, further, _, _, -, hdirect, hdeepened⟩ := walk_of_runs hearly
      obtain ⟨hlevels, hlast⟩ := last_of_walk hdirect hdeepened
      obtain ⟨_, hfurther⟩ := deepened_of_runs hgone
      have hlevel := List.getLast?_eq_some_getLast (List.cons_ne_nil level further)
      exact goesOn_of_deepened ((congrArg _ hlevels).trans hlevel) (hlast _ hlevel) hfurther hgone

end Whole

/-! ## A trace of two levels -/

def tracedFunction : Target where
  candidate := ⟨"f", "A.kt", 1, 5⟩
  definition := ⟨"f", "A.kt", 1, "fun f()"⟩
  ignoredCandidates := 0

/-- The one function is called by the last, which nobody calls. -/
def tracedEngine : SiteQuestion → Except LspError (List SiteLocation)
  | .implementations _ => .ok []
  | .references question => if question.position.line = 0 then .ok (callAt 11) else .ok []

def tracedAnswers (_ : Unit) (question : SiteQuestion)
    (answer : Except LspError (List SiteLocation)) (_ : Unit) : Prop :=
  answer = tracedEngine question

def askedOf (question : SiteQuestion) : SiteQuestion × Except LspError (List SiteLocation) :=
  (question, tracedEngine question)

theorem answered (question : SiteQuestion) :
    tracedAnswers () question (tracedEngine question) () := rfl

def tracedExchanges : List (SiteQuestion × Except LspError (List SiteLocation)) :=
  [askedOf (.implementations ⟨"file://A.kt", 0, 4⟩),
    askedOf (.references ⟨⟨"file://A.kt", 0, 4⟩, .included⟩),
    askedOf (.references ⟨⟨"file://A.kt", 2, 4⟩, .excluded⟩)]

def tracedWalk : Walk :=
  directWalk sharedWorkspace none none tracedFunction .complete [] (callAt 11)

theorem frontier_tracedWalk : tracedWalk.frontier = [functionAt "h" 3 1] := by decide

theorem runs_traced :
    ∃ report, Dialogue.Runs tracedAnswers
      (run sharedWorkspace none none tracedFunction 2 .complete) () tracedExchanges
      (.ok report) () := by
  have hdirect : Dialogue.Runs tracedAnswers
      (directTrace sharedWorkspace none none tracedFunction .complete) ()
      [askedOf (.implementations ⟨"file://A.kt", 0, 4⟩),
        askedOf (.references ⟨⟨"file://A.kt", 0, 4⟩, .included⟩)] (.ok tracedWalk) () :=
    .ask (answered _) (.ask (answered _) (.done _ ()))
  have hcallers : ∃ next, Dialogue.Runs
      (fun state question => tracedAnswers state (.references question))
      (callersOfEach sharedWorkspace tracedWalk.session tracedWalk.frontier) ()
      [(⟨⟨"file://A.kt", 2, 4⟩, .excluded⟩, .ok [])] (.ok next) () := by
    rw [frontier_tracedWalk, callersOfEach_eq, gatherCallers,
      show positionOf sharedWorkspace (functionAt "h" 3 1) = some ⟨"file://A.kt", 2, 4⟩ by
        decide]
    exact ⟨_, .ask (answered _) (.done _ ())⟩
  obtain ⟨next, hcallers⟩ := hcallers
  have hwalk : Dialogue.Runs tracedAnswers (deeperLevels sharedWorkspace none 1 tracedWalk) ()
      [askedOf (.references ⟨⟨"file://A.kt", 2, 4⟩, .excluded⟩)]
      (.ok (tracedWalk.deepened none next.1 next.2)) () := by
    rw [deeperLevels, if_neg (by rw [frontier_tracedWalk]; decide)]
    exact hcallers.relabel.andThen (.done _ ())
  exact ⟨_, (hdirect.andThen hwalk).andThen (.done _ _)⟩

theorem trace_accounts_for_answers_traced :
    ∃ report, Accounts sharedWorkspace none tracedFunction 2 report tracedExchanges := by
  obtain ⟨report, hruns⟩ := runs_traced
  exact ⟨report, (trace_accounts_for_answers hruns).1 report rfl⟩

theorem deeper_trace_goes_on_traced :
    ∃ full shallow early later, tracedExchanges = early ++ later ∧
      Dialogue.Runs tracedAnswers
        (run sharedWorkspace none none tracedFunction 1 .complete) () early shallow () ∧
      ∀ report, shallow = .ok report → GoesOn sharedWorkspace report full later := by
  obtain ⟨full, hruns⟩ := runs_traced
  obtain ⟨shallow, early, later, _, hexchanges, hshallow, -, hgoesOn⟩ :=
    deeper_trace_goes_on (Nat.le_succ 1) hruns
  exact ⟨full, shallow, early, later, hexchanges, hshallow, fun report hreport =>
    hgoesOn report full hreport rfl⟩

end Ktsense.Cli.TraceRun
