import Mathlib

/-!
# Dialogues

A computation that puts questions to a partner and goes on with the answers, as a
tree, and its runs against a partner that has a state and may answer in more than
one way.
-/

namespace Ktsense.Foundation

inductive Dialogue (Q A R : Type*) where
  | done (result : R)
  | ask (question : Q) (next : A → Dialogue Q A R)

namespace Dialogue

variable {Q A R T E S : Type*}

def bind : Dialogue Q A R → (R → Dialogue Q A T) → Dialogue Q A T
  | done result, follow => follow result
  | ask question next, follow => ask question fun answer => (next answer).bind follow

def map (read : R → T) (dialogue : Dialogue Q A R) : Dialogue Q A T :=
  dialogue.bind fun result => done (read result)

/-- Go on with a success, and end with a failure. -/
def andThen (dialogue : Dialogue Q A (Except E R))
    (follow : R → Dialogue Q A (Except E T)) : Dialogue Q A (Except E T) :=
  dialogue.bind fun
    | .ok result => follow result
    | .error failure => done (.error failure)

/-- The same dialogue, its questions put in other words. -/
def relabel {P : Type*} (words : Q → P) : Dialogue Q A R → Dialogue P A R
  | done result => done result
  | ask question next => ask (words question) fun answer => (next answer).relabel words

/-- A run from one state of the partner to another, with what was asked and
answered. -/
inductive Runs (answers : S → Q → A → S → Prop) :
    Dialogue Q A R → S → List (Q × A) → R → S → Prop where
  | done (result : R) (state : S) : Runs answers (done result) state [] result state
  | ask {question : Q} {answer : A} {next : A → Dialogue Q A R} {state after last : S}
      {exchanges : List (Q × A)} {result : R}
      (hanswer : answers state question answer after)
      (hnext : Runs answers (next answer) after exchanges result last) :
      Runs answers (ask question next) state ((question, answer) :: exchanges) result
        last

/-- A run goes on with what follows its result. -/
theorem Runs.bind {answers : S → Q → A → S → Prop} {dialogue : Dialogue Q A R}
    {follow : R → Dialogue Q A T} {state between last : S}
    {exchanges later : List (Q × A)} {inner : R} {result : T}
    (hruns : Runs answers dialogue state exchanges inner between)
    (hfollow : Runs answers (follow inner) between later result last) :
    Runs answers (dialogue.bind follow) state (exchanges ++ later) result last := by
  induction hruns with
  | done => exact hfollow
  | ask hanswer hnext ih => exact .ask hanswer (ih hfollow)

theorem Runs.map {answers : S → Q → A → S → Prop} (read : R → T)
    {dialogue : Dialogue Q A R} {state last : S} {exchanges : List (Q × A)} {result : R}
    (hruns : Runs answers dialogue state exchanges result last) :
    Runs answers (dialogue.map read) state exchanges (read result) last := by
  rw [Dialogue.map, ← List.append_nil exchanges]
  exact hruns.bind (.done (read result) last)

theorem Runs.andThen {answers : S → Q → A → S → Prop}
    {dialogue : Dialogue Q A (Except E R)} {follow : R → Dialogue Q A (Except E T)}
    {state between last : S} {exchanges later : List (Q × A)} {inner : R}
    {result : Except E T}
    (hruns : Runs answers dialogue state exchanges (.ok inner) between)
    (hfollow : Runs answers (follow inner) between later result last) :
    Runs answers (dialogue.andThen follow) state (exchanges ++ later) result last :=
  hruns.bind hfollow

/-- A failure ends it. -/
theorem Runs.andThen_error {answers : S → Q → A → S → Prop}
    {dialogue : Dialogue Q A (Except E R)} {follow : R → Dialogue Q A (Except E T)}
    {state last : S} {exchanges : List (Q × A)} {failure : E}
    (hruns : Runs answers dialogue state exchanges (.error failure) last) :
    Runs answers (dialogue.andThen follow) state exchanges (.error failure) last := by
  rw [Dialogue.andThen, ← List.append_nil exchanges]
  refine hruns.bind ?_
  exact .done _ last

/-- What a mapped dialogue ends with is what the dialogue ends with, mapped. -/
theorem Runs.of_map {answers : S → Q → A → S → Prop} {read : R → T}
    {dialogue : Dialogue Q A R} {state last : S} {exchanges : List (Q × A)}
    {result : T} (hruns : Runs answers (dialogue.map read) state exchanges result last) :
    ∃ inner, result = read inner ∧ Runs answers dialogue state exchanges inner last := by
  induction dialogue generalizing state exchanges with
  | done inner =>
      cases hruns with
      | done => exact ⟨inner, rfl, .done inner _⟩
  | ask question next ih =>
      cases hruns with
      | ask hanswer hnext =>
          obtain ⟨inner, hread, hinner⟩ := ih _ hnext
          exact ⟨inner, hread, .ask hanswer hinner⟩

theorem bind_assoc {U : Type*} (dialogue : Dialogue Q A R) (follow : R → Dialogue Q A T)
    (further : T → Dialogue Q A U) :
    (dialogue.bind follow).bind further =
      dialogue.bind fun result => (follow result).bind further := by
  induction dialogue with
  | done result => rfl
  | ask question next ih =>
      rw [bind, bind, bind]
      exact congrArg (ask question) (funext ih)

theorem andThen_assoc {U : Type*} (dialogue : Dialogue Q A (Except E R))
    (follow : R → Dialogue Q A (Except E T)) (further : T → Dialogue Q A (Except E U)) :
    (dialogue.andThen follow).andThen further =
      dialogue.andThen fun result => (follow result).andThen further := by
  rw [andThen, andThen, bind_assoc, andThen]
  congr 1
  funext result
  cases result with
  | ok result => rfl
  | error failure => rfl

/-- A run of two dialogues in turn is a run of the first and then one of the second. -/
theorem Runs.of_bind {answers : S → Q → A → S → Prop} {dialogue : Dialogue Q A R}
    {follow : R → Dialogue Q A T} {state last : S} {exchanges : List (Q × A)} {result : T}
    (hruns : Runs answers (dialogue.bind follow) state exchanges result last) :
    ∃ inner between early later, exchanges = early ++ later ∧
      Runs answers dialogue state early inner between ∧
      Runs answers (follow inner) between later result last := by
  induction dialogue generalizing state exchanges with
  | done inner => exact ⟨inner, state, [], exchanges, rfl, .done inner state, hruns⟩
  | ask question next ih =>
      cases hruns with
      | ask hanswer hnext =>
          obtain ⟨inner, between, early, later, rfl, hearly, hlater⟩ := ih _ hnext
          exact ⟨inner, between, _ :: early, later, rfl, .ask hanswer hearly, hlater⟩

theorem Runs.of_andThen {answers : S → Q → A → S → Prop}
    {dialogue : Dialogue Q A (Except E R)} {follow : R → Dialogue Q A (Except E T)}
    {state last : S} {exchanges : List (Q × A)} {outcome : Except E T}
    (hruns : Runs answers (dialogue.andThen follow) state exchanges outcome last) :
    (∃ failure, outcome = .error failure ∧
      Runs answers dialogue state exchanges (.error failure) last) ∨
    ∃ inner between early later, exchanges = early ++ later ∧
      Runs answers dialogue state early (.ok inner) between ∧
      Runs answers (follow inner) between later outcome last := by
  obtain ⟨inner, between, early, later, rfl, hearly, hlater⟩ := hruns.of_bind
  cases inner with
  | ok inner => exact Or.inr ⟨inner, between, early, later, rfl, hearly, hlater⟩
  | error failure =>
      cases hlater
      rw [List.append_nil]
      exact Or.inl ⟨failure, rfl, hearly⟩

theorem Runs.relabel {P : Type*} {words : Q → P} {answers : S → P → A → S → Prop}
    {dialogue : Dialogue Q A R} {state last : S} {asked : List (Q × A)} {result : R}
    (hruns : Runs (fun state question => answers state (words question)) dialogue state asked
      result last) :
    Runs answers (dialogue.relabel words) state (asked.map (Prod.map words id)) result last := by
  induction hruns with
  | done result state => exact .done result state
  | ask hanswer _ ih => exact .ask hanswer ih

theorem Runs.of_relabel {P : Type*} {words : Q → P} {answers : S → P → A → S → Prop}
    {dialogue : Dialogue Q A R} {state last : S} {exchanges : List (P × A)} {result : R}
    (hruns : Runs answers (dialogue.relabel words) state exchanges result last) :
    ∃ asked : List (Q × A), exchanges = asked.map (Prod.map words id) ∧
      Runs (fun state question => answers state (words question)) dialogue state asked
        result last := by
  induction dialogue generalizing state exchanges with
  | done result =>
      cases hruns
      exact ⟨[], rfl, .done result _⟩
  | ask question next ih =>
      cases hruns with
      | ask hanswer hnext =>
          obtain ⟨asked, rfl, hasked⟩ := ih _ hnext
          exact ⟨(question, _) :: asked, rfl, .ask hanswer hasked⟩

/-! ## Partners that answer by a function -/

/-- What the dialogue ends with when each question has one answer. -/
def eval (oracle : Q → A) : Dialogue Q A R → R
  | done result => result
  | ask question next => (next (oracle question)).eval oracle

theorem eval_bind (oracle : Q → A) (dialogue : Dialogue Q A R) (follow : R → Dialogue Q A T) :
    (dialogue.bind follow).eval oracle = (follow (dialogue.eval oracle)).eval oracle := by
  induction dialogue with
  | done result => rfl
  | ask question next ih => exact ih (oracle question)

theorem eval_map (oracle : Q → A) (read : R → T) (dialogue : Dialogue Q A R) :
    (dialogue.map read).eval oracle = read (dialogue.eval oracle) :=
  eval_bind oracle dialogue _

/-- Dialogues that end alike go on alike. -/
theorem eval_andThen_congr {oracle : Q → A} {dialogue other : Dialogue Q A (Except E R)}
    (follow : R → Dialogue Q A (Except E T))
    (hsame : dialogue.eval oracle = other.eval oracle) :
    (dialogue.andThen follow).eval oracle = (other.andThen follow).eval oracle := by
  rw [andThen, andThen, eval_bind, eval_bind, hsame]

/-- A partner that answers with the function, whatever its state. -/
def AnswersWith (oracle : Q → A) (answers : S → Q → A → S → Prop) : Prop :=
  ∀ before question answer after, answers before question answer after →
    answer = oracle question

theorem Runs.eval_eq {answers : S → Q → A → S → Prop} {oracle : Q → A}
    {dialogue : Dialogue Q A R} {state last : S} {exchanges : List (Q × A)} {result : R}
    (hruns : Runs answers dialogue state exchanges result last)
    (hanswers : AnswersWith oracle answers) : dialogue.eval oracle = result := by
  induction hruns with
  | done => rfl
  | ask hanswer _ ih => rw [eval, ← hanswers _ _ _ _ hanswer, ih]

/-- Two dialogues end alike, each with a partner of its own. -/
structure EndAlike (oracle : Q → A) (first second : Dialogue Q A R) : Prop where
  same : ∀ {S U : Type} {left : S → Q → A → S → Prop} {right : U → Q → A → U → Prop}
    {state last : S} {other after : U} {exchanges asked : List (Q × A)} {result ending : R},
    AnswersWith oracle left → AnswersWith oracle right →
      Runs left first state exchanges result last →
        Runs right second other asked ending after → result = ending

theorem endAlike_of_eval {oracle : Q → A} {first second : Dialogue Q A R}
    (hsame : first.eval oracle = second.eval oracle) : EndAlike oracle first second := by
  constructor
  intro S U left right state last other after exchanges asked result ending hleft hright hfirst
    hsecond
  calc result = first.eval oracle := (hfirst.eval_eq hleft).symm
    _ = second.eval oracle := hsame
    _ = ending := hsecond.eval_eq hright

/-! ## Dialogues that fail as they are answered -/

/-- A dialogue that ends with the first failure it is answered, and fails with nothing
else. -/
inductive FailsAsAnswered {B : Type*} : Dialogue Q (Except E B) (Except E R) → Prop where
  | done (result : R) : FailsAsAnswered (done (.ok result))
  | ask {question : Q} {next : Except E B → Dialogue Q (Except E B) (Except E R)}
      (hfailure : ∀ failure, next (.error failure) = Dialogue.done (.error failure))
      (hnext : ∀ answer, FailsAsAnswered (next (.ok answer))) :
      FailsAsAnswered (ask question next)

namespace FailsAsAnswered

variable {B : Type*}

theorem andThen {dialogue : Dialogue Q (Except E B) (Except E R)}
    {follow : R → Dialogue Q (Except E B) (Except E T)}
    (hdialogue : dialogue.FailsAsAnswered) (hfollow : ∀ result, (follow result).FailsAsAnswered) :
    (dialogue.andThen follow).FailsAsAnswered := by
  induction hdialogue with
  | done result => exact hfollow result
  | ask hfailure _ ih =>
      refine .ask (fun failure => ?_) ih
      rw [hfailure]
      rfl

theorem relabel {P : Type*} {words : Q → P}
    {dialogue : Dialogue Q (Except E B) (Except E R)} (hdialogue : dialogue.FailsAsAnswered) :
    (dialogue.relabel words).FailsAsAnswered := by
  induction hdialogue with
  | done result => exact .done result
  | ask hfailure _ ih =>
      refine .ask (fun failure => ?_) ih
      rw [hfailure]
      rfl

variable {answers : S → Q → Except E B → S → Prop}
  {dialogue : Dialogue Q (Except E B) (Except E R)} {state last : S}
  {exchanges : List (Q × Except E B)}

theorem answered (hdialogue : dialogue.FailsAsAnswered) {result : R}
    (hruns : Runs answers dialogue state exchanges (.ok result) last) :
    ∀ exchange ∈ exchanges, ∃ answer, exchange.2 = .ok answer := by
  induction hdialogue generalizing state exchanges with
  | done =>
      cases hruns
      simp
  | ask hfailure _ ih =>
      cases hruns with
      | @ask _ answer _ _ _ _ _ _ hanswer hnext =>
          cases answer with
          | error failure =>
              rw [hfailure] at hnext
              cases hnext
          | ok answer =>
              exact List.forall_mem_cons.mpr ⟨⟨answer, rfl⟩, ih answer hnext⟩

theorem failed (hdialogue : dialogue.FailsAsAnswered) {failure : E}
    (hruns : Runs answers dialogue state exchanges (.error failure) last) :
    ∃ before question, exchanges = before ++ [(question, .error failure)] ∧
      ∀ exchange ∈ before, ∃ answer, exchange.2 = .ok answer := by
  induction hdialogue generalizing state exchanges with
  | done => cases hruns
  | @ask question _ hfailure _ ih =>
      cases hruns with
      | @ask _ answer _ _ _ _ _ _ hanswer hnext =>
          cases answer with
          | error other =>
              rw [hfailure] at hnext
              cases hnext
              exact ⟨[], question, rfl, by simp⟩
          | ok answer =>
              obtain ⟨before, asked, rfl, hbefore⟩ := ih answer hnext
              exact ⟨_ :: before, asked, rfl,
                List.forall_mem_cons.mpr ⟨⟨answer, rfl⟩, hbefore⟩⟩

end FailsAsAnswered

end Dialogue

end Ktsense.Foundation
