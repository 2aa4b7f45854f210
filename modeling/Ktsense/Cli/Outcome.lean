import Ktsense.Core.Text

/-!
# What a command ends with

The outcome and error types of `main.rs`, and what `main` lets the user see of
them: the text on stdout, the text on stderr and the exit code.
-/

namespace Ktsense.Cli

open Ktsense.Core

inductive Exit where
  | success
  | failure
  | usage
  | ambiguous
  | unimplemented
  deriving DecidableEq, Repr

def Exit.code : Exit → ℕ
  | .success => 0
  | .failure => 1
  | .usage => 2
  | .ambiguous => 3
  | .unimplemented => 70

theorem Exit.code_injective : Function.Injective Exit.code := by
  intro left right hcode
  cases left <;> cases right <;> first | rfl | exact absurd hcode (by decide)

inductive Format where
  | md
  | json
  | dot
  deriving DecidableEq, Repr

structure CommandError where
  exit : Exit
  message : String
  deriving DecidableEq, Repr

structure CommandOutcome where
  text : String
  exit : Exit
  stderr : Option String
  deriving DecidableEq, Repr

def CommandOutcome.success (text : String) : CommandOutcome :=
  ⟨text, .success, none⟩

namespace CommandError

def unsupportedFormat (command : String) : CommandError :=
  ⟨.failure, "ktsense: " ++ command ++
    " does not support --format dot (only deps does)"⟩

def badMatchPattern (error : String) : CommandError :=
  ⟨.usage, "ktsense: --match is not a valid regular expression: " ++ error⟩

def routedFailure (message : String) : CommandError :=
  ⟨.failure, message⟩

/-- `routing::REQUIRE_DAEMON_ENV` spelled out. -/
def noDaemon (root : String) : CommandError :=
  ⟨.failure, "ktsense: no daemon answered for " ++ root ++
    " and KTSENSE_REQUIRE_DAEMON is set"⟩

def noSymbol (query : String) : CommandError :=
  ⟨.failure, "ktsense: no declaration named " ++ query ++
    " in this workspace; library and dependency declarations are " ++
    "not searched, so use a text search for external types"⟩

def pickMissed (pick : String) : CommandError :=
  ⟨.failure, "ktsense: no candidate has the fully-qualified name " ++ pick⟩

end CommandError

/-- What the user sees of a finished process. -/
structure Shown where
  stdout : String
  stderr : String
  code : ℕ
  deriving DecidableEq, Repr

/-- The end of `main`: `print!` the text, `eprintln!` the rest. -/
def report : Except CommandError CommandOutcome → Shown
  | .ok outcome =>
      ⟨outcome.text, (outcome.stderr.map (· ++ "\n")).getD "", outcome.exit.code⟩
  | .error failure => ⟨"", failure.message ++ "\n", failure.exit.code⟩

def fencedBlock (lines : List String) : String :=
  let joined := String.intercalate "\n" (lines.map neutralize)
  let fence := fenceFor joined
  fence ++ "text\n" ++ joined ++ "\n" ++ fence ++ "\n"

end Ktsense.Cli
