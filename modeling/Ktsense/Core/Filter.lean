import Ktsense.Core.Pick

/-!
# Site filters

The path and test-source filter of `filter.rs`, and the rule of `references.rs`
that tells a test source from its path.
-/

namespace Ktsense.Core

open Ktsense.Foundation

inductive TestScope where
  | all
  | tests
  | production
  deriving DecidableEq, Repr

def TestScope.isAll : TestScope → Bool
  | .all => true
  | _ => false

def TestScope.admits : TestScope → Bool → Bool
  | .all, _ => true
  | .tests, isTest => isTest
  | .production, isTest => !isTest

structure SiteFilter where
  path : List String
  tests : TestScope
  deriving DecidableEq, Repr

/-- `str::starts_with`. -/
def startsWith (text start : String) : Bool :=
  start.toList.isPrefixOf text.toList

def isPathSeparator (letter : Char) : Bool :=
  letter = '/' || letter = '\\'

def namedSourceSets : List String :=
  ["test", "androidTest", "testFixtures", "commonTest", "jvmTest"]

def isTestSegment (segment : String) : Bool :=
  namedSourceSets.contains segment || endsWith segment "Test"

/-- The segments of a path between separators. -/
def pathSegments (path : String) : List String :=
  (path.toList.splitOnP isPathSeparator).map String.ofList

def isTestSource (path : String) : Bool :=
  let file := (pathSegments path).getLastD path
  endsWith file "Test.kt" || endsWith file "Tests.kt" || endsWith file "Spec.kt" ||
    ((pathSegments path).filter (· ≠ "")).any isTestSegment

namespace SiteFilter

def new (path : List String) (scope : TestScope) : Option SiteFilter :=
  if !path.isEmpty || !scope.isAll then some ⟨path, scope⟩ else none

def matchesPathPrefix (filter : SiteFilter) (path : String) : Bool :=
  filter.path.isEmpty || filter.path.any (startsWith path)

def matchesSite (filter : SiteFilter) (path : String) (isTest : Bool) : Bool :=
  filter.matchesPathPrefix path && filter.tests.admits isTest

def matchesPath (filter : SiteFilter) (path : String) : Bool :=
  filter.matchesSite path (isTestSource path)

/-- The filter as a heading phrase. -/
def describe (filter : SiteFilter) : String :=
  let path :=
    if filter.path.isEmpty then none
    else some ("under " ++ ", ".intercalate filter.path)
  let scope :=
    match filter.tests with
    | .all => none
    | .tests => some "in tests"
    | .production => some "in production"
  match path, scope with
  | some path, some scope => path ++ " " ++ scope
  | some path, none => path
  | none, some scope => scope
  | none, none => ""

end SiteFilter

end Ktsense.Core
