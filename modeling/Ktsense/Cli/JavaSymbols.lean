import Ktsense.Cli.Locate
import Ktsense.Cli.Symbols
import Ktsense.Core.ContextInjection
import Ktsense.Core.JavaScan

/-!
# Java declarations in answers

`enrich_java` takes a declaration from the pure scan of a Java source, with its header
as the signature.  A header keeps the comments in it, and nothing neutralizes it on its
way into a trace or a bundle.
-/

namespace Ktsense.Core

def JavaDeclKind.label : JavaDeclKind → String
  | .classKind => "class"
  | .interface => "interface"
  | .enum => "enum"
  | .record => "record"
  | .annotationType => "@interface"
  | .method => "method"
  | .constructor => "constructor"
  | .field => "field"

end Ktsense.Core

namespace Ktsense.Cli

open Ktsense.Core

/-- The declaration at the name and line of the candidate, else the first of its name. -/
def enrichJava (letters : Letters) (display source : String)
    (candidate : SymbolCandidate) : Option ResolvedSymbol := do
  let declarations := javaDeclarations letters source
  let found ← (declarations.find? fun declaration =>
      declaration.name = candidate.name ∧ declaration.line = candidate.line).or
    (declarations.find? fun declaration => declaration.name = candidate.name)
  some
    { fqn := fqn (javaPackage letters source) found.enclosing found.name
      kind := found.kind.label
      file := display
      line := candidate.line
      signature := found.signature
      isLocal := false
      entries := []
      properties := []
      generated := false }

/-- The definition that `select_candidate` makes of what was selected. -/
def ResolvedSymbol.definition (resolved : ResolvedSymbol) : Definition where
  qualifiedName := resolved.fqn
  path := resolved.file
  line := resolved.line
  signature := resolved.signature

/-- Traces and bundles are safe exactly when the signature, where it is printed, and the
prefixes of the filter, where its note is printed, are. -/
theorem injection_safe_iff_quotes_safely (report : TraceReport) (input : ContextInput)
    (estimator : TokenEstimator) :
    (InjectionSafe (renderTraceMarkdown report) report.lines.length report.fences ↔
        report.QuotesSafely) ∧
      (InjectionSafe (renderContextMarkdown (buildContext input estimator))
          (buildContext input estimator).lines.length
          (buildContext input estimator).fences ↔
        input.QuotesSafely estimator) := by
  constructor
  · exact TraceReport.injectionSafe_iff_quotesSafely
  · rw [SymbolContext.injectionSafe_iff_quotesSafely (prepared_buildContext input estimator)]
    exact quotesSafely_buildContext_iff input estimator

/-! ## A comment in a Java header -/

/-- A method whose parameter list holds an override in a comment. -/
def overridingSource : String :=
  "class A \x7b void f(int x /*\u202e*/) \x7b\x7d \x7d"

def overridingSymbol : ResolvedSymbol where
  fqn := "A.f"
  kind := "method"
  file := "A.java"
  line := 1
  signature := "void f(int x /*\u202e*/)"
  isLocal := false
  entries := []
  properties := []
  generated := false

def overridingTrace : TraceInput where
  definition := overridingSymbol.definition
  index := .complete
  definitionSite := ⟨"A.java", 1, none, .declarationName⟩
  implementationSites := []
  referenceSites := []
  skeletons := []
  options := ⟨none, false⟩
  filter := none

/-- The signature is printed with the override in it. -/
theorem java_comment_reorders_trace :
    enrichJava .ascii "A.java" overridingSource ⟨"f", "A.java", 1, 14⟩ =
        some overridingSymbol ∧
      ¬InjectionSafe (renderTraceMarkdown (buildTrace overridingTrace))
        (buildTrace overridingTrace).lines.length (buildTrace overridingTrace).fences := by
  refine ⟨by decide, ?_⟩
  rw [TraceReport.injectionSafe_iff_quotesSafely]
  intro hquotes
  have hsafe : Safe overridingSymbol.signature := hquotes.signature
  have hoverride : ¬Safe overridingSymbol.signature := by decide
  exact hoverride hsafe

end Ktsense.Cli
