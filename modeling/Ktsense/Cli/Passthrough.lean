import Ktsense.Cli.FileTree
import Ktsense.Core.SafeText

/-!
# Check and diagnose

The two commands that hand a file to the engine and read what it prints: `passthrough.rs` and
their half of `main.rs`.  A report of `check` is taken as it was deserialized; a report of
`diagnose` is read line by line, and what was read is printed the way the engine prints it,
neutralized and in a fence.
-/

namespace Ktsense.Cli.Passthrough

open Ktsense.Core Ktsense.Foundation

/-! ## Reports -/

structure SyntaxError where
  file : String
  line : ℕ
  col : ℕ
  message : String
  deriving DecidableEq, Repr

structure CheckReport where
  filesOk : ℕ
  filesWithErrors : ℕ
  errors : List SyntaxError
  deriving DecidableEq, Repr

def CheckReport.hasErrors (report : CheckReport) : Bool :=
  0 < report.filesWithErrors || !report.errors.isEmpty

inductive Severity where
  | error
  | warning
  | info
  deriving DecidableEq, Repr

structure Diagnostic where
  line : ℕ
  col : ℕ
  severity : Severity
  message : String
  deriving DecidableEq, Repr

structure DiagnoseReport where
  file : String
  diagnostics : List Diagnostic
  deriving DecidableEq, Repr

/-- A `bound` and the error below, `source`, are held as they are printed. -/
inductive PassthroughError where
  | spawn (path source : String)
  | io (command source : String)
  | timeout (command bound : String)
  | failed (command code stderr : String)
  | unparseable (command detail : String)
  deriving DecidableEq, Repr

def quoted (text : String) : String :=
  String.singleton (Char.ofNat 0x60) ++ text ++ String.singleton (Char.ofNat 0x60)

def PassthroughError.message : PassthroughError → String
  | .spawn path source => "failed to spawn engine " ++ quoted path ++ ": " ++ source
  | .io command source => "i/o error running engine " ++ quoted command ++ ": " ++ source
  | .timeout command bound =>
      "engine " ++ quoted command ++ " did not respond within " ++ bound
  | .failed command code stderr =>
      "engine " ++ quoted command ++ " failed (" ++ code ++ "): " ++ stderr
  | .unparseable command detail =>
      "could not parse engine " ++ quoted command ++ " output: " ++ detail

structure Captured where
  code : Option ℤ
  stdout : List UInt8
  stderr : List UInt8
  deriving DecidableEq, Repr

def codeLabel : Option ℤ → String
  | some code => "exit " ++ toString code
  | none => "terminated by signal"

def stderrSnippet (stderr : List UInt8) : String :=
  let trimmed := trim (fromUtf8Lossy stderr).toList
  if trimmed.isEmpty then "no stderr" else String.ofList trimmed

/-! ## The path of a file -/

/-- What a piece between slashes stands for; an empty one and a dot stand for nothing. -/
def componentOf (piece : List UInt8) : Option Component :=
  if hname : piece ≠ [] ∧ 0x2F ∉ piece ∧ piece ≠ [0x2E] ∧ piece ≠ [0x2E, 0x2E] then
    some (.normal ⟨piece, hname.1, hname.2.1, hname.2.2⟩)
  else if piece = [0x2E, 0x2E] then some .parentDir
  else none

/-- `Path::components` of a path as text: a dot counts where the path starts with it. -/
def pathOf (text : String) : Path :=
  let pieces := (utf8 text).splitOn 0x2F
  let names := pieces.filterMap componentOf
  if (utf8 text).head? = some 0x2F then .rootDir :: names
  else if pieces.head? = some [0x2E] then .curDir :: names
  else names

/-! ## Reading what the engine prints -/

/-- `str::split_once` at a text. -/
def splitOnceAt (separator text : List Char) : Option (List Char × List Char) :=
  (findSubslice separator text).map fun start =>
    (text.take start, text.drop (start + separator.length))

def u32Max : ℕ := 2 ^ 32 - 1

def parseSeverity (text : List Char) : Option Severity :=
  if text = "error".toList then some .error
  else if text = "warning".toList then some .warning
  else if text = "info".toList ∨ text = "information".toList then some .info
  else none

def parseDiagnosticLine (line : String) : Option Diagnostic := do
  let (position, rest) ← splitOnceAt " [".toList line.toList
  let (severity, message) ← splitOnceAt "]: ".toList rest
  let (lineText, colText) ← splitOnce ':' position
  return ⟨← parseUnsigned u32Max (trim lineText), ← parseUnsigned u32Max (trim colText),
    ← parseSeverity severity, String.ofList message⟩

section Diagnose

variable (debug : String → String)

/-- The loop over the lines, up to the first that is no diagnostic; `debug` is how a text is
printed with its quotes. -/
def readDiagnostics : List String → Except PassthroughError (List Diagnostic)
  | [] => .ok []
  | line :: rest =>
      match parseDiagnosticLine line with
      | none => .error (.unparseable "diagnose"
          ("unrecognized diagnostic line: " ++ debug line))
      | some diagnostic => (readDiagnostics rest).map (diagnostic :: ·)

def noDiagnostics : String := "No diagnostics."

def parseDiagnose (file : String) (captured : Captured) :
    Except PassthroughError DiagnoseReport :=
  if captured.code ≠ some 0 then
    .error (.failed "diagnose" (codeLabel captured.code) (stderrSnippet captured.stderr))
  else
    let trimmed := trim (fromUtf8Lossy captured.stdout).toList
    if trimmed.isEmpty ∨ trimmed = noDiagnostics.toList then .ok ⟨file, []⟩
    else (readDiagnostics debug (textLines (String.ofList trimmed))).map (⟨file, ·⟩)

end Diagnose

/-! ## The commands -/

def passthrough (failure : PassthroughError) : CommandError :=
  ⟨.failure, "ktsense: " ++ failure.message⟩

def errorLine (error : SyntaxError) : String :=
  error.file ++ ":" ++ toString error.line ++ ":" ++ toString error.col ++ ": " ++
    error.message

def checkMarkdown (report : CheckReport) : String :=
  let out := "## Syntax check\n\n" ++ toString report.filesOk ++ " OK, " ++
    toString report.filesWithErrors ++ " with errors.\n"
  if report.errors.isEmpty then out
  else out ++ "\n" ++ fencedBlock (report.errors.map errorLine)

def severityWord : Severity → String
  | .error => "error"
  | .warning => "warning"
  | .info => "info"

def diagnosticLine (diagnostic : Diagnostic) : String :=
  toString diagnostic.line ++ ":" ++ toString diagnostic.col ++ " [" ++
    severityWord diagnostic.severity ++ "]: " ++ diagnostic.message

def diagnoseMarkdown (report : DiagnoseReport) : String :=
  let out := "## Diagnostics: " ++ neutralize report.file ++ "\n"
  if report.diagnostics.isEmpty then out ++ "\nNo diagnostics.\n"
  else out ++ "\n" ++ fencedBlock (report.diagnostics.map diagnosticLine)

section Commands

variable (checkJson : CheckReport → Except CommandError String)
  (diagnoseJson : DiagnoseReport → Except CommandError String)

def renderCheck (report : CheckReport) : Format → Except CommandError String
  | .md => .ok (checkMarkdown report)
  | .json => checkJson report
  | .dot => .error (.unsupportedFormat "check")

def renderDiagnose (report : DiagnoseReport) : Format → Except CommandError String
  | .md => .ok (diagnoseMarkdown report)
  | .json => diagnoseJson report
  | .dot => .error (.unsupportedFormat "diagnose")

/-- `check`, from what the engine made of the file on. -/
def check (ran : Except PassthroughError CheckReport) (format : Format) :
    Except CommandError CommandOutcome := do
  let report ← ran.mapError passthrough
  let exit := if report.hasErrors then Exit.failure else Exit.success
  return ⟨← renderCheck checkJson report format, exit, none⟩

def diagnose (ran : Except PassthroughError DiagnoseReport) (format : Format) :
    Except CommandError CommandOutcome := do
  let report ← ran.mapError passthrough
  return .success (← renderDiagnose diagnoseJson report format)

end Commands

/-! ## A line of a report -/

/-- A separator is found where its first letter first occurs. -/
theorem splitOnceAt_append {marker : Char} (separator : List Char) {front : List Char}
    (hfront : marker ∉ front) (back : List Char) :
    splitOnceAt (marker :: separator) (front ++ (marker :: separator ++ back)) =
      some (front, back) := by
  have hfound : findSubslice (marker :: separator) (marker :: separator ++ back) = some 0 :=
    findSubslice_of_isPrefix (List.prefix_append _ _)
  rw [splitOnceAt, findSubslice_append hfront, hfound, Option.map_some, Option.map_some,
    Nat.zero_add, List.take_left, ← List.append_assoc, List.drop_left' List.length_append]

theorem blank_notMem_decimalDigits :
    decimalDigits.all (fun letter => !isWhitespace letter) = true := by decide

theorem trim_toString (number : ℕ) :
    trim (toString number).toList = (toString number).toList := by
  exact trim_of_forall fun letter hletter => by
    simpa using of_mem_toString blank_notMem_decimalDigits hletter

theorem parseSeverity_severityWord (severity : Severity) :
    parseSeverity (severityWord severity).toList = some severity := by
  cases severity <;> decide

theorem bracket_notMem_severityWord (severity : Severity) :
    ']' ∉ (severityWord severity).toList := by
  cases severity <;> decide

theorem toList_diagnosticLine (diagnostic : Diagnostic) :
    (diagnosticLine diagnostic).toList =
      ((toString diagnostic.line).toList ++ ':' :: (toString diagnostic.col).toList) ++
        (' ' :: ['['] ++ ((severityWord diagnostic.severity).toList ++
          (']' :: [':', ' '] ++ diagnostic.message.toList))) := by
  simp [diagnosticLine]

/-- A diagnostic is read back from the line it is printed on, whatever its message. -/
theorem parseDiagnosticLine_diagnosticLine {diagnostic : Diagnostic}
    (hline : diagnostic.line ≤ u32Max) (hcol : diagnostic.col ≤ u32Max) :
    parseDiagnosticLine (diagnosticLine diagnostic) = some diagnostic := by
  have hblank : decimalDigits.all (· ≠ ' ') = true := by decide
  have hcolon : decimalDigits.all (· ≠ ':') = true := by decide
  have hdigits (number : ℕ) : ' ' ∉ (toString number).toList ∧
      ':' ∉ (toString number).toList :=
    ⟨fun hmem => absurd (of_mem_toString hblank hmem) (by decide),
      fun hmem => absurd (of_mem_toString hcolon hmem) (by decide)⟩
  have hposition : ' ' ∉ (toString diagnostic.line).toList ++
      ':' :: (toString diagnostic.col).toList := by
    simp only [List.mem_append, List.mem_cons, not_or]
    exact ⟨(hdigits _).1, by decide, (hdigits _).1⟩
  have hfirst := splitOnceAt_append ['['] hposition
    ((severityWord diagnostic.severity).toList ++
      (']' :: [':', ' '] ++ diagnostic.message.toList))
  have hsecond := splitOnceAt_append [':', ' ']
    (bracket_notMem_severityWord diagnostic.severity) diagnostic.message.toList
  have hthird := splitOnce_append (hdigits diagnostic.line).2
    (toString diagnostic.col).toList
  rw [parseDiagnosticLine, toList_diagnosticLine]
  simp only [String.reduceToList, hfirst, hsecond, hthird, trim_toString,
    parseUnsigned_toString hline, parseUnsigned_toString hcol, parseSeverity_severityWord,
    String.ofList_toList, Option.bind_eq_bind, Option.bind_some, Option.pure_def]

theorem parseUnsigned_le {limit value : ℕ} {text : List Char}
    (hparse : parseUnsigned limit text = some value) : value ≤ limit := by
  simp only [parseUnsigned] at hparse
  split_ifs at hparse with hdigits hlimit
  rwa [← Option.some.inj hparse]

/-- What is read fits the numbers it is read into. -/
theorem parseDiagnosticLine_fits {line : String} {diagnostic : Diagnostic}
    (hparse : parseDiagnosticLine line = some diagnostic) :
    diagnostic.line ≤ u32Max ∧ diagnostic.col ≤ u32Max := by
  simp only [parseDiagnosticLine, Option.bind_eq_bind, Option.bind_eq_some_iff,
    Option.pure_def, Option.some.injEq] at hparse
  obtain ⟨⟨position, rest⟩, -, ⟨severity, message⟩, -, ⟨lineText, colText⟩, -, row, hrow,
    col, hcol, severity, -, rfl⟩ := hparse
  exact ⟨parseUnsigned_le hrow, parseUnsigned_le hcol⟩

/-! ## A report -/

section Reports

variable (debug : String → String)

theorem readDiagnostics_eq_ok_iff (lines : List String) (diagnostics : List Diagnostic) :
    readDiagnostics debug lines = .ok diagnostics ↔
      lines.map parseDiagnosticLine = diagnostics.map some := by
  induction lines generalizing diagnostics with
  | nil =>
      rw [readDiagnostics, List.map_nil, Except.ok.injEq, eq_comm, eq_comm (a := []),
        List.map_eq_nil_iff]
  | cons line rest ih =>
      rw [readDiagnostics, List.map_cons]
      cases hline : parseDiagnosticLine line with
      | none =>
          refine iff_of_false (fun herror => by cases herror) fun hsome => ?_
          cases diagnostics with
          | nil => cases hsome
          | cons first others => cases (List.cons.inj hsome).1
      | some diagnostic =>
          cases diagnostics with
          | nil => cases readDiagnostics debug rest <;> simp [Except.map]
          | cons first others =>
              rw [List.map_cons, List.cons.injEq, Option.some.injEq, ← ih]
              cases readDiagnostics debug rest <;> simp [Except.map]

/-- The lines that are read as findings: none where the engine says there are none. -/
def reportLines (captured : Captured) : List String :=
  let trimmed := trim (fromUtf8Lossy captured.stdout).toList
  if trimmed.isEmpty ∨ trimmed = noDiagnostics.toList then []
  else textLines (String.ofList trimmed)

/-- A report is read from a run that succeeded, each line of which is a finding, in order. -/
theorem parseDiagnose_eq_ok_iff (file : String) (captured : Captured)
    (report : DiagnoseReport) :
    parseDiagnose debug file captured = .ok report ↔
      captured.code = some 0 ∧ report.file = file ∧
        (reportLines captured).map parseDiagnosticLine = report.diagnostics.map some := by
  obtain ⟨named, diagnostics⟩ := report
  simp only [parseDiagnose, reportLines]
  by_cases hcode : captured.code = some 0
  · rw [if_neg (not_not_intro hcode)]
    split_ifs with hquiet
    · simp only [hcode, true_and, Except.ok.injEq, DiagnoseReport.mk.injEq, List.map_nil,
        eq_comm (a := file), eq_comm (a := []), List.map_eq_nil_iff]
    · simp only [hcode, true_and, ← readDiagnostics_eq_ok_iff debug]
      cases readDiagnostics debug _ with
      | error => simp [Except.map]
      | ok read => simp [Except.map, eq_comm]
  · rw [if_pos hcode]
    exact iff_of_false (fun herror => by cases herror) fun hread => hcode hread.1

end Reports

/-! ## What the engine prints -/

theorem dropWhile_of_head {A : Type*} {drops : A → Bool} {items : List A}
    (hhead : ∀ item ∈ items.head?, drops item = false) : items.dropWhile drops = items := by
  cases items with
  | nil => rfl
  | cons first rest => exact List.dropWhile_cons_of_neg (by simp [hhead first rfl])

/-- A line between letters that are no white space is trimmed to itself. -/
theorem trim_line {text : List Char}
    (hhead : ∀ letter ∈ text.head?, isWhitespace letter = false)
    (hlast : ∀ letter ∈ text.getLast?, isWhitespace letter = false) :
    trim (text ++ ['\n']) = text := by
  have hblank : isWhitespace '\n' = true := by decide
  cases htext : text with
  | nil => decide
  | cons first rest =>
      rw [← htext]
      have hstart : ∀ letter ∈ (text ++ ['\n']).head?, isWhitespace letter = false := by
        rw [htext] at hhead ⊢
        exact hhead
      have hend : ∀ letter ∈ text.reverse.head?, isWhitespace letter = false := by
        rwa [List.head?_reverse]
      rw [trim, dropWhile_of_head hstart, List.reverse_append, List.reverse_singleton,
        List.singleton_append, List.dropWhile_cons_of_pos hblank, dropWhile_of_head hend,
        List.reverse_reverse]

/-- The lines of a text whose last line has no break. -/
theorem textLines_unlines_append (front : List String) (last : String) :
    textLines (unlines front ++ last) =
      (front.flatMap fun line => textLines (line ++ "\n")) ++ textLines last := by
  induction front with
  | nil => simp
  | cons line rest ih =>
      rw [unlines_cons, String.append_assoc, textLines_append, ih, List.flatMap_cons,
        List.append_assoc]

/-- Findings that can be printed line by line: their positions fit, no message holds a line
break or ends in a carriage return, and the last one ends in no white space. -/
structure Printable (diagnostics : List Diagnostic) : Prop where
  fits : ∀ diagnostic ∈ diagnostics, diagnostic.line ≤ u32Max ∧ diagnostic.col ≤ u32Max
  single : ∀ diagnostic ∈ diagnostics, '\n' ∉ diagnostic.message.toList
  clean : ∀ diagnostic ∈ diagnostics, diagnostic.message.toList.getLast? ≠ some '\r'
  ended : ∀ diagnostic ∈ diagnostics.getLast?,
    ∃ letter ∈ diagnostic.message.toList.getLast?, isWhitespace letter = false

theorem newline_notMem_diagnosticLine {diagnostic : Diagnostic}
    (hmessage : '\n' ∉ diagnostic.message.toList) :
    '\n' ∉ (diagnosticLine diagnostic).toList := by
  have hten : decimalDigits.all (· ≠ '\n') = true := by decide
  have hdigits (number : ℕ) : '\n' ∉ (toString number).toList := fun hmem =>
    absurd (of_mem_toString hten hmem) (by decide)
  have hword : '\n' ∉ (severityWord diagnostic.severity).toList := by
    cases diagnostic.severity <;> decide
  rw [toList_diagnosticLine]
  simp only [List.mem_append, List.mem_cons, not_or]
  exact ⟨⟨hdigits _, by decide, hdigits _⟩, ⟨by decide, by decide, List.not_mem_nil⟩, hword,
    ⟨by decide, by decide, by decide, List.not_mem_nil⟩, hmessage⟩

theorem head?_diagnosticLine (diagnostic : Diagnostic) :
    ∃ letter, (diagnosticLine diagnostic).toList.head? = some letter ∧
      letter.isDigit = true := by
  cases hletters : (toString diagnostic.line).toList with
  | nil =>
      rw [Nat.toString_eq_repr, Nat.toList_repr] at hletters
      exact absurd hletters Nat.toDigits_ne_nil
  | cons letter rest =>
      refine ⟨letter, ?_, isDigit_of_mem_toString (hletters ▸ List.mem_cons_self)⟩
      rw [toList_diagnosticLine, hletters]
      rfl

theorem getLast?_diagnosticLine {diagnostic : Diagnostic}
    (hmessage : diagnostic.message.toList ≠ []) :
    (diagnosticLine diagnostic).toList.getLast? = diagnostic.message.toList.getLast? := by
  rw [toList_diagnosticLine, List.getLast?_append_of_ne_nil _ (by simp),
    List.getLast?_append_of_ne_nil _ (by simp), List.getLast?_append_of_ne_nil _ (by simp),
    List.getLast?_append_of_ne_nil _ hmessage]

theorem getLast?_diagnosticLine_ne {diagnostic : Diagnostic}
    (hmessage : diagnostic.message.toList.getLast? ≠ some '\r') :
    (diagnosticLine diagnostic).toList.getLast? ≠ some '\r' := by
  by_cases hempty : diagnostic.message.toList = []
  · rw [toList_diagnosticLine, hempty, List.append_nil,
      List.getLast?_append_of_ne_nil _ (by simp), List.getLast?_append_of_ne_nil _ (by simp),
      List.getLast?_append_of_ne_nil _ (by simp)]
    decide
  · rwa [getLast?_diagnosticLine hempty]

theorem textLines_diagnosticLine {diagnostic : Diagnostic}
    (hmessage : '\n' ∉ diagnostic.message.toList) :
    textLines (diagnosticLine diagnostic) = [diagnosticLine diagnostic] := by
  have hread := textLines_last (newline_notMem_diagnosticLine hmessage)
  have hnonempty : (diagnosticLine diagnostic).toList ≠ [] := by
    rw [toList_diagnosticLine]
    simp
  rwa [if_neg hnonempty, String.ofList_toList] at hread

/-- A printed report begins with the digit of a line number. -/
theorem head?_printed (front : List Diagnostic) (last : Diagnostic) :
    ∃ first, (unlines (front.map diagnosticLine) ++ diagnosticLine last).toList.head? =
      some first ∧ first.isDigit = true := by
  rw [String.toList_append]
  cases front with
  | nil =>
      rw [List.map_nil, unlines_nil, String.toList_empty, List.nil_append]
      exact head?_diagnosticLine last
  | cons first rest =>
      obtain ⟨digit, hdigit, hisDigit⟩ := head?_diagnosticLine first
      refine ⟨digit, ?_, hisDigit⟩
      rw [List.map_cons, unlines_cons, String.toList_append, String.toList_append,
        List.append_assoc, List.append_assoc, List.head?_append, hdigit]
      rfl

/-- Of a printed report only the last line break is trimmed. -/
theorem trim_printed {front : List Diagnostic} {last : Diagnostic} {letter : Char}
    (hletter : last.message.toList.getLast? = some letter)
    (hblack : isWhitespace letter = false) :
    trim (unlines ((front ++ [last]).map diagnosticLine)).toList =
      (unlines (front.map diagnosticLine) ++ diagnosticLine last).toList := by
  have hprinted : (unlines ((front ++ [last]).map diagnosticLine)).toList =
      (unlines (front.map diagnosticLine) ++ diagnosticLine last).toList ++ ['\n'] := by
    simp
  have hmessage : last.message.toList ≠ [] := by
    intro hempty
    rw [hempty] at hletter
    cases hletter
  have hnonempty : (diagnosticLine last).toList ≠ [] := by
    rw [toList_diagnosticLine]
    simp
  rw [hprinted]
  apply trim_line
  · obtain ⟨first, hfirst, hdigit⟩ := head?_printed front last
    rw [hfirst]
    rintro other ⟨⟩
    simpa using List.all_eq_true.mp blank_notMem_decimalDigits first (mem_of_isDigit hdigit)
  · rw [String.toList_append, List.getLast?_append_of_ne_nil _ hnonempty,
      getLast?_diagnosticLine hmessage, hletter]
    rintro other ⟨⟩
    exact hblack

/-- The lines of a printed report are those it was printed on. -/
theorem reportLines_printed {diagnostics : List Diagnostic} (hprintable : Printable diagnostics)
    (stderr : List UInt8) :
    reportLines ⟨some 0, utf8 (unlines (diagnostics.map diagnosticLine)), stderr⟩ =
      diagnostics.map diagnosticLine := by
  cases diagnostics using List.reverseRecOn with
  | nil => rfl
  | append_singleton front last =>
      obtain ⟨letter, hletter, hblack⟩ := hprintable.ended last (by simp)
      obtain ⟨first, hfirst, hdigit⟩ := head?_printed front last
      have hloud : ¬((unlines (front.map diagnosticLine) ++
            diagnosticLine last).toList.isEmpty = true ∨
          (unlines (front.map diagnosticLine) ++ diagnosticLine last).toList =
            noDiagnostics.toList) := by
        rintro (hempty | hquiet)
        · rw [List.isEmpty_iff.mp hempty] at hfirst
          cases hfirst
        · rw [hquiet] at hfirst
          cases hfirst
          revert hdigit
          decide
      simp only [reportLines, fromUtf8Lossy_utf8, trim_printed hletter hblack, if_neg hloud,
        String.ofList_toList]
      rw [textLines_unlines_append, textLines_diagnosticLine (hprintable.single last (by simp)),
        List.map_append, List.map_singleton, List.flatMap_map]
      congr 1
      rw [List.flatMap_congr fun diagnostic hmem => textLines_of_clean
          (newline_notMem_diagnosticLine (hprintable.single diagnostic
            (List.mem_append_left _ hmem)))
          (getLast?_diagnosticLine_ne (hprintable.clean diagnostic
            (List.mem_append_left _ hmem)))]
      exact List.map_eq_flatMap.symm

/-! ## The Markdown answer -/

/-- A finding as it stands in the answer. -/
def shownLine (diagnostic : Diagnostic) : String := neutralize (diagnosticLine diagnostic)

/-- The lines of `diagnose_markdown`. -/
def diagnoseLines (report : DiagnoseReport) : List String :=
  ["## Diagnostics: " ++ neutralize report.file] ++
    if report.diagnostics.isEmpty then ["", noDiagnostics]
    else fencedLines "text" (report.diagnostics.map shownLine)

theorem diagnoseMarkdown_eq (report : DiagnoseReport) :
    diagnoseMarkdown report = unlines (diagnoseLines report) := by
  rw [diagnoseMarkdown, diagnoseLines, unlines_append]
  split_ifs with hclean
  · rw [← String.toList_inj]
    simp [noDiagnostics]
  · have hlines : report.diagnostics.map shownLine =
        (report.diagnostics.map diagnosticLine).map neutralize := by
      rw [List.map_map]
      rfl
    rw [← fenced_eq, hlines, ← String.toList_inj]
    simp [fenced, fencedBlock]

theorem allSafe_diagnoseLines (report : DiagnoseReport) : AllSafe (diagnoseLines report) := by
  have hheading : Safe ("## Diagnostics: " ++ neutralize report.file) := by
    rw [safe_append]
    exact ⟨by decide, safe_neutralize _⟩
  rw [diagnoseLines, List.singleton_append, allSafe_cons]
  have hquiet : AllSafe ["", noDiagnostics] := by
    rw [allSafe_cons, allSafe_cons]
    exact ⟨by decide, by decide, allSafe_nil⟩
  exact ⟨hheading, allSafe_ite hquiet (allSafe_fencedLines (by decide)
    (allSafe_map fun diagnostic => safe_neutralize _))⟩

/-- Neutralizing a line leaves all but its message as it is. -/
theorem shownLine_eq (diagnostic : Diagnostic) :
    shownLine diagnostic =
      diagnosticLine { diagnostic with message := neutralize diagnostic.message } := by
  have hword : Safe (severityWord diagnostic.severity) := by
    cases diagnostic.severity <;> decide
  have hplain : Safe ":" ∧ Safe " [" ∧ Safe "]: " := by decide
  simp only [shownLine, diagnosticLine, neutralize_append, neutralize_safe (safe_toString _),
    neutralize_safe hword, neutralize_safe hplain.1, neutralize_safe hplain.2.1,
    neutralize_safe hplain.2.2]

/-- How the findings of a report stand in an answer: each on a line of its own, in order, in
a fence that none of them closes, and each line is read back as the finding with its message
neutralized. -/
structure Lists (answer : String) (report : DiagnoseReport) : Prop where
  lines : textLines answer = diagnoseLines report
  unclosed : ∀ diagnostic ∈ report.diagnostics, ∀ count,
    List.replicate count (Char.ofNat 0x60) <:+: (shownLine diagnostic).toList →
      count < (fenceFor ("\n".intercalate (report.diagnostics.map shownLine))).length
  read : ∀ diagnostic ∈ report.diagnostics, parseDiagnosticLine (shownLine diagnostic) =
    some { diagnostic with message := neutralize diagnostic.message }
  same : ∀ diagnostic ∈ report.diagnostics, Safe diagnostic.message →
    parseDiagnosticLine (shownLine diagnostic) = some diagnostic

theorem lists_diagnoseMarkdown {report : DiagnoseReport}
    (hfits : ∀ diagnostic ∈ report.diagnostics,
      diagnostic.line ≤ u32Max ∧ diagnostic.col ≤ u32Max) :
    Lists (diagnoseMarkdown report) report := by
  have hread : ∀ diagnostic ∈ report.diagnostics,
      parseDiagnosticLine (shownLine diagnostic) =
        some { diagnostic with message := neutralize diagnostic.message } := by
    intro diagnostic hmem
    rw [shownLine_eq]
    exact parseDiagnosticLine_diagnosticLine (hfits diagnostic hmem).1 (hfits diagnostic hmem).2
  refine ⟨?_, fun diagnostic hmem count hrun => ?_, hread, fun diagnostic hmem hsafe => ?_⟩
  · rw [diagnoseMarkdown_eq, textLines_unlines,
      flatMap_textLines_of_allSafe (allSafe_diagnoseLines report)]
  · exact lt_length_fenceFor (hrun.trans
      (piece_within_intercalate "\n" (List.mem_map_of_mem hmem)))
  · rw [hread diagnostic hmem, neutralize_safe hsafe]

/-- What the engine prints of findings is read back as those findings.  Of any output that is
accepted, each line is a finding, none is lost, and the answer in Markdown lists them. -/
theorem diagnose_reads_back (debug : String → String)
    (diagnoseJson : DiagnoseReport → Except CommandError String) (file : String) :
    (∀ diagnostics stderr, Printable diagnostics →
      parseDiagnose debug file
        ⟨some 0, utf8 (unlines (diagnostics.map diagnosticLine)), stderr⟩ =
          .ok ⟨file, diagnostics⟩) ∧
    ∀ captured report, parseDiagnose debug file captured = .ok report →
      captured.code = some 0 ∧ report.file = file ∧
        (reportLines captured).map parseDiagnosticLine = report.diagnostics.map some ∧
        ∃ answer, diagnose diagnoseJson (parseDiagnose debug file captured) .md =
          .ok (.success answer) ∧ Lists answer report := by
  constructor
  · intro diagnostics stderr hprintable
    rw [parseDiagnose_eq_ok_iff, reportLines_printed hprintable]
    refine ⟨rfl, rfl, ?_⟩
    rw [List.map_map]
    apply List.map_congr_left
    intro diagnostic hmem
    obtain ⟨hline, hcol⟩ := hprintable.fits diagnostic hmem
    exact parseDiagnosticLine_diagnosticLine hline hcol
  · intro captured report hread
    obtain ⟨hcode, hfile, hlines⟩ := (parseDiagnose_eq_ok_iff debug file captured report).mp hread
    refine ⟨hcode, hfile, hlines, diagnoseMarkdown report, by rw [hread]; rfl,
      lists_diagnoseMarkdown fun diagnostic hmem => ?_⟩
    have hsome : some diagnostic ∈ (reportLines captured).map parseDiagnosticLine := by
      rw [hlines]
      exact List.mem_map_of_mem hmem
    obtain ⟨line, -, hparse⟩ := List.mem_map.mp hsome
    exact parseDiagnosticLine_fits hparse

end Ktsense.Cli.Passthrough
