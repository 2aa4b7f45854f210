import Ktsense.Cli.Passthrough
import Ktsense.Mcp.TextCitations

/-!
# What an agent is told of a syntax check

The command exits with 1 for a file with errors and for an engine that did not run, so the
server tells the two apart by the stream that was written to.  From what the engine made of
the files to the answer of the tool, through the process in between: the two are never
mistaken for each other, and the answer cites where the errors are.
-/

namespace Ktsense.Mcp.CheckTool

open Ktsense.Cli Ktsense.Cli.Passthrough Ktsense.Core Ktsense.Foundation

structure Invocation where
  code : Option ℤ
  stdout : String
  stderr : String
  root : String
  deriving DecidableEq, Repr

/-- `ExecutableRunner`, once the process of a command has ended: what `main` wrote, read
lossily. -/
def invocationOf (root : String) (finished : Except CommandError CommandOutcome) :
    Invocation :=
  let shown := report finished
  ⟨some shown.code, fromUtf8Lossy (utf8 shown.stdout), fromUtf8Lossy (utf8 shown.stderr),
    root⟩

inductive CheckOutcome where
  | clean
  | findings
  | executionFailure
  deriving DecidableEq, Repr

namespace CheckOutcome

def classify (invocation : Invocation) : CheckOutcome :=
  if invocation.code = some 0 then .clean
  else if invocation.code = some 1 ∧ !(trim invocation.stdout.toList).isEmpty ∧
      (trim invocation.stderr.toList).isEmpty then .findings
  else .executionFailure

def label : CheckOutcome → String
  | .clean => "clean"
  | .findings => "findings"
  | .executionFailure => "execution_failure"

def isAnswer (outcome : CheckOutcome) : Bool := outcome ≠ .executionFailure

end CheckOutcome

def checkTool : Tool := ⟨"check_kotlin_syntax", "check", .engine⟩

structure CallToolResult where
  isError : Bool
  content : String
  structured : Answer
  deriving DecidableEq, Repr

/-- `present_check`. -/
def presentCheck (invocation : Invocation) : CallToolResult :=
  let outcome := CheckOutcome.classify invocation
  let text :=
    if outcome.isAnswer then invocation.stdout
    else if (trim invocation.stderr.toList).isEmpty then
      String.ofList (trim invocation.stdout.toList)
    else String.ofList (trim invocation.stderr.toList)
  let answer := indexAnswer ⟨checkTool, invocation.root, invocation.code, none⟩ text
  let findings := match outcome with
    | .clean => some 0
    | .findings => some (answer.citations.length + answer.citationsOmitted)
    | .executionFailure => none
  ⟨!outcome.isAnswer, text, { answer with outcome := some outcome.label, findings }⟩

/-! ## Where an error is cited -/

/-- A number ends where a letter that is no digit follows. -/
theorem numberAt_of_notDigit (front : List Char) {number : ℕ} (hnumber : number ≤ Mcp.u32Max)
    {letter : Char} (hletter : letter.isDigit = false) (rest : List Char) :
    numberAt (front ++ ((toString number).toList ++ letter :: rest)) front.length =
      some (number, front.length + (toString number).toList.length) := by
  have hdigits : ∀ digit ∈ (toString number).toList, digit.isDigit = true :=
    fun digit hdigit => isDigit_of_mem_toString hdigit
  have hread : ((toString number).toList ++ letter :: rest).takeWhile Char.isDigit =
      (toString number).toList := by
    rw [List.takeWhile_append_of_pos hdigits, List.takeWhile_cons_of_neg (by simp [hletter]),
      List.append_nil]
  have hnonempty : (toString number).toList.isEmpty = false :=
    List.isEmpty_eq_false_iff.mpr (toString_ne_nil number)
  rw [numberAt, List.drop_left, hread, hnonempty, parseUnsigned_toString hnumber]
  rfl

/-- A path at the start of a line is cited with the line and the column after it. -/
theorem mem_positions_placed {path : List Char} (hpath : isSourcePath path = true)
    {line col : ℕ} (hline : line ≤ Mcp.u32Max) (hcol : col ≤ Mcp.u32Max) (tail : List Char) :
    ⟨String.ofList path, line, some col⟩ ∈
      positions (path ++ ':' :: ((toString line).toList ++
        ':' :: ((toString col).toList ++ ':' :: tail))) := by
  set rest := (toString line).toList ++ ':' :: ((toString col).toList ++ ':' :: tail)
    with hrest
  have hcolon : (path ++ ':' :: rest).findIdx? (· = ':') = some path.length :=
    findIdx?_path hpath
  have hread : numberAt (path ++ ':' :: rest) (path.length + 1) =
      some (line, path.length + 1 + (toString line).toList.length) := by
    have hnumber := numberAt_of_notDigit (path ++ [':']) hline
      (show ':'.isDigit = false by decide) ((toString col).toList ++ ':' :: tail)
    rw [List.append_assoc, List.length_append] at hnumber
    exact hnumber
  have hcolumn : columnAt (path ++ ':' :: rest)
      (path.length + 1 + (toString line).toList.length) =
        (some col, path.length + 1 + (toString line).toList.length + 1 +
          (toString col).toList.length) := by
    have hsplit : path ++ ':' :: rest = (path ++ ':' :: (toString line).toList) ++
        ':' :: ((toString col).toList ++ ':' :: tail) := by
      simp [hrest]
    have hlength : (path ++ ':' :: (toString line).toList).length =
        path.length + 1 + (toString line).toList.length := by
      simp only [List.length_append, List.length_cons]
      omega
    have hnumber := numberAt_of_notDigit (path ++ ':' :: (toString line).toList ++ [':'])
      hcol (show ':'.isDigit = false by decide) tail
    rw [List.append_assoc, List.length_append, hlength] at hnumber
    rw [columnAt, hsplit, ← hlength, List.drop_left, List.head?_cons, if_pos rfl, hlength]
    rw [List.singleton_append, List.length_singleton] at hnumber
    rw [hnumber]
    rfl
  have hpathRead : path.rtakeWhile isPathCharacter = path :=
    rtakeWhile_path (.inl rfl : EndsInBlank []) hpath
  rw [positions, positionsFrom]
  simp only [List.drop_zero, hcolon, Nat.zero_add, hread, List.take_left, hpathRead, hpath,
    if_true, hcolumn]
  exact List.mem_cons_self

theorem neutralize_errorLine {error : SyntaxError}
    (hfile : isSourcePath error.file.toList = true) :
    neutralize (errorLine error) =
      error.file ++ ":" ++ toString error.line ++ ":" ++ toString error.col ++ ": " ++
        neutralize error.message := by
  have hcolon : neutralize ":" = ":" := by decide
  have hblank : neutralize ": " = ": " := by decide
  simp only [errorLine, neutralize_append, neutralize_path hfile,
    neutralize_safe (safe_toString _), hcolon, hblank]

theorem mem_positions_errorLine {error : SyntaxError}
    (hfile : isSourcePath error.file.toList = true) (hline : error.line ≤ Mcp.u32Max)
    (hcol : error.col ≤ Mcp.u32Max) :
    ⟨error.file, error.line, some error.col⟩ ∈
      positions (neutralize (errorLine error)).toList := by
  have hmem := mem_positions_placed hfile hline hcol
    (' ' :: (neutralize error.message).toList)
  rw [String.ofList_toList] at hmem
  have hletters : (neutralize (errorLine error)).toList = error.file.toList ++
      ':' :: ((toString error.line).toList ++ ':' :: ((toString error.col).toList ++
        ':' :: ' ' :: (neutralize error.message).toList)) := by
    rw [neutralize_errorLine hfile]
    simp
  rwa [hletters]

/-! ## The report as a document -/

def reportLines (report : CheckReport) : List String :=
  ["## Syntax check", "", toString report.filesOk ++ " OK, " ++
    toString report.filesWithErrors ++ " with errors."] ++
    if report.errors.isEmpty then []
    else fencedLines "text" ((report.errors.map errorLine).map neutralize)

theorem checkMarkdown_eq (report : CheckReport) :
    checkMarkdown report = unlines (reportLines report) := by
  rw [checkMarkdown, reportLines, unlines_append]
  split_ifs with hclean
  · rw [← String.toList_inj]
    simp
  · rw [← fenced_eq, ← String.toList_inj]
    simp [fenced, fencedBlock]

/-- The position that an error is printed with. -/
def placeOf (error : SyntaxError) : Citation := ⟨error.file, error.line, some error.col⟩

/-- An error whose position can be told from the text around it. -/
structure Readable (error : SyntaxError) : Prop where
  source : isSourcePath error.file.toList = true
  line : error.line ≤ Mcp.u32Max
  col : error.col ≤ Mcp.u32Max

/-- What a safe line of a document cites, the document does. -/
theorem mem_found_of_mem {document : List String} {line : String} {citation : Citation}
    (hline : line ∈ document) (hsafe : Safe line) (hmem : citation ∈ positions line.toList) :
    citation ∈ Scan.found (unlines document) := by
  obtain ⟨before, after, rfl⟩ := List.append_of_mem hline
  have hread : textLines (line ++ "\n") = [line] := by
    have hlines := flatMap_textLines_of_allSafe ((allSafe_cons line []).mpr ⟨hsafe, allSafe_nil⟩)
    simpa using hlines
  rw [Scan.found, textLines_unlines, List.flatMap_append, List.flatMap_cons, hread,
    Scan.foundIn_append, List.singleton_append, Scan.foundIn, Scan.citedOn]
  exact List.mem_append_right _ (List.mem_append_left _ (List.mem_append_right _ hmem))

/-- The place of every readable error is among the positions of the report. -/
theorem mem_found_error {report : CheckReport} {error : SyntaxError}
    (herror : error ∈ report.errors) (hreadable : Readable error) :
    placeOf error ∈ Scan.found (checkMarkdown report) := by
  have hprinted : neutralize (errorLine error) ∈
      (report.errors.map errorLine).map neutralize :=
    List.mem_map_of_mem (List.mem_map_of_mem herror)
  have hmem : neutralize (errorLine error) ∈ reportLines report := by
    have herrors : report.errors.isEmpty = false :=
      List.isEmpty_eq_false_iff.mpr (List.ne_nil_of_mem herror)
    rw [reportLines, herrors, if_neg Bool.false_ne_true, fencedLines,
      if_neg (List.ne_nil_of_mem hprinted)]
    simp only [List.mem_append]
    exact .inr (.inl (.inr hprinted))
  rw [checkMarkdown_eq]
  exact mem_found_of_mem hmem (safe_neutralize _)
    (mem_positions_errorLine hreadable.source hreadable.line hreadable.col)

/-- An index counts each of the distinct positions of a text, as kept or as left out. -/
theorem length_le_citations (call : Call) {text : String} {places : List Citation}
    (hnodup : places.Nodup) (hfound : places ⊆ Scan.found text) :
    places.length ≤ (indexAnswer call text).citations.length +
      (indexAnswer call text).citationsOmitted := by
  rw [citations_length_add_omitted]
  exact CappedIndex.length_le_ofList hnodup hfound

/-! ## The two are told apart -/

theorem trim_isEmpty_of_head {first : Char} (hfirst : isWhitespace first = false)
    (rest : List Char) : (trim (first :: rest)).isEmpty = false := by
  obtain ⟨more, hmore⟩ := trim_cons hfirst rest
  rw [hmore]
  rfl

theorem head_checkMarkdown (report : CheckReport) :
    ∃ rest, (checkMarkdown report).toList = '#' :: rest := by
  rw [checkMarkdown_eq, reportLines, unlines_append, unlines_cons]
  simp only [String.toList_append]
  exact ⟨_, rfl⟩

variable (checkJson : CheckReport → Except CommandError String) (root : String)

/-- What the process of a check of some files leaves behind. -/
def checked (ran : Except PassthroughError CheckReport) : Invocation :=
  invocationOf root (Passthrough.check checkJson ran .md)

theorem checked_ok (report : CheckReport) :
    checked checkJson root (.ok report) =
      ⟨some (if report.hasErrors then 1 else 0), checkMarkdown report, "", root⟩ := by
  have hfinished : Passthrough.check checkJson (.ok report) .md =
      .ok ⟨checkMarkdown report, if report.hasErrors then .failure else .success, none⟩ := rfl
  simp only [checked, invocationOf, hfinished, Cli.report, fromUtf8Lossy_utf8]
  cases report.hasErrors <;> rfl

theorem checked_error (failure : PassthroughError) :
    checked checkJson root (.error failure) =
      ⟨some 1, "", (passthrough failure).message ++ "\n", root⟩ := by
  have hfinished : Passthrough.check checkJson (.error failure) .md =
      .error (passthrough failure) := rfl
  simp only [checked, invocationOf, hfinished, Cli.report, fromUtf8Lossy_utf8]
  rfl

theorem classify_checked_ok (report : CheckReport) :
    CheckOutcome.classify (checked checkJson root (.ok report)) =
      if report.hasErrors then .findings else .clean := by
  obtain ⟨rest, hrest⟩ := head_checkMarkdown report
  rw [checked_ok, CheckOutcome.classify]
  cases report.hasErrors with
  | false => rfl
  | true =>
      have hloud := trim_isEmpty_of_head (show isWhitespace '#' = false by decide) rest
      simp only [hrest, hloud]
      rfl

theorem classify_checked_error (failure : PassthroughError) :
    CheckOutcome.classify (checked checkJson root (.error failure)) = .executionFailure := by
  rw [checked_error]
  rfl

/-- The call that a report answers. -/
def callOf (report : CheckReport) : Call :=
  ⟨checkTool, root, some (if report.hasErrors then 1 else 0), none⟩

/-- What is presented of a check that ran: its report as it is, and what the index makes of
the report. -/
theorem presentCheck_ok (report : CheckReport) :
    presentCheck (checked checkJson root (.ok report)) =
      let answer := indexAnswer (callOf root report) (checkMarkdown report)
      ⟨false, checkMarkdown report,
        { answer with
          outcome := some (if report.hasErrors then "findings" else "clean")
          findings := some (if report.hasErrors then
            answer.citations.length + answer.citationsOmitted else 0) }⟩ := by
  rw [presentCheck, classify_checked_ok, checked_ok, callOf]
  cases report.hasErrors <;> rfl

theorem presentCheck_error (failure : PassthroughError) :
    presentCheck (checked checkJson root (.error failure)) =
      let text := String.ofList (trim ((passthrough failure).message ++ "\n").toList)
      ⟨true, text,
        { indexAnswer ⟨checkTool, root, some 1, none⟩ text with
          outcome := some "execution_failure", findings := none }⟩ := by
  have hmessage : ∃ rest, ((passthrough failure).message ++ "\n").toList = 'k' :: rest := by
    rw [passthrough]
    simp only [String.toList_append]
    exact ⟨_, rfl⟩
  obtain ⟨rest, hrest⟩ := hmessage
  have hloud := trim_isEmpty_of_head (show isWhitespace 'k' = false by decide) rest
  rw [presentCheck, classify_checked_error, checked_error]
  simp only [hrest, hloud]
  rfl

/-- A report as an agent is told it. -/
structure Told (report : CheckReport) (result : CallToolResult) : Prop where
  answers : result.isError = false
  whole : result.content = checkMarkdown report
  outcome : result.structured.outcome =
    some (if report.hasErrors then "findings" else "clean")
  cited : ∀ error ∈ report.errors, Readable error → result.structured.citationsOmitted = 0 →
    placeOf error ∈ result.structured.citations
  counted : ∀ errors, errors ⊆ report.errors → (∀ error ∈ errors, Readable error) →
    (errors.map placeOf).Nodup → ∃ count, result.structured.findings = some count ∧
      errors.length ≤ count

/-- A failure to run as an agent is told it. -/
structure ToldFailure (failure : PassthroughError) (result : CallToolResult) : Prop where
  fails : result.isError = true
  message : result.content =
    String.ofList (trim ((passthrough failure).message ++ "\n").toList)
  outcome : result.structured.outcome = some "execution_failure"
  uncounted : result.structured.findings = none

/-- An agent is told of a check what the engine made of the files: a clean report and one
with errors are answers with the report as it is, and only an engine that did not run is an
error, with its message.  Every readable error is cited at its line and column unless the
index leaves some out, and counted among the findings in any case. -/
theorem check_told :
    (∀ report, Told report (presentCheck (checked checkJson root (.ok report)))) ∧
      ∀ failure, ToldFailure failure (presentCheck (checked checkJson root (.error failure))) := by
  constructor
  · intro report
    rw [presentCheck_ok]
    refine ⟨rfl, rfl, rfl, fun error herror hreadable homitted => ?_,
      fun errors herrors hreadable hnodup => ?_⟩
    · exact (mem_citations_iff (callOf root report) homitted _).mpr
        (mem_found_error herror hreadable)
    · refine ⟨_, rfl, ?_⟩
      cases hfindings : report.hasErrors with
      | false =>
          obtain rfl : errors = [] := by
            rw [CheckReport.hasErrors, Bool.or_eq_false_iff, Bool.not_eq_false',
              List.isEmpty_iff] at hfindings
            rw [hfindings.2] at herrors
            exact List.subset_nil.mp herrors
          exact Nat.zero_le _
      | true =>
          have hfound : errors.map placeOf ⊆ Scan.found (checkMarkdown report) := by
            intro place hplace
            obtain ⟨error, herror, rfl⟩ := List.mem_map.mp hplace
            exact mem_found_error (herrors herror) (hreadable error herror)
          rw [if_pos rfl, ← List.length_map placeOf]
          exact length_le_citations (callOf root report) hnodup hfound
  · intro failure
    rw [presentCheck_error]
    exact ⟨rfl, rfl, rfl, rfl⟩

end Ktsense.Mcp.CheckTool
