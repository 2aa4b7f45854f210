import Ktsense.Core.Text
import Ktsense.Foundation.Lines

/-!
# The citation index of an answer

`citations.rs`: the files and lines that the Markdown of an answer cites, found by one
pass over its lines.  The index is capped, and counts what it leaves out.
-/

namespace Ktsense.Mcp

open Ktsense.Foundation

inductive Requirement where
  | nothing
  | engine
  | engineIndex
  deriving DecidableEq, Repr

def Requirement.label : Requirement → String
  | .nothing => "nothing"
  | .engine => "kmp-lsp"
  | .engineIndex => "kmp-lsp and a settled index"

structure Tool where
  name : String
  cliCommand : String
  requires : Requirement
  deriving DecidableEq, Repr

structure Citation where
  path : String
  line : ℕ
  column : Option ℕ
  deriving DecidableEq, Repr

structure Call where
  tool : Tool
  root : String
  exit : Option ℤ
  warmth : Option String
  deriving DecidableEq, Repr

structure Answer where
  tool : String
  command : String
  requires : String
  root : String
  exit : Option ℤ
  index : Option String
  warmth : Option String
  outcome : Option String
  findings : Option ℕ
  files : List String
  citations : List Citation
  citationsOmitted : ℕ
  deriving DecidableEq, Repr

def maxCitations : ℕ := 500

/-! ## Paths and numbers on a line -/

/-- `str::strip_prefix`. -/
def stripStart (start text : List Char) : Option (List Char) :=
  if start.isPrefixOf text then some (text.drop start.length) else none

def isPathCharacter (letter : Char) : Bool :=
  letter.isAlphanum || ['.', '_', '/', '-', '+', '~'].contains letter

def kotlinSuffixes : List (List Char) := [".kt".toList, ".kts".toList]

def isSourcePath (text : List Char) : Bool :=
  !text.isEmpty && text.all isPathCharacter &&
    kotlinSuffixes.any fun ending =>
      ending.length < text.length && ending.isSuffixOf text

/-- The largest `u32`. -/
def u32Max : ℕ := 2 ^ 32 - 1

/-- The number at an offset, and the offset just past it. -/
def numberAt (line : List Char) (start : ℕ) : Option (ℕ × ℕ) :=
  let digits := (line.drop start).takeWhile Char.isDigit
  if digits.isEmpty then none
  else (parseUnsigned u32Max digits).map fun number => (number, start + digits.length)

def headingPath (line : List Char) : Option (List Char) := do
  let rest ← stripStart "## ".toList line
  if isSourcePath (trim rest) then some (trim rest) else none

def groupedLine (line : List Char) : Option ℕ := do
  let rest ← stripStart "- ".toList line
  let (number, afterDigits) ← numberAt rest 0
  let tail := (rest.drop afterDigits).dropWhile isWhitespace
  if tail.isEmpty || "in ".toList.isPrefixOf tail then some number else none

/-- The column after a line number that ends at an offset, and the offset past both. -/
def columnAt (line : List Char) (afterLine : ℕ) : Option ℕ × ℕ :=
  if (line.drop afterLine).head? = some ':' then
    (numberAt line (afterLine + 1)).elim (none, afterLine) fun (column, past) =>
      (some column, past)
  else (none, afterLine)

/-- The loop of `positions`, from an offset on.  Every turn moves past a colon, so the
length of the line is fuel enough. -/
def positionsFrom (line : List Char) : ℕ → ℕ → List Citation
  | 0, _ => []
  | fuel + 1, start =>
      match (line.drop start).findIdx? (· = ':') with
      | none => []
      | some offset =>
          let colon := start + offset
          let path := (line.take colon).rtakeWhile isPathCharacter
          match numberAt line (colon + 1) with
          | none => positionsFrom line fuel (colon + 1)
          | some (number, afterLine) =>
              if isSourcePath path then
                let (column, past) := columnAt line afterLine
                ⟨String.ofList path, number, column⟩ :: positionsFrom line fuel past
              else positionsFrom line fuel (colon + 1)

def positions (line : List Char) : List Citation :=
  positionsFrom line (line.length + 1) 0

/-! ## The scan -/

structure Scan where
  index : Option String
  files : List String
  citations : List Citation
  omitted : ℕ
  deriving DecidableEq, Repr

namespace Scan

def default : Scan := ⟨none, [], [], 0⟩

def noteFile (scan : Scan) (path : String) : Scan :=
  if path ∈ scan.files then scan else { scan with files := scan.files ++ [path] }

def cite (scan : Scan) (citation : Citation) : Scan :=
  if citation ∈ scan.citations then scan
  else if scan.citations.length = maxCitations then
    { scan with omitted := scan.omitted + 1 }
  else
    let noted := scan.noteFile citation.path
    { noted with citations := noted.citations ++ [citation] }

/-- The first marker is kept. -/
def noteIndex (scan : Scan) (line : List Char) : Scan :=
  match stripStart "index: ".toList line with
  | some marker => { scan with index := scan.index.or (some (String.ofList (trim marker))) }
  | none => scan

/-- A path opens a group, and a number is a line in the group that is open. -/
def readGroup (scan : Scan) (group : Option String) (line : List Char) :
    Scan × Option String :=
  match headingPath line with
  | some path => (scan.noteFile (String.ofList path), some (String.ofList path))
  | none =>
      if isSourcePath line then
        (scan.noteFile (String.ofList line), some (String.ofList line))
      else
        match groupedLine line, group with
        | some number, some path => (scan.cite ⟨path, number, none⟩, group)
        | _, _ => (scan, group)

/-- The loop body of `Scan::of`; the state is the scan and the open group. -/
def readLine (state : Scan × Option String) (line : String) : Scan × Option String :=
  let trimmed := trim line.toList
  let grouped := (state.1.noteIndex trimmed).readGroup state.2 trimmed
  ((positions line.toList).foldl cite grouped.1, grouped.2)

def readLines (state : Scan × Option String) (lines : List String) :
    Scan × Option String :=
  lines.foldl readLine state

def of (text : String) : Scan := (readLines (default, none) (textLines text)).1

end Scan

def indexAnswer (call : Call) (text : String) : Answer :=
  let scan := Scan.of text
  { tool := call.tool.name
    command := call.tool.cliCommand
    requires := call.tool.requires.label
    root := call.root
    exit := call.exit
    index := scan.index
    warmth := call.warmth
    outcome := none
    findings := none
    files := scan.files
    citations := scan.citations
    citationsOmitted := scan.omitted }

section Answers

variable (call : Call) (text : String)

@[simp]
theorem index_indexAnswer : (indexAnswer call text).index = (Scan.of text).index := rfl

@[simp]
theorem citations_indexAnswer :
    (indexAnswer call text).citations = (Scan.of text).citations := rfl

@[simp]
theorem citationsOmitted_indexAnswer :
    (indexAnswer call text).citationsOmitted = (Scan.of text).omitted := rfl

end Answers

/-! ## Numbers -/

theorem length_takeWhile_le {A : Type*} {p : A → Bool} {item : A} (hitem : p item = false)
    (front rest : List A) : ((front ++ item :: rest).takeWhile p).length ≤ front.length := by
  induction front with
  | nil => simp [hitem]
  | cons first front ih =>
      rw [List.cons_append, List.takeWhile_cons]
      split_ifs
      · exact Nat.succ_le_succ ih
      · exact Nat.zero_le _

/-- Nothing that continues a number or starts a column. -/
def EndsNumber (tail : List Char) : Prop :=
  ∀ letter, tail.head? = some letter → letter.isDigit = false ∧ letter ≠ ':'

theorem toString_ne_nil (number : ℕ) : (toString number).toList ≠ [] := by
  rw [Nat.toString_eq_repr, Nat.toList_repr]
  exact Nat.toDigits_ne_nil

/-- A printed number is read where it stands. -/
theorem numberAt_toString (front : List Char) {number : ℕ} (hnumber : number ≤ u32Max)
    {tail : List Char} (htail : EndsNumber tail) :
    numberAt (front ++ ((toString number).toList ++ tail)) front.length =
      some (number, front.length + (toString number).toList.length) := by
  have hdigits : ∀ letter ∈ (toString number).toList, letter.isDigit = true :=
    fun letter hletter => isDigit_of_mem_toString hletter
  have hstop : tail.takeWhile Char.isDigit = [] := by
    cases tail with
    | nil => rfl
    | cons letter rest => exact List.takeWhile_cons_of_neg (by simp [(htail letter rfl).1])
  have hread : (((toString number).toList ++ tail).takeWhile Char.isDigit) =
      (toString number).toList := by
    rw [List.takeWhile_append_of_pos hdigits, hstop, List.append_nil]
  have hnonempty : (toString number).toList.isEmpty = false :=
    List.isEmpty_eq_false_iff.2 (toString_ne_nil number)
  rw [numberAt, List.drop_left, hread, hnonempty, parseUnsigned_toString hnumber]
  rfl

/-- A number ends before the first letter that is no digit. -/
theorem numberAt_bounds {gap rest : List Char} {letter : Char} {start number past : ℕ}
    (hletter : letter.isDigit = false) (hstart : start ≤ gap.length)
    (hread : numberAt (gap ++ letter :: rest) start = some (number, past)) :
    start < past ∧ past ≤ gap.length := by
  have hle := length_takeWhile_le hletter (gap.drop start) rest
  rw [numberAt, List.drop_append_of_le_length hstart] at hread
  split_ifs at hread with hempty
  obtain ⟨value, _, hvalue⟩ := Option.map_eq_some_iff.1 hread
  have hpast := congrArg Prod.snd hvalue
  rw [List.isEmpty_iff] at hempty
  have hpositive := List.length_pos_iff.2 hempty
  rw [List.length_drop] at hle
  simp only at hpast
  omega

theorem columnAt_bounds {gap : List Char} (rest : List Char) {afterLine : ℕ}
    (hafter : afterLine ≤ gap.length) :
    afterLine ≤ (columnAt (gap ++ ' ' :: rest) afterLine).2 ∧
      (columnAt (gap ++ ' ' :: rest) afterLine).2 ≤ gap.length := by
  rw [columnAt]
  split_ifs with hcolon
  · have hlt : afterLine < gap.length := by
      apply hafter.lt_of_ne
      rintro rfl
      rw [List.drop_left] at hcolon
      cases hcolon
    cases hread : numberAt (gap ++ ' ' :: rest) (afterLine + 1) with
    | none => exact ⟨le_rfl, hafter⟩
    | some found =>
        have hbounds := numberAt_bounds (by decide) hlt hread
        exact ⟨(Nat.le_succ _).trans hbounds.1.le, hbounds.2⟩
  · exact ⟨le_rfl, hafter⟩

/-! ## Trimmed lines -/

theorem trim_of_head {first : Char} (hfirst : isWhitespace first = false)
    (rest : List Char) :
    trim (first :: rest) = (first :: rest).rdropWhile isWhitespace := by
  rw [trim, List.dropWhile_cons_of_neg (by simp [hfirst]), List.rdropWhile]

/-- Trimming keeps the first letter of a text that starts with none of white space. -/
theorem trim_cons {first : Char} (hfirst : isWhitespace first = false) (rest : List Char) :
    ∃ more, trim (first :: rest) = first :: more := by
  have hinitial := List.rdropWhile_prefix isWhitespace (first :: rest)
  rw [trim_of_head hfirst]
  cases htrimmed : (first :: rest).rdropWhile isWhitespace with
  | nil =>
      have hall := List.rdropWhile_eq_nil_iff.1 htrimmed first List.mem_cons_self
      rw [hfirst] at hall
      cases hall
  | cons letter more =>
      rw [htrimmed, List.cons_prefix_cons] at hinitial
      exact ⟨more, by rw [hinitial.1]⟩

theorem trim_append {first : Char} {front back : List Char}
    (hfirst : isWhitespace first = false)
    (hback : ∃ letter ∈ back, isWhitespace letter = false) :
    trim (first :: front ++ back) = first :: front ++ back.rdropWhile isWhitespace := by
  obtain ⟨letter, hletter, hblack⟩ := hback
  have hnonempty : (back.reverse.dropWhile isWhitespace).isEmpty = false := by
    rw [List.isEmpty_eq_false_iff, ne_eq, List.dropWhile_eq_nil_iff]
    intro hall
    have hwhite := hall letter (List.mem_reverse.2 hletter)
    rw [hblack] at hwhite
    cases hwhite
  rw [List.cons_append, trim_of_head hfirst, ← List.cons_append, List.rdropWhile,
    List.reverse_append, List.dropWhile_append, hnonempty, if_neg Bool.false_ne_true,
    List.reverse_append, List.reverse_reverse, List.rdropWhile]

theorem stripStart_append (start rest : List Char) :
    stripStart start (start ++ rest) = some rest := by
  rw [stripStart, if_pos (List.isPrefixOf_iff_prefix.2 (List.prefix_append _ _)),
    List.drop_left]

theorem stripStart_of_head {first letter : Char} (hne : first ≠ letter)
    (start rest : List Char) : stripStart (first :: start) (letter :: rest) = none := by
  rw [stripStart, not_isPrefixOf_of_ne hne.symm, if_neg Bool.false_ne_true]

/-! ## A path with its line -/

/-- What a path is told apart from: nothing, or text that ends in a blank. -/
def EndsInBlank (front : List Char) : Prop := front = [] ∨ ∃ gap, front = gap ++ [' ']

theorem all_of_isSourcePath {path : List Char} (hpath : isSourcePath path = true) :
    ∀ letter ∈ path, isPathCharacter letter = true := by
  rw [isSourcePath, Bool.and_eq_true, Bool.and_eq_true] at hpath
  exact List.all_eq_true.1 hpath.1.2

theorem rtakeWhile_path {front path : List Char} (hfront : EndsInBlank front)
    (hpath : isSourcePath path = true) :
    (front ++ path).rtakeWhile isPathCharacter = path := by
  have hstop : front.reverse.takeWhile isPathCharacter = [] := by
    rcases hfront with rfl | ⟨gap, rfl⟩
    · rfl
    · rw [List.reverse_append]
      rfl
  have hreverse : ∀ letter ∈ path.reverse, isPathCharacter letter = true := by
    intro letter hletter
    exact all_of_isSourcePath hpath letter (List.mem_reverse.1 hletter)
  rw [List.rtakeWhile, List.reverse_append, List.takeWhile_append_of_pos hreverse, hstop,
    List.append_nil, List.reverse_reverse]

theorem findIdx?_path {path rest : List Char} (hpath : isSourcePath path = true) :
    (path ++ ':' :: rest).findIdx? (· = ':') = some path.length := by
  have hnone : path.findIdx? (· = ':') = none := by
    rw [List.findIdx?_eq_none_iff]
    intro letter hletter
    have hcharacter := all_of_isSourcePath hpath letter hletter
    apply decide_eq_false
    rintro rfl
    cases hcharacter
  rw [List.findIdx?_append, hnone, List.findIdx?_cons]
  simp

/-- The number after a colon, and no column behind it. -/
theorem numberAt_afterColon (left : List Char) {number : ℕ} (hnumber : number ≤ u32Max)
    {tail : List Char} (htail : EndsNumber tail) :
    numberAt (left ++ ':' :: ((toString number).toList ++ tail)) (left.length + 1) =
      some (number, left.length + 1 + (toString number).toList.length) := by
  have hread := numberAt_toString (left ++ [':']) hnumber htail
  rw [List.append_assoc, List.length_append] at hread
  exact hread

theorem columnAt_eq_none {line tail : List Char} {afterLine : ℕ}
    (hrest : line.drop afterLine = tail) (htail : EndsNumber tail) :
    columnAt line afterLine = (none, afterLine) := by
  rw [columnAt, hrest, if_neg]
  intro hcolon
  exact (htail ':' hcolon).2 rfl

section Finding

variable {front path tail : List Char} {number : ℕ}

/-- A colon before the path leaves the blank between them unread. -/
theorem findIdx?_front (hfront : EndsInBlank front) {start offset : ℕ}
    (hfound : (front.drop start).findIdx? (· = ':') = some offset) :
    ∃ gap, front = gap ++ [' '] ∧ start + offset < gap.length := by
  rcases hfront with rfl | ⟨gap, rfl⟩
  · rw [List.drop_nil] at hfound
    cases hfound
  · refine ⟨gap, rfl, ?_⟩
    by_cases hstart : start ≤ gap.length
    · have hblank : [' '].findIdx? (· = ':') = none := rfl
      rw [List.drop_append_of_le_length hstart, List.findIdx?_append, hblank,
        Option.map_none, Option.or_none] at hfound
      have hlt := (List.findIdx?_eq_some_iff_getElem.1 hfound).1
      rw [List.length_drop] at hlt
      omega
    · rw [List.drop_eq_nil_of_le (by simp; omega)] at hfound
      cases hfound

/-- The line of a path that stands apart is found, whatever stands before it. -/
theorem mem_positionsFrom (hfront : EndsInBlank front) (hpath : isSourcePath path = true)
    (hnumber : number ≤ u32Max) (htail : EndsNumber tail) {fuel start : ℕ}
    (hstart : start ≤ front.length) (hfuel : front.length - start < fuel) :
    ⟨String.ofList path, number, none⟩ ∈
      positionsFrom (front ++ path ++ ':' :: ((toString number).toList ++ tail))
        fuel start := by
  induction fuel generalizing start with
  | zero => exact absurd hfuel (Nat.not_lt_zero _)
  | succ fuel ih =>
      have hdrop (after : List Char) : (front ++ path ++ ':' :: after).drop start =
          front.drop start ++ (path ++ ':' :: after) := by
        rw [List.append_assoc, List.drop_append_of_le_length hstart]
      rw [positionsFrom, hdrop, List.findIdx?_append, findIdx?_path hpath, Option.map_some]
      cases hfound : (front.drop start).findIdx? (· = ':') with
      | none =>
          -- Nothing unread before the path holds a colon, so this turn reads it.
          have hcolon : start + (path.length + (front.drop start).length) =
              (front ++ path).length := by
            rw [List.length_drop, List.length_append]
            omega
          have hrest : (front ++ path ++ ':' :: ((toString number).toList ++ tail)).drop
              ((front ++ path).length + 1 + (toString number).toList.length) = tail := by
            have hline : front ++ path ++ ':' :: ((toString number).toList ++ tail) =
                front ++ path ++ ':' :: (toString number).toList ++ tail := by
              simp
            rw [hline]
            apply List.drop_left'
            simp only [List.length_append, List.length_cons]
            omega
          simp only [Option.none_or, hcolon, numberAt_afterColon _ hnumber htail,
            List.take_left, rtakeWhile_path hfront hpath, hpath,
            columnAt_eq_none hrest htail, if_true]
          exact List.mem_cons_self
      | some offset =>
          -- The turn ends before the blank, so the path is still unread.
          obtain ⟨gap, rfl, hgap⟩ := findIdx?_front hfront hfound
          have hlength : (gap ++ [' ']).length = gap.length + 1 := List.length_append
          have hskip : ⟨String.ofList path, number, none⟩ ∈
              positionsFrom (gap ++ [' '] ++ path ++
                ':' :: ((toString number).toList ++ tail)) fuel (start + offset + 1) :=
            ih (by omega) (by omega)
          simp only [Option.some_or]
          cases hread : numberAt (gap ++ [' '] ++ path ++
              ':' :: ((toString number).toList ++ tail)) (start + offset + 1) with
          | none => exact hskip
          | some found =>
              have hline : gap ++ [' '] ++ path ++ ':' :: ((toString number).toList ++ tail) =
                  gap ++ ' ' :: (path ++ ':' :: ((toString number).toList ++ tail)) := by
                simp
              have hafter := hread
              rw [hline] at hafter
              have hbounds := numberAt_bounds (by decide) hgap hafter
              have hcolumn := columnAt_bounds
                (path ++ ':' :: ((toString number).toList ++ tail)) hbounds.2
              rw [← hline] at hcolumn
              dsimp only
              split_ifs
              · exact List.mem_cons_of_mem _ (ih (by omega) (by omega))
              · exact hskip

/-- A path that stands apart is cited with the number after its colon. -/
theorem mem_positions (hfront : EndsInBlank front) (hpath : isSourcePath path = true)
    (hnumber : number ≤ u32Max) (htail : EndsNumber tail) :
    ⟨String.ofList path, number, none⟩ ∈
      positions (front ++ path ++ ':' :: ((toString number).toList ++ tail)) := by
  apply mem_positionsFrom hfront hpath hnumber htail (Nat.zero_le _)
  rw [List.length_append, List.length_append]
  omega

end Finding

/-! ## What a scan keeps -/

namespace Scan

/-- A later state of the same pass. -/
structure Extends (scan later : Scan) : Prop where
  citations : scan.citations ⊆ later.citations
  omitted : scan.omitted ≤ later.omitted
  index : ∀ label, scan.index = some label → later.index = some label

namespace Extends

variable {scan later latest : Scan}

theorem refl (scan : Scan) : scan.Extends scan :=
  ⟨List.Subset.refl _, le_rfl, fun _ hlabel => hlabel⟩

theorem trans (hfirst : scan.Extends later) (hsecond : later.Extends latest) :
    scan.Extends latest where
  citations := List.Subset.trans hfirst.citations hsecond.citations
  omitted := hfirst.omitted.trans hsecond.omitted
  index label hlabel := hsecond.index label (hfirst.index label hlabel)

end Extends

theorem noteFile_extends (scan : Scan) (path : String) :
    scan.Extends (scan.noteFile path) := by
  rw [noteFile]
  split_ifs
  · exact Extends.refl scan
  · exact ⟨List.Subset.refl _, le_rfl, fun _ hlabel => hlabel⟩

theorem cite_extends (scan : Scan) (citation : Citation) :
    scan.Extends (scan.cite citation) := by
  have hnoted := scan.noteFile_extends citation.path
  rw [cite]
  split_ifs
  · exact Extends.refl scan
  · exact ⟨List.Subset.refl _, Nat.le_succ _, fun _ hlabel => hlabel⟩
  · exact ⟨List.subset_append_of_subset_left _ hnoted.citations, hnoted.omitted,
      hnoted.index⟩

theorem noteIndex_extends (scan : Scan) (line : List Char) :
    scan.Extends (scan.noteIndex line) := by
  rw [noteIndex]
  cases stripStart "index: ".toList line with
  | none => exact Extends.refl scan
  | some marker =>
      refine ⟨List.Subset.refl _, le_rfl, fun label hlabel => ?_⟩
      dsimp only
      rw [hlabel, Option.some_or]

theorem readGroup_extends (scan : Scan) (group : Option String) (line : List Char) :
    scan.Extends (scan.readGroup group line).1 := by
  unfold readGroup
  cases headingPath line with
  | some path => exact scan.noteFile_extends _
  | none =>
      dsimp only
      split_ifs
      · exact scan.noteFile_extends _
      · cases groupedLine line with
        | none => exact Extends.refl scan
        | some number =>
            cases group with
            | none => exact Extends.refl scan
            | some path => exact scan.cite_extends _

theorem foldl_cite_extends (citations : List Citation) (scan : Scan) :
    scan.Extends (citations.foldl cite scan) := by
  induction citations generalizing scan with
  | nil => exact Extends.refl scan
  | cons citation rest ih => exact (scan.cite_extends citation).trans (ih _)

theorem readLine_extends (state : Scan × Option String) (line : String) :
    state.1.Extends (readLine state line).1 := by
  rw [readLine]
  exact ((noteIndex_extends _ _).trans (readGroup_extends _ _ _)).trans
    (foldl_cite_extends _ _)

theorem readLines_extends (lines : List String) (state : Scan × Option String) :
    state.1.Extends (readLines state lines).1 := by
  induction lines generalizing state with
  | nil => exact Extends.refl _
  | cons line rest ih => exact (readLine_extends state line).trans (ih _)

/-- The citation is in the index, unless the index leaves some out. -/
def Cites (scan : Scan) (citation : Citation) : Prop :=
  scan.omitted = 0 → citation ∈ scan.citations

theorem Cites.extends {scan later : Scan} {citation : Citation}
    (hcites : scan.Cites citation) (hlater : scan.Extends later) :
    later.Cites citation := by
  intro homitted
  have hnone : scan.omitted = 0 := Nat.eq_zero_of_le_zero (homitted ▸ hlater.omitted)
  exact hlater.citations (hcites hnone)

theorem cites_cite (scan : Scan) (citation : Citation) :
    (scan.cite citation).Cites citation := by
  rw [cite]
  split_ifs with hknown hfull
  · exact fun _ => hknown
  · exact fun homitted => absurd homitted (Nat.succ_ne_zero _)
  · exact fun _ => List.mem_append_right _ List.mem_cons_self

theorem cites_foldl {citations : List Citation} {citation : Citation}
    (hmem : citation ∈ citations) (scan : Scan) :
    (citations.foldl cite scan).Cites citation := by
  induction citations generalizing scan with
  | nil => exact absurd hmem List.not_mem_nil
  | cons first rest ih =>
      rw [List.foldl_cons]
      rcases List.mem_cons.1 hmem with rfl | hrest
      · exact (scan.cites_cite citation).extends (foldl_cite_extends rest _)
      · exact ih hrest _

/-! What a line leaves of the marker. -/

theorem noteFile_index (scan : Scan) (path : String) :
    (scan.noteFile path).index = scan.index := by
  rw [noteFile]
  split_ifs <;> rfl

theorem cite_index (scan : Scan) (citation : Citation) :
    (scan.cite citation).index = scan.index := by
  rw [cite]
  split_ifs
  · rfl
  · rfl
  · exact scan.noteFile_index _

theorem readGroup_index (scan : Scan) (group : Option String) (line : List Char) :
    (scan.readGroup group line).1.index = scan.index := by
  unfold readGroup
  cases headingPath line with
  | some path => exact scan.noteFile_index _
  | none =>
      dsimp only
      split_ifs
      · exact scan.noteFile_index _
      · cases groupedLine line with
        | none => rfl
        | some number =>
            cases group with
            | none => rfl
            | some path => exact scan.cite_index _

theorem foldl_cite_index (citations : List Citation) (scan : Scan) :
    (citations.foldl cite scan).index = scan.index := by
  induction citations generalizing scan with
  | nil => rfl
  | cons citation rest ih => exact (ih _).trans (scan.cite_index citation)

theorem readLine_index (state : Scan × Option String) (line : String) :
    (readLine state line).1.index = (state.1.noteIndex (trim line.toList)).index := by
  rw [readLine]
  exact (foldl_cite_index _ _).trans (readGroup_index _ _ _)

/-- A line without the marker leaves the marker as it is. -/
theorem readLine_index_of_unmarked {line : String}
    (hline : stripStart "index: ".toList (trim line.toList) = none)
    (state : Scan × Option String) : (readLine state line).1.index = state.1.index := by
  rw [readLine_index, noteIndex, hline]

/-! What a line reads in a group. -/

theorem readGroup_path {path : String} (hpath : isSourcePath path.toList = true)
    (scan : Scan) (group : Option String) :
    scan.readGroup group path.toList = (scan.noteFile path, some path) := by
  have hheading : headingPath path.toList = none := by
    rw [headingPath]
    cases hletters : path.toList with
    | nil => rfl
    | cons first rest =>
        have hfirst := all_of_isSourcePath hpath first (by rw [hletters]; exact List.mem_cons_self)
        have hne : '#' ≠ first := by
          rintro rfl
          cases hfirst
        have hstrip := stripStart_of_head hne ['#', ' '] rest
        have hhash : "## ".toList = ['#', '#', ' '] := rfl
        rw [hhash, hstrip]
        rfl
  unfold readGroup
  rw [hheading]
  dsimp only
  rw [if_pos hpath, String.ofList_toList]

theorem readGroup_numbered {rest : List Char} {number : ℕ}
    (hnumber : groupedLine ('-' :: ' ' :: rest) = some number) (scan : Scan)
    (path : String) :
    scan.readGroup (some path) ('-' :: ' ' :: rest) =
      (scan.cite ⟨path, number, none⟩, some path) := by
  have hheading : headingPath ('-' :: ' ' :: rest) = none := rfl
  have hblank : isSourcePath ('-' :: ' ' :: rest) = false := by
    rw [isSourcePath, List.all_cons, List.all_cons]
    rfl
  unfold readGroup
  rw [hheading]
  dsimp only
  rw [hblank, if_neg Bool.false_ne_true, hnumber]

/-- A line cites every position on it. -/
theorem readLine_cites_position {line : String} {citation : Citation}
    (hposition : citation ∈ positions line.toList) (state : Scan × Option String) :
    (readLine state line).1.Cites citation :=
  cites_foldl hposition _

/-- A line that is a number in a group cites it, and keeps the group. -/
theorem readLine_cites_group {line : String} {state : Scan × Option String} {scan : Scan}
    {citation : Citation} {group : Option String}
    (hgroup : (state.1.noteIndex (trim line.toList)).readGroup state.2 (trim line.toList) =
      (scan.cite citation, group)) :
    (readLine state line).1.Cites citation ∧ (readLine state line).2 = group := by
  rw [readLine, hgroup]
  exact ⟨(scan.cites_cite citation).extends (foldl_cite_extends _ _), rfl⟩

theorem readLines_append (state : Scan × Option String) (left right : List String) :
    readLines state (left ++ right) = readLines (readLines state left) right :=
  List.foldl_append

end Scan

end Ktsense.Mcp
