import Ktsense.Foundation.FirstSeen
import Ktsense.Mcp.Citations

/-!
# The cap on citations

`Scan::cite` looks for a position among the citations it kept, so once the cap is
reached a position that is not among them is counted each time the text repeats it.
-/

namespace Ktsense.Mcp

open Ktsense.Foundation

/-! ## What the scan finds -/

namespace Scan

/-- The line of the open group that a trimmed line stands for. -/
def groupedCitation (group : Option String) (line : List Char) : List Citation :=
  match headingPath line with
  | some _ => []
  | none =>
      if isSourcePath line then []
      else
        match groupedLine line, group with
        | some number, some path => [⟨path, number, none⟩]
        | _, _ => []

theorem groupedCitation_none (line : List Char) : groupedCitation none line = [] := by
  unfold groupedCitation
  cases headingPath line with
  | some path => rfl
  | none =>
      dsimp only
      split_ifs
      · rfl
      · cases groupedLine line <;> rfl

/-- The positions a line cites, given the group that is open. -/
def citedOn (group : Option String) (line : String) : List Citation :=
  groupedCitation group (trim line.toList) ++ positions line.toList

/-- The group that is open after a line. -/
def groupAfter (group : Option String) (line : String) : Option String :=
  let trimmed := trim line.toList
  match headingPath trimmed with
  | some path => some (String.ofList path)
  | none => if isSourcePath trimmed then some (String.ofList trimmed) else group

/-- The positions lines cite, in order and with repetitions. -/
def foundIn : Option String → List String → List Citation
  | _, [] => []
  | group, line :: rest => citedOn group line ++ foundIn (groupAfter group line) rest

/-- The positions the scan finds in a text. -/
def found (text : String) : List Citation := foundIn none (textLines text)

/-! ## The scan as a capped index -/

/-- What a scan keeps and what it counts. -/
def capped (scan : Scan) : CappedIndex Citation := ⟨scan.citations, scan.omitted⟩

theorem capped_noteFile (scan : Scan) (path : String) :
    (scan.noteFile path).capped = scan.capped := by
  rw [noteFile]
  split_ifs <;> rfl

theorem capped_noteIndex (scan : Scan) (line : List Char) :
    (scan.noteIndex line).capped = scan.capped := by
  rw [noteIndex]
  cases stripStart "index: ".toList line with
  | none => rfl
  | some marker => rfl

theorem capped_cite (scan : Scan) (citation : Citation) :
    (scan.cite citation).capped = scan.capped.note maxCitations citation := by
  have hnoted := scan.capped_noteFile citation.path
  have hkept : scan.capped.kept = scan.citations := rfl
  rw [cite, CappedIndex.note, hkept]
  split_ifs
  · rfl
  · rfl
  · exact congrArg (fun index : CappedIndex Citation =>
      { index with kept := index.kept ++ [citation] }) hnoted

theorem capped_foldl_cite (citations : List Citation) (scan : Scan) :
    (citations.foldl cite scan).capped =
      citations.foldl (CappedIndex.note maxCitations) scan.capped := by
  induction citations generalizing scan with
  | nil => rfl
  | cons citation rest ih => rw [List.foldl_cons, ih, capped_cite, List.foldl_cons]

theorem capped_readGroup (scan : Scan) (group : Option String) (line : List Char) :
    (scan.readGroup group line).1.capped =
      (groupedCitation group line).foldl (CappedIndex.note maxCitations) scan.capped := by
  unfold readGroup groupedCitation
  cases headingPath line with
  | some path => exact scan.capped_noteFile _
  | none =>
      dsimp only
      split_ifs
      · exact scan.capped_noteFile _
      · cases groupedLine line with
        | none => rfl
        | some number =>
            cases group with
            | none => rfl
            | some path => exact scan.capped_cite _

theorem group_readLine (state : Scan × Option String) (line : String) :
    (readLine state line).2 = groupAfter state.2 line := by
  unfold readLine readGroup groupAfter
  dsimp only
  cases headingPath (trim line.toList) with
  | some path => rfl
  | none =>
      dsimp only
      split_ifs
      · rfl
      · cases groupedLine (trim line.toList) with
        | none => rfl
        | some number =>
            cases state.2 with
            | none => rfl
            | some path => rfl

theorem capped_readLine (state : Scan × Option String) (line : String) :
    (readLine state line).1.capped =
      (citedOn state.2 line).foldl (CappedIndex.note maxCitations) state.1.capped := by
  rw [readLine, capped_foldl_cite, capped_readGroup, capped_noteIndex, citedOn,
    List.foldl_append]

theorem capped_readLines (lines : List String) (state : Scan × Option String) :
    (readLines state lines).1.capped =
      (foundIn state.2 lines).foldl (CappedIndex.note maxCitations) state.1.capped := by
  induction lines generalizing state with
  | nil => rfl
  | cons line rest ih =>
      rw [foundIn, List.foldl_append, ← capped_readLine, ← group_readLine]
      exact ih (readLine state line)

/-- A scan keeps the first positions the text cites, and counts the others. -/
theorem capped_of (text : String) :
    (Scan.of text).capped = CappedIndex.ofList maxCitations (found text) :=
  capped_readLines (textLines text) (default, none)

end Scan

/-! ## When the cap is accounted for -/

/-- The citations of an answer are distinct, at most as many as the cap and in the order
the text first has them, and with those left out as many as the text has positions. -/
structure CapAccounted (answer : Answer) (found : List Citation) : Prop where
  distinct : answer.citations.Nodup
  capped : answer.citations.length ≤ maxCitations
  ordered : answer.citations <+: found.eraseDups
  total : answer.citations.length + answer.citationsOmitted = found.eraseDups.length

section Indexing

variable (call : Call) (text : String)

theorem citations_eq_take : (indexAnswer call text).citations =
    (Scan.found text).eraseDups.take maxCitations := by
  have hindex := Scan.capped_of text
  rw [CappedIndex.ofList_eq] at hindex
  exact congrArg CappedIndex.kept hindex

theorem citations_length_add_omitted :
    (indexAnswer call text).citations.length + (indexAnswer call text).citationsOmitted =
      (CappedIndex.ofList maxCitations (Scan.found text)).kept.length +
        (CappedIndex.ofList maxCitations (Scan.found text)).omitted := by
  rw [← Scan.capped_of]
  rfl

/-- The citations of an answer account for every position of its text exactly when no
position that comes after the first 500 different ones is cited twice. -/
theorem citation_cap_accounted_iff :
    CapAccounted (indexAnswer call text) (Scan.found text) ↔
      ∀ citation ∈ (Scan.found text).eraseDups.drop maxCitations,
        (Scan.found text).count citation = 1 := by
  rw [← CappedIndex.length_add_omitted_iff, ← citations_length_add_omitted call text]
  constructor
  · intro haccounted
    exact haccounted.total
  · intro htotal
    have hcitations := citations_eq_take call text
    refine ⟨?_, ?_, ?_, htotal⟩
    · rw [hcitations]
      exact (nodup_eraseDups _).sublist (List.take_sublist _ _)
    · rw [hcitations]
      exact List.length_take_le _ _
    · rw [hcitations]
      exact List.take_prefix _ _

end Indexing

/-! ## A text past the cap -/

theorem positionsFrom_end (line : List Char) (fuel : ℕ) :
    positionsFrom line fuel line.length = [] := by
  cases fuel with
  | zero => rfl
  | succ fuel =>
      rw [positionsFrom, List.drop_length]
      rfl

/-- A line that is a path with a number has that position and no other. -/
theorem positions_positionLine {path : List Char} (hpath : isSourcePath path = true)
    {number : ℕ} (hnumber : number ≤ u32Max) :
    positions (path ++ ':' :: (toString number).toList) =
      [⟨String.ofList path, number, none⟩] := by
  have hends : EndsNumber [] := fun _ hletter => by cases hletter
  have hread := numberAt_afterColon path hnumber hends
  have hpast : path.length + 1 + (toString number).toList.length =
      (path ++ ':' :: (toString number).toList).length := by
    rw [List.length_append, List.length_cons]
    omega
  have hafter := columnAt_eq_none
    (List.drop_length (l := path ++ ':' :: (toString number).toList)) hends
  have hrun := rtakeWhile_path (Or.inl rfl) hpath
  rw [List.nil_append] at hrun
  rw [List.append_nil, hpast] at hread
  rw [positions, positionsFrom, List.drop_zero, findIdx?_path hpath]
  simp only [Nat.zero_add, hread, List.take_left, hrun, hpath, if_true, hafter,
    positionsFrom_end]

def positionLine (line : ℕ) : String := "a.kt:" ++ toString line

theorem toList_positionLine (line : ℕ) :
    (positionLine line).toList = "a.kt".toList ++ ':' :: (toString line).toList := by
  simp [positionLine]

/-- The letters of such a line, by a test that its path and the digits pass. -/
theorem of_mem_positionLine (holds : Char → Bool)
    (hpath : ("a.kt:".toList ++ decimalDigits).all holds = true) {line : ℕ} {letter : Char}
    (hletter : letter ∈ (positionLine line).toList) : holds letter = true := by
  rw [List.all_append, Bool.and_eq_true] at hpath
  rw [positionLine, String.toList_append, List.mem_append] at hletter
  rcases hletter with hpathLetter | hdigit
  · exact List.all_eq_true.1 hpath.1 letter hpathLetter
  · exact of_mem_toString hpath.2 hdigit

theorem trim_positionLine (line : ℕ) :
    trim (positionLine line).toList = (positionLine line).toList := by
  apply trim_of_forall
  intro letter hletter
  have hblack := of_mem_positionLine (fun letter => !isWhitespace letter) (by decide) hletter
  simpa using hblack

theorem textLines_positionLine (line : ℕ) :
    textLines (positionLine line ++ "\n") = [positionLine line] := by
  have hclean {letter : Char} (hletter : letter ∈ (positionLine line).toList) :
      letter ≠ '\n' ∧ letter ≠ '\r' := by
    have hother := of_mem_positionLine (fun letter => letter ≠ '\n' && letter ≠ '\r')
      (by decide) hletter
    simpa using hother
  apply textLines_of_clean
  · intro hbreak
    exact (hclean hbreak).1 rfl
  · intro hreturn
    exact (hclean (List.mem_of_getLast? hreturn)).2 rfl

/-- Such a line cites its position and leaves no group open. -/
theorem citedOn_positionLine {line : ℕ} (hline : line ≤ u32Max) :
    Scan.citedOn none (positionLine line) = [⟨"a.kt", line, none⟩] ∧
      Scan.groupAfter none (positionLine line) = none := by
  have hheading : headingPath (positionLine line).toList = none := by
    rw [toList_positionLine]
    rfl
  have hpath : isSourcePath (positionLine line).toList = false := by
    rw [toList_positionLine, isSourcePath]
    simp [isPathCharacter]
  have hnamed : isSourcePath "a.kt".toList = true := by decide
  have hpositions := positions_positionLine hnamed hline
  rw [← toList_positionLine] at hpositions
  constructor
  · rw [Scan.citedOn, hpositions, Scan.groupedCitation_none]
    rfl
  · rw [Scan.groupAfter, trim_positionLine, hheading]
    simp [hpath]

theorem found_positionLines {lines : List ℕ} (hlines : ∀ line ∈ lines, line ≤ u32Max) :
    Scan.found (unlines (lines.map positionLine)) =
      lines.map fun line => ⟨"a.kt", line, none⟩ := by
  have htext : textLines (unlines (lines.map positionLine)) = lines.map positionLine := by
    rw [textLines_unlines, List.flatMap_map]
    simp only [textLines_positionLine]
    exact List.map_eq_flatMap.symm
  rw [Scan.found, htext]
  clear htext
  induction lines with
  | nil => rfl
  | cons line rest ih =>
      rw [List.forall_mem_cons] at hlines
      obtain ⟨hcited, hgroup⟩ := citedOn_positionLine hlines.1
      rw [List.map_cons, List.map_cons, Scan.foundIn, hcited, hgroup, ih hlines.2]
      rfl

/-- 501 positions, the last of them twice. -/
def repeatedText : String := unlines ((List.range 501 ++ [500]).map positionLine)

/-- The position past the cap is counted as two. -/
theorem repeated_position_counted_twice :
    ¬CapAccounted
      (indexAnswer ⟨⟨"find_kotlin_symbol", "symbols", .engineIndex⟩, "/repo", some 0, none⟩
        repeatedText) (Scan.found repeatedText) := by
  let position : ℕ → Citation := fun line => ⟨"a.kt", line, none⟩
  have hinjective : Function.Injective position := by
    intro left right hequal
    exact congrArg Citation.line hequal
  have hfound : Scan.found repeatedText = (List.range 501 ++ [500]).map position := by
    apply found_positionLines
    decide +kernel
  have hdistinct : (Scan.found repeatedText).eraseDups = (List.range 501).map position := by
    have hseen : position 500 ∈ (List.range 501).map position :=
      List.mem_map_of_mem (List.mem_range.2 (by decide))
    rw [hfound, List.map_append, List.map_singleton, eraseDups_append_singleton,
      if_pos hseen, eraseDups_of_nodup (List.nodup_range.map hinjective)]
  have hlast : position 500 ∈ (Scan.found repeatedText).eraseDups.drop maxCitations := by
    rw [hdistinct, ← List.map_drop]
    exact List.mem_map_of_mem (by decide +kernel)
  have htwice : (Scan.found repeatedText).count (position 500) = 2 := by
    rw [hfound, List.count_map_of_injective _ _ hinjective]
    decide +kernel
  intro haccounted
  have htotal := haccounted.total
  rw [citations_length_add_omitted, CappedIndex.length_add_omitted_iff] at htotal
  have honce := htotal (position 500) hlast
  omega

end Ktsense.Mcp
