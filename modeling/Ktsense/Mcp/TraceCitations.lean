import Ktsense.Core.TraceInjection
import Ktsense.Mcp.Citations

/-!
# The citation index of a trace

What `render_trace_markdown` writes, `index_answer` reads back: the places a trace shows
are in its index, unless the index leaves citations out.
-/

namespace Ktsense.Core

open Ktsense.Foundation Ktsense.Mcp

/-- The enclosing name of a reference, where there is one, is not blank. -/
def Reference.Named (reference : Reference) : Prop :=
  ∀ enclosing, reference.enclosing = some enclosing →
    trim enclosing.qualifiedName.toList ≠ []

namespace TraceReport

variable (report : TraceReport)

/-- The list of implementors that is shown: the engine's only when there is no other. -/
def shownImplementors : List (String × ℕ) :=
  report.supertypeImplementors.elim
    (report.implementors.map fun related => (related.path, related.line))
    fun found => found.implementors.map fun implementor =>
      (implementor.path, implementor.line)

def shownCallers : List (String × ℕ) :=
  report.callers.flatMap fun level =>
    level.callers.map fun related => (related.path, related.line)

def listedUsages : List (String × ℕ) :=
  report.usages.flatMap fun group =>
    group.references.map fun reference => (group.path, reference.line)

/-- The places a trace shows. -/
def shownPlaces : List (String × ℕ) :=
  (report.definition.path, report.definition.line) :: report.shownImplementors ++
    report.shownCallers ++ report.listedUsages

/-- Every place shown is a line of a source file, its number a `u32`, and no reference
stands in a declaration with a blank name. -/
structure Indexable : Prop where
  paths : ∀ place ∈ report.shownPlaces, isSourcePath place.1.toList = true
  lines : ∀ place ∈ report.shownPlaces, place.2 ≤ u32Max
  named : ∀ group ∈ report.usages, ∀ reference ∈ group.references, reference.Named

end TraceReport

end Ktsense.Core

namespace Ktsense.Mcp

open Ktsense.Core Ktsense.Foundation

/-! ## Paths and names as they are printed -/

theorem toNat_lt_of_isPathCharacter {letter : Char}
    (hletter : isPathCharacter letter = true) : letter.toNat < 128 := by
  rw [isPathCharacter, Bool.or_eq_true] at hletter
  rcases hletter with halphanum | hmark
  · simp only [Char.isAlphanum, Char.isAlpha, Char.isUpper, Char.isLower, Char.isDigit,
      Bool.or_eq_true, Bool.and_eq_true, decide_eq_true_eq,
      UInt32.le_iff_toNat_le] at halphanum
    simp at halphanum
    omega
  · rw [List.contains_iff_mem] at hmark
    fin_cases hmark <;> decide

/-- A path character is neither unsafe to print nor white space. -/
theorem plain_of_isPathCharacter {letter : Char} (hletter : isPathCharacter letter = true) :
    isUnsafeInOutput letter = false ∧ isWhitespace letter = false := by
  have hplain : ∀ code < 128, isPathCharacter (Char.ofNat code) = true →
      isUnsafeInOutput (Char.ofNat code) = false ∧
        isWhitespace (Char.ofNat code) = false := by
    decide
  have hcode := hplain letter.toNat (toNat_lt_of_isPathCharacter hletter)
  rw [Char.ofNat_toNat] at hcode
  exact hcode hletter

theorem neutralize_path {path : String} (hpath : isSourcePath path.toList = true) :
    neutralize path = path :=
  neutralize_safe fun letter hletter =>
    (plain_of_isPathCharacter (all_of_isSourcePath hpath letter hletter)).1

theorem trim_path {path : String} (hpath : isSourcePath path.toList = true) :
    trim path.toList = path.toList :=
  trim_of_forall fun letter hletter =>
    (plain_of_isPathCharacter (all_of_isSourcePath hpath letter hletter)).2

/-- A name that is not blank is not blank when it is neutralized. -/
theorem exists_black_of_neutralize {name : String} (hname : trim name.toList ≠ []) :
    ∃ letter ∈ (neutralize name).toList, isWhitespace letter = false := by
  obtain ⟨letter, hletter, hblack⟩ : ∃ letter ∈ name.toList, isWhitespace letter = false := by
    by_contra hnone
    simp only [not_exists, not_and, Bool.not_eq_false] at hnone
    apply hname
    have hdrop : name.toList.dropWhile isWhitespace = [] :=
      List.dropWhile_eq_nil_iff.2 hnone
    rw [trim, hdrop]
    rfl
  have hmem (printed : Char) (hprinted : printed ∈ neutralizeChar letter) :
      printed ∈ (neutralize name).toList := by
    rw [neutralize, String.toList_ofList]
    exact List.mem_flatMap.2 ⟨letter, hletter, hprinted⟩
  by_cases hunsafe : isUnsafeInOutput letter = true
  · refine ⟨'<', hmem '<' ?_, by decide⟩
    rw [neutralizeChar, if_pos hunsafe]
    exact List.mem_cons_self
  · refine ⟨letter, hmem letter ?_, hblack⟩
    rw [neutralizeChar, if_neg hunsafe]
    exact List.mem_singleton_self letter

/-! ## The lines that cite -/

theorem endsNumber_nil : EndsNumber [] := fun _ hletter => by cases hletter

theorem endsNumber_blank (rest : List Char) : EndsNumber (' ' :: rest) := by
  intro letter hletter
  obtain rfl := Option.some.inj hletter
  decide

/-- A path and its line, with a front that ends in a blank and a tail that starts
with one. -/
theorem mem_positions_line {front path tail line : String} {number : ℕ}
    (hline : line = front ++ path ++ ":" ++ toString number ++ tail)
    (hfront : EndsInBlank front.toList) (hpath : isSourcePath path.toList = true)
    (hnumber : number ≤ u32Max) (htail : EndsNumber tail.toList) :
    ⟨path, number, none⟩ ∈ positions line.toList := by
  have hmem := mem_positions hfront hpath hnumber htail
  rw [String.ofList_toList] at hmem
  have hletters : line.toList = front.toList ++ path.toList ++
      ':' :: ((toString number).toList ++ tail.toList) := by
    rw [hline]
    simp
  rwa [hletters]

theorem endsInBlank_append (text : String) : EndsInBlank (text ++ "  ").toList := by
  refine Or.inr ⟨text.toList ++ [' '], ?_⟩
  simp

theorem mem_positions_relatedLine {related : RelatedDeclaration}
    (hpath : isSourcePath related.path.toList = true) (hline : related.line ≤ u32Max) :
    ⟨related.path, related.line, none⟩ ∈ positions (relatedLine related).toList := by
  let name := (related.qualifiedName.map neutralize).getD
    "(enclosing declaration not resolved)"
  let sites := if related.sites = 1 then "" else " (" ++ toString related.sites ++ " sites)"
  have htail : EndsNumber sites.toList := by
    by_cases hone : related.sites = 1
    · have hsites : sites = "" := if_pos hone
      rw [hsites]
      exact endsNumber_nil
    · have hsites : sites.toList =
          ' ' :: ("(" ++ toString related.sites ++ " sites)").toList := by
        have hmany : sites = " (" ++ toString related.sites ++ " sites)" := if_neg hone
        rw [hmany]
        simp
      rw [hsites]
      exact endsNumber_blank _
  have hprinted : relatedLine related =
      ("- " ++ name ++ "  ") ++ related.path ++ ":" ++ toString related.line ++ sites := by
    rw [relatedLine, neutralize_path hpath]
  exact mem_positions_line hprinted (endsInBlank_append _) hpath hline htail

theorem mem_positions_supertypeLine {implementor : SupertypeImplementor}
    (hpath : isSourcePath implementor.path.toList = true)
    (hline : implementor.line ≤ u32Max) :
    ⟨implementor.path, implementor.line, none⟩ ∈
      positions (supertypeLine implementor).toList := by
  cases hvia : implementor.via with
  | none =>
      have hprinted : supertypeLine implementor =
          ("- " ++ neutralize implementor.fqn ++ "  ") ++ implementor.path ++ ":" ++
            toString implementor.line ++ "" := by
        rw [supertypeLine, hvia, neutralize_path hpath]
      exact mem_positions_line hprinted (endsInBlank_append _) hpath hline endsNumber_nil
  | some parent =>
      have hprinted : supertypeLine implementor =
          ("- " ++ neutralize implementor.fqn ++ "  ") ++ implementor.path ++ ":" ++
            toString implementor.line ++ (" via " ++ neutralize parent) := by
        rw [supertypeLine, hvia, neutralize_path hpath]
      have htail : EndsNumber (" via " ++ neutralize parent).toList := by
        have hletters : (" via " ++ neutralize parent).toList =
            ' ' :: ("via " ++ neutralize parent).toList := by
          simp
        rw [hletters]
        exact endsNumber_blank _
      exact mem_positions_line hprinted (endsInBlank_append _) hpath hline htail

theorem mem_positions_definitionLine {report : TraceReport}
    (hpath : isSourcePath report.definition.path.toList = true)
    (hline : report.definition.line ≤ u32Max) :
    ⟨report.definition.path, report.definition.line, none⟩ ∈
      positions report.definitionLine.toList := by
  have hprinted : report.definitionLine =
      "" ++ report.definition.path ++ ":" ++ toString report.definition.line ++ "" := by
    rw [TraceReport.definitionLine, neutralize_path hpath]
    simp
  exact mem_positions_line hprinted (Or.inl rfl) hpath hline endsNumber_nil

/-! ## Usage groups -/

theorem groupedLine_of_number {number : ℕ} (hnumber : number ≤ u32Max) {tail : List Char}
    (hends : EndsNumber tail)
    (htail : tail = [] ∨ ∃ rest, tail = ' ' :: 'i' :: 'n' :: ' ' :: rest) :
    groupedLine ('-' :: ' ' :: ((toString number).toList ++ tail)) = some number := by
  have hstrip : stripStart "- ".toList ('-' :: ' ' :: ((toString number).toList ++ tail)) =
      some ((toString number).toList ++ tail) :=
    stripStart_append "- ".toList _
  have hread := numberAt_toString [] hnumber hends
  rw [List.nil_append, List.length_nil, Nat.zero_add] at hread
  rw [groupedLine, hstrip, Option.bind_eq_bind, Option.bind_some, hread,
    Option.bind_eq_bind, Option.bind_some]
  dsimp only
  rw [List.drop_left]
  rcases htail with rfl | ⟨rest, rfl⟩
  · rfl
  · rfl

/-- A usage line, trimmed, is its number and at most the name it stands in. -/
theorem trim_usageLine {reference : Reference} (hnamed : reference.Named) :
    ∃ tail, trim (usageLine reference).toList =
        '-' :: ' ' :: ((toString reference.line).toList ++ tail) ∧ EndsNumber tail ∧
      (tail = [] ∨ ∃ rest, tail = ' ' :: 'i' :: 'n' :: ' ' :: rest) := by
  have hdigits : ∀ letter ∈ (toString reference.line).toList, isWhitespace letter = false := by
    intro letter hletter
    have hblack : decimalDigits.all (!isWhitespace ·) = true := by decide
    simpa using of_mem_toString hblack hletter
  cases henclosing : reference.enclosing with
  | none =>
      refine ⟨[], ?_, endsNumber_nil, Or.inl rfl⟩
      have hletters : (usageLine reference).toList =
          '-' :: [' '] ++ (toString reference.line).toList := by
        rw [usageLine, henclosing]
        simp
      have hkept : (toString reference.line).toList.rdropWhile isWhitespace =
          (toString reference.line).toList := by
        rw [List.rdropWhile_eq_self_iff]
        intro hne
        rw [hdigits _ (List.getLast_mem hne)]
        exact Bool.false_ne_true
      have hblack : ∃ letter ∈ (toString reference.line).toList,
          isWhitespace letter = false :=
        ⟨_, List.head_mem (toString_ne_nil _), hdigits _ (List.head_mem _)⟩
      rw [hletters, trim_append (by decide) hblack, hkept, List.append_nil]
      rfl
  | some enclosing =>
      have hname := exists_black_of_neutralize (hnamed enclosing henclosing)
      have hletters : (usageLine reference).toList =
          '-' :: ' ' :: ((toString reference.line).toList ++ [' ', 'i', 'n', ' ']) ++
            (neutralize enclosing.qualifiedName).toList := by
        rw [usageLine, henclosing]
        simp
      refine ⟨' ' :: 'i' :: 'n' :: ' ' ::
        (neutralize enclosing.qualifiedName).toList.rdropWhile isWhitespace, ?_,
        endsNumber_blank _, Or.inr ⟨_, rfl⟩⟩
      rw [hletters, trim_append (by decide) hname]
      simp

/-- A usage line cites the path of the group that is open, and leaves it open. -/
theorem readLine_usageLine {reference : Reference} (hnamed : reference.Named)
    (hline : reference.line ≤ u32Max) {state : Scan × Option String} {path : String}
    (hopen : state.2 = some path) :
    (Scan.readLine state (usageLine reference)).1.Cites ⟨path, reference.line, none⟩ ∧
      (Scan.readLine state (usageLine reference)).2 = some path := by
  obtain ⟨tail, htrimmed, hends, htail⟩ := trim_usageLine hnamed
  have hnumber := groupedLine_of_number hline hends htail
  have hgroup := Scan.readGroup_numbered hnumber
    (state.1.noteIndex (trim (usageLine reference).toList)) path
  rw [← htrimmed, ← hopen] at hgroup
  rw [← hopen]
  exact Scan.readLine_cites_group hgroup

theorem readLines_usageLines {path : String} (references : List Reference)
    (hnamed : ∀ reference ∈ references, reference.Named)
    (hlines : ∀ reference ∈ references, reference.line ≤ u32Max)
    {state : Scan × Option String} (hopen : state.2 = some path) :
    ∀ reference ∈ references,
      (Scan.readLines state (references.map usageLine)).1.Cites
        ⟨path, reference.line, none⟩ := by
  induction references generalizing state with
  | nil => exact fun _ hmem => absurd hmem List.not_mem_nil
  | cons first rest ih =>
      rw [List.forall_mem_cons] at hnamed hlines ⊢
      have hfirst := readLine_usageLine hnamed.1 hlines.1 hopen
      exact ⟨hfirst.1.extends (Scan.readLines_extends _ _),
        ih hnamed.2 hlines.2 hfirst.2⟩

/-- A group opens with its path and cites the lines under it. -/
theorem readLines_usageGroupLines {group : ReferenceGroup}
    (hpath : isSourcePath group.path.toList = true)
    (hnamed : ∀ reference ∈ group.references, reference.Named)
    (hlines : ∀ reference ∈ group.references, reference.line ≤ u32Max)
    (state : Scan × Option String) :
    ∀ reference ∈ group.references,
      (Scan.readLines state (usageGroupLines group)).1.Cites
        ⟨group.path, reference.line, none⟩ := by
  intro reference hreference
  have hopen (opened : Scan × Option String) :
      (Scan.readLine opened group.path).2 = some group.path := by
    rw [Scan.readLine, trim_path hpath, Scan.readGroup_path hpath]
  have hcites := readLines_usageLines group.references hnamed hlines
    (hopen (Scan.readLine state "")) reference hreference
  rw [usageGroupLines, neutralize_path hpath, Scan.readLines_append]
  exact hcites.extends (Scan.readLines_extends _ _)

/-! ## The scan of a document -/

/-- What the scan of consecutive safe lines cites, the scan of the document does. -/
theorem scan_cites {document lines : List String} {citation : Citation}
    (hlines : lines <:+: document) (hsafe : AllSafe lines)
    (hcites : ∀ state, (Scan.readLines state lines).1.Cites citation) :
    (Scan.of (unlines document)).Cites citation := by
  obtain ⟨before, after, rfl⟩ := hlines
  rw [Scan.of, textLines_unlines, List.flatMap_append, List.flatMap_append,
    flatMap_textLines_of_allSafe hsafe, Scan.readLines_append, Scan.readLines_append]
  exact (hcites _).extends (Scan.readLines_extends _ _)

/-- A document of safe lines is scanned line by line. -/
theorem scan_of_allSafe {lines : List String} (hsafe : AllSafe lines) :
    Scan.of (unlines lines) = (Scan.readLines (Scan.default, none) lines).1 := by
  rw [Scan.of, textLines_unlines, flatMap_textLines_of_allSafe hsafe]

theorem scan_cites_of_mem {document : List String} {line : String} {citation : Citation}
    (hline : line ∈ document) (hsafe : Safe line)
    (hposition : citation ∈ positions line.toList) :
    (Scan.of (unlines document)).Cites citation := by
  have hinfix : [line] <:+: document := (List.singleton_infix_iff line document).2 hline
  apply scan_cites hinfix (by simp [hsafe])
  intro state
  exact Scan.readLine_cites_position hposition state

/-! ## The trace -/

section Trace

variable {report : TraceReport}

theorem scan_cites_definition
    (hpath : isSourcePath report.definition.path.toList = true)
    (hline : report.definition.line ≤ u32Max) :
    (Scan.of (unlines report.lines)).Cites
      ⟨report.definition.path, report.definition.line, none⟩ := by
  have hmem : report.definitionLine ∈ report.lines := by
    simp [TraceReport.lines, TraceReport.openingLines]
  have hsafe : Safe report.definitionLine := by simp [TraceReport.definitionLine]
  exact scan_cites_of_mem hmem hsafe (mem_positions_definitionLine hpath hline)

theorem scan_cites_implementor {place : String × ℕ}
    (hshown : place ∈ report.shownImplementors)
    (hpath : isSourcePath place.1.toList = true) (hline : place.2 ≤ u32Max) :
    (Scan.of (unlines report.lines)).Cites ⟨place.1, place.2, none⟩ := by
  have hmem {line : String} (himplementor : line ∈ report.implementorLines) :
      line ∈ report.lines := by
    simp [TraceReport.lines, himplementor]
  rw [TraceReport.shownImplementors] at hshown
  cases hfound : report.supertypeImplementors with
  | none =>
      rw [hfound, Option.elim_none] at hshown
      obtain ⟨related, hrelated, rfl⟩ := List.mem_map.1 hshown
      have hprinted : relatedLine related ∈ report.implementorLines := by
        rw [TraceReport.implementorLines, hfound, Option.elim_none, listedLines,
          if_neg (by simpa using List.ne_nil_of_mem hrelated)]
        exact List.mem_append_right _ (List.mem_map_of_mem hrelated)
      exact scan_cites_of_mem (hmem hprinted) (safe_relatedLine related)
        (mem_positions_relatedLine hpath hline)
  | some found =>
      rw [hfound, Option.elim_some] at hshown
      obtain ⟨implementor, himplementor, rfl⟩ := List.mem_map.1 hshown
      have hprinted : supertypeLine implementor ∈ report.implementorLines := by
        rw [TraceReport.implementorLines, hfound, Option.elim_some, supertypeLines]
        exact List.mem_append_right _ (List.mem_map_of_mem himplementor)
      exact scan_cites_of_mem (hmem hprinted) (safe_supertypeLine implementor)
        (mem_positions_supertypeLine hpath hline)

/-- A caller is printed among those of its kind at its depth. -/
theorem relatedLine_mem_callerLevelLines {level : CallerLevel}
    {related : RelatedDeclaration} (hrelated : related ∈ level.callers) (fromKotlin : Bool)
    (filter : Option SiteFilter) :
    relatedLine related ∈ callerLevelLines level fromKotlin filter := by
  have hlisted {callers : List RelatedDeclaration} (hmem : related ∈ callers) :
      relatedLine related ∈ listedLines callers relatedLine := by
    rw [listedLines, if_neg (by simpa using List.ne_nil_of_mem hmem)]
    exact List.mem_map_of_mem hmem
  unfold callerLevelLines
  dsimp only
  rw [List.mem_append, List.mem_append]
  cases htest : related.test with
  | false =>
      have hproduction : related ∈ level.callers.filter (!·.test) :=
        List.mem_filter.2 ⟨hrelated, by simp [htest]⟩
      exact Or.inl (Or.inr (hlisted hproduction))
  | true =>
      have htests : related ∈ level.callers.filter (·.test) :=
        List.mem_filter.2 ⟨hrelated, htest⟩
      have hsome : (level.callers.filter (·.test)).isEmpty = false :=
        List.isEmpty_eq_false_iff.2 (List.ne_nil_of_mem htests)
      right
      rw [hsome, if_neg Bool.false_ne_true]
      exact List.mem_append_right _ (hlisted htests)

theorem scan_cites_caller {place : String × ℕ} (hshown : place ∈ report.shownCallers)
    (hpath : isSourcePath place.1.toList = true) (hline : place.2 ≤ u32Max) :
    (Scan.of (unlines report.lines)).Cites ⟨place.1, place.2, none⟩ := by
  obtain ⟨level, hlevel, hplace⟩ := List.mem_flatMap.1 hshown
  obtain ⟨related, hrelated, rfl⟩ := List.mem_map.1 hplace
  have hprinted : relatedLine related ∈ report.callersLines :=
    List.mem_flatMap.2 ⟨level, hlevel, relatedLine_mem_callerLevelLines hrelated _ _⟩
  have hmem : relatedLine related ∈ report.lines := by
    simp [TraceReport.lines, hprinted]
  exact scan_cites_of_mem hmem (safe_relatedLine related)
    (mem_positions_relatedLine hpath hline)

theorem scan_cites_usage (hindexable : report.Indexable) {group : ReferenceGroup}
    (hgroup : group ∈ report.usages) {reference : Reference}
    (hreference : reference ∈ group.references) :
    (Scan.of (unlines report.lines)).Cites ⟨group.path, reference.line, none⟩ := by
  have hshown : ∀ listed ∈ group.references,
      (group.path, listed.line) ∈ report.shownPlaces := by
    intro listed hlisted
    apply List.mem_append_right
    exact List.mem_flatMap.2 ⟨group, hgroup, List.mem_map_of_mem hlisted⟩
  have hinfix : usageGroupLines group <:+: report.lines := by
    have husages : usageGroupLines group <:+: report.usages.flatMap usageGroupLines := by
      obtain ⟨before, after, husages⟩ := List.append_of_mem hgroup
      rw [husages, List.flatMap_append, List.flatMap_cons, ← List.append_assoc]
      exact List.infix_append _ _ _
    have husageLines : usageGroupLines group <:+: report.usagesLines :=
      husages.trans (List.suffix_append _ _).isInfix
    rw [TraceReport.lines, List.append_assoc _ report.attachedLines]
    exact husageLines.trans (List.infix_append _ _ _)
  have hpath := hindexable.paths (group.path, reference.line) (hshown reference hreference)
  have hlines : ∀ listed ∈ group.references, listed.line ≤ u32Max := by
    intro listed hlisted
    exact hindexable.lines (group.path, listed.line) (hshown listed hlisted)
  apply scan_cites hinfix (allSafe_usageGroupLines group)
  intro state
  exact readLines_usageGroupLines hpath (hindexable.named group hgroup) hlines state
    reference hreference

/-- The first marker of a trace is its own. -/
theorem scan_index (report : TraceReport) :
    (Scan.of (unlines report.lines)).index = some report.index.label := by
  let title := "# Trace: " ++ neutralize report.symbol
  let marker := "index: " ++ report.index.label
  have hsafe : AllSafe [title, "", marker] := by simp [title, marker]
  have htitle : stripStart "index: ".toList (trim title.toList) = none := by
    have hletters : title.toList = '#' :: (" Trace: " ++ neutralize report.symbol).toList := by
      simp [title]
    obtain ⟨more, htrimmed⟩ := trim_cons (by decide : isWhitespace '#' = false)
      (" Trace: " ++ neutralize report.symbol).toList
    rw [hletters, htrimmed]
    rfl
  have hmarker (scan : Scan) (hnone : scan.index = none) :
      (scan.noteIndex (trim marker.toList)).index = some report.index.label := by
    have hstrip : (stripStart "index: ".toList (trim marker.toList)).map trim =
        some report.index.label.toList := by
      cases hindex : report.index <;> simp only [marker, hindex] <;> decide
    obtain ⟨rest, hrest, htrimmed⟩ := Option.map_eq_some_iff.1 hstrip
    rw [Scan.noteIndex, hrest]
    dsimp only
    rw [hnone, Option.none_or, htrimmed, String.ofList_toList]
  have hread : (Scan.readLines (Scan.default, none) [title, "", marker]).1.index =
      some report.index.label := by
    change (Scan.readLine (Scan.readLine (Scan.readLine (Scan.default, none) title) "")
      marker).1.index = _
    rw [Scan.readLine_index]
    apply hmarker
    rw [Scan.readLine_index_of_unmarked (by decide),
      Scan.readLine_index_of_unmarked htitle]
    rfl
  have hlines : ∃ after, report.lines = [title, "", marker] ++ after := by
    simp only [TraceReport.lines, TraceReport.openingLines, List.append_assoc]
    exact ⟨_, rfl⟩
  obtain ⟨after, hafter⟩ := hlines
  rw [Scan.of, textLines_unlines, hafter, List.flatMap_append,
    flatMap_textLines_of_allSafe hsafe, Scan.readLines_append]
  exact (Scan.readLines_extends _ _).index _ hread

theorem scan_cites_shown (hindexable : report.Indexable) {place : String × ℕ}
    (hplace : place ∈ report.shownPlaces) :
    (Scan.of (unlines report.lines)).Cites ⟨place.1, place.2, none⟩ := by
  have hpath := hindexable.paths place hplace
  have hline := hindexable.lines place hplace
  rw [TraceReport.shownPlaces, List.mem_append, List.mem_append, List.mem_cons] at hplace
  rcases hplace with ((hdefinition | himplementor) | hcaller) | husage
  · rw [hdefinition] at hpath hline ⊢
    exact scan_cites_definition hpath hline
  · exact scan_cites_implementor himplementor hpath hline
  · exact scan_cites_caller hcaller hpath hline
  · obtain ⟨group, hgroup, hreference⟩ := List.mem_flatMap.1 husage
    obtain ⟨reference, hlisted, rfl⟩ := List.mem_map.1 hreference
    exact scan_cites_usage hindexable hgroup hlisted

/-- The index of a trace is the inverse of its rendering: its marker is that of the
report, and unless citations are left out it has every place the trace shows. -/
theorem index_inverts_trace (call : Call) (report : TraceReport)
    (hindexable : report.Indexable) :
    (indexAnswer call (renderTraceMarkdown report)).index = some report.index.label ∧
      ((indexAnswer call (renderTraceMarkdown report)).citationsOmitted = 0 →
        ∀ place ∈ report.shownPlaces, ⟨place.1, place.2, none⟩ ∈
          (indexAnswer call (renderTraceMarkdown report)).citations) := by
  simp only [TraceReport.renderTraceMarkdown_eq, index_indexAnswer, citations_indexAnswer,
    citationsOmitted_indexAnswer]
  constructor
  · exact scan_index report
  · intro homitted place hplace
    exact scan_cites_shown hindexable hplace homitted

end Trace

/-- An interface with one implementor and one caller, which uses it on one line. -/
def tracedReport : TraceReport where
  symbol := "demo.Repo"
  index := .partly
  definition := ⟨"demo.Repo", "src/Repo.kt", 3, "interface Repo"⟩
  implementors := []
  supertypeImplementors := some ⟨[⟨"demo.Disk", "src/Disk.kt", 4, some "Repo"⟩]⟩
  callers := [⟨1, [⟨"src/App.kt", 7, some "demo.App", none, 2, false⟩], 0, 0⟩]
  usages := [⟨"src/App.kt", [⟨7, none, some ⟨.function, "demo.App.run", 5⟩⟩], 0⟩]
  sites := 1
  excludedSites := []
  annotated := none
  javaTextReferences := none
  kotlinTextReferences := none
  filter := none
  ignoredDirectoryResults := 0

theorem tracedReport_quotesSafely : tracedReport.QuotesSafely where
  signature := by decide
  filter := by
    intro applied happlied
    cases happlied

theorem tracedReport_indexable : tracedReport.Indexable where
  paths := by decide
  lines := by decide
  named := by
    intro group hgroup reference hreference enclosing henclosing
    obtain rfl := List.mem_singleton.1 hgroup
    obtain rfl := List.mem_singleton.1 hreference
    obtain rfl := Option.some.inj henclosing
    decide

theorem tracedReport_omits_nothing :
    (Scan.of (unlines tracedReport.lines)).omitted = 0 := by
  rw [scan_of_allSafe (TraceReport.allSafe_lines_iff.2 tracedReport_quotesSafely)]
  decide +kernel

/-- The caller's use of the interface is in the index of the trace. -/
theorem tracedReport_indexed :
    (indexAnswer ⟨⟨"trace_kotlin_symbol", "trace", .engineIndex⟩, "/repo", some 0, none⟩
      (renderTraceMarkdown tracedReport)).index = some "partial" ∧
    ∀ place ∈ tracedReport.shownPlaces, ⟨place.1, place.2, none⟩ ∈
      (indexAnswer ⟨⟨"trace_kotlin_symbol", "trace", .engineIndex⟩, "/repo", some 0, none⟩
        (renderTraceMarkdown tracedReport)).citations := by
  have hindexed := index_inverts_trace
    ⟨⟨"trace_kotlin_symbol", "trace", .engineIndex⟩, "/repo", some 0, none⟩ tracedReport
    tracedReport_indexable
  refine ⟨hindexed.1, hindexed.2 ?_⟩
  rw [citationsOmitted_indexAnswer, TraceReport.renderTraceMarkdown_eq]
  exact tracedReport_omits_nothing

end Ktsense.Mcp
