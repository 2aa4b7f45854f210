import Ktsense.Mcp.CitationCap
import Ktsense.Mcp.TraceCitations

/-!
# The citation index of a text-reference listing

A site without source text is printed as its number, and behind two blanks the name
it stands in when the scan attributed it.  The index reads a numbered line in a group
only when nothing follows the number, or text that starts with `in `.
-/

namespace Ktsense.Mcp

open Ktsense.Core Ktsense.Foundation

/-! ## White space at the end -/

/-- What is dropped behind a text that ends in none of it. -/
theorem rdropWhile_append {A : Type*} {drops : A → Bool} {front : List A}
    (hfront : front.rdropWhile drops = front) (back : List A) :
    (front ++ back).rdropWhile drops = front ++ back.rdropWhile drops := by
  induction back using List.reverseRecOn with
  | nil => rw [List.append_nil, hfront, List.rdropWhile_nil, List.append_nil]
  | append_singleton back last ih =>
      rw [← List.append_assoc]
      cases hlast : drops last with
      | true => rw [List.rdropWhile_concat_pos _ _ _ hlast, ih,
          List.rdropWhile_concat_pos _ _ _ hlast]
      | false =>
          have hkept : ¬drops last = true := Bool.eq_false_iff.1 hlast
          rw [List.rdropWhile_concat_neg _ _ _ hkept, List.rdropWhile_concat_neg _ _ _ hkept,
            List.append_assoc]

/-- Trimming either end first is the same. -/
theorem dropWhile_rdropWhile (text : List Char) :
    (text.rdropWhile isWhitespace).dropWhile isWhitespace = trim text := by
  induction text with
  | nil => rfl
  | cons first rest ih =>
      cases hfirst : isWhitespace first with
      | true =>
          have htrim : trim (first :: rest) = trim rest := by
            rw [trim, List.dropWhile_cons_of_pos hfirst, trim]
          have hdrop : ((first :: rest).rdropWhile isWhitespace).dropWhile isWhitespace =
              (rest.rdropWhile isWhitespace).dropWhile isWhitespace := by
            by_cases hrest : rest.rdropWhile isWhitespace = []
            · have hall : ∀ letter ∈ first :: rest, isWhitespace letter = true :=
                List.forall_mem_cons.2 ⟨hfirst, List.rdropWhile_eq_nil_iff.1 hrest⟩
              rw [hrest, List.rdropWhile_eq_nil_iff.2 hall]
            · have hkept : (first :: rest.rdropWhile isWhitespace).rdropWhile isWhitespace =
                  first :: rest.rdropWhile isWhitespace := by
                rw [List.rdropWhile_eq_self_iff]
                intro hne
                rw [List.getLast_cons hrest]
                exact List.rdropWhile_last_not isWhitespace rest hrest
              have hcut := rdropWhile_append hkept (rest.rtakeWhile isWhitespace)
              have hwhite : (rest.rtakeWhile isWhitespace).rdropWhile isWhitespace = [] :=
                List.rdropWhile_eq_nil_iff.2 fun _ hletter => List.mem_rtakeWhile_imp hletter
              rw [List.cons_append, List.rdropWhile_append_rtakeWhile, hwhite,
                List.append_nil] at hcut
              rw [hcut, List.dropWhile_cons_of_pos hfirst]
          rw [hdrop, htrim, ih]
      | false =>
          have hblack : ¬isWhitespace first = true := Bool.eq_false_iff.1 hfirst
          have hkept : [first].rdropWhile isWhitespace = [first] := by
            rw [List.rdropWhile_singleton, if_neg hblack]
          have hcut := rdropWhile_append hkept rest
          rw [List.singleton_append] at hcut
          rw [trim_of_head hfirst, hcut, List.singleton_append,
            List.dropWhile_cons_of_neg hblack]

/-! ## Lines without a position -/

theorem positionsFrom_of_notMem {line : List Char} (hcolon : ':' ∉ line) (fuel start : ℕ) :
    positionsFrom line fuel start = [] := by
  cases fuel with
  | zero => rfl
  | succ fuel =>
      have hnone : (line.drop start).findIdx? (· = ':') = none := by
        rw [List.findIdx?_eq_none_iff]
        intro letter hletter
        apply decide_eq_false
        rintro rfl
        exact hcolon (List.mem_of_mem_drop hletter)
      rw [positionsFrom, hnone]

theorem positions_of_notMem {line : List Char} (hcolon : ':' ∉ line) : positions line = [] :=
  positionsFrom_of_notMem hcolon _ _

theorem colon_notMem_path {path : List Char} (hpath : isSourcePath path = true) :
    ':' ∉ path := by
  intro hcolon
  cases all_of_isSourcePath hpath ':' hcolon

theorem headingPath_of_head {first : Char} (hfirst : first ≠ '#') (rest : List Char) :
    headingPath (first :: rest) = none := by
  have hstrip := stripStart_of_head hfirst.symm ['#', ' '] rest
  have hmark : "## ".toList = ['#', '#', ' '] := rfl
  rw [headingPath, hmark, hstrip]
  rfl

namespace Scan

theorem citedOn_empty (group : Option String) :
    citedOn group "" = [] ∧ groupAfter group "" = group := ⟨rfl, rfl⟩

/-- A path opens its group and cites nothing. -/
theorem citedOn_path {path : String} (hpath : isSourcePath path.toList = true)
    (group : Option String) :
    citedOn group path = [] ∧ groupAfter group path = some path := by
  have hheading : headingPath path.toList = none := by
    cases hletters : path.toList with
    | nil => rfl
    | cons first rest =>
        apply headingPath_of_head
        rintro rfl
        have hfirst := all_of_isSourcePath hpath '#' (by rw [hletters]; exact List.mem_cons_self)
        cases hfirst
  constructor
  · unfold citedOn groupedCitation
    rw [trim_path hpath, positions_of_notMem (colon_notMem_path hpath), hheading]
    simp [hpath]
  · unfold groupAfter
    dsimp only
    rw [trim_path hpath, hheading]
    simp [hpath]

/-- A bullet leaves the group open, and cites its number there. -/
theorem citedOn_bullet {line : String} {rest : List Char} (path : String)
    (hline : trim line.toList = '-' :: ' ' :: rest) :
    citedOn (some path) line =
        ((groupedLine ('-' :: ' ' :: rest)).elim [] fun number => [⟨path, number, none⟩]) ++
          positions line.toList ∧
      groupAfter (some path) line = some path := by
  have hheading : headingPath ('-' :: ' ' :: rest) = none := rfl
  have hblank : isSourcePath ('-' :: ' ' :: rest) = false := by
    rw [isSourcePath, List.all_cons, List.all_cons]
    rfl
  constructor
  · unfold citedOn groupedCitation
    rw [hline, hheading]
    dsimp only
    rw [hblank, if_neg Bool.false_ne_true]
    cases groupedLine ('-' :: ' ' :: rest) <;> rfl
  · unfold groupAfter
    dsimp only
    rw [hline, hheading]
    dsimp only
    rw [hblank, if_neg Bool.false_ne_true]

end Scan

/-! ## A listed site -/

/-- The line of the site is read as its number: it is not attributed, or the name it
stands in is blank or starts with `in `. -/
def readable (site : TextReferenceSite) : Bool :=
  site.enclosing.all fun name =>
    let shown := trim (neutralize name).toList
    shown.isEmpty || "in ".toList.isPrefixOf shown

/-- What stands behind the number of a site. -/
def siteTail (site : TextReferenceSite) : List Char :=
  site.enclosing.elim [] fun name => ' ' :: ' ' :: (neutralize name).toList

theorem toList_siteLine (site : TextReferenceSite) :
    (siteLine site).toList =
      '-' :: ' ' :: ((toString site.line).toList ++ siteTail site) := by
  rw [siteLine, siteTail]
  cases site.enclosing <;> simp

theorem trim_siteTail (site : TextReferenceSite) :
    trim (siteTail site) = site.enclosing.elim [] fun name => trim (neutralize name).toList := by
  rw [siteTail]
  cases site.enclosing with
  | none => rfl
  | some name =>
      rw [Option.elim_some, Option.elim_some, trim_cons_of_isWhitespace (by decide),
        trim_cons_of_isWhitespace (by decide)]

theorem readable_eq (site : TextReferenceSite) :
    readable site =
      ((trim (siteTail site)).isEmpty || "in ".toList.isPrefixOf (trim (siteTail site))) := by
  rw [trim_siteTail, readable]
  cases site.enclosing with
  | none => rfl
  | some name => simp only [Option.all_some, Option.elim_some]

theorem trim_siteLine (site : TextReferenceSite) :
    trim (siteLine site).toList = '-' :: ' ' :: ((toString site.line).toList ++
      (siteTail site).rdropWhile isWhitespace) := by
  have hnumber : ('-' :: ' ' :: (toString site.line).toList).rdropWhile isWhitespace =
      '-' :: ' ' :: (toString site.line).toList := by
    rw [List.rdropWhile_eq_self_iff]
    intro hne
    have hwhite : decimalDigits.all (!isWhitespace ·) = true := by decide
    have hdigit := of_mem_toString hwhite (List.getLast_mem (toString_ne_nil site.line))
    rw [Bool.not_eq_true'] at hdigit
    rw [List.getLast_cons (List.cons_ne_nil _ _), List.getLast_cons (toString_ne_nil site.line),
      hdigit]
    exact Bool.false_ne_true
  have hcut := rdropWhile_append hnumber (siteTail site)
  have hdash : isWhitespace '-' = false := by decide
  rw [toList_siteLine, trim_of_head hdash]
  exact hcut

theorem endsNumber_siteTail (site : TextReferenceSite) :
    EndsNumber ((siteTail site).rdropWhile isWhitespace) := by
  have hinitial := List.rdropWhile_prefix isWhitespace (siteTail site)
  intro letter hletter
  obtain ⟨rest, hrest⟩ := List.head?_eq_some_iff.1 hletter
  rw [hrest, siteTail] at hinitial
  cases henclosing : site.enclosing with
  | none =>
      rw [henclosing] at hinitial
      cases List.prefix_nil.1 hinitial
  | some name =>
      rw [henclosing] at hinitial
      obtain ⟨rfl, -⟩ := List.cons_prefix_cons.1 hinitial
      decide

/-- The number of a site is read exactly when the site is readable. -/
theorem groupedLine_siteLine {site : TextReferenceSite} (hline : site.line ≤ u32Max) :
    groupedLine ('-' :: ' ' :: ((toString site.line).toList ++
        (siteTail site).rdropWhile isWhitespace)) =
      if readable site then some site.line else none := by
  have hstrip := stripStart_append "- ".toList
    ((toString site.line).toList ++ (siteTail site).rdropWhile isWhitespace)
  have hread := numberAt_toString [] hline (endsNumber_siteTail site)
  rw [List.nil_append, List.length_nil, Nat.zero_add] at hread
  have hmark : '-' :: ' ' :: ((toString site.line).toList ++
      (siteTail site).rdropWhile isWhitespace) = "- ".toList ++ ((toString site.line).toList ++
        (siteTail site).rdropWhile isWhitespace) := rfl
  rw [groupedLine, hmark, hstrip, Option.bind_eq_bind, Option.bind_some, hread,
    Option.bind_eq_bind, Option.bind_some]
  dsimp only
  rw [List.drop_left, dropWhile_rdropWhile, ← readable_eq]

theorem citedOn_siteLine {site : TextReferenceSite} (hline : site.line ≤ u32Max)
    (path : String) :
    Scan.citedOn (some path) (siteLine site) =
        (if readable site then [⟨path, site.line, none⟩] else []) ++
          positions (siteLine site).toList ∧
      Scan.groupAfter (some path) (siteLine site) = some path := by
  obtain ⟨hcited, hgroup⟩ := Scan.citedOn_bullet path (trim_siteLine site)
  rw [groupedLine_siteLine hline] at hcited
  refine ⟨?_, hgroup⟩
  rw [hcited]
  split_ifs <;> rfl

/-- The line that says how many sites are left out cites nothing. -/
theorem citedOn_moreLine (omitted : ℕ) (path : String) :
    Scan.citedOn (some path) ("- ... " ++ toString omitted ++ " more") = [] ∧
      Scan.groupAfter (some path) ("- ... " ++ toString omitted ++ " more") = some path := by
  let shown := '.' :: '.' :: '.' :: ' ' :: ((toString omitted).toList ++ " more".toList)
  have hletters : ("- ... " ++ toString omitted ++ " more").toList = '-' :: ' ' :: shown := by
    simp [shown]
  have hcolon : ':' ∉ ("- ... " ++ toString omitted ++ " more").toList := by
    have hdigits : ':' ∉ (toString omitted).toList := by
      intro hdigit
      have hother : decimalDigits.all (· ≠ ':') = true := by decide
      exact absurd (of_mem_toString hother hdigit) (by decide)
    rw [String.toList_append, String.toList_append, List.mem_append, List.mem_append]
    rintro ((hfront | hdigit) | hback)
    · exact absurd hfront (by decide)
    · exact hdigits hdigit
    · exact absurd hback (by decide)
  have htrim : trim ("- ... " ++ toString omitted ++ " more").toList = '-' :: ' ' :: shown := by
    have hend : ('-' :: ' ' :: shown).rdropWhile isWhitespace = '-' :: ' ' :: shown := by
      have hsplit : '-' :: ' ' :: shown =
          ("- ... ".toList ++ (toString omitted).toList ++ " mor".toList) ++ ['e'] := by
        simp [shown]
      rw [hsplit]
      exact List.rdropWhile_concat_neg _ _ _ (by decide)
    rw [hletters, trim_of_head (by decide : isWhitespace '-' = false), hend]
  obtain ⟨hcited, hgroup⟩ := Scan.citedOn_bullet path htrim
  have hnumber : groupedLine ('-' :: ' ' :: shown) = none := rfl
  rw [hnumber, positions_of_notMem hcolon] at hcited
  exact ⟨hcited, hgroup⟩

/-! ## A listing -/

namespace TextListing

/-- What a site's line cites in the group of a path. -/
def siteCitations (path : String) (site : TextReferenceSite) : List Citation :=
  (if readable site then [⟨path, site.line, none⟩] else []) ++
    positions (siteLine site).toList

def groupCitations (group : TextReferenceGroup) : List Citation :=
  group.sites.flatMap (siteCitations group.path)

/-- The lines above the groups. -/
def titleLines (refs : TextReferences) (heading note : String) : List String :=
  ["## " ++ heading ++ " (" ++ pluralize refs.totalSites "site" ++ " in " ++
      pluralize refs.fileCount "file" ++ note ++ ")",
    "precision: " ++ textMatchPrecision] ++
    if 0 < refs.totalSites then
      [toString (refs.totalSites - refs.textMentionSites) ++ " in code, " ++
        toString refs.textMentionSites ++ " in comments or strings."]
    else []

/-- What the lines above the groups cite. -/
def titleCitations (refs : TextReferences) (heading note : String) : List Citation :=
  Scan.foundIn none ((titleLines refs heading note).flatMap fun line => textLines (line ++ "\n"))

/-- The positions stated in the title or in the name of an enclosing declaration. -/
def statedPositions (refs : TextReferences) (heading note : String) : List Citation :=
  titleCitations refs heading note ++
    refs.groups.flatMap fun group =>
      group.sites.flatMap fun site => positions (siteLine site).toList

/-- Every group is of a source file, and no site carries source text. -/
structure Indexable (refs : TextReferences) : Prop where
  paths : ∀ group ∈ refs.groups, isSourcePath group.path.toList = true
  lines : ∀ group ∈ refs.groups, ∀ site ∈ group.sites, site.line ≤ u32Max
  texts : ∀ group ∈ refs.groups, ∀ site ∈ group.sites, site.text = none

end TextListing

namespace Scan

theorem foundIn_append (before after : List String) (group : Option String) :
    foundIn group (before ++ after) =
      foundIn group before ++ foundIn (before.foldl groupAfter group) after := by
  induction before generalizing group with
  | nil => rfl
  | cons line rest ih =>
      rw [List.cons_append, foundIn, foundIn, ih, List.append_assoc, List.foldl_cons]

end Scan

open TextListing

theorem foundIn_siteLines {path : String} {sites : List TextReferenceSite}
    (hlines : ∀ site ∈ sites, site.line ≤ u32Max) :
    Scan.foundIn (some path) (sites.map siteLine) = sites.flatMap (siteCitations path) ∧
      (sites.map siteLine).foldl Scan.groupAfter (some path) = some path := by
  induction sites with
  | nil => exact ⟨rfl, rfl⟩
  | cons site rest ih =>
      rw [List.forall_mem_cons] at hlines
      obtain ⟨hcited, hgroup⟩ := citedOn_siteLine hlines.1 path
      obtain ⟨hrest, hopen⟩ := ih hlines.2
      rw [List.map_cons, Scan.foundIn, List.foldl_cons, hgroup, hcited, hrest]
      exact ⟨rfl, hopen⟩

theorem foundIn_groupLines {group : TextReferenceGroup}
    (hpath : isSourcePath group.path.toList = true)
    (hlines : ∀ site ∈ group.sites, site.line ≤ u32Max)
    (htexts : ∀ site ∈ group.sites, site.text = none) (opened : Option String) :
    Scan.foundIn opened (textReferenceGroupLines group) = groupCitations group := by
  have hplain : group.sites.any (·.text.isSome) = false := by
    rw [List.any_eq_false]
    intro site hsite
    rw [htexts site hsite]
    exact Bool.false_ne_true
  obtain ⟨hempty, hkept⟩ := Scan.citedOn_empty opened
  obtain ⟨hpathCited, hpathGroup⟩ := Scan.citedOn_path hpath opened
  obtain ⟨hsites, hopen⟩ := @foundIn_siteLines group.path _ hlines
  obtain ⟨hmore, -⟩ := citedOn_moreLine group.omitted group.path
  rw [textReferenceGroupLines, hplain, if_neg Bool.false_ne_true, neutralize_path hpath,
    List.cons_append, List.singleton_append, Scan.foundIn, Scan.foundIn, hempty, hkept,
    hpathCited, hpathGroup, Scan.foundIn_append, hsites, hopen]
  split_ifs
  · rw [Scan.foundIn, hmore]
    simp [Scan.foundIn, groupCitations]
  · simp [Scan.foundIn, groupCitations]

theorem foundIn_groups {groups : List TextReferenceGroup}
    (hpaths : ∀ group ∈ groups, isSourcePath group.path.toList = true)
    (hlines : ∀ group ∈ groups, ∀ site ∈ group.sites, site.line ≤ u32Max)
    (htexts : ∀ group ∈ groups, ∀ site ∈ group.sites, site.text = none)
    (opened : Option String) :
    Scan.foundIn opened (groups.flatMap textReferenceGroupLines) =
      groups.flatMap groupCitations := by
  induction groups generalizing opened with
  | nil => rfl
  | cons group rest ih =>
      rw [List.forall_mem_cons] at hpaths hlines htexts
      rw [List.flatMap_cons, Scan.foundIn_append,
        foundIn_groupLines hpaths.1 hlines.1 htexts.1, ih hpaths.2 hlines.2 htexts.2,
        List.flatMap_cons]

/-- What the scan finds in a listing. -/
theorem found_textReferences {refs : TextReferences} (hindexable : Indexable refs)
    (heading note : String) :
    Scan.found (renderTextReferencesWithNote refs heading note) =
      titleCitations refs heading note ++ refs.groups.flatMap groupCitations := by
  have hgroups : AllSafe (refs.groups.flatMap textReferenceGroupLines) :=
    allSafe_flatMap fun group _ => allSafe_textReferenceGroupLines group
  have hlines : textReferencesLines refs heading note =
      titleLines refs heading note ++ refs.groups.flatMap textReferenceGroupLines := rfl
  rw [Scan.found, renderTextReferencesWithNote_eq, textLines_unlines, hlines,
    List.flatMap_append, flatMap_textLines_of_allSafe hgroups, Scan.foundIn_append,
    foundIn_groups hindexable.paths hindexable.lines hindexable.texts]
  rfl

/-- When nothing is left out the citations are what the scan finds. -/
theorem mem_citations_iff (call : Call) {text : String}
    (homitted : (indexAnswer call text).citationsOmitted = 0) (citation : Citation) :
    citation ∈ (indexAnswer call text).citations ↔ citation ∈ Scan.found text := by
  have hindex := Scan.capped_of text
  rw [CappedIndex.ofList_eq] at hindex
  have hbeyond : CappedIndex.beyond maxCitations (Scan.found text) = 0 := by
    rw [← homitted]
    exact (congrArg CappedIndex.omitted hindex).symm
  have hkept : (indexAnswer call text).citations =
      CappedIndex.firsts maxCitations (Scan.found text) := congrArg CappedIndex.kept hindex
  rw [hkept]
  constructor
  · exact CappedIndex.mem_of_mem_firsts _ _
  · intro hfound
    have hnone := List.countP_eq_zero.1 hbeyond citation hfound
    simpa using hnone

/-- Without citations left out, every listed site is cited exactly when each is readable
as its number, or another listed site of its file and line is, or the title or an
enclosing name states its position. -/
theorem text_references_cited_iff (call : Call) (refs : TextReferences)
    (heading note : String) (hindexable : Indexable refs)
    (homitted : (indexAnswer call
      (renderTextReferencesWithNote refs heading note)).citationsOmitted = 0) :
    (∀ group ∈ refs.groups, ∀ site ∈ group.sites,
      ⟨group.path, site.line, none⟩ ∈ (indexAnswer call
        (renderTextReferencesWithNote refs heading note)).citations) ↔
      ∀ group ∈ refs.groups, ∀ site ∈ group.sites,
        (∃ other ∈ refs.groups, ∃ twin ∈ other.sites,
          other.path = group.path ∧ twin.line = site.line ∧ readable twin = true) ∨
        ⟨group.path, site.line, none⟩ ∈ statedPositions refs heading note := by
  have hiff (citation : Citation) : citation ∈ (indexAnswer call
      (renderTextReferencesWithNote refs heading note)).citations ↔
        (∃ other ∈ refs.groups, ∃ twin ∈ other.sites, readable twin = true ∧
          citation = ⟨other.path, twin.line, none⟩) ∨
        citation ∈ statedPositions refs heading note := by
    rw [mem_citations_iff call homitted, found_textReferences hindexable, statedPositions]
    have hread (path : String) (site : TextReferenceSite) :
        citation ∈ (if readable site then [⟨path, site.line, none⟩] else [] : List Citation) ↔
          readable site = true ∧ citation = ⟨path, site.line, none⟩ := by
      split_ifs with hreadable
      · simp [hreadable]
      · simp [hreadable]
    simp only [List.mem_append, List.mem_flatMap, groupCitations, siteCitations, hread,
      and_or_left, exists_or]
    exact or_left_comm
  constructor
  · intro hcited group hgroup site hsite
    rcases (hiff _).1 (hcited group hgroup site hsite) with
      ⟨other, hother, twin, htwin, hreadable, hequal⟩ | hstated
    · obtain ⟨hpath, hline, -⟩ := Citation.mk.inj hequal
      exact .inl ⟨other, hother, twin, htwin, hpath.symm, hline.symm, hreadable⟩
    · exact .inr hstated
  · intro hall group hgroup site hsite
    apply (hiff _).2
    rcases hall group hgroup site hsite with
      ⟨other, hother, twin, htwin, hpath, hline, hreadable⟩ | hstated
    · exact .inl ⟨other, hother, twin, htwin, hreadable, by rw [hpath, hline]⟩
    · exact .inr hstated

/-- One site of one file. -/
def oneSite (enclosing : Option String) : TextReferences where
  symbol := "save"
  totalSites := 1
  fileCount := 1
  textMentionSites := 0
  groups := [⟨"src/A.kt", [⟨5, .code, enclosing, none⟩], 0⟩]

theorem oneSite_indexable (enclosing : Option String) : Indexable (oneSite enclosing) where
  paths := by
    intro group hgroup
    obtain rfl := List.mem_singleton.1 hgroup
    have hpath : isSourcePath "src/A.kt".toList = true := by decide
    exact hpath
  lines := by
    intro group hgroup site hsite
    obtain rfl := List.mem_singleton.1 hgroup
    obtain rfl := List.mem_singleton.1 hsite
    have hline : 5 ≤ u32Max := by decide
    exact hline
  texts := by
    intro group hgroup site hsite
    obtain rfl := List.mem_singleton.1 hgroup
    obtain rfl := List.mem_singleton.1 hsite
    rfl

def traceCall : Call :=
  ⟨⟨"trace_kotlin_symbol", "trace", .engineIndex⟩, "/repo", some 0, none⟩

theorem scan_oneSite (enclosing : Option String) :
    Scan.of (renderTextReferencesWithNote (oneSite enclosing) "Kotlin text references" "") =
      (Scan.readLines (Scan.default, none)
        (textReferencesLines (oneSite enclosing) "Kotlin text references" "")).1 := by
  have hsafe : AllSafe
      (textReferencesLines (oneSite enclosing) "Kotlin text references" "") :=
    allSafe_textReferencesLines _ (by decide) (by decide)
  rw [renderTextReferencesWithNote_eq, scan_of_allSafe hsafe]

/-- A site that is not attributed is cited. -/
theorem bare_site_cited :
    (⟨"src/A.kt", 5, none⟩ : Citation) ∈ (indexAnswer traceCall
      (renderTextReferencesWithNote (oneSite none) "Kotlin text references" "")).citations := by
  have homitted : (indexAnswer traceCall (renderTextReferencesWithNote (oneSite none)
      "Kotlin text references" "")).citationsOmitted = 0 := by
    rw [citationsOmitted_indexAnswer, scan_oneSite]
    decide +kernel
  have hcited := (text_references_cited_iff traceCall (oneSite none) "Kotlin text references" ""
    (oneSite_indexable none) homitted).2
  refine hcited ?_ _ (List.mem_singleton_self _) _ (List.mem_singleton_self _)
  intro group hgroup site hsite
  exact .inl ⟨group, hgroup, site, hsite, rfl, rfl, by
    obtain rfl := List.mem_singleton.1 hgroup
    obtain rfl := List.mem_singleton.1 hsite
    rfl⟩

/-- A site that is attributed is not, though nothing is left out. -/
theorem attributed_site_uncited :
    Indexable (oneSite (some "demo.A.run")) ∧
      (indexAnswer traceCall (renderTextReferencesWithNote (oneSite (some "demo.A.run"))
        "Kotlin text references" "")).citationsOmitted = 0 ∧
      ¬∀ group ∈ (oneSite (some "demo.A.run")).groups, ∀ site ∈ group.sites,
        ⟨group.path, site.line, none⟩ ∈ (indexAnswer traceCall
          (renderTextReferencesWithNote (oneSite (some "demo.A.run"))
            "Kotlin text references" "")).citations := by
  refine ⟨oneSite_indexable _, ?_, ?_⟩
  · rw [citationsOmitted_indexAnswer, scan_oneSite]
    decide +kernel
  · rw [citations_indexAnswer, scan_oneSite]
    decide +kernel

end Ktsense.Mcp
