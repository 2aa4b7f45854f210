import Ktsense.Cli.TextRefs
import Ktsense.Core.References
import Ktsense.Syntax.Tree

/-!
# What a site lies in

`classify.rs`: a site is looked up in the syntax tree, and what it lies in is told by the
nodes around it.  The smallest node at a point is the parser's answer, given as the way to
it from the root; a column of the engine counts UTF-16 units and a point counts bytes.  Both
are naturals here, `u32` and `usize` in the source, which agrees on lines shorter than 2^32.
-/

namespace Ktsense.Syntax

open Ktsense.Foundation Ktsense.Core Ktsense.Cli Node

def stringKinds : List String :=
  ["string_literal", "line_string_literal", "multi_line_string_literal", "character_literal"]

def interpolationKinds : List String := ["interpolated_expression", "interpolated_identifier"]

/-- The loop over the characters of a line, from a byte on. -/
def byteColumnFrom (units : ℕ) : ℕ → ℕ → List Char → ℕ
  | _, byte, [] => byte
  | consumed, byte, letter :: rest =>
      if units < consumed + utf16Size letter then byte
      else byteColumnFrom units (consumed + utf16Size letter) (byte + letter.utf8Size) rest

/-- The byte where the character begins that holds a UTF-16 offset, or the end of the line. -/
def byteColumnOfUtf16 (line : String) (units : ℕ) : ℕ :=
  byteColumnFrom units 0 0 line.toList

/-! ## Ways into a tree -/

def nodeAt : Node → List ℕ → Option Node
  | node, [] => some node
  | node, index :: way => (node.children[index]?).bind fun child => nodeAt child way

/-- The nodes on a way, from the first on. -/
def nodesOn : Node → List ℕ → List Node
  | node, [] => [node]
  | node, index :: way =>
      node :: ((node.children[index]?).map fun child => nodesOn child way).getD []

/-- A node, its parent and so on. -/
def ancestors (root : Node) (way : List ℕ) : List Node := (nodesOn root way).reverse

/-- What a site is for lying in the node, whatever is around it. -/
def settles (node : Node) : Option SiteKind :=
  if node.kind = "line_comment" then some .comment
  else if node.kind = "multiline_comment" then
    some (if "/**".toList.isPrefixOf node.text.toList then .kdoc else .comment)
  else if node.kind ∈ interpolationKinds then some .code
  else if node.kind ∈ stringKinds then some .string
  else none

/-- The child at an index is the first of its kind among the children. -/
def namesWith (parent : Node) (nameKind : String) (index : ℕ) : Bool :=
  parent.children.findIdx? (fun child => child.kind = nameKind) = some index

def isDeclarationName (root : Node) (way : List ℕ) : Bool :=
  let named := (nodeAt root way).any fun node =>
    node.kind = "simple_identifier" || node.kind = "type_identifier"
  match way.getLast?, nodeAt root way.dropLast with
  | some index, some parent =>
      named && match parent.kind with
        | "class_declaration" | "object_declaration" | "companion_object" | "type_alias" =>
            namesWith parent "type_identifier" index
        | "function_declaration" | "enum_entry" => namesWith parent "simple_identifier" index
        | "variable_declaration" =>
            namesWith parent "simple_identifier" index && way.length ≥ 2 &&
              (nodeAt root way.dropLast.dropLast).any (·.kind = "property_declaration")
        | _ => false
  | _, _ => false

/-- What lies at the end of a way. -/
def kindAt (root : Node) (way : List ℕ) : SiteKind :=
  ((ancestors root way).findSome? settles).getD
    (if isDeclarationName root way then .declarationName else .code)

section Sites

variable (descendant : Tree → ℕ × ℕ → Option (List ℕ))

/-- What lies at a row and a byte of it. -/
def kindAtPoint (tree : Tree) (point : ℕ × ℕ) : SiteKind :=
  ((descendant tree point).map (kindAt tree.root)).getD .code

def classifySite (tree : Tree) (source : String) (site : ℕ × ℕ) : SiteKind :=
  match (textLines source)[site.1 - 1]? with
  | none => .code
  | some line =>
      kindAtPoint descendant tree (site.1 - 1, byteColumnOfUtf16 line (site.2 - 1))

def classifyReferenceSites (parse : String → Option Tree) (source : String)
    (sites : List (ℕ × ℕ)) : List SiteKind :=
  match parse source with
  | none => List.replicate sites.length .code
  | some tree => sites.map (classifySite descendant tree source)

end Sites

/-! ## Columns -/

theorem byteColumnFrom_append (before rest : List Char) (consumed byte : ℕ) :
    byteColumnFrom (consumed + utf16Length before) consumed byte (before ++ rest) =
      byte + utf8Length before := by
  induction before generalizing consumed byte with
  | nil =>
      cases rest with
      | nil => rfl
      | cons letter rest =>
          have hwide := utf16Size_pos letter
          rw [List.nil_append, byteColumnFrom, if_pos (by simpa using hwide)]
          rfl
  | cons letter before ih =>
      rw [List.cons_append, byteColumnFrom, utf16Length_cons, utf8Length_cons,
        if_neg (by omega), ← Nat.add_assoc, ih, Nat.add_assoc]

/-- The units of a text lead to the byte behind it. -/
theorem byteColumnOfUtf16_append (before rest : List Char) :
    byteColumnOfUtf16 (String.ofList (before ++ rest)) (utf16Length before) =
      utf8Length before := by
  have hcolumn := byteColumnFrom_append before rest 0 0
  rw [Nat.zero_add, Nat.zero_add] at hcolumn
  rw [byteColumnOfUtf16, String.toList_ofList, hcolumn]

/-- Each site is classified by itself. -/
theorem classifyReferenceSites_eq_map (descendant : Tree → ℕ × ℕ → Option (List ℕ))
    (parse : String → Option Tree) (source : String) (sites : List (ℕ × ℕ)) :
    classifyReferenceSites descendant parse source sites =
      sites.map fun site =>
        (parse source).elim .code (classifySite descendant · source site) := by
  rw [classifyReferenceSites]
  cases parse source with
  | none => exact List.map_const'.symm
  | some tree => rfl

theorem length_classifyReferenceSites (descendant : Tree → ℕ × ℕ → Option (List ℕ))
    (parse : String → Option Tree) (source : String) (sites : List (ℕ × ℕ)) :
    (classifyReferenceSites descendant parse source sites).length = sites.length := by
  rw [classifyReferenceSites_eq_map, List.length_map]

/-- A site of a line is looked up at the byte behind the text in front of it. -/
theorem classifySite_of_cut (descendant : Tree → ℕ × ℕ → Option (List ℕ)) {tree : Tree}
    {source line : String} {row : ℕ} {before rest : List Char}
    (hrow : (textLines source)[row]? = some line) (hcut : line.toList = before ++ rest) :
    classifySite descendant tree source (row + 1, utf16Length before + 1) =
      kindAtPoint descendant tree (row, utf8Length before) := by
  have hline : line = String.ofList (before ++ rest) := by rw [← hcut, String.ofList_toList]
  rw [classifySite, Nat.add_sub_cancel, Nat.add_sub_cancel, hrow, hline]
  simp only
  rw [byteColumnOfUtf16_append]

/-! ## Where a match is looked up -/

/-- The text of the line in front of an index. -/
def lineBefore (text : List Char) (start : ℕ) : List Char :=
  (text.take start).rtakeWhile (· ≠ '\n')

/-- The row of an index, and its byte on that row. -/
def pointAt (text : List Char) (start : ℕ) : ℕ × ℕ :=
  ((placeAt text start).1, utf8Length (lineBefore text start))

section Lines

variable {text first : List Char} {start : ℕ}

theorem lineBefore_line (rest : List Char) (hfirst : '\n' ∉ first)
    (hstart : start ≤ first.length) : lineBefore (first ++ rest) start = first.take start := by
  rw [lineBefore, List.take_append_of_le_length hstart, List.rtakeWhile_eq_self_iff]
  intro letter hletter
  exact decide_eq_true fun heq => hfirst (heq ▸ List.mem_of_mem_take hletter)

theorem lineBefore_rest (first rest : List Char) (start : ℕ) :
    lineBefore (first ++ '\n' :: rest) (first.length + 1 + start) = lineBefore rest start := by
  rw [lineBefore, take_behind_break, rtakeWhile_append_of_neg (by simp)]
  rfl

/-- A line as it is read begins with the text of it in front of each of its letters. -/
theorem take_prefix_stripReturn (hstart : start < first.length) :
    first.take start <+: stripReturn first := by
  rcases stripReturn_cases first with ⟨_, hsame⟩ | hreturn
  · rw [hsame]
    exact List.take_prefix _ _
  · have hlength := congrArg List.length hreturn
    rw [List.length_append, List.length_singleton] at hlength
    rw [hreturn, List.take_append_of_le_length (by omega), ← hreturn]
    exact List.take_prefix _ _

/-- The line of an index that is no break. -/
theorem line_of_place (hstart : start < text.length) (hbreak : text[start]? ≠ some '\n') :
    ∃ rest, (textLines (String.ofList text))[(placeAt text start).1]? =
      some (String.ofList (lineBefore text start ++ rest)) := by
  induction text using lines_induction generalizing start with
  | last text hlast =>
      have hplace := placeAt_line [] hlast hstart.le
      have hbefore := lineBefore_line [] hlast hstart.le
      rw [List.append_nil] at hplace hbefore
      have hne : text ≠ [] := List.ne_nil_of_length_pos (Nat.zero_lt_of_lt hstart)
      rw [textLines_last hlast, if_neg hne, hplace, hbefore]
      exact ⟨text.drop start, by rw [List.take_append_drop]; rfl⟩
  | line first rest hfirst ih =>
      rw [textLines_cons hfirst]
      rcases lt_trichotomy start first.length with hless | rfl | hmore
      · obtain ⟨behind, hbehind⟩ := take_prefix_stripReturn hless
        rw [placeAt_line _ hfirst hless.le, lineBefore_line _ hfirst hless.le]
        exact ⟨behind, by rw [hbehind]; rfl⟩
      · simp at hbreak
      · obtain ⟨more, rfl⟩ : ∃ more, start = first.length + 1 + more :=
          Nat.exists_eq_add_of_le hmore
        rw [List.length_append, List.length_cons] at hstart
        have hletter : (first ++ '\n' :: rest)[first.length + 1 + more]? = rest[more]? := by
          rw [List.getElem?_append_right (by omega), Nat.add_assoc, Nat.add_sub_cancel_left,
            Nat.add_comm 1, List.getElem?_cons_succ]
        rw [hletter] at hbreak
        obtain ⟨behind, hbehind⟩ := ih (by omega) hbreak
        rw [placeAt_rest hfirst, lineBefore_rest]
        exact ⟨behind, hbehind⟩

end Lines

/-- A site is looked up at the byte where its match begins. -/
theorem classifySite_coordinatesAt (descendant : Tree → ℕ × ℕ → Option (List ℕ)) (tree : Tree)
    {source : String} {start : ℕ} (hstart : start < source.toList.length)
    (hbreak : source.toList[start]? ≠ some '\n') :
    classifySite descendant tree source (coordinatesAt source.toList start) =
      kindAtPoint descendant tree (pointAt source.toList start) := by
  obtain ⟨rest, hline⟩ := line_of_place hstart hbreak
  rw [String.ofList_toList] at hline
  have hunits : (placeAt source.toList start).2 =
      utf16Length (lineBefore source.toList start) := rfl
  rw [classifySite, coordinatesAt, Nat.add_sub_cancel, Nat.add_sub_cancel, hline, hunits]
  simp only
  rw [byteColumnOfUtf16_append]
  rfl

/-- Where the scan for a name is exact, every match is classified by the node that lies at
the byte where the name is written, in the order of the matches. -/
theorem matches_classified_where_written (descendant : Tree → ℕ × ℕ → Option (List ℕ))
    {parse : String → Option Tree} {source symbol : String} {tree : Tree}
    {sites : List (ℕ × ℕ)} (hparse : parse source = some tree) (hsymbol : symbol ≠ "")
    (hbreak : '\n' ∉ symbol.toList) (hexact : MatchesExactly source symbol)
    (hsites : wordBoundedMatches source symbol = some sites) :
    classifyReferenceSites descendant parse source sites =
      (standings symbol.toList source.toList).map fun start =>
        kindAtPoint descendant tree (pointAt source.toList start) := by
  rw [MatchesExactly, hsites, Option.some.injEq] at hexact
  have hletters : symbol.toList ≠ [] := fun hnil => hsymbol (String.toList_eq_nil_iff.mp hnil)
  simp only [classifyReferenceSites, hparse, hexact, List.map_map]
  apply List.map_congr_left
  intro start hstart
  have hstands : StandsAt symbol.toList source.toList start :=
    of_decide_eq_true (List.mem_filter.mp hstart).2
  apply classifySite_coordinatesAt descendant tree (hstands.occurs.lt_length hletters)
  intro hletter
  have hfirst := hstands.occurs.getElem?_add (List.length_pos_of_ne_nil hletters)
  rw [Nat.add_zero, hletter] at hfirst
  exact hbreak (List.mem_of_getElem? hfirst.symm)

/-! A name in a string, behind a letter of two bytes. -/

def quotedTree : Tree :=
  ⟨.node ⟨"source_file", true, "val s = \"é x\"", 0⟩
    [.node ⟨"string_literal", true, "\"é x\"", 0⟩ []], false⟩

/-- The string begins with the ninth byte. -/
def quotedAt (_ : Tree) (point : ℕ × ℕ) : Option (List ℕ) :=
  if 8 ≤ point.2 then some [0] else some []

theorem matches_classified_where_written_quoted :
    ∃ sites, wordBoundedMatches quotedTree.root.text "x" = some sites ∧
      classifyReferenceSites quotedAt (fun _ => some quotedTree) quotedTree.root.text sites =
        [.string] := by
  have hsites : wordBoundedMatches quotedTree.root.text "x" = some [(1, 12)] := by
    decide +kernel
  have hexact : MatchesExactly quotedTree.root.text "x" := by
    rw [MatchesExactly, hsites]
    decide +kernel
  refine ⟨_, hsites, ?_⟩
  rw [matches_classified_where_written quotedAt rfl (by decide) (by decide) hexact hsites]
  decide +kernel

end Ktsense.Syntax
