import Ktsense.Foundation.Lines
import Ktsense.Foundation.Occurrences
import Ktsense.Foundation.Sorting

/-!
# The column of a name

The locator of `symbols.rs`: of the places where a name stands as a whole word on a
line, the one nearest to the column that the engine reported, which may count UTF-16
code units.  Columns are words of 32 bits, so what stands further right has none.  The
Unicode class of letters and digits is taken as given.
-/

namespace Ktsense.Lsp

open Ktsense.Foundation

def u32Max : ℕ := 2 ^ 32 - 1

/-- `u32::saturating_add`. -/
def saturatingAdd (left right : ℕ) : ℕ := min (left + right) u32Max

/-- `u32::try_from`. -/
def tryU32 (number : ℕ) : Option ℕ := if number ≤ u32Max then some number else none

inductive ReportedColumn where
  | character (column : ℕ)
  | utf16Offset (units : ℕ)
  deriving DecidableEq, Repr

structure ReportedPosition where
  line : ℕ
  column : ReportedColumn
  deriving DecidableEq, Repr

def ReportedPosition.fromCommandMode (line column : ℕ) : ReportedPosition :=
  ⟨line, .character column⟩

def ReportedPosition.fromLsp (line character : ℕ) : ReportedPosition :=
  ⟨saturatingAdd line 1, .utf16Offset character⟩

/-- The loop of `character_column_of_utf16`, with the index of the next character and
the code units before it. -/
def characterColumnFrom (units : ℕ) : ℕ → ℕ → List Char → Option ℕ
  | _, _, [] => none
  | index, consumed, letter :: rest =>
      if units < saturatingAdd consumed (utf16Size letter) then
        some ((tryU32 (index + 1)).getD u32Max)
      else
        characterColumnFrom units (index + 1) (saturatingAdd consumed (utf16Size letter)) rest

def characterColumnOfUtf16 (text : List Char) (units : ℕ) : ℕ :=
  (characterColumnFrom units 0 0 text).getD ((tryU32 (text.length + 1)).getD u32Max)

def ReportedColumn.inCharacterColumns (text : List Char) : ReportedColumn → ℕ
  | .character column => column
  | .utf16Offset units => characterColumnOfUtf16 text units

def firstColumn : ℕ := 1

/-- The line of a position, counted from one. -/
def lineAt (source : String) (line : ℕ) : Option String :=
  if line = 0 then none else (textLines source)[line - 1]?

section Locating

variable (isAlphanumeric : Char → Bool)

def isIdentifier (letter : Char) : Bool := isAlphanumeric letter || letter = '_'

/-- Offsets are counted in characters. -/
def wholeWordOffsets (text name : List Char) : List ℕ :=
  (matchIndices name text).filter fun offset =>
    let before := (text.take offset).getLast?
    let after := (text.drop (offset + name.length)).head?
    !before.any (isIdentifier isAlphanumeric) && !after.any (isIdentifier isAlphanumeric)

def wholeWordColumns (text name : List Char) : List ℕ :=
  (wholeWordOffsets isAlphanumeric text name).filterMap fun offset => tryU32 (offset + 1)

def nameColumnInSource (source : String) (reported : ReportedPosition) (name : String) :
    Option ℕ := do
  let text ← lineAt source reported.line
  let anchor := reported.column.inCharacterColumns text.toList
  firstMinBy (fun column => Nat.dist column anchor)
    (wholeWordColumns isAlphanumeric text.toList name.toList)

/-- `read` is `fs::read_to_string`, as far as it succeeds. -/
def nameColumnNear (read : String → Option String) (path : String)
    (reported : ReportedPosition) (name : String) : Option ℕ := do
  let source ← read path
  nameColumnInSource isAlphanumeric source reported name

def nameColumn (read : String → Option String) (path : String) (line : ℕ) (name : String) :
    Option ℕ :=
  nameColumnNear isAlphanumeric read path (.fromCommandMode line firstColumn) name

/-- The name stands on the text as a whole word at an index. -/
abbrev NamedAt (text name : String) (start : ℕ) : Prop :=
  WholeWord (isIdentifier isAlphanumeric) name.toList text.toList start

end Locating

/-! ## Reported offsets -/

/-- The character whose first code unit stands at an offset is found, short of the last
offset there is. -/
theorem characterColumnFrom_utf16 {text : List Char} {units start : ℕ}
    (index consumed : ℕ) (hstart : start < text.length) (hindex : index ≤ consumed)
    (hunits : units = consumed + utf16Length (text.take start)) (hfits : units < u32Max) :
    characterColumnFrom units index consumed text = some (index + start + 1) := by
  induction text generalizing start index consumed with
  | nil => simp at hstart
  | cons letter rest ih =>
      have hpositive := utf16Size_pos letter
      rw [characterColumnFrom]
      cases start with
      | zero =>
          rw [List.take_zero, utf16Length_nil, Nat.add_zero] at hunits
          have hinside : units < saturatingAdd consumed (utf16Size letter) := by
            rw [saturatingAdd]
            omega
          rw [if_pos hinside, tryU32, if_pos (by omega), Option.getD_some]
      | succ start =>
          rw [List.take_succ_cons, utf16Length_cons] at hunits
          have hsum : saturatingAdd consumed (utf16Size letter) =
              consumed + utf16Size letter := by
            rw [saturatingAdd]
            omega
          have hshift : index + (start + 1) + 1 = index + 1 + start + 1 := by omega
          rw [hsum, if_neg (by omega), hshift]
          exact ih (index + 1) (consumed + utf16Size letter) (Nat.lt_of_succ_lt_succ hstart)
            (by omega) (by omega)

theorem characterColumnOfUtf16_take {text : List Char} {start : ℕ}
    (hstart : start < text.length) (hunits : utf16Length (text.take start) < u32Max) :
    characterColumnOfUtf16 text (utf16Length (text.take start)) = start + 1 := by
  have hfound := characterColumnFrom_utf16 0 0 hstart le_rfl (Nat.zero_add _).symm hunits
  rw [characterColumnOfUtf16, hfound, Option.getD_some, Nat.zero_add]

/-! ## The whole words of a line -/

section Locating

variable {isAlphanumeric : Char → Bool} {text name : List Char}

theorem mem_wholeWordOffsets (hname : name ≠ [])
    (hletters : ∀ letter ∈ name, isIdentifier isAlphanumeric letter = true) (offset : ℕ) :
    offset ∈ wholeWordOffsets isAlphanumeric text name ↔
      WholeWord (isIdentifier isAlphanumeric) name text offset := by
  rw [wholeWordOffsets, List.mem_filter]
  simp only [Bool.and_eq_true, Bool.not_eq_true']
  constructor
  · rintro ⟨hfound, hbefore, hbehind⟩
    obtain ⟨start, hstart, hoccurs⟩ := occursAt_of_mem_matchIndicesFrom hname hfound
    rw [Nat.zero_add] at hstart
    subst hstart
    exact ⟨hoccurs, hbefore, hbehind⟩
  · intro hwhole
    exact ⟨mem_matchIndices_of_wholeWord hname hletters hwhole, hwhole.before, hwhole.behind⟩

theorem mem_wholeWordColumns (hname : name ≠ [])
    (hletters : ∀ letter ∈ name, isIdentifier isAlphanumeric letter = true) (column : ℕ) :
    column ∈ wholeWordColumns isAlphanumeric text name ↔
      ∃ start, WholeWord (isIdentifier isAlphanumeric) name text start ∧
        column = start + 1 ∧ column ≤ u32Max := by
  rw [wholeWordColumns, List.mem_filterMap]
  constructor
  · rintro ⟨start, hstart, hcolumn⟩
    rw [tryU32] at hcolumn
    split_ifs at hcolumn with hfits
    cases hcolumn
    exact ⟨start, (mem_wholeWordOffsets hname hletters start).mp hstart, rfl, hfits⟩
  · rintro ⟨start, hstart, rfl, hfits⟩
    exact ⟨start, (mem_wholeWordOffsets hname hletters start).mpr hstart, if_pos hfits⟩

theorem pairwise_wholeWordColumns (isAlphanumeric : Char → Bool) (text : List Char)
    {name : List Char} (hname : name ≠ []) :
    (wholeWordColumns isAlphanumeric text name).Pairwise (· < ·) := by
  have hoffsets : (wholeWordOffsets isAlphanumeric text name).Pairwise (· < ·) :=
    (pairwise_matchIndicesFrom hname 0 0 text).filter _
  refine hoffsets.filterMap _ fun left right hlt column hcolumn other hother => ?_
  rw [tryU32] at hcolumn hother
  split_ifs at hcolumn hother
  cases hcolumn
  cases hother
  exact Nat.succ_lt_succ hlt

end Locating

/-! ## The nearest occurrence -/

section Relocating

variable (isAlphanumeric : Char → Bool)

/-- The column of an occurrence that no other is nearer than, nor as near and before
it.  Occurrences without a column do not count. -/
structure Nearest (text name : String) (anchor column : ℕ) : Prop where
  named : ∃ start, NamedAt isAlphanumeric text name start ∧ column = start + 1
  least : ∀ other, NamedAt isAlphanumeric text name other → other + 1 ≤ u32Max →
    Nat.dist column anchor ≤ Nat.dist (other + 1) anchor
  earliest : ∀ other, NamedAt isAlphanumeric text name other → other + 1 ≤ u32Max →
    Nat.dist (other + 1) anchor = Nat.dist column anchor → column ≤ other + 1

/-- What the locator promises of a name on the lines of a source. -/
structure Relocates (source name : String) : Prop where
  none_iff : ∀ reported, nameColumnInSource isAlphanumeric source reported name = none ↔
    ∀ text, lineAt source reported.line = some text →
      ∀ start, NamedAt isAlphanumeric text name start → u32Max < start + 1
  nearest : ∀ reported column,
    nameColumnInSource isAlphanumeric source reported name = some column →
      ∃ text, lineAt source reported.line = some text ∧
        Nearest isAlphanumeric text name (reported.column.inCharacterColumns text.toList)
          column
  fromLsp : ∀ line text start, (textLines source)[line]? = some text →
    NamedAt isAlphanumeric text name start → line < u32Max →
      utf16Length (text.toList.take start) < u32Max →
        nameColumnInSource isAlphanumeric source
            (.fromLsp line (utf16Length (text.toList.take start))) name =
          some (start + 1)
  first : ∀ line text start, lineAt source line = some text →
    NamedAt isAlphanumeric text name start → start + 1 ≤ u32Max →
      (∀ earlier < start, ¬NamedAt isAlphanumeric text name earlier) →
        nameColumnInSource isAlphanumeric source (.fromCommandMode line firstColumn) name =
          some (start + 1)

variable {isAlphanumeric}

theorem nameColumnInSource_of_lineAt {source : String} {reported : ReportedPosition}
    {text : String} (hline : lineAt source reported.line = some text) (name : String) :
    nameColumnInSource isAlphanumeric source reported name =
      firstMinBy (fun column =>
          Nat.dist column (reported.column.inCharacterColumns text.toList))
        (wholeWordColumns isAlphanumeric text.toList name.toList) := by
  rw [nameColumnInSource, hline]
  rfl

/-- What has a column is a word of 32 bits. -/
theorem le_of_mem_wholeWordColumns {text name : List Char} {column : ℕ}
    (hcolumn : column ∈ wholeWordColumns isAlphanumeric text name) : column ≤ u32Max := by
  rw [wholeWordColumns, List.mem_filterMap] at hcolumn
  obtain ⟨start, -, hfits⟩ := hcolumn
  rw [tryU32] at hfits
  split_ifs at hfits with hle
  exact Option.some.inj hfits ▸ hle

theorem nameColumnNear_le {read : String → Option String} {path name : String}
    {reported : ReportedPosition} {column : ℕ}
    (hcolumn : nameColumnNear isAlphanumeric read path reported name = some column) :
    column ≤ u32Max := by
  obtain ⟨source, -, hsource⟩ := Option.bind_eq_some_iff.mp hcolumn
  obtain ⟨text, -, htext⟩ := Option.bind_eq_some_iff.mp hsource
  obtain ⟨before, after, hcolumns, -⟩ := firstMinBy_eq_some htext
  have hmem : column ∈ wholeWordColumns isAlphanumeric text.toList name.toList := by
    rw [hcolumns]
    exact List.mem_append_right before List.mem_cons_self
  exact le_of_mem_wholeWordColumns hmem

variable {name : String} (hname : name ≠ "")
  (hletters : ∀ letter ∈ name.toList, isIdentifier isAlphanumeric letter = true)

include hname hletters

theorem mem_columns (text : String) (column : ℕ) :
    column ∈ wholeWordColumns isAlphanumeric text.toList name.toList ↔
      ∃ start, NamedAt isAlphanumeric text name start ∧ column = start + 1 ∧
        column ≤ u32Max :=
  mem_wholeWordColumns (fun hnil => hname (String.toList_eq_nil_iff.mp hnil)) hletters column

theorem nearest_of_firstMinBy {text : String} {anchor column : ℕ}
    (hcolumn : firstMinBy (fun column => Nat.dist column anchor)
      (wholeWordColumns isAlphanumeric text.toList name.toList) = some column) :
    Nearest isAlphanumeric text name anchor column := by
  have hmem := mem_columns hname hletters text
  obtain ⟨before, after, hcolumns, hbefore, hafter⟩ := firstMinBy_eq_some hcolumn
  have hsorted := pairwise_wholeWordColumns isAlphanumeric text.toList
    fun hnil => hname (String.toList_eq_nil_iff.mp hnil)
  rw [hcolumns] at hmem hsorted
  have hplace : ∀ other, NamedAt isAlphanumeric text name other → other + 1 ≤ u32Max →
      other + 1 ∈ before ∨ other + 1 = column ∨ other + 1 ∈ after := by
    intro other hother hfits
    have hlisted := (hmem (other + 1)).mpr ⟨other, hother, rfl, hfits⟩
    rwa [List.mem_append, List.mem_cons] at hlisted
  refine ⟨?_, fun other hother hfits => ?_, fun other hother hfits hsame => ?_⟩
  · obtain ⟨start, hstart, heq, -⟩ := (hmem column).mp (by simp)
    exact ⟨start, hstart, heq⟩
  · rcases hplace other hother hfits with hearly | heq | hlate
    · exact (hbefore _ hearly).le
    · rw [heq]
    · exact hafter _ hlate
  · rcases hplace other hother hfits with hearly | heq | hlate
    · exact absurd hsame (hbefore _ hearly).ne'
    · exact heq.ge
    · exact ((List.pairwise_cons.mp (List.pairwise_append.mp hsorted).2.1).1 _ hlate).le

theorem nameColumnInSource_eq_none_iff (source : String) (reported : ReportedPosition) :
    nameColumnInSource isAlphanumeric source reported name = none ↔
      ∀ text, lineAt source reported.line = some text →
        ∀ start, NamedAt isAlphanumeric text name start → u32Max < start + 1 := by
  have hmem := mem_columns hname hletters
  cases hline : lineAt source reported.line with
  | none =>
      rw [nameColumnInSource, hline]
      exact iff_of_true rfl fun _ htext => nomatch htext
  | some text =>
      rw [nameColumnInSource_of_lineAt hline, firstMinBy_eq_none]
      constructor
      · intro hnil other hother start hstart
        cases hother
        by_contra hfits
        have hlisted := (hmem text (start + 1)).mpr ⟨start, hstart, rfl, not_lt.mp hfits⟩
        rw [hnil] at hlisted
        cases hlisted
      · intro hnone
        rw [List.eq_nil_iff_forall_not_mem]
        intro column hcolumn
        obtain ⟨start, hstart, rfl, hfits⟩ := (hmem text column).mp hcolumn
        exact absurd hfits (not_le.mpr (hnone text rfl start hstart))

theorem nearest_of_nameColumnInSource {source : String} {reported : ReportedPosition}
    {column : ℕ}
    (hcolumn : nameColumnInSource isAlphanumeric source reported name = some column) :
    ∃ text, lineAt source reported.line = some text ∧
      Nearest isAlphanumeric text name (reported.column.inCharacterColumns text.toList)
        column := by
  cases hline : lineAt source reported.line with
  | none =>
      rw [nameColumnInSource, hline] at hcolumn
      cases hcolumn
  | some text =>
      rw [nameColumnInSource_of_lineAt hline] at hcolumn
      exact ⟨text, rfl, nearest_of_firstMinBy hname hletters hcolumn⟩

/-- Where a column stands that no other is as near as, the locator finds it. -/
theorem nameColumnInSource_eq_some {source : String} {reported : ReportedPosition}
    {text : String} (hline : lineAt source reported.line = some text) {start : ℕ}
    (hnamed : NamedAt isAlphanumeric text name start) (hfits : start + 1 ≤ u32Max)
    (hnearer : ∀ other, NamedAt isAlphanumeric text name other →
      Nat.dist (other + 1) (reported.column.inCharacterColumns text.toList) ≤
        Nat.dist (start + 1) (reported.column.inCharacterColumns text.toList) →
          other = start) :
    nameColumnInSource isAlphanumeric source reported name = some (start + 1) := by
  cases hfound : nameColumnInSource isAlphanumeric source reported name with
  | none =>
      have hnone := (nameColumnInSource_eq_none_iff hname hletters source reported).mp hfound
      exact absurd hfits (not_le.mpr (hnone text hline start hnamed))
  | some column =>
      obtain ⟨other, hother, hnearest⟩ :=
        nearest_of_nameColumnInSource hname hletters hfound
      rw [hline] at hother
      cases hother
      obtain ⟨index, hindex, rfl⟩ := hnearest.named
      rw [hnearer index hindex (hnearest.least start hnamed hfits)]

theorem nameColumnInSource_fromLsp {source : String} {line : ℕ} {text : String} {start : ℕ}
    (hline : (textLines source)[line]? = some text)
    (hnamed : NamedAt isAlphanumeric text name start) (hlast : line < u32Max)
    (hunits : utf16Length (text.toList.take start) < u32Max) :
    nameColumnInSource isAlphanumeric source
        (.fromLsp line (utf16Length (text.toList.take start))) name =
      some (start + 1) := by
  have hinside : start < text.toList.length :=
    hnamed.occurs.lt_length fun hnil => hname (String.toList_eq_nil_iff.mp hnil)
  have hbound := length_le_utf16Length (text.toList.take start)
  rw [List.length_take, min_eq_left hinside.le] at hbound
  have hplace : lineAt source (ReportedPosition.fromLsp line
      (utf16Length (text.toList.take start))).line = some text := by
    have hnumber : saturatingAdd line 1 = line + 1 := min_eq_left hlast
    rw [ReportedPosition.fromLsp, hnumber, lineAt, if_neg (Nat.succ_ne_zero line)]
    exact hline
  have hanchor : (ReportedPosition.fromLsp line
      (utf16Length (text.toList.take start))).column.inCharacterColumns text.toList =
        start + 1 := characterColumnOfUtf16_take hinside hunits
  refine nameColumnInSource_eq_some hname hletters hplace hnamed (by omega) ?_
  intro other hother hnear
  rw [hanchor, Nat.dist_self, Nat.le_zero] at hnear
  exact Nat.succ_injective (Nat.eq_of_dist_eq_zero hnear)

theorem nameColumnInSource_first {source : String} {line : ℕ} {text : String} {start : ℕ}
    (hline : lineAt source line = some text)
    (hnamed : NamedAt isAlphanumeric text name start) (hfits : start + 1 ≤ u32Max)
    (hfirst : ∀ earlier < start, ¬NamedAt isAlphanumeric text name earlier) :
    nameColumnInSource isAlphanumeric source (.fromCommandMode line firstColumn) name =
      some (start + 1) := by
  refine nameColumnInSource_eq_some hname hletters hline hnamed hfits ?_
  intro other hother hnear
  have hbefore : start ≤ other := by
    by_contra hlt
    exact hfirst other (not_le.mp hlt) hother
  have hcolumn : (ReportedPosition.fromCommandMode line firstColumn).column.inCharacterColumns
      text.toList = 1 := rfl
  rw [hcolumn, Nat.dist_eq_sub_of_le_right (Nat.le_add_left 1 other),
    Nat.dist_eq_sub_of_le_right (Nat.le_add_left 1 start)] at hnear
  omega

/-- Of the occurrences that have a column the nearest is found, and where the engine
points at one it is that one. -/
theorem name_relocation_exact (source : String) : Relocates isAlphanumeric source name where
  none_iff := nameColumnInSource_eq_none_iff hname hletters source
  nearest _ _ hcolumn := nearest_of_nameColumnInSource hname hletters hcolumn
  fromLsp _ _ _ hline hnamed hlast hunits :=
    nameColumnInSource_fromLsp hname hletters hline hnamed hlast hunits
  first _ _ _ hline hnamed hfits hfirst :=
    nameColumnInSource_first hname hletters hline hnamed hfits hfirst

end Relocating

theorem value_relocated : Relocates Char.isAlphanum "fun value(value: Int)" "value" :=
  name_relocation_exact (by decide) (by simp [isIdentifier]) "fun value(value: Int)"

example : nameColumnInSource Char.isAlphanum "fun value(/* 𝕊𝕊 */ value: Int) = value"
    (.fromLsp 0 21) "value" = some 20 := by
  decide

/-! ## Beyond the last column -/

/-- A name behind blanks. -/
def farText (blanks : ℕ) : String := String.ofList (List.replicate blanks ' ' ++ ['a'])

theorem toList_farText (blanks : ℕ) :
    (farText blanks).toList = List.replicate blanks ' ' ++ ['a'] := String.toList_ofList

theorem namedAt_farText (blanks start : ℕ) :
    NamedAt Char.isAlphanum (farText blanks) "a" start ↔ start = blanks := by
  constructor
  · intro hnamed
    have hoccurs := hnamed.occurs
    rw [OccursAt, toList_farText, List.drop_append, List.drop_replicate] at hoccurs
    by_contra hne
    rcases Nat.lt_or_gt_of_ne hne with hlt | hgt
    · obtain ⟨more, hmore⟩ := Nat.exists_eq_add_of_lt hlt
      have hleft : blanks - start = more + 1 := by omega
      rw [hleft, List.replicate_succ, List.cons_append] at hoccurs
      exact absurd (List.cons_prefix_cons.mp hoccurs).1 (by decide)
    · have hnone : (['a'] : List Char).drop (start - blanks) = [] :=
        List.drop_eq_nil_of_le (by rw [List.length_singleton]; omega)
      rw [List.length_replicate, Nat.sub_eq_zero_of_le hgt.le, hnone] at hoccurs
      exact absurd (List.prefix_nil.mp hoccurs) (List.cons_ne_nil 'a' [])
  · rintro rfl
    have hlength : (List.replicate start ' ').length = start := List.length_replicate
    refine ⟨?_, ?_, ?_⟩
    · rw [OccursAt, toList_farText, List.drop_append_of_le_length hlength.ge,
        List.drop_of_length_le hlength.le]
      exact List.prefix_rfl
    · rw [toList_farText, List.take_append_of_le_length hlength.ge,
        List.take_of_length_le hlength.le, Option.any_eq_false]
      intro letter hletter
      rw [List.eq_of_mem_replicate (List.mem_of_getLast? hletter)]
      decide
    · have hnone : (farText start).toList.drop (start + "a".toList.length) = [] := by
        apply List.drop_of_length_le
        rw [toList_farText, List.length_append, hlength]
        rfl
      rw [hnone]
      rfl

theorem lineAt_farText (blanks : ℕ) : lineAt (farText blanks) 1 = some (farText blanks) := by
  have hbreak : '\n' ∉ (farText blanks).toList := by
    rw [toList_farText, List.mem_append]
    rintro (hblank | hlast)
    · exact absurd (List.eq_of_mem_replicate hblank) (by decide)
    · exact absurd (List.mem_singleton.mp hlast) (by decide)
  have hlast : (farText blanks).toList ≠ [] := by
    rw [toList_farText]
    exact List.append_ne_nil_of_right_ne_nil _ (List.cons_ne_nil 'a' [])
  have hlines : textLines (farText blanks) = [farText blanks] := by
    rw [textLines, List.splitOn_eq_singleton hbreak]
    simp only [List.dropLast_singleton, List.map_nil, List.nil_append, List.getLastD_cons,
      List.getLastD_nil, if_neg hlast, String.ofList_toList]
  rw [lineAt, if_neg Nat.one_ne_zero, hlines]
  rfl

/-- A name that stands beyond the last column is not found. -/
theorem far_name_not_found :
    nameColumnInSource Char.isAlphanum (farText u32Max) (.fromCommandMode 1 1) "a" = none ∧
      lineAt (farText u32Max) 1 = some (farText u32Max) ∧
        NamedAt Char.isAlphanum (farText u32Max) "a" u32Max := by
  have hletters : ∀ letter ∈ "a".toList, isIdentifier Char.isAlphanum letter = true := by
    simp [isIdentifier]
  refine ⟨?_, lineAt_farText u32Max, (namedAt_farText u32Max u32Max).mpr rfl⟩
  refine (nameColumnInSource_eq_none_iff (by decide) hletters _ _).mpr ?_
  intro text hline start hnamed
  obtain rfl := Option.some.inj ((lineAt_farText u32Max).symm.trans hline)
  rw [(namedAt_farText u32Max start).mp hnamed]
  exact Nat.lt_succ_self u32Max

end Ktsense.Lsp
