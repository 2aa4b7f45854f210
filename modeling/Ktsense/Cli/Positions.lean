import Ktsense.Cli.Symbols
import Ktsense.Lsp.FileUris
import Ktsense.Lsp.NameColumns

/-!
# Positions asked of the engine

The engine reports a place as a line and an offset in UTF-16 code units, which the
daemon relocates to a column in characters.  The positions that a later request asks
about are built from such a column.
-/

namespace Ktsense.Cli

open Ktsense.Foundation
open Ktsense.Lsp

structure FilePosition where
  uri : String
  line : ℕ
  character : ℕ
  deriving DecidableEq, Repr

/-- The start of a reported range, counted from zero. -/
structure Position where
  line : ℕ
  character : ℕ
  deriving DecidableEq, Repr

def SymbolCandidate.toFilePosition (candidate : SymbolCandidate) : FilePosition :=
  ⟨fileUri candidate.file, candidate.line - 1, candidate.col - 1⟩

section Asking

variable (isAlphanumeric : Char → Bool) (read : String → Option String)

def candidateAt (name : String) (start : Position) (path : String) : SymbolCandidate :=
  let reported := ReportedPosition.fromLsp start.line start.character
  { name
    file := path
    line := reported.line
    col := (nameColumnNear isAlphanumeric read path reported name).getD
      (saturatingAdd start.character 1) }

/-- A name with a column stands on a line from one on, so neither subtraction underflows. -/
def namePosition (path : String) (line : ℕ) (name : String) : Option FilePosition :=
  (nameColumn isAlphanumeric read path line name).map fun column =>
    ⟨fileUri path, line - 1, column - 1⟩

/-- A name that stands as a whole word in a file. -/
structure NameOccurrence where
  path : String
  name : String
  source : String
  text : String
  line : ℕ
  start : ℕ
  read_path : read path = some source
  line_text : (textLines source)[line]? = some text
  name_ne : name ≠ ""
  letters : ∀ letter ∈ name.toList, isIdentifier isAlphanumeric letter = true
  named : NamedAt isAlphanumeric text name start

variable {isAlphanumeric read}

/-- The offset at which the engine reports the occurrence. -/
def NameOccurrence.character (occurrence : NameOccurrence isAlphanumeric read) : ℕ :=
  utf16Length (occurrence.text.toList.take occurrence.start)

def NameOccurrence.position (occurrence : NameOccurrence isAlphanumeric read) : FilePosition :=
  ⟨fileUri occurrence.path, occurrence.line, occurrence.character⟩

def NameOccurrence.Single (occurrence : NameOccurrence isAlphanumeric read) : Prop :=
  ∀ other, NamedAt isAlphanumeric occurrence.text occurrence.name other →
    other = occurrence.start

/-- The engine is asked about the place that it reported. -/
structure AsksWhereReported (occurrence : NameOccurrence isAlphanumeric read) : Prop where
  candidate : (candidateAt isAlphanumeric read occurrence.name
    ⟨occurrence.line, occurrence.character⟩ occurrence.path).toFilePosition =
      occurrence.position
  caller : occurrence.Single →
    namePosition isAlphanumeric read occurrence.path (occurrence.line + 1) occurrence.name =
      some occurrence.position

theorem nameColumnNear_of_read {path source : String} (hread : read path = some source)
    (reported : ReportedPosition) (name : String) :
    nameColumnNear isAlphanumeric read path reported name =
      nameColumnInSource isAlphanumeric source reported name := by
  rw [nameColumnNear, hread]
  rfl

theorem col_candidateAt_le (isAlphanumeric : Char → Bool) (read : String → Option String)
    (name : String) (start : Position) (path : String) :
    (candidateAt isAlphanumeric read name start path).col ≤ u32Max := by
  rw [candidateAt]
  cases hcolumn : nameColumnNear isAlphanumeric read path
      (.fromLsp start.line start.character) name with
  | none => exact min_le_right _ _
  | some column => exact nameColumnNear_le hcolumn

variable (occurrence : NameOccurrence isAlphanumeric read)

/-- The character asked about is the column that the name was relocated to. -/
theorem toFilePosition_candidateAt (hline : occurrence.line < u32Max)
    (hcharacter : occurrence.character < u32Max) :
    (candidateAt isAlphanumeric read occurrence.name
        ⟨occurrence.line, occurrence.character⟩ occurrence.path).toFilePosition =
      ⟨fileUri occurrence.path, occurrence.line, occurrence.start⟩ := by
  have hcolumn := nameColumnInSource_fromLsp occurrence.name_ne occurrence.letters
    occurrence.line_text occurrence.named hline hcharacter
  rw [← nameColumnNear_of_read occurrence.read_path] at hcolumn
  have hnumber : saturatingAdd occurrence.line 1 = occurrence.line + 1 := min_eq_left hline
  simp only [candidateAt, SymbolCandidate.toFilePosition, NameOccurrence.character] at hcolumn ⊢
  rw [hcolumn, ReportedPosition.fromLsp, hnumber]
  rfl

theorem namePosition_single (hsingle : occurrence.Single)
    (hfits : occurrence.start + 1 ≤ u32Max) :
    namePosition isAlphanumeric read occurrence.path (occurrence.line + 1) occurrence.name =
      some ⟨fileUri occurrence.path, occurrence.line, occurrence.start⟩ := by
  have hfirst : nameColumnInSource isAlphanumeric occurrence.source
      (.fromCommandMode (occurrence.line + 1) firstColumn) occurrence.name =
        some (occurrence.start + 1) := by
    refine nameColumnInSource_first occurrence.name_ne occurrence.letters ?_
      occurrence.named hfits ?_
    · rw [lineAt, if_neg (Nat.succ_ne_zero _)]
      exact occurrence.line_text
    · intro earlier hlt hearlier
      exact hlt.ne (hsingle earlier hearlier)
  rw [namePosition, nameColumn, nameColumnNear_of_read occurrence.read_path, hfirst]
  rfl

/-- The engine is asked about the place that it reported exactly when no character before
the name takes two code units, short of the last line and offset there are. -/
theorem asksWhereReported_iff :
    AsksWhereReported occurrence ↔
      occurrence.line < u32Max ∧ occurrence.character < u32Max ∧
        ∀ letter ∈ occurrence.text.toList.take occurrence.start,
          letter.toNat < 0x10000 := by
  have hinside : occurrence.start < occurrence.text.toList.length :=
    occurrence.named.occurs.lt_length fun hnil =>
      occurrence.name_ne (String.toList_eq_nil_iff.mp hnil)
  have hplain : occurrence.character = occurrence.start ↔
      ∀ letter ∈ occurrence.text.toList.take occurrence.start, letter.toNat < 0x10000 := by
    rw [← utf16Length_eq_length_iff, List.length_take, min_eq_left hinside.le]
    rfl
  rw [← hplain]
  constructor
  · intro hasks
    have hline : saturatingAdd occurrence.line 1 - 1 = occurrence.line :=
      congrArg FilePosition.line hasks.candidate
    have hcharacter : (candidateAt isAlphanumeric read occurrence.name
        ⟨occurrence.line, occurrence.character⟩ occurrence.path).col - 1 =
          occurrence.character := congrArg FilePosition.character hasks.candidate
    have hcol := col_candidateAt_le isAlphanumeric read occurrence.name
      ⟨occurrence.line, occurrence.character⟩ occurrence.path
    have hpositive : 0 < u32Max := by decide
    have hline' : occurrence.line < u32Max := by
      rw [saturatingAdd] at hline
      omega
    have hcharacter' : occurrence.character < u32Max := by omega
    have hsame := (toFilePosition_candidateAt occurrence hline' hcharacter').symm.trans
      hasks.candidate
    exact ⟨hline', hcharacter', (congrArg FilePosition.character hsame).symm⟩
  · rintro ⟨hline, hcharacter, hstart⟩
    have hposition : occurrence.position =
        ⟨fileUri occurrence.path, occurrence.line, occurrence.start⟩ := by
      rw [NameOccurrence.position, hstart]
    refine ⟨?_, fun hsingle => ?_⟩
    · rw [hposition]
      exact toFilePosition_candidateAt occurrence hline hcharacter
    · rw [hposition]
      exact namePosition_single occurrence hsingle (hstart ▸ hcharacter)

end Asking

/-- A line whose name stands behind a character of two code units. -/
def astralOccurrence : NameOccurrence Char.isAlphanum
    fun _ => some "/* 𝕊 */ fun value() = 1" where
  path := "/work/Main.kt"
  name := "value"
  source := "/* 𝕊 */ fun value() = 1"
  text := "/* 𝕊 */ fun value() = 1"
  line := 0
  start := 12
  read_path := rfl
  line_text := by decide
  name_ne := by decide
  letters := by simp [isIdentifier]
  named := ⟨by decide, by decide, by decide⟩

theorem astral_line_asks_elsewhere : ¬AsksWhereReported astralOccurrence := by
  intro hasks
  have hposition := (toFilePosition_candidateAt astralOccurrence (by decide)
    (by decide)).symm.trans hasks.candidate
  exact absurd (congrArg FilePosition.character hposition) (by decide)

/-! ## Files asked about -/

/-- The URI that the engine is given for a file leads back to the file. -/
structure FileRoundTrips (isAlphanumeric : Char → Bool) (read : String → Option String)
    (path : String) : Prop where
  candidate : ∀ candidate : SymbolCandidate, candidate.file = path →
    uriToPath candidate.toFilePosition.uri = path
  caller : ∀ line name position,
    namePosition isAlphanumeric read path line name = some position →
      uriToPath position.uri = path

/-- A file is recognised exactly when nothing in its path reads as an escape. -/
theorem fileRoundTrips_iff (isAlphanumeric : Char → Bool) (read : String → Option String)
    (path : String) :
    FileRoundTrips isAlphanumeric read path ↔
      ¬(HexEscaped (utf8 path) ∨ PlusEscaped (utf8 path)) := by
  rw [← uriToPath_fileUri_iff]
  constructor
  · intro htrips
    exact htrips.candidate ⟨"", path, 1, 1⟩ rfl
  · intro hpath
    refine ⟨?_, fun line name position hposition => ?_⟩
    · rintro candidate rfl
      exact hpath
    · obtain ⟨column, -, rfl⟩ := Option.map_eq_some_iff.mp hposition
      exact hpath

/-- A path that holds a percent sign and two digits leads to another one. -/
theorem escaped_path_lost :
    ¬FileRoundTrips Char.isAlphanum (fun _ => none) "/work/100%25/Main.kt" := by
  intro htrips
  have hpath := htrips.candidate ⟨"main", "/work/100%25/Main.kt", 1, 1⟩ rfl
  exact absurd hpath (by decide)

end Ktsense.Cli
