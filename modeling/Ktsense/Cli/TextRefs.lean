import Ktsense.Foundation.ByteOffsets
import Ktsense.Foundation.Lines
import Ktsense.Foundation.Occurrences

/-!
# Whole words in a source

The text scan of `text_refs.rs`.  Each line is searched from one byte behind the last
occurrence, so the search goes on only where that byte ends a character.
-/

namespace Ktsense.Cli

open Ktsense.Foundation

def isIdentifierByte (byte : UInt8) : Bool :=
  (0x30 ≤ byte && byte ≤ 0x39) || (0x41 ≤ byte && byte ≤ 0x5A) ||
    (0x61 ≤ byte && byte ≤ 0x7A) || byte = 0x5F

/-- `count as u32 + 1`, as it wraps around in a release build. -/
def coordinate (count : ℕ) : ℕ := (count % 2 ^ 32 + 1) % 2 ^ 32

/-- An index out of bounds panics. -/
def boundedBefore (bytes : List UInt8) (start : ℕ) : Option Bool :=
  if start = 0 then some true else bytes[start - 1]?.map (!isIdentifierByte ·)

def boundedAfter (bytes : List UInt8) (last : ℕ) : Option Bool :=
  if bytes.length ≤ last then some true else bytes[last]?.map (!isIdentifierByte ·)

/-- The site of the occurrence at a byte offset, unless a neighbour belongs to the word. -/
def siteAt (row : ℕ) (symbol line : List Char) (start : ℕ) : Option (List (ℕ × ℕ)) := do
  let before ← boundedBefore (utf8Bytes line) start
  let after ← boundedAfter (utf8Bytes line) (start + utf8Length symbol)
  if before && after then do
    let (text, _) ← splitBytes start line
    return [(coordinate row, coordinate (utf16Length text))]
  else return []

/-- Every turn of the search leaves fewer bytes. -/
theorem resume_lt {symbol line before rest : List Char} {searchFrom offset : ℕ}
    (hslice : splitBytes searchFrom line = some (before, rest))
    (hfound : findBytes symbol rest = some offset) :
    utf8Length line + 1 - (searchFrom + offset + 1) < utf8Length line + 1 - searchFrom := by
  obtain ⟨hline, hoffset⟩ := splitBytes_eq_some hslice
  have hle := findBytes_le hfound
  rw [hline, utf8Length_append]
  omega

/-- The loop over the occurrences on one line, from a byte offset on.  A slice or an index
out of bounds panics. -/
def lineMatchesFrom (row : ℕ) (symbol line : List Char) (searchFrom : ℕ) :
    Option (List (ℕ × ℕ)) :=
  match _ : splitBytes searchFrom line with
  | none => none
  | some (_, rest) =>
      match _ : findBytes symbol rest with
      | none => some []
      | some offset => do
          let site ← siteAt row symbol line (searchFrom + offset)
          let others ← lineMatchesFrom row symbol line (searchFrom + offset + 1)
          return site ++ others
termination_by utf8Length line + 1 - searchFrom
decreasing_by exact resume_lt ‹_› ‹_›

def rowMatches (symbol : List Char) : String × ℕ → Option (List (ℕ × ℕ))
  | (line, row) => lineMatchesFrom row symbol line.toList 0

def wordBoundedMatches (source symbol : String) : Option (List (ℕ × ℕ)) :=
  if symbol = "" then some []
  else ((textLines source).zipIdx.mapM (rowMatches symbol.toList)).map List.flatten

/-! ## What a scan should find -/

/-- The symbol stands at an index of a text between bytes of no identifier. -/
structure StandsAt (symbol text : List Char) (start : ℕ) : Prop where
  occurs : OccursAt symbol text start
  before : (utf8Bytes (text.take start)).getLast?.any isIdentifierByte = false
  behind : (utf8Bytes (text.drop (start + symbol.length))).head?.any isIdentifierByte = false

theorem standsAt_iff {symbol text : List Char} {start : ℕ} :
    StandsAt symbol text start ↔ OccursAt symbol text start ∧
      (utf8Bytes (text.take start)).getLast?.any isIdentifierByte = false ∧
      (utf8Bytes (text.drop (start + symbol.length))).head?.any isIdentifierByte = false :=
  ⟨fun hstands => ⟨hstands.occurs, hstands.before, hstands.behind⟩,
    fun ⟨hoccurs, hbefore, hbehind⟩ => ⟨hoccurs, hbefore, hbehind⟩⟩

instance (symbol text : List Char) (start : ℕ) : Decidable (StandsAt symbol text start) :=
  decidable_of_iff _ standsAt_iff.symm

/-- The breaks before an index, and the UTF-16 code units behind the last of them. -/
def placeAt (text : List Char) (start : ℕ) : ℕ × ℕ :=
  let before := text.take start
  (before.count '\n', utf16Length (before.rtakeWhile (· ≠ '\n')))

/-- Lines and columns are counted from one. -/
def coordinatesAt (text : List Char) (start : ℕ) : ℕ × ℕ :=
  ((placeAt text start).1 + 1, (placeAt text start).2 + 1)

def standings (symbol text : List Char) : List ℕ :=
  (List.range text.length).filter fun start => StandsAt symbol text start

/-- The scan returns the place of every occurrence, in order and each once. -/
def MatchesExactly (source symbol : String) : Prop :=
  wordBoundedMatches source symbol =
    some ((standings symbol.toList source.toList).map (coordinatesAt source.toList))

/-- The symbol there takes in the break of a line. -/
def TakesBreak (symbol text : List Char) (start : ℕ) : Prop :=
  '\n' ∈ symbol ∨ symbol.getLast? = some '\r' ∧ text[start + symbol.length]? = some '\n'

instance (symbol text : List Char) (start : ℕ) : Decidable (TakesBreak symbol text start) :=
  inferInstanceAs (Decidable (_ ∨ _ ∧ _))

/-- One byte behind an occurrence the next character begins, or there is no occurrence. -/
def ResumesSafely (source symbol : String) : Prop :=
  (∀ letter, symbol.toList.head? = some letter → letter.utf8Size = 1) ∨
    ∀ line ∈ textLines source, ∀ start, ¬OccursAt symbol.toList line.toList start

/-! ## One line -/

section Lines

variable {symbol text : List Char} {row start : ℕ}

theorem lineMatchesFrom_slice {searchFrom : ℕ} {before rest : List Char}
    (hslice : splitBytes searchFrom text = some (before, rest)) :
    lineMatchesFrom row symbol text searchFrom =
      match findBytes symbol rest with
      | none => some []
      | some offset => do
          let site ← siteAt row symbol text (searchFrom + offset)
          let others ← lineMatchesFrom row symbol text (searchFrom + offset + 1)
          return site ++ others := by
  rw [lineMatchesFrom]
  split
  · rename_i hnone
    rw [hnone] at hslice
    cases hslice
  · rename_i before' rest' hsome
    rw [hslice] at hsome
    cases hsome
    split
    · rename_i hfound
      rw [hfound]
    · rename_i offset hfound
      rw [hfound]

theorem lineMatchesFrom_panics {searchFrom : ℕ} (hslice : splitBytes searchFrom text = none) :
    lineMatchesFrom row symbol text searchFrom = none := by
  rw [lineMatchesFrom]
  split
  · rfl
  · rename_i hsome
    rw [hslice] at hsome
    cases hsome

theorem splitBytes_take (text : List Char) (start : ℕ) :
    splitBytes (utf8Length (text.take start)) text =
      some (text.take start, text.drop start) := by
  have hcut := splitBytes_append (text.take start) (text.drop start)
  rwa [List.take_append_drop] at hcut

/-- Where the symbol does not stand the scan moves on by a character. -/
theorem lineMatchesFrom_skip (hstart : start < text.length)
    (hoccurs : ¬OccursAt symbol text start) :
    lineMatchesFrom row symbol text (utf8Length (text.take start)) =
      lineMatchesFrom row symbol text (utf8Length (text.take (start + 1))) := by
  have hdrop := List.drop_eq_getElem_cons hstart
  have hfind : findBytes symbol (text.drop start) =
      (findBytes symbol (text.drop (start + 1))).map (· + text[start].utf8Size) := by
    rw [hdrop, findBytes, if_neg]
    rw [List.isPrefixOf_iff_prefix, ← hdrop]
    exact hoccurs
  rw [lineMatchesFrom_slice (splitBytes_take text start),
    lineMatchesFrom_slice (splitBytes_take text (start + 1)), hfind,
    utf8Length_take_succ hstart]
  cases findBytes symbol (text.drop (start + 1)) with
  | none => rfl
  | some offset =>
      have hsame : utf8Length (text.take start) + (offset + text[start].utf8Size) =
          utf8Length (text.take start) + text[start].utf8Size + offset := by omega
      simp only [Option.map_some, hsame]

theorem lineMatchesFrom_hit (hoccurs : OccursAt symbol text start) :
    lineMatchesFrom row symbol text (utf8Length (text.take start)) = do
      let site ← siteAt row symbol text (utf8Length (text.take start))
      let others ← lineMatchesFrom row symbol text (utf8Length (text.take start) + 1)
      return site ++ others := by
  have hfind : findBytes symbol (text.drop start) = some 0 := by
    have hprefix : symbol <+: text.drop start := hoccurs
    cases hrest : text.drop start with
    | nil =>
        rw [hrest] at hprefix
        rw [findBytes, if_pos (List.prefix_nil.mp hprefix)]
    | cons letter rest =>
        rw [findBytes, if_pos]
        rw [← hrest, List.isPrefixOf_iff_prefix]
        exact hprefix
  rw [lineMatchesFrom_slice (splitBytes_take text start), hfind]
  rfl

theorem lineMatchesFrom_end (hsymbol : symbol ≠ []) :
    lineMatchesFrom row symbol text (utf8Length text) = some [] := by
  have hslice := splitBytes_take text text.length
  rw [List.take_length, List.drop_length] at hslice
  rw [lineMatchesFrom_slice hslice, findBytes, if_neg hsymbol]

theorem boundedBefore_take (text : List Char) (start : ℕ) :
    boundedBefore (utf8Bytes text) (utf8Length (text.take start)) =
      some (!(utf8Bytes (text.take start)).getLast?.any isIdentifierByte) := by
  by_cases hnil : text.take start = []
  · rw [hnil]
    rfl
  · have hbyte := getElem?_utf8Bytes_before (text.take start) (text.drop start) hnil
    rw [List.take_append_drop] at hbyte
    rw [boundedBefore, if_neg fun hzero => hnil (utf8Length_eq_zero.mp hzero), hbyte,
      List.getLast?_eq_some_getLast (utf8Bytes_ne_nil hnil)]
    rfl

theorem boundedAfter_take (text : List Char) (last : ℕ) :
    boundedAfter (utf8Bytes text) (utf8Length (text.take last)) =
      some (!(utf8Bytes (text.drop last)).head?.any isIdentifierByte) := by
  have hbyte := getElem?_utf8Bytes_behind (text.take last) (text.drop last)
  rw [List.take_append_drop] at hbyte
  rw [boundedAfter, ← hbyte]
  split_ifs with hle
  · rw [List.getElem?_eq_none hle]
    rfl
  · rw [List.getElem?_eq_getElem (not_le.mp hle)]
    rfl

/-- No index that a bound is read at is out of range. -/
theorem siteAt_take (hoccurs : OccursAt symbol text start) :
    siteAt row symbol text (utf8Length (text.take start)) =
      some (if StandsAt symbol text start then
        [(coordinate row, coordinate (utf16Length (text.take start)))] else []) := by
  have hlast : utf8Length (text.take start) + utf8Length symbol =
      utf8Length (text.take (start + symbol.length)) := by
    rw [List.take_add, ← List.prefix_iff_eq_take.mp hoccurs, utf8Length_append]
  rw [siteAt, boundedBefore_take, hlast, boundedAfter_take, splitBytes_take]
  simp only [Option.bind_eq_bind, Option.bind_some, standsAt_iff, hoccurs, true_and]
  cases (utf8Bytes (text.take start)).getLast?.any isIdentifierByte <;>
    cases (utf8Bytes (text.drop (start + symbol.length))).head?.any isIdentifierByte <;> rfl

/-- The sites on a line from an index on. -/
def lineSites (row : ℕ) (symbol text : List Char) (start : ℕ) : List (ℕ × ℕ) :=
  ((List.range' start (text.length - start)).filter fun index =>
    StandsAt symbol text index).map fun index =>
      (coordinate row, coordinate (utf16Length (text.take index)))

theorem lineSites_succ (hstart : start < text.length) :
    lineSites row symbol text start =
      (if StandsAt symbol text start then
        [(coordinate row, coordinate (utf16Length (text.take start)))] else []) ++
          lineSites row symbol text (start + 1) := by
  obtain ⟨more, hmore⟩ := Nat.exists_eq_add_of_lt hstart
  have hlength : text.length - start = more + 1 := by omega
  have hless : text.length - (start + 1) = more := by omega
  rw [lineSites, lineSites, hlength, hless, List.range'_succ, List.filter_cons]
  by_cases hstands : StandsAt symbol text start
  · rw [if_pos (decide_eq_true hstands), if_pos hstands]
    rfl
  · rw [if_neg (by simpa using hstands), if_neg hstands]
    rfl

/-- A scan that may resume behind every occurrence finds all sites of a line. -/
theorem lineMatchesFrom_narrow (hsymbol : symbol ≠ [])
    (hnarrow : ∀ letter, symbol.head? = some letter → letter.utf8Size = 1 ∨
      ∀ index, ¬OccursAt symbol text index) (hstart : start ≤ text.length) :
    lineMatchesFrom row symbol text (utf8Length (text.take start)) =
      some (lineSites row symbol text start) := by
  induction hleft : text.length - start generalizing start with
  | zero =>
      have hend : start = text.length := by omega
      subst hend
      rw [List.take_length, lineMatchesFrom_end hsymbol, lineSites, Nat.sub_self]
      rfl
  | succ left ih =>
      have hinside : start < text.length := by omega
      have hrest := ih hinside (by omega)
      rw [lineSites_succ hinside]
      by_cases hoccurs : OccursAt symbol text start
      · obtain ⟨letter, more, hcons⟩ := List.exists_cons_of_ne_nil hsymbol
        have hletter : symbol.head? = some letter := by
          rw [hcons]
          rfl
        have hsize := (hnarrow letter hletter).resolve_right fun hnone => hnone start hoccurs
        have hnext : utf8Length (text.take start) + 1 = utf8Length (text.take (start + 1)) := by
          rw [utf8Length_take_succ hinside, hoccurs.getElem_eq hletter hinside, hsize]
        rw [lineMatchesFrom_hit hoccurs, siteAt_take hoccurs, hnext, hrest]
        rfl
      · rw [lineMatchesFrom_skip hinside hoccurs, hrest,
          if_neg fun hstands => hoccurs hstands.occurs, List.nil_append]

/-- Right behind the first byte of a wide character there is no slice. -/
theorem lineMatchesFrom_hit_wide (hsymbol : symbol ≠ []) {letter : Char}
    (hletter : symbol.head? = some letter) (hwide : letter.utf8Size ≠ 1)
    (hoccurs : OccursAt symbol text start) :
    lineMatchesFrom row symbol text (utf8Length (text.take start)) = none := by
  have hstart := hoccurs.lt_length hsymbol
  have hslice : splitBytes (utf8Length (text.take start) + 1) text = none := by
    have hpositive := letter.utf8Size_pos
    have hinside := splitBytes_inside (text.take start) (text.drop (start + 1))
      Nat.one_pos (show 1 < letter.utf8Size by omega)
    rwa [← hoccurs.getElem_eq hletter hstart, ← List.drop_eq_getElem_cons hstart,
      List.take_append_drop] at hinside
  rw [lineMatchesFrom_hit hoccurs, siteAt_take hoccurs, lineMatchesFrom_panics hslice]
  rfl

/-- A scan that meets an occurrence of such a symbol panics. -/
theorem lineMatchesFrom_wide (hsymbol : symbol ≠ []) {letter : Char}
    (hletter : symbol.head? = some letter) (hwide : letter.utf8Size ≠ 1) {index : ℕ}
    (hoccurs : OccursAt symbol text index) (hstart : start ≤ index) :
    lineMatchesFrom row symbol text (utf8Length (text.take start)) = none := by
  have hindex := hoccurs.lt_length hsymbol
  induction hleft : index - start generalizing start with
  | zero =>
      have hhere : start = index := by omega
      rw [hhere]
      exact lineMatchesFrom_hit_wide hsymbol hletter hwide hoccurs
  | succ left ih =>
      by_cases hearlier : OccursAt symbol text start
      · exact lineMatchesFrom_hit_wide hsymbol hletter hwide hearlier
      · rw [lineMatchesFrom_skip (by omega) hearlier]
        exact ih (by omega) (by omega)

end Lines

/-! ## All lines -/

section Sources

variable {symbol first rest : List Char} {start : ℕ}

/-- What stands on one line is found. -/
def Found (symbol text : List Char) (start : ℕ) : Prop :=
  StandsAt symbol text start ∧ ¬TakesBreak symbol text start

instance (symbol text : List Char) (start : ℕ) : Decidable (Found symbol text start) :=
  inferInstanceAs (Decidable (_ ∧ _))

theorem getLast?_utf8Bytes_append_break (before rest : List Char) :
    (utf8Bytes (before ++ '\n' :: rest)).getLast?.any isIdentifierByte =
      (utf8Bytes rest).getLast?.any isIdentifierByte := by
  have hbytes : utf8Bytes (before ++ '\n' :: rest) =
      utf8Bytes before ++ [0x0A] ++ utf8Bytes rest := by
    rw [List.append_cons, utf8Bytes_append, utf8Bytes_append, utf8Bytes_ascii (by decide)]
    rfl
  rw [hbytes, List.getLast?_append]
  cases (utf8Bytes rest).getLast? with
  | none =>
      rw [List.getLast?_append]
      rfl
  | some byte => rfl

theorem take_behind_break (first rest : List Char) (start : ℕ) :
    (first ++ '\n' :: rest).take (first.length + 1 + start) =
      first ++ '\n' :: rest.take start := by
  have hlength : (first ++ ['\n']).length = first.length + 1 := by simp
  rw [List.append_cons, ← hlength, List.take_length_add_append, List.append_assoc]
  rfl

theorem drop_behind_break (first rest : List Char) (start : ℕ) :
    (first ++ '\n' :: rest).drop (first.length + 1 + start) = rest.drop start := by
  have hlength : (first ++ ['\n']).length = first.length + 1 := by simp
  rw [List.append_cons, ← hlength, List.drop_length_add_append]

/-- The lines behind the first are a text of their own. -/
theorem found_rest :
    Found symbol (first ++ '\n' :: rest) (first.length + 1 + start) ↔
      Found symbol rest start := by
  have hletter : (first ++ '\n' :: rest)[first.length + 1 + start + symbol.length]? =
      rest[start + symbol.length]? := by
    rw [← List.getElem?_drop, drop_behind_break, List.getElem?_drop]
  rw [Found, Found, standsAt_iff, standsAt_iff, OccursAt, OccursAt, drop_behind_break,
    take_behind_break, getLast?_utf8Bytes_append_break, TakesBreak, TakesBreak, hletter,
    Nat.add_assoc, drop_behind_break]

/-- What ends a line is no part of a word. -/
theorem standsAt_append (hsymbol : symbol ≠ []) {letter : Char}
    (hletter : letter = '\n' ∨ letter = '\r') :
    StandsAt symbol (first ++ letter :: rest) start ∧ start + symbol.length ≤ first.length ↔
      StandsAt symbol first start := by
  have hbytes (more : List Char) : (utf8Bytes (more ++ letter :: rest)).head?.any
      isIdentifierByte = (utf8Bytes more).head?.any isIdentifierByte := by
    rw [List.append_cons, utf8Bytes_append, utf8Bytes_append, List.append_assoc,
      List.head?_append]
    cases (utf8Bytes more).head? with
    | some byte => rfl
    | none => rcases hletter with rfl | rfl <;> rfl
  have hsame (hfits : start + symbol.length ≤ first.length) :
      StandsAt symbol (first ++ letter :: rest) start ↔ StandsAt symbol first start := by
    have hoccurs : OccursAt symbol (first ++ letter :: rest) start ↔
        OccursAt symbol first start := by
      rw [OccursAt, OccursAt, List.drop_append_of_le_length (by omega)]
      constructor
      · intro hprefix
        exact List.prefix_of_prefix_length_le hprefix (List.prefix_append _ _)
          (by rw [List.length_drop]; omega)
      · exact fun hprefix => hprefix.trans (List.prefix_append _ _)
    rw [standsAt_iff, standsAt_iff, hoccurs, List.take_append_of_le_length (by omega),
      List.drop_append_of_le_length hfits, hbytes]
  constructor
  · rintro ⟨hstands, hfits⟩
    exact (hsame hfits).mp hstands
  · intro hstands
    have hfits : start + symbol.length ≤ first.length := hstands.occurs.end_le hsymbol
    exact ⟨(hsame hfits).mpr hstands, hfits⟩

/-- An occurrence that begins on a line takes in its break unless it ends on it. -/
theorem not_takesBreak_iff (hsymbol : symbol ≠ []) (hfirst : '\n' ∉ first)
    (hoccurs : OccursAt symbol (first ++ '\n' :: rest) start) (hstart : start ≤ first.length) :
    ¬TakesBreak symbol (first ++ '\n' :: rest) start ↔
      start + symbol.length ≤ (stripReturn first).length := by
  have hpositive := List.length_pos_of_ne_nil hsymbol
  have hat (index : ℕ) (hindex : index < symbol.length) := hoccurs.getElem?_add hindex
  have hbreak (index : ℕ) (hle : index ≤ first.length) :
      (first ++ '\n' :: rest)[index]? = some '\n' ↔ index = first.length := by
    constructor
    · intro hletter
      by_contra hne
      rw [List.getElem?_append_left (by omega)] at hletter
      exact hfirst (List.mem_of_getElem? hletter)
    · rintro rfl
      simp
  have hlast : symbol.getLast? = (first ++ '\n' :: rest)[start + (symbol.length - 1)]? := by
    rw [hat _ (by omega), List.getLast?_eq_getElem?]
  have hinner : '\n' ∈ symbol ↔ first.length < start + symbol.length := by
    constructor
    · intro hmem
      obtain ⟨index, hindex, hletter⟩ := List.getElem_of_mem hmem
      by_contra hle
      have hplace := hat index hindex
      rw [List.getElem?_eq_getElem hindex, hletter, hbreak _ (by omega)] at hplace
      omega
    · intro hlt
      have hletter := hat (first.length - start) (by omega)
      rw [Nat.add_sub_cancel' hstart, (hbreak first.length le_rfl).mpr rfl] at hletter
      exact List.mem_of_getElem? hletter.symm
  rw [TakesBreak, hinner, hlast]
  rcases stripReturn_cases first with ⟨hend, hsame⟩ | hreturn
  · rw [hsame]
    constructor
    · intro hnone
      exact not_lt.mp fun hlt => hnone (.inl hlt)
    · rintro hfits (hlt | ⟨hletter, hnext⟩)
      · exact absurd hfits (not_le.mpr hlt)
      · have hwhole := (hbreak _ hfits).mp hnext
        rw [List.getElem?_append_left (by omega)] at hletter
        rw [List.getLast?_eq_getElem?] at hend
        have hplace : start + (symbol.length - 1) = first.length - 1 := by omega
        exact hend (hplace ▸ hletter)
  · have hlength : first.length = (stripReturn first).length + 1 := by
      calc first.length = (stripReturn first ++ ['\r']).length := congrArg List.length hreturn
        _ = (stripReturn first).length + 1 := List.length_append
    constructor
    · intro hnone
      by_contra hover
      rcases Nat.lt_or_ge first.length (start + symbol.length) with hlt | hge
      · exact hnone (.inl hlt)
      · have hwhole : start + symbol.length = first.length := by omega
        have hplace : start + (symbol.length - 1) = (stripReturn first).length := by omega
        refine hnone (.inr ⟨?_, (hbreak _ hge).mpr hwhole⟩)
        rw [hplace, List.getElem?_append_left (by omega)]
        calc first[(stripReturn first).length]? =
            (stripReturn first ++ ['\r'])[(stripReturn first).length]? :=
              congrArg (·[(stripReturn first).length]?) hreturn
          _ = some '\r' := List.getElem?_concat_length
    · rintro hfits (hlt | ⟨-, hnext⟩)
      · omega
      · have hwhole := (hbreak _ (by omega)).mp hnext
        omega

/-- On the first line a symbol stands as it does in the line without its break. -/
theorem found_first (hsymbol : symbol ≠ []) (hfirst : '\n' ∉ first)
    (hstart : start ≤ first.length) :
    Found symbol (first ++ '\n' :: rest) start ↔ StandsAt symbol (stripReturn first) start := by
  have hbreak : Found symbol (first ++ '\n' :: rest) start ↔
      StandsAt symbol (first ++ '\n' :: rest) start ∧
        start + symbol.length ≤ (stripReturn first).length :=
    and_congr_right fun hstands => not_takesBreak_iff hsymbol hfirst hstands.occurs hstart
  rw [hbreak]
  rcases stripReturn_cases first with ⟨-, hsame⟩ | hreturn
  · rw [hsame]
    exact standsAt_append hsymbol (.inl rfl)
  · have htext : first ++ '\n' :: rest = stripReturn first ++ '\r' :: '\n' :: rest := by
      calc first ++ '\n' :: rest = stripReturn first ++ ['\r'] ++ '\n' :: rest :=
          congrArg (· ++ '\n' :: rest) hreturn
        _ = stripReturn first ++ '\r' :: '\n' :: rest := List.append_assoc _ _ _
    rw [htext]
    exact standsAt_append hsymbol (.inr rfl)

/-- A text without a break is a line. -/
theorem found_last (hfirst : '\n' ∉ first) :
    Found symbol first start ↔ StandsAt symbol first start := by
  refine and_iff_left_of_imp fun hstands => ?_
  rintro (hbreak | ⟨-, hbreak⟩)
  · exact hfirst (hstands.occurs.mem hbreak)
  · exact hfirst (List.mem_of_getElem? hbreak)

theorem placeAt_rest (hfirst : '\n' ∉ first) :
    placeAt (first ++ '\n' :: rest) (first.length + 1 + start) =
      ((placeAt rest start).1 + 1, (placeAt rest start).2) := by
  have hcolumn : (first ++ '\n' :: rest.take start).rtakeWhile (· ≠ '\n') =
      (rest.take start).rtakeWhile (· ≠ '\n') :=
    rtakeWhile_append_of_neg (by simp) first (rest.take start)
  simp only [placeAt, take_behind_break]
  rw [List.count_append, List.count_cons_self, List.count_eq_zero.mpr hfirst, hcolumn,
    Nat.zero_add]

theorem placeAt_line (rest : List Char) (hfirst : '\n' ∉ first)
    (hstart : start ≤ first.length) :
    placeAt (first ++ rest) start = (0, utf16Length (first.take start)) := by
  have hbreak : '\n' ∉ first.take start := fun hmem => hfirst (List.mem_of_mem_take hmem)
  have hcolumn : (first.take start).rtakeWhile (· ≠ '\n') = first.take start := by
    rw [List.rtakeWhile_eq_self_iff]
    intro letter hletter
    exact decide_eq_true fun heq => hbreak (heq ▸ hletter)
  simp only [placeAt, List.take_append_of_le_length hstart]
  rw [List.count_eq_zero.mpr hbreak, hcolumn]

/-- The sites of all lines from a row on. -/
def foundSites (row : ℕ) (symbol text : List Char) : List (ℕ × ℕ) :=
  ((List.range text.length).filter fun start => Found symbol text start).map fun start =>
    (coordinate (row + (placeAt text start).1), coordinate (placeAt text start).2)

theorem foundSites_line (hfirst : '\n' ∉ first) (row : ℕ) :
    foundSites row symbol first = lineSites row symbol first 0 := by
  rw [foundSites, lineSites, Nat.sub_zero, List.range_eq_range']
  simp only [found_last hfirst]
  apply List.map_congr_left
  intro index hindex
  have hinside : index < first.length := by
    rw [List.mem_filter, List.mem_range'_1, Nat.zero_add] at hindex
    exact hindex.1.2
  have hplace := placeAt_line [] hfirst hinside.le
  rw [List.append_nil] at hplace
  rw [hplace, Nat.add_zero]

theorem foundSites_append (hsymbol : symbol ≠ []) (hfirst : '\n' ∉ first) (row : ℕ) :
    foundSites row symbol (first ++ '\n' :: rest) =
      lineSites row symbol (stripReturn first) 0 ++ foundSites (row + 1) symbol rest := by
  have hlength : (first ++ '\n' :: rest).length = first.length + 1 + rest.length := by
    rw [List.length_append, List.length_cons]
    omega
  have hstrip := stripReturn_prefix first
  have hline : (List.range (first.length + 1)).filter (fun start =>
        Found symbol (first ++ '\n' :: rest) start) =
      (List.range (stripReturn first).length).filter fun start =>
        StandsAt symbol (stripReturn first) start := by
    calc (List.range (first.length + 1)).filter (fun start =>
          Found symbol (first ++ '\n' :: rest) start) =
        (List.range (first.length + 1)).filter (fun start =>
          StandsAt symbol (stripReturn first) start) := by
          apply List.filter_congr
          intro start hstart
          exact decide_eq_decide.mpr (found_first hsymbol hfirst (by
            rw [List.mem_range] at hstart
            omega))
      _ = (List.range (stripReturn first).length).filter fun start =>
          StandsAt symbol (stripReturn first) start := by
          refine filter_range_of_lt (Nat.le_succ_of_le hstrip.length_le) ?_
          intro start hstands
          exact (of_decide_eq_true hstands).occurs.lt_length hsymbol
  have hrest : ((List.range rest.length).map (first.length + 1 + ·)).filter (fun start =>
        Found symbol (first ++ '\n' :: rest) start) =
      ((List.range rest.length).filter fun start => Found symbol rest start).map
        (first.length + 1 + ·) := by
    rw [List.filter_map]
    congr 1
    apply List.filter_congr
    intro start _
    exact decide_eq_decide.mpr found_rest
  rw [foundSites, hlength, List.range_add, List.filter_append, hline, hrest, List.map_append,
    List.map_map, lineSites, foundSites, Nat.sub_zero, List.range_eq_range']
  congr 1
  · apply List.map_congr_left
    intro start hstart
    have hinside : start < (stripReturn first).length := by
      rw [List.mem_filter, List.mem_range'_1, Nat.zero_add] at hstart
      exact hstart.1.2
    have hle := hstrip.length_le
    have htake : first.take start = (stripReturn first).take start := by
      obtain ⟨ending, hending⟩ := hstrip
      calc first.take start = (stripReturn first ++ ending).take start :=
          congrArg (List.take start) hending.symm
        _ = (stripReturn first).take start := List.take_append_of_le_length hinside.le
    rw [placeAt_line _ hfirst (by omega), Nat.add_zero, htake]
  · apply List.map_congr_left
    intro start _
    rw [Function.comp_apply, placeAt_rest hfirst, Nat.add_assoc, Nat.add_comm 1]

/-- A scan that may resume on every line returns the sites of all. -/
theorem mapM_rowMatches (hsymbol : symbol ≠ []) (text : List Char)
    (hnarrow : ∀ letter, symbol.head? = some letter → letter.utf8Size = 1 ∨
      ∀ line ∈ textLines (String.ofList text), ∀ index, ¬OccursAt symbol line.toList index)
    (row : ℕ) :
    (((textLines (String.ofList text)).zipIdx row).mapM (rowMatches symbol)).map List.flatten =
      some (foundSites row symbol text) := by
  have hline (row : ℕ) (line : List Char) (hsafe : ∀ letter, symbol.head? = some letter →
      letter.utf8Size = 1 ∨ ∀ index, ¬OccursAt symbol line index) :
        rowMatches symbol (String.ofList line, row) = some (lineSites row symbol line 0) := by
    rw [rowMatches, String.toList_ofList]
    exact lineMatchesFrom_narrow hsymbol hsafe (Nat.zero_le line.length)
  induction text using lines_induction generalizing row with
  | last text hbreak =>
      rw [textLines_last hbreak] at hnarrow ⊢
      split_ifs at hnarrow ⊢ with hnil
      · rw [hnil]
        rfl
      · rw [foundSites_line hbreak, List.zipIdx_cons, List.mapM_cons, hline row text]
        · simp
        · intro letter hletter
          exact (hnarrow letter hletter).imp_right fun hnone => by
            simpa using hnone
  | line first rest hfirst ih =>
      rw [textLines_cons hfirst] at hnarrow ⊢
      rw [foundSites_append hsymbol hfirst, List.zipIdx_cons, List.mapM_cons,
        hline row (stripReturn first)]
      · have hrest := ih (fun letter hletter => (hnarrow letter hletter).imp_right
          fun hnone line hmem => hnone line (List.mem_cons_of_mem _ hmem)) (row + 1)
        obtain ⟨found, hfound, hflat⟩ := Option.map_eq_some_iff.mp hrest
        rw [hfound, ← hflat]
        rfl
      · intro letter hletter
        exact (hnarrow letter hletter).imp_right fun hnone => by
          simpa using hnone _ List.mem_cons_self

theorem wordBoundedMatches_safe {source symbol : String} (hsymbol : symbol ≠ "")
    (hsafe : ResumesSafely source symbol) :
    wordBoundedMatches source symbol = some (foundSites 0 symbol.toList source.toList) := by
  have hletters : symbol.toList ≠ [] := fun hnil => hsymbol (String.toList_eq_nil_iff.mp hnil)
  rw [wordBoundedMatches, if_neg hsymbol, ← mapM_rowMatches hletters source.toList ?_ 0,
    String.ofList_toList]
  intro letter hletter
  rw [String.ofList_toList]
  exact hsafe.imp_left fun hnarrow => hnarrow letter hletter

theorem wordBoundedMatches_panics {source symbol : String} (hsymbol : symbol ≠ "")
    (hresume : ¬ResumesSafely source symbol) : wordBoundedMatches source symbol = none := by
  have hletters : symbol.toList ≠ [] := fun hnil => hsymbol (String.toList_eq_nil_iff.mp hnil)
  rw [ResumesSafely, not_or] at hresume
  push Not at hresume
  obtain ⟨⟨letter, hletter, hwide⟩, line, hline, index, hoccurs⟩ := hresume
  obtain ⟨row, hrow⟩ := List.getElem?_of_mem hline
  have hmem : (line, row) ∈ (textLines source).zipIdx :=
    List.mem_zipIdx_iff_getElem?.mpr hrow
  have hnone : rowMatches symbol.toList (line, row) = none :=
    lineMatchesFrom_wide hletters hletter hwide hoccurs (Nat.zero_le index)
  rw [wordBoundedMatches, if_neg hsymbol, mapM_eq_none hmem hnone]
  rfl

theorem coordinate_eq_succ_iff (count : ℕ) :
    coordinate count = count + 1 ↔ count + 1 < 2 ^ 32 := by
  rw [coordinate]
  omega

/-- The scan is exact exactly when it may resume behind every occurrence, no occurrence
takes in a break, and lines and columns are words of 32 bits. -/
theorem matchesExactly_iff (source : String) {symbol : String} (hsymbol : symbol ≠ "") :
    MatchesExactly source symbol ↔ ResumesSafely source symbol ∧
      ∀ start, StandsAt symbol.toList source.toList start →
        ¬TakesBreak symbol.toList source.toList start ∧
          (coordinatesAt source.toList start).1 < 2 ^ 32 ∧
            (coordinatesAt source.toList start).2 < 2 ^ 32 := by
  by_cases hsafe : ResumesSafely source symbol
  · have hletters : symbol.toList ≠ [] :=
      fun hnil => hsymbol (String.toList_eq_nil_iff.mp hnil)
    have hfound : (List.range source.toList.length).filter (fun start =>
          Found symbol.toList source.toList start) =
        (standings symbol.toList source.toList).filter fun start =>
          ¬TakesBreak symbol.toList source.toList start := by
      rw [standings, List.filter_filter]
      apply List.filter_congr
      intro start _
      rw [Bool.eq_iff_iff, Bool.and_eq_true, decide_eq_true_iff, decide_eq_true_iff,
        decide_eq_true_iff]
      exact and_comm
    have hmem (start : ℕ) : start ∈ standings symbol.toList source.toList ↔
        StandsAt symbol.toList source.toList start := by
      rw [standings, List.mem_filter, List.mem_range, decide_eq_true_iff]
      exact and_iff_right_of_imp fun hstands => hstands.occurs.lt_length hletters
    rw [MatchesExactly, wordBoundedMatches_safe hsymbol hsafe, Option.some.injEq, foundSites,
      hfound, map_filter_eq_map_iff]
    simp only [hsafe, true_and, hmem, decide_eq_true_iff, Nat.zero_add, coordinatesAt,
      Prod.mk.injEq, coordinate_eq_succ_iff]
  · rw [MatchesExactly, wordBoundedMatches_panics hsymbol hsafe]
    exact iff_of_false (Option.some_ne_none _).symm fun hexact => hsafe hexact.1

end Sources

theorem name_matches_exactly : MatchesExactly "x = x\n" "x" := by
  refine (matchesExactly_iff "x = x\n" (by decide)).mpr ⟨.inl ?_, fun start hstands => ?_⟩
  · intro letter hletter
    cases hletter
    rfl
  · have hstart : start < 6 := hstands.occurs.lt_length (by decide)
    clear hstands
    revert start
    decide

/-- The search does not get past a name that begins with a wide character. -/
theorem wide_name_panics :
    wordBoundedMatches "val état = 1" "état" = none ∧
      ¬MatchesExactly "val état = 1" "état" := by
  have hpanics : wordBoundedMatches "val état = 1" "état" = none := by decide +kernel
  refine ⟨hpanics, fun hexact => ?_⟩
  rw [MatchesExactly, hpanics] at hexact
  cases hexact

example : wordBoundedMatches "val m = é.putMetric(1)\r\n@putMetric\n" "putMetric" =
    some [(1, 11), (2, 2)] := by
  decide +kernel

end Ktsense.Cli
