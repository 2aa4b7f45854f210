import Ktsense.Cli.TextRefs
import Ktsense.Core.JavaTokens
import Ktsense.Core.References

/-!
# Sites in Java sources

`classify_java_sites` of `java_text.rs`: sites come as a line and a UTF-16 column, are
located again as byte offsets, and take the kind of the lexical state there.
-/

namespace Ktsense.Core

open Ktsense.Foundation

def LexState.siteKind : LexState → SiteKind
  | .code => .code
  | .lineComment | .blockComment => .comment
  | .stringLiteral | .textBlock | .charLiteral => .string

/-- The loop of `line_start_offset`, with the breaks that are left. -/
def lineStartFrom : ℕ → ℕ → List Char → Option ℕ
  | _, _, [] => none
  | remaining, offset, letter :: rest =>
      if letter = '\n' then
        if remaining - 1 = 0 then some (offset + 1)
        else lineStartFrom (remaining - 1) (offset + letter.utf8Size) rest
      else lineStartFrom remaining (offset + letter.utf8Size) rest

def lineStartOffset (source : List Char) (line : ℕ) : Option ℕ :=
  if line = 1 then some 0 else lineStartFrom (line - 1) 0 source

/-- The loop of `byte_offset_of`, whose code units are counted in a word of 32 bits. -/
def columnOffsetFrom (column : ℕ) : ℕ → ℕ → List Char → Option ℕ
  | _, _, [] => none
  | seen, offset, letter :: rest =>
      if (seen + 1) % 2 ^ 32 = column then some offset
      else columnOffsetFrom column ((seen + utf16Size letter) % 2 ^ 32)
        (offset + letter.utf8Size) rest

/-- The slice from the start of a line on never falls inside a character. -/
def byteOffsetOf (source : List Char) (line column : ℕ) : Option ℕ :=
  if line = 0 ∨ column = 0 then none
  else do
    let lineStart ← lineStartOffset source line
    let (_, rest) ← splitBytes lineStart source
    columnOffsetFrom column 0 lineStart (rest.takeWhile (· ≠ '\n'))

/-- Of two sites at one offset the later is wanted. -/
def wantedSites (source : String) (sites : List (ℕ × ℕ)) : List (ℕ × ℕ) :=
  sites.zipIdx.filterMap fun ((line, column), index) =>
    (byteOffsetOf source.toList line column).map fun offset => (offset, index)

/-- The turn of the loop of `classify_java_sites` for one character. -/
def recordKind (wanted : List (ℕ × ℕ)) (kinds : List SiteKind) (here : Lexed) :
    List SiteKind :=
  match wanted.reverse.lookup here.offset with
  | some index => kinds.set index here.state.siteKind
  | none => kinds

def classifyJavaSites (source : String) (sites : List (ℕ × ℕ)) : List SiteKind :=
  (lex source).foldl (recordKind (wantedSites source sites))
    (List.replicate sites.length .code)

end Ktsense.Core

namespace Ktsense.Cli

open Ktsense.Core
open Ktsense.Foundation

/-- The indices of the occurrences that the scan reports. -/
def reported (symbol text : List Char) : List ℕ :=
  if symbol = [] then []
  else (List.range text.length).filter fun start => Found symbol text start

/-- Each site is located at the first character of its occurrence, and has the kind of the
state there. -/
structure LocatesSites (source symbol : String) (sites : List (ℕ × ℕ)) : Prop where
  offsets : (sites.map fun (line, column) => byteOffsetOf source.toList line column) =
    (reported symbol.toList source.toList).map fun start =>
      some (utf8Length (source.toList.take start))
  kinds : (classifyJavaSites source sites).map some =
    (reported symbol.toList source.toList).map fun start =>
      (lex source)[start]?.map fun here => here.state.siteKind

/-! ## Locating a site -/

section Locating

variable {before rest : List Char}

/-- The line behind as many breaks begins behind the last of them. -/
theorem lineStartFrom_append (hend : before.getLast? = some '\n') (offset : ℕ)
    (rest : List Char) :
    lineStartFrom (before.count '\n') offset (before ++ rest) =
      some (offset + utf8Length before) := by
  induction before generalizing offset with
  | nil => cases hend
  | cons letter before ih =>
      rw [List.cons_append, lineStartFrom]
      cases before with
      | nil =>
          cases hend
          rfl
      | cons next before =>
          rw [List.getLast?_cons_cons] at hend
          have hcount : 0 < (next :: before).count '\n' :=
            List.count_pos_iff.mpr (List.mem_of_getLast? hend)
          have hlater := ih hend (offset + letter.utf8Size)
          rw [utf8Length_cons, ← Nat.add_assoc]
          split_ifs with hbreak hlast
          · rw [List.count_cons, if_pos (by simp [hbreak])] at hlast
            omega
          · rw [List.count_cons, if_pos (by simp [hbreak]), Nat.add_sub_cancel]
            exact hlater
          · rw [List.count_cons, if_neg (by simpa using hbreak), Nat.add_zero]
            exact hlater

theorem columnOffsetFrom_append (before rest : List Char) (letter : Char)
    (seen offset : ℕ) (hfits : seen + utf16Length before + 1 < 2 ^ 32) :
    columnOffsetFrom (seen + utf16Length before + 1) seen offset (before ++ letter :: rest) =
      some (offset + utf8Length before) := by
  induction before generalizing seen offset with
  | nil =>
      rw [List.nil_append, columnOffsetFrom, utf16Length_nil, Nat.add_zero,
        if_pos (Nat.mod_eq_of_lt (by omega))]
      rfl
  | cons first before ih =>
      have hpositive := utf16Size_pos first
      rw [utf16Length_cons] at hfits ⊢
      rw [List.cons_append, columnOffsetFrom, if_neg (by omega),
        Nat.mod_eq_of_lt (by omega), utf8Length_cons, ← Nat.add_assoc, ← Nat.add_assoc]
      exact ih (seen + utf16Size first) (offset + first.utf8Size) (by omega)

/-- A line begins behind the last break before it. -/
theorem lineStartOffset_append (hend : before = [] ∨ before.getLast? = some '\n')
    (rest : List Char) :
    lineStartOffset (before ++ rest) (before.count '\n' + 1) = some (utf8Length before) := by
  rw [lineStartOffset, Nat.add_sub_cancel]
  rcases hend with rfl | hend
  · rfl
  · have hcount : before.count '\n' ≠ 0 :=
      (List.count_pos_iff.mpr (List.mem_of_getLast? hend)).ne'
    rw [if_neg (by omega), lineStartFrom_append hend, Nat.zero_add]

/-- What stands before a character ends in the part of its line. -/
theorem exists_line_cut (text : List Char) (start : ℕ) :
    ∃ before last, text.take start = before ++ last ∧
      (before = [] ∨ before.getLast? = some '\n') ∧ '\n' ∉ last ∧
        placeAt text start = (before.count '\n', utf16Length last) := by
  let inLine : Char → Bool := fun letter => letter ≠ '\n'
  let before := (text.take start).rdropWhile inLine
  let last := (text.take start).rtakeWhile inLine
  have htake : before ++ last = text.take start := List.rdropWhile_append_rtakeWhile
  have hlast : '\n' ∉ last := by
    intro hmem
    have hkept : inLine '\n' = true := List.mem_rtakeWhile_imp hmem
    exact absurd hkept (by decide)
  refine ⟨before, last, htake.symm, ?_, hlast, ?_⟩
  · by_cases hnil : before = []
    · exact .inl hnil
    · have hstop := List.rdropWhile_last_not inLine (text.take start) hnil
      have hbreak : before.getLast hnil = '\n' := by
        by_contra hne
        exact hstop (decide_eq_true hne)
      exact .inr (by rw [List.getLast?_eq_some_getLast hnil, hbreak])
  · have hcount : (text.take start).count '\n' = before.count '\n' := by
      rw [← htake, List.count_append, List.count_eq_zero.mpr hlast, Nat.add_zero]
    rw [← hcount]
    rfl

/-- The coordinates of a character lead back to it. -/
theorem byteOffsetOf_coordinatesAt {text : List Char} {start : ℕ} (hstart : start < text.length)
    (hletter : text[start] ≠ '\n') (hcolumn : (coordinatesAt text start).2 < 2 ^ 32) :
    byteOffsetOf text (coordinatesAt text start).1 (coordinatesAt text start).2 =
      some (utf8Length (text.take start)) := by
  obtain ⟨before, last, htake, hend, hlast, hplace⟩ := exists_line_cut text start
  have htext : text = before ++ (last ++ text[start] :: text.drop (start + 1)) := by
    rw [← List.drop_eq_getElem_cons hstart, ← List.append_assoc, ← htake,
      List.take_append_drop]
  have hline : (last ++ text[start] :: text.drop (start + 1)).takeWhile (· ≠ '\n') =
      last ++ text[start] :: (text.drop (start + 1)).takeWhile (· ≠ '\n') := by
    rw [List.takeWhile_append_of_pos, List.takeWhile_cons, if_pos (decide_eq_true hletter)]
    exact fun letter hmem => decide_eq_true fun heq => hlast (heq ▸ hmem)
  have hoffset := columnOffsetFrom_append last ((text.drop (start + 1)).takeWhile (· ≠ '\n'))
    text[start] 0 (utf8Length before)
  have hcut := splitBytes_append before (last ++ text[start] :: text.drop (start + 1))
  have hfound := lineStartOffset_append hend (last ++ text[start] :: text.drop (start + 1))
  rw [← htext] at hcut hfound
  rw [coordinatesAt, hplace] at hcolumn ⊢
  rw [Nat.zero_add] at hoffset
  rw [byteOffsetOf, if_neg (by simp), hfound, htake, utf8Length_append]
  simp only [Option.bind_eq_bind, Option.bind_some, hcut, hline]
  exact hoffset hcolumn

end Locating

/-! ## Sites in order -/

section Ordered

theorem utf8Length_take_lt {text : List Char} {first second : ℕ} (hlt : first < second)
    (hsecond : second ≤ text.length) :
    utf8Length (text.take first) < utf8Length (text.take second) := by
  induction second with
  | zero => exact absurd hlt (Nat.not_lt_zero _)
  | succ second ih =>
      have hsize := text[second].utf8Size_pos
      rw [utf8Length_take_succ (by omega)]
      rcases Nat.lt_succ_iff_lt_or_eq.mp hlt with hearlier | rfl
      · have hless := ih hearlier (by omega)
        omega
      · omega

/-- A site has the kind of the characters that it is wanted at, if they agree. -/
theorem getElem?_foldl_recordKind {wanted : List (ℕ × ℕ)} {lexed : List Lexed}
    {kinds : List SiteKind} {index : ℕ} {kind : SiteKind}
    (hall : ∀ here ∈ lexed, wanted.reverse.lookup here.offset = some index →
      here.state.siteKind = kind)
    (hkind : kinds[index]? = some kind ∨ index < kinds.length ∧
      ∃ here ∈ lexed, wanted.reverse.lookup here.offset = some index) :
    (lexed.foldl (recordKind wanted) kinds)[index]? = some kind := by
  induction lexed generalizing kinds with
  | nil => exact hkind.resolve_right fun ⟨_, _, hmem, _⟩ => List.not_mem_nil hmem
  | cons first rest ih =>
      rw [List.foldl_cons]
      refine ih (fun here hhere => hall here (List.mem_cons_of_mem _ hhere)) ?_
      have hlength : index < kinds.length := by
        rcases hkind with hsome | ⟨hlt, -⟩
        · exact (List.getElem?_eq_some_iff.mp hsome).1
        · exact hlt
      rw [recordKind]
      cases hfirst : wanted.reverse.lookup first.offset with
      | none =>
          refine hkind.imp_right fun ⟨hlt, here, hmem, hhere⟩ => ⟨hlt, here, ?_, hhere⟩
          rcases List.mem_cons.mp hmem with rfl | hrest
          · rw [hfirst] at hhere
            cases hhere
          · exact hrest
      | some other =>
          dsimp only
          by_cases hsame : other = index
          · rw [hsame] at hfirst ⊢
            rw [List.getElem?_set_self hlength, hall first List.mem_cons_self hfirst]
            exact .inl rfl
          · rw [List.getElem?_set_ne hsame, List.length_set]
            refine hkind.imp_right fun ⟨hlt, here, hmem, hhere⟩ => ⟨hlt, here, ?_, hhere⟩
            rcases List.mem_cons.mp hmem with rfl | hrest
            · rw [hfirst] at hhere
              exact absurd (Option.some.inj hhere) hsame
            · exact hrest

theorem length_foldl_recordKind (wanted : List (ℕ × ℕ)) (lexed : List Lexed)
    (kinds : List SiteKind) : (lexed.foldl (recordKind wanted) kinds).length = kinds.length := by
  induction lexed generalizing kinds with
  | nil => rfl
  | cons first rest ih =>
      rw [List.foldl_cons, ih, recordKind]
      split
      · exact List.length_set
      · rfl

theorem mem_of_lookup {pairs : List (ℕ × ℕ)} {key value : ℕ}
    (hlookup : pairs.lookup key = some value) : (key, value) ∈ pairs := by
  obtain ⟨before, after, rfl, -⟩ := List.lookup_eq_some_iff.mp hlookup
  exact List.mem_append_right before List.mem_cons_self

theorem mem_wantedSites {source : String} {sites : List (ℕ × ℕ)} {offset index : ℕ} :
    (offset, index) ∈ wantedSites source sites ↔ ∃ site, sites[index]? = some site ∧
      byteOffsetOf source.toList site.1 site.2 = some offset := by
  rw [wantedSites, List.mem_filterMap]
  constructor
  · rintro ⟨⟨site, place⟩, hmem, hwanted⟩
    obtain ⟨found, hfound, heq⟩ := Option.map_eq_some_iff.mp hwanted
    cases heq
    exact ⟨site, List.mem_zipIdx_iff_getElem?.mp hmem, hfound⟩
  · rintro ⟨site, hsite, hoffset⟩
    refine ⟨(site, index), List.mem_zipIdx_iff_getElem?.mpr hsite, ?_⟩
    dsimp only
    rw [hoffset]
    rfl

/-- What is wanted at an offset that no other site shares. -/
theorem lookup_wantedSites {source : String} {sites : List (ℕ × ℕ)} {offset index : ℕ}
    (hmem : (offset, index) ∈ wantedSites source sites)
    (honly : ∀ other, (offset, other) ∈ wantedSites source sites → other = index) :
    (wantedSites source sites).reverse.lookup offset = some index := by
  cases hlookup : (wantedSites source sites).reverse.lookup offset with
  | none =>
      have hne := List.lookup_eq_none_iff.mp hlookup (offset, index) (List.mem_reverse.mpr hmem)
      exact absurd hne (by simp)
  | some other => rw [honly other (List.mem_reverse.mp (mem_of_lookup hlookup))]

/-- Indices are told apart by their byte offsets. -/
theorem index_eq_of_offset {text : List Char} {first second : ℕ} (hfirst : first ≤ text.length)
    (hsecond : second ≤ text.length)
    (hoffset : utf8Length (text.take first) = utf8Length (text.take second)) :
    first = second := by
  rcases Nat.lt_trichotomy first second with hlt | heq | hgt
  · exact absurd hoffset (utf8Length_take_lt hlt hsecond).ne
  · exact heq
  · exact absurd hoffset (utf8Length_take_lt hgt hfirst).ne'

/-- Sites that are located at different characters have the kinds of those. -/
theorem kinds_of_offsets {source : String} {sites : List (ℕ × ℕ)} {starts : List ℕ}
    (hsorted : starts.Pairwise (· < ·)) (hinside : ∀ start ∈ starts, start < source.toList.length)
    (hoffsets : (sites.map fun (line, column) => byteOffsetOf source.toList line column) =
      starts.map fun start => some (utf8Length (source.toList.take start))) :
    (classifyJavaSites source sites).map some =
      starts.map fun start => (lex source)[start]?.map fun here => here.state.siteKind := by
  have hlength : sites.length = starts.length := by
    have hlengths := congrArg List.length hoffsets
    rwa [List.length_map, List.length_map] at hlengths
  -- A site is wanted at the offset of its own character, and at no other.
  have hwanted (offset index : ℕ) : (offset, index) ∈ wantedSites source sites ↔
      ∃ start, starts[index]? = some start ∧
        offset = utf8Length (source.toList.take start) := by
    have hplace := congrArg (·[index]?) hoffsets
    simp only [List.getElem?_map] at hplace
    rw [mem_wantedSites]
    constructor
    · rintro ⟨site, hsite, hoffset⟩
      rw [hsite, Option.map_some, hoffset] at hplace
      obtain ⟨start, hstart, heq⟩ := Option.map_eq_some_iff.mp hplace.symm
      exact ⟨start, hstart, (Option.some.inj heq).symm⟩
    · rintro ⟨start, hstart, rfl⟩
      rw [hstart] at hplace
      exact Option.map_eq_some_iff.mp hplace
  apply List.ext_getElem?
  intro index
  rw [List.getElem?_map, List.getElem?_map]
  cases hstart : starts[index]? with
  | none =>
      have hbehind : (classifyJavaSites source sites).length ≤ index := by
        rw [classifyJavaSites, length_foldl_recordKind, List.length_replicate, hlength]
        exact List.getElem?_eq_none_iff.mp hstart
      rw [List.getElem?_eq_none hbehind]
      rfl
  | some start =>
      have hstarts := hinside start (List.mem_of_getElem? hstart)
      obtain ⟨here, hhere⟩ : ∃ here, (lex source)[start]? = some here :=
        ⟨_, List.getElem?_eq_getElem (by rwa [length_lex])⟩
      have hoffset := offset_of_lex hhere
      have honly (other : ℕ) (hother : (here.offset, other) ∈ wantedSites source sites) :
          other = index := by
        obtain ⟨place, hplace, hsame⟩ := (hwanted here.offset other).mp hother
        have hplaces := hinside place (List.mem_of_getElem? hplace)
        have heq : start = place :=
          index_eq_of_offset hstarts.le hplaces.le (hoffset.symm.trans hsame)
        have hlt := (List.getElem?_eq_some_iff.mp hplace).1
        rw [← heq, ← hstart] at hplace
        exact (List.getElem?_inj hlt hsorted.nodup).mp hplace
      have hkind : (classifyJavaSites source sites)[index]? = some here.state.siteKind := by
        refine getElem?_foldl_recordKind (fun other hother hlookup => ?_) (.inr ⟨?_, here, ?_, ?_⟩)
        · obtain ⟨place, hplace⟩ := List.getElem?_of_mem hother
          obtain ⟨first, hfirst, hsame⟩ :=
            (hwanted other.offset index).mp (List.mem_reverse.mp (mem_of_lookup hlookup))
          rw [hstart] at hfirst
          cases hfirst
          have hinner : place < source.toList.length := by
            rw [← length_lex]
            exact (List.getElem?_eq_some_iff.mp hplace).1
          have heq : place = start := index_eq_of_offset hinner.le hstarts.le
            ((offset_of_lex hplace).symm.trans hsame)
          rw [heq, hhere] at hplace
          cases hplace
          rfl
        · rw [List.length_replicate, hlength]
          exact (List.getElem?_eq_some_iff.mp hstart).1
        · exact List.mem_of_getElem? hhere
        · exact lookup_wantedSites ((hwanted here.offset index).mpr ⟨start, hstart, hoffset⟩)
            honly
      rw [hkind, Option.map_some, Option.map_some, hhere]
      rfl

end Ordered

/-! ## What the scan reports -/

section Reporting

variable {source symbol : String}

theorem mem_reported {symbol text : List Char} {start : ℕ} (hmem : start ∈ reported symbol text) :
    ∃ hstart : start < text.length, text[start] ≠ '\n' := by
  rw [reported] at hmem
  split_ifs at hmem with hnil
  · cases hmem
  · obtain ⟨hstart, hfound⟩ := List.mem_filter.mp hmem
    obtain ⟨hstands, hbreak⟩ := of_decide_eq_true hfound
    obtain ⟨letter, rest, rfl⟩ := List.exists_cons_of_ne_nil hnil
    refine ⟨List.mem_range.mp hstart, fun heq => hbreak (.inl ?_)⟩
    rw [← heq, hstands.occurs.getElem_eq rfl]
    exact List.mem_cons_self

theorem pairwise_reported (symbol text : List Char) :
    (reported symbol text).Pairwise (· < ·) := by
  rw [reported]
  split_ifs
  · exact List.Pairwise.nil
  · exact List.pairwise_lt_range.filter _

/-- The scan reports the coordinates of what stands on a line, in words of 32 bits. -/
theorem wordBoundedMatches_ascii (source symbol : String)
    (hascii : ∀ letter ∈ symbol.toList, letter.toNat < 128) :
    wordBoundedMatches source symbol =
      some ((reported symbol.toList source.toList).map fun start =>
        (coordinate (placeAt source.toList start).1,
          coordinate (placeAt source.toList start).2)) := by
  by_cases hsymbol : symbol = ""
  · rw [hsymbol]
    rfl
  · have hletters : symbol.toList ≠ [] :=
      fun hnil => hsymbol (String.toList_eq_nil_iff.mp hnil)
    have hsafe : ResumesSafely source symbol := by
      refine .inl fun letter hletter => Char.utf8Size_eq_one_iff.mpr ?_
      exact UInt32.le_iff_toNat_le.mpr
        (Nat.le_of_lt_succ (hascii letter (List.mem_of_head? hletter)))
    rw [wordBoundedMatches_safe hsymbol hsafe, reported, if_neg hletters, foundSites]
    simp only [Nat.zero_add]

/-- The classifier finds every site of the scan, and the kind of its first character. -/
theorem sites_located (source : String) (hascii : ∀ letter ∈ symbol.toList, letter.toNat < 128)
    (hfits : ∀ start ∈ reported symbol.toList source.toList,
      (coordinatesAt source.toList start).1 < 2 ^ 32 ∧
        (coordinatesAt source.toList start).2 < 2 ^ 32) :
    ∃ sites, wordBoundedMatches source symbol = some sites ∧
      LocatesSites source symbol sites := by
  have hcoordinates : (reported symbol.toList source.toList).map (fun start =>
        (coordinate (placeAt source.toList start).1,
          coordinate (placeAt source.toList start).2)) =
      (reported symbol.toList source.toList).map (coordinatesAt source.toList) := by
    apply List.map_congr_left
    intro start hstart
    obtain ⟨hline, hcolumn⟩ := hfits start hstart
    rw [(coordinate_eq_succ_iff _).mpr hline, (coordinate_eq_succ_iff _).mpr hcolumn]
    rfl
  have hoffsets : ((reported symbol.toList source.toList).map (coordinatesAt source.toList)).map
        (fun (line, column) => byteOffsetOf source.toList line column) =
      (reported symbol.toList source.toList).map fun start =>
        some (utf8Length (source.toList.take start)) := by
    rw [List.map_map]
    apply List.map_congr_left
    intro start hstart
    obtain ⟨hinside, hletter⟩ := mem_reported hstart
    exact byteOffsetOf_coordinatesAt hinside hletter (hfits start hstart).2
  refine ⟨_, wordBoundedMatches_ascii source symbol hascii, ?_⟩
  rw [hcoordinates]
  refine ⟨hoffsets, kinds_of_offsets (pairwise_reported _ _) ?_ hoffsets⟩
  intro start hstart
  exact (mem_reported hstart).1

end Reporting

theorem save_located : ∃ sites,
    wordBoundedMatches "save(\"save\");\r\n/* 𝕊 */ save();" "save" = some sites ∧
      LocatesSites "save(\"save\");\r\n/* 𝕊 */ save();" "save" sites :=
  sites_located _ (by simp) (by decide +kernel)

example : classifyJavaSites "save(\"save\");\r\n/* 𝕊 save */ save();"
    [(1, 1), (1, 7), (2, 7), (2, 16)] = [.code, .string, .comment, .code] := by
  decide +kernel

/-! ## Beyond a word of 32 bits -/

section Far

/-- A name that stands in code, and again in a comment behind blanks. -/
def farComment (blanks : ℕ) : String :=
  String.ofList ("a /*".toList ++ List.replicate blanks ' ' ++ ['a'])

variable (blanks : ℕ)

/-- What stands before the second name. -/
def farPrefix : List Char := "a /*".toList ++ List.replicate blanks ' '

theorem toList_farComment : (farComment blanks).toList = farPrefix blanks ++ ['a'] :=
  String.toList_ofList

theorem length_farPrefix : (farPrefix blanks).length = 4 + blanks := by
  rw [farPrefix, List.length_append, List.length_replicate]
  rfl

theorem mem_farPrefix {letter : Char} (hmem : letter ∈ farPrefix blanks) :
    letter ∈ "a /*".toList := by
  rcases List.mem_append.mp hmem with hopening | hblank
  · exact hopening
  · rw [List.eq_of_mem_replicate hblank]
    decide

theorem state_in_comment (offset : ℕ) :
    ((lexFrom .blockComment [] (charIndices offset
      (List.replicate blanks ' ' ++ ['a'])))[blanks]?).map (·.state) = some .blockComment := by
  induction blanks generalizing offset with
  | zero => rfl
  | succ blanks ih =>
      have hturn (peek : List (ℕ × Char)) :
          lexTurn .blockComment ' ' peek = (.blockComment, []) := rfl
      rw [List.replicate_succ, List.cons_append, charIndices, lexFrom, hturn,
        List.getElem?_cons_succ]
      exact ih _

/-- The second name stands in the comment. -/
theorem lex_farComment :
    lex (farComment blanks) = ⟨0, 'a', .code⟩ :: ⟨1, ' ', .code⟩ :: ⟨2, '/', .code⟩ ::
      ⟨3, '*', .code⟩ ::
        lexFrom .blockComment [] (charIndices 4 (List.replicate blanks ' ' ++ ['a'])) := by
  rw [lex, toList_farComment, farPrefix, List.append_assoc]
  rfl

/-- The second name stands in the comment. -/
theorem state_farComment :
    ((lex (farComment blanks))[4 + blanks]?).map (·.state) = some .blockComment := by
  rw [lex_farComment, Nat.add_comm]
  exact state_in_comment blanks 4

theorem reported_farComment : 4 + blanks ∈ reported ['a'] (farComment blanks).toList := by
  have hlength := length_farPrefix blanks
  have hbytes : (utf8Bytes (farPrefix blanks)).getLast?.any isIdentifierByte = false := by
    rw [farPrefix]
    cases blanks with
    | zero => decide
    | succ blanks =>
        rw [List.replicate_succ', ← List.append_assoc, utf8Bytes_append,
          utf8Bytes_ascii (by decide), List.getLast?_concat]
        decide
  rw [reported, if_neg (List.cons_ne_nil 'a' []), List.mem_filter, toList_farComment, ← hlength,
    decide_eq_true_iff]
  refine ⟨by simp, ⟨?_, ?_, ?_⟩, ?_⟩
  · rw [OccursAt, List.drop_left]
  · rw [List.take_left]
    exact hbytes
  · rw [List.drop_of_length_le (by simp)]
    rfl
  · rintro (hbreak | ⟨hreturn, -⟩)
    · exact absurd hbreak (by decide)
    · exact absurd hreturn (by decide)

theorem placeAt_farComment :
    placeAt (farComment blanks).toList (4 + blanks) = (0, 4 + blanks) := by
  have hfirst : '\n' ∉ farPrefix blanks :=
    fun hmem => absurd (mem_farPrefix blanks hmem) (by decide)
  have hunits : utf16Length (farPrefix blanks) = 4 + blanks := by
    rw [← length_farPrefix, utf16Length_eq_length_iff]
    intro letter hletter
    have hplain : ∀ letter ∈ "a /*".toList, letter.toNat < 0x10000 := by simp
    exact hplain letter (mem_farPrefix blanks hletter)
  have hplace := placeAt_line ['a'] hfirst le_rfl
  rwa [List.take_length, hunits, length_farPrefix, ← toList_farComment] at hplace

theorem byteOffsetOf_farComment : byteOffsetOf (farComment blanks).toList 1 1 = some 0 := by
  rw [toList_farComment]
  rfl

/-- A column that does not fit leads to another place, whose kind is not the site's. -/
theorem far_comment_taken_for_code {blanks : ℕ} (hblanks : 4 + blanks = 2 ^ 32) :
    ¬∃ sites, wordBoundedMatches (farComment blanks) "a" = some sites ∧
      LocatesSites (farComment blanks) "a" sites := by
  rintro ⟨sites, hsites, hlocates⟩
  have hascii : ∀ letter ∈ "a".toList, letter.toNat < 128 := by simp
  have hreported := wordBoundedMatches_ascii (farComment blanks) "a" hascii
  obtain ⟨index, hindex⟩ := List.getElem?_of_mem (reported_farComment blanks)
  have hsite : sites[index]? = some (1, 1) := by
    rw [hsites] at hreported
    rw [Option.some.inj hreported, List.getElem?_map]
    have hplace : (reported "a".toList (farComment blanks).toList)[index]? =
        some (4 + blanks) := hindex
    rw [hplace, Option.map_some, placeAt_farComment, hblanks]
    rfl
  have hcode : (classifyJavaSites (farComment blanks) sites)[index]? = some .code := by
    refine getElem?_foldl_recordKind (fun here hhere hlookup => ?_) (.inl ?_)
    · obtain ⟨site, hother, hoffset⟩ :=
        mem_wantedSites.mp (List.mem_reverse.mp (mem_of_lookup hlookup))
      rw [hsite] at hother
      cases hother
      rw [byteOffsetOf_farComment] at hoffset
      obtain ⟨place, hplace⟩ := List.getElem?_of_mem hhere
      have hinner : place < (farComment blanks).toList.length := by
        rw [← length_lex]
        exact (List.getElem?_eq_some_iff.mp hplace).1
      have hzero : place = 0 := index_eq_of_offset hinner.le (Nat.zero_le _)
        ((offset_of_lex hplace).symm.trans (Option.some.inj hoffset).symm)
      rw [hzero, lex_farComment] at hplace
      cases hplace
      rfl
    · rw [List.getElem?_replicate, if_pos (List.getElem?_eq_some_iff.mp hsite).1]
  have hcomment := congrArg (·[index]?) hlocates.kinds
  have hplace : (reported "a".toList (farComment blanks).toList)[index]? =
      some (4 + blanks) := hindex
  simp only [List.getElem?_map, hcode, hplace, Option.map_some] at hcomment
  have hstate := state_farComment blanks
  obtain ⟨here, hhere, hin⟩ := Option.map_eq_some_iff.mp hstate
  rw [hhere, Option.map_some, hin] at hcomment
  exact absurd (Option.some.inj (Option.some.inj hcomment)) (by decide)

end Far

theorem sites_not_located : ¬∃ sites,
    wordBoundedMatches (farComment (2 ^ 32 - 4)) "a" = some sites ∧
      LocatesSites (farComment (2 ^ 32 - 4)) "a" sites :=
  far_comment_taken_for_code (by norm_num)

end Ktsense.Cli
