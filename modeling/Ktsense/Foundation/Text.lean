import Mathlib

/-!
# Text and bytes

What the source takes from the Rust standard library on strings and byte
slices: UTF-8, searching a slice, splitting, trimming, and reading decimal
numbers.  Text is a list of characters once it is taken apart.
-/

namespace Ktsense.Foundation

/-! ## UTF-8 -/

/-- The bytes of a string. -/
def utf8 (text : String) : List UInt8 :=
  text.toList.flatMap String.utf8EncodeChar

/-- `std::str::from_utf8`. -/
def fromUtf8 (bytes : List UInt8) : Option String :=
  String.fromUTF8? bytes.toByteArray

theorem utf8_append (left right : String) :
    utf8 (left ++ right) = utf8 left ++ utf8 right := by
  rw [utf8, String.toList_append, List.flatMap_append]
  rfl

theorem toByteArray_utf8 (text : String) :
    (utf8 text).toByteArray = text.toByteArray := by
  rw [← String.utf8Encode_toList]
  rfl

@[simp]
theorem fromUtf8_utf8 (text : String) : fromUtf8 (utf8 text) = some text := by
  rw [fromUtf8, toByteArray_utf8, String.fromUTF8?, dif_pos text.isValidUTF8]
  rfl

/-! ## Part of a text -/

/-- The characters of a text stand in another in their order. -/
def PartOf (part whole : String) : Prop := List.Sublist part.toList whole.toList

namespace PartOf

variable {part other whole rest : String}

theorem refl (text : String) : PartOf text text := List.Sublist.refl _

theorem empty (text : String) : PartOf "" text := List.nil_sublist _

theorem trans (hpart : PartOf part other) (hother : PartOf other whole) :
    PartOf part whole := List.Sublist.trans hpart hother

theorem append (hpart : PartOf part whole) (hother : PartOf other rest) :
    PartOf (part ++ other) (whole ++ rest) := by
  rw [PartOf, String.toList_append, String.toList_append]
  exact List.Sublist.append hpart hother

theorem before (hpart : PartOf part whole) (rest : String) :
    PartOf part (whole ++ rest) := by
  rw [PartOf, String.toList_append]
  exact List.Sublist.trans hpart (List.sublist_append_left _ _)

theorem after (hpart : PartOf part whole) (rest : String) :
    PartOf part (rest ++ whole) := by
  rw [PartOf, String.toList_append]
  exact List.Sublist.trans hpart (List.sublist_append_right _ _)

theorem join_map {T : Type*} {small large : T → String}
    (hitem : ∀ item, PartOf (small item) (large item)) (items : List T) :
    PartOf (String.join (items.map small)) (String.join (items.map large)) := by
  induction items with
  | nil => exact refl _
  | cons item items ih =>
      rw [List.map_cons, List.map_cons, String.join_cons, String.join_cons]
      exact append (hitem item) ih

end PartOf

theorem piece_within_intercalate (separator : String) {piece : String}
    {pieces : List String} (hpiece : piece ∈ pieces) :
    piece.toList <:+: (separator.intercalate pieces).toList := by
  induction pieces with
  | nil => simp at hpiece
  | cons first rest ih =>
      cases rest with
      | nil =>
          rw [List.mem_singleton] at hpiece
          rw [hpiece, String.intercalate_singleton]
      | cons next rest =>
          rw [String.intercalate_cons_cons, String.toList_append, String.toList_append]
          rcases List.mem_cons.mp hpiece with rfl | hrest
          · rw [List.append_assoc]
            exact (List.prefix_append _ _).isInfix
          · exact (ih hrest).trans (List.suffix_append _ _).isInfix

/-! ## Searching a slice -/

section Slices

variable {A : Type*} [DecidableEq A]

/-- Where `needle` first starts in a slice. -/
def findSubslice (needle : List A) : List A → Option ℕ
  | [] => if needle = [] then some 0 else none
  | first :: rest =>
      if needle.isPrefixOf (first :: rest) then some 0
      else (findSubslice needle rest).map (· + 1)

/-- `str::split` at a nonempty separator.  `skip` counts what is left of a
separator already found. -/
def splitAt (separator : List A) : ℕ → List A → List A → List (List A)
  | _, piece, [] => [piece]
  | skip + 1, piece, _ :: rest => splitAt separator skip piece rest
  | 0, piece, first :: rest =>
      if separator.isPrefixOf (first :: rest) then
        piece :: splitAt separator (separator.length - 1) [] rest
      else splitAt separator 0 (piece ++ [first]) rest

def split (separator text : List A) : List (List A) :=
  splitAt separator 0 [] text

/-- `str::split_once` at one character. -/
def splitOnce (separator : A) : List A → Option (List A × List A)
  | [] => none
  | first :: rest =>
      if first = separator then some ([], rest)
      else (splitOnce separator rest).map fun (before, after) =>
        (first :: before, after)

theorem not_isPrefixOf_of_ne {marker first : A} {needle rest : List A}
    (hne : first ≠ marker) :
    (marker :: needle).isPrefixOf (first :: rest) = false := by
  simp [List.isPrefixOf, hne.symm]

/-- A needle is not found where its first element does not occur. -/
theorem findSubslice_append {marker : A} {head : List A} (hmarker : marker ∉ head)
    (needle tail : List A) :
    findSubslice (marker :: needle) (head ++ tail) =
      (findSubslice (marker :: needle) tail).map (· + head.length) := by
  induction head with
  | nil => simp
  | cons first head ih =>
      have hne : first ≠ marker := fun heq => hmarker (by simp [heq])
      have hrest : marker ∉ head := fun hmem => hmarker (by simp [hmem])
      rw [List.cons_append, findSubslice, not_isPrefixOf_of_ne hne, ih hrest]
      simp [Function.comp_def, Nat.add_assoc]

theorem findSubslice_of_isPrefix {needle slice : List A}
    (hinitial : needle <+: slice) : findSubslice needle slice = some 0 := by
  cases slice with
  | nil => simp [findSubslice, List.prefix_nil.1 hinitial]
  | cons first rest => simp [findSubslice, List.isPrefixOf_iff_prefix.2 hinitial]

/-- A slice shorter than the needle does not contain it. -/
theorem findSubslice_of_length_lt {needle slice : List A}
    (hlength : slice.length < needle.length) : findSubslice needle slice = none := by
  induction slice with
  | nil =>
      have hne : needle ≠ [] := by
        rintro rfl
        simp at hlength
      simp [findSubslice, hne]
  | cons first rest ih =>
      have hnot : needle.isPrefixOf (first :: rest) = false := by
        rw [Bool.eq_false_iff, ne_eq, List.isPrefixOf_iff_prefix]
        intro hinitial
        exact absurd hinitial.length_le (by omega)
      have hrest : rest.length < needle.length := by
        simp only [List.length_cons] at hlength
        omega
      simp [findSubslice, hnot, ih hrest]

/-- What is found lies within the slice. -/
theorem findSubslice_add_le {needle slice : List A} {start : ℕ}
    (hfound : findSubslice needle slice = some start) :
    start + needle.length ≤ slice.length := by
  induction slice generalizing start with
  | nil =>
      by_cases hneedle : needle = []
      · simp only [findSubslice, hneedle, if_true, Option.some.injEq] at hfound
        simp [hneedle, ← hfound]
      · simp [findSubslice, hneedle] at hfound
  | cons first rest ih =>
      by_cases hinitial : needle.isPrefixOf (first :: rest) = true
      · simp only [findSubslice, hinitial, if_true, Option.some.injEq] at hfound
        have hlength := (List.isPrefixOf_iff_prefix.1 hinitial).length_le
        omega
      · simp only [findSubslice, hinitial, if_false, Option.map_eq_some_iff,
          Bool.false_eq_true] at hfound
        obtain ⟨later, hlater, rfl⟩ := hfound
        have hlength := ih hlater
        rw [List.length_cons]
        omega

/-- What is found in a slice is found first when more follows. -/
theorem findSubslice_append_of_some {needle slice : List A} {start : ℕ}
    (hfound : findSubslice needle slice = some start) (more : List A) :
    findSubslice needle (slice ++ more) = some start := by
  induction slice generalizing start with
  | nil =>
      by_cases hneedle : needle = []
      · rw [findSubslice, if_pos hneedle] at hfound
        rw [← hfound, hneedle]
        exact findSubslice_of_isPrefix (List.nil_prefix)
      · simp [findSubslice, hneedle] at hfound
  | cons first rest ih =>
      by_cases hinitial : needle.isPrefixOf (first :: rest) = true
      · rw [findSubslice, if_pos hinitial] at hfound
        rw [← hfound]
        exact findSubslice_of_isPrefix ((List.isPrefixOf_iff_prefix.1 hinitial).trans
          (List.prefix_append _ _))
      · have hlength := findSubslice_add_le hfound
        simp only [findSubslice, hinitial, if_false, Option.map_eq_some_iff,
          Bool.false_eq_true] at hfound
        obtain ⟨later, hlater, rfl⟩ := hfound
        have hnot : ¬needle.isPrefixOf (first :: (rest ++ more)) = true := by
          rw [List.isPrefixOf_iff_prefix]
          intro hlonger
          apply hinitial
          rw [List.isPrefixOf_iff_prefix]
          exact List.prefix_of_prefix_length_le hlonger
            (List.prefix_append (first :: rest) more) (by omega)
        rw [List.cons_append, findSubslice, if_neg hnot, ih hlater, Option.map_some]

/-- What is found before the end of a part is found in the part. -/
theorem findSubslice_of_append {needle slice more : List A} {start : ℕ}
    (hfound : findSubslice needle (slice ++ more) = some start)
    (hwithin : start + needle.length ≤ slice.length) :
    findSubslice needle slice = some start := by
  induction slice generalizing start with
  | nil =>
      have hneedle : needle = [] := by
        apply List.eq_nil_of_length_eq_zero
        simp only [List.length_nil] at hwithin
        omega
      have hstart : start = 0 := by
        simp only [List.length_nil] at hwithin
        omega
      rw [findSubslice, if_pos hneedle, hstart]
  | cons first rest ih =>
      rw [List.cons_append, findSubslice] at hfound
      by_cases hinitial : needle.isPrefixOf (first :: (rest ++ more)) = true
      · rw [if_pos hinitial, Option.some.injEq] at hfound
        rw [← hfound]
        refine findSubslice_of_isPrefix (List.prefix_of_prefix_length_le
          (List.isPrefixOf_iff_prefix.1 hinitial)
          (List.prefix_append (first :: rest) more) (by omega))
      · rw [if_neg hinitial, Option.map_eq_some_iff] at hfound
        obtain ⟨later, hlater, rfl⟩ := hfound
        have hnot : ¬needle.isPrefixOf (first :: rest) = true := by
          rw [List.isPrefixOf_iff_prefix] at hinitial ⊢
          exact fun hlonger =>
            hinitial (hlonger.trans (List.prefix_append (first :: rest) more))
        rw [findSubslice, if_neg hnot, ih hlater (by
          rw [List.length_cons] at hwithin
          omega), Option.map_some]

theorem splitAt_of_not_mem {marker : A} {text : List A} (hmarker : marker ∉ text)
    (separator piece : List A) :
    splitAt (marker :: separator) 0 piece text = [piece ++ text] := by
  induction text generalizing piece with
  | nil => simp [splitAt]
  | cons first text ih =>
      have hne : first ≠ marker := fun heq => hmarker (by simp [heq])
      have hrest : marker ∉ text := fun hmem => hmarker (by simp [hmem])
      simp [splitAt, not_isPrefixOf_of_ne hne, ih hrest]

/-- Text without the separator's first character is one piece. -/
theorem split_of_not_mem {marker : A} {text : List A} (hmarker : marker ∉ text)
    (separator : List A) : split (marker :: separator) text = [text] :=
  splitAt_of_not_mem hmarker separator []

theorem splitOnce_append {separator : A} {before : List A}
    (hbefore : separator ∉ before) (after : List A) :
    splitOnce separator (before ++ separator :: after) = some (before, after) := by
  induction before with
  | nil => simp [splitOnce]
  | cons first before ih =>
      have hne : first ≠ separator := fun heq => hbefore (by simp [heq])
      have hrest : separator ∉ before := fun hmem => hbefore (by simp [hmem])
      simp [splitOnce, hne, ih hrest]

end Slices

/-! ## Characters -/

/-- `char::is_whitespace`: the Unicode property `White_Space`. -/
def isWhitespace (letter : Char) : Bool :=
  let code := letter.toNat
  (9 ≤ code && code ≤ 13) || code == 0x20 || code == 0x85 || code == 0xA0 ||
    code == 0x1680 || (0x2000 ≤ code && code ≤ 0x200A) || code == 0x2028 ||
    code == 0x2029 || code == 0x202F || code == 0x205F || code == 0x3000

/-- `str::trim`. -/
def trim (text : List Char) : List Char :=
  ((text.dropWhile isWhitespace).reverse.dropWhile isWhitespace).reverse

/-- `char::to_ascii_lowercase`. -/
def toAsciiLowercase (letter : Char) : Char :=
  if 'A' ≤ letter ∧ letter ≤ 'Z' then Char.ofNat (letter.toNat + 32) else letter

/-- `str::eq_ignore_ascii_case`. -/
def eqIgnoreAsciiCase (left right : List Char) : Bool :=
  left.map toAsciiLowercase == right.map toAsciiLowercase

/-- Trimming keeps text that neither starts nor ends in white space. -/
theorem trim_of_forall {text : List Char}
    (hletters : ∀ letter ∈ text, isWhitespace letter = false) :
    trim text = text := by
  have hdrop : ∀ {letters : List Char},
      (∀ letter ∈ letters, isWhitespace letter = false) →
        letters.dropWhile isWhitespace = letters := by
    intro letters hall
    cases letters with
    | nil => rfl
    | cons first rest => simp [hall first List.mem_cons_self]
  rw [trim, hdrop hletters, hdrop (by simpa using hletters), List.reverse_reverse]

theorem trim_cons_of_isWhitespace {letter : Char} {text : List Char}
    (hletter : isWhitespace letter = true) : trim (letter :: text) = trim text := by
  rw [trim, List.dropWhile_cons_of_pos hletter, trim]

/-! ## Decimal numbers -/

def stripPlus : List Char → List Char
  | '+' :: rest => rest
  | text => text

/-- Reading an unsigned number of at most `limit`, as `str::parse` does: one
leading plus sign is accepted, an empty text is not. -/
def parseUnsigned (limit : ℕ) (text : List Char) : Option ℕ :=
  let digits := stripPlus text
  if digits ≠ [] ∧ digits.all Char.isDigit then
    let value := Nat.ofDigitChars 10 digits 0
    if value ≤ limit then some value else none
  else none

theorem isDigit_of_mem_toString {number : ℕ} {letter : Char}
    (hletter : letter ∈ (toString number).toList) : letter.isDigit = true := by
  rw [Nat.toString_eq_repr, Nat.toList_repr] at hletter
  exact Nat.isDigit_of_mem_toDigits (by decide) (by decide) hletter

def decimalDigits : List Char :=
  ['0', '1', '2', '3', '4', '5', '6', '7', '8', '9']

theorem mem_of_isDigit {letter : Char} (hdigit : letter.isDigit = true) :
    letter ∈ decimalDigits := by
  have hrange : 48 ≤ letter.toNat ∧ letter.toNat ≤ 57 := by
    simpa [Char.isDigit, UInt32.le_iff_toNat_le] using hdigit
  rw [← Char.ofNat_toNat letter]
  generalize letter.toNat = code at hrange
  obtain ⟨hlower, hupper⟩ := hrange
  interval_cases code <;> decide

/-- What the ten digits satisfy holds of every character of a printed number. -/
theorem of_mem_toString {holds : Char → Bool}
    (hten : decimalDigits.all holds = true) {number : ℕ} {letter : Char}
    (hletter : letter ∈ (toString number).toList) : holds letter = true :=
  List.all_eq_true.1 hten letter
    (mem_of_isDigit (isDigit_of_mem_toString hletter))

theorem stripPlus_of_digits {text : List Char}
    (hdigits : ∀ letter ∈ text, letter.isDigit = true) : stripPlus text = text := by
  rw [stripPlus.eq_def]
  split
  · exact absurd (hdigits '+' List.mem_cons_self) (by decide)
  · rfl

/-- Printing a number and reading it back. -/
theorem parseUnsigned_toString {limit number : ℕ} (hnumber : number ≤ limit) :
    parseUnsigned limit (toString number).toList = some number := by
  have hdigits : ∀ letter ∈ (toString number).toList, letter.isDigit = true :=
    fun letter hletter => isDigit_of_mem_toString hletter
  have hlist : (toString number).toList = Nat.toDigits 10 number := by
    rw [Nat.toString_eq_repr, Nat.toList_repr]
  have hnonempty : (toString number).toList ≠ [] := by
    rw [hlist]
    exact Nat.toDigits_ne_nil
  rw [parseUnsigned, stripPlus_of_digits hdigits,
    if_pos ⟨hnonempty, List.all_eq_true.2 hdigits⟩, hlist,
    Nat.ofDigitChars_ten_toDigits, if_pos hnumber]

/-! ## Selecting from a list -/

theorem filterMap_length_le {A B : Type*} {small large : A → Option B}
    (hfewer : ∀ item, small item = large item ∨ small item = none) (items : List A) :
    (items.filterMap small).length ≤ (items.filterMap large).length := by
  induction items with
  | nil => rfl
  | cons item rest ih =>
      rw [List.filterMap_cons, List.filterMap_cons]
      rcases hfewer item with heq | hnone
      · rw [heq]
        cases large item with
        | none => exact ih
        | some value => exact Nat.succ_le_succ ih
      · rw [hnone]
        cases large item with
        | none => exact ih
        | some value => exact ih.trans (Nat.le_succ _)

/-- Two selections of which one yields nothing where they differ agree on a list
only if they agree on every item. -/
theorem filterMap_eq_filterMap_iff {A B : Type*} {small large : A → Option B}
    (hfewer : ∀ item, small item = large item ∨ small item = none) {items : List A} :
    items.filterMap small = items.filterMap large ↔
      ∀ item ∈ items, small item = large item := by
  constructor
  · intro hall
    induction items with
    | nil => exact List.forall_mem_nil _
    | cons item rest ih =>
        have hshorter := filterMap_length_le hfewer rest
        have hitem : small item = large item := by
          rcases hfewer item with heq | hnone
          · exact heq
          · cases hlarge : large item with
            | none => exact hnone
            | some value =>
                rw [List.filterMap_cons_none hnone, List.filterMap_cons_some hlarge] at hall
                rw [hall, List.length_cons] at hshorter
                omega
        refine List.forall_mem_cons.mpr ⟨hitem, ih ?_⟩
        cases hlarge : large item with
        | none =>
            rwa [List.filterMap_cons_none (hitem.trans hlarge),
              List.filterMap_cons_none hlarge] at hall
        | some value =>
            rw [List.filterMap_cons_some (hitem.trans hlarge),
              List.filterMap_cons_some hlarge] at hall
            exact (List.cons.inj hall).2
  · intro hall
    exact List.filterMap_congr hall

/-- One item without a value leaves the whole list without one. -/
theorem mapM_eq_none {A B : Type*} {value : A → Option B} {items : List A} {item : A}
    (hmem : item ∈ items) (hnone : value item = none) : items.mapM value = none := by
  induction items with
  | nil => cases hmem
  | cons first rest ih =>
      rw [List.mapM_cons]
      rcases List.mem_cons.mp hmem with rfl | hrest
      · rw [hnone]
        rfl
      · rw [ih hrest]
        cases value first <;> rfl

/-- A filter that holds below a bound only. -/
theorem filter_range_of_lt {holds : ℕ → Bool} {bound length : ℕ} (hle : bound ≤ length)
    (hbelow : ∀ index, holds index → index < bound) :
    (List.range length).filter holds = (List.range bound).filter holds := by
  obtain ⟨more, rfl⟩ := Nat.exists_eq_add_of_le hle
  rw [List.range_add, List.filter_append, List.append_right_eq_self,
    List.filter_eq_nil_iff]
  intro index hindex hholds
  obtain ⟨above, -, rfl⟩ := List.mem_map.mp hindex
  exact absurd (hbelow _ hholds) (by omega)

/-- Some are left out and the others changed, unless neither happens to any. -/
theorem map_filter_eq_map_iff {A B : Type*} {keeps : A → Bool} {changed whole : A → B}
    (items : List A) :
    (items.filter keeps).map changed = items.map whole ↔
      ∀ item ∈ items, keeps item = true ∧ changed item = whole item := by
  constructor
  · intro hsame
    have hlength : (items.filter keeps).length = items.length := by
      have hlengths := congrArg List.length hsame
      rwa [List.length_map, List.length_map] at hlengths
    have hkept := List.filter_eq_self.mp (List.filter_sublist.eq_of_length hlength)
    rw [List.filter_eq_self.mpr hkept, List.map_inj_left] at hsame
    exact fun item hitem => ⟨hkept item hitem, hsame item hitem⟩
  · intro hall
    rw [List.filter_eq_self.mpr fun item hitem => (hall item hitem).1, List.map_inj_left]
    exact fun item hitem => (hall item hitem).2

end Ktsense.Foundation
