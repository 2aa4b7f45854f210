import Ktsense.Foundation.LossyUtf8

/-!
# Byte offsets in a text

Strings are cut at byte offsets.  An offset inside a character, or behind the end, cuts
nothing: the standard library panics there.
-/

namespace Ktsense.Foundation

/-- The bytes that characters take. -/
def utf8Length (letters : List Char) : ℕ := (letters.map Char.utf8Size).sum

/-- The bytes of characters. -/
def utf8Bytes (letters : List Char) : List UInt8 := letters.flatMap String.utf8EncodeChar

/-- `str::split_at`. -/
def splitBytes : ℕ → List Char → Option (List Char × List Char)
  | 0, text => some ([], text)
  | _ + 1, [] => none
  | offset + 1, letter :: rest =>
      if letter.utf8Size ≤ offset + 1 then
        (splitBytes (offset + 1 - letter.utf8Size) rest).map fun (before, behind) =>
          (letter :: before, behind)
      else none

/-- `str::find`. -/
def findBytes (word : List Char) : List Char → Option ℕ
  | [] => if word = [] then some 0 else none
  | letter :: rest =>
      if word.isPrefixOf (letter :: rest) then some 0
      else (findBytes word rest).map (· + letter.utf8Size)

@[simp]
theorem utf8Length_nil : utf8Length [] = 0 := rfl

@[simp]
theorem utf8Length_cons (letter : Char) (rest : List Char) :
    utf8Length (letter :: rest) = letter.utf8Size + utf8Length rest := rfl

@[simp]
theorem utf8Length_append (left right : List Char) :
    utf8Length (left ++ right) = utf8Length left + utf8Length right := by
  rw [utf8Length, List.map_append, List.sum_append]
  rfl

theorem utf8Length_eq_zero {letters : List Char} : utf8Length letters = 0 ↔ letters = [] := by
  cases letters with
  | nil => simp
  | cons letter rest =>
      have hsize := letter.utf8Size_pos
      rw [utf8Length_cons]
      exact iff_of_false (by omega) (List.cons_ne_nil letter rest)

theorem utf8Length_take_succ {text : List Char} {start : ℕ} (hstart : start < text.length) :
    utf8Length (text.take (start + 1)) =
      utf8Length (text.take start) + text[start].utf8Size := by
  rw [List.take_succ_eq_append_getElem hstart, utf8Length_append]
  rfl

@[simp]
theorem utf8Bytes_nil : utf8Bytes [] = [] := rfl

@[simp]
theorem utf8Bytes_append (left right : List Char) :
    utf8Bytes (left ++ right) = utf8Bytes left ++ utf8Bytes right := List.flatMap_append

@[simp]
theorem length_utf8Bytes (letters : List Char) :
    (utf8Bytes letters).length = utf8Length letters := by
  induction letters with
  | nil => rfl
  | cons letter rest ih =>
      rw [utf8Bytes, List.flatMap_cons, List.length_append, String.length_utf8EncodeChar,
        utf8Length_cons, ← ih]
      rfl

theorem utf8Bytes_ascii {letter : Char} (hascii : letter.toNat < 128) :
    utf8Bytes [letter] = [UInt8.ofNat letter.toNat] := by
  rw [utf8Bytes, List.flatMap_cons, utf8EncodeChar_of_ascii hascii]
  rfl

@[simp]
theorem splitBytes_zero (text : List Char) : splitBytes 0 text = some ([], text) := by
  cases text <;> rfl

theorem splitBytes_cons {letter : Char} {rest : List Char} {offset : ℕ}
    (hsize : letter.utf8Size ≤ offset) :
    splitBytes offset (letter :: rest) =
      (splitBytes (offset - letter.utf8Size) rest).map fun (before, behind) =>
        (letter :: before, behind) := by
  have hpositive := letter.utf8Size_pos
  obtain ⟨less, rfl⟩ := Nat.exists_eq_add_of_le' (Nat.le_trans hpositive hsize)
  rw [splitBytes, if_pos hsize]

/-- A cut between two characters. -/
theorem splitBytes_append (before behind : List Char) :
    splitBytes (utf8Length before) (before ++ behind) = some (before, behind) := by
  induction before with
  | nil => exact splitBytes_zero behind
  | cons letter rest ih =>
      rw [List.cons_append, utf8Length_cons, splitBytes_cons (Nat.le_add_right _ _),
        Nat.add_sub_cancel_left, ih]
      rfl

/-- No cut falls inside a character. -/
theorem splitBytes_inside (before rest : List Char) {letter : Char} {offset : ℕ}
    (hpositive : 0 < offset) (hinside : offset < letter.utf8Size) :
    splitBytes (utf8Length before + offset) (before ++ letter :: rest) = none := by
  induction before with
  | nil =>
      obtain ⟨less, rfl⟩ := Nat.exists_eq_add_of_le' hpositive
      rw [utf8Length_nil, Nat.zero_add, List.nil_append, splitBytes, if_neg (by omega)]
  | cons first before ih =>
      rw [List.cons_append, utf8Length_cons, Nat.add_assoc,
        splitBytes_cons (Nat.le_add_right _ _), Nat.add_sub_cancel_left, ih]
      rfl

theorem splitBytes_eq_some {offset : ℕ} {text before behind : List Char}
    (hcut : splitBytes offset text = some (before, behind)) :
    text = before ++ behind ∧ offset = utf8Length before := by
  induction text generalizing offset before with
  | nil =>
      cases offset with
      | zero =>
          cases hcut
          exact ⟨rfl, rfl⟩
      | succ offset => cases hcut
  | cons letter rest ih =>
      cases offset with
      | zero =>
          cases hcut
          exact ⟨rfl, rfl⟩
      | succ offset =>
          rw [splitBytes] at hcut
          split_ifs at hcut with hsize
          obtain ⟨⟨more, behind'⟩, hmore, heq⟩ := Option.map_eq_some_iff.mp hcut
          cases heq
          obtain ⟨hrest, hoffset⟩ := ih hmore
          refine ⟨congrArg (letter :: ·) hrest, ?_⟩
          rw [utf8Length_cons]
          omega

/-- The byte before a cut. -/
theorem getElem?_utf8Bytes_before (before behind : List Char) (hne : before ≠ []) :
    (utf8Bytes (before ++ behind))[utf8Length before - 1]? = (utf8Bytes before).getLast? := by
  have hpositive : utf8Length before ≠ 0 := fun hzero => hne (utf8Length_eq_zero.mp hzero)
  rw [utf8Bytes_append, List.getElem?_append_left (by rw [length_utf8Bytes]; omega),
    List.getLast?_eq_getElem?, length_utf8Bytes]

/-- The byte behind a cut. -/
theorem getElem?_utf8Bytes_behind (before behind : List Char) :
    (utf8Bytes (before ++ behind))[utf8Length before]? = (utf8Bytes behind).head? := by
  rw [utf8Bytes_append, List.getElem?_append_right (length_utf8Bytes before).le,
    length_utf8Bytes, Nat.sub_self, List.head?_eq_getElem?]

theorem utf8Bytes_ne_nil {letters : List Char} (hne : letters ≠ []) :
    utf8Bytes letters ≠ [] := by
  intro hnil
  rw [← List.length_eq_zero_iff, length_utf8Bytes] at hnil
  exact hne (utf8Length_eq_zero.mp hnil)

theorem findBytes_le {word text : List Char} {offset : ℕ}
    (hfound : findBytes word text = some offset) : offset ≤ utf8Length text := by
  induction text generalizing offset with
  | nil =>
      rw [findBytes] at hfound
      split_ifs at hfound
      cases hfound
      exact Nat.zero_le _
  | cons letter rest ih =>
      rw [findBytes] at hfound
      split_ifs at hfound
      · cases hfound
        exact Nat.zero_le _
      · obtain ⟨less, hless, rfl⟩ := Option.map_eq_some_iff.mp hfound
        have hle := ih hless
        rw [utf8Length_cons]
        omega

end Ktsense.Foundation
