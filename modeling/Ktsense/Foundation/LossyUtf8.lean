import Ktsense.Foundation.Text

/-!
# Reading UTF-8 with replacement

`String::from_utf8_lossy`: characters are read as long as there are any, and the
longest beginning of a character that breaks off stands as one replacement character.
ASCII bytes are never part of another character or of a broken one, so a slice and the
text read from it hold equally many.
-/

namespace Ktsense.Foundation

def replacementCharacter : Char := Char.ofNat 0xFFFD

/-- The character that a slice begins with. -/
def decodeChar (bytes : List UInt8) : Option Char := bytes.toByteArray.utf8DecodeChar? 0

def isContinuation (byte : UInt8) : Bool := 0x80 ≤ byte && byte < 0xC0

/-- Whether a byte may follow the first byte of a character of three or four. -/
def mayFollow (first second : UInt8) : Bool :=
  if first = 0xE0 then 0xA0 ≤ second && second < 0xC0
  else if first = 0xED then 0x80 ≤ second && second < 0xA0
  else if 0xE1 ≤ first && first ≤ 0xEF then isContinuation second
  else if first = 0xF0 then 0x90 ≤ second && second < 0xC0
  else if 0xF1 ≤ first && first ≤ 0xF3 then isContinuation second
  else if first = 0xF4 then 0x80 ≤ second && second < 0x90
  else false

/-- Where a slice begins with no character, how many bytes are replaced together. -/
def brokenLength : List UInt8 → ℕ
  | first :: second :: rest =>
      if mayFollow first second then
        if 0xF0 ≤ first && rest.head?.any isContinuation then 3 else 2
      else 1
  | _ => 1

/-- The loop of `from_utf8_lossy`; the first argument counts the bytes that belong to
what was read last. -/
def lossyFrom : ℕ → List UInt8 → List Char
  | _, [] => []
  | skip + 1, _ :: rest => lossyFrom skip rest
  | 0, first :: rest =>
      match decodeChar (first :: rest) with
      | some letter => letter :: lossyFrom (letter.utf8Size - 1) rest
      | none =>
          replacementCharacter :: lossyFrom (brokenLength (first :: rest) - 1) rest

def fromUtf8Lossy (bytes : List UInt8) : String := String.ofList (lossyFrom 0 bytes)

/-! ## One character -/

theorem decodeChar_append (letter : Char) (rest : List UInt8) :
    decodeChar (String.utf8EncodeChar letter ++ rest) = some letter := by
  rw [decodeChar, List.toByteArray_append]
  exact ByteArray.utf8DecodeChar?_utf8EncodeChar_append

theorem eq_append_of_decodeChar {bytes : List UInt8} {letter : Char}
    (hdecode : decodeChar bytes = some letter) :
    ∃ rest, bytes = String.utf8EncodeChar letter ++ rest := by
  have hbytes := congrArg (fun array : ByteArray => array.data.toList)
    (ByteArray.eq_of_utf8DecodeChar?_eq_some hdecode)
  simp only [ByteArray.data_append, Array.toList_append, List.toList_data_toByteArray] at hbytes
  exact ⟨_, hbytes⟩

theorem utf8EncodeChar_of_ascii {letter : Char} (hascii : letter.toNat < 128) :
    String.utf8EncodeChar letter = [UInt8.ofNat letter.toNat] := by
  rw [String.utf8EncodeChar.eq_def]
  exact if_pos (Nat.le_of_lt_succ hascii)

theorem toNat_ofNat_byte (byte : UInt8) : (Char.ofNat byte.toNat).toNat = byte.toNat := by
  have hvalid : byte.toNat.isValidChar := Or.inl (by have := byte.toNat_lt; omega)
  rw [Char.ofNat, dif_pos hvalid]
  rfl

theorem utf8EncodeChar_ofNat {byte : UInt8} (hascii : byte.toNat < 128) :
    String.utf8EncodeChar (Char.ofNat byte.toNat) = [byte] := by
  have hcode := toNat_ofNat_byte byte
  rw [utf8EncodeChar_of_ascii (by omega), hcode, UInt8.ofNat_toNat]

theorem le_of_mem_utf8EncodeChar {letter : Char} (hwide : 128 ≤ letter.toNat) {byte : UInt8}
    (hbyte : byte ∈ String.utf8EncodeChar letter) : 0x80 ≤ byte := by
  have hlead : ∀ code, 128 ≤ code → code < 256 → 0x80 ≤ UInt8.ofNat code := by
    intro code hlow hhigh
    rw [UInt8.le_iff_toNat_le, UInt8.toNat_ofNat', Nat.mod_eq_of_lt hhigh]
    exact hlow
  rw [String.utf8EncodeChar.eq_def] at hbyte
  change 128 ≤ letter.val.toNat at hwide
  generalize letter.val.toNat = code at hbyte hwide
  dsimp only at hbyte
  rw [if_neg (by omega)] at hbyte
  split_ifs at hbyte <;> simp only [List.mem_cons, List.not_mem_nil, or_false] at hbyte
  · rcases hbyte with rfl | rfl <;> exact hlead _ (by omega) (by omega)
  · rcases hbyte with rfl | rfl | rfl <;> exact hlead _ (by omega) (by omega)
  · rcases hbyte with rfl | rfl | rfl | rfl <;> exact hlead _ (by omega) (by omega)

theorem utf8EncodeChar_eq_cons (letter : Char) :
    ∃ first rest, String.utf8EncodeChar letter = first :: rest ∧
      rest.length = letter.utf8Size - 1 := by
  have hlength := String.length_utf8EncodeChar letter
  cases hbytes : String.utf8EncodeChar letter with
  | nil =>
      rw [hbytes] at hlength
      exact absurd hlength.symm letter.utf8Size_pos.ne'
  | cons first rest =>
      rw [hbytes, List.length_cons] at hlength
      exact ⟨first, rest, rfl, by omega⟩

/-! ## A whole slice -/

theorem lossyFrom_skip (skip : ℕ) (bytes : List UInt8) :
    lossyFrom skip bytes = lossyFrom 0 (bytes.drop skip) := by
  induction bytes generalizing skip with
  | nil => simp [lossyFrom]
  | cons first rest ih =>
      cases skip with
      | zero => rfl
      | succ skip =>
          rw [lossyFrom, List.drop_succ_cons]
          exact ih skip

theorem lossyFrom_append (letter : Char) (rest : List UInt8) :
    lossyFrom 0 (String.utf8EncodeChar letter ++ rest) = letter :: lossyFrom 0 rest := by
  have hdecode := decodeChar_append letter rest
  obtain ⟨first, tail, hbytes, hlength⟩ := utf8EncodeChar_eq_cons letter
  rw [hbytes, List.cons_append] at hdecode ⊢
  rw [lossyFrom, hdecode]
  dsimp only
  rw [lossyFrom_skip, ← hlength, List.drop_left]

/-- What was encoded is read back. -/
theorem fromUtf8Lossy_utf8 (text : String) : fromUtf8Lossy (utf8 text) = text := by
  have hletters : ∀ letters : List Char,
      lossyFrom 0 (letters.flatMap String.utf8EncodeChar) = letters := by
    intro letters
    induction letters with
    | nil => rfl
    | cons letter rest ih => rw [List.flatMap_cons, lossyFrom_append, ih]
  rw [fromUtf8Lossy, utf8, hletters, String.ofList_toList]

theorem mayFollow_le {first second : UInt8} (hfollows : mayFollow first second = true) :
    0x80 ≤ second := by
  rw [mayFollow] at hfollows
  split_ifs at hfollows <;>
    simp only [isContinuation, Bool.and_eq_true, decide_eq_true_eq, UInt8.le_iff_toNat_le]
      at hfollows ⊢ <;>
    exact le_trans (by decide) hfollows.1

theorem brokenLength_pos (bytes : List UInt8) : 0 < brokenLength bytes := by
  fun_cases brokenLength bytes <;> omega

/-- An ASCII byte is a character. -/
theorem decodeChar_of_ascii {first : UInt8} (hascii : first.toNat < 128) (rest : List UInt8) :
    (decodeChar (first :: rest)).isSome := by
  have hdecode := decodeChar_append (Char.ofNat first.toNat) rest
  rw [utf8EncodeChar_ofNat hascii, List.singleton_append] at hdecode
  rw [hdecode]
  rfl

/-- What is replaced together holds no ASCII byte. -/
theorem le_of_mem_broken {bytes : List UInt8} (hdecode : decodeChar bytes = none)
    {byte : UInt8} (hbyte : byte ∈ bytes.take (brokenLength bytes)) : 0x80 ≤ byte := by
  cases bytes with
  | nil => simp at hbyte
  | cons first rest =>
      have hfirst : 0x80 ≤ first := by
        by_contra hlow
        rw [UInt8.le_iff_toNat_le] at hlow
        have hsome := decodeChar_of_ascii (Nat.lt_of_not_le hlow) rest
        rw [hdecode] at hsome
        cases hsome
      cases rest with
      | nil =>
          rw [List.mem_singleton.mp (List.mem_of_mem_take hbyte)]
          exact hfirst
      | cons second rest =>
          rw [brokenLength] at hbyte
          split_ifs at hbyte with hfollows hthird
          · rw [Bool.and_eq_true] at hthird
            cases rest with
            | nil =>
                cases hthird.2
            | cons third rest =>
                have hcontinues : isContinuation third = true := hthird.2
                rw [isContinuation, Bool.and_eq_true, decide_eq_true_eq] at hcontinues
                simp only [List.take_succ_cons, List.take_zero, List.mem_cons,
                  List.not_mem_nil, or_false] at hbyte
                rcases hbyte with rfl | rfl | rfl
                · exact hfirst
                · exact mayFollow_le hfollows
                · exact hcontinues.1
          · simp only [List.take_succ_cons, List.take_zero, List.mem_cons, List.not_mem_nil,
              or_false] at hbyte
            rcases hbyte with rfl | rfl
            · exact hfirst
            · exact mayFollow_le hfollows
          · simp only [List.take_succ_cons, List.take_zero, List.mem_cons, List.not_mem_nil,
              or_false] at hbyte
            rw [hbyte]
            exact hfirst

theorem lossyFrom_broken {bytes : List UInt8} (hne : bytes ≠ [])
    (hdecode : decodeChar bytes = none) :
    lossyFrom 0 bytes =
      replacementCharacter :: lossyFrom 0 (bytes.drop (brokenLength bytes)) := by
  cases bytes with
  | nil => exact absurd rfl hne
  | cons first rest =>
      obtain ⟨length, hlength⟩ := Nat.exists_eq_succ_of_ne_zero
        (brokenLength_pos (first :: rest)).ne'
      rw [lossyFrom, hdecode]
      dsimp only
      rw [lossyFrom_skip, hlength, List.drop_succ_cons, Nat.succ_sub_one]

/-- What is read of a slice follows its characters and what breaks off between them. -/
theorem lossyFrom_induction {motive : List UInt8 → Prop} (nil : motive [])
    (read : ∀ letter rest, motive rest → motive (String.utf8EncodeChar letter ++ rest))
    (broken : ∀ bytes, bytes ≠ [] → decodeChar bytes = none →
      motive (bytes.drop (brokenLength bytes)) → motive bytes)
    (bytes : List UInt8) : motive bytes := by
  induction hlength : bytes.length using Nat.strong_induction_on generalizing bytes with
  | _ length ih =>
  subst hlength
  by_cases hne : bytes = []
  · rw [hne]
    exact nil
  cases hdecode : decodeChar bytes with
  | some letter =>
      obtain ⟨rest, rfl⟩ := eq_append_of_decodeChar hdecode
      have hsize := letter.utf8Size_pos
      refine read letter rest (ih rest.length ?_ rest rfl)
      rw [List.length_append, String.length_utf8EncodeChar]
      omega
  | none =>
      have hpositive := brokenLength_pos bytes
      have hlength := List.length_pos_iff.mpr hne
      refine broken bytes hne hdecode (ih _ ?_ _ rfl)
      rw [List.length_drop]
      omega

theorem lossyFrom_ne_nil {bytes : List UInt8} (hne : bytes ≠ []) : lossyFrom 0 bytes ≠ [] := by
  induction bytes using lossyFrom_induction with
  | nil => exact absurd rfl hne
  | read letter rest _ =>
      rw [lossyFrom_append]
      exact List.cons_ne_nil _ _
  | broken bytes _ hdecode _ =>
      rw [lossyFrom_broken hne hdecode]
      exact List.cons_ne_nil _ _

/-! ## ASCII -/

def asciiBytes (bytes : List UInt8) : ℕ := bytes.countP (· < 0x80)

def asciiLetters (letters : List Char) : ℕ := letters.countP (·.toNat < 128)

theorem asciiBytes_utf8EncodeChar (letter : Char) :
    asciiBytes (String.utf8EncodeChar letter) = asciiLetters [letter] := by
  by_cases hascii : letter.toNat < 128
  · have hbyte : UInt8.ofNat letter.toNat < 0x80 := by
      rw [UInt8.lt_iff_toNat_lt, UInt8.toNat_ofNat', Nat.mod_eq_of_lt (by omega)]
      exact hascii
    rw [utf8EncodeChar_of_ascii hascii, asciiBytes, asciiLetters, List.countP_singleton,
      List.countP_singleton, if_pos (decide_eq_true hbyte), if_pos (decide_eq_true hascii)]
  · have hbytes : asciiBytes (String.utf8EncodeChar letter) = 0 := by
      rw [asciiBytes, List.countP_eq_zero]
      intro byte hbyte
      rw [decide_eq_true_eq]
      exact UInt8.not_lt.mpr (le_of_mem_utf8EncodeChar (not_lt.mp hascii) hbyte)
    rw [hbytes, asciiLetters, List.countP_singleton, if_neg (by simpa using hascii)]

/-- Of ASCII characters, as many are read as there are bytes of them. -/
theorem asciiLetters_lossyFrom (bytes : List UInt8) :
    asciiLetters (lossyFrom 0 bytes) = asciiBytes bytes := by
  induction bytes using lossyFrom_induction with
  | nil => rfl
  | read letter rest ih =>
      have hletter := asciiBytes_utf8EncodeChar letter
      rw [lossyFrom_append, ← List.singleton_append, asciiLetters, List.countP_append,
        asciiBytes, List.countP_append]
      exact congrArg₂ _ hletter.symm ih
  | broken bytes hne hdecode ih =>
      have hbroken : asciiBytes (bytes.take (brokenLength bytes)) = 0 := by
        rw [asciiBytes, List.countP_eq_zero]
        intro byte hbyte
        rw [decide_eq_true_eq]
        exact UInt8.not_lt.mpr (le_of_mem_broken hdecode hbyte)
      have hparts : asciiBytes bytes = asciiBytes (bytes.take (brokenLength bytes)) +
          asciiBytes (bytes.drop (brokenLength bytes)) := by
        rw [asciiBytes, asciiBytes, asciiBytes, ← List.countP_append, List.take_append_drop]
      rw [lossyFrom_broken hne hdecode, ← List.singleton_append, asciiLetters,
        List.countP_append, hparts, hbroken]
      exact congrArg₂ _ rfl ih

theorem asciiLetters_fromUtf8Lossy (bytes : List UInt8) :
    asciiLetters (fromUtf8Lossy bytes).toList = asciiBytes bytes := by
  rw [fromUtf8Lossy, String.toList_ofList, asciiLetters_lossyFrom]

/-- An ASCII character that is read stands in the slice. -/
theorem mem_of_mem_lossyFrom {letter : Char} (hascii : letter.toNat < 128)
    {bytes : List UInt8} (hmem : letter ∈ lossyFrom 0 bytes) :
    UInt8.ofNat letter.toNat ∈ bytes := by
  induction bytes using lossyFrom_induction with
  | nil => cases hmem
  | read other rest ih =>
      rw [lossyFrom_append, List.mem_cons] at hmem
      rw [List.mem_append]
      rcases hmem with rfl | hmem
      · rw [utf8EncodeChar_of_ascii hascii]
        exact .inl (.head _)
      · exact .inr (ih hmem)
  | broken bytes hne hdecode ih =>
      rw [lossyFrom_broken hne hdecode, List.mem_cons] at hmem
      rcases hmem with rfl | hmem
      · exact absurd hascii (by decide)
      · exact List.mem_of_mem_drop (ih hmem)

/-- What is read begins with an ASCII character exactly when the slice does. -/
theorem head?_lossyFrom {letter : Char} (hascii : letter.toNat < 128) (bytes : List UInt8) :
    (lossyFrom 0 bytes).head? = some letter ↔
      bytes.head? = some (UInt8.ofNat letter.toNat) := by
  induction bytes using lossyFrom_induction with
  | nil => simp [lossyFrom]
  | read other rest ih =>
      rw [lossyFrom_append, List.head?_cons, Option.some_inj]
      by_cases hother : other.toNat < 128
      · rw [utf8EncodeChar_of_ascii hother, List.singleton_append, List.head?_cons,
          Option.some_inj, ← UInt8.toNat_inj, UInt8.toNat_ofNat', UInt8.toNat_ofNat',
          Nat.mod_eq_of_lt (by omega), Nat.mod_eq_of_lt (by omega)]
        exact Char.toNat_inj.symm
      · have hlead : ∀ byte ∈ (String.utf8EncodeChar other).head?, 0x80 ≤ byte := fun byte hbyte =>
          le_of_mem_utf8EncodeChar (not_lt.mp hother) (List.mem_of_mem_head? hbyte)
        obtain ⟨first, tail, hbytes, -⟩ := utf8EncodeChar_eq_cons other
        rw [hbytes] at hlead ⊢
        refine iff_of_false (fun heq => hother (heq ▸ hascii)) fun hhead => ?_
        rw [List.cons_append, List.head?_cons, Option.some_inj] at hhead
        have hhigh := hlead first rfl
        rw [hhead, UInt8.le_iff_toNat_le, UInt8.toNat_ofNat', Nat.mod_eq_of_lt (by omega)] at hhigh
        exact absurd hascii (not_lt.mpr hhigh)
  | broken bytes hne hdecode _ =>
      obtain ⟨first, rest, rfl⟩ := List.exists_cons_of_ne_nil hne
      rw [lossyFrom_broken hne hdecode, List.head?_cons, List.head?_cons]
      refine iff_of_false (fun heq => ?_) fun hhead => ?_
      · rw [← Option.some_inj.mp heq] at hascii
        exact absurd hascii (by decide)
      · have hfirst : first.toNat < 128 := by
          rw [Option.some_inj.mp hhead, UInt8.toNat_ofNat', Nat.mod_eq_of_lt (by omega)]
          exact hascii
        have hsome := decodeChar_of_ascii hfirst rest
        rw [hdecode] at hsome
        cases hsome

/-! ## Slices that are UTF-8 and slices that are not -/

theorem utf8_of_fromUtf8 {bytes : List UInt8} {text : String}
    (htext : fromUtf8 bytes = some text) : utf8 text = bytes := by
  rw [fromUtf8, String.fromUTF8?] at htext
  split_ifs at htext with hvalid
  have hbytes : text.toByteArray = bytes.toByteArray := by
    rw [← Option.some.inj htext]
    rfl
  rw [← toByteArray_utf8] at hbytes
  exact List.toByteArray_inj.mp hbytes

/-- Nothing is replaced in a slice that is UTF-8. -/
theorem fromUtf8Lossy_of_fromUtf8 {bytes : List UInt8} {text : String}
    (htext : fromUtf8 bytes = some text) : fromUtf8Lossy bytes = text := by
  rw [← utf8_of_fromUtf8 htext, fromUtf8Lossy_utf8]

theorem utf8_ofList (letters : List Char) :
    utf8 (String.ofList letters) = letters.flatMap String.utf8EncodeChar := by
  rw [utf8, String.toList_ofList]

/-- Something is replaced in a slice that is not. -/
theorem mem_fromUtf8Lossy {bytes : List UInt8} (hnone : fromUtf8 bytes = none) :
    replacementCharacter ∈ (fromUtf8Lossy bytes).toList := by
  rw [fromUtf8Lossy, String.toList_ofList]
  by_contra hkept
  have hread : ∃ letters : List Char, letters.flatMap String.utf8EncodeChar = bytes := by
    clear hnone
    induction bytes using lossyFrom_induction with
    | nil => exact ⟨[], rfl⟩
    | read letter rest ih =>
        rw [lossyFrom_append, List.mem_cons, not_or] at hkept
        obtain ⟨letters, rfl⟩ := ih hkept.2
        exact ⟨letter :: letters, List.flatMap_cons⟩
    | broken bytes hne hdecode _ =>
        rw [lossyFrom_broken hne hdecode] at hkept
        exact absurd (.head _) hkept
  obtain ⟨letters, rfl⟩ := hread
  rw [← utf8_ofList, fromUtf8_utf8] at hnone
  cases hnone

end Ktsense.Foundation
