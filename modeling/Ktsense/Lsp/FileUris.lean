import Ktsense.Foundation.LossyUtf8

/-!
# File URIs

`uri_to_path` of `requests.rs` and the percent-decoding under it.  The bytes of an
escape are read by the integer parser of the standard library, which takes one plus
sign before the digits; `decodedReference` is what an escape should be.
-/

namespace Ktsense.Lsp

open Ktsense.Foundation

/-! ## Reading an escape -/

/-- `char::to_digit` at sixteen. -/
def hexValue (letter : Char) : Option ℕ :=
  if '0' ≤ letter ∧ letter ≤ '9' then some (letter.toNat - 0x30)
  else if 'a' ≤ letter ∧ letter ≤ 'f' then some (letter.toNat - 0x57)
  else if 'A' ≤ letter ∧ letter ≤ 'F' then some (letter.toNat - 0x37)
  else none

def hexNumber (digits : List ℕ) : ℕ :=
  digits.foldl (fun value digit => 16 * value + digit) 0

/-- `u8::from_str_radix` at sixteen: one leading plus sign is accepted. -/
def byteFromHex (text : List Char) : Option UInt8 :=
  let digits := stripPlus text
  if digits = [] then none
  else
    (digits.mapM hexValue).bind fun values =>
      if hexNumber values < 256 then some (UInt8.ofNat (hexNumber values)) else none

def percentSign : UInt8 := 0x25

def plusSign : UInt8 := 0x2B

/-- The byte that the front of a slice is an escape of. -/
def escapedByte : List UInt8 → Option UInt8
  | first :: high :: low :: _ =>
      if first = percentSign then
        (fromUtf8 [high, low]).bind fun hex => byteFromHex hex.toList
      else none
  | _ => none

/-- The loop of `percent_decode`; the first argument counts the bytes left of an escape. -/
def percentDecodeFrom : ℕ → List UInt8 → List UInt8
  | _, [] => []
  | skip + 1, _ :: rest => percentDecodeFrom skip rest
  | 0, first :: rest =>
      match escapedByte (first :: rest) with
      | some byte => byte :: percentDecodeFrom 2 rest
      | none => first :: percentDecodeFrom 0 rest

def percentDecode (text : String) : String :=
  fromUtf8Lossy (percentDecodeFrom 0 (utf8 text))

def fileScheme : String := "file://"

/-- A path stands for itself as text. -/
def uriToPath (uri : String) : String :=
  if fileScheme.toList.isPrefixOf uri.toList then
    percentDecode (String.ofList (uri.toList.drop fileScheme.length))
  else uri

/-- The URI that positions are built with. -/
def fileUri (path : String) : String := fileScheme ++ path

/-! ## What an escape is -/

def hexDigit (byte : UInt8) : Option ℕ := hexValue (Char.ofNat byte.toNat)

/-- Left to right, a percent sign and two hexadecimal digits stand for a byte, and every
other byte for itself. -/
def decodedReference : List UInt8 → List UInt8
  | first :: high :: low :: rest =>
      match hexDigit high, hexDigit low with
      | some upper, some lower =>
          if first = percentSign then
            UInt8.ofNat (16 * upper + lower) :: decodedReference rest
          else first :: decodedReference (high :: low :: rest)
      | _, _ => first :: decodedReference (high :: low :: rest)
  | first :: rest => first :: decodedReference rest
  | [] => []

def referenceDecode (text : String) : String := fromUtf8Lossy (decodedReference (utf8 text))

/-- A percent sign stands before two bytes that are as required. -/
def EscapedWith (required : UInt8 → UInt8 → Prop) (bytes : List UInt8) : Prop :=
  ∃ front high low rest, bytes = front ++ percentSign :: high :: low :: rest ∧
    required high low

/-- A percent sign with two hexadecimal digits. -/
def HexEscaped : List UInt8 → Prop :=
  EscapedWith fun high low => (hexDigit high).isSome ∧ (hexDigit low).isSome

/-- A percent sign with a plus sign and a hexadecimal digit. -/
def PlusEscaped : List UInt8 → Prop :=
  EscapedWith fun high low => high = plusSign ∧ (hexDigit low).isSome

/-- Every byte stands for itself, unless it is a percent sign, or is escaped. -/
inductive PercentEncodes : List UInt8 → List UInt8 → Prop
  | nil : PercentEncodes [] []
  | kept {byte : UInt8} {bytes encoded : List UInt8} (hbyte : byte ≠ percentSign)
      (hrest : PercentEncodes bytes encoded) :
      PercentEncodes (byte :: bytes) (byte :: encoded)
  | escaped {byte high low : UInt8} {bytes encoded : List UInt8}
      (hhigh : hexDigit high = some (byte.toNat / 16))
      (hlow : hexDigit low = some (byte.toNat % 16))
      (hrest : PercentEncodes bytes encoded) :
      PercentEncodes (byte :: bytes) (percentSign :: high :: low :: encoded)

/-! ## The integer parser on two bytes -/

theorem hexValue_lt {letter : Char} {value : ℕ} (hvalue : hexValue letter = some value) :
    letter.toNat < 128 ∧ value < 16 := by
  have hrange : ∀ low high : Char, low ≤ letter ∧ letter ≤ high →
      low.toNat ≤ letter.toNat ∧ letter.toNat ≤ high.toNat := fun _ _ hletter => hletter
  rw [hexValue] at hvalue
  split_ifs at hvalue with hdigit hlower hupper
  · obtain ⟨hlow, hhigh⟩ := hrange _ _ hdigit
    have hcode : letter.toNat ≤ 57 := hhigh
    have hsum := Option.some.inj hvalue
    omega
  · obtain ⟨hlow, hhigh⟩ := hrange _ _ hlower
    have hcode : letter.toNat ≤ 102 := hhigh
    have hsum := Option.some.inj hvalue
    omega
  · obtain ⟨hlow, hhigh⟩ := hrange _ _ hupper
    have hcode : letter.toNat ≤ 70 := hhigh
    have hsum := Option.some.inj hvalue
    omega

theorem mapM_hexValue_of_wide {letters : List Char} {letter : Char}
    (hmem : letter ∈ letters) (hwide : 128 ≤ letter.toNat) :
    letters.mapM hexValue = none := by
  have hnone : hexValue letter = none := by
    by_contra hsome
    obtain ⟨value, hvalue⟩ := Option.ne_none_iff_exists'.mp hsome
    exact absurd (hexValue_lt hvalue).1 (not_lt.mpr hwide)
  exact mapM_eq_none hmem hnone

theorem hexDigit_lt {byte : UInt8} {value : ℕ} (hvalue : hexDigit byte = some value) :
    byte.toNat < 128 ∧ value < 16 := by
  have hbounds := hexValue_lt hvalue
  rwa [toNat_ofNat_byte] at hbounds

theorem fromUtf8_pair {high low : UInt8} (hhigh : high.toNat < 128) (hlow : low.toNat < 128) :
    fromUtf8 [high, low] =
      some (String.ofList [Char.ofNat high.toNat, Char.ofNat low.toNat]) := by
  have hbytes :
      utf8 (String.ofList [Char.ofNat high.toNat, Char.ofNat low.toNat]) = [high, low] := by
    rw [utf8, String.toList_ofList, List.flatMap_cons, List.flatMap_singleton,
      utf8EncodeChar_ofNat hhigh, utf8EncodeChar_ofNat hlow]
    rfl
  rw [← hbytes, fromUtf8_utf8]

theorem stripPlus_of_ne {letter : Char} (hplus : letter ≠ '+') (rest : List Char) :
    stripPlus (letter :: rest) = letter :: rest := by
  rw [stripPlus.eq_def]
  split
  · rename_i heq
    exact absurd (List.cons.inj heq).1 hplus
  · rfl

/-- Two digits are a byte. -/
theorem escapedByte_hex {high low : UInt8} {upper lower : ℕ}
    (hhigh : hexDigit high = some upper) (hlow : hexDigit low = some lower)
    (rest : List UInt8) :
    escapedByte (percentSign :: high :: low :: rest) =
      some (UInt8.ofNat (16 * upper + lower)) := by
  obtain ⟨hasciiHigh, hupper⟩ := hexDigit_lt hhigh
  obtain ⟨hasciiLow, hlower⟩ := hexDigit_lt hlow
  have hplus : Char.ofNat high.toNat ≠ '+' := by
    intro heq
    rw [hexDigit, heq] at hhigh
    cases hhigh
  have hdigits := stripPlus_of_ne hplus [Char.ofNat low.toNat]
  have hvalues : [Char.ofNat high.toNat, Char.ofNat low.toNat].mapM hexValue =
      some [upper, lower] := by
    rw [hexDigit] at hhigh hlow
    simp [hhigh, hlow]
  have hnumber : hexNumber [upper, lower] = 16 * upper + lower := by simp [hexNumber]
  rw [escapedByte, if_pos rfl, fromUtf8_pair hasciiHigh hasciiLow, Option.bind_some,
    String.toList_ofList, byteFromHex, hdigits, if_neg (List.cons_ne_nil _ _), hvalues,
    Option.bind_some, hnumber, if_pos (by omega)]

/-- So are a plus sign and one digit. -/
theorem escapedByte_plus {low : UInt8} {lower : ℕ} (hlow : hexDigit low = some lower)
    (rest : List UInt8) :
    escapedByte (percentSign :: plusSign :: low :: rest) = some (UInt8.ofNat lower) := by
  obtain ⟨hascii, hlower⟩ := hexDigit_lt hlow
  have hdigits : stripPlus [Char.ofNat plusSign.toNat, Char.ofNat low.toNat] =
      [Char.ofNat low.toNat] := rfl
  have hvalues : [Char.ofNat low.toNat].mapM hexValue = some [lower] := by
    rw [hexDigit] at hlow
    simp [hlow]
  have hnumber : hexNumber [lower] = lower := by simp [hexNumber]
  rw [escapedByte, if_pos rfl, fromUtf8_pair (by decide) hascii, Option.bind_some,
    String.toList_ofList, byteFromHex, hdigits, if_neg (List.cons_ne_nil _ _), hvalues,
    Option.bind_some, hnumber, if_pos (by omega)]

theorem byteFromHex_eq_some {letters : List Char} {byte : UInt8}
    (hbyte : byteFromHex letters = some byte) :
    ∃ values, (stripPlus letters).mapM hexValue = some values ∧
      byte = UInt8.ofNat (hexNumber values) := by
  rw [byteFromHex] at hbyte
  split_ifs at hbyte
  obtain ⟨values, hvalues, hvalue⟩ := Option.bind_eq_some_iff.mp hbyte
  split_ifs at hvalue
  exact ⟨values, hvalues, (Option.some.inj hvalue).symm⟩

theorem mem_stripPlus {letters : List Char} {letter : Char} (hmem : letter ∈ letters)
    (hplus : letter ≠ '+') : letter ∈ stripPlus letters := by
  rw [stripPlus.eq_def]
  split
  · exact List.mem_of_ne_of_mem hplus hmem
  · exact hmem

/-- The two bytes that are read as a number are ASCII. -/
theorem ascii_of_byteFromHex {bytes : List UInt8} {hex : String} {byte : UInt8}
    (hhex : fromUtf8 bytes = some hex) (hbyte : byteFromHex hex.toList = some byte) :
    ∀ read ∈ bytes, read.toNat < 128 := by
  obtain ⟨values, hvalues, -⟩ := byteFromHex_eq_some hbyte
  have hletters : ∀ letter ∈ hex.toList, letter.toNat < 128 := by
    intro letter hletter
    by_contra hwide
    have hplus : letter ≠ '+' := by
      rintro rfl
      exact hwide (by decide)
    rw [mapM_hexValue_of_wide (mem_stripPlus hletter hplus) (not_lt.mp hwide)] at hvalues
    cases hvalues
  intro read hread
  rw [← utf8_of_fromUtf8 hhex, utf8, List.mem_flatMap] at hread
  obtain ⟨letter, hletter, hread⟩ := hread
  have hascii := hletters letter hletter
  rw [utf8EncodeChar_of_ascii hascii, List.mem_singleton] at hread
  rw [hread, UInt8.toNat_ofNat', Nat.mod_eq_of_lt (by omega)]
  exact hascii

/-- Nothing else is an escape. -/
theorem escapedByte_cases {bytes : List UInt8} {byte : UInt8}
    (hescaped : escapedByte bytes = some byte) :
    ∃ high low rest lower, bytes = percentSign :: high :: low :: rest ∧
      hexDigit low = some lower ∧
      ((∃ upper, hexDigit high = some upper ∧ byte = UInt8.ofNat (16 * upper + lower)) ∨
        high = plusSign ∧ byte = UInt8.ofNat lower) := by
  rw [escapedByte.eq_def] at hescaped
  split at hescaped
  · rename_i first high low rest
    split_ifs at hescaped with hpercent
    obtain ⟨hex, hhex, hbyte⟩ := Option.bind_eq_some_iff.mp hescaped
    have hascii := ascii_of_byteFromHex hhex hbyte
    have hpair := fromUtf8_pair (hascii high (by simp)) (hascii low (by simp))
    rw [hpair, Option.some.injEq] at hhex
    rw [← hhex, String.toList_ofList] at hbyte
    obtain ⟨values, hvalues, rfl⟩ := byteFromHex_eq_some hbyte
    by_cases hplus : Char.ofNat high.toNat = '+'
    · have hhigh : high = plusSign := by
        have hcode := congrArg Char.toNat hplus
        rw [toNat_ofNat_byte] at hcode
        exact UInt8.toNat_inj.mp hcode
      have hdigits : stripPlus [Char.ofNat high.toNat, Char.ofNat low.toNat] =
          [Char.ofNat low.toNat] := by rw [hplus]; rfl
      rw [hdigits] at hvalues
      cases hlower : hexDigit low with
      | none =>
          rw [hexDigit] at hlower
          simp [hlower] at hvalues
      | some lower =>
          have hvalue : values = [lower] := by
            rw [hexDigit] at hlower
            simpa [hlower, eq_comm] using hvalues
          refine ⟨high, low, rest, lower, by rw [hpercent], hlower, .inr ⟨hhigh, ?_⟩⟩
          rw [hvalue]
          simp [hexNumber]
    · rw [stripPlus_of_ne hplus] at hvalues
      cases hupper : hexDigit high with
      | none =>
          rw [hexDigit] at hupper
          simp [hupper] at hvalues
      | some upper =>
          cases hlower : hexDigit low with
          | none =>
              rw [hexDigit] at hupper hlower
              simp [hupper, hlower] at hvalues
          | some lower =>
              have hvalue : values = [upper, lower] := by
                rw [hexDigit] at hupper hlower
                simpa [hupper, hlower, eq_comm] using hvalues
              refine ⟨high, low, rest, lower, by rw [hpercent], hlower,
                .inl ⟨upper, hupper, ?_⟩⟩
              rw [hvalue]
              simp [hexNumber]
  · cases hescaped

/-! ## What is decoded -/

def decodedBytes (bytes : List UInt8) : List UInt8 := percentDecodeFrom 0 bytes

theorem percentDecodeFrom_skip (skip : ℕ) (bytes : List UInt8) :
    percentDecodeFrom skip bytes = decodedBytes (bytes.drop skip) := by
  induction bytes generalizing skip with
  | nil => simp [decodedBytes, percentDecodeFrom]
  | cons first rest ih =>
      cases skip with
      | zero => rfl
      | succ skip =>
          rw [percentDecodeFrom, List.drop_succ_cons]
          exact ih skip

theorem decodedBytes_escaped {high low byte : UInt8} {rest : List UInt8}
    (hescaped : escapedByte (percentSign :: high :: low :: rest) = some byte) :
    decodedBytes (percentSign :: high :: low :: rest) = byte :: decodedBytes rest := by
  rw [decodedBytes, percentDecodeFrom, hescaped]
  exact congrArg (List.cons byte) (percentDecodeFrom_skip 2 _)

theorem decodedBytes_kept {first : UInt8} {rest : List UInt8}
    (hkept : escapedByte (first :: rest) = none) :
    decodedBytes (first :: rest) = first :: decodedBytes rest := by
  rw [decodedBytes, percentDecodeFrom, hkept]
  rfl

theorem escapedByte_of_ne {first : UInt8} (hne : first ≠ percentSign) (rest : List UInt8) :
    escapedByte (first :: rest) = none := by
  rw [escapedByte.eq_def]
  split
  · rename_i heq
    obtain ⟨rfl, -⟩ := List.cons.inj heq
    exact if_neg hne
  · rfl

/-- An encoding is read back. -/
theorem decodedBytes_of_percentEncodes {bytes encoded : List UInt8}
    (hencodes : PercentEncodes bytes encoded) : decodedBytes encoded = bytes := by
  induction hencodes with
  | nil => rfl
  | kept hbyte hrest ih => rw [decodedBytes_kept (escapedByte_of_ne hbyte _), ih]
  | @escaped byte high low bytes encoded hhigh hlow hrest ih =>
      have hvalue : UInt8.ofNat (16 * (byte.toNat / 16) + byte.toNat % 16) = byte := by
        rw [Nat.div_add_mod, UInt8.ofNat_toNat]
      rw [decodedBytes_escaped (escapedByte_hex hhigh hlow _), hvalue, ih]

/-! ## Against the reference -/

theorem decodedReference_hex {high low : UInt8} {upper lower : ℕ}
    (hhigh : hexDigit high = some upper) (hlow : hexDigit low = some lower)
    (rest : List UInt8) :
    decodedReference (percentSign :: high :: low :: rest) =
      UInt8.ofNat (16 * upper + lower) :: decodedReference rest := by
  rw [decodedReference, hhigh, hlow]
  exact if_pos rfl

/-- A byte that begins no escape stands for itself. -/
theorem decodedReference_kept {first : UInt8} {rest : List UInt8}
    (hkept : ∀ high low more, rest = high :: low :: more → first = percentSign →
      (hexDigit high).isSome → (hexDigit low).isNone) :
    decodedReference (first :: rest) = first :: decodedReference rest := by
  rw [decodedReference.eq_def]
  split
  · rename_i head high low more heq
    obtain ⟨rfl, rfl⟩ := List.cons.inj heq
    split
    · rename_i upper lower hhigh hlow
      refine if_neg fun hpercent => ?_
      have hnone := hkept high low more rfl hpercent (by rw [hhigh]; rfl)
      rw [hlow] at hnone
      cases hnone
    · rfl
  · rename_i head tail hshort heq
    obtain ⟨rfl, rfl⟩ := List.cons.inj heq
    rfl
  · rename_i heq
    cases heq

theorem escapedWith_cons {required : UInt8 → UInt8 → Prop} (first : UInt8)
    (rest : List UInt8) :
    EscapedWith required (first :: rest) ↔
      (∃ high low more, first = percentSign ∧ rest = high :: low :: more ∧
        required high low) ∨ EscapedWith required rest := by
  constructor
  · rintro ⟨front, high, low, more, hbytes, hrequired⟩
    cases front with
    | nil =>
        obtain ⟨hfirst, hrest⟩ := List.cons.inj hbytes
        exact .inl ⟨high, low, more, hfirst, hrest, hrequired⟩
    | cons head front =>
        exact .inr ⟨front, high, low, more, (List.cons.inj hbytes).2, hrequired⟩
  · rintro (⟨high, low, more, rfl, rfl, hrequired⟩ | ⟨front, high, low, more, rfl, hrequired⟩)
    · exact ⟨[], high, low, more, rfl, hrequired⟩
    · exact ⟨first :: front, high, low, more, rfl, hrequired⟩

theorem escapedWith_cons_of_ne {required : UInt8 → UInt8 → Prop} {first : UInt8}
    (hne : first ≠ percentSign) (rest : List UInt8) :
    EscapedWith required (first :: rest) ↔ EscapedWith required rest := by
  rw [escapedWith_cons]
  exact or_iff_right fun ⟨_, _, _, hfirst, _⟩ => hne hfirst

theorem not_escapedWith_nil (required : UInt8 → UInt8 → Prop) : ¬EscapedWith required [] := by
  rintro ⟨front, high, low, rest, hbytes, -⟩
  simp at hbytes

theorem ne_percentSign_of_hexDigit {byte : UInt8} (hdigit : (hexDigit byte).isSome) :
    byte ≠ percentSign := by
  rintro rfl
  exact absurd hdigit (by decide)

theorem ne_plusSign_of_hexDigit {byte : UInt8} (hdigit : (hexDigit byte).isSome) :
    byte ≠ plusSign := by
  rintro rfl
  exact absurd hdigit (by decide)

/-- Behind a percent sign, digits and plus signs begin no further escape. -/
theorem escapedWith_escape {required : UInt8 → UInt8 → Prop} {high low : UInt8}
    (hhigh : high ≠ percentSign) (hlow : low ≠ percentSign) (rest : List UInt8) :
    EscapedWith required (percentSign :: high :: low :: rest) ↔
      required high low ∨ EscapedWith required rest := by
  rw [escapedWith_cons, escapedWith_cons_of_ne hhigh, escapedWith_cons_of_ne hlow]
  constructor
  · rintro (⟨_, _, _, -, heq, hrequired⟩ | hrest)
    · obtain ⟨rfl, hmore⟩ := List.cons.inj heq
      obtain ⟨rfl, -⟩ := List.cons.inj hmore
      exact .inl hrequired
    · exact .inr hrest
  · rintro (hrequired | hrest)
    · exact .inl ⟨high, low, rest, rfl, rfl, hrequired⟩
    · exact .inr hrest

/-- What begins no escape begins neither kind. -/
theorem escapedWith_kept {first : UInt8} {rest : List UInt8}
    (hkept : escapedByte (first :: rest) = none) :
    (HexEscaped (first :: rest) ↔ HexEscaped rest) ∧
      (PlusEscaped (first :: rest) ↔ PlusEscaped rest) := by
  constructor
  · rw [HexEscaped, escapedWith_cons]
    refine or_iff_right ?_
    rintro ⟨high, low, more, rfl, rfl, hhigh, hlow⟩
    obtain ⟨upper, hupper⟩ := Option.isSome_iff_exists.mp hhigh
    obtain ⟨lower, hlower⟩ := Option.isSome_iff_exists.mp hlow
    rw [escapedByte_hex hupper hlower] at hkept
    cases hkept
  · rw [PlusEscaped, escapedWith_cons]
    refine or_iff_right ?_
    rintro ⟨high, low, more, rfl, rfl, rfl, hlow⟩
    obtain ⟨lower, hlower⟩ := Option.isSome_iff_exists.mp hlow
    rw [escapedByte_plus hlower] at hkept
    cases hkept

theorem asciiBytes_cons (first : UInt8) (rest : List UInt8) :
    asciiBytes (first :: rest) = asciiBytes rest + if first < 0x80 then 1 else 0 := by
  rw [asciiBytes, asciiBytes, List.countP_cons]
  simp only [decide_eq_true_eq]

theorem asciiBytes_cons_ascii {first : UInt8} (hascii : first.toNat < 128)
    (rest : List UInt8) : asciiBytes (first :: rest) = asciiBytes rest + 1 := by
  rw [asciiBytes_cons, if_pos (UInt8.lt_iff_toNat_lt.mpr hascii)]

theorem asciiBytes_cons_le (first : UInt8) (rest : List UInt8) :
    asciiBytes (first :: rest) ≤ asciiBytes rest + 1 := by
  rw [asciiBytes_cons]
  split_ifs <;> omega

/-- Three ASCII bytes become one byte. -/
theorem asciiBytes_escape {high low : UInt8} (hhigh : high.toNat < 128)
    (hlow : low.toNat < 128) (rest : List UInt8) :
    asciiBytes (percentSign :: high :: low :: rest) = asciiBytes rest + 3 := by
  rw [asciiBytes_cons_ascii (by decide), asciiBytes_cons_ascii hhigh,
    asciiBytes_cons_ascii hlow]

/-- Nothing is decoded, or fewer ASCII bytes are left. -/
theorem decodedBytes_cases (bytes : List UInt8) :
    (decodedBytes bytes = bytes ∧ ¬(HexEscaped bytes ∨ PlusEscaped bytes)) ∨
      (asciiBytes (decodedBytes bytes) < asciiBytes bytes ∧
        (HexEscaped bytes ∨ PlusEscaped bytes)) := by
  induction hlength : bytes.length using Nat.strong_induction_on generalizing bytes with
  | _ length ih =>
  subst hlength
  cases bytes with
  | nil =>
      exact .inl ⟨rfl, not_or.mpr ⟨not_escapedWith_nil _, not_escapedWith_nil _⟩⟩
  | cons first rest =>
      cases hescaped : escapedByte (first :: rest) with
      | none =>
          obtain ⟨hhex, hplus⟩ := escapedWith_kept hescaped
          rw [decodedBytes_kept hescaped, hhex, hplus]
          rcases ih rest.length (Nat.lt_succ_self _) rest rfl with
            ⟨hsame, hnone⟩ | ⟨hless, hsome⟩
          · exact .inl ⟨by rw [hsame], hnone⟩
          · refine .inr ⟨?_, hsome⟩
            rw [asciiBytes_cons, asciiBytes_cons first rest]
            omega
      | some byte =>
          obtain ⟨high, low, more, lower, heq, hlow, hhigh⟩ := escapedByte_cases hescaped
          have hasciiLow := (hexDigit_lt hlow).1
          have hsome : (hexDigit low).isSome := by rw [hlow]; rfl
          have hasciiHigh : high.toNat < 128 := by
            rcases hhigh with ⟨upper, hupper, -⟩ | ⟨rfl, -⟩
            · exact (hexDigit_lt hupper).1
            · decide
          rw [heq] at hescaped ⊢
          have hmore : asciiBytes (decodedBytes more) ≤ asciiBytes more := by
            have hshort : more.length < (first :: rest).length := by
              rw [heq]
              simp only [List.length_cons]
              omega
            rcases ih more.length hshort more rfl with ⟨hsame, -⟩ | ⟨hless, -⟩
            · rw [hsame]
            · exact hless.le
          refine .inr ⟨?_, ?_⟩
          · have hone := asciiBytes_cons_le byte (decodedBytes more)
            rw [decodedBytes_escaped hescaped, asciiBytes_escape hasciiHigh hasciiLow]
            omega
          · rcases hhigh with ⟨upper, hupper, -⟩ | ⟨hplus, -⟩
            · exact .inl ⟨[], high, low, more, rfl, by rw [hupper]; rfl, hsome⟩
            · exact .inr ⟨[], high, low, more, rfl, hplus, hsome⟩

/-- The reference decodes the same, or leaves more ASCII bytes. -/
theorem decodedReference_cases (bytes : List UInt8) :
    (decodedBytes bytes = decodedReference bytes ∧ ¬PlusEscaped bytes) ∨
      (asciiBytes (decodedBytes bytes) < asciiBytes (decodedReference bytes) ∧
        PlusEscaped bytes) := by
  induction hlength : bytes.length using Nat.strong_induction_on generalizing bytes with
  | _ length ih =>
  subst hlength
  cases bytes with
  | nil => exact .inl ⟨rfl, not_escapedWith_nil _⟩
  | cons first rest =>
      cases hescaped : escapedByte (first :: rest) with
      | none =>
          have hreference : decodedReference (first :: rest) =
              first :: decodedReference rest := by
            apply decodedReference_kept
            rintro high low more rfl rfl hhigh
            by_contra hlow
            obtain ⟨upper, hupper⟩ := Option.isSome_iff_exists.mp hhigh
            obtain ⟨lower, hlower⟩ := Option.ne_none_iff_exists'.mp
              fun hnone => hlow (Option.isNone_iff_eq_none.mpr hnone)
            rw [escapedByte_hex hupper hlower] at hescaped
            cases hescaped
          rw [decodedBytes_kept hescaped, hreference, (escapedWith_kept hescaped).2]
          rcases ih rest.length (Nat.lt_succ_self _) rest rfl with
            ⟨hsame, hnone⟩ | ⟨hless, hsome⟩
          · exact .inl ⟨by rw [hsame], hnone⟩
          · refine .inr ⟨?_, hsome⟩
            rw [asciiBytes_cons, asciiBytes_cons first (decodedReference rest)]
            omega
      | some byte =>
          obtain ⟨high, low, more, lower, heq, hlow, hhigh⟩ := escapedByte_cases hescaped
          have hsome : (hexDigit low).isSome := by rw [hlow]; rfl
          have hlowNe := ne_percentSign_of_hexDigit hsome
          have hshort : more.length < (first :: rest).length := by
            rw [heq]
            simp only [List.length_cons]
            omega
          have hmore := ih more.length hshort more rfl
          rw [heq] at hescaped ⊢
          rw [decodedBytes_escaped hescaped]
          rcases hhigh with ⟨upper, hupper, rfl⟩ | ⟨rfl, rfl⟩
          · have hhighSome : (hexDigit high).isSome := by rw [hupper]; rfl
            have hplus : PlusEscaped (percentSign :: high :: low :: more) ↔
                PlusEscaped more := by
              rw [PlusEscaped, escapedWith_escape (ne_percentSign_of_hexDigit hhighSome) hlowNe]
              exact or_iff_right fun h => ne_plusSign_of_hexDigit hhighSome h.1
            rw [decodedReference_hex hupper hlow, hplus]
            rcases hmore with ⟨hsame, hnone⟩ | ⟨hless, hplus⟩
            · exact .inl ⟨by rw [hsame], hnone⟩
            · refine .inr ⟨?_, hplus⟩
              rw [asciiBytes_cons, asciiBytes_cons _ (decodedReference more)]
              omega
          · -- the reference keeps the three bytes
            have hplain : ∀ {byte : UInt8}, byte ≠ percentSign → ∀ rest,
                decodedReference (byte :: rest) = byte :: decodedReference rest :=
              fun hne _ => decodedReference_kept fun _ _ _ _ hpercent => absurd hpercent hne
            have hreference : decodedReference (percentSign :: plusSign :: low :: more) =
                percentSign :: plusSign :: low :: decodedReference more := by
              rw [decodedReference_kept, hplain (by decide), hplain hlowNe]
              rintro _ _ _ hrest - hhigh
              obtain ⟨rfl, -⟩ := List.cons.inj hrest
              exact absurd hhigh (by decide)
            have hone := asciiBytes_cons_le (UInt8.ofNat lower) (decodedBytes more)
            have hle : asciiBytes (decodedBytes more) ≤ asciiBytes (decodedReference more) := by
              rcases hmore with ⟨hsame, -⟩ | ⟨hless, -⟩
              · rw [hsame]
              · exact hless.le
            refine .inr ⟨?_, [], plusSign, low, more, rfl, rfl, hsome⟩
            rw [hreference, asciiBytes_escape (by decide) (hexDigit_lt hlow).1]
            omega

theorem decodedReference_of_not_hexEscaped {bytes : List UInt8}
    (hnone : ¬HexEscaped bytes) : decodedReference bytes = bytes := by
  induction bytes with
  | nil => rfl
  | cons first rest ih =>
      rw [HexEscaped, escapedWith_cons, not_or] at hnone
      rw [decodedReference_kept, ih hnone.2]
      intro high low more hrest hfirst hhigh
      by_contra hlow
      have hsome : (hexDigit low).isSome :=
        Option.isSome_iff_ne_none.mpr fun heq => hlow (Option.isNone_iff_eq_none.mpr heq)
      exact hnone.1 ⟨high, low, more, hfirst, hrest, hhigh, hsome⟩

/-! ## Texts -/

theorem asciiBytes_of_fromUtf8Lossy {left right : List UInt8}
    (htext : fromUtf8Lossy left = fromUtf8Lossy right) : asciiBytes left = asciiBytes right := by
  rw [← asciiLetters_fromUtf8Lossy, htext, asciiLetters_fromUtf8Lossy]

/-- What percent-decoding promises of a text. -/
structure DecodesAsReference (text : String) : Prop where
  reference : percentDecode text = referenceDecode text
  identity : ¬HexEscaped (utf8 text) → percentDecode text = text
  inverse : ∀ encoded, PercentEncodes (utf8 text) (utf8 encoded) → percentDecode encoded = text

/-- An encoding of a text is decoded to that text. -/
theorem percentDecode_of_percentEncodes {text encoded : String}
    (hencodes : PercentEncodes (utf8 text) (utf8 encoded)) : percentDecode encoded = text := by
  calc percentDecode encoded = fromUtf8Lossy (decodedBytes (utf8 encoded)) := rfl
    _ = fromUtf8Lossy (utf8 text) := by rw [decodedBytes_of_percentEncodes hencodes]
    _ = text := fromUtf8Lossy_utf8 text

/-- A text is decoded as the reference has it exactly when no percent sign in it stands
before a plus sign and a digit. -/
theorem decodesAsReference_iff (text : String) :
    DecodesAsReference text ↔ ¬PlusEscaped (utf8 text) := by
  constructor
  · intro hdecodes hplus
    rcases decodedReference_cases (utf8 text) with ⟨-, hnone⟩ | ⟨hless, -⟩
    · exact hnone hplus
    · exact hless.ne (asciiBytes_of_fromUtf8Lossy hdecodes.reference)
  · intro hnone
    have hsame : percentDecode text = referenceDecode text := by
      rcases decodedReference_cases (utf8 text) with ⟨hsame, -⟩ | ⟨-, hplus⟩
      · exact congrArg fromUtf8Lossy hsame
      · exact absurd hplus hnone
    refine ⟨hsame, fun hplain => ?_, fun encoded => percentDecode_of_percentEncodes⟩
    rw [hsame, referenceDecode, decodedReference_of_not_hexEscaped hplain,
      fromUtf8Lossy_utf8]

/-- A plus sign is taken for the sign of a number. -/
theorem plus_sign_decoded : ¬DecodesAsReference "%+5" := by
  intro hdecodes
  have hreference : percentDecode "%+5" = referenceDecode "%+5" := hdecodes.reference
  exact absurd hreference (by decide)

example : percentDecode "/work/My%20Project/%C3%A9%2" = "/work/My Project/é%2" := by decide

/-- The URI of a path leads back to it exactly when nothing in the path is an escape. -/
theorem uriToPath_fileUri_iff (path : String) :
    uriToPath (fileUri path) = path ↔
      ¬(HexEscaped (utf8 path) ∨ PlusEscaped (utf8 path)) := by
  have huri : uriToPath (fileUri path) = percentDecode path := by
    have hletters : (fileUri path).toList = fileScheme.toList ++ path.toList := by
      rw [fileUri, String.toList_append]
    have hscheme : fileScheme.toList.isPrefixOf (fileUri path).toList = true := by
      rw [List.isPrefixOf_iff_prefix, hletters]
      exact List.prefix_append _ _
    have hrest : (fileUri path).toList.drop fileScheme.length = path.toList := by
      rw [hletters]
      exact List.drop_left
    rw [uriToPath, if_pos hscheme, hrest, String.ofList_toList]
  rw [huri]
  constructor
  · intro hpath
    rcases decodedBytes_cases (utf8 path) with ⟨-, hnone⟩ | ⟨hless, -⟩
    · exact hnone
    · have hsame := asciiBytes_of_fromUtf8Lossy (hpath.trans (fromUtf8Lossy_utf8 path).symm)
      exact absurd hsame hless.ne
  · intro hnone
    rcases decodedBytes_cases (utf8 path) with ⟨hsame, -⟩ | ⟨-, hescaped⟩
    · exact (congrArg fromUtf8Lossy hsame).trans (fromUtf8Lossy_utf8 path)
    · exact absurd hescaped hnone

end Ktsense.Lsp
