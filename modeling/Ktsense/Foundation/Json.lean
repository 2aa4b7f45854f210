import Ktsense.Foundation.Text

/-!
# JSON values

Trees of JSON, with the members of an object in the order they were written and
numbers as their literals, and the readers that derived deserialisers are made
of: a member by its name, a default for a member that is absent.
-/

namespace Ktsense.Foundation

inductive Json where
  | null
  | bool (value : Bool)
  | number (literal : String)
  | str (value : String)
  | arr (items : List Json)
  | obj (members : List (String × Json))

namespace Json

def ofNat (value : ℕ) : Json := number (toString value)

/-- The member of an object. -/
def member? (name : String) : Json → Option Json
  | obj members => (members.find? fun pair => pair.1 == name).map Prod.snd
  | _ => none

def str? : Json → Option String
  | str value => some value
  | _ => none

def bool? : Json → Option Bool
  | bool value => some value
  | _ => none

/-- An unsigned integer of at most `limit`. -/
def unsigned? (limit : ℕ) : Json → Option ℕ
  | number literal => parseUnsigned limit literal.toList
  | _ => none

/-- A signed integer of 64 bits; `-0` is a float and none. -/
def int64? : Json → Option Int64
  | number literal =>
      match literal.toList with
      | '-' :: digits =>
          match parseUnsigned (2 ^ 63) digits with
          | none => none
          | some 0 => none
          | some value => some (-Int64.ofNat value)
      | digits => (parseUnsigned (2 ^ 63 - 1) digits).map Int64.ofNat
  | _ => none

/-- `Option`: null is no value. -/
def option? {T : Type*} (read : Json → Option T) : Json → Option (Option T)
  | null => some none
  | value => (read value).map some

def list? {T : Type*} (read : Json → Option T) : Json → Option (List T)
  | arr items => items.mapM read
  | _ => none

def ofOption {T : Type*} (write : T → Json) : Option T → Json
  | some value => write value
  | none => null

@[simp]
theorem unsigned?_ofNat {limit value : ℕ} (hvalue : value ≤ limit) :
    unsigned? limit (ofNat value) = some value :=
  parseUnsigned_toString hvalue

theorem option?_ofOption {T : Type*} {read : Json → Option T} {write : T → Json}
    (hread : ∀ value, read (write value) = some value)
    (hnull : ∀ value, write value ≠ null) (value : Option T) :
    option? read (ofOption write value) = some value := by
  cases value with
  | none => rfl
  | some value =>
      have hread := hread value
      have hnull := hnull value
      rw [ofOption]
      cases hjson : write value <;> simp_all [option?]

theorem list?_arr_map {T : Type*} {read : Json → Option T} {write : T → Json}
    (hread : ∀ value, read (write value) = some value) (values : List T) :
    list? read (arr (values.map write)) = some values := by
  induction values with
  | nil => rfl
  | cons first values ih =>
      simp only [list?, List.map_cons, List.mapM_cons] at ih ⊢
      rw [hread, ih]
      rfl

/-! ## Compact text -/

/-- A character inside a JSON string. -/
def escape (letter : Char) : List Char :=
  if letter = '"' then ['\\', '"']
  else if letter = '\\' then ['\\', '\\']
  else if letter = '\n' then ['\\', 'n']
  else if letter = '\r' then ['\\', 'r']
  else if letter = '\t' then ['\\', 't']
  else if letter.toNat = 8 then ['\\', 'b']
  else if letter.toNat = 12 then ['\\', 'f']
  else if letter.toNat < 32 then
    "\\u00".toList ++
      List.replicate (2 - (Nat.toDigits 16 letter.toNat).length) '0' ++
      Nat.toDigits 16 letter.toNat
  else [letter]

def quote (text : String) : List Char :=
  '"' :: text.toList.flatMap escape ++ ['"']

mutual

/-- The text of a value without any white space. -/
def compact : Json → List Char
  | null => "null".toList
  | bool value => (toString value).toList
  | number literal => literal.toList
  | str value => quote value
  | arr items => '[' :: compactItems items ++ [']']
  | obj members => Char.ofNat 0x7B :: compactMembers members ++ [Char.ofNat 0x7D]

def compactItems : List Json → List Char
  | [] => []
  | [item] => compact item
  | item :: items => compact item ++ ',' :: compactItems items

def compactMembers : List (String × Json) → List Char
  | [] => []
  | [(name, value)] => quote name ++ ':' :: compact value
  | (name, value) :: members =>
      quote name ++ ':' :: compact value ++ ',' :: compactMembers members

end

end Json

end Ktsense.Foundation
