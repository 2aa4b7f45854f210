import Ktsense.Foundation.Loop
import Ktsense.Foundation.Text

/-!
# Signatures folded onto one line

`normalize_signature_layout` of `text.rs`: the text is cut into pieces of layout, and the
pieces are put together again without the line breaks, the blanks inside brackets and the
trailing commas.  An index out of range is `none`.
-/

namespace Ktsense.Core.Layout

open Ktsense.Foundation

/-- `char::is_alphanumeric`, as far as the folding depends on it. -/
structure Alphanumeric where
  test : Char → Bool
  ascii : ∀ letter, letter.toNat < 128 → test letter = letter.isAlphanum
  space : ∀ letter, isWhitespace letter = true → test letter = false

/-- The class on ASCII text. -/
def Alphanumeric.onAscii : Alphanumeric where
  test := Char.isAlphanum
  ascii := fun _ _ => rfl
  space := by
    intro letter hspace
    have hcode : letter.toNat < 48 ∨ 122 < letter.toNat := by
      simp only [isWhitespace, Bool.or_eq_true, Bool.and_eq_true, decide_eq_true_eq,
        beq_iff_eq] at hspace
      omega
    rw [Bool.eq_false_iff]
    intro halphanum
    simp only [Char.isAlphanum, Char.isAlpha, Char.isUpper, Char.isLower, Char.isDigit,
      Bool.or_eq_true, Bool.and_eq_true, decide_eq_true_eq, ge_iff_le,
      UInt32.le_iff_toNat_le] at halphanum
    have hletters : 'A'.val.toNat = 65 ∧ 'Z'.val.toNat = 90 ∧ 'a'.val.toNat = 97 ∧
        'z'.val.toNat = 122 ∧ '0'.val.toNat = 48 ∧ '9'.val.toNat = 57 := by
      decide
    rw [Char.toNat] at hcode
    omega

inductive Piece where
  | opening (letter : Char)
  | closing (letter : Char)
  | comma
  | space
  | verbatim (run : List Char)
  deriving DecidableEq, Repr

def Piece.text : Piece → List Char
  | .opening letter => [letter]
  | .closing letter => [letter]
  | .comma => [',']
  | .space => [' ']
  | .verbatim run => run

def Piece.isOpening : Piece → Bool
  | .opening _ => true
  | _ => false

def Piece.isClosing : Piece → Bool
  | .closing _ => true
  | _ => false

/-! ## Literals and comments -/

section Skipping

variable (characters : List Char)

/-- The loop of `consume_string` over a raw string. -/
def consumeRaw (index : ℕ) : ℕ :=
  if _ : index < characters.length then
    if characters[index] = '"' ∧ characters[index + 1]? = some '"' ∧
        characters[index + 2]? = some '"' then index + 3
    else consumeRaw (index + 1)
  else characters.length
termination_by characters.length - index

/-- The loop of `consume_string` over a regular string. -/
def consumeRegular (index : ℕ) : ℕ :=
  if _ : index < characters.length then
    if characters[index] = '\\' then consumeRegular (index + 2)
    else if characters[index] = '"' then index + 1
    else consumeRegular (index + 1)
  else characters.length
termination_by characters.length - index

/-- The index past the string literal that starts at `start`. -/
def consumeString (start : ℕ) : ℕ :=
  if characters[start + 1]? = some '"' ∧ characters[start + 2]? = some '"' then
    consumeRaw characters (start + 3)
  else consumeRegular characters (start + 1)

/-- The loop of `consume_line_comment`: the line break is part of the comment. -/
def consumeLine (index : ℕ) : ℕ :=
  if _ : index < characters.length then
    if characters[index] = '\n' then index + 1 else consumeLine (index + 1)
  else index
termination_by characters.length - index

def consumeLineComment (start : ℕ) : ℕ := consumeLine characters (start + 2)

/-- The loop of `consume_block_comment`. -/
def consumeBlock (index : ℕ) : ℕ :=
  if _ : index < characters.length then
    if characters[index] = '*' ∧ characters[index + 1]? = some '/' then index + 2
    else consumeBlock (index + 1)
  else characters.length
termination_by characters.length - index

def consumeBlockComment (start : ℕ) : ℕ := consumeBlock characters (start + 2)

/-- The loop that passes over white space. -/
def skipWhitespace (index : ℕ) : ℕ :=
  if _ : index < characters.length then
    if isWhitespace characters[index] then skipWhitespace (index + 1) else index
  else index
termination_by characters.length - index

end Skipping

/-! ## Angle brackets -/

/-- Whether a `<` between two texts opens a list of types. -/
def opensTypes (alphanumeric : Alphanumeric) (before after : List Char) : Bool :=
  if after.head? = some '=' then false
  else
    match before.getLast? with
    | some previous =>
        if alphanumeric.test previous || ['_', '?', '>', ')'].contains previous then true
        else if isWhitespace previous then
          let trimmed := before.rdropWhile isWhitespace
          trimmed == "fun".toList || " fun".toList.isSuffixOf trimmed ||
            "(fun".toList.isSuffixOf trimmed
        else false
    | none => false

def opensTypeArguments (alphanumeric : Alphanumeric) (characters : List Char) (index : ℕ) :
    Bool :=
  opensTypes alphanumeric (characters.take index) (characters.drop (index + 1))

/-- Whether a `>` between two texts closes a list of types that is open. -/
def closesTypes (before after : List Char) : Bool :=
  before.getLast? ≠ some '-' && after.head? ≠ some '='

def closesTypeArguments (characters : List Char) (index : ℕ) : Bool :=
  closesTypes (characters.take index) (characters.drop (index + 1))

/-! ## The first pass -/

structure Tokenizer where
  pieces : List Piece
  run : List Char
  index : ℕ
  angleDepth : ℕ
  deriving DecidableEq, Repr

namespace Tokenizer

/-- `flush_run`. -/
def flushRun (state : Tokenizer) : Tokenizer :=
  if state.run.isEmpty then state
  else { state with pieces := state.pieces ++ [.verbatim state.run], run := [] }

def push (state : Tokenizer) (piece : Piece) : Tokenizer :=
  { state.flushRun with
    pieces := state.flushRun.pieces ++ [piece], index := state.index + 1 }

/-- `run.extend(&characters[index..end])`. -/
def copyTo (characters : List Char) (state : Tokenizer) (stop : ℕ) : Option Tokenizer :=
  if state.index ≤ stop ∧ stop ≤ characters.length then
    some { state with
      run := state.run ++ (characters.drop state.index).take (stop - state.index)
      index := stop }
  else none

/-- One turn of the loop of `tokenize_layout`. -/
def turn (alphanumeric : Alphanumeric) (characters : List Char) (state : Tokenizer)
    (character : Char) : Option Tokenizer :=
  let next := characters[state.index + 1]?
  if character = '"' then
    state.copyTo characters (consumeString characters state.index)
  else if character = '/' ∧ next = some '/' then
    state.copyTo characters (consumeLineComment characters state.index)
  else if character = '/' ∧ next = some '*' then
    state.copyTo characters (consumeBlockComment characters state.index)
  else if isWhitespace character then
    some { state.push .space with index := skipWhitespace characters state.index }
  else if character = '(' ∨ character = '[' then
    some (state.push (.opening character))
  else if character = '<' ∧ opensTypeArguments alphanumeric characters state.index then
    some { state.push (.opening character) with angleDepth := state.angleDepth + 1 }
  else if character = ')' ∨ character = ']' then
    some (state.push (.closing character))
  else if character = '>' ∧ 0 < state.angleDepth ∧
      closesTypeArguments characters state.index then
    some { state.push (.closing character) with angleDepth := state.angleDepth - 1 }
  else if character = ',' then some (state.push .comma)
  else some { state with run := state.run ++ [character], index := state.index + 1 }

/-- The loop ends behind the text, or at an index out of range. -/
def step (alphanumeric : Alphanumeric) (characters : List Char) :
    Option Tokenizer → Option (Option Tokenizer)
  | none => none
  | some state => (characters[state.index]?).map (state.turn alphanumeric characters)

end Tokenizer

def tokenizeLayout (alphanumeric : Alphanumeric) (characters : List Char) :
    Option (List Piece) :=
  (whileLoop (Tokenizer.step alphanumeric characters) characters.length
    (some ⟨[], [], 0, 0⟩)).map fun state => state.flushRun.pieces

/-! ## The second pass -/

/-- The index of the next piece that is no space. -/
def skipSpaces (pieces : List Piece) (index : ℕ) : ℕ :=
  if _ : index < pieces.length then
    if pieces[index] = .space then skipSpaces pieces (index + 1) else index
  else index
termination_by pieces.length - index

structure Folder where
  kept : List Piece
  index : ℕ
  deriving DecidableEq, Repr

namespace Folder

def keep (state : Folder) (piece : Piece) : Folder :=
  ⟨state.kept ++ [piece], state.index + 1⟩

/-- `kept.pop()` when the last piece kept is a space. -/
def withoutSpace (kept : List Piece) : List Piece :=
  if kept.getLast? = some .space then kept.dropLast else kept

/-- One turn of the loop of `normalize_signature_layout`. -/
def turn (pieces : List Piece) (state : Folder) : Piece → Folder
  | .space =>
      let leading := state.kept.isEmpty
      let afterOpen := state.kept.getLast?.any Piece.isOpening
      let beforeCloseOrComma :=
        (pieces[state.index + 1]?).any fun next => next.isClosing || next = .comma
      if leading || afterOpen || beforeCloseOrComma then
        { state with index := state.index + 1 }
      else state.keep .space
  | .comma =>
      let next := skipSpaces pieces (state.index + 1)
      if (pieces[next]?).any Piece.isClosing then ⟨withoutSpace state.kept, next⟩
      else state.keep .comma
  | piece => state.keep piece

def step (pieces : List Piece) (state : Folder) : Option Folder :=
  (pieces[state.index]?).map (state.turn pieces)

end Folder

/-- The pieces that are kept. -/
def foldPieces (pieces : List Piece) : List Piece :=
  Folder.withoutSpace (whileLoop (Folder.step pieces) pieces.length ⟨[], 0⟩).kept

def normalizeSignatureLayout (alphanumeric : Alphanumeric) (text : String) : Option String :=
  (tokenizeLayout alphanumeric text.toList).map fun pieces =>
    String.ofList ((foldPieces pieces).flatMap Piece.text)

end Ktsense.Core.Layout
