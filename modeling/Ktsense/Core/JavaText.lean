import Ktsense.Foundation.Text

/-!
# Java as text

`java_text.rs` and the tokenizer of `java_enclosing.rs`: each character of a
source with the lexical state it stands in, and the tokens that shape scopes.
The Unicode classes of letters and digits are taken as given.
-/

namespace Ktsense.Core

open Ktsense.Foundation

inductive LexState where
  | code
  | lineComment
  | blockComment
  | stringLiteral
  | textBlock
  | charLiteral
  deriving DecidableEq, Repr

def LexState.isCode (state : LexState) : Bool := state = .code

def doubleQuote : Char := Char.ofNat 0x22

def singleQuote : Char := Char.ofNat 0x27

def backslash : Char := Char.ofNat 0x5C

/-- `str::char_indices`, from an offset on. -/
def charIndices : ℕ → List Char → List (ℕ × Char)
  | _, [] => []
  | offset, letter :: rest =>
      (offset, letter) :: charIndices (offset + letter.utf8Size) rest

/-- What a character read in a state leads to: the state that follows, and the
states of the characters behind it that are taken along unread. -/
def lexTurn (state : LexState) (letter : Char) (peek : List (ℕ × Char)) :
    LexState × List LexState :=
  let next := peek.head?.map Prod.snd
  let afterNext := (peek.drop 1).head?.map Prod.snd
  let threeQuotes :=
    letter = doubleQuote ∧ next = some doubleQuote ∧ afterNext = some doubleQuote
  match state with
  | .code =>
      if letter = '/' ∧ next = some '/' then (.lineComment, [.code])
      else if letter = '/' ∧ next = some '*' then (.blockComment, [.code])
      else if threeQuotes then (.textBlock, [.textBlock, .textBlock])
      else if letter = doubleQuote then (.stringLiteral, [])
      else if letter = singleQuote then (.charLiteral, [])
      else (.code, [])
  | .lineComment => if letter = '\n' then (.code, []) else (.lineComment, [])
  | .blockComment =>
      if letter = '*' ∧ next = some '/' then (.code, [.blockComment])
      else (.blockComment, [])
  | .stringLiteral =>
      if letter = backslash then (.stringLiteral, [.stringLiteral])
      else if letter = doubleQuote then (.code, [])
      else (.stringLiteral, [])
  | .charLiteral =>
      if letter = backslash then (.charLiteral, [.charLiteral])
      else if letter = singleQuote then (.code, [])
      else (.charLiteral, [])
  | .textBlock =>
      if threeQuotes then (.code, [.textBlock, .textBlock]) else (.textBlock, [])

/-- A character with its byte offset and the state it stands in. -/
structure Lexed where
  offset : ℕ
  letter : Char
  state : LexState
  deriving DecidableEq, Repr

/-- The loop of `lex`: a state, the states of the characters already taken along,
and what is unread. -/
def lexFrom : LexState → List LexState → List (ℕ × Char) → List Lexed
  | _, _, [] => []
  | state, taken :: others, (offset, letter) :: rest =>
      ⟨offset, letter, taken⟩ :: lexFrom state others rest
  | state, [], (offset, letter) :: rest =>
      let (next, taken) := lexTurn state letter rest
      ⟨offset, letter, state⟩ :: lexFrom next taken rest

def lex (source : String) : List Lexed :=
  lexFrom .code [] (charIndices 0 source.toList)

/-! ## Tokens -/

inductive Token where
  | ident (name : String)
  | lBrace
  | rBrace
  | lParen
  | rParen
  | semi
  | at
  | arrow
  | eq
  | lAngle
  | rAngle
  deriving DecidableEq, Repr

structure Spanned where
  token : Token
  line : ℕ
  offset : ℕ
  deriving DecidableEq, Repr

def structuralToken (letter : Char) : Option Token :=
  match letter.toNat with
  | 0x7B => some .lBrace
  | 0x7D => some .rBrace
  | 0x28 => some .lParen
  | 0x29 => some .rParen
  | 0x3B => some .semi
  | 0x40 => some .at
  | 0x3D => some .eq
  | 0x3C => some .lAngle
  | 0x3E => some .rAngle
  | _ => none

/-- `char::is_alphabetic` and `char::is_alphanumeric`. -/
structure Letters where
  isAlphabetic : Char → Bool
  isAlphanumeric : Char → Bool

/-- The two classes on ASCII text. -/
def Letters.ascii : Letters := ⟨Char.isAlpha, Char.isAlphanum⟩

section Tokenizing

variable (letters : Letters)

def isIdentStart (letter : Char) : Bool :=
  letters.isAlphabetic letter || letter = '_' || letter = '$'

def isIdentContinue (letter : Char) : Bool :=
  letters.isAlphanumeric letter || letter = '_' || letter = '$'

/-- The identifier at the front. -/
def identWord (lexed : List Lexed) : List Lexed :=
  lexed.takeWhile fun here => here.state.isCode && isIdentContinue letters here.letter

def wordText (word : List Lexed) : String :=
  String.ofList (word.map (·.letter))

/-- The loop of `tokenize`: every turn moves on by at least one character, so the
number of characters is fuel enough. -/
def tokenizeFrom : ℕ → ℕ → List Lexed → List Spanned
  | 0, _, _ => []
  | _ + 1, _, [] => []
  | fuel + 1, line, here :: rest =>
      if here.letter = '\n' then tokenizeFrom fuel (line + 1) rest
      else if !here.state.isCode || isWhitespace here.letter then
        tokenizeFrom fuel line rest
      else if isIdentStart letters here.letter then
        -- The first letter continues an identifier as well, so the word is not empty.
        let word := here :: identWord letters rest
        ⟨.ident (wordText word), line, here.offset⟩ ::
          tokenizeFrom fuel line (rest.drop (word.length - 1))
      else if here.letter = '-' && rest.head?.any fun next =>
          next.letter = '>' && next.state.isCode then
        ⟨.arrow, line, here.offset⟩ :: tokenizeFrom fuel line (rest.drop 1)
      else
        match structuralToken here.letter with
        | some token => ⟨token, line, here.offset⟩ :: tokenizeFrom fuel line rest
        | none => tokenizeFrom fuel line rest

def tokenize (source : String) : List Spanned :=
  let lexed := lex source
  tokenizeFrom letters lexed.length 1 lexed

end Tokenizing

end Ktsense.Core
