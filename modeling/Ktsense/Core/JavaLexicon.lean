import Ktsense.Core.JavaSeams

/-!
# The lexical grammar of Java

The Unicode escapes of a source are translated first, into marks that keep their spelling.
The source is then a sequence of code characters, comments and literals.  The grammar says
in which state each character stands, except for delimiters; `lex` should agree with it.
-/

namespace Ktsense.Core

open Ktsense.Foundation

/-! ## Unicode escapes -/

def hexLetters : List Char := "0123456789abcdef".toList

/-- A backslash, one `u` or more, and four hexadecimal digits. -/
structure UnicodeEscape where
  others : ℕ
  digits : List Char
  four : digits.length = 4
  hex : (digits.all fun digit => digit.toLower ∈ hexLetters) = true
  deriving DecidableEq, Repr

/-- What stands behind the backslash. -/
def UnicodeEscape.tail (escape : UnicodeEscape) : List Char :=
  'u' :: (List.replicate escape.others 'u' ++ escape.digits)

def UnicodeEscape.text (escape : UnicodeEscape) : List Char := backslash :: escape.tail

/-- The code unit that an escape stands for. -/
def UnicodeEscape.unit (escape : UnicodeEscape) : ℕ :=
  escape.digits.foldl (fun unit digit => 16 * unit + hexLetters.idxOf digit.toLower) 0

/-- A character that stands for itself or is spelled by an escape. -/
inductive JavaMark where
  | plain (letter : Char)
  | unicode (escape : UnicodeEscape)
  deriving DecidableEq, Repr

def JavaMark.text : JavaMark → List Char
  | .plain letter => [letter]
  | .unicode escape => escape.text

def JavaMark.unit : JavaMark → ℕ
  | .plain letter => letter.toNat
  | .unicode escape => escape.unit

def JavaMark.Means (mark : JavaMark) (letter : Char) : Prop := mark.unit = letter.toNat

instance (mark : JavaMark) (letter : Char) : Decidable (mark.Means letter) :=
  inferInstanceAs (Decidable (mark.unit = letter.toNat))

def rawText (marks : List JavaMark) : List Char := marks.flatMap JavaMark.text

def units (marks : List JavaMark) : List ℕ := marks.map JavaMark.unit

def codes (letters : List Char) : List ℕ := letters.map Char.toNat

def Spells (marks : List JavaMark) (letters : List Char) : Prop := units marks = codes letters

def plainly (letters : List Char) : List JavaMark := letters.map .plain

/-- The marks are those that translating their text gives: a backslash begins an escape
when an even number of them stands in front of it, and `\u` begins nothing else. -/
def translated : Bool → List JavaMark → Bool
  | _, [] => true
  | odd, .unicode _ :: rest => !odd && translated false rest
  | odd, .plain letter :: rest =>
      if letter = backslash then
        (odd || rest.head? != some (.plain 'u')) && translated (!odd) rest
      else translated false rest

/-! ## The grammar -/

/-- A character of a literal, or an escape sequence. -/
inductive Piece where
  | single (mark : JavaMark)
  | escape (slash letter : JavaMark)
  deriving DecidableEq, Repr

def Piece.marks : Piece → List JavaMark
  | .single mark => [mark]
  | .escape slash letter => [slash, letter]

def piecesMarks (pieces : List Piece) : List JavaMark := pieces.flatMap Piece.marks

/-- A line comment ends in a line break, or without one at the end of the source. -/
inductive Segment where
  | code (mark : JavaMark)
  | lineComment (opening body ending : List JavaMark)
  | blockComment (opening body closing : List JavaMark)
  | stringLiteral (opening : JavaMark) (body : List Piece) (closing : JavaMark)
  | charLiteral (opening : JavaMark) (body : List Piece) (closing : JavaMark)
  | textBlock (opening blanks ending : List JavaMark) (body : List Piece) (closing : List JavaMark)
  deriving DecidableEq, Repr

namespace Segment

def opening : Segment → List JavaMark
  | code _ => []
  | lineComment opening _ _ => opening
  | blockComment opening _ _ => opening
  | stringLiteral opening _ _ => [opening]
  | charLiteral opening _ _ => [opening]
  | textBlock opening blanks ending _ _ => opening ++ blanks ++ ending

def inner : Segment → List JavaMark
  | code mark => [mark]
  | lineComment _ body _ => body
  | blockComment _ body _ => body
  | stringLiteral _ body _ => piecesMarks body
  | charLiteral _ body _ => piecesMarks body
  | textBlock _ _ _ body _ => piecesMarks body

def closing : Segment → List JavaMark
  | code _ => []
  | lineComment _ _ ending => ending
  | blockComment _ _ closing => closing
  | stringLiteral _ _ closing => [closing]
  | charLiteral _ _ closing => [closing]
  | textBlock _ _ _ _ closing => closing

/-- The state that the inner characters stand in. -/
def state : Segment → LexState
  | code _ => .code
  | lineComment _ _ _ => .lineComment
  | blockComment _ _ _ => .blockComment
  | stringLiteral _ _ _ => .stringLiteral
  | charLiteral _ _ _ => .charLiteral
  | textBlock _ _ _ _ _ => .textBlock

def marks (segment : Segment) : List JavaMark := segment.opening ++ segment.inner ++ segment.closing

end Segment

def sourceMarks (segments : List Segment) : List JavaMark := segments.flatMap Segment.marks

/-- Characters of a delimiter may stand in any state. -/
def anyState (letters : List Char) : List (Option LexState) := letters.map fun _ => none

def inState (state : LexState) (letters : List Char) : List (Option LexState) :=
  letters.map fun _ => some state

/-- The state that each character of a segment stands in. -/
def Segment.states (segment : Segment) : List (Option LexState) :=
  anyState (rawText segment.opening) ++ inState segment.state (rawText segment.inner) ++
    anyState (rawText segment.closing)

def threeQuotes : List Char := [doubleQuote, doubleQuote, doubleQuote]

def escapeLetters : List Char :=
  doubleQuote :: singleQuote :: backslash :: "btnfrs01234567".toList

/-- A piece of a literal between quotes. -/
def Piece.Between (quote : Char) : Piece → Prop
  | .single mark =>
      ¬mark.Means quote ∧ ¬mark.Means backslash ∧ ¬mark.Means '\n' ∧ ¬mark.Means '\r'
  | .escape slash letter => slash.Means backslash ∧ letter.unit ∈ codes escapeLetters

def Piece.InBlock : Piece → Prop
  | .single mark => ¬mark.Means backslash
  | .escape slash letter =>
      slash.Means backslash ∧ letter.unit ∈ codes ('\n' :: '\r' :: escapeLetters)

/-- A quote that is not escaped. -/
def Piece.isQuote : Piece → Bool
  | .single mark => mark.Means doubleQuote
  | .escape _ _ => false

/-- A line break, all of it, in front of a rest. -/
def EndsLine (ending rest : List JavaMark) : Prop :=
  Spells ending ['\n'] ∨ Spells ending ['\r', '\n'] ∨
    Spells ending ['\r'] ∧ ∀ next ∈ rest.head?, ¬next.Means '\n'

/-- A segment is what the grammar reads in front of a rest: its end is the first one that
the grammar finds. -/
def Segment.Valid (rest : List JavaMark) : Segment → Prop
  | .code mark => ¬mark.Means doubleQuote ∧ ¬mark.Means singleQuote ∧
      (mark.Means '/' → ∀ next ∈ rest.head?, ¬next.Means '/' ∧ ¬next.Means '*')
  | .lineComment opening body ending => Spells opening ['/', '/'] ∧
      (∀ mark ∈ body, ¬mark.Means '\n' ∧ ¬mark.Means '\r') ∧
        (ending = [] ∧ rest = [] ∨ EndsLine ending rest)
  | .blockComment opening body closing => Spells opening ['/', '*'] ∧
      Spells closing ['*', '/'] ∧ ¬codes ['*', '/'] <:+: units body ++ codes ['*']
  | .stringLiteral opening body closing =>
      opening.Means doubleQuote ∧ closing.Means doubleQuote ∧
        (∀ piece ∈ body, piece.Between doubleQuote) ∧
          (body = [] → ∀ next ∈ rest.head?, ¬next.Means doubleQuote)
  | .charLiteral opening body closing =>
      opening.Means singleQuote ∧ closing.Means singleQuote ∧
        (∀ piece ∈ body, piece.Between singleQuote) ∧ body ≠ []
  | .textBlock opening blanks ending body closing =>
      Spells opening threeQuotes ∧ Spells closing threeQuotes ∧
        (∀ mark ∈ blanks, mark.unit ∈ codes [' ', '\t', Char.ofNat 0x0C]) ∧
          EndsLine ending (piecesMarks body) ∧ (∀ piece ∈ body, piece.InBlock) ∧
            ¬[true, true, true] <:+: body.map Piece.isQuote ∧
              body.getLast?.map Piece.isQuote ≠ some true

def ValidSource : List Segment → Prop
  | [] => True
  | segment :: rest => segment.Valid (sourceMarks rest) ∧ ValidSource rest

/-- A lexically valid source. -/
structure JavaSource where
  segments : List Segment
  translated : translated false (sourceMarks segments) = true
  valid : ValidSource segments

def JavaSource.text (source : JavaSource) : String :=
  String.ofList (rawText (sourceMarks source.segments))

def Allows (want : Option LexState) (got : LexState) : Prop :=
  ∀ state, want = some state → got = state

/-- The lexer finds each character of a comment or literal in it, and all others in code. -/
def AgreesWithGrammar (source : JavaSource) : Prop :=
  List.Forall₂ Allows (source.segments.flatMap Segment.states)
    ((lex source.text).map (·.state))

namespace Segment

/-- No Unicode escape spells a character of what opens the segment. -/
def OpensPlainly : Segment → Prop
  | code _ => True
  | lineComment opening _ _ => opening = plainly ['/', '/']
  | blockComment opening _ _ => opening = plainly ['/', '*']
  | stringLiteral opening _ _ => opening = .plain doubleQuote
  | charLiteral opening _ _ => opening = .plain singleQuote
  | textBlock opening _ _ _ _ => opening = plainly threeQuotes

/-- No Unicode escape spells a character of what closes the segment, and no lone carriage
return does. -/
def ClosesPlainly : Segment → Prop
  | code _ => True
  | lineComment _ _ ending => ending = [] ∨ .plain '\n' ∈ ending
  | blockComment _ _ closing => closing = plainly ['*', '/']
  | stringLiteral _ _ closing => closing = .plain doubleQuote
  | charLiteral _ _ closing => closing = .plain singleQuote
  | textBlock _ _ _ _ closing => closing = plainly threeQuotes

end Segment

/-- The backslash of an escape sequence is spelled by a Unicode escape, and the quote or
backslash behind it is not. -/
def Piece.Hides (quote : Char) (piece : Piece) : Prop :=
  ∃ escape letter, piece = .escape (.unicode escape) (.plain letter) ∧
    (letter = quote ∨ letter = backslash)

namespace Segment

def HidesSlash : Segment → Prop
  | stringLiteral _ body _ => ∃ piece ∈ body, piece.Hides doubleQuote
  | charLiteral _ body _ => ∃ piece ∈ body, piece.Hides singleQuote
  | _ => False

/-- Three quotes in a row stand inside a text block, the first of them escaped. -/
def ClosesInside : Segment → Prop
  | textBlock _ _ _ body _ => threeQuotes <:+: rawText (piecesMarks body)
  | _ => False

/-- A text block ends in an escaped quote. -/
def EndsEscaped : Segment → Prop
  | textBlock _ _ _ body _ => ∃ slash, body.getLast? = some (.escape slash (.plain doubleQuote))
  | _ => False

end Segment

/-! ## States -/

/-- A turn of the lexer on the characters alone. -/
def turn (state : LexState) (letter : Char) (rest : List Char) : LexState × List LexState :=
  lexTurn state letter (charIndices 0 rest)

/-- The states that `lexFrom` finds. -/
def statesFrom : LexState → List LexState → List Char → List LexState
  | _, _, [] => []
  | state, taken :: others, _ :: rest => taken :: statesFrom state others rest
  | state, [], letter :: rest =>
      let (next, taken) := turn state letter rest
      state :: statesFrom next taken rest

theorem lexTurn_charIndices (state : LexState) (letter : Char) (offset : ℕ)
    (rest : List Char) :
    lexTurn state letter (charIndices offset rest) = turn state letter rest := by
  rcases rest with - | ⟨next, - | ⟨afterNext, rest⟩⟩ <;> rfl

theorem map_state_lexFrom (state : LexState) (taken : List LexState) (offset : ℕ)
    (letters : List Char) :
    (lexFrom state taken (charIndices offset letters)).map (·.state) =
      statesFrom state taken letters := by
  induction letters generalizing state taken offset with
  | nil => cases taken <;> rfl
  | cons letter rest ih =>
      cases taken with
      | cons first others =>
          rw [charIndices, lexFrom, List.map_cons, ih]
          rfl
      | nil =>
          rw [charIndices, lexFrom, lexTurn_charIndices, List.map_cons, ih]
          rfl

theorem length_statesFrom (state : LexState) (taken : List LexState) (letters : List Char) :
    (statesFrom state taken letters).length = letters.length := by
  induction letters generalizing state taken with
  | nil => cases taken <;> rfl
  | cons letter rest ih =>
      cases taken with
      | cons first others => exact congrArg Nat.succ (ih _ _)
      | nil => exact congrArg Nat.succ (ih _ _)

theorem statesFrom_cons {state next : LexState} {taken : List LexState} {letter : Char}
    {rest : List Char} (hturn : turn state letter rest = (next, taken)) :
    statesFrom state [] (letter :: rest) = state :: statesFrom next taken rest := by
  rw [statesFrom, hturn]

/-- Characters that leave the state as it is. -/
theorem statesFrom_append {state : LexState} {body : List Char}
    (hstays : ∀ letter ∈ body, ∀ rest, turn state letter rest = (state, []))
    (rest : List Char) :
    statesFrom state [] (body ++ rest) =
      body.map (fun _ => state) ++ statesFrom state [] rest := by
  induction body with
  | nil => rfl
  | cons letter body ih =>
      rw [List.cons_append, statesFrom_cons (hstays letter List.mem_cons_self _),
        ih fun other hother => hstays other (List.mem_cons_of_mem _ hother)]
      rfl

theorem head?_charIndices (rest : List Char) :
    (charIndices 0 rest).head?.map Prod.snd = rest.head? := by
  cases rest <;> rfl

theorem head?_drop_charIndices (rest : List Char) :
    ((charIndices 0 rest).drop 1).head?.map Prod.snd = (rest.drop 1).head? := by
  rcases rest with - | ⟨letter, - | ⟨next, rest⟩⟩ <;> rfl

theorem allows_none (got : LexState) : Allows none got := fun _ hwant => nomatch hwant

theorem allows_some (state : LexState) : Allows (some state) state :=
  fun _ hwant => Option.some.inj hwant

theorem forall₂_inState (state : LexState) (letters : List Char) :
    List.Forall₂ Allows (inState state letters) (letters.map fun _ => state) := by
  induction letters with
  | nil => exact .nil
  | cons letter rest ih => exact .cons (allows_some state) ih

theorem forall₂_anyState {letters : List Char} {found : List LexState}
    (hlength : found.length = letters.length) :
    List.Forall₂ Allows (anyState letters) found := by
  induction letters generalizing found with
  | nil =>
      rw [List.eq_nil_of_length_eq_zero hlength]
      exact .nil
  | cons letter rest ih =>
      cases found with
      | nil => cases hlength
      | cons got found => exact .cons (allows_none got) (ih (Nat.succ_injective hlength))

/-! ## Marks -/

theorem rawText_append (before after : List JavaMark) :
    rawText (before ++ after) = rawText before ++ rawText after := List.flatMap_append

theorem rawText_plainly (letters : List Char) : rawText (plainly letters) = letters := by
  induction letters with
  | nil => rfl
  | cons letter rest ih => exact congrArg (letter :: ·) ih

theorem rawText_cons (mark : JavaMark) (rest : List JavaMark) :
    rawText (mark :: rest) = mark.text ++ rawText rest := rfl

/-- Where the text of marks begins with a letter other than a backslash, they do. -/
theorem head?_of_rawText {marks : List JavaMark} {letter : Char}
    (hhead : (rawText marks).head? = some letter) (hslash : letter ≠ backslash) :
    marks.head? = some (.plain letter) := by
  rcases marks with - | ⟨mark | escape, rest⟩
  · cases hhead
  · cases hhead
    rfl
  · exact absurd (Option.some.inj hhead).symm hslash

/-- What a letter means that no escape spells. -/
theorem means_plain {letter other : Char} :
    (JavaMark.plain letter).Means other ↔ letter = other := by
  constructor
  · exact fun hmeans => Char.ext (UInt32.toNat_inj.mp hmeans)
  · rintro rfl
    rfl

theorem head?_ne_of_means {marks : List JavaMark} {letter : Char} (hslash : letter ≠ backslash)
    (hnone : ∀ mark ∈ marks.head?, ¬mark.Means letter) : (rawText marks).head? ≠ some letter :=
  fun hhead => hnone _ (head?_of_rawText hhead hslash) rfl

theorem spells_singleton {marks : List JavaMark} {letter : Char} (hspells : Spells marks [letter]) :
    ∃ mark, marks = [mark] ∧ mark.Means letter :=
  List.map_eq_singleton_iff.mp hspells

theorem spells_pair {marks : List JavaMark} {first second : Char}
    (hspells : Spells marks [first, second]) :
    ∃ one two, marks = [one, two] ∧ one.Means first ∧ two.Means second := by
  obtain ⟨one, rest, rfl, hone, hrest⟩ := List.map_eq_cons_iff.mp hspells
  obtain ⟨two, rfl, htwo⟩ := spells_singleton hrest
  exact ⟨one, two, rfl, hone, htwo⟩

/-- What `lex` looks for. -/
def lexLetters : List Char := [doubleQuote, singleQuote, backslash, '/', '*', '\n']

theorem notMem_lexLetters_of_hex {digit : Char} (hhex : digit.toLower ∈ hexLetters) :
    digit ∉ lexLetters := by
  intro hmem
  simp only [lexLetters, List.mem_cons, List.not_mem_nil, or_false] at hmem
  rcases hmem with rfl | rfl | rfl | rfl | rfl | rfl <;> exact absurd hhex (by decide)

theorem turn_of_notMem {letter : Char} (hletter : letter ∉ lexLetters) (state : LexState)
    (rest : List Char) : turn state letter rest = (state, []) := by
  simp only [lexLetters, List.mem_cons, List.not_mem_nil, or_false, not_or] at hletter
  obtain ⟨hdouble, hsingle, hslash, hline, hstar, hbreak⟩ := hletter
  cases state <;>
    simp only [turn, lexTurn, hdouble, hsingle, hslash, hline, hstar, hbreak, false_and, if_false]

theorem notMem_lexLetters_of_tail {escape : UnicodeEscape} {letter : Char}
    (hletter : letter ∈ escape.tail) : letter ∉ lexLetters := by
  rcases List.mem_cons.mp hletter with rfl | hletter
  · decide
  · rcases List.mem_append.mp hletter with hmore | hdigit
    · rw [List.eq_of_mem_replicate hmore]
      decide
    · exact notMem_lexLetters_of_hex
        (of_decide_eq_true (List.all_eq_true.mp escape.hex letter hdigit))

theorem doubleQuote_notMem_unicode (escape : UnicodeEscape) : doubleQuote ∉ escape.text := by
  intro hmem
  rcases List.mem_cons.mp hmem with heq | htail
  · exact absurd heq (by decide)
  · exact notMem_lexLetters_of_tail htail (by decide)

theorem statesFrom_tail (state : LexState) (escape : UnicodeEscape) (rest : List Char) :
    statesFrom state [] (escape.tail ++ rest) =
      escape.tail.map (fun _ => state) ++ statesFrom state [] rest :=
  statesFrom_append (fun _ hletter => turn_of_notMem (notMem_lexLetters_of_tail hletter) state)
    rest

/-- A Unicode escape is read in the state where it begins. -/
theorem statesFrom_unicode (state : LexState) (escape : UnicodeEscape) (rest : List Char) :
    statesFrom state [] (escape.text ++ rest) =
      escape.text.map (fun _ => state) ++ statesFrom state [] rest := by
  have hslash : statesFrom state [] (backslash :: (escape.tail ++ rest)) =
      state :: statesFrom state [] (escape.tail ++ rest) := by
    cases state <;> rfl
  rw [UnicodeEscape.text, List.cons_append, hslash, statesFrom_tail]
  rfl

/-- A mark is read in the state where it begins if it is in its own letters. -/
theorem statesFrom_mark {state : LexState} {mark : JavaMark} {rest : List Char}
    (hplain : ∀ letter, mark = .plain letter → turn state letter rest = (state, [])) :
    statesFrom state [] (mark.text ++ rest) =
      mark.text.map (fun _ => state) ++ statesFrom state [] rest := by
  cases mark with
  | plain letter => exact statesFrom_cons (hplain letter rfl)
  | unicode escape => exact statesFrom_unicode state escape rest

theorem statesFrom_marks {state : LexState} {marks : List JavaMark}
    (hplain : ∀ letter, .plain letter ∈ marks → ∀ rest, turn state letter rest = (state, []))
    (rest : List Char) :
    statesFrom state [] (rawText marks ++ rest) =
      (rawText marks).map (fun _ => state) ++ statesFrom state [] rest := by
  induction marks with
  | nil => rfl
  | cons mark marks ih =>
      have hlater := ih fun letter hletter => hplain letter (List.mem_cons_of_mem _ hletter)
      rw [rawText_cons, List.append_assoc, statesFrom_mark, hlater, List.map_append,
        List.append_assoc]
      rintro letter rfl
      exact hplain letter List.mem_cons_self _

/-- A segment is read to its end in allowed states, and code follows. -/
def Reads (segment : Segment) (rest : List Char) : Prop :=
  ∃ found, statesFrom .code [] (rawText segment.marks ++ rest) =
      found ++ statesFrom .code [] rest ∧ List.Forall₂ Allows segment.states found

/-- A segment is read up to what closes it, and its state is kept. -/
def Enters (segment : Segment) (rest : List Char) : Prop :=
  ∃ front, front.length = (rawText segment.opening).length ∧
    statesFrom .code [] (rawText segment.marks ++ rest) =
      front ++ (rawText segment.inner).map (fun _ => segment.state) ++
        statesFrom segment.state [] (rawText segment.closing ++ rest)

section Reading

variable {segment : Segment} {rest : List Char}

theorem forall₂_states {front back : List LexState}
    (hfront : front.length = (rawText segment.opening).length)
    (hback : back.length = (rawText segment.closing).length) :
    List.Forall₂ Allows segment.states
      (front ++ (rawText segment.inner).map (fun _ => segment.state) ++ back) :=
  List.rel_append (List.rel_append (forall₂_anyState hfront)
    (forall₂_inState segment.state (rawText segment.inner))) (forall₂_anyState hback)

/-- At the end of the source it does not matter how a segment is closed. -/
theorem reads_last {front back : List LexState}
    (hfront : front.length = (rawText segment.opening).length)
    (hstates : statesFrom .code [] (rawText segment.marks ++ []) =
      front ++ (rawText segment.inner).map (fun _ => segment.state) ++ back) :
    Reads segment [] := by
  have hback : back.length = (rawText segment.closing).length := by
    have hlength := congrArg List.length hstates
    rw [length_statesFrom, Segment.marks, rawText_append, rawText_append] at hlength
    simp only [List.length_append, List.length_map, List.length_nil] at hlength
    omega
  exact ⟨_, hstates.trans (List.append_nil _).symm, forall₂_states hfront hback⟩

theorem Enters.reads_last (henters : Enters segment []) : Reads segment [] := by
  obtain ⟨front, hfront, hstates⟩ := henters
  exact Ktsense.Core.reads_last hfront hstates

theorem Enters.reads {back : List LexState} (henters : Enters segment rest)
    (hback : back.length = (rawText segment.closing).length)
    (hclosing : statesFrom segment.state [] (rawText segment.closing ++ rest) =
      back ++ statesFrom .code [] rest) : Reads segment rest := by
  obtain ⟨front, hfront, hstates⟩ := henters
  refine ⟨_, ?_, forall₂_states hfront hback⟩
  rw [hstates, hclosing, ← List.append_assoc]

theorem enters_of {front : List LexState}
    (hfront : front.length = (rawText segment.opening).length)
    (hopening : statesFrom .code [] (rawText segment.opening ++
      (rawText segment.inner ++ (rawText segment.closing ++ rest))) =
        front ++ statesFrom segment.state []
          (rawText segment.inner ++ (rawText segment.closing ++ rest)))
    (hinner : statesFrom segment.state []
        (rawText segment.inner ++ (rawText segment.closing ++ rest)) =
      (rawText segment.inner).map (fun _ => segment.state) ++
        statesFrom segment.state [] (rawText segment.closing ++ rest)) :
    Enters segment rest := by
  refine ⟨front, hfront, ?_⟩
  rw [Segment.marks, rawText_append, rawText_append, List.append_assoc, List.append_assoc,
    hopening, hinner, List.append_assoc]

/-! ## One segment -/

theorem turn_code {letter : Char} (hdouble : letter ≠ doubleQuote)
    (hsingle : letter ≠ singleQuote)
    (hcomment : letter = '/' → rest.head? ≠ some '/' ∧ rest.head? ≠ some '*') :
    turn .code letter rest = (.code, []) := by
  have hline : ¬(letter = '/' ∧ rest.head? = some '/') :=
    fun ⟨hslash, hnext⟩ => (hcomment hslash).1 hnext
  have hblock : ¬(letter = '/' ∧ rest.head? = some '*') :=
    fun ⟨hslash, hnext⟩ => (hcomment hslash).2 hnext
  simp only [turn, lexTurn, head?_charIndices, if_neg hline, if_neg hblock, hdouble, hsingle,
    false_and, if_false]

theorem enters_code {mark : JavaMark} {after : List JavaMark}
    (hvalid : (Segment.code mark).Valid after) : Enters (.code mark) (rawText after) := by
  obtain ⟨hdouble, hsingle, hcomment⟩ := hvalid
  refine ⟨[], rfl, ?_⟩
  have hshape : rawText (Segment.code mark).marks = mark.text := by
    simp [Segment.marks, Segment.opening, Segment.inner, Segment.closing, rawText]
  have hinner : rawText (Segment.code mark).inner = mark.text := List.append_nil _
  rw [hshape, hinner, statesFrom_mark]
  · rfl
  · rintro letter rfl
    rw [means_plain] at hdouble hsingle
    refine turn_code hdouble hsingle fun hletter => ?_
    have hboth := hcomment (means_plain.mpr hletter)
    exact ⟨head?_ne_of_means (by decide) fun next hnext => (hboth next hnext).1,
      head?_ne_of_means (by decide) fun next hnext => (hboth next hnext).2⟩

theorem turn_lineComment {letter : Char} (hletter : letter ≠ '\n') :
    turn .lineComment letter rest = (.lineComment, []) := by
  simp only [turn, lexTurn, if_neg hletter]

theorem statesFrom_lineComment {marks : List JavaMark} (hbreak : JavaMark.plain '\n' ∉ marks)
    (rest : List Char) :
    statesFrom .lineComment [] (rawText marks ++ rest) =
      (rawText marks).map (fun _ => LexState.lineComment) ++ statesFrom .lineComment [] rest := by
  apply statesFrom_marks
  rintro letter hletter rest
  apply turn_lineComment
  rintro rfl
  exact hbreak hletter

theorem enters_lineComment {body ending after : List JavaMark}
    (hvalid : (Segment.lineComment (plainly ['/', '/']) body ending).Valid after)
    (rest : List Char) : Enters (.lineComment (plainly ['/', '/']) body ending) rest := by
  have hturn (more : List Char) : statesFrom .code [] ('/' :: '/' :: more) =
      [LexState.code, .code] ++ statesFrom .lineComment [] more := rfl
  refine @enters_of _ _ [.code, .code] rfl (hturn _) (statesFrom_lineComment ?_ _)
  exact fun hmem => (hvalid.2.1 _ hmem).1 rfl

/-- A line feed of its own letter closes a line comment. -/
theorem statesFrom_ending {ending after : List JavaMark} (hends : EndsLine ending after)
    (hplain : .plain '\n' ∈ ending) (rest : List Char) :
    ∃ back, back.length = (rawText ending).length ∧
      statesFrom .lineComment [] (rawText ending ++ rest) = back ++ statesFrom .code [] rest := by
  have hlast : ∃ front, ending = front ++ [JavaMark.plain '\n'] ∧ JavaMark.plain '\n' ∉ front := by
    rcases hends with hfeed | hboth | ⟨hreturn, -⟩
    · obtain ⟨mark, rfl, -⟩ := spells_singleton hfeed
      rw [← List.mem_singleton.mp hplain]
      exact ⟨[], rfl, List.not_mem_nil⟩
    · obtain ⟨first, second, rfl, hfirst, -⟩ := spells_pair hboth
      have hone : JavaMark.plain '\n' ≠ first := by
        rintro rfl
        exact absurd (means_plain.mp hfirst) (by decide)
      rcases List.mem_cons.mp hplain with heq | hplain
      · exact absurd heq hone
      · rw [← List.mem_singleton.mp hplain]
        exact ⟨[first], rfl, fun hmem => hone (List.mem_singleton.mp hmem)⟩
    · obtain ⟨mark, rfl, hmark⟩ := spells_singleton hreturn
      rw [← List.mem_singleton.mp hplain] at hmark
      exact absurd (means_plain.mp hmark) (by decide)
  obtain ⟨front, rfl, hnone⟩ := hlast
  refine ⟨(rawText front).map (fun _ => LexState.lineComment) ++ [LexState.lineComment], ?_, ?_⟩
  · rw [rawText_append, List.length_append, List.length_append, List.length_map]
    rfl
  · rw [rawText_append, List.append_assoc, statesFrom_lineComment hnone, List.append_assoc]
    rfl

/-- A pair that nothing in front of the last letter begins. -/
theorem not_infix_of_cons {α : Type*} {marks : List α} {letter : α} {body : List α}
    (hnone : ¬marks <:+: letter :: body) : ¬marks <+: letter :: body ∧ ¬marks <:+: body := by
  rwa [List.infix_cons_iff, not_or] at hnone

theorem statesFrom_blockComment {body : List JavaMark}
    (hopen : ¬codes ['*', '/'] <:+: units body ++ codes ['*']) {rest : List Char}
    (hrest : rest.head? ≠ some '/') :
    statesFrom .blockComment [] (rawText body ++ rest) =
      (rawText body).map (fun _ => LexState.blockComment) ++ statesFrom .blockComment [] rest := by
  induction body with
  | nil => rfl
  | cons mark body ih =>
      obtain ⟨hhere, hlater⟩ := not_infix_of_cons hopen
      rw [rawText_cons, List.append_assoc, statesFrom_mark, ih hlater, List.map_append,
        List.append_assoc]
      rintro letter rfl
      have hclose : ¬(letter = '*' ∧ (rawText body ++ rest).head? = some '/') := by
        rintro ⟨rfl, hnext⟩
        rcases body with - | ⟨next, body⟩
        · exact hrest hnext
        · have hhead : (rawText (next :: body)).head? = some '/' := by
            cases next <;> exact hnext
          have hmark := head?_of_rawText hhead (by decide)
          cases hmark
          exact hhere ⟨units body ++ codes ['*'], rfl⟩
      simp only [turn, lexTurn, head?_charIndices, if_neg hclose]

theorem enters_blockComment {body closing after : List JavaMark}
    (hvalid : (Segment.blockComment (plainly ['/', '*']) body closing).Valid after)
    (rest : List Char) : Enters (.blockComment (plainly ['/', '*']) body closing) rest := by
  have hturn (more : List Char) : statesFrom .code [] ('/' :: '*' :: more) =
      [LexState.code, .code] ++ statesFrom .blockComment [] more := rfl
  obtain ⟨-, hclosing, hopen⟩ := hvalid
  refine @enters_of _ _ [.code, .code] rfl (hturn _) (statesFrom_blockComment hopen ?_)
  obtain ⟨star, slash, rfl, hstar, -⟩ := spells_pair hclosing
  cases star with
  | plain letter =>
      rw [means_plain] at hstar
      rw [hstar]
      exact fun hhead => absurd (Option.some.inj hhead) (by decide)
  | unicode escape => exact fun hhead => absurd (Option.some.inj hhead) (by decide)

/-- A literal between quotes, in the state that reads it. -/
theorem statesFrom_pieces {state : LexState} {quote : Char}
    (hplain : ∀ letter rest, letter ≠ quote → letter ≠ backslash →
      turn state letter rest = (state, []))
    (hescape : ∀ rest, turn state backslash rest = (state, [state])) {body : List Piece}
    (hbody : ∀ piece ∈ body, piece.Between quote) (hshown : ∀ piece ∈ body, ¬piece.Hides quote)
    (rest : List Char) :
    statesFrom state [] (rawText (piecesMarks body) ++ rest) =
      (rawText (piecesMarks body)).map (fun _ => state) ++ statesFrom state [] rest := by
  induction body with
  | nil => rfl
  | cons piece body ih =>
      have hlater := ih (fun other hother => hbody other (List.mem_cons_of_mem _ hother))
        fun other hother => hshown other (List.mem_cons_of_mem _ hother)
      have hpiece := hbody piece List.mem_cons_self
      have hhides := hshown piece List.mem_cons_self
      have hshape : rawText (piecesMarks (piece :: body)) =
          rawText piece.marks ++ rawText (piecesMarks body) := rawText_append _ _
      suffices hhere : ∀ more, statesFrom state [] (rawText piece.marks ++ more) =
          (rawText piece.marks).map (fun _ => state) ++ statesFrom state [] more by
        rw [hshape, List.append_assoc, hhere, hlater, List.map_append, List.append_assoc]
      intro more
      cases piece with
      | single mark =>
          apply statesFrom_marks
          intro letter hletter rest
          obtain ⟨hquote, hslash, -⟩ := hpiece
          rw [← List.mem_singleton.mp hletter] at hquote hslash
          exact hplain letter rest (fun heq => hquote (means_plain.mpr heq))
            fun heq => hslash (means_plain.mpr heq)
      | escape slash letter =>
          cases slash with
          | plain first =>
              obtain rfl : first = backslash := means_plain.mp hpiece.1
              cases letter with
              | plain second =>
                  change statesFrom state [] (backslash :: second :: more) = _
                  rw [statesFrom_cons (hescape _)]
                  rfl
              | unicode escape =>
                  have hmarks : rawText [.plain backslash, .unicode escape] =
                      backslash :: backslash :: escape.tail :=
                    congrArg (backslash :: ·) (List.append_nil _)
                  change statesFrom state []
                    (rawText [.plain backslash, .unicode escape] ++ more) = List.map _
                      (rawText [.plain backslash, .unicode escape]) ++ _
                  rw [hmarks, List.cons_append, List.cons_append, statesFrom_cons (hescape _),
                    statesFrom, statesFrom_tail]
                  rfl
          | unicode escape =>
              apply statesFrom_marks
              intro second hsecond rest
              have hletter : letter = .plain second := by
                rcases List.mem_cons.mp hsecond with heq | hmem
                · cases heq
                · exact (List.mem_singleton.mp hmem).symm
              refine hplain second rest (fun heq => hhides ?_) fun heq => hhides ?_
              · exact ⟨escape, second, by rw [hletter], .inl heq⟩
              · exact ⟨escape, second, by rw [hletter], .inr heq⟩

/-- A quote opens a string unless two more follow. -/
theorem turn_doubleQuote
    (hquotes : ¬(rest.head? = some doubleQuote ∧ (rest.drop 1).head? = some doubleQuote)) :
    turn .code doubleQuote rest = (.stringLiteral, []) := by
  have hslash : doubleQuote ≠ '/' := by decide
  simp only [turn, lexTurn, head?_charIndices, head?_drop_charIndices, hslash, false_and,
    if_false, true_and, if_neg hquotes, if_true]

theorem rawText_singleton (mark : JavaMark) : rawText [mark] = mark.text := List.append_nil _

/-- A piece of a string does not begin with its quote. -/
theorem head?_piecesMarks {quote : Char} {body : List Piece} (hquote : quote ≠ backslash)
    (hbody : ∀ piece ∈ body, piece.Between quote) (hnonempty : body ≠ []) (rest : List Char) :
    (rawText (piecesMarks body) ++ rest).head? ≠ some quote := by
  obtain ⟨piece, body, rfl⟩ := List.exists_cons_of_ne_nil hnonempty
  have hpiece := hbody piece List.mem_cons_self
  intro hhead
  cases piece with
  | single mark =>
      cases mark with
      | plain letter => exact hpiece.1 (means_plain.mpr (Option.some.inj hhead))
      | unicode escape => exact hquote (Option.some.inj hhead).symm
  | escape slash letter =>
      cases slash with
      | plain first =>
          exact hquote ((Option.some.inj hhead).symm.trans (means_plain.mp hpiece.1))
      | unicode escape => exact hquote (Option.some.inj hhead).symm

theorem enters_stringLiteral {body : List Piece} {closing : JavaMark} {after : List JavaMark}
    (hvalid : (Segment.stringLiteral (.plain doubleQuote) body closing).Valid after)
    (hshown : ∀ piece ∈ body, ¬piece.Hides doubleQuote) :
    Enters (.stringLiteral (.plain doubleQuote) body closing) (rawText after) := by
  obtain ⟨-, hclosing, hbody, hempty⟩ := hvalid
  refine @enters_of _ _ [.code] rfl (statesFrom_cons (turn_doubleQuote ?_))
    (statesFrom_pieces (fun letter rest hquote hslash => ?_) (fun _ => rfl) hbody hshown _)
  · rintro ⟨hnext, hafter⟩
    rcases eq_or_ne body [] with rfl | hnonempty
    · cases closing with
      | plain letter =>
          have hhead : (rawText after).head? = some doubleQuote := hafter
          exact head?_ne_of_means (by decide) (hempty rfl) hhead
      | unicode escape => exact absurd (Option.some.inj hnext) (by decide)
    · exact head?_piecesMarks (by decide) hbody hnonempty _ hnext
  · simp only [turn, Segment.state, lexTurn, if_neg hquote, if_neg hslash]

theorem enters_charLiteral {body : List Piece} {closing : JavaMark} {after : List JavaMark}
    (hvalid : (Segment.charLiteral (.plain singleQuote) body closing).Valid after)
    (hshown : ∀ piece ∈ body, ¬piece.Hides singleQuote) (rest : List Char) :
    Enters (.charLiteral (.plain singleQuote) body closing) rest := by
  refine @enters_of _ _ [.code] rfl (statesFrom_cons rfl)
    (statesFrom_pieces (fun letter rest hquote hslash => ?_) (fun _ => rfl) hvalid.2.2.1 hshown _)
  simp only [turn, Segment.state, lexTurn, if_neg hquote, if_neg hslash]

/-! ## Text blocks -/

theorem turn_textBlock {letter : Char}
    (hquotes : ¬threeQuotes <+: letter :: rest) :
    turn .textBlock letter rest = (.textBlock, []) := by
  have hclose : ¬(letter = doubleQuote ∧ rest.head? = some doubleQuote ∧
      (rest.drop 1).head? = some doubleQuote) := by
    rintro ⟨rfl, hnext, hafter⟩
    obtain ⟨more, rfl⟩ := List.head?_eq_some_iff.mp hnext
    obtain ⟨last, hlast⟩ := List.head?_eq_some_iff.mp hafter
    exact hquotes ⟨last, congrArg (doubleQuote :: doubleQuote :: ·) hlast.symm⟩
  simp only [turn, lexTurn, head?_charIndices, head?_drop_charIndices, if_neg hclose]

/-- A text without three quotes in a row that could go on with one. -/
theorem statesFrom_textBlock {letters : List Char} (hnone : ¬threeQuotes <:+: letters)
    (hlast : letters.getLast? = some doubleQuote → rest.head? ≠ some doubleQuote) :
    statesFrom .textBlock [] (letters ++ rest) =
      letters.map (fun _ => LexState.textBlock) ++ statesFrom .textBlock [] rest := by
  induction letters with
  | nil => rfl
  | cons letter letters ih =>
      obtain ⟨hhere, hlater⟩ := not_infix_of_cons hnone
      have hturn : turn .textBlock letter (letters ++ rest) = (.textBlock, []) := by
        apply turn_textBlock
        intro hquotes
        rcases letters with - | ⟨second, - | ⟨third, letters⟩⟩
        · obtain ⟨rfl, hrest⟩ := List.cons_prefix_cons.mp hquotes
          obtain ⟨more, rfl⟩ := hrest
          exact hlast rfl rfl
        · obtain ⟨rfl, hrest⟩ := List.cons_prefix_cons.mp hquotes
          obtain ⟨rfl, hthird⟩ := List.cons_prefix_cons.mp hrest
          obtain ⟨more, rfl⟩ := hthird
          exact hlast rfl rfl
        · apply hhere
          refine List.prefix_of_prefix_length_le hquotes
            (List.prefix_append (letter :: second :: third :: letters) rest) ?_
          simp [threeQuotes]
      have hlater' := ih hlater fun hletters => hlast ?_
      · rw [List.cons_append, statesFrom_cons hturn, hlater']
        rfl
      · rw [List.getLast?_cons, hletters]
        rfl
theorem piecesMarks_concat (front : List Piece) (piece : Piece) :
    piecesMarks (front ++ [piece]) = piecesMarks front ++ piece.marks := by
  rw [piecesMarks, List.flatMap_append, List.flatMap_singleton]
  rfl

/-- The last letter of a mark is a quote only if the mark is a plain one. -/
theorem eq_of_getLast?_quote {mark : JavaMark} {front : List Char}
    (hlast : (front ++ mark.text).getLast? = some doubleQuote) : mark = .plain doubleQuote := by
  cases mark with
  | plain letter =>
      have hletter : (front ++ [letter]).getLast? = some doubleQuote := hlast
      rw [List.getLast?_concat] at hletter
      rw [Option.some.inj hletter]
  | unicode escape =>
      have hmem : doubleQuote ∈ escape.text := by
        have hnonempty : escape.text ≠ [] := List.cons_ne_nil _ _
        have htext : (front ++ escape.text).getLast? = some doubleQuote := hlast
        rw [List.getLast?_append_of_ne_nil _ hnonempty] at htext
        exact List.mem_of_getLast? htext
      exact absurd hmem (doubleQuote_notMem_unicode escape)

/-- A text block whose last letter is a quote has it escaped. -/
theorem exists_escape_of_getLast? {body : List Piece}
    (hplain : body.getLast?.map Piece.isQuote ≠ some true)
    (hlast : (rawText (piecesMarks body)).getLast? = some doubleQuote) :
    ∃ front slash, body = front ++ [Piece.escape slash (.plain doubleQuote)] := by
  rcases List.eq_nil_or_concat body with rfl | ⟨front, piece, rfl⟩
  · cases hlast
  · rw [List.concat_eq_append] at hplain hlast ⊢
    rw [List.getLast?_concat] at hplain
    rw [piecesMarks_concat, rawText_append] at hlast
    cases piece with
    | single mark =>
        rw [Piece.marks, rawText_singleton] at hlast
        rw [eq_of_getLast?_quote hlast] at hplain
        exact absurd rfl hplain
    | escape slash letter =>
        have hshape : rawText (Piece.escape slash letter).marks = slash.text ++ letter.text := by
          rw [Piece.marks, rawText_cons, rawText_singleton]
        rw [hshape, ← List.append_assoc] at hlast
        rw [eq_of_getLast?_quote hlast]
        exact ⟨front, slash, rfl⟩

/-- The opening of a text block. -/
theorem statesFrom_opening {blanks ending after : List JavaMark}
    (hblanks : ∀ mark ∈ blanks, mark.unit ∈ codes [' ', '\t', Char.ofNat 0x0C])
    (hends : EndsLine ending after) (rest : List Char) :
    ∃ front, front.length = (rawText (plainly threeQuotes ++ blanks ++ ending)).length ∧
      statesFrom .code [] (rawText (plainly threeQuotes ++ blanks ++ ending) ++ rest) =
        front ++ statesFrom .textBlock [] rest := by
  have hletters (letter : Char) (hletter : .plain letter ∈ blanks ++ ending) :
      letter ≠ doubleQuote := by
    rintro rfl
    rcases List.mem_append.mp hletter with hblank | hbreak
    · exact absurd (hblanks _ hblank) (by decide)
    · have hunit : doubleQuote.toNat ∈ units ending := List.mem_map.mpr ⟨_, hbreak, rfl⟩
      rcases hends with hfeed | hboth | ⟨hreturn, -⟩
      · rw [hfeed] at hunit
        exact absurd hunit (by decide)
      · rw [hboth] at hunit
        exact absurd hunit (by decide)
      · rw [hreturn] at hunit
        exact absurd hunit (by decide)
  have hstays := statesFrom_marks (fun letter hletter rest =>
    turn_textBlock fun hquotes => hletters letter hletter
      (List.cons_prefix_cons.mp hquotes).1.symm) rest
  have hquotes (more : List Char) : statesFrom .code [] (threeQuotes ++ more) =
      [LexState.code, .textBlock, .textBlock] ++ statesFrom .textBlock [] more := rfl
  refine ⟨[LexState.code, .textBlock, .textBlock] ++
    (rawText (blanks ++ ending)).map (fun _ => LexState.textBlock), ?_, ?_⟩
  · rw [List.append_assoc, rawText_append (plainly threeQuotes), rawText_plainly,
      List.length_append, List.length_append, List.length_map]
    rfl
  · rw [List.append_assoc (plainly threeQuotes), rawText_append, rawText_plainly,
      List.append_assoc threeQuotes, hquotes, hstays, List.append_assoc]

theorem enters_textBlock {blanks ending closing after : List JavaMark} {body : List Piece}
    (hvalid : (Segment.textBlock (plainly threeQuotes) blanks ending body closing).Valid after)
    (hinside : ¬threeQuotes <:+: rawText (piecesMarks body))
    (hends : ∀ slash, body.getLast? ≠ some (.escape slash (.plain doubleQuote)))
    (rest : List Char) :
    Enters (.textBlock (plainly threeQuotes) blanks ending body closing) rest := by
  obtain ⟨-, -, hblanks, hbreak, -, -, hlast⟩ := hvalid
  obtain ⟨front, hfront, hopening⟩ := statesFrom_opening hblanks hbreak
    (rawText (piecesMarks body) ++ (rawText closing ++ rest))
  refine enters_of hfront hopening (statesFrom_textBlock hinside fun hquote => ?_)
  obtain ⟨earlier, slash, rfl⟩ := exists_escape_of_getLast? hlast hquote
  exact absurd List.getLast?_concat (hends slash)

/-- A segment that opens plainly is read in its state. -/
theorem enters_segment {after : List JavaMark} (hvalid : segment.Valid after)
    (hopens : segment.OpensPlainly) (hslash : ¬segment.HidesSlash)
    (hinside : ¬segment.ClosesInside) (hends : ¬segment.EndsEscaped) :
    Enters segment (rawText after) := by
  cases segment with
  | code mark => exact enters_code hvalid
  | lineComment opening body ending =>
      obtain rfl : opening = _ := hopens
      exact enters_lineComment hvalid _
  | blockComment opening body closing =>
      obtain rfl : opening = _ := hopens
      exact enters_blockComment hvalid _
  | stringLiteral opening body closing =>
      obtain rfl : opening = _ := hopens
      exact enters_stringLiteral hvalid fun piece hpiece hhides => hslash ⟨piece, hpiece, hhides⟩
  | charLiteral opening body closing =>
      obtain rfl : opening = _ := hopens
      exact enters_charLiteral hvalid (fun piece hpiece hhides => hslash ⟨piece, hpiece, hhides⟩) _
  | textBlock opening blanks ending body closing =>
      obtain rfl : opening = _ := hopens
      exact enters_textBlock hvalid hinside (fun slash hlast => hends ⟨slash, hlast⟩) _

/-- What closes a segment plainly is seen. -/
theorem statesFrom_closing {after : List JavaMark} (hvalid : segment.Valid after)
    (hcloses : segment.ClosesPlainly) (hmore : after ≠ []) (rest : List Char) :
    ∃ back, back.length = (rawText segment.closing).length ∧
      statesFrom segment.state [] (rawText segment.closing ++ rest) =
        back ++ statesFrom .code [] rest := by
  cases segment with
  | code mark => exact ⟨[], rfl, rfl⟩
  | lineComment opening body ending =>
      rcases hvalid.2.2 with ⟨-, hlast⟩ | hends
      · exact absurd hlast hmore
      · refine statesFrom_ending hends (hcloses.resolve_left ?_) rest
        rintro rfl
        rcases hends with hfeed | hboth | ⟨hreturn, -⟩
        · cases hfeed
        · cases hboth
        · cases hreturn
  | blockComment opening body closing =>
      obtain rfl : closing = _ := hcloses
      exact ⟨[.blockComment, .blockComment], rfl, rfl⟩
  | stringLiteral opening body closing =>
      obtain rfl : closing = _ := hcloses
      exact ⟨[.stringLiteral], rfl, rfl⟩
  | charLiteral opening body closing =>
      obtain rfl : closing = _ := hcloses
      exact ⟨[.charLiteral], rfl, rfl⟩
  | textBlock opening blanks ending body closing =>
      obtain rfl : closing = _ := hcloses
      exact ⟨[.textBlock, .textBlock, .textBlock], rfl, rfl⟩

theorem statesFrom_head (state : LexState) (letter : Char) (rest : List Char) :
    ∃ found, statesFrom state [] (letter :: rest) = state :: found := ⟨_, rfl⟩

/-- What stands in front of the quote that a text block ends in. -/
theorem escaped_end {front : List Piece} {slash : JavaMark}
    (hslash : (Piece.escape slash (.plain doubleQuote)).InBlock) :
    ∃ letters : List Char,
      rawText (piecesMarks (front ++ [Piece.escape slash (.plain doubleQuote)])) =
        letters ++ [doubleQuote] ∧ letters.getLast? ≠ some doubleQuote := by
  refine ⟨rawText (piecesMarks front) ++ slash.text, ?_, fun hlast => ?_⟩
  · rw [piecesMarks_concat, rawText_append, List.append_assoc]
    rfl
  · rw [eq_of_getLast?_quote hlast] at hslash
    exact absurd (means_plain.mp hslash.1) (by decide)

theorem reads_escaped {blanks ending closing : List JavaMark} {body : List Piece}
    (hvalid : (Segment.textBlock (plainly threeQuotes) blanks ending body closing).Valid [])
    (hinside : ¬threeQuotes <:+: rawText (piecesMarks body)) {slash : JavaMark}
    (hends : body.getLast? = some (.escape slash (.plain doubleQuote))) :
    Reads (.textBlock (plainly threeQuotes) blanks ending body closing) [] := by
  obtain ⟨-, -, hblanks, hbreak, hpieces, -, -⟩ := hvalid
  obtain ⟨earlier, rfl⟩ := List.getLast?_eq_some_iff.mp hends
  obtain ⟨letters, hletters, hlast⟩ :=
    @escaped_end earlier _ (hpieces _ (List.mem_append_right _ List.mem_cons_self))
  have hnone : ¬threeQuotes <:+: letters := by
    rw [hletters] at hinside
    exact fun hrun => hinside (List.infix_append_of_infix_left hrun)
  obtain ⟨front, hfront, hopening⟩ := statesFrom_opening hblanks hbreak
    (letters ++ doubleQuote :: (rawText closing ++ []))
  obtain ⟨more, hmore⟩ := statesFrom_head .textBlock doubleQuote (rawText closing ++ [])
  refine @reads_last _ front more hfront ?_
  rw [Segment.marks, rawText_append, rawText_append, Segment.inner, hletters, List.append_assoc,
    List.append_assoc, List.append_assoc]
  refine hopening.trans ?_
  rw [statesFrom_textBlock hnone fun hquote => absurd hquote hlast, hmore]
  simp [Segment.state]

/-- A segment is read to its end unless the lexer loses its way in it. -/
theorem reads_segment {after : List JavaMark} (hvalid : segment.Valid after)
    (hopens : segment.OpensPlainly) (hslash : ¬segment.HidesSlash)
    (hinside : ¬segment.ClosesInside)
    (hcloses : after = [] ∨ segment.ClosesPlainly ∧ ¬segment.EndsEscaped) :
    Reads segment (rawText after) := by
  by_cases hlast : after = []
  · obtain rfl := hlast
    by_cases hends : segment.EndsEscaped
    · cases segment with
      | textBlock opening blanks ending body closing =>
          obtain rfl : opening = _ := hopens
          exact reads_escaped hvalid hinside hends.choose_spec
      | _ => cases hends
    · exact (enters_segment hvalid hopens hslash hinside hends).reads_last
  · obtain ⟨hplain, hends⟩ := hcloses.resolve_left hlast
    obtain ⟨back, hback, hclosing⟩ := statesFrom_closing hvalid hplain hlast (rawText after)
    exact (enters_segment hvalid hopens hslash hinside hends).reads hback hclosing

end Reading

/-! ## Whole sources -/

/-- Nothing inside a segment misleads the lexer. -/
structure Segment.Plain (segment : Segment) : Prop where
  opens : segment.OpensPlainly
  slash : ¬segment.HidesSlash
  inside : ¬segment.ClosesInside

/-- The lexer does not see where the segment ends, but goes on in its state. -/
def Segment.RunsOn (segment : Segment) : Prop :=
  ¬segment.ClosesPlainly ∧ ¬segment.EndsEscaped ∨ segment.ClosesPlainly ∧ segment.EndsEscaped

/-- The lexer keeps to the grammar: nothing misleads it inside a segment, and it sees the
end of each but the last. -/
structure KeepsWay (segments : List Segment) : Prop where
  plain : ∀ segment ∈ segments, segment.Plain
  ends : ∀ segment ∈ segments.dropLast, segment.ClosesPlainly ∧ ¬segment.EndsEscaped

/-- The first segment where the lexer loses its way is a text block that it leaves inside, or
one that runs on into a character of code. -/
def LosesWay (segments : List Segment) : Prop :=
  ∃ (before : List Segment) (segment : Segment) (after : List Segment),
    segments = before ++ segment :: after ∧
    (∀ earlier ∈ before, earlier.Plain ∧ earlier.ClosesPlainly ∧ ¬earlier.EndsEscaped) ∧
      segment.OpensPlainly ∧ (segment.ClosesInside ∨
        segment.Plain ∧ segment.RunsOn ∧ ∃ mark more, after = .code mark :: more)

theorem rawText_sourceMarks_cons (segment : Segment) (rest : List Segment) :
    rawText (sourceMarks (segment :: rest)) =
      rawText segment.marks ++ rawText (sourceMarks rest) := rawText_append _ _

theorem reads_before {before after : List Segment} (hvalid : ValidSource (before ++ after))
    (hreads : ∀ segment ∈ before,
      segment.Plain ∧ segment.ClosesPlainly ∧ ¬segment.EndsEscaped) :
    ValidSource after ∧ ∃ found,
      statesFrom .code [] (rawText (sourceMarks (before ++ after))) =
        found ++ statesFrom .code [] (rawText (sourceMarks after)) ∧
          List.Forall₂ Allows (before.flatMap Segment.states) found := by
  induction before with
  | nil => exact ⟨hvalid, [], rfl, .nil⟩
  | cons segment before ih =>
      obtain ⟨hhere, hlater⟩ := hvalid
      obtain ⟨hplain, hcloses⟩ := hreads segment List.mem_cons_self
      obtain ⟨hafter, found, hfound, hallowed⟩ :=
        ih hlater fun other hother => hreads other (List.mem_cons_of_mem _ hother)
      obtain ⟨first, hfirst, hstates⟩ :=
        reads_segment hhere hplain.opens hplain.slash hplain.inside (.inr hcloses)
      refine ⟨hafter, first ++ found, ?_, List.rel_append hstates hallowed⟩
      rw [List.cons_append, rawText_sourceMarks_cons, List.append_assoc, ← hfound]
      exact hfirst

theorem forall₂_of_keepsWay {segments : List Segment} (hvalid : ValidSource segments)
    (hkeeps : KeepsWay segments) :
    List.Forall₂ Allows (segments.flatMap Segment.states)
      (statesFrom .code [] (rawText (sourceMarks segments))) := by
  rcases List.eq_nil_or_concat segments with rfl | ⟨before, last, rfl⟩
  · exact .nil
  · rw [List.concat_eq_append] at hvalid hkeeps ⊢
    have hbefore : ∀ segment ∈ before,
        segment.Plain ∧ segment.ClosesPlainly ∧ ¬segment.EndsEscaped := by
      intro segment hsegment
      refine ⟨hkeeps.plain segment (List.mem_append_left _ hsegment), ?_⟩
      apply hkeeps.ends
      rwa [List.dropLast_concat]
    have hplain := hkeeps.plain last (List.mem_append_right _ (List.mem_singleton_self _))
    obtain ⟨hafter, found, hfound, hallowed⟩ := reads_before hvalid hbefore
    obtain ⟨ending, hending, hstates⟩ :=
      reads_segment hafter.1 hplain.opens hplain.slash hplain.inside (.inl rfl)
    have hlast : statesFrom .code [] (rawText (sourceMarks [last])) = ending := by
      calc statesFrom .code [] (rawText (sourceMarks [last])) =
            statesFrom .code [] (rawText last.marks ++ []) := by
              rw [rawText_sourceMarks_cons]
              rfl
        _ = ending ++ statesFrom .code [] [] := hending
        _ = ending := List.append_nil ending
    rw [hfound, hlast, List.flatMap_append, List.flatMap_singleton]
    exact List.rel_append hallowed hstates

/-! ## Losing the way -/

/-- What is allowed at a place is what is found there. -/
theorem eq_of_allows {wants later : List (Option LexState)} {found others : List LexState}
    {want got : LexState} (hlength : wants.length = found.length)
    (hallows : List.Forall₂ Allows (wants ++ some want :: later) (found ++ got :: others)) :
    got = want := by
  have hrest := List.forall₂_drop_append _ _ _ hallows
  rw [← hlength, List.drop_left] at hrest
  exact (List.forall₂_cons.mp hrest).1 want rfl

theorem exists_first_quotes {letters : List Char} (hrun : threeQuotes <:+: letters) :
    ∃ front more, letters = front ++ threeQuotes ++ more ∧
      ¬threeQuotes <:+: front ++ [doubleQuote, doubleQuote] := by
  induction letters with
  | nil => exact absurd (List.infix_nil.mp hrun) (by decide)
  | cons letter letters ih =>
      by_cases hhere : threeQuotes <+: letter :: letters
      · obtain ⟨more, hmore⟩ := hhere
        exact ⟨[], more, hmore.symm, by decide⟩
      · obtain ⟨front, more, rfl, hnone⟩ := ih ((List.infix_cons_iff.mp hrun).resolve_left hhere)
        refine ⟨letter :: front, more, rfl, ?_⟩
        rw [List.cons_append, List.infix_cons_iff, not_or]
        refine ⟨fun hstart => hhere (hstart.trans ⟨doubleQuote :: more, ?_⟩), hnone⟩
        simp [threeQuotes]

/-- Up to the first three quotes in a row a text block is read. -/
theorem statesFrom_quotes {letters : List Char}
    (hopen : ¬threeQuotes <:+: letters ++ [doubleQuote, doubleQuote]) (rest : List Char) :
    statesFrom .textBlock [] (letters ++ (threeQuotes ++ rest)) =
      letters.map (fun _ => LexState.textBlock) ++
        ([LexState.textBlock, .textBlock, .textBlock] ++ statesFrom .code [] rest) := by
  have hquotes : statesFrom .textBlock [] (threeQuotes ++ rest) =
      [LexState.textBlock, .textBlock, .textBlock] ++ statesFrom .code [] rest := rfl
  rw [statesFrom_textBlock (fun hrun => hopen (List.infix_append_of_infix_left hrun)), hquotes]
  intro hlast
  obtain ⟨front, rfl⟩ := List.getLast?_eq_some_iff.mp hlast
  refine absurd ⟨front, [], ?_⟩ hopen
  simp [threeQuotes]

/-- Of two quotes in a row that end a text block the second is not escaped. -/
theorem isQuote_of_two_quotes {body : List Piece} {front : List Char}
    (hpieces : ∀ piece ∈ body, piece.InBlock)
    (htext : rawText (piecesMarks body) = front ++ [doubleQuote, doubleQuote]) :
    body.getLast?.map Piece.isQuote = some true := by
  by_contra hplain
  have hlast : (rawText (piecesMarks body)).getLast? = some doubleQuote := by
    rw [htext, List.getLast?_append]
    rfl
  obtain ⟨earlier, slash, rfl⟩ := exists_escape_of_getLast? hplain hlast
  obtain ⟨letters, hletters, hescaped⟩ :=
    @escaped_end earlier _ (hpieces _ (List.mem_append_right _ List.mem_cons_self))
  have hsame : letters ++ [doubleQuote] = front ++ [doubleQuote] ++ [doubleQuote] := by
    rw [← hletters, htext]
    simp
  rw [List.append_cancel_right hsame, List.getLast?_concat] at hescaped
  exact hescaped rfl

section Losing

variable {segment : Segment} {after : List JavaMark} {rest : List Char}

/-- Where the states found leave those allowed, they do not agree. -/
theorem disagrees_of {front back found others : List LexState} {later : List (Option LexState)}
    {want got : LexState} (hfront : front.length = (rawText segment.opening).length)
    (hback : back.length = (rawText segment.closing).length)
    (hfound : found = front ++ (rawText segment.inner).map (fun _ => segment.state) ++ back ++
      got :: others) (hother : got ≠ want) :
    ¬List.Forall₂ Allows (segment.states ++ some want :: later) found := by
  intro hallows
  rw [hfound] at hallows
  refine hother (eq_of_allows ?_ hallows)
  rw [Segment.states, anyState, inState, anyState]
  simp only [List.length_append, List.length_map, hfront, hback]

/-- Behind three quotes inside a text block the lexer takes its text for code. -/
theorem disagrees_of_closesInside (hvalid : segment.Valid after) (hopens : segment.OpensPlainly)
    (hinside : segment.ClosesInside) (later : List (Option LexState)) :
    ¬List.Forall₂ Allows (segment.states ++ later)
      (statesFrom .code [] (rawText segment.marks ++ rest)) := by
  cases segment with
  | textBlock opening blanks ending body closing =>
      obtain rfl : opening = _ := hopens
      obtain ⟨-, -, hblanks, hbreak, hpieces, -, hlast⟩ := hvalid
      obtain ⟨front, more, hbody, hnone⟩ := exists_first_quotes hinside
      cases more with
      | nil =>
          have htwo : rawText (piecesMarks body) =
              front ++ [doubleQuote] ++ [doubleQuote, doubleQuote] := by
            rw [hbody]
            simp [threeQuotes]
          exact absurd (isQuote_of_two_quotes hpieces htwo) hlast
      | cons letter more =>
          intro hallows
          obtain ⟨opened, hopened, hopening⟩ := statesFrom_opening hblanks hbreak
            (front ++ (threeQuotes ++ letter :: (more ++ rawText closing ++ rest)))
          obtain ⟨found, hfound⟩ :=
            statesFrom_head .code letter (more ++ rawText closing ++ rest)
          have hmarks : rawText (Segment.textBlock (plainly threeQuotes) blanks ending body
              closing).marks ++ rest = rawText (plainly threeQuotes ++ blanks ++ ending) ++
                (front ++ (threeQuotes ++ letter :: (more ++ rawText closing ++ rest))) := by
            rw [Segment.marks, rawText_append, rawText_append, Segment.inner, hbody]
            simp [Segment.opening, Segment.closing]
          have hwants : (Segment.textBlock (plainly threeQuotes) blanks ending body
              closing).states ++ later =
                anyState (rawText (plainly threeQuotes ++ blanks ++ ending)) ++
                  inState .textBlock (front ++ threeQuotes) ++ some .textBlock ::
                    (inState .textBlock more ++ anyState (rawText closing) ++ later) := by
            simp only [Segment.states, Segment.opening, Segment.inner, Segment.closing,
              Segment.state, hbody, inState, List.map_append, List.map_cons, List.append_assoc,
              List.cons_append]
          have hgot : statesFrom .code [] (rawText (Segment.textBlock (plainly threeQuotes)
              blanks ending body closing).marks ++ rest) =
                opened ++ (front.map (fun _ => LexState.textBlock) ++
                  [LexState.textBlock, .textBlock, .textBlock]) ++ LexState.code :: found := by
            rw [hmarks, hopening, statesFrom_quotes hnone, hfound]
            simp
          rw [hgot, hwants] at hallows
          have hstate : LexState.code = .textBlock :=
            eq_of_allows (by simp [anyState, inState, threeQuotes, hopened]) hallows
          cases hstate
  | _ => cases hinside

/-- A block's closing quotes that an escape spells are not three in a row. -/
theorem not_infix_closing {closing : List JavaMark} (hspells : Spells closing threeQuotes)
    (hplain : closing ≠ plainly threeQuotes) : ¬threeQuotes <:+: rawText closing := by
  have hcount (mark : JavaMark) : mark.text.count doubleQuote ≤ 1 := by
    cases mark with
    | plain letter => exact List.count_le_length
    | unicode escape =>
        rw [JavaMark.text, List.count_eq_zero_of_not_mem (doubleQuote_notMem_unicode escape)]
        exact Nat.zero_le 1
  have hmark (mark : JavaMark) (hmeans : mark.Means doubleQuote)
      (hone : mark.text.count doubleQuote = 1) : mark = .plain doubleQuote := by
    cases mark with
    | plain letter => rw [means_plain.mp hmeans]
    | unicode escape =>
        rw [JavaMark.text,
          List.count_eq_zero_of_not_mem (doubleQuote_notMem_unicode escape)] at hone
        cases hone
  intro hrun
  obtain ⟨first, others, rfl, hfirst, hothers⟩ := List.map_eq_cons_iff.mp hspells
  obtain ⟨second, third, rfl, hsecond, hthird⟩ := spells_pair hothers
  have hthree : 3 ≤ (rawText [first, second, third]).count doubleQuote :=
    hrun.sublist.count_le doubleQuote
  have hsum : (rawText [first, second, third]).count doubleQuote =
      first.text.count doubleQuote + (second.text.count doubleQuote +
        third.text.count doubleQuote) := by
    rw [rawText_cons, rawText_cons, rawText_singleton, List.count_append, List.count_append]
  have hone := hcount first
  have htwo := hcount second
  have hlast := hcount third
  refine hplain ?_
  rw [hmark first hfirst (by omega), hmark second hsecond (by omega),
    hmark third hthird (by omega)]
  rfl

/-- What closes a segment unseen is read in its state. -/
theorem statesFrom_unseen (hvalid : segment.Valid after) (hcloses : ¬segment.ClosesPlainly)
    (hrest : rest.head? ≠ some doubleQuote) :
    statesFrom segment.state [] (rawText segment.closing ++ rest) =
      (rawText segment.closing).map (fun _ => segment.state) ++
        statesFrom segment.state [] rest := by
  cases segment with
  | code mark => exact absurd trivial hcloses
  | lineComment opening body ending =>
      exact statesFrom_lineComment (fun hbreak => hcloses (.inr hbreak)) rest
  | blockComment opening body closing =>
      obtain ⟨star, slash, rfl, hstar, hslash⟩ := spells_pair hvalid.2.1
      rw [Segment.closing, rawText_cons, rawText_singleton, List.append_assoc, statesFrom_mark,
        statesFrom_mark, List.map_append, List.append_assoc]
      · rintro letter rfl
        obtain rfl : letter = '/' := means_plain.mp hslash
        rfl
      · rintro letter rfl
        obtain rfl : letter = '*' := means_plain.mp hstar
        cases slash with
        | plain second => exact absurd (by rw [means_plain.mp hslash]; rfl) hcloses
        | unicode escape => rfl
  | stringLiteral opening body closing =>
      cases closing with
      | plain letter => exact absurd (congrArg JavaMark.plain (means_plain.mp hvalid.2.1)) hcloses
      | unicode escape =>
          rw [Segment.closing, rawText_singleton]
          exact statesFrom_unicode _ escape rest
  | charLiteral opening body closing =>
      cases closing with
      | plain letter => exact absurd (congrArg JavaMark.plain (means_plain.mp hvalid.2.1)) hcloses
      | unicode escape =>
          rw [Segment.closing, rawText_singleton]
          exact statesFrom_unicode _ escape rest
  | textBlock opening blanks ending body closing =>
      exact statesFrom_textBlock (not_infix_closing hvalid.2.1 hcloses) fun _ => hrest

section Running

variable {letter : Char} {text : List Char} (hvalid : segment.Valid after)
  (hplain : segment.Plain) (hafter : rawText after = letter :: text)
  (hletter : letter ≠ doubleQuote) (later : List (Option LexState))

include hvalid hplain hafter hletter

/-- Behind a segment whose end is not seen the lexer goes on in its state. -/
theorem disagrees_of_unseen (hcloses : ¬segment.ClosesPlainly) (hends : ¬segment.EndsEscaped) :
    ¬List.Forall₂ Allows (segment.states ++ some .code :: later)
      (statesFrom .code [] (rawText segment.marks ++ rawText after)) := by
  obtain ⟨front, hfront, hstates⟩ :=
    enters_segment hvalid hplain.opens hplain.slash hplain.inside hends
  obtain ⟨found, hfound⟩ := statesFrom_head segment.state letter text
  have hnext : (letter :: text).head? ≠ some doubleQuote :=
    fun hhead => hletter (Option.some.inj hhead)
  rw [hafter] at hstates ⊢
  rw [statesFrom_unseen hvalid hcloses hnext, hfound, ← List.append_assoc] at hstates
  refine disagrees_of hfront (List.length_map _) hstates fun hstate => ?_
  cases segment with
  | code mark => exact hcloses trivial
  | _ => cases hstate

/-- Behind a block that ends in an escaped quote its last quote opens a string. -/
theorem disagrees_of_endsEscaped (hcloses : segment.ClosesPlainly) (hends : segment.EndsEscaped) :
    ¬List.Forall₂ Allows (segment.states ++ some .code :: later)
      (statesFrom .code [] (rawText segment.marks ++ rawText after)) := by
  cases segment with
  | textBlock opening blanks ending body closing =>
      obtain rfl : opening = _ := hplain.opens
      obtain rfl : closing = _ := hcloses
      obtain ⟨slash, hlast⟩ := hends
      have hinside := hplain.inside
      obtain ⟨-, -, hblanks, hbreak, hpieces, -, -⟩ := hvalid
      obtain ⟨earlier, rfl⟩ := List.getLast?_eq_some_iff.mp hlast
      obtain ⟨letters, hletters, hescaped⟩ :=
        @escaped_end earlier _ (hpieces _ (List.mem_append_right _ List.mem_cons_self))
      rw [Segment.ClosesInside, hletters] at hinside
      obtain ⟨front, hfront, hopening⟩ := statesFrom_opening hblanks hbreak
        (letters ++ (threeQuotes ++ doubleQuote :: letter :: text))
      have hquotes (more : List Char) : statesFrom .textBlock [] (threeQuotes ++ more) =
          [LexState.textBlock, .textBlock, .textBlock] ++ statesFrom .code [] more := rfl
      have hturn : turn .code doubleQuote (letter :: text) = (.stringLiteral, []) :=
        turn_doubleQuote fun hboth => hletter (Option.some.inj hboth.1)
      obtain ⟨found, hfound⟩ := statesFrom_head .stringLiteral letter text
      have hmarks : rawText (Segment.textBlock (plainly threeQuotes) blanks ending
          (earlier ++ [Piece.escape slash (.plain doubleQuote)]) (plainly threeQuotes)).marks ++
            letter :: text = rawText (plainly threeQuotes ++ blanks ++ ending) ++
              (letters ++ (threeQuotes ++ doubleQuote :: letter :: text)) := by
        rw [Segment.marks, rawText_append, rawText_append, Segment.inner, hletters,
          Segment.closing, rawText_plainly]
        simp [Segment.opening, threeQuotes]
      have hback : [LexState.textBlock, .textBlock, .code].length =
          (rawText (plainly threeQuotes)).length := rfl
      rw [hafter, hmarks]
      refine @disagrees_of (.textBlock (plainly threeQuotes) blanks ending _
        (plainly threeQuotes)) front _ _ found later .code .stringLiteral hfront hback ?_
        (by decide)
      rw [hopening, statesFrom_textBlock
        (fun hrun => hinside (List.infix_append_of_infix_left hrun))
          fun hquote => absurd hquote hescaped,
        hquotes, statesFrom_cons hturn, hfound, Segment.inner, hletters]
      simp [Segment.state]
  | _ => cases hends

end Running

/-- Behind a segment that runs on the lexer takes code for a comment or a literal. -/
theorem disagrees_of_runsOn {mark : JavaMark} {more : List Segment}
    (hvalid : segment.Valid (sourceMarks (.code mark :: more)))
    (hcode : (Segment.code mark).Valid (sourceMarks more)) (hplain : segment.Plain)
    (hruns : segment.RunsOn) :
    ¬List.Forall₂ Allows (segment.states ++ (Segment.code mark :: more).flatMap Segment.states)
      (statesFrom .code []
        (rawText segment.marks ++ rawText (sourceMarks (.code mark :: more)))) := by
  obtain ⟨letter, text, htext, hletter⟩ : ∃ letter text,
      rawText (sourceMarks (.code mark :: more)) = letter :: text ∧ letter ≠ doubleQuote := by
    rw [rawText_sourceMarks_cons]
    cases mark with
    | plain letter => exact ⟨letter, _, rfl, fun heq => hcode.1 (means_plain.mpr heq)⟩
    | unicode escape => exact ⟨backslash, _, rfl, by decide⟩
  obtain ⟨later, hlater⟩ : ∃ later, (Segment.code mark :: more).flatMap Segment.states =
      some .code :: later := by
    cases mark <;> exact ⟨_, rfl⟩
  rw [hlater]
  rcases hruns with ⟨hcloses, hends⟩ | ⟨hcloses, hends⟩
  · exact disagrees_of_unseen hvalid hplain htext hletter later hcloses hends
  · exact disagrees_of_endsEscaped hvalid hplain htext hletter later hcloses hends

end Losing

/-- Where the lexer keeps to the grammar it agrees with it, and where it loses its way in
front of code it does not. -/
theorem lex_agrees_with_grammar (source : JavaSource) :
    (KeepsWay source.segments → AgreesWithGrammar source) ∧
      (LosesWay source.segments → ¬AgreesWithGrammar source) := by
  have hlex : (lex source.text).map (·.state) =
      statesFrom .code [] (rawText (sourceMarks source.segments)) := by
    rw [lex, JavaSource.text, String.toList_ofList]
    exact map_state_lexFrom .code [] 0 _
  rw [AgreesWithGrammar, hlex]
  refine ⟨forall₂_of_keepsWay source.valid, ?_⟩
  rintro ⟨before, segment, after, hsegments, hbefore, hopens, hloses⟩ hallows
  have hvalid := source.valid
  rw [hsegments] at hvalid hallows
  obtain ⟨⟨hhere, hafter⟩, found, hfound, hread⟩ := reads_before hvalid hbefore
  rw [hfound, List.flatMap_append, rawText_sourceMarks_cons] at hallows
  have hrest : List.Forall₂ Allows (segment.states ++ after.flatMap Segment.states)
      (statesFrom .code [] (rawText segment.marks ++ rawText (sourceMarks after))) := by
    have hdrop := List.forall₂_drop_append _ _ _ hallows
    rwa [← hread.length_eq, List.drop_left] at hdrop
  rcases hloses with hinside | ⟨hplain, hruns, mark, more, rfl⟩
  · exact disagrees_of_closesInside hhere hopens hinside _ hrest
  · exact disagrees_of_runsOn hhere hafter.1 hplain hruns hrest

/-- A carriage return alone does not end a line comment for the lexer. -/
def returnedComment : JavaSource where
  segments := [.lineComment (plainly ['/', '/']) [.plain 'a'] [.plain '\r'], .code (.plain 'b')]
  translated := by decide
  valid := by
    refine ⟨⟨rfl, by decide, .inr (.inr (.inr ⟨rfl, ?_⟩))⟩, ⟨by decide, by decide, ?_⟩, trivial⟩
    · intro next hnext
      cases hnext
      decide
    · exact fun hslash => absurd hslash (by decide)

theorem returnedComment_disagrees : ¬AgreesWithGrammar returnedComment := by
  intro hagrees
  have hstates : (lex returnedComment.text).map (·.state) =
      [.code, .code, .lineComment, .lineComment, .lineComment] := by decide
  rw [AgreesWithGrammar, hstates] at hagrees
  have hcode : LexState.lineComment = .code :=
    @eq_of_allows [none, none, some .lineComment, none] []
      [.code, .code, .lineComment, .lineComment] [] .code .lineComment rfl hagrees
  cases hcode

/-- Nor does the lexer see that a quote in a text block is escaped. -/
example : (lex (String.ofList (rawText (sourceMarks
      [.textBlock (plainly threeQuotes) [] [.plain '\n']
        [.escape (.plain backslash) (.plain doubleQuote)] (plainly threeQuotes),
        .code (.plain ';')])))).map (·.state) =
    [.code, .textBlock, .textBlock, .textBlock, .textBlock, .textBlock, .textBlock, .textBlock,
      .code, .stringLiteral] := by
  decide

/-- Nor that a Unicode escape closes a string. -/
example : (lex (String.ofList (rawText (sourceMarks
      [.stringLiteral (.plain doubleQuote) [.single (.plain 'a')]
        (.unicode ⟨0, ['0', '0', '2', '2'], rfl, by decide⟩),
        .code (.plain ';')])))).map (·.state) =
    .code :: List.replicate 8 .stringLiteral := by
  decide

end Ktsense.Core
