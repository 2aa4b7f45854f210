import Ktsense.Core.JavaScan
import Ktsense.Foundation.ByteOffsets
import Ktsense.Foundation.FailingLoop

/-!
# Java sources by index

The loops of `java_text.rs` and `java_enclosing.rs` walk the characters of a source by
index and look up the lexical state of a character at the same index of another list.
An index out of range and a byte offset inside a character make the source panic: here
they make a turn fail.
-/

namespace Ktsense.Core

open Ktsense.Foundation

/-! ## `lex` -/

/-- The variables of the loop of `lex`. -/
structure LexLoop where
  classified : List (ℕ × LexState)
  state : LexState
  index : ℕ
  deriving DecidableEq, Repr

namespace LexLoop

section Turn

variable (chars : List (ℕ × Char))

def peek (index : ℕ) : Option Char := chars[index]?.map Prod.snd

/-- The body of the loop. -/
def body (loop : LexLoop) : Option LexLoop := do
  let (offset, character) ← chars[loop.index]?
  let index := loop.index
  let state := loop.state
  let classified := loop.classified ++ [(offset, state)]
  match state with
  | .code =>
      if character = '/' ∧ peek chars (index + 1) = some '/' then
        let (next, _) ← chars[index + 1]?
        return ⟨classified ++ [(next, state)], .lineComment, index + 2⟩
      if character = '/' ∧ peek chars (index + 1) = some '*' then
        let (next, _) ← chars[index + 1]?
        return ⟨classified ++ [(next, state)], .blockComment, index + 2⟩
      if character = doubleQuote ∧ peek chars (index + 1) = some doubleQuote ∧
          peek chars (index + 2) = some doubleQuote then
        let (next, _) ← chars[index + 1]?
        let (afterNext, _) ← chars[index + 2]?
        return ⟨classified ++ [(next, .textBlock)] ++ [(afterNext, .textBlock)], .textBlock,
          index + 3⟩
      if character = doubleQuote then return ⟨classified, .stringLiteral, index + 1⟩
      if character = singleQuote then return ⟨classified, .charLiteral, index + 1⟩
      return ⟨classified, state, index + 1⟩
  | .lineComment =>
      if character = '\n' then return ⟨classified, .code, index + 1⟩
      return ⟨classified, state, index + 1⟩
  | .blockComment =>
      if character = '*' ∧ peek chars (index + 1) = some '/' then
        let (next, _) ← chars[index + 1]?
        return ⟨classified ++ [(next, state)], .code, index + 2⟩
      return ⟨classified, state, index + 1⟩
  | .stringLiteral =>
      if character = backslash then
        -- At the end of the source nothing is pushed, and the index moves on all the same.
        let pushed := (chars[index + 1]?.map fun (next, _) => (next, state)).toList
        return ⟨classified ++ pushed, state, index + 2⟩
      if character = doubleQuote then return ⟨classified, .code, index + 1⟩
      return ⟨classified, state, index + 1⟩
  | .charLiteral =>
      if character = backslash then
        let pushed := (chars[index + 1]?.map fun (next, _) => (next, state)).toList
        return ⟨classified ++ pushed, state, index + 2⟩
      if character = singleQuote then return ⟨classified, .code, index + 1⟩
      return ⟨classified, state, index + 1⟩
  | .textBlock =>
      if character = doubleQuote ∧ peek chars (index + 1) = some doubleQuote ∧
          peek chars (index + 2) = some doubleQuote then
        let (next, _) ← chars[index + 1]?
        let (afterNext, _) ← chars[index + 2]?
        return ⟨classified ++ [(next, state)] ++ [(afterNext, state)], .code, index + 3⟩
      return ⟨classified, state, index + 1⟩

def turn (loop : LexLoop) : Option (LexLoop ⊕ List (ℕ × LexState)) :=
  if loop.index < chars.length then (loop.body chars).map .inl
  else some (.inr loop.classified)

end Turn

end LexLoop

/-- `lex`: the byte offset and the state of each character. -/
def lexStates (source : String) : Option (List (ℕ × LexState)) :=
  let chars := charIndices 0 source.toList
  runLoop (LexLoop.turn chars) (chars.length + 1) ⟨[], .code, 0⟩

def Lexed.entry (here : Lexed) : ℕ × LexState := (here.offset, here.state)

/-- Behind the characters taken along lexing goes on in the state that follows. -/
theorem map_entry_lexFrom (state : LexState) (taken : List LexState) (rest : List (ℕ × Char)) :
    (lexFrom state taken rest).map Lexed.entry =
      (rest.zip taken).map (fun here => (here.1.1, here.2)) ++
        (lexFrom state [] (rest.drop taken.length)).map Lexed.entry := by
  induction taken generalizing rest with
  | nil => simp
  | cons first others ih =>
      cases rest with
      | nil => simp [lexFrom]
      | cons here rest =>
          rw [lexFrom, List.map_cons, ih]
          rfl

theorem eq_cons_of_head? {rest : List (ℕ × Char)} {letter : Char}
    (hhead : rest.head?.map Prod.snd = some letter) :
    ∃ offset behind, rest = (offset, letter) :: behind := by
  obtain ⟨⟨offset, found⟩, hfirst, rfl⟩ := Option.map_eq_some_iff.mp hhead
  obtain ⟨behind, hbehind⟩ := List.head?_eq_some_iff.mp hfirst
  exact ⟨offset, behind, hbehind⟩

/-- A turn reads the character at its index, and goes on behind those it takes along. -/
theorem LexLoop.body_eq {chars : List (ℕ × Char)} {loop : LexLoop} {offset : ℕ}
    {letter : Char} {rest : List (ℕ × Char)}
    (hdrop : chars.drop loop.index = (offset, letter) :: rest) :
    loop.body chars = some
      ⟨loop.classified ++ (offset, loop.state) ::
          (rest.zip (lexTurn loop.state letter rest).2).map fun here => (here.1.1, here.2),
        (lexTurn loop.state letter rest).1,
        loop.index + 1 + (lexTurn loop.state letter rest).2.length⟩ := by
  have hat (place : ℕ) : chars[loop.index + place]? = ((offset, letter) :: rest)[place]? := by
    rw [← hdrop, List.getElem?_drop]
  have hhere : chars[loop.index]? = some (offset, letter) := by simpa using hat 0
  have hnext : chars[loop.index + 1]? = rest.head? := by
    rw [hat 1, List.getElem?_cons_succ, List.head?_eq_getElem?]
  have hafter : chars[loop.index + 2]? = (rest.drop 1).head? := by
    rw [hat 2, List.getElem?_cons_succ, List.head?_drop]
  rw [body, hhere, Option.bind_eq_bind, Option.bind_some]
  simp only [peek, hnext, hafter]
  cases hstate : loop.state with
  | code =>
      simp only [lexTurn]
      split_ifs with hline hblock hquotes
      · obtain ⟨next, behind, rfl⟩ := eq_cons_of_head? hline.2
        simp
      · obtain ⟨next, behind, rfl⟩ := eq_cons_of_head? hblock.2
        simp
      · obtain ⟨next, behind, rfl⟩ := eq_cons_of_head? hquotes.2.1
        obtain ⟨afterNext, behind, rfl⟩ := eq_cons_of_head? hquotes.2.2
        simp
      · simp
      · simp
      · simp
  | lineComment =>
      simp only [lexTurn]
      split_ifs <;> simp
  | blockComment =>
      simp only [lexTurn]
      split_ifs with hclose
      · obtain ⟨next, behind, rfl⟩ := eq_cons_of_head? hclose.2
        simp
      · simp
  | stringLiteral =>
      simp only [lexTurn]
      split_ifs
      · cases rest <;> simp
      · simp
      · simp
  | charLiteral =>
      simp only [lexTurn]
      split_ifs
      · cases rest <;> simp
      · simp
      · simp
  | textBlock =>
      simp only [lexTurn]
      split_ifs with hquotes
      · obtain ⟨next, behind, rfl⟩ := eq_cons_of_head? hquotes.2.1
        obtain ⟨afterNext, behind, rfl⟩ := eq_cons_of_head? hquotes.2.2
        simp
      · simp

/-- With what is unread the loop comes to these entries. -/
def LexLoop.LeadsTo (chars : List (ℕ × Char)) (entries : List (ℕ × LexState))
    (loop : LexLoop) : Prop :=
  loop.classified ++
    (lexFrom loop.state [] (chars.drop loop.index)).map Lexed.entry = entries

theorem LexLoop.proceeds {chars : List (ℕ × Char)} {entries : List (ℕ × LexState)}
    {loop : LexLoop} (hleads : loop.LeadsTo chars entries) :
    Proceeds (turn chars) (LeadsTo chars entries) (chars.length - ·.index) entries loop := by
  rw [LeadsTo] at hleads
  rcases Nat.lt_or_ge loop.index chars.length with hlt | hge
  · obtain ⟨⟨offset, letter⟩, hhere⟩ : ∃ here, chars[loop.index] = here := ⟨_, rfl⟩
    have hdrop := List.drop_eq_getElem_cons hlt
    rw [hhere] at hdrop
    rw [hdrop, lexFrom, List.map_cons, map_entry_lexFrom, List.drop_drop] at hleads
    refine .inl ⟨_, by rw [turn, if_pos hlt, body_eq hdrop, Option.map_some], ?_, ?_⟩
    · rw [LeadsTo, List.append_assoc]
      exact hleads
    · dsimp only
      omega
  · rw [List.drop_eq_nil_of_le hge, lexFrom, List.map_nil, List.append_nil] at hleads
    refine .inr ?_
    rw [turn, if_neg (not_lt.mpr hge), hleads]

theorem lexStates_eq (source : String) :
    lexStates source = some ((lex source).map Lexed.entry) :=
  runLoop_eq_some (fun _ hleads => LexLoop.proceeds hleads) rfl (Nat.lt_succ_self _)

/-! ## Loops over characters and states -/

/-- `char::is_alphabetic` and `char::is_numeric`, which `char::is_alphanumeric` is made
of. -/
structure LetterClasses where
  isAlphabetic : Char → Bool
  isNumeric : Char → Bool

def LetterClasses.letters (classes : LetterClasses) : Letters :=
  ⟨classes.isAlphabetic, fun letter =>
    classes.isAlphabetic letter || classes.isNumeric letter⟩

/-- `chars[start..end]`, as a text. -/
def textBetween (chars : List Char) (start last : ℕ) : Option String :=
  if start ≤ last ∧ last ≤ chars.length then
    some (String.ofList ((chars.take last).drop start))
  else none

section Indexing

variable (letters : Letters) (states : List (ℕ × LexState)) (chars : List Char)

/-- A turn of the loop over an identifier, that three of the loops below have. -/
def identTurn (index : ℕ) : Option (ℕ ⊕ ℕ) :=
  if index < chars.length then do
    let (_, state) ← states[index]?
    if !state.isCode then return .inr index
    let character ← chars[index]?
    if isIdentContinue letters character then return .inl (index + 1)
    return .inr index
  else some (.inr index)

/-- The index behind the identifier. -/
def identEnd (start : ℕ) : Option ℕ :=
  runLoop (identTurn letters states chars) (chars.length + 1) start

/-- The variables of the loop of `tokenize`. -/
structure TokenLoop where
  tokens : List Spanned
  line : ℕ
  index : ℕ
  deriving DecidableEq, Repr

def TokenLoop.body (loop : TokenLoop) : Option TokenLoop := do
  let index := loop.index
  let character ← chars[index]?
  if character = '\n' then return { loop with line := loop.line + 1, index := index + 1 }
  let (offset, state) ← states[index]?
  if !state.isCode || isWhitespace character then return { loop with index := index + 1 }
  let push (token : Token) : List Spanned := loop.tokens ++ [⟨token, loop.line, offset⟩]
  if isIdentStart letters character then
    let last ← identEnd letters states chars index
    let name ← textBetween chars index last
    return { loop with tokens := push (.ident name), index := last }
  if character = '-' && chars[index + 1]? = some '>' &&
      states[index + 1]?.any fun (_, state) => state.isCode then
    return { loop with tokens := push .arrow, index := index + 2 }
  match structuralToken character with
  | some token => return { loop with tokens := push token, index := index + 1 }
  | none => return { loop with index := index + 1 }

def TokenLoop.turn (loop : TokenLoop) : Option (TokenLoop ⊕ List Spanned) :=
  if loop.index < chars.length then (loop.body letters states chars).map .inl
  else some (.inr loop.tokens)

/-- The variables of the loop of `supertypes_in_header`. -/
structure SupertypeLoop where
  scan : SupertypeScan
  index : ℕ

def SupertypeLoop.body (loop : SupertypeLoop) : Option SupertypeLoop := do
  let index := loop.index
  let (_, state) ← states[index]?
  if !state.isCode then return { loop with index := index + 1 }
  let character ← chars[index]?
  if isIdentStart letters character then
    let last ← identEnd letters states chars index
    -- Inside angle brackets the word is not even read.
    if loop.scan.angleDepth ≠ 0 then return { loop with index := last }
    let word ← textBetween chars index last
    return ⟨loop.scan.observeWord word, last⟩
  return ⟨loop.scan.observePunctuation character, index + 1⟩

def SupertypeLoop.turn (loop : SupertypeLoop) : Option (SupertypeLoop ⊕ List String) :=
  if loop.index < chars.length then (loop.body letters states chars).map .inl
  else some (.inr (loop.scan.pushCurrent loop.scan.inClause).supertypes)

/-- The variables of the loop of `read_package_name`. -/
structure NameLoop where
  name : List Char
  index : ℕ
  deriving DecidableEq, Repr

def NameLoop.turn (loop : NameLoop) : Option (NameLoop ⊕ List Char) :=
  let index := loop.index
  if index < chars.length then do
    let (_, state) ← states[index]?
    if !state.isCode then return .inl { loop with index := index + 1 }
    let character ← chars[index]?
    if character = ';' then return .inr loop.name
    if isIdentContinue letters character || character = '.' then
      return .inl ⟨loop.name ++ [character], index + 1⟩
    return .inl { loop with index := index + 1 }
  else some (.inr loop.name)

/-- `read_package_name`. -/
def packageNameFrom (index : ℕ) : Option (Option String) :=
  (runLoop (NameLoop.turn letters states chars) (chars.length + 1) ⟨[], index⟩).map fun name =>
    if name.isEmpty then none else some (String.ofList name)

/-- A turn of the loop of `java_package`. -/
def packageTurn (index : ℕ) : Option (ℕ ⊕ Option String) :=
  if index < chars.length then do
    let (_, state) ← states[index]?
    if !state.isCode then return .inl (index + 1)
    let character ← chars[index]?
    if isIdentStart letters character then
      let last ← identEnd letters states chars index
      let word ← textBetween chars index last
      if word = "package" then
        let name ← packageNameFrom letters states chars last
        return .inr name
      return .inl last
    return .inl (index + 1)
  else some (.inr none)

end Indexing

/-- `tokenize`. -/
def tokenizeIndexed (letters : Letters) (source : String) : Option (List Spanned) := do
  let states ← lexStates source
  let chars := source.toList
  runLoop (TokenLoop.turn letters states chars) (chars.length + 1) ⟨[], 1, 0⟩

/-- `supertypes_in_header`. -/
def supertypesIndexed (letters : Letters) (header : String) : Option (List String) := do
  let states ← lexStates header
  let chars := header.toList
  runLoop (SupertypeLoop.turn letters states chars) (chars.length + 1)
    ⟨⟨[], false, 0, none⟩, 0⟩

/-- `java_package`. -/
def packageIndexed (letters : Letters) (source : String) : Option (Option String) := do
  let states ← lexStates source
  let chars := source.toList
  runLoop (packageTurn letters states chars) (chars.length + 1) 0

/-- `source[start..end]`. -/
def sliceBytes (start last : ℕ) (text : List Char) : Option (List Char) := do
  let (before, _) ← splitBytes last text
  let (_, slice) ← splitBytes start before
  return slice

/-- `header_slice`. -/
def headerSliceBytes (source : String) (first : Option ℕ) (last : ℕ) : Option String :=
  match first with
  | some first =>
      if first ≤ last then (sliceBytes first last source.toList).map String.ofList else some ""
  | none => some ""

end Ktsense.Core
