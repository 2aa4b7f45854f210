import Ktsense.Core.Layout

/-!
# The lexemes of the layout

The first pass reads one lexeme at a time: a letter, a literal or a comment, a bracket, a
comma, or a run of white space.  Its loop over indices computes the pieces the lexemes of
the text make, and never leaves the text.
-/

namespace Ktsense.Core.Layout

open Ktsense.Foundation

/-- A literal or a comment, as the tokenizer delimits it, is sealed. -/
inductive Lexeme where
  | letter (character : Char)
  | sealed (text : List Char)
  | opening (character : Char)
  | closing (character : Char)
  | comma
  | blank (text : List Char)
  deriving DecidableEq, Repr

namespace Lexeme

/-- The text a lexeme was read from. -/
def source : Lexeme → List Char
  | .letter character => [character]
  | .sealed text => text
  | .opening character => [character]
  | .closing character => [character]
  | .comma => [',']
  | .blank text => text

def isOpening : Lexeme → Bool
  | .opening _ => true
  | _ => false

def isClosing : Lexeme → Bool
  | .closing _ => true
  | _ => false

def isBlank : Lexeme → Bool
  | .blank _ => true
  | _ => false

end Lexeme

/-- The text of a list of lexemes. -/
def sourceOf (lexemes : List Lexeme) : List Char := lexemes.flatMap Lexeme.source

theorem sourceOf_cons (lexeme : Lexeme) (lexemes : List Lexeme) :
    sourceOf (lexeme :: lexemes) = lexeme.source ++ sourceOf lexemes := List.flatMap_cons

theorem sourceOf_append (front back : List Lexeme) :
    sourceOf (front ++ back) = sourceOf front ++ sourceOf back := List.flatMap_append

/-! ## Reading -/

/-- The rest of a raw string behind its quotes, as far as the string goes. -/
def rawTail : List Char → List Char
  | '"' :: '"' :: '"' :: _ => ['"', '"', '"']
  | letter :: rest => letter :: rawTail rest
  | [] => []

def regularTail : List Char → List Char
  | '\\' :: letter :: rest => '\\' :: letter :: regularTail rest
  | '"' :: _ => ['"']
  | letter :: rest => letter :: regularTail rest
  | [] => []

def stringTail : List Char → List Char
  | '"' :: '"' :: rest => '"' :: '"' :: rawTail rest
  | rest => regularTail rest

def lineTail : List Char → List Char
  | '\n' :: _ => ['\n']
  | letter :: rest => letter :: lineTail rest
  | [] => []

def blockTail : List Char → List Char
  | '*' :: '/' :: _ => ['*', '/']
  | letter :: rest => letter :: blockTail rest
  | [] => []

variable (alphanumeric : Alphanumeric)

/-- The lexeme that a letter begins behind `before`, and the depth after it. -/
def read (before : List Char) (depth : ℕ) (first : Char) (rest : List Char) : Lexeme × ℕ :=
  if first = '"' then (.sealed ('"' :: stringTail rest), depth)
  else if first = '/' ∧ rest.head? = some '/' then
    (.sealed ('/' :: '/' :: lineTail rest.tail), depth)
  else if first = '/' ∧ rest.head? = some '*' then
    (.sealed ('/' :: '*' :: blockTail rest.tail), depth)
  else if isWhitespace first then (.blank (first :: rest.takeWhile isWhitespace), depth)
  else if first = '(' ∨ first = '[' then (.opening first, depth)
  else if first = '<' ∧ opensTypes alphanumeric before rest then (.opening first, depth + 1)
  else if first = ')' ∨ first = ']' then (.closing first, depth)
  else if first = '>' ∧ 0 < depth ∧ closesTypes before rest then (.closing first, depth - 1)
  else if first = ',' then (.comma, depth)
  else (.letter first, depth)

/-- The lexemes of a text behind `before`, at a depth of angle brackets. -/
inductive Lexes : List Char → ℕ → List Char → List Lexeme → Prop
  | done (before : List Char) (depth : ℕ) : Lexes before depth [] []
  | next {before rest after : List Char} {first : Char} {depth : ℕ} {lexemes : List Lexeme}
      (hsource : first :: rest = (read alphanumeric before depth first rest).1.source ++ after)
      (hlater : Lexes (before ++ (read alphanumeric before depth first rest).1.source)
        (read alphanumeric before depth first rest).2 after lexemes) :
      Lexes before depth (first :: rest)
        ((read alphanumeric before depth first rest).1 :: lexemes)

def lexemesFrom : ℕ → List Char → ℕ → List Char → List Lexeme
  | fuel + 1, before, depth, first :: rest =>
      let (lexeme, depth) := read alphanumeric before depth first rest
      lexeme :: lexemesFrom fuel (before ++ lexeme.source) depth
        ((first :: rest).drop lexeme.source.length)
  | _, _, _, _ => []

/-- The lexemes of a text: each has a letter, so its length is fuel enough. -/
def lexemesOf (text : List Char) : List Lexeme := lexemesFrom alphanumeric text.length [] 0 text

/-! ### What is read is at the front -/

theorem rawTail_start (text : List Char) : rawTail text <+: text := by
  fun_induction rawTail text with
  | case1 rest => exact List.prefix_append ['"', '"', '"'] rest
  | case2 letter rest _ ih => exact List.prefix_cons_inj letter |>.2 ih
  | case3 => exact List.prefix_rfl

theorem regularTail_start (text : List Char) : regularTail text <+: text := by
  fun_induction regularTail text with
  | case1 letter rest ih =>
      exact List.prefix_cons_inj '\\' |>.2 (List.prefix_cons_inj letter |>.2 ih)
  | case2 rest => exact List.prefix_append ['"'] rest
  | case3 letter rest _ _ ih => exact List.prefix_cons_inj letter |>.2 ih
  | case4 => exact List.prefix_rfl

theorem stringTail_start (text : List Char) : stringTail text <+: text := by
  fun_cases stringTail text with
  | case1 rest =>
      exact List.prefix_cons_inj '"' |>.2 (List.prefix_cons_inj '"' |>.2 (rawTail_start rest))
  | case2 _ _ => exact regularTail_start _

theorem lineTail_start (text : List Char) : lineTail text <+: text := by
  fun_induction lineTail text with
  | case1 rest => exact List.prefix_append ['\n'] rest
  | case2 letter rest _ ih => exact List.prefix_cons_inj letter |>.2 ih
  | case3 => exact List.prefix_rfl

theorem blockTail_start (text : List Char) : blockTail text <+: text := by
  fun_induction blockTail text with
  | case1 rest => exact List.prefix_append ['*', '/'] rest
  | case2 letter rest _ ih => exact List.prefix_cons_inj letter |>.2 ih
  | case3 => exact List.prefix_rfl

/-- What is read, by the letter it begins with. -/
@[elab_as_elim]
theorem read_cases {motive : Lexeme × ℕ → Prop} (before : List Char) (depth : ℕ)
    (first : Char) (rest : List Char)
    (string : first = '"' → motive (.sealed ('"' :: stringTail rest), depth))
    (line : first = '/' → rest.head? = some '/' →
      motive (.sealed ('/' :: '/' :: lineTail rest.tail), depth))
    (block : first = '/' → rest.head? = some '*' →
      motive (.sealed ('/' :: '*' :: blockTail rest.tail), depth))
    (blank : isWhitespace first = true →
      motive (.blank (first :: rest.takeWhile isWhitespace), depth))
    (opening : ¬isWhitespace first = true → first = '(' ∨ first = '[' →
      motive (.opening first, depth))
    (angle : ¬isWhitespace first = true → first = '<' → motive (.opening first, depth + 1))
    (closing : ¬isWhitespace first = true → first = ')' ∨ first = ']' →
      motive (.closing first, depth))
    (closingAngle : ¬isWhitespace first = true → first = '>' →
      motive (.closing first, depth - 1))
    (comma : ¬isWhitespace first = true → first = ',' → motive (.comma, depth))
    (letter : ¬isWhitespace first = true → first ≠ ',' → motive (.letter first, depth)) :
    motive (read alphanumeric before depth first rest) := by
  rw [read]
  by_cases hquote : first = '"'
  · rw [if_pos hquote]
    exact string hquote
  rw [if_neg hquote]
  by_cases hline : first = '/' ∧ rest.head? = some '/'
  · rw [if_pos hline]
    exact line hline.1 hline.2
  rw [if_neg hline]
  by_cases hblock : first = '/' ∧ rest.head? = some '*'
  · rw [if_pos hblock]
    exact block hblock.1 hblock.2
  rw [if_neg hblock]
  by_cases hspace : isWhitespace first = true
  · rw [if_pos hspace]
    exact blank hspace
  rw [if_neg hspace]
  by_cases hround : first = '(' ∨ first = '['
  · rw [if_pos hround]
    exact opening hspace hround
  rw [if_neg hround]
  by_cases hangle : first = '<' ∧ opensTypes alphanumeric before rest = true
  · rw [if_pos hangle]
    exact angle hspace hangle.1
  rw [if_neg hangle]
  by_cases hclose : first = ')' ∨ first = ']'
  · rw [if_pos hclose]
    exact closing hspace hclose
  rw [if_neg hclose]
  by_cases hcloseAngle : first = '>' ∧ 0 < depth ∧ closesTypes before rest = true
  · rw [if_pos hcloseAngle]
    exact closingAngle hspace hcloseAngle.1
  rw [if_neg hcloseAngle]
  by_cases hcomma : first = ','
  · rw [if_pos hcomma]
    exact comma hspace hcomma
  rw [if_neg hcomma]
  exact letter hspace hcomma

theorem source_read_start (before : List Char) (depth : ℕ) (first : Char) (rest : List Char) :
    (read alphanumeric before depth first rest).1.source <+: first :: rest := by
  have hsingle : [first] <+: first :: rest := List.prefix_append [first] rest
  refine read_cases alphanumeric before depth first rest ?_ ?_ ?_ ?_ (fun _ _ => hsingle)
    (fun _ _ => hsingle) (fun _ _ => hsingle) (fun _ _ => hsingle) ?_ (fun _ _ => hsingle)
  · intro hquote
    rw [hquote]
    exact List.prefix_cons_inj '"' |>.2 (stringTail_start rest)
  · intro hslash hline
    obtain ⟨tail, rfl⟩ := List.head?_eq_some_iff.1 hline
    rw [hslash]
    exact List.prefix_cons_inj '/' |>.2 (List.prefix_cons_inj '/' |>.2 (lineTail_start tail))
  · intro hslash hblock
    obtain ⟨tail, rfl⟩ := List.head?_eq_some_iff.1 hblock
    rw [hslash]
    exact List.prefix_cons_inj '/' |>.2 (List.prefix_cons_inj '*' |>.2 (blockTail_start tail))
  · exact fun _ => List.prefix_cons_inj first |>.2 (List.takeWhile_prefix _)
  · intro _ hcomma
    rw [hcomma]
    exact List.prefix_append [','] rest

theorem length_source_read_pos (before : List Char) (depth : ℕ) (first : Char)
    (rest : List Char) : 0 < (read alphanumeric before depth first rest).1.source.length :=
  read_cases alphanumeric before depth first rest (fun _ => Nat.succ_pos _)
    (fun _ _ => Nat.succ_pos _) (fun _ _ => Nat.succ_pos _) (fun _ => Nat.succ_pos _)
    (fun _ _ => Nat.succ_pos _) (fun _ _ => Nat.succ_pos _) (fun _ _ => Nat.succ_pos _)
    (fun _ _ => Nat.succ_pos _) (fun _ _ => Nat.succ_pos _) (fun _ _ => Nat.succ_pos _)

/-- The lexemes are read off the text. -/
theorem lexes_lexemesFrom {fuel : ℕ} {text : List Char} (hfuel : text.length ≤ fuel)
    (before : List Char) (depth : ℕ) :
    Lexes alphanumeric before depth text (lexemesFrom alphanumeric fuel before depth text) := by
  induction fuel generalizing before depth text with
  | zero =>
      rw [List.length_eq_zero_iff.1 (Nat.le_zero.1 hfuel)]
      exact Lexes.done before depth
  | succ fuel ih =>
      cases text with
      | nil => exact Lexes.done before depth
      | cons first rest =>
          have hstart := source_read_start alphanumeric before depth first rest
          have hpos := length_source_read_pos alphanumeric before depth first rest
          apply Lexes.next (List.prefix_iff_eq_append.1 hstart).symm
          apply ih
          rw [List.length_drop, List.length_cons]
          rw [List.length_cons] at hfuel
          omega

theorem lexes_lexemesOf (text : List Char) :
    Lexes alphanumeric [] 0 text (lexemesOf alphanumeric text) :=
  lexes_lexemesFrom alphanumeric le_rfl [] 0

variable {alphanumeric}

/-- Nothing of a text is lost in its lexemes. -/
theorem Lexes.sourceOf_eq {before text : List Char} {depth : ℕ} {lexemes : List Lexeme}
    (hlexes : Lexes alphanumeric before depth text lexemes) : sourceOf lexemes = text := by
  induction hlexes with
  | done => rfl
  | next hsource _ ih => rw [sourceOf_cons, ih, ← hsource]

/-- A text is read in one way. -/
theorem Lexes.unique {before text : List Char} {depth : ℕ} {left right : List Lexeme}
    (hleft : Lexes alphanumeric before depth text left)
    (hright : Lexes alphanumeric before depth text right) : left = right := by
  induction hleft generalizing right with
  | done =>
      cases hright
      rfl
  | next hsource _ ih =>
      cases hright with
      | next hother hlater =>
          obtain rfl := List.append_cancel_left (hsource.symm.trans hother)
          rw [ih hlater]

/-! ## The loop over indices -/

section Indices

variable (before : List Char)

theorem getElem_behind (first : Char) (rest : List Char)
    (hbound : before.length < (before ++ first :: rest).length) :
    (before ++ first :: rest)[before.length] = first := by simp

theorem getElem?_behind (first : Char) (rest : List Char) (offset : ℕ) :
    (before ++ first :: rest)[before.length + (offset + 1)]? = rest[offset]? := by
  rw [List.getElem?_append_right (Nat.le_add_right _ _), Nat.add_sub_cancel_left]
  rfl

theorem length_lt_behind (first : Char) (rest : List Char) :
    before.length < (before ++ first :: rest).length := by simp

theorem consumeRaw_append (text : List Char) :
    consumeRaw (before ++ text) before.length = before.length + (rawTail text).length := by
  fun_induction rawTail text generalizing before with
  | case1 rest =>
      rw [consumeRaw, dif_pos (by simp), if_pos (by simp)]
      rfl
  | case2 letter rest hclosed ih =>
      have hopen : ¬(letter = '"' ∧ rest[0]? = some '"' ∧ rest[1]? = some '"') := by
        rintro ⟨rfl, hsecond, hthird⟩
        match rest with
        | [] => cases hsecond
        | [_] => cases hthird
        | second :: third :: later =>
            obtain rfl := Option.some.inj hsecond
            obtain rfl := Option.some.inj hthird
            exact hclosed later rfl rfl
      have hnext := ih (before ++ [letter])
      rw [List.append_assoc, List.singleton_append, List.length_append,
        List.length_singleton] at hnext
      rw [consumeRaw, dif_pos (length_lt_behind before letter rest), getElem_behind,
        getElem?_behind before letter rest 0, getElem?_behind before letter rest 1,
        if_neg hopen, hnext, List.length_cons]
      ring
  | case3 =>
      rw [consumeRaw, dif_neg (by simp)]
      simp

theorem consumeRegular_append (text : List Char) :
    consumeRegular (before ++ text) before.length =
      before.length + (regularTail text).length := by
  fun_induction regularTail text generalizing before with
  | case1 letter rest ih =>
      have hnext := ih (before ++ ['\\', letter])
      rw [List.append_assoc, List.length_append] at hnext
      rw [consumeRegular, dif_pos (length_lt_behind before '\\' (letter :: rest)),
        getElem_behind, if_pos rfl]
      exact hnext.trans (by simp only [List.length_cons, List.length_nil]; ring)
  | case2 rest =>
      rw [consumeRegular, dif_pos (length_lt_behind before '"' rest), getElem_behind,
        if_neg (by decide), if_pos rfl]
      rfl
  | case3 letter rest hescape hquote ih =>
      by_cases hslash : letter = '\\'
      · -- a backslash that ends the text: the index passes the end
        subst hslash
        have hrest : rest = [] := by
          cases rest with
          | nil => rfl
          | cons second later => exact (hescape second later rfl rfl).elim
        subst hrest
        rw [consumeRegular, dif_pos (length_lt_behind before '\\' []), getElem_behind,
          if_pos rfl, consumeRegular, dif_neg (by simp), List.length_append]
        rfl
      · have hnext := ih (before ++ [letter])
        rw [List.append_assoc, List.singleton_append, List.length_append,
          List.length_singleton] at hnext
        rw [consumeRegular, dif_pos (length_lt_behind before letter rest), getElem_behind,
          if_neg hslash, if_neg fun hequal => hquote hequal, hnext, List.length_cons]
        ring
  | case4 =>
      rw [consumeRegular, dif_neg (by simp)]
      simp

theorem consumeLine_append (text : List Char) :
    consumeLine (before ++ text) before.length = before.length + (lineTail text).length := by
  fun_induction lineTail text generalizing before with
  | case1 rest =>
      rw [consumeLine, dif_pos (length_lt_behind before '\n' rest), getElem_behind, if_pos rfl]
      rfl
  | case2 letter rest hline ih =>
      have hnext := ih (before ++ [letter])
      rw [List.append_assoc, List.singleton_append, List.length_append,
        List.length_singleton] at hnext
      rw [consumeLine, dif_pos (length_lt_behind before letter rest), getElem_behind,
        if_neg fun hequal => hline hequal, hnext, List.length_cons]
      ring
  | case3 =>
      rw [consumeLine, dif_neg (by simp)]
      simp

theorem consumeBlock_append (text : List Char) :
    consumeBlock (before ++ text) before.length = before.length + (blockTail text).length := by
  fun_induction blockTail text generalizing before with
  | case1 rest =>
      rw [consumeBlock, dif_pos (by simp), if_pos (by simp)]
      rfl
  | case2 letter rest hclosed ih =>
      have hopen : ¬(letter = '*' ∧ rest[0]? = some '/') := by
        rintro ⟨rfl, hsecond⟩
        cases rest with
        | nil => cases hsecond
        | cons second later =>
            obtain rfl := Option.some.inj hsecond
            exact hclosed later rfl rfl
      have hnext := ih (before ++ [letter])
      rw [List.append_assoc, List.singleton_append, List.length_append,
        List.length_singleton] at hnext
      rw [consumeBlock, dif_pos (length_lt_behind before letter rest), getElem_behind,
        getElem?_behind before letter rest 0, if_neg hopen, hnext, List.length_cons]
      ring
  | case3 =>
      rw [consumeBlock, dif_neg (by simp)]
      simp

theorem skipWhitespace_append (text : List Char) :
    skipWhitespace (before ++ text) before.length =
      before.length + (text.takeWhile isWhitespace).length := by
  induction text generalizing before with
  | nil =>
      rw [skipWhitespace, dif_neg (by simp)]
      simp
  | cons letter rest ih =>
      rw [skipWhitespace, dif_pos (length_lt_behind before letter rest), getElem_behind]
      cases hspace : isWhitespace letter with
      | true =>
          have hnext := ih (before ++ [letter])
          rw [List.append_assoc, List.singleton_append, List.length_append,
            List.length_singleton] at hnext
          rw [if_pos rfl, hnext, List.takeWhile_cons_of_pos hspace, List.length_cons]
          ring
      | false =>
          rw [if_neg (by decide), List.takeWhile_cons_of_neg (by rw [hspace]; decide)]
          rfl

theorem consumeString_append {first : Char} (hquote : first = '"') (rest : List Char) :
    consumeString (before ++ first :: rest) before.length =
      before.length + ('"' :: stringTail rest).length := by
  subst hquote
  have hraw := consumeRaw_append (before ++ ['"', '"', '"'])
  have hregular := consumeRegular_append (before ++ ['"']) rest
  simp only [List.append_assoc, List.cons_append, List.nil_append, List.length_append,
    List.length_cons, List.length_nil] at hraw hregular
  rw [consumeString, getElem?_behind before '"' rest 0, getElem?_behind before '"' rest 1]
  fun_cases stringTail rest with
  | case1 later =>
      rw [if_pos ⟨rfl, rfl⟩, hraw]
      simp only [List.length_cons]
      ring
  | case2 _ hregularOnly =>
      have hopen : ¬(rest[0]? = some '"' ∧ rest[1]? = some '"') := by
        rintro ⟨hsecond, hthird⟩
        match rest with
        | [] => cases hsecond
        | [_] => cases hthird
        | second :: third :: later =>
            obtain rfl := Option.some.inj hsecond
            obtain rfl := Option.some.inj hthird
            exact hregularOnly later rfl
      rw [if_neg hopen, hregular, List.length_cons]
      ring

theorem consumeLineComment_append {first second : Char} {rest : List Char}
    (hsecond : rest.head? = some second) :
    consumeLineComment (before ++ first :: rest) before.length =
      before.length + ('/' :: '/' :: lineTail rest.tail).length := by
  obtain ⟨later, rfl⟩ := List.head?_eq_some_iff.1 hsecond
  have hline := consumeLine_append (before ++ [first, second]) later
  simp only [List.append_assoc, List.cons_append, List.nil_append, List.length_append,
    List.length_cons, List.length_nil] at hline
  rw [consumeLineComment, hline, List.tail_cons]
  simp only [List.length_cons]
  ring

theorem consumeBlockComment_append {first second : Char} {rest : List Char}
    (hsecond : rest.head? = some second) :
    consumeBlockComment (before ++ first :: rest) before.length =
      before.length + ('/' :: '*' :: blockTail rest.tail).length := by
  obtain ⟨later, rfl⟩ := List.head?_eq_some_iff.1 hsecond
  have hblock := consumeBlock_append (before ++ [first, second]) later
  simp only [List.append_assoc, List.cons_append, List.nil_append, List.length_append,
    List.length_cons, List.length_nil] at hblock
  rw [consumeBlockComment, hblock, List.tail_cons]
  simp only [List.length_cons]
  ring

end Indices

/-! ## The pieces of the lexemes -/

/-- The piece of a run of letters, unless the run is empty. -/
def flushed (run : List Char) : List Piece := if run.isEmpty then [] else [.verbatim run]

/-- The pieces that lexemes make behind a run of letters. -/
def piecesOf (run : List Char) : List Lexeme → List Piece
  | [] => flushed run
  | .letter character :: rest => piecesOf (run ++ [character]) rest
  | .sealed text :: rest => piecesOf (run ++ text) rest
  | .opening character :: rest => flushed run ++ .opening character :: piecesOf [] rest
  | .closing character :: rest => flushed run ++ .closing character :: piecesOf [] rest
  | .comma :: rest => flushed run ++ .comma :: piecesOf [] rest
  | .blank _ :: rest => flushed run ++ .space :: piecesOf [] rest

namespace Tokenizer

theorem flushRun_eq (state : Tokenizer) :
    state.flushRun = { state with pieces := state.pieces ++ flushed state.run, run := [] } := by
  obtain ⟨pieces, run, index, depth⟩ := state
  cases run with
  | nil => simp [flushRun, flushed]
  | cons first rest => rfl

theorem push_eq (state : Tokenizer) (piece : Piece) :
    state.push piece = ⟨state.pieces ++ flushed state.run ++ [piece], [], state.index + 1,
      state.angleDepth⟩ := by
  rw [push, flushRun_eq]

/-- The state after a lexeme, with the depth it leaves. -/
def taking (state : Tokenizer) (lexeme : Lexeme) (depth : ℕ) : Tokenizer :=
  let index := state.index + lexeme.source.length
  let pushed (piece : Piece) : Tokenizer :=
    ⟨state.pieces ++ flushed state.run ++ [piece], [], index, depth⟩
  match lexeme with
  | .letter character => ⟨state.pieces, state.run ++ [character], index, depth⟩
  | .sealed text => ⟨state.pieces, state.run ++ text, index, depth⟩
  | .opening character => pushed (.opening character)
  | .closing character => pushed (.closing character)
  | .comma => pushed .comma
  | .blank _ => pushed .space

theorem index_taking (state : Tokenizer) (lexeme : Lexeme) (depth : ℕ) :
    (state.taking lexeme depth).index = state.index + lexeme.source.length := by
  cases lexeme <;> rfl

theorem angleDepth_taking (state : Tokenizer) (lexeme : Lexeme) (depth : ℕ) :
    (state.taking lexeme depth).angleDepth = depth := by
  cases lexeme <;> rfl

/-- What the pieces will be does not depend on how far the loop is. -/
theorem pieces_taking (state : Tokenizer) (lexeme : Lexeme) (depth : ℕ)
    (later : List Lexeme) :
    (state.taking lexeme depth).pieces ++ piecesOf (state.taking lexeme depth).run later =
      state.pieces ++ piecesOf state.run (lexeme :: later) := by
  cases lexeme <;> simp [taking, piecesOf]

theorem copyTo_eq {state : Tokenizer} {before text source : List Char}
    (hindex : state.index = before.length) (hstart : source <+: text) :
    state.copyTo (before ++ text) (before.length + source.length) =
      some (state.taking (.sealed source) state.angleDepth) := by
  obtain ⟨after, rfl⟩ := hstart
  rw [copyTo, hindex, if_pos ⟨Nat.le_add_right _ _, by simp⟩, List.drop_left,
    Nat.add_sub_cancel_left, List.take_left, taking, hindex]
  rfl

/-- A turn of the loop takes the lexeme that begins at its index. -/
theorem turn_eq (alphanumeric : Alphanumeric) {state : Tokenizer} {before : List Char}
    (hindex : state.index = before.length) (first : Char) (rest : List Char) :
    state.turn alphanumeric (before ++ first :: rest) first =
      some (state.taking (read alphanumeric before state.angleDepth first rest).1
        (read alphanumeric before state.angleDepth first rest).2) := by
  have hnext : (before ++ first :: rest)[before.length + 1]? = rest.head? := by
    rw [getElem?_behind before first rest 0, List.head?_eq_getElem?]
  have hdrop : (before ++ first :: rest).drop (before.length + 1) = rest := by
    rw [List.append_cons]
    exact List.drop_left' (by simp)
  have hopens : opensTypeArguments alphanumeric (before ++ first :: rest) before.length =
      opensTypes alphanumeric before rest := by
    rw [opensTypeArguments, List.take_left, hdrop]
  have hcloses : closesTypeArguments (before ++ first :: rest) before.length =
      closesTypes before rest := by
    rw [closesTypeArguments, List.take_left, hdrop]
  have hstart := source_read_start alphanumeric before state.angleDepth first rest
  rw [read] at hstart
  rw [turn, read, hindex, hnext, hopens, hcloses]
  dsimp only
  by_cases hquote : first = '"'
  · rw [if_pos hquote] at hstart
    rw [if_pos hquote, if_pos hquote, consumeString_append before hquote]
    exact copyTo_eq hindex hstart
  rw [if_neg hquote] at hstart
  rw [if_neg hquote, if_neg hquote]
  by_cases hline : first = '/' ∧ rest.head? = some '/'
  · rw [if_pos hline] at hstart
    rw [if_pos hline, if_pos hline, consumeLineComment_append before hline.2]
    exact copyTo_eq hindex hstart
  rw [if_neg hline] at hstart
  rw [if_neg hline, if_neg hline]
  by_cases hblock : first = '/' ∧ rest.head? = some '*'
  · rw [if_pos hblock] at hstart
    rw [if_pos hblock, if_pos hblock, consumeBlockComment_append before hblock.2]
    exact copyTo_eq hindex hstart
  rw [if_neg hblock] at hstart
  rw [if_neg hblock, if_neg hblock]
  by_cases hspace : isWhitespace first = true
  · rw [if_pos hspace, if_pos hspace, push_eq, taking, skipWhitespace_append before (first :: rest),
      List.takeWhile_cons_of_pos hspace, hindex]
    rfl
  rw [if_neg hspace, if_neg hspace]
  by_cases hround : first = '(' ∨ first = '['
  · rw [if_pos hround, if_pos hround, push_eq]
    rfl
  rw [if_neg hround, if_neg hround]
  by_cases hangle : first = '<' ∧ opensTypes alphanumeric before rest = true
  · rw [if_pos hangle, if_pos hangle, push_eq]
    rfl
  rw [if_neg hangle, if_neg hangle]
  by_cases hclose : first = ')' ∨ first = ']'
  · rw [if_pos hclose, if_pos hclose, push_eq]
    rfl
  rw [if_neg hclose, if_neg hclose]
  by_cases hcloseAngle : first = '>' ∧ 0 < state.angleDepth ∧ closesTypes before rest = true
  · rw [if_pos hcloseAngle, if_pos hcloseAngle, push_eq]
    rfl
  rw [if_neg hcloseAngle, if_neg hcloseAngle]
  by_cases hcomma : first = ','
  · rw [if_pos hcomma, if_pos hcomma, push_eq]
    rfl
  rw [if_neg hcomma, if_neg hcomma]
  rw [taking, hindex]
  rfl

/-- The loop has read a front of the text, and the lexemes of the rest will complete its
pieces. -/
structure Reading (alphanumeric : Alphanumeric) (text : List Char) (total : List Piece)
    (state : Tokenizer) (before rest : List Char) (later : List Lexeme) : Prop where
  text_eq : text = before ++ rest
  index_eq : state.index = before.length
  lexes : Lexes alphanumeric before state.angleDepth rest later
  pieces_eq : state.pieces ++ piecesOf state.run later = total

def Reads (alphanumeric : Alphanumeric) (text : List Char) (total : List Piece)
    (state : Option Tokenizer) : Prop :=
  ∃ held before rest later, state = some held ∧
    Reading alphanumeric text total held before rest later

def left (text : List Char) (state : Option Tokenizer) : ℕ :=
  text.length - (state.map Tokenizer.index).getD 0

theorem step_reads {text : List Char} {total : List Piece} {state next : Option Tokenizer}
    (hreads : Reads alphanumeric text total state)
    (hstep : step alphanumeric text state = some next) :
    Reads alphanumeric text total next ∧ left text next < left text state := by
  obtain ⟨held, before, rest, later, rfl, rfl, hindex, hlexes, hpieces⟩ := hreads
  rw [step, hindex] at hstep
  cases hlexes with
  | done => simp at hstep
  | @next _ rest after first _ lexemes hsource hlater =>
      have hturn := turn_eq alphanumeric hindex first rest
      have hpos := length_source_read_pos alphanumeric before held.angleDepth first rest
      have hfirst : (before ++ first :: rest)[before.length]? = some first := by simp
      rw [hfirst, Option.map_some, hturn] at hstep
      obtain rfl := Option.some.inj hstep
      constructor
      · exact ⟨_, before ++ (read alphanumeric before held.angleDepth first rest).1.source,
          after, lexemes, rfl,
          { text_eq := by rw [List.append_assoc, ← hsource]
            index_eq := by rw [index_taking, hindex, List.length_append]
            lexes := by rw [angleDepth_taking]; exact hlater
            pieces_eq := by rw [pieces_taking]; exact hpieces }⟩
      · simp only [left, Option.map_some, Option.getD_some, index_taking, hindex,
          List.length_append, List.length_cons]
        omega

end Tokenizer

/-- The first pass stays within the text and computes the pieces of its lexemes. -/
theorem tokenizeLayout_eq (alphanumeric : Alphanumeric) (text : List Char) :
    tokenizeLayout alphanumeric text =
      some (piecesOf [] (lexemesOf alphanumeric text)) := by
  have hstart : Tokenizer.Reads alphanumeric text (piecesOf [] (lexemesOf alphanumeric text))
      (some ⟨[], [], 0, 0⟩) :=
    ⟨_, [], text, _, rfl, rfl, rfl, lexes_lexemesOf alphanumeric text, rfl⟩
  obtain ⟨⟨held, before, rest, later, hheld, hreading⟩, hexit⟩ :=
    whileLoop_spec (fun _ _ => Tokenizer.step_reads) text.length hstart (Nat.sub_le _ _)
  obtain ⟨rfl, hindex, hlexes, hpieces⟩ := hreading
  rw [hheld, Tokenizer.step, hindex, Option.map_eq_none_iff, List.getElem?_eq_none_iff,
    List.length_append] at hexit
  have hrest : rest = [] := List.length_eq_zero_iff.1 (by omega)
  subst hrest
  cases hlexes
  rw [tokenizeLayout, hheld, Option.map_some, Tokenizer.flushRun_eq]
  exact congrArg some hpieces

end Ktsense.Core.Layout
