import Ktsense.Core.LayoutLexemes

/-!
# What the folding keeps

The second pass keeps or drops each piece by what stands next to it: a blank goes at
either end, behind an opening bracket and before a closing one or a comma, and a comma
goes when a closing bracket is the next thing behind it.
-/

namespace Ktsense.Core.Layout

open Ktsense.Foundation

/-! ## Pieces -/

/-- A blank between these two neighbours stays. -/
def spaceStays (previous next : Option Piece) : Bool :=
  (previous.any fun piece => !piece.isOpening) &&
    next.any fun piece => !(piece.isClosing || piece = .comma)

/-- The next piece that is no space closes a bracket. -/
def closesNext (rest : List Piece) : Bool :=
  ((rest.dropWhile (· = .space)).head?).any Piece.isClosing

/-- What is printed for pieces behind another. -/
def foldedPieces (previous : Option Piece) : List Piece → List Char
  | [] => []
  | .space :: rest =>
      (if spaceStays previous rest.head? then [' '] else []) ++ foldedPieces (some .space) rest
  | .comma :: rest =>
      (if closesNext rest then [] else [',']) ++ foldedPieces (some .comma) rest
  | piece :: rest => piece.text ++ foldedPieces (some piece) rest

theorem foldedPieces_solid {previous : Option Piece} {piece : Piece} {rest : List Piece}
    (hspace : piece ≠ .space) (hcomma : piece ≠ .comma) :
    foldedPieces previous (piece :: rest) = piece.text ++ foldedPieces (some piece) rest := by
  cases piece with
  | space => exact absurd rfl hspace
  | comma => exact absurd rfl hcomma
  | opening character => rfl
  | closing character => rfl
  | verbatim run => rfl

/-- No two spaces stand together. -/
def Spaced (pieces : List Piece) : Prop :=
  pieces.IsChain fun left right => ¬(left = .space ∧ right = .space)

theorem skipSpaces_append (before rest : List Piece) :
    skipSpaces (before ++ rest) before.length =
      before.length + (rest.takeWhile (· = .space)).length := by
  induction rest generalizing before with
  | nil =>
      rw [skipSpaces, dif_neg (by simp)]
      rfl
  | cons piece rest ih =>
      have hbound : before.length < (before ++ piece :: rest).length := by simp
      have hpiece : (before ++ piece :: rest)[before.length] = piece := by simp
      rw [skipSpaces, dif_pos hbound, hpiece]
      by_cases hspace : piece = .space
      · have hnext := ih (before ++ [piece])
        rw [List.append_assoc, List.singleton_append, List.length_append,
          List.length_singleton] at hnext
        rw [if_pos hspace, hnext, List.takeWhile_cons_of_pos (by simpa using hspace),
          List.length_cons]
        ring
      · rw [if_neg hspace, List.takeWhile_cons_of_neg (by simpa using hspace)]
        rfl

namespace Folder

/-- The text of the pieces kept, when these are still to come. -/
def textBefore (kept rest : List Piece) : List Char :=
  (if rest = [] then withoutSpace kept else kept).flatMap Piece.text

/-- The loop has gone over some pieces. -/
structure Folding (pieces : List Piece) (state : Folder) (before rest : List Piece) : Prop where
  pieces_eq : pieces = before ++ rest
  index_eq : state.index = before.length
  text_eq : textBefore state.kept rest ++ foldedPieces before.getLast? rest =
    foldedPieces none pieces
  /-- A space that was kept has something behind it that keeps it. -/
  settled : state.kept.getLast? = some .space →
    rest.head?.all fun next => !(next.isClosing || next = .comma || next = .space)
  /-- Before a space, what was kept last is what stood last. -/
  last_eq : rest.head? = some .space →
    before.getLast? ≠ some .space ∧ state.kept.getLast? = before.getLast?

variable {pieces before rest : List Piece} {state : Folder}

theorem withoutSpace_of_ne {kept : List Piece} (hlast : kept.getLast? ≠ some .space) :
    withoutSpace kept = kept := if_neg hlast

theorem textBefore_of_ne {kept : List Piece} (hlast : kept.getLast? ≠ some .space) :
    textBefore kept rest = kept.flatMap Piece.text := by
  rw [textBefore, withoutSpace_of_ne hlast, ite_self]

theorem textBefore_cons (kept : List Piece) (piece : Piece) :
    textBefore kept (piece :: rest) = kept.flatMap Piece.text := by
  rw [textBefore, if_neg (List.cons_ne_nil piece rest)]

/-- A piece that is printed as it is, is kept. -/
theorem Folding.keep {piece : Piece} (hfolding : Folding pieces state before (piece :: rest))
    (hpiece : piece ≠ .space) (hfolded : foldedPieces before.getLast? (piece :: rest) =
      piece.text ++ foldedPieces (some piece) rest) :
    Folding pieces (state.keep piece) (before ++ [piece]) rest := by
  have hlast : (state.keep piece).kept.getLast? = some piece := List.getLast?_concat
  have hne : (state.keep piece).kept.getLast? ≠ some .space := by
    rw [hlast]
    exact fun hequal => hpiece (Option.some.inj hequal)
  have htext := hfolding.text_eq
  rw [textBefore_cons, hfolded, ← List.append_assoc] at htext
  constructor
  case pieces_eq => rw [hfolding.pieces_eq, List.append_assoc, List.singleton_append]
  case index_eq => rw [Folder.keep, hfolding.index_eq, List.length_append, List.length_singleton]
  case text_eq =>
    rw [textBefore_of_ne hne, Folder.keep, List.flatMap_append, List.flatMap_singleton,
      List.getLast?_concat, htext]
  case settled => exact fun hspace => absurd hspace hne
  case last_eq =>
    rw [hlast, List.getLast?_concat]
    exact fun _ => ⟨fun hequal => hpiece (Option.some.inj hequal), rfl⟩

theorem Folding.next_eq {piece : Piece}
    (hfolding : Folding pieces state before (piece :: rest)) :
    pieces[state.index + 1]? = rest.head? := by
  rw [hfolding.pieces_eq, hfolding.index_eq, List.getElem?_append_right (Nat.le_add_right _ _),
    Nat.add_sub_cancel_left, List.head?_eq_getElem?]
  rfl

/-- No space follows a space. -/
theorem Folding.head_ne (hspaced : Spaced pieces)
    (hfolding : Folding pieces state before (.space :: rest)) : rest.head? ≠ some .space := by
  intro hhead
  obtain ⟨later, rfl⟩ := List.head?_eq_some_iff.1 hhead
  rw [Spaced, hfolding.pieces_eq, List.isChain_append] at hspaced
  have hpair := (List.isChain_cons_cons.1 hspaced.2.1).1
  exact hpair ⟨rfl, rfl⟩

/-- A space that does not stay is dropped. -/
theorem Folding.dropSpace (hspaced : Spaced pieces)
    (hfolding : Folding pieces state before (.space :: rest))
    (hgoes : spaceStays before.getLast? rest.head? = false) :
    Folding pieces ⟨state.kept, state.index + 1⟩ (before ++ [.space]) rest := by
  obtain ⟨hbefore, hkept⟩ := hfolding.last_eq rfl
  have hlast : state.kept.getLast? ≠ some .space := by
    rw [hkept]
    exact hbefore
  have htext := hfolding.text_eq
  rw [textBefore_cons, foldedPieces, hgoes, if_neg Bool.false_ne_true, List.nil_append] at htext
  constructor
  case pieces_eq => rw [hfolding.pieces_eq, List.append_assoc, List.singleton_append]
  case index_eq => rw [hfolding.index_eq, List.length_append, List.length_singleton]
  case text_eq => rw [textBefore_of_ne hlast, List.getLast?_concat, htext]
  case settled => exact fun hspace => absurd hspace hlast
  case last_eq => exact fun hspace => absurd hspace (hfolding.head_ne hspaced)

/-- A space behind a piece that is not opening, and before none that drops it, is kept
until the end shows whether it stays. -/
theorem Folding.keepSpace (hspaced : Spaced pieces)
    (hfolding : Folding pieces state before (.space :: rest))
    (hprevious : (before.getLast?.any fun piece => !piece.isOpening) = true)
    (hnext : (rest.head?.any fun next => next.isClosing || next = .comma) = false) :
    Folding pieces (state.keep .space) (before ++ [.space]) rest := by
  obtain ⟨hbefore, hkept⟩ := hfolding.last_eq rfl
  have hlast : state.kept.getLast? ≠ some .space := by
    rw [hkept]
    exact hbefore
  have hhead := hfolding.head_ne hspaced
  have htext := hfolding.text_eq
  rw [textBefore_cons, foldedPieces, spaceStays, hprevious, Bool.true_and,
    ← List.append_assoc] at htext
  constructor
  case pieces_eq => rw [hfolding.pieces_eq, List.append_assoc, List.singleton_append]
  case index_eq => rw [Folder.keep, hfolding.index_eq, List.length_append, List.length_singleton]
  case text_eq =>
    rw [List.getLast?_concat, ← htext]
    cases rest with
    | nil => simp [textBefore, withoutSpace, Folder.keep]
    | cons next rest =>
        rw [List.head?_cons, Option.any_some] at hnext ⊢
        rw [textBefore_cons, Folder.keep, List.flatMap_append, List.flatMap_singleton, hnext,
          Bool.not_false, if_pos rfl]
        rfl
  case settled =>
    intro _
    cases rest with
    | nil => rfl
    | cons next rest =>
        have hne : next ≠ .space := fun hequal => hhead (congrArg some hequal)
        rw [List.head?_cons, Option.any_some] at hnext
        rw [List.head?_cons, Option.all_some, hnext, decide_eq_false hne]
        rfl
  case last_eq => exact fun hspace => absurd hspace hhead

theorem Folding.space (hspaced : Spaced pieces)
    (hfolding : Folding pieces state before (.space :: rest)) :
    Folding pieces (state.turn pieces .space) (before ++ [.space]) rest := by
  have hkept := (hfolding.last_eq rfl).2
  have hempty : state.kept.isEmpty = state.kept.getLast?.isNone := by
    cases state.kept using List.reverseRecOn with
    | nil => rfl
    | append_singleton front last => simp
  rw [turn, hfolding.next_eq, hempty, hkept]
  cases hprevious : before.getLast?.any fun piece => !piece.isOpening with
  | false =>
      have hdropped : (before.getLast?.isNone || before.getLast?.any Piece.isOpening) = true := by
        cases hlast : before.getLast? with
        | none => rfl
        | some last =>
            rw [hlast, Option.any_some, Bool.not_eq_false'] at hprevious
            rw [Option.any_some, hprevious, Bool.or_true]
      rw [hdropped, Bool.true_or, if_pos rfl]
      exact hfolding.dropSpace hspaced (by rw [spaceStays, hprevious, Bool.false_and])
  | true =>
      have hkeeps : (before.getLast?.isNone || before.getLast?.any Piece.isOpening) = false := by
        cases hlast : before.getLast? with
        | none =>
            rw [hlast] at hprevious
            cases hprevious
        | some last =>
            rw [hlast, Option.any_some, Bool.not_eq_true'] at hprevious
            rw [Option.any_some, hprevious]
            rfl
      rw [hkeeps, Bool.false_or]
      cases hnext : rest.head?.any fun next => next.isClosing || next = .comma with
      | false =>
          rw [if_neg Bool.false_ne_true]
          exact hfolding.keepSpace hspaced hprevious hnext
      | true =>
          rw [if_pos rfl]
          apply hfolding.dropSpace hspaced
          rw [spaceStays, hprevious, Bool.true_and]
          cases hhead : rest.head? with
          | none => rfl
          | some next =>
              rw [hhead, Option.any_some] at hnext
              rw [Option.any_some, hnext]
              rfl

/-- Of the spaces between a comma and a closing bracket nothing is printed. -/
theorem foldedPieces_dropWhile (hspaced : Spaced (.comma :: rest))
    (hcloses : closesNext rest = true) :
    foldedPieces (some .comma) rest =
      foldedPieces ((.comma :: rest.takeWhile (· = .space)).getLast?)
        (rest.dropWhile (· = .space)) := by
  cases rest with
  | nil => rfl
  | cons first rest =>
      by_cases hfirst : first = .space
      · subst hfirst
        cases rest with
        | nil => cases hcloses
        | cons second rest =>
            have hsecond : second ≠ .space := by
              intro hequal
              have htail := (List.isChain_cons_cons.1 hspaced).2
              exact (List.isChain_cons_cons.1 htail).1 ⟨rfl, hequal⟩
            have hclosing : second.isClosing = true := by
              simpa [closesNext, hsecond] using hcloses
            have hgoes : spaceStays (some .comma) (some second) = false := by
              simp [spaceStays, hclosing]
            rw [foldedPieces, List.head?_cons, hgoes]
            simp [hsecond]
      · simp [hfirst]

/-- A comma before a closing bracket goes, with the spaces between them. -/
theorem Folding.dropComma (hspaced : Spaced pieces)
    (hfolding : Folding pieces state before (.comma :: rest)) (hcloses : closesNext rest = true) :
    Folding pieces
      ⟨withoutSpace state.kept, state.index + 1 + (rest.takeWhile (· = .space)).length⟩
      (before ++ .comma :: rest.takeWhile (· = .space)) (rest.dropWhile (· = .space)) := by
  have hlast : state.kept.getLast? ≠ some .space := by
    intro hspace
    have hsettled := hfolding.settled hspace
    simp at hsettled
  have hcommaSpaced : Spaced (.comma :: rest) := by
    rw [Spaced, hfolding.pieces_eq, List.isChain_append] at hspaced
    exact hspaced.2.1
  have htext := hfolding.text_eq
  rw [textBefore_cons, foldedPieces, hcloses, if_pos rfl, List.nil_append,
    foldedPieces_dropWhile hcommaSpaced hcloses] at htext
  have hhead : (rest.dropWhile (· = .space)).head? ≠ some .space := by
    intro hspace
    rw [closesNext, hspace] at hcloses
    cases hcloses
  constructor
  case pieces_eq =>
    rw [hfolding.pieces_eq, List.append_assoc, List.cons_append, List.takeWhile_append_dropWhile]
  case index_eq =>
    rw [hfolding.index_eq, List.length_append, List.length_cons]
    ring
  case text_eq =>
    rw [withoutSpace_of_ne hlast, textBefore_of_ne hlast, List.getLast?_append_cons, htext]
  case settled =>
    rw [withoutSpace_of_ne hlast]
    exact fun hspace => absurd hspace hlast
  case last_eq => exact fun hspace => absurd hspace hhead

theorem Folding.comma (hspaced : Spaced pieces)
    (hfolding : Folding pieces state before (.comma :: rest)) :
    ∃ front back, Folding pieces (state.turn pieces .comma) (before ++ .comma :: front) back := by
  have hpieces : pieces = (before ++ .comma :: rest.takeWhile (· = .space)) ++
      rest.dropWhile (· = .space) := by
    rw [hfolding.pieces_eq, List.append_assoc, List.cons_append, List.takeWhile_append_dropWhile]
  have hbehind : skipSpaces pieces (state.index + 1) =
      state.index + 1 + (rest.takeWhile (· = .space)).length := by
    have hskipped := skipSpaces_append (before ++ [.comma]) rest
    rw [List.append_assoc, List.singleton_append, ← hfolding.pieces_eq, List.length_append,
      List.length_singleton, ← hfolding.index_eq] at hskipped
    exact hskipped
  have hnext : pieces[state.index + 1 + (rest.takeWhile (· = .space)).length]? =
      (rest.dropWhile (· = .space)).head? := by
    have hlength : state.index + 1 + (rest.takeWhile (· = .space)).length =
        (before ++ .comma :: rest.takeWhile (· = .space)).length := by
      rw [hfolding.index_eq, List.length_append, List.length_cons]
      ring
    conv_lhs => rw [hlength, hpieces]
    rw [List.getElem?_append_right le_rfl, Nat.sub_self, List.head?_eq_getElem?]
  rw [turn, hbehind, hnext]
  split_ifs with hcloses
  · exact ⟨_, _, hfolding.dropComma hspaced hcloses⟩
  · have hkept : foldedPieces before.getLast? (.comma :: rest) =
        Piece.comma.text ++ foldedPieces (some .comma) rest := by
      rw [foldedPieces, closesNext, if_neg hcloses]
      rfl
    exact ⟨[], rest, hfolding.keep (by decide) hkept⟩

/-- One turn takes at least one piece. -/
theorem Folding.turn {piece : Piece} (hspaced : Spaced pieces)
    (hfolding : Folding pieces state before (piece :: rest)) :
    ∃ front back, Folding pieces (state.turn pieces piece) (before ++ piece :: front) back := by
  cases piece with
  | space => exact ⟨[], rest, hfolding.space hspaced⟩
  | comma => exact hfolding.comma hspaced
  | opening character => exact ⟨[], rest, hfolding.keep (by simp) rfl⟩
  | closing character => exact ⟨[], rest, hfolding.keep (by simp) rfl⟩
  | verbatim run => exact ⟨[], rest, hfolding.keep (by simp) rfl⟩

theorem step_folding (hspaced : Spaced pieces) {next : Folder}
    (hfolding : ∃ before rest, Folding pieces state before rest)
    (hstep : step pieces state = some next) :
    (∃ before rest, Folding pieces next before rest) ∧
      pieces.length - next.index < pieces.length - state.index := by
  obtain ⟨before, rest, hfolding⟩ := hfolding
  have hindex := hfolding.index_eq
  have hpieces := hfolding.pieces_eq
  obtain ⟨piece, hpiece, rfl⟩ := Option.map_eq_some_iff.1 hstep
  cases rest with
  | nil =>
      rw [hpieces, hindex, List.append_nil, List.getElem?_length] at hpiece
      cases hpiece
  | cons first rest =>
      obtain rfl : first = piece := by
        rw [hpieces, hindex] at hpiece
        simpa using hpiece
      obtain ⟨front, back, hnext⟩ := hfolding.turn hspaced
      have hlength := congrArg List.length hpieces
      have hlater := hnext.index_eq
      rw [List.length_append, List.length_cons] at hlength hlater
      exact ⟨⟨_, _, hnext⟩, by omega⟩

end Folder

/-- The second pass prints what stays of the pieces. -/
theorem text_foldPieces {pieces : List Piece} (hspaced : Spaced pieces) :
    (foldPieces pieces).flatMap Piece.text = foldedPieces none pieces := by
  have hstart : ∃ before rest, Folder.Folding pieces ⟨[], 0⟩ before rest :=
    ⟨[], pieces,
      { pieces_eq := rfl
        index_eq := rfl
        text_eq := by
          rw [Folder.textBefore_of_ne (by simp)]
          rfl
        settled := fun hspace => by cases hspace
        last_eq := fun _ => ⟨by simp, rfl⟩ }⟩
  obtain ⟨⟨before, rest, hfolding⟩, hexit⟩ :=
    whileLoop_spec (fun _ _ => Folder.step_folding hspaced) pieces.length hstart
      (Nat.sub_le _ _)
  have hindex := hfolding.index_eq
  have hlength := congrArg List.length hfolding.pieces_eq
  rw [Folder.step, Option.map_eq_none_iff, List.getElem?_eq_none_iff] at hexit
  rw [List.length_append] at hlength
  have hrest : rest = [] := List.length_eq_zero_iff.1 (by omega)
  have htext := hfolding.text_eq
  rw [hrest, Folder.textBefore, if_pos rfl, foldedPieces, List.append_nil] at htext
  exact htext

/-! ## Lexemes -/

/-- A blank between these two neighbours stays. -/
def blankStays (previous next : Option Lexeme) : Bool :=
  (previous.any fun lexeme => !lexeme.isOpening) &&
    next.any fun lexeme => !(lexeme.isClosing || lexeme = .comma)

/-- The next lexeme that is no blank closes a bracket. -/
def commaGoes (rest : List Lexeme) : Bool :=
  ((rest.dropWhile Lexeme.isBlank).head?).any Lexeme.isClosing

/-- What is printed for a lexeme between its neighbours. -/
def image (previous : Option Lexeme) (lexeme : Lexeme) (rest : List Lexeme) : List Char :=
  match lexeme with
  | .blank _ => if blankStays previous rest.head? then [' '] else []
  | .comma => if commaGoes rest then [] else [',']
  | other => other.source

/-- What is printed for lexemes behind another. -/
def foldedFrom (previous : Option Lexeme) : List Lexeme → List Char
  | [] => []
  | lexeme :: rest => image previous lexeme rest ++ foldedFrom (some lexeme) rest

/-- The lexemes as one reads them: none is empty, and no blank follows a blank. -/
structure WellRead (lexemes : List Lexeme) : Prop where
  filled : ∀ lexeme ∈ lexemes, lexeme.source ≠ []
  apart : lexemes.IsChain fun left right => ¬(left.isBlank = true ∧ right.isBlank = true)

theorem WellRead.tail {lexeme : Lexeme} {lexemes : List Lexeme}
    (hread : WellRead (lexeme :: lexemes)) : WellRead lexemes :=
  ⟨fun other hmem => hread.filled other (List.mem_cons_of_mem _ hmem), hread.apart.tail⟩

theorem WellRead.next {first second : Lexeme} {lexemes : List Lexeme}
    (hread : WellRead (first :: second :: lexemes)) (hblank : first.isBlank = true) :
    second.isBlank = false := by
  have hapart := (List.isChain_cons_cons.1 hread.apart).1
  exact Bool.eq_false_iff.2 fun hsecond => hapart ⟨hblank, hsecond⟩

/-- Letters go to the run that is open. -/
theorem piecesOf_run {run : List Char} (hrun : run ≠ []) (lexemes : List Lexeme) :
    ∃ longer later, piecesOf run lexemes = .verbatim longer :: later := by
  have hflushed : flushed run = [.verbatim run] := by
    rw [flushed, List.isEmpty_eq_false_iff.2 hrun, if_neg Bool.false_ne_true]
  induction lexemes generalizing run with
  | nil => exact ⟨run, [], hflushed⟩
  | cons lexeme rest ih =>
      cases lexeme with
      | letter character =>
          have hlonger : run ++ [character] ≠ [] := by simp
          exact ih hlonger (by simp [flushed])
      | sealed text =>
          have hlonger : run ++ text ≠ [] := by simp [hrun]
          exact ih hlonger (by simp [flushed, hrun])
      | opening character => exact ⟨run, _, by rw [piecesOf, hflushed]; rfl⟩
      | closing character => exact ⟨run, _, by rw [piecesOf, hflushed]; rfl⟩
      | comma => exact ⟨run, _, by rw [piecesOf, hflushed]; rfl⟩
      | blank text => exact ⟨run, _, by rw [piecesOf, hflushed]; rfl⟩

/-- A letter or a literal begins a run. -/
theorem piecesOf_solid {lexeme : Lexeme} (hsource : lexeme.source ≠ [])
    (hsolid : (∃ character, lexeme = .letter character) ∨ ∃ text, lexeme = .sealed text)
    (rest : List Lexeme) :
    ∃ longer later, piecesOf [] (lexeme :: rest) = .verbatim longer :: later := by
  rcases hsolid with ⟨character, rfl⟩ | ⟨text, rfl⟩
  · rw [piecesOf, List.nil_append]
    exact piecesOf_run (List.cons_ne_nil character []) rest
  · rw [piecesOf, List.nil_append]
    exact piecesOf_run hsource rest

/-- The first piece of lexemes is of the kind of the first lexeme. -/
theorem head_piecesOf {lexemes : List Lexeme}
    (hfilled : ∀ lexeme ∈ lexemes, lexeme.source ≠ []) :
    ((piecesOf [] lexemes).head?.any fun piece => !(piece.isClosing || piece = .comma)) =
      lexemes.head?.any fun lexeme => !(lexeme.isClosing || lexeme = .comma) := by
  cases lexemes with
  | nil => rfl
  | cons lexeme rest =>
      have hlexeme := hfilled lexeme List.mem_cons_self
      cases lexeme with
      | letter character =>
          obtain ⟨longer, later, hpieces⟩ := piecesOf_solid hlexeme (.inl ⟨_, rfl⟩) rest
          rw [hpieces]
          rfl
      | sealed text =>
          obtain ⟨longer, later, hpieces⟩ := piecesOf_solid hlexeme (.inr ⟨_, rfl⟩) rest
          rw [hpieces]
          rfl
      | opening character => rfl
      | closing character => rfl
      | comma => rfl
      | blank text => rfl

theorem closesNext_piecesOf {lexemes : List Lexeme}
    (hfilled : ∀ lexeme ∈ lexemes, lexeme.source ≠ []) :
    closesNext (piecesOf [] lexemes) = commaGoes lexemes := by
  induction lexemes with
  | nil => rfl
  | cons lexeme rest ih =>
      have hlexeme := hfilled lexeme List.mem_cons_self
      cases lexeme with
      | letter character =>
          obtain ⟨longer, later, hpieces⟩ := piecesOf_solid hlexeme (.inl ⟨_, rfl⟩) rest
          rw [hpieces]
          rfl
      | sealed text =>
          obtain ⟨longer, later, hpieces⟩ := piecesOf_solid hlexeme (.inr ⟨_, rfl⟩) rest
          rw [hpieces]
          rfl
      | opening character => rfl
      | closing character => rfl
      | comma => rfl
      | blank text =>
          have hrest := ih fun other hmem => hfilled other (List.mem_cons_of_mem _ hmem)
          exact hrest

/-- The run that is open, or else the lexeme before, is no opening bracket exactly when the
piece before is none. -/
def Follows (run : List Char) (piece : Option Piece) (previous : Option Lexeme) : Prop :=
  if run = [] then
    (piece.any fun piece => !piece.isOpening) = previous.any fun lexeme => !lexeme.isOpening
  else (previous.any fun lexeme => !lexeme.isOpening) = true

theorem foldedPieces_flushed {run : List Char} {piece : Option Piece}
    (pieces : List Piece) :
    foldedPieces piece (flushed run ++ pieces) =
      run ++ foldedPieces (if run = [] then piece else some (.verbatim run)) pieces := by
  cases run with
  | nil => rfl
  | cons first rest => rfl

theorem any_of_follows {run : List Char} {piece : Option Piece} {previous : Option Lexeme}
    (hfollows : Follows run piece previous) :
    ((if run = [] then piece else some (.verbatim run)).any fun piece => !piece.isOpening) =
      previous.any fun lexeme => !lexeme.isOpening := by
  rw [Follows] at hfollows
  split_ifs at hfollows ⊢ with hrun
  · exact hfollows
  · rw [hfollows]
    rfl

theorem follows_start : Follows [] none none := by
  rw [Follows, if_pos rfl]
  rfl

/-- The pieces of lexemes print what the lexemes do. -/
theorem foldedPieces_piecesOf {lexemes : List Lexeme}
    (hfilled : ∀ lexeme ∈ lexemes, lexeme.source ≠ []) {run : List Char}
    {piece : Option Piece} {previous : Option Lexeme} (hfollows : Follows run piece previous) :
    foldedPieces piece (piecesOf run lexemes) = run ++ foldedFrom previous lexemes := by
  induction lexemes generalizing run piece previous with
  | nil =>
      have hflushed := @foldedPieces_flushed run piece []
      rw [List.append_nil] at hflushed
      rw [piecesOf, hflushed]
      rfl
  | cons lexeme rest ih =>
      have hrest : ∀ other ∈ rest, other.source ≠ [] :=
        fun other hmem => hfilled other (List.mem_cons_of_mem _ hmem)
      have hopen {longer : List Char} (hlonger : longer ≠ []) (next : Lexeme)
          (hnext : next.isOpening = false) : Follows longer piece (some next) := by
        rw [Follows, if_neg hlonger, Option.any_some, hnext]
        rfl
      have hclosed (other : Piece) (next : Lexeme) (hkind : other.isOpening = next.isOpening) :
          Follows [] (some other) (some next) := by
        rw [Follows, if_pos rfl, Option.any_some, Option.any_some, hkind]
      cases lexeme with
      | letter character =>
          rw [piecesOf, ih hrest (hopen (by simp) (.letter character) rfl), List.append_assoc]
          rfl
      | sealed text =>
          have htext : text ≠ [] := hfilled (.sealed text) List.mem_cons_self
          rw [piecesOf, ih hrest (hopen (by simp [htext]) (.sealed text) rfl), List.append_assoc]
          rfl
      | opening character =>
          have hlater := ih hrest (hclosed (.opening character) (.opening character) rfl)
          rw [piecesOf, foldedPieces_flushed, foldedPieces_solid (by simp) (by simp), hlater]
          rfl
      | closing character =>
          have hlater := ih hrest (hclosed (.closing character) (.closing character) rfl)
          rw [piecesOf, foldedPieces_flushed, foldedPieces_solid (by simp) (by simp), hlater]
          rfl
      | comma =>
          have hlater := ih hrest (hclosed .comma .comma rfl)
          rw [piecesOf, foldedPieces_flushed, foldedPieces, closesNext_piecesOf hrest, hlater]
          rfl
      | blank text =>
          have hlater := ih hrest (hclosed .space (.blank text) rfl)
          rw [piecesOf, foldedPieces_flushed, foldedPieces, spaceStays, any_of_follows hfollows,
            head_piecesOf hrest, hlater]
          rfl

theorem head_piecesOf_space {run : List Char} {lexemes : List Lexeme}
    (hfilled : ∀ lexeme ∈ lexemes, lexeme.source ≠ [])
    (hspace : (piecesOf run lexemes).head? = some .space) :
    lexemes.head?.any Lexeme.isBlank = true := by
  by_cases hrun : run = []
  · subst hrun
    cases lexemes with
    | nil => cases hspace
    | cons lexeme rest =>
        have hlexeme := hfilled lexeme List.mem_cons_self
        cases lexeme with
        | letter character =>
            obtain ⟨longer, later, hpieces⟩ := piecesOf_solid hlexeme (.inl ⟨_, rfl⟩) rest
            rw [hpieces] at hspace
            cases hspace
        | sealed text =>
            obtain ⟨longer, later, hpieces⟩ := piecesOf_solid hlexeme (.inr ⟨_, rfl⟩) rest
            rw [hpieces] at hspace
            cases hspace
        | opening character => cases hspace
        | closing character => cases hspace
        | comma => cases hspace
        | blank text => rfl
  · obtain ⟨longer, later, hpieces⟩ := piecesOf_run hrun lexemes
    rw [hpieces] at hspace
    cases hspace

theorem spaced_piecesOf {run : List Char} {lexemes : List Lexeme} (hread : WellRead lexemes) :
    Spaced (piecesOf run lexemes) := by
  have hflushed (run : List Char) {piece : Piece} {later : List Piece}
      (hlater : Spaced (piece :: later)) : Spaced (flushed run ++ piece :: later) := by
    cases run with
    | nil => exact hlater
    | cons first rest => exact List.isChain_cons_cons.2 ⟨by simp, hlater⟩
  have hsolid {piece : Piece} {later : List Piece} (hpiece : piece ≠ .space)
      (hlater : Spaced later) : Spaced (piece :: later) := by
    cases later with
    | nil => exact List.isChain_singleton piece
    | cons next later => exact List.isChain_cons_cons.2 ⟨fun hboth => hpiece hboth.1, hlater⟩
  induction lexemes generalizing run with
  | nil =>
      cases run with
      | nil => exact List.isChain_nil
      | cons first rest => exact List.isChain_singleton _
  | cons lexeme rest ih =>
      cases lexeme with
      | letter character => exact ih hread.tail
      | sealed text => exact ih hread.tail
      | opening character => exact hflushed run (hsolid (by simp) (ih hread.tail))
      | closing character => exact hflushed run (hsolid (by simp) (ih hread.tail))
      | comma => exact hflushed run (hsolid (by simp) (ih hread.tail))
      | blank text =>
          apply hflushed run
          have hlater : Spaced (piecesOf [] rest) := ih hread.tail
          have hhead : (piecesOf [] rest).head? ≠ some .space := by
            intro hspace
            have hblank := head_piecesOf_space hread.tail.filled hspace
            cases rest with
            | nil => cases hblank
            | cons next rest => exact (List.isChain_cons_cons.1 hread.apart).1 ⟨rfl, hblank⟩
          cases hpieces : piecesOf [] rest with
          | nil => exact List.isChain_singleton _
          | cons next later =>
              rw [hpieces] at hlater hhead
              exact List.isChain_cons_cons.2
                ⟨fun hboth => hhead (congrArg some hboth.2), hlater⟩

variable {alphanumeric : Alphanumeric}

/-- A lexeme is blank when it begins in white space. -/
theorem isBlank_read {before rest : List Char} {depth : ℕ} {first : Char} :
    (read alphanumeric before depth first rest).1.isBlank = true ↔
      isWhitespace first = true := by
  have hother (hspace : ¬isWhitespace first = true) {lexeme : Lexeme}
      (hlexeme : lexeme.isBlank = false) :
      lexeme.isBlank = true ↔ isWhitespace first = true :=
    iff_of_false (by rw [hlexeme]; exact Bool.false_ne_true) hspace
  refine read_cases alphanumeric before depth first rest (fun hquote => ?_) (fun hslash _ => ?_)
    (fun hslash _ => ?_) (fun hspace => iff_of_true rfl hspace) (fun hspace _ => hother hspace rfl)
    (fun hspace _ => hother hspace rfl) (fun hspace _ => hother hspace rfl)
    (fun hspace _ => hother hspace rfl) (fun hspace _ => hother hspace rfl)
    (fun hspace _ => hother hspace rfl)
  · rw [hquote]
    exact iff_of_false Bool.false_ne_true (by decide)
  · rw [hslash]
    exact iff_of_false Bool.false_ne_true (by decide)
  · rw [hslash]
    exact iff_of_false Bool.false_ne_true (by decide)

/-- White space is read to its end. -/
theorem blank_read {before rest : List Char} {depth : ℕ} {first : Char}
    (hspace : isWhitespace first = true) :
    read alphanumeric before depth first rest =
      (.blank (first :: rest.takeWhile isWhitespace), depth) := by
  have hplain (letter : Char) (hletter : isWhitespace letter = false) : first ≠ letter := by
    intro hequal
    rw [hequal, hletter] at hspace
    cases hspace
  have hslash : first ≠ '/' := hplain '/' (by decide)
  rw [read, if_neg (hplain '"' (by decide)), if_neg fun hline => hslash hline.1,
    if_neg fun hblock => hslash hblock.1, if_pos hspace]

theorem Lexes.wellRead {before text : List Char} {depth : ℕ} {lexemes : List Lexeme}
    (hlexes : Lexes alphanumeric before depth text lexemes) : WellRead lexemes := by
  induction hlexes with
  | done => exact ⟨fun _ hmem => absurd hmem List.not_mem_nil, List.isChain_nil⟩
  | @next before rest after first depth lexemes hsource hlater ih =>
      constructor
      · intro lexeme hmem
        rcases List.mem_cons.1 hmem with rfl | hmem
        · exact List.ne_nil_of_length_pos
            (length_source_read_pos alphanumeric before depth first rest)
        · exact ih.filled lexeme hmem
      · cases hlater with
        | done => exact List.isChain_singleton _
        | @next _ rest' after' first' _ lexemes' hsource' hlater' =>
            apply List.isChain_cons_cons.2
            refine ⟨?_, ih.apart⟩
            rintro ⟨hblank, hnext⟩
            have hfirst := isBlank_read.1 hblank
            rw [blank_read hfirst] at hsource
            have hdrop : rest.dropWhile isWhitespace = first' :: rest' :=
              List.append_cancel_left
                (List.takeWhile_append_dropWhile.trans (List.cons.inj hsource).2)
            have hbehind := List.head?_dropWhile_not isWhitespace rest
            rw [hdrop, List.head?_cons] at hbehind
            rw [isBlank_read, hbehind] at hnext
            cases hnext

/-- The folding succeeds on every text, and prints what its lexemes keep. -/
theorem normalizeSignatureLayout_eq (alphanumeric : Alphanumeric) (text : String) :
    normalizeSignatureLayout alphanumeric text =
      some (String.ofList (foldedFrom none (lexemesOf alphanumeric text.toList))) := by
  have hread := (lexes_lexemesOf alphanumeric text.toList).wellRead
  rw [normalizeSignatureLayout, tokenizeLayout_eq, Option.map_some,
    text_foldPieces (spaced_piecesOf hread), foldedPieces_piecesOf hread.filled follows_start]
  rfl

/-! ## What a fold is -/

/-- The characters a lexeme of each kind is made of. -/
def Lexeme.Proper : Lexeme → Prop
  | .letter character => isWhitespace character = false ∧ character ≠ ','
  | .sealed text => ∃ first ∈ text.head?, first = '"' ∨ first = '/'
  | .opening character => character ∈ ['(', '[', '<']
  | .closing character => character ∈ [')', ']', '>']
  | .comma => True
  | .blank text => text ≠ [] ∧ ∀ character ∈ text, isWhitespace character = true

/-- A string literal or a comment lies between these two indices. -/
def Delimited (text : List Char) (start stop : ℕ) : Prop :=
  (text[start]? = some '"' ∧ stop = consumeString text start) ∨
    (text[start]? = some '/' ∧ text[start + 1]? = some '/' ∧
      stop = consumeLineComment text start) ∨
    (text[start]? = some '/' ∧ text[start + 1]? = some '*' ∧
      stop = consumeBlockComment text start)

/-- A text cut into lexemes: white space runs are whole, and what is sealed is what the
tokenizer takes for a literal or a comment. -/
structure Delimits (text : List Char) (lexemes : List Lexeme) : Prop where
  source : sourceOf lexemes = text
  proper : ∀ lexeme ∈ lexemes, lexeme.Proper
  apart : lexemes.IsChain fun left right => ¬(left.isBlank = true ∧ right.isBlank = true)
  sealed : ∀ front inner back, lexemes = front ++ .sealed inner :: back →
    Delimited text (sourceOf front).length ((sourceOf front).length + inner.length)

/-- What may be printed for a lexeme: white space becomes one blank or nothing, and a comma
is left out only when the next lexeme that is not blank closes a bracket. -/
def Prints (lexeme : Lexeme) (rest : List Lexeme) (printed : List Char) : Prop :=
  match lexeme with
  | .blank _ => printed = [' '] ∨ printed = []
  | .comma => printed = [','] ∨
      (printed = [] ∧ ∃ next ∈ (rest.dropWhile Lexeme.isBlank).head?, next.isClosing = true)
  | other => printed = other.source

inductive Folds : List Lexeme → List Char → Prop
  | nil : Folds [] []
  | cons {lexeme : Lexeme} {rest : List Lexeme} {printed out : List Char}
      (hprints : Prints lexeme rest printed) (hrest : Folds rest out) :
      Folds (lexeme :: rest) (printed ++ out)

def solid (text : List Char) : List Char := text.filter fun letter => !isWhitespace letter

/-- No folding touches such a character. -/
def isPlain (letter : Char) : Bool := !isWhitespace letter && letter ≠ ','

def plain (text : List Char) : List Char := text.filter isPlain

theorem plain_append (front back : List Char) : plain (front ++ back) = plain front ++ plain back :=
  List.filter_append ..

theorem prints_image (previous : Option Lexeme) (lexeme : Lexeme) (rest : List Lexeme) :
    Prints lexeme rest (image previous lexeme rest) := by
  cases lexeme with
  | blank text =>
      rw [Prints, image]
      split_ifs
      · exact .inl rfl
      · exact .inr rfl
  | comma =>
      rw [Prints, image]
      split_ifs with hgoes
      · exact .inr ⟨rfl, (Option.any_eq_true _ _).1 hgoes⟩
      · exact .inl rfl
  | letter character => rfl
  | sealed text => rfl
  | opening character => rfl
  | closing character => rfl

theorem folds_foldedFrom (previous : Option Lexeme) (lexemes : List Lexeme) :
    Folds lexemes (foldedFrom previous lexemes) := by
  induction lexemes generalizing previous with
  | nil => exact Folds.nil
  | cons lexeme rest ih => exact Folds.cons (prints_image previous lexeme rest) (ih (some lexeme))

theorem plain_blank {text : List Char}
    (hblank : ∀ character ∈ text, isWhitespace character = true) : plain text = [] := by
  rw [plain, List.filter_eq_nil_iff]
  intro letter hletter
  rw [isPlain, hblank letter hletter, Bool.not_true, Bool.false_and]
  exact Bool.false_ne_true

theorem plain_printed {lexeme : Lexeme} {rest : List Lexeme} {printed : List Char}
    (hproper : lexeme.Proper) (hprints : Prints lexeme rest printed) :
    plain printed = plain lexeme.source := by
  cases lexeme with
  | blank text =>
      have hsource : plain (Lexeme.blank text).source = [] := plain_blank hproper.2
      rw [hsource]
      rcases hprints with rfl | rfl
      · decide
      · rfl
  | comma =>
      rcases hprints with rfl | ⟨rfl, -⟩
      · rfl
      · decide
  | letter character => rw [show printed = _ from hprints]
  | sealed text => rw [show printed = _ from hprints]
  | opening character => rw [show printed = _ from hprints]
  | closing character => rw [show printed = _ from hprints]

theorem solid_printed {lexeme : Lexeme} {rest : List Lexeme} {printed : List Char}
    (hprints : Prints lexeme rest printed) :
    (solid printed).Sublist (solid lexeme.source) := by
  cases lexeme with
  | blank text =>
      have hprinted : solid printed = [] := by
        rcases hprints with rfl | rfl
        · decide
        · rfl
      rw [hprinted]
      exact List.nil_sublist _
  | comma =>
      rcases hprints with rfl | ⟨rfl, -⟩
      · exact List.Sublist.refl _
      · exact List.nil_sublist _
  | letter character => rw [show printed = _ from hprints]
  | sealed text => rw [show printed = _ from hprints]
  | opening character => rw [show printed = _ from hprints]
  | closing character => rw [show printed = _ from hprints]

theorem Folds.plain_eq {lexemes : List Lexeme} {out : List Char} (hfolds : Folds lexemes out)
    (hproper : ∀ lexeme ∈ lexemes, lexeme.Proper) : plain out = plain (sourceOf lexemes) := by
  induction hfolds with
  | nil => rfl
  | cons hprints _ ih =>
      obtain ⟨hlexeme, hrest⟩ := List.forall_mem_cons.1 hproper
      rw [sourceOf_cons, plain_append, plain_append, plain_printed hlexeme hprints, ih hrest]

theorem Folds.solid_sublist {lexemes : List Lexeme} {out : List Char}
    (hfolds : Folds lexemes out) : (solid out).Sublist (solid (sourceOf lexemes)) := by
  induction hfolds with
  | nil => exact List.Sublist.refl _
  | cons hprints _ ih =>
      rw [sourceOf_cons, solid, solid, List.filter_append, List.filter_append]
      exact (solid_printed hprints).append ih

theorem proper_read {before rest : List Char} {depth : ℕ} {first : Char} :
    (read alphanumeric before depth first rest).1.Proper := by
  refine read_cases alphanumeric before depth first rest ?_ ?_ ?_ ?_ ?_ ?_ ?_ ?_ ?_ ?_
  · exact fun _ => ⟨'"', rfl, .inl rfl⟩
  · exact fun _ _ => ⟨'/', rfl, .inr rfl⟩
  · exact fun _ _ => ⟨'/', rfl, .inr rfl⟩
  · intro hspace
    refine ⟨List.cons_ne_nil _ _, List.forall_mem_cons.2 ⟨hspace, ?_⟩⟩
    exact fun character hmem => List.mem_takeWhile_imp hmem
  · intro _ hround
    simpa [Lexeme.Proper, or_assoc] using Or.inl hround
  · intro _ hangle
    simp [Lexeme.Proper, hangle]
  · intro _ hclose
    simp only [Lexeme.Proper, List.mem_cons]
    exact hclose.imp id Or.inl
  · intro _ hcloseAngle
    simp [Lexeme.Proper, hcloseAngle]
  · exact fun _ _ => trivial
  · exact fun hspace hcomma => ⟨Bool.eq_false_iff.2 hspace, hcomma⟩

/-- What is sealed was consumed as a literal or a comment. -/
theorem delimited_read {before rest inner : List Char} {depth : ℕ} {first : Char}
    (hsealed : (read alphanumeric before depth first rest).1 = .sealed inner) :
    Delimited (before ++ first :: rest) before.length (before.length + inner.length) := by
  have hfirst : (before ++ first :: rest)[before.length]? = some first := by simp
  have hnext : (before ++ first :: rest)[before.length + 1]? = rest.head? := by
    rw [getElem?_behind before first rest 0, List.head?_eq_getElem?]
  rw [Delimited, hfirst, hnext]
  revert hsealed
  refine read_cases alphanumeric before depth first rest ?_ ?_ ?_ (fun _ => nofun)
    (fun _ _ => nofun) (fun _ _ => nofun) (fun _ _ => nofun) (fun _ _ => nofun)
    (fun _ _ => nofun) (fun _ _ => nofun)
  · intro hquote hsealed
    obtain rfl := Lexeme.sealed.inj hsealed
    exact .inl ⟨congrArg some hquote, (consumeString_append before hquote rest).symm⟩
  · intro hslash hline hsealed
    obtain rfl := Lexeme.sealed.inj hsealed
    exact .inr (.inl ⟨congrArg some hslash, hline,
      (consumeLineComment_append before hline).symm⟩)
  · intro hslash hblock hsealed
    obtain rfl := Lexeme.sealed.inj hsealed
    exact .inr (.inr ⟨congrArg some hslash, hblock,
      (consumeBlockComment_append before hblock).symm⟩)

theorem Lexes.proper {before text : List Char} {depth : ℕ} {lexemes : List Lexeme}
    (hlexes : Lexes alphanumeric before depth text lexemes) :
    ∀ lexeme ∈ lexemes, lexeme.Proper := by
  induction hlexes with
  | done => exact fun _ hmem => absurd hmem List.not_mem_nil
  | next _ _ ih => exact List.forall_mem_cons.2 ⟨proper_read, ih⟩

theorem Lexes.delimited {before text : List Char} {depth : ℕ} {lexemes : List Lexeme}
    (hlexes : Lexes alphanumeric before depth text lexemes) {front back : List Lexeme}
    {inner : List Char} (hsplit : lexemes = front ++ .sealed inner :: back) :
    Delimited (before ++ text) (before.length + (sourceOf front).length)
      (before.length + (sourceOf front).length + inner.length) := by
  induction hlexes generalizing front with
  | done => simp at hsplit
  | @next before rest after first depth lexemes hsource hlater ih =>
      cases front with
      | nil =>
          obtain ⟨hsealed, -⟩ := List.cons.inj hsplit
          exact delimited_read hsealed
      | cons lexeme front =>
          obtain ⟨rfl, hrest⟩ := List.cons.inj hsplit
          have hdelimited := ih hrest
          rw [List.append_assoc, ← hsource, List.length_append] at hdelimited
          rw [sourceOf_cons, List.length_append, ← Nat.add_assoc]
          exact hdelimited

theorem Lexes.delimits {text : List Char} {lexemes : List Lexeme}
    (hlexes : Lexes alphanumeric [] 0 text lexemes) : Delimits text lexemes where
  source := hlexes.sourceOf_eq
  proper := hlexes.proper
  apart := hlexes.wellRead.apart
  sealed := by
    intro front inner back hsplit
    have hdelimited := hlexes.delimited hsplit
    rwa [List.length_nil, Nat.zero_add, List.nil_append] at hdelimited

/-- Only layout is folded: on every text the folding stays within its bounds, and prints
the text's lexemes with nothing but white space and commas before a bracket left out. -/
theorem layout_only_folded (alphanumeric : Alphanumeric) (text : String) :
    ∃ out lexemes, normalizeSignatureLayout alphanumeric text = some out ∧
      tokenizeLayout alphanumeric text.toList = some (piecesOf [] lexemes) ∧
      Delimits text.toList lexemes ∧ Folds lexemes out.toList ∧
      plain out.toList = plain text.toList ∧
      (solid out.toList).Sublist (solid text.toList) := by
  have hlexes := lexes_lexemesOf alphanumeric text.toList
  have hfolds := folds_foldedFrom none (lexemesOf alphanumeric text.toList)
  have hplain := hfolds.plain_eq hlexes.proper
  have hsolid := hfolds.solid_sublist
  rw [hlexes.sourceOf_eq] at hplain hsolid
  refine ⟨_, _, normalizeSignatureLayout_eq alphanumeric text,
    tokenizeLayout_eq alphanumeric text.toList, hlexes.delimits, ?_⟩
  rw [String.toList_ofList]
  exact ⟨hfolds, hplain, hsolid⟩

end Ktsense.Core.Layout
