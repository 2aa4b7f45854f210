import Ktsense.Core.KotlinLiterals
import Ktsense.Core.LayoutPlaces
import Ktsense.Foundation.Meeting
import Ktsense.Foundation.Thinning

/-!
# What the folding does to literals

A text is read flatly: a string ends at the next quote, so of a string and one in its
template the inner one stands outside, as a literal does behind the quote of a character
literal.  What stands outside is folded like code.  Each character has what is printed for
it, and a literal is still in its place exactly when each of its characters was left alone.
-/

namespace Ktsense.Core.Layout

open Ktsense.Foundation Ktsense.Core.Kotlin

/-! ## Character by character -/

/-- A lexeme's characters: white space is printed for the first of them. -/
def marksOf (previous : Option Lexeme) (lexeme : Lexeme) (rest : List Lexeme) :
    List (Mark Char) :=
  match lexeme with
  | .blank text =>
      match text with
      | [] => []
      | first :: others =>
          ⟨first, image previous lexeme rest⟩ :: others.map fun letter => ⟨letter, []⟩
  | .comma => [⟨',', image previous lexeme rest⟩]
  | other => other.source.map fun letter => ⟨letter, [letter]⟩

def marksFrom (previous : Option Lexeme) : List Lexeme → List (Mark Char)
  | [] => []
  | lexeme :: rest => marksOf previous lexeme rest ++ marksFrom (some lexeme) rest

theorem items_marksOf (previous : Option Lexeme) (lexeme : Lexeme) (rest : List Lexeme) :
    Mark.items (marksOf previous lexeme rest) = lexeme.source := by
  cases lexeme with
  | blank text => cases text <;> simp [Mark.items, marksOf, Lexeme.source, Function.comp_def]
  | comma => rfl
  | letter character => rfl
  | sealed text => simp [Mark.items, marksOf, Lexeme.source, Function.comp_def]
  | opening character => rfl
  | closing character => rfl

theorem result_marksOf {previous : Option Lexeme} {lexeme : Lexeme} {rest : List Lexeme}
    (hfilled : lexeme.source ≠ []) :
    Mark.result (marksOf previous lexeme rest) = image previous lexeme rest := by
  cases lexeme with
  | blank text =>
      cases text with
      | nil => exact absurd rfl hfilled
      | cons first others => simp [Mark.result, marksOf, List.flatMap_map]
  | comma => exact List.flatMap_singleton _ _
  | letter character => rfl
  | sealed text => simp [Mark.result, marksOf, image, List.flatMap_map, Lexeme.source]
  | opening character => rfl
  | closing character => rfl

theorem items_marksFrom (previous : Option Lexeme) (lexemes : List Lexeme) :
    Mark.items (marksFrom previous lexemes) = sourceOf lexemes := by
  induction lexemes generalizing previous with
  | nil => rfl
  | cons lexeme rest ih =>
      have hlexeme := items_marksOf previous lexeme rest
      have hrest := ih (some lexeme)
      rw [Mark.items] at hlexeme hrest
      rw [marksFrom, Mark.items, List.map_append, hlexeme, hrest, sourceOf_cons]

theorem result_marksFrom {previous : Option Lexeme} {lexemes : List Lexeme}
    (hfilled : ∀ lexeme ∈ lexemes, lexeme.source ≠ []) :
    Mark.result (marksFrom previous lexemes) = foldedFrom previous lexemes := by
  induction lexemes generalizing previous with
  | nil => rfl
  | cons lexeme rest ih =>
      obtain ⟨hlexeme, hrest⟩ := List.forall_mem_cons.1 hfilled
      rw [marksFrom, Mark.result_append, result_marksOf hlexeme, ih hrest, foldedFrom]

/-- A character that is no white space and no comma stays, and no character becomes two. -/
theorem thins_marksOf {previous : Option Lexeme} {lexeme : Lexeme} {rest : List Lexeme}
    (hproper : lexeme.Proper) : ∀ mark ∈ marksOf previous lexeme rest, mark.Thins isPlain := by
  have hsame (letters : List Char) :
      ∀ mark ∈ letters.map fun letter => (⟨letter, [letter]⟩ : Mark Char),
        mark.Thins isPlain := by
    intro mark hmem
    obtain ⟨letter, -, rfl⟩ := List.mem_map.1 hmem
    exact ⟨le_rfl, rfl⟩
  cases lexeme with
  | blank text =>
      obtain ⟨hne, hspace⟩ := hproper
      cases text with
      | nil => exact absurd rfl hne
      | cons first others =>
          obtain ⟨hfirst, hothers⟩ := List.forall_mem_cons.1 hspace
          have hgone {letter : Char} (hletter : isWhitespace letter = true) :
              [letter].filter isPlain = [] := by
            simp [isPlain, hletter]
          rw [marksOf, List.forall_mem_cons]
          constructor
          · rw [image]
            split_ifs
            · exact ⟨le_rfl, (hgone hfirst).symm⟩
            · exact ⟨Nat.zero_le 1, (hgone hfirst).symm⟩
          · intro mark hmem
            obtain ⟨letter, hletter, rfl⟩ := List.mem_map.1 hmem
            exact ⟨Nat.zero_le 1, (hgone (hothers letter hletter)).symm⟩
  | comma =>
      rw [marksOf, List.forall_mem_singleton, image]
      split_ifs
      · exact ⟨Nat.zero_le 1, rfl⟩
      · exact ⟨le_rfl, rfl⟩
  | letter character => exact hsame [character]
  | sealed text => exact hsame text
  | opening character => exact hsame [character]
  | closing character => exact hsame [character]

theorem thins_marksFrom {previous : Option Lexeme} {lexemes : List Lexeme}
    (hproper : ∀ lexeme ∈ lexemes, lexeme.Proper) :
    ∀ mark ∈ marksFrom previous lexemes, mark.Thins isPlain := by
  induction lexemes generalizing previous with
  | nil => exact fun _ hmem => absurd hmem List.not_mem_nil
  | cons lexeme rest ih =>
      obtain ⟨hlexeme, hrest⟩ := List.forall_mem_cons.1 hproper
      exact List.forall_mem_append.2 ⟨thins_marksOf hlexeme, ih hrest⟩

/-! ## Lexemes that stay -/

/-- Between these lexemes, this one is printed as it is read. -/
def Stays (front : List Lexeme) (lexeme : Lexeme) (back : List Lexeme) : Prop :=
  match lexeme with
  | .blank text => text = [' '] ∧ blankStays front.getLast? back.head? = true
  | .comma => commaGoes back = false
  | _ => True

theorem stays_iff {front back : List Lexeme} {lexeme : Lexeme} (hproper : lexeme.Proper) :
    Stays front lexeme back ↔ ∀ mark ∈ marksOf front.getLast? lexeme back, mark.Alone := by
  have hsame (letters : List Char) :
      ∀ mark ∈ letters.map fun letter => (⟨letter, [letter]⟩ : Mark Char), mark.Alone := by
    intro mark hmem
    obtain ⟨letter, -, rfl⟩ := List.mem_map.1 hmem
    rfl
  cases lexeme with
  | blank text =>
      cases text with
      | nil => exact absurd rfl hproper.1
      | cons first others =>
          rw [Stays, marksOf, List.forall_mem_cons, Mark.Alone, image]
          constructor
          · rintro ⟨htext, hstays⟩
            obtain ⟨rfl, rfl⟩ := List.cons.inj htext
            rw [hstays]
            exact ⟨rfl, fun _ hmem => absurd hmem List.not_mem_nil⟩
          · rintro ⟨hfirst, hothers⟩
            split_ifs at hfirst with hstays
            obtain ⟨rfl, -⟩ := List.cons.inj hfirst
            refine ⟨?_, hstays⟩
            cases others with
            | nil => rfl
            | cons second others => cases hothers ⟨second, []⟩ List.mem_cons_self
  | comma =>
      rw [Stays, marksOf, List.forall_mem_singleton, Mark.Alone, image]
      cases commaGoes back <;> simp
  | letter character => exact iff_of_true trivial (hsame [character])
  | sealed text => exact iff_of_true trivial (hsame text)
  | opening character => exact iff_of_true trivial (hsame [character])
  | closing character => exact iff_of_true trivial (hsame [character])

/-! ## Where lexemes stand -/

theorem marksFrom_split (previous : Option Lexeme) (front : List Lexeme) (lexeme : Lexeme)
    (back : List Lexeme) :
    ∃ left right, marksFrom previous (front ++ lexeme :: back) =
        left ++ marksOf (front.getLast?.or previous) lexeme back ++ right ∧
      left.length = (sourceOf front).length := by
  induction front generalizing previous with
  | nil => exact ⟨[], marksFrom (some lexeme) back, rfl, rfl⟩
  | cons first front ih =>
      obtain ⟨left, right, hmarks, hlength⟩ := ih (some first)
      refine ⟨marksOf previous first (front ++ lexeme :: back) ++ left, right, ?_, ?_⟩
      · rw [List.cons_append, marksFrom, hmarks, getLast?_cons_or]
        simp only [List.append_assoc]
      · have hitems := congrArg List.length
          (items_marksOf previous first (front ++ lexeme :: back))
        rw [Mark.items, List.length_map] at hitems
        rw [List.length_append, hlength, hitems, sourceOf_cons, List.length_append]

/-- Each place of a text is in one of its lexemes. -/
theorem exists_split {lexemes : List Lexeme} {index : ℕ}
    (hindex : index < (sourceOf lexemes).length) :
    ∃ front lexeme back, lexemes = front ++ lexeme :: back ∧ (sourceOf front).length ≤ index ∧
      index < (sourceOf front).length + lexeme.source.length := by
  induction lexemes generalizing index with
  | nil => exact absurd hindex (Nat.not_lt_zero index)
  | cons lexeme rest ih =>
      rw [sourceOf_cons, List.length_append] at hindex
      by_cases hhere : index < lexeme.source.length
      · exact ⟨[], lexeme, rest, rfl, Nat.zero_le _, by simpa [sourceOf] using hhere⟩
      · obtain ⟨front, other, back, hrest, hle, hlt⟩ :=
          ih (show index - lexeme.source.length < (sourceOf rest).length by omega)
        refine ⟨lexeme :: front, other, back, by rw [hrest]; rfl, ?_, ?_⟩
        · rw [sourceOf_cons, List.length_append]
          omega
        · rw [sourceOf_cons, List.length_append]
          omega

theorem mem_source {lexemes front back : List Lexeme} {lexeme : Lexeme} {index : ℕ}
    {letter : Char} (hsplit : lexemes = front ++ lexeme :: back)
    (hle : (sourceOf front).length ≤ index)
    (hlt : index < (sourceOf front).length + lexeme.source.length)
    (hletter : (sourceOf lexemes)[index]? = some letter) : letter ∈ lexeme.source := by
  rw [hsplit, sourceOf_append, sourceOf_cons, List.getElem?_append_right hle,
    List.getElem?_append_left (by omega)] at hletter
  exact List.mem_of_getElem? hletter

/-- A lexeme with a quote in it is a letter or sealed. -/
theorem stays_of_quote {front back : List Lexeme} {lexeme : Lexeme} {quote : Char}
    (hproper : lexeme.Proper) (hquote : IsQuote quote) (hmem : quote ∈ lexeme.source) :
    Stays front lexeme back := by
  cases lexeme with
  | blank text =>
      have hspace := hproper.2 quote hmem
      rcases hquote with rfl | rfl
      · cases hspace
      · cases hspace
  | comma =>
      obtain rfl := List.mem_singleton.1 hmem
      rcases hquote with hequal | hequal
      · cases hequal
      · cases hequal
  | letter character => trivial
  | sealed text => trivial
  | opening character => trivial
  | closing character => trivial

/-! ## Literals -/

/-- The contents of a literal. -/
def contents (text : List Char) (place : Place) : List Char :=
  (text.take place.stop).drop place.start

/-- The contents are in the output unchanged, behind what stands before them. -/
def AppearsInPlace (text out : List Char) (place : Place) : Prop :=
  ∃ before after, out = before ++ contents text place ++ after ∧
    plain before = plain (text.take place.start)

/-- No lexeme that begins in a literal is changed: each run of white space is one blank
that its neighbours keep, and no comma is left out. -/
def LeftAlone (alphanumeric : Alphanumeric) (text : List Char) (place : Place) : Prop :=
  ∀ front lexeme back, lexemesOf alphanumeric text = front ++ lexeme :: back →
    place.start ≤ (sourceOf front).length → (sourceOf front).length < place.stop →
      Stays front lexeme back

/-- What the text has outside in a literal is not folded: each run of white space is one blank
that stands neither behind an opening bracket nor before a closing one or a comma, and no
comma stands before a closing bracket. -/
structure Unfolded (alphanumeric : Alphanumeric) (text : List Char) (place : Place) : Prop where
  spaces : ∀ before run after, text = before ++ (run ++ after) → RunAt before run after →
    place.start ≤ before.length → before.length < place.stop →
      run = [' '] ∧ ¬EndsOpen alphanumeric before (run ++ after) ∧
        ∀ letter rest, after = letter :: rest →
          letter ≠ ',' ∧ ¬ClosesAt alphanumeric (before ++ run) letter rest
  commas : ∀ before after, text = before ++ ',' :: after → Outside before (',' :: after) →
    place.start ≤ before.length → before.length < place.stop →
      ¬ClosesNext alphanumeric (before ++ [',']) after

section Places

variable {alphanumeric : Alphanumeric} {text : List Char} {place : Place}

/-- A blank stays between these neighbours, told by their places. -/
theorem blankStays_iff {front back : List Lexeme} {run : List Char}
    (hsplit : lexemesOf alphanumeric text = front ++ .blank run :: back) (hfront : front ≠ [])
    (hback : back ≠ []) :
    blankStays front.getLast? back.head? = true ↔
      ¬EndsOpen alphanumeric (sourceOf front) (run ++ sourceOf back) ∧
        ∀ letter rest, sourceOf back = letter :: rest →
          letter ≠ ',' ∧ ¬ClosesAt alphanumeric (sourceOf front ++ run) letter rest := by
  have hopen : EndsOpen alphanumeric (sourceOf front) (run ++ sourceOf back) ↔ _ :=
    endsOpen_iff hsplit
  obtain ⟨earlier, last, rfl⟩ := (List.eq_nil_or_concat front).resolve_left hfront
  obtain ⟨next, later, rfl⟩ := List.exists_cons_of_ne_nil hback
  rw [List.append_cons] at hsplit
  obtain ⟨first, inner, hinner, -⟩ := begins_of_split hsplit
  have hsource : sourceOf (next :: later) = first :: (inner ++ sourceOf later) := by
    rw [sourceOf_cons, hinner]
    rfl
  have hcloses := isClosing_next hsplit hsource
  have hcomma := eq_comma_next hsplit hsource
  have hbefore : sourceOf (List.concat earlier last ++ [.blank run]) =
      sourceOf (List.concat earlier last) ++ run := by
    rw [sourceOf_append]
    exact congrArg (_ ++ ·) (List.append_nil run)
  rw [hbefore] at hcloses
  rw [hopen, hsource, blankStays, List.concat_eq_append, List.getLast?_concat, List.head?_cons,
    Option.any_some, Option.any_some, Option.any_some, Bool.and_eq_true, Bool.not_eq_true',
    Bool.not_eq_true', Bool.or_eq_false_iff, decide_eq_false_iff_not, hcomma]
  rw [List.concat_eq_append] at hcloses
  constructor
  · rintro ⟨hlast, hnext, hletter⟩
    refine ⟨Bool.eq_false_iff.1 hlast, ?_⟩
    intro letter rest heq
    obtain ⟨rfl, rfl⟩ := List.cons.inj heq
    exact ⟨hletter, fun hclosing => Bool.eq_false_iff.1 hnext (hcloses.2 hclosing)⟩
  · rintro ⟨hlast, hnext⟩
    obtain ⟨hletter, hclosing⟩ := hnext first _ rfl
    exact ⟨Bool.eq_false_iff.2 hlast, Bool.eq_false_iff.2 fun heq => hclosing (hcloses.1 heq),
      hletter⟩

/-- Within a text, what is left alone is what is not folded. -/
theorem leftAlone_iff_unfolded {last : Char} (hstart : 0 < place.start)
    (hlast : text[place.stop]? = some last) (hsolid : isWhitespace last = false) :
    LeftAlone alphanumeric text place ↔ Unfolded alphanumeric text place := by
  -- a run of white space in the place has neighbours
  have hfront {left : List Lexeme} (hstarts : place.start ≤ (sourceOf left).length) :
      left ≠ [] := by
    rintro rfl
    exact absurd hstarts (Nat.not_le.2 hstart)
  have hback {left right : List Lexeme} {run : List Char}
      (hsplit : lexemesOf alphanumeric text = left ++ .blank run :: right)
      (hstops : (sourceOf left).length < place.stop) : right ≠ [] := by
    rintro rfl
    have hrun := (runAt_of_split hsplit).space
    have htext := text_of_split hsplit
    have hnil : sourceOf [] = [] := rfl
    rw [hnil, List.append_nil] at htext
    rw [htext, List.getElem?_append_right hstops.le] at hlast
    rw [hrun last (List.mem_of_getElem? hlast)] at hsolid
    cases hsolid
  constructor
  · intro halone
    constructor
    · intro before run after htext hrun hstarts hstops
      obtain ⟨left, right, hsplit, rfl, rfl⟩ := @exists_run alphanumeric _ _ _ _ htext hrun
      obtain ⟨hsingle, hstays⟩ := halone left _ right hsplit hstarts hstops
      exact ⟨hsingle, (blankStays_iff hsplit (hfront hstarts) (hback hsplit hstops)).1 hstays⟩
    · intro before after htext hplace hstarts hstops
      obtain ⟨left, right, hsplit, rfl, rfl⟩ :=
        @exists_comma alphanumeric _ _ _ htext hplace
      have hstays : commaGoes right = false := halone left _ right hsplit hstarts hstops
      have hnext : ClosesNext alphanumeric (sourceOf left ++ [',']) (sourceOf right) ↔ _ :=
        closesNext_iff hsplit
      rw [hnext, hstays]
      exact Bool.false_ne_true
  · intro hunfolded front lexeme back hsplit hstarts hstops
    have htext := text_of_split hsplit
    cases lexeme with
    | blank run =>
        obtain ⟨hsingle, hneighbours⟩ :=
          hunfolded.spaces _ run _ htext (runAt_of_split hsplit) hstarts hstops
        exact ⟨hsingle, (blankStays_iff hsplit (hfront hstarts) (hback hsplit hstops)).2
          hneighbours⟩
    | comma =>
        have hnext : ClosesNext alphanumeric (sourceOf front ++ [',']) (sourceOf back) ↔ _ :=
          closesNext_iff hsplit
        have hgoes := hunfolded.commas _ (sourceOf back) htext (readAt_of_letter hsplit rfl).1
          hstarts hstops
        rw [hnext] at hgoes
        exact Bool.eq_false_iff.2 hgoes
    | letter character => trivial
    | sealed text => trivial
    | opening character => trivial
    | closing character => trivial

/-- The characters of a text, with what is printed for each. -/
def marks (alphanumeric : Alphanumeric) (text : List Char) : List (Mark Char) :=
  marksFrom none (lexemesOf alphanumeric text)

theorem items_marks : Mark.items (marks alphanumeric text) = text := by
  rw [marks, items_marksFrom]
  exact (lexes_lexemesOf alphanumeric text).sourceOf_eq

/-- Of a lexeme that begins in a literal, a run of white space ends there too. -/
theorem leftAlone_iff {before inner after : List Char} {quote other : Char}
    (hquote : IsQuote quote) (hother : IsQuote other)
    (htext : text = before ++ [quote] ++ inner ++ other :: after) :
    LeftAlone alphanumeric text ⟨before.length + 1, before.length + 1 + inner.length⟩ ↔
      ∀ index mark, before.length + 1 ≤ index → index < before.length + 1 + inner.length →
        (marks alphanumeric text)[index]? = some mark → mark.Alone := by
  have hlexes := lexes_lexemesOf alphanumeric text
  have hsource := hlexes.sourceOf_eq
  have hopened : text[before.length]? = some quote := by
    rw [htext]
    simp
  have hclosed : text[before.length + 1 + inner.length]? = some other := by
    have hlength : (before ++ [quote] ++ inner).length = before.length + 1 + inner.length := by
      rw [List.length_append, List.length_append, List.length_singleton]
    rw [htext, ← hlength, List.getElem?_append_right le_rfl, Nat.sub_self]
    rfl
  have hproper {front back : List Lexeme} {lexeme : Lexeme}
      (hsplit : lexemesOf alphanumeric text = front ++ lexeme :: back) : lexeme.Proper :=
    hlexes.proper lexeme (by rw [hsplit]; simp)
  constructor
  · intro halone index mark hle hlt hmark
    have hbound : index < (sourceOf (lexemesOf alphanumeric text)).length := by
      have hlength := (List.getElem?_eq_some_iff.1 hclosed).1
      rw [hsource]
      omega
    obtain ⟨front, lexeme, back, hsplit, hfront, hback⟩ := exists_split hbound
    have hstays : Stays front lexeme back := by
      by_cases hbegins : before.length + 1 ≤ (sourceOf front).length
      · exact halone front lexeme back hsplit hbegins (hfront.trans_lt hlt)
      · -- the lexeme reaches back to the quote
        have hmem : quote ∈ lexeme.source := by
          apply mem_source hsplit (show _ ≤ before.length by omega) (by omega)
          rw [hsource, hopened]
        exact stays_of_quote (hproper hsplit) hquote hmem
    obtain ⟨left, right, hmarks, hlength⟩ := marksFrom_split none front lexeme back
    rw [Option.or_none] at hmarks
    have hitems := congrArg List.length (items_marksOf front.getLast? lexeme back)
    rw [Mark.items, List.length_map] at hitems
    rw [marks, hsplit, hmarks, List.append_assoc, List.getElem?_append_right (by omega),
      List.getElem?_append_left (by omega)] at hmark
    exact (stays_iff (hproper hsplit)).1 hstays mark (List.mem_of_getElem? hmark)
  · intro halone front lexeme back hsplit hbegins hends
    dsimp only at hbegins hends
    by_cases hinside : (sourceOf front).length + lexeme.source.length ≤
        before.length + 1 + inner.length
    · rw [stays_iff (hproper hsplit)]
      intro mark hmem
      obtain ⟨offset, hoffset⟩ := List.mem_iff_getElem?.1 hmem
      obtain ⟨left, right, hmarks, hlength⟩ := marksFrom_split none front lexeme back
      rw [Option.or_none] at hmarks
      have hitems := congrArg List.length (items_marksOf front.getLast? lexeme back)
      rw [Mark.items, List.length_map] at hitems
      have hbound := (List.getElem?_eq_some_iff.1 hoffset).1
      apply halone ((sourceOf front).length + offset) mark (by omega) (by omega)
      rw [marks, hsplit, hmarks, List.append_assoc, ← hlength,
        List.getElem?_append_right (Nat.le_add_right _ _), Nat.add_sub_cancel_left,
        List.getElem?_append_left hbound, hoffset]
    · -- the lexeme reaches the quote that ends the literal
      have hmem : other ∈ lexeme.source := by
        apply mem_source hsplit (show _ ≤ before.length + 1 + inner.length by omega) (by omega)
        rw [hsource, hclosed]
      exact stays_of_quote (hproper hsplit) hother hmem

theorem isPlain_of_isQuote {quote : Char} (hquote : IsQuote quote) : isPlain quote = true := by
  rcases hquote with rfl | rfl
  · decide
  · decide

/-- The members of the middle of a list, by their places. -/
theorem forall_middle {A : Type*} {front middle back : List A} {holds : A → Prop} :
    (∀ index item, front.length ≤ index → index < front.length + middle.length →
      (front ++ middle ++ back)[index]? = some item → holds item) ↔
        ∀ item ∈ middle, holds item := by
  constructor
  · intro hall item hmem
    obtain ⟨offset, hoffset⟩ := List.mem_iff_getElem?.1 hmem
    have hbound := (List.getElem?_eq_some_iff.1 hoffset).1
    apply hall (front.length + offset) item (Nat.le_add_right _ _) (by omega)
    rw [List.append_assoc, List.getElem?_append_right (Nat.le_add_right _ _),
      Nat.add_sub_cancel_left, List.getElem?_append_left hbound, hoffset]
  · intro hall index item hle hlt hitem
    rw [List.append_assoc, List.getElem?_append_right hle,
      List.getElem?_append_left (by omega)] at hitem
    exact hall item (List.mem_of_getElem? hitem)

/-- The contents of one literal survive exactly when they are left alone. -/
theorem appearsInPlace_iff (hbetween : place.Between text) :
    AppearsInPlace text (foldedFrom none (lexemesOf alphanumeric text)) place ↔
      LeftAlone alphanumeric text place := by
  obtain ⟨before, quote, inner, other, after, hquote, hother, htext, rfl⟩ := hbetween.split
  rw [leftAlone_iff hquote hother htext]
  have hlexes := lexes_lexemesOf alphanumeric text
  have hitems : (marks alphanumeric text).map Mark.item =
      before ++ [quote] ++ inner ++ other :: after := items_marks.trans htext
  obtain ⟨rest, final, hmarks, hrest, hfinal⟩ := List.map_eq_append_iff.1 hitems
  obtain ⟨opened, middle, rfl, hopened, hmiddle⟩ := List.map_eq_append_iff.1 hrest
  obtain ⟨front, single, rfl, hfront, hsingle⟩ := List.map_eq_append_iff.1 hopened
  obtain ⟨last, rfl, hlast⟩ := List.map_eq_singleton_iff.1 hsingle
  obtain ⟨first, back, rfl, hfirst, hback⟩ := List.map_eq_cons_iff.1 hfinal
  have hthins := @thins_marksFrom none _ hlexes.proper
  have hout := @result_marksFrom none _ hlexes.wellRead.filled
  rw [← marks, hmarks] at hthins hout
  have hfrontLength : before.length + 1 = (front ++ [last]).length := by
    rw [← hfront, List.length_map, List.length_append, List.length_singleton]
  have hmiddleLength : inner.length = middle.length := by
    rw [← hmiddle, List.length_map]
  have hcontents : contents text ⟨before.length + 1, before.length + 1 + inner.length⟩ =
      Mark.items middle := by
    have htake : text.take (before.length + 1 + inner.length) = before ++ [quote] ++ inner := by
      rw [htext]
      exact List.take_left' (by simp; omega)
    rw [contents, htake]
    exact (List.drop_left' (by simp)).trans hmiddle.symm
  have hbefore : text.take (before.length + 1) = Mark.items (front ++ [last]) := by
    rw [Mark.items, hopened, htext, List.append_assoc]
    exact List.take_left' (by simp)
  rw [AppearsInPlace, hcontents, hbefore, ← hout, hmarks, hfrontLength, hmiddleLength,
    forall_middle]
  apply Mark.inPlace_iff hthins
  · rw [hlast]
    exact isPlain_of_isQuote hquote
  · rw [hfirst]
    exact isPlain_of_isQuote hother

theorem leftAlone_iff_of_between (hbetween : place.Between text) :
    LeftAlone alphanumeric text place ↔ Unfolded alphanumeric text place := by
  obtain ⟨-, ⟨before, quote, -, hopened⟩, other, after, hother, hclosed⟩ := hbetween
  have hstart : 0 < place.start := by
    refine Nat.pos_of_ne_zero fun hzero => ?_
    rw [hzero, List.take_zero] at hopened
    exact absurd hopened (by simp)
  have hlast : text[place.stop]? = some other := by
    rw [← List.head?_drop, hclosed, List.head?_cons]
  refine leftAlone_iff_unfolded hstart hlast ?_
  rcases hother with rfl | rfl <;> decide

end Places

/-- The contents of a text's literals survive the folding exactly when nothing of them that
stands outside, as the text is read flatly, is folded. -/
theorem literals_survive_iff (alphanumeric : Alphanumeric) (text : String) :
    (∃ out, normalizeSignatureLayout alphanumeric text = some out ∧
      ∀ place ∈ literalPlaces text.toList, AppearsInPlace text.toList out.toList place) ↔
        ∀ place ∈ literalPlaces text.toList, Unfolded alphanumeric text.toList place := by
  have hsurvive (place : Place) (hplace : place ∈ literalPlaces text.toList) :
      AppearsInPlace text.toList (foldedFrom none (lexemesOf alphanumeric text.toList)) place ↔
        Unfolded alphanumeric text.toList place := by
    have hbetween := between_of_mem_literalPlaces hplace
    rw [appearsInPlace_iff hbetween]
    exact leftAlone_iff_of_between hbetween
  rw [normalizeSignatureLayout_eq]
  constructor
  · rintro ⟨out, hout, happears⟩ place hplace
    obtain rfl := Option.some.inj hout
    have hplaced := happears place hplace
    rw [String.toList_ofList] at hplaced
    exact (hsurvive place hplace).1 hplaced
  · intro hunfolded
    refine ⟨_, rfl, ?_⟩
    intro place hplace
    rw [String.toList_ofList]
    exact (hsurvive place hplace).2 (hunfolded place hplace)

/-- A string in a template of another. -/
def nestedLiteral : String := "\"$\x7bf(\"a  b\")\x7d\""

/-- Of two strings, the tokenizer seals what is between the inner one and the outer one's
ends, and folds the inner one. -/
theorem nested_literal_folded :
    normalizeSignatureLayout Alphanumeric.onAscii nestedLiteral =
        some "\"$\x7bf(\"a b\")\x7d\"" ∧
      ∃ place ∈ literalPlaces nestedLiteral.toList,
        contents nestedLiteral.toList place = "a  b".toList ∧
          ¬AppearsInPlace nestedLiteral.toList "\"$\x7bf(\"a b\")\x7d\"".toList place := by
  have hfolded : foldedFrom none (lexemesOf Alphanumeric.onAscii nestedLiteral.toList) =
      "\"$\x7bf(\"a b\")\x7d\"".toList := by
    decide
  have hplace : (⟨6, 10⟩ : Place) ∈ literalPlaces nestedLiteral.toList := by decide
  constructor
  · rw [normalizeSignatureLayout_eq, hfolded, String.ofList_toList]
  · refine ⟨⟨6, 10⟩, hplace, by decide, ?_⟩
    rw [← hfolded, appearsInPlace_iff (between_of_mem_literalPlaces hplace)]
    intro halone
    have hstays := halone [.sealed "\"$\x7bf(\"".toList, .letter 'a'] (.blank "  ".toList)
      [.letter 'b', .sealed "\")\x7d\"".toList] (by decide) (by decide) (by decide)
    exact absurd hstays.1 (by decide)

end Ktsense.Core.Layout
