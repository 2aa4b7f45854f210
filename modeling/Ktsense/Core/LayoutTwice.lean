import Ktsense.Core.LayoutFold
import Ktsense.Foundation.Meeting

/-!
# Folding what is folded

The folded text is read again: a bracket is judged by what then stands next to it, and the
comma behind a comma that went may go as well.
-/

namespace Ktsense.Core.Layout

open Ktsense.Foundation

/-! ## Judging again -/

/-- A lexeme as it is read first, and with its bracket judged in the folded text. -/
structure Judged where
  first : Lexeme
  again : Lexeme
  deriving DecidableEq, Repr

def withoutBlank (lexemes : List Lexeme) : List Lexeme :=
  if lexemes.getLast?.any Lexeme.isBlank then lexemes.dropLast else lexemes

/-- What a lexeme stands behind, once the blanks and the comma that go before a closing
bracket are gone. -/
def standsBehind (lexeme : Lexeme) (front : List Lexeme) : List Lexeme :=
  if lexeme.isClosing then
    if (withoutBlank front).getLast? = some .comma then
      withoutBlank (withoutBlank front).dropLast
    else withoutBlank front
  else front

/-- What a lexeme stands before, once the blank that goes behind an opening bracket is
gone. -/
def standsBefore (lexeme : Lexeme) (back : List Lexeme) : List Lexeme :=
  if lexeme.isOpening then back.dropWhile Lexeme.isBlank else back

/-- White space is one blank, and nothing at the start or behind an opening bracket. -/
def collapsed (previous : Option Lexeme) : Lexeme → List Char
  | .blank _ => if previous.any fun lexeme => !lexeme.isOpening then [' '] else []
  | lexeme => lexeme.source

def collapsedFrom (previous : Option Lexeme) : List Lexeme → List Char
  | [] => []
  | lexeme :: rest => collapsed previous lexeme ++ collapsedFrom (some lexeme) rest

variable (alphanumeric : Alphanumeric)

/-- An angle bracket judged again, at the depth of those that were. -/
def judge (front : List Lexeme) (depth : ℕ) (lexeme : Lexeme) (back : List Lexeme) :
    Lexeme × ℕ :=
  let before := collapsedFrom none (standsBehind lexeme front)
  let after := sourceOf (standsBefore lexeme back)
  if lexeme.source = ['<'] then
    if opensTypes alphanumeric before after then (.opening '<', depth + 1)
    else (.letter '<', depth)
  else if lexeme.source = ['>'] then
    if 0 < depth ∧ closesTypes before after then (.closing '>', depth - 1)
    else (.letter '>', depth)
  else (lexeme, depth)

def judgedFrom (front : List Lexeme) (depth : ℕ) : List Lexeme → List Judged
  | [] => []
  | lexeme :: rest =>
      ⟨lexeme, (judge alphanumeric front depth lexeme rest).1⟩ ::
        judgedFrom (front ++ [lexeme]) (judge alphanumeric front depth lexeme rest).2 rest

def judgedOf (text : List Char) : List Judged :=
  judgedFrom alphanumeric [] 0 (lexemesOf alphanumeric text)

/-- Behind the blanks, and a comma that goes, a bracket closes as it is judged again. -/
def commaGoesAgain (rest : List Judged) : Bool :=
  match rest.dropWhile fun judged => judged.first.isBlank with
  | ⟨.comma, _⟩ :: back =>
      commaGoes (back.map Judged.first) && commaGoes (back.map Judged.again)
  | later => commaGoes (later.map Judged.again)

/-- A blank or a comma that stays is none that goes by the brackets as they are judged
again. -/
def StaysAgain (previous : Option Judged) (judged : Judged) (rest : List Judged) : Prop :=
  match judged.first with
  | .blank _ =>
      blankStays (previous.map Judged.first) (rest.head?.map Judged.first) = true →
        blankStays (previous.map Judged.again) (rest.head?.map Judged.again) = true
  | .comma => commaGoes (rest.map Judged.first) = false → commaGoesAgain rest = false
  | _ => True

def Settled (judged : List Judged) : Prop := Throughout StaysAgain none judged

variable {alphanumeric}

/-! ## What stands before a bracket -/

/-- What is printed for lexemes before others. -/
def printedFrom (previous : Option Lexeme) : List Lexeme → List Lexeme → List Char
  | [], _ => []
  | lexeme :: front, rest =>
      image previous lexeme (front ++ rest) ++ printedFrom (some lexeme) front rest

theorem printedFrom_concat (previous : Option Lexeme) (front : List Lexeme) (last : Lexeme)
    (rest : List Lexeme) :
    printedFrom previous (front ++ [last]) rest =
      printedFrom previous front (last :: rest) ++
        image (front.getLast?.or previous) last rest := by
  induction front generalizing previous with
  | nil => exact List.append_nil _
  | cons first front ih =>
      rw [getLast?_cons_or, List.cons_append, printedFrom, printedFrom, ih (some first),
        List.append_assoc, List.append_assoc, List.singleton_append]

theorem collapsedFrom_concat (previous : Option Lexeme) (front : List Lexeme)
    (last : Lexeme) :
    collapsedFrom previous (front ++ [last]) =
      collapsedFrom previous front ++ collapsed (front.getLast?.or previous) last := by
  induction front generalizing previous with
  | nil => exact List.append_nil _
  | cons first front ih =>
      rw [getLast?_cons_or, List.cons_append, collapsedFrom, collapsedFrom, ih (some first),
        List.append_assoc]

theorem image_of_solid {previous : Option Lexeme} {lexeme : Lexeme} {rest : List Lexeme}
    (hblank : lexeme.isBlank = false) (hcomma : lexeme = .comma → commaGoes rest = false) :
    image previous lexeme rest = lexeme.source := by
  cases lexeme with
  | blank text => cases hblank
  | comma =>
      rw [image, hcomma rfl]
      rfl
  | letter character => rfl
  | sealed text => rfl
  | opening character => rfl
  | closing character => rfl

/-- Such a letter is printed whatever goes before it. -/
def IsEnd (letter : Char) : Prop := letter ∈ [',', ')', ']', '>']

/-- The next lexeme that is no blank neither closes a bracket nor is a comma. -/
def solidNext (rest : List Lexeme) : Bool :=
  (rest.dropWhile Lexeme.isBlank).head?.any fun next => !(next.isClosing || next = .comma)

theorem any_of_solidNext {rest : List Lexeme} (hnext : solidNext rest = true) :
    (rest.head?.any fun next => !(next.isClosing || next = .comma)) = true := by
  cases rest with
  | nil => exact hnext
  | cons next rest =>
      cases next with
      | blank text => rfl
      | letter character => rfl
      | sealed text => rfl
      | opening character => rfl
      | closing character => exact hnext
      | comma => exact hnext

theorem commaGoes_of_solidNext {rest : List Lexeme} (hnext : solidNext rest = true) :
    commaGoes rest = false := by
  rw [solidNext] at hnext
  rw [commaGoes]
  cases hhead : (rest.dropWhile Lexeme.isBlank).head? with
  | none => rfl
  | some next =>
      rw [hhead, Option.any_some, Bool.not_eq_true', Bool.or_eq_false_iff] at hnext
      exact hnext.1

/-- Before a lexeme that neither closes nor is a comma, only what stands further off than
an end is printed differently from white space collapsed. -/
theorem meets_collapsedFrom {front rest : List Lexeme}
    (hproper : ∀ lexeme ∈ front, lexeme.Proper) (hnext : solidNext rest = true) :
    Meets IsEnd (printedFrom none front rest) (collapsedFrom none front) := by
  induction front using List.reverseRecOn generalizing rest with
  | nil => exact Meets.same []
  | append_singleton front last ih =>
      have hfront : ∀ lexeme ∈ front, lexeme.Proper :=
        fun lexeme hmem => hproper lexeme (List.mem_append_left _ hmem)
      have hlast := hproper last (by simp)
      rw [printedFrom_concat, collapsedFrom_concat, Option.or_none]
      cases last with
      | letter character => exact (ih hfront rfl).append _
      | sealed text => exact (ih hfront rfl).append _
      | opening character => exact (ih hfront rfl).append _
      | closing character => exact Meets.behind _ _ [] (List.mem_cons_of_mem ',' hlast)
      | comma =>
          rw [image, commaGoes_of_solidNext hnext]
          exact Meets.behind _ _ [] (List.mem_cons_self)
      | blank text =>
          rw [image, blankStays, any_of_solidNext hnext, Bool.and_true, collapsed]
          have hmeets : Meets IsEnd (printedFrom none front (.blank text :: rest)) _ :=
            ih hfront hnext
          exact hmeets.append _

/-- Behind a lexeme that is printed, both texts end as it does. -/
theorem getLast?_printedFrom {front rest : List Lexeme}
    (hfilled : ∀ lexeme ∈ front, lexeme.source ≠ [])
    (hlast : ∀ last ∈ front.getLast?, last.isBlank = false ∧
      (last = .comma → commaGoes rest = false)) :
    (printedFrom none front rest).getLast? = (collapsedFrom none front).getLast? := by
  cases front using List.reverseRecOn with
  | nil => rfl
  | append_singleton front last =>
      rw [List.getLast?_concat] at hlast
      obtain ⟨hblank, hcomma⟩ := hlast last rfl
      have hcollapsed : collapsed front.getLast? last = last.source := by
        cases last with
        | blank text => cases hblank
        | comma => rfl
        | letter character => rfl
        | sealed text => rfl
        | opening character => rfl
        | closing character => rfl
      rw [printedFrom_concat, collapsedFrom_concat, Option.or_none, image_of_solid hblank hcomma,
        hcollapsed,
        List.getLast?_append_of_ne_nil _ (hfilled last (by simp)),
        List.getLast?_append_of_ne_nil _ (hfilled last (by simp))]

/-- Before a closing bracket or a comma the blank goes. -/
theorem printedFrom_withoutBlank {front back : List Lexeme} {next : Lexeme}
    (hnext : next.isClosing = true ∨ next = .comma) :
    ∃ gap, (∀ lexeme ∈ gap, lexeme.isBlank = true) ∧
      printedFrom none front (next :: back) =
        printedFrom none (withoutBlank front) (gap ++ next :: back) := by
  cases front using List.reverseRecOn with
  | nil => exact ⟨[], fun _ hmem => absurd hmem List.not_mem_nil, rfl⟩
  | append_singleton front last =>
      rw [withoutBlank, List.getLast?_concat, Option.any_some]
      cases last with
      | blank text =>
          have hgoes : blankStays front.getLast? (some next) = false := by
            rw [blankStays, Option.any_some]
            rcases hnext with hclosing | rfl
            · rw [hclosing, Bool.true_or, Bool.not_true, Bool.and_false]
            · exact Bool.and_false _
          refine ⟨[.blank text], List.forall_mem_singleton.2 rfl, ?_⟩
          rw [printedFrom_concat, Option.or_none, image, List.head?_cons, hgoes]
          simp [Lexeme.isBlank]
      | letter character => exact ⟨[], fun _ hmem => absurd hmem List.not_mem_nil, rfl⟩
      | sealed text => exact ⟨[], fun _ hmem => absurd hmem List.not_mem_nil, rfl⟩
      | opening character => exact ⟨[], fun _ hmem => absurd hmem List.not_mem_nil, rfl⟩
      | closing character => exact ⟨[], fun _ hmem => absurd hmem List.not_mem_nil, rfl⟩
      | comma => exact ⟨[], fun _ hmem => absurd hmem List.not_mem_nil, rfl⟩

theorem WellRead.front {front back : List Lexeme} (hread : WellRead (front ++ back)) :
    WellRead front :=
  ⟨fun lexeme hmem => hread.filled lexeme (List.mem_append_left back hmem),
    (List.isChain_append.1 hread.apart).1⟩

theorem WellRead.back {front back : List Lexeme} (hread : WellRead (front ++ back)) :
    WellRead back :=
  ⟨fun lexeme hmem => hread.filled lexeme (List.mem_append_right front hmem),
    (List.isChain_append.1 hread.apart).2.1⟩

theorem withoutBlank_append (front : List Lexeme) :
    ∃ gap, front = withoutBlank front ++ gap := by
  rw [withoutBlank]
  split_ifs
  · obtain ⟨gap, hgap⟩ := List.dropLast_prefix front
    exact ⟨gap, hgap.symm⟩
  · exact ⟨[], (List.append_nil front).symm⟩

/-- No blank is left before the blank that goes. -/
theorem isBlank_withoutBlank {front : List Lexeme} (hread : WellRead front) :
    ∀ last ∈ (withoutBlank front).getLast?, last.isBlank = false := by
  cases front using List.reverseRecOn with
  | nil =>
      intro last hlast
      cases hlast
  | append_singleton front last =>
      intro other hother
      rw [withoutBlank, List.getLast?_concat, Option.any_some] at hother
      split_ifs at hother with hblank
      · rw [List.dropLast_concat] at hother
        have hapart := (List.isChain_append.1 hread.apart).2.2 other hother last rfl
        exact Bool.eq_false_iff.2 fun hleft => hapart ⟨hleft, hblank⟩
      · rw [List.getLast?_concat] at hother
        obtain rfl := Option.some.inj hother
        exact Bool.eq_false_iff.2 hblank

theorem commaGoes_gap {gap back : List Lexeme} {next : Lexeme}
    (hgap : ∀ lexeme ∈ gap, lexeme.isBlank = true) (hnext : next.isBlank = false) :
    commaGoes (gap ++ next :: back) = next.isClosing := by
  rw [commaGoes, List.dropWhile_append_of_pos hgap,
    List.dropWhile_cons_of_neg (by rw [hnext]; exact Bool.false_ne_true), List.head?_cons,
    Option.any_some]

/-- The letter before a closing bracket, when what goes before it is gone. -/
theorem getLast?_standsBehind {front back : List Lexeme} {lexeme : Lexeme}
    (hclosing : lexeme.isClosing = true) (hread : WellRead front) :
    (printedFrom none front (lexeme :: back)).getLast? =
      (collapsedFrom none (standsBehind lexeme front)).getLast? := by
  have hsolid : lexeme.isBlank = false := by
    cases lexeme with
    | closing character => rfl
    | blank text => cases hclosing
    | comma => rfl
    | letter character => rfl
    | sealed text => rfl
    | opening character => rfl
  obtain ⟨gap, hgap, hprinted⟩ :=
    @printedFrom_withoutBlank front back lexeme (.inl hclosing)
  obtain ⟨tail, htail⟩ := withoutBlank_append front
  have hinner : WellRead (withoutBlank front) := by
    rw [htail] at hread
    exact hread.front
  have hlast := isBlank_withoutBlank hread
  rw [hprinted, standsBehind, hclosing, if_pos rfl]
  split_ifs with hcomma
  · -- the comma before the bracket goes, and the blank before the comma
    obtain ⟨inner, hsplit⟩ := List.getLast?_eq_some_iff.1 hcomma
    rw [hsplit] at hinner ⊢
    have hgoes : commaGoes (gap ++ lexeme :: back) = true := by
      rw [commaGoes_gap hgap hsolid, hclosing]
    obtain ⟨between, hbetween, hlater⟩ :=
      @printedFrom_withoutBlank inner (gap ++ lexeme :: back) .comma (.inr rfl)
    obtain ⟨tail, htail⟩ := withoutBlank_append inner
    have hbehind : WellRead (withoutBlank inner) := by
      have hfront := hinner.front
      rw [htail] at hfront
      exact hfront.front
    rw [printedFrom_concat, Option.or_none, image, hgoes, if_pos rfl, List.append_nil, hlater,
      List.dropLast_concat]
    apply getLast?_printedFrom hbehind.filled
    intro last hmem
    exact ⟨isBlank_withoutBlank hinner.front last hmem, fun _ => commaGoes_gap hbetween rfl⟩
  · apply getLast?_printedFrom hinner.filled
    intro last hmem
    refine ⟨hlast last hmem, ?_⟩
    rintro rfl
    exact absurd hmem hcomma

/-! ## Brackets in the folded text -/

theorem isEnd_solid {letter : Char} (hend : IsEnd letter) : isWhitespace letter = false := by
  simp only [IsEnd, List.mem_cons, List.not_mem_nil, or_false] at hend
  rcases hend with rfl | rfl | rfl | rfl <;> decide

/-- An opening bracket is told by the end of the text before it and by the next letter. -/
theorem opensTypes_congr {fixed : Char → Prop} {before other after next : List Char}
    (hsolid : ∀ letter, fixed letter → isWhitespace letter = false)
    (hwords : ∀ letter ∈ " (fun".toList, ¬fixed letter) (hmeets : Meets fixed before other)
    (hnext : after.head? = some '=' ↔ next.head? = some '=') :
    opensTypes alphanumeric before after = opensTypes alphanumeric other next := by
  have htrimmed := hmeets.rdropWhile hsolid
  have hsuffix {word : List Char} (hword : ∀ letter ∈ word, letter ∈ " (fun".toList) :
      word.isSuffixOf (before.rdropWhile isWhitespace) =
        word.isSuffixOf (other.rdropWhile isWhitespace) := by
    rw [Bool.eq_iff_iff, List.isSuffixOf_iff_suffix, List.isSuffixOf_iff_suffix]
    exact htrimmed.suffix_iff fun letter hmem => hwords letter (hword letter hmem)
  have hwhole : (before.rdropWhile isWhitespace == "fun".toList) =
      (other.rdropWhile isWhitespace == "fun".toList) := by
    rw [Bool.eq_iff_iff, beq_iff_eq, beq_iff_eq]
    exact htrimmed.eq_iff fun letter hmem => hwords letter (by simp at hmem ⊢; tauto)
  have hspaced := @hsuffix " fun".toList (by simp)
  have hbracketed := @hsuffix "(fun".toList (by simp)
  rw [opensTypes, opensTypes, hmeets.getLast?_eq]
  simp only [hnext, hwhole, hspaced, hbracketed]

theorem closesTypes_congr {before other after next : List Char}
    (hlast : before.getLast? = other.getLast?)
    (hnext : after.head? = some '=' ↔ next.head? = some '=') :
    closesTypes before after = closesTypes other next := by
  rw [closesTypes, closesTypes, hlast]
  simp only [ne_eq, hnext]

/-! ## What stands behind a lexeme -/

theorem Lexeme.eq_blank {lexeme : Lexeme} (hblank : lexeme.isBlank = true) :
    ∃ text, lexeme = .blank text := by
  cases lexeme with
  | blank text => exact ⟨text, rfl⟩
  | letter character => cases hblank
  | sealed text => cases hblank
  | opening character => cases hblank
  | closing character => cases hblank
  | comma => cases hblank

theorem Lexeme.eq_closing {lexeme : Lexeme} (hclosing : lexeme.isClosing = true) :
    ∃ character, lexeme = .closing character := by
  cases lexeme with
  | closing character => exact ⟨character, rfl⟩
  | letter character => cases hclosing
  | sealed text => cases hclosing
  | opening character => cases hclosing
  | comma => cases hclosing
  | blank text => cases hclosing

/-- A bracket that drops the comma before it is the next thing printed. -/
theorem head_foldedFrom_closing {previous : Option Lexeme} {rest : List Lexeme}
    (hread : WellRead rest) (hproper : ∀ lexeme ∈ rest, lexeme.Proper)
    (hgoes : commaGoes rest = true) :
    ∃ letter, (foldedFrom previous rest).head? = some letter ∧ IsEnd letter := by
  have hclosing {previous : Option Lexeme} {next : Lexeme} {back : List Lexeme}
      (hnext : next.isClosing = true) (hletter : next.Proper) :
      ∃ letter, (foldedFrom previous (next :: back)).head? = some letter ∧ IsEnd letter := by
    obtain ⟨character, rfl⟩ := Lexeme.eq_closing hnext
    exact ⟨character, rfl, List.mem_cons_of_mem ',' hletter⟩
  cases rest with
  | nil => cases hgoes
  | cons first rest =>
      obtain ⟨hfirst, hrest⟩ := List.forall_mem_cons.1 hproper
      by_cases hblank : first.isBlank = true
      · cases rest with
        | nil =>
            rw [commaGoes, List.dropWhile_cons_of_pos hblank] at hgoes
            cases hgoes
        | cons second rest =>
            have hsecond := hread.next hblank
            have hnext : second.isClosing = true := by
              rw [← @commaGoes_gap [first] rest second (List.forall_mem_singleton.2 hblank)
                hsecond]
              exact hgoes
            obtain ⟨text, rfl⟩ := Lexeme.eq_blank hblank
            rw [foldedFrom, image, blankStays, List.head?_cons, Option.any_some, hnext,
              Bool.true_or, Bool.not_true, Bool.and_false, if_neg Bool.false_ne_true,
              List.nil_append]
            exact hclosing hnext (hrest second List.mem_cons_self)
      · have hsolid := Bool.eq_false_iff.2 hblank
        have hnext : first.isClosing = true := by
          rw [← @commaGoes_gap [] rest first (fun _ hmem => absurd hmem List.not_mem_nil) hsolid]
          exact hgoes
        exact hclosing hnext hfirst

theorem head_foldedFrom_next {previous : Option Lexeme} {next : Lexeme} {back : List Lexeme}
    (hread : WellRead (next :: back)) (hproper : ∀ lexeme ∈ next :: back, lexeme.Proper)
    (hnext : (next.isClosing || next = .comma) = true) :
    ∃ letter, (foldedFrom previous (next :: back)).head? = some letter ∧ IsEnd letter := by
  obtain ⟨hletter, hback⟩ := List.forall_mem_cons.1 hproper
  cases next with
  | closing character => exact ⟨character, rfl, List.mem_cons_of_mem ',' hletter⟩
  | comma =>
      rw [foldedFrom, image]
      cases hgoes : commaGoes back with
      | false => exact ⟨',', rfl, List.mem_cons_self⟩
      | true => exact head_foldedFrom_closing hread.tail hback hgoes
  | letter character => cases hnext
  | sealed text => cases hnext
  | opening character => cases hnext
  | blank text => cases hnext

/-- Such a letter is neither an end nor white space. -/
def IsFirm (letter : Char) : Prop := isWhitespace letter = false ∧ ¬IsEnd letter

theorem IsFirm.head?_ne {letter other : Char} {text : List Char} (hfirm : IsFirm letter)
    (hhead : text.head? = some other) (hother : isWhitespace other = true ∨ IsEnd other) :
    text.head? ≠ some letter := by
  rw [hhead]
  intro hequal
  obtain rfl := Option.some.inj hequal
  rcases hother with hspace | hend
  · rw [hfirm.1] at hspace
    cases hspace
  · exact hfirm.2 hend

theorem head_foldedFrom_solid {previous : Option Lexeme} {lexemes : List Lexeme}
    {letter : Char} (hread : WellRead lexemes) (hproper : ∀ lexeme ∈ lexemes, lexeme.Proper)
    (hsolid : lexemes.head?.any Lexeme.isBlank = false) (hfirm : IsFirm letter) :
    (foldedFrom previous lexemes).head? = some letter ↔
      (sourceOf lexemes).head? = some letter := by
  cases lexemes with
  | nil => exact Iff.rfl
  | cons first rest =>
      have hsame (hkept : image previous first rest = first.source) :
          (foldedFrom previous (first :: rest)).head? = some letter ↔
            (sourceOf (first :: rest)).head? = some letter := by
        have hfilled := hread.filled first List.mem_cons_self
        rw [foldedFrom, hkept, sourceOf_cons, List.head?_append_of_ne_nil _ hfilled,
          List.head?_append_of_ne_nil _ hfilled]
      cases first with
      | blank text => cases hsolid
      | letter character => exact hsame rfl
      | sealed text => exact hsame rfl
      | opening character => exact hsame rfl
      | closing character => exact hsame rfl
      | comma =>
          cases hgoes : commaGoes rest with
          | false =>
              apply hsame
              rw [image, hgoes]
              rfl
          | true =>
              obtain ⟨other, hother, hend⟩ := @head_foldedFrom_closing (some .comma) rest
                hread.tail (List.forall_mem_cons.1 hproper).2 hgoes
              rw [foldedFrom, image, hgoes, if_pos rfl, List.nil_append]
              exact iff_of_false (hfirm.head?_ne hother (.inr hend))
                (hfirm.head?_ne rfl (.inr List.mem_cons_self))

/-- The folding puts no firm letter next to a lexeme but behind an opening bracket. -/
theorem head_foldedFrom {lexeme : Lexeme} {back : List Lexeme} {letter : Char}
    (hread : WellRead back) (hproper : ∀ lexeme ∈ back, lexeme.Proper)
    (hfirm : IsFirm letter) :
    (foldedFrom (some lexeme) back).head? = some letter ↔
      (sourceOf (standsBefore lexeme back)).head? = some letter := by
  cases back with
  | nil =>
      rw [standsBefore, List.dropWhile_nil, ite_self]
      exact Iff.rfl
  | cons first rest =>
      by_cases hblank : first.isBlank = true
      · have hrest := (List.forall_mem_cons.1 hproper).2
        have hapart : rest.head?.any Lexeme.isBlank = false := by
          cases rest with
          | nil => rfl
          | cons second rest => exact hread.next hblank
        obtain ⟨text, rfl⟩ := Lexeme.eq_blank hblank
        cases hopening : lexeme.isOpening with
        | true =>
            have hdrop : rest.dropWhile Lexeme.isBlank = rest := by
              cases rest with
              | nil => rfl
              | cons second rest =>
                  exact List.dropWhile_cons_of_neg (Bool.eq_false_iff.1 hapart)
            rw [standsBefore, hopening, if_pos rfl, List.dropWhile_cons_of_pos hblank, hdrop,
              foldedFrom, image, blankStays, Option.any_some, hopening, Bool.not_true,
              Bool.false_and, if_neg Bool.false_ne_true, List.nil_append]
            exact head_foldedFrom_solid hread.tail hrest hapart hfirm
        | false =>
            obtain ⟨hne, hspace⟩ := hproper (.blank text) List.mem_cons_self
            obtain ⟨space, others, rfl⟩ := List.exists_cons_of_ne_nil hne
            have hsource : (sourceOf (.blank (space :: others) :: rest)).head? = some space :=
              rfl
            rw [standsBefore, hopening, if_neg Bool.false_ne_true]
            apply iff_of_false _
              (hfirm.head?_ne hsource (.inl (hspace space List.mem_cons_self)))
            cases hstays : blankStays (some lexeme) rest.head? with
            | true =>
                rw [foldedFrom, image, hstays, if_pos rfl]
                exact hfirm.head?_ne rfl (.inl (by decide))
            | false =>
                rw [foldedFrom, image, hstays, if_neg Bool.false_ne_true, List.nil_append]
                rw [blankStays, Option.any_some, hopening, Bool.not_false, Bool.true_and]
                  at hstays
                cases rest with
                | nil =>
                    intro hequal
                    cases hequal
                | cons next rest =>
                    rw [List.head?_cons, Option.any_some, Bool.not_eq_false'] at hstays
                    obtain ⟨other, hother, hend⟩ :=
                      @head_foldedFrom_next (some (.blank (space :: others))) next rest
                        hread.tail hrest hstays
                    exact hfirm.head?_ne hother (.inr hend)
      · have hsolid : (first :: rest).head?.any Lexeme.isBlank = false :=
          Bool.eq_false_iff.2 hblank
        rw [standsBefore, List.dropWhile_cons_of_neg hblank, ite_self]
        exact head_foldedFrom_solid hread hproper hsolid hfirm

/-! ## Literals and comments read again -/

section Tails

variable {text more : List Char}

/-- What is read off a text begins with what the text begins with, when it is long enough or
the whole text. -/
theorem starts_of_again {word tail : List Char} (hstart : tail <+: text)
    (hlong : tail = text ∨ word.length ≤ tail.length) (hend : tail = text → more = [])
    (hword : word <+: tail ++ more) : word <+: text := by
  rcases hlong with hwhole | hlength
  · rwa [hend hwhole, List.append_nil, hwhole] at hword
  · have htail := List.prefix_of_prefix_length_le hword (List.prefix_append tail more) hlength
    exact htail.trans hstart

theorem rawTail_long (text : List Char) : rawTail text = text ∨ 3 ≤ (rawTail text).length := by
  fun_induction rawTail text with
  | case1 rest => exact .inr le_rfl
  | case2 letter rest _ ih =>
      rcases ih with hwhole | hlong
      · exact .inl (by rw [hwhole])
      · exact .inr (hlong.trans (Nat.le_succ _))
  | case3 => exact .inl rfl

theorem rawTail_again (hend : rawTail text = text → more = []) :
    rawTail (rawTail text ++ more) = rawTail text := by
  fun_induction rawTail text with
  | case1 rest => rfl
  | case2 letter rest hclosed ih =>
      have hlater : rawTail rest = rest → more = [] := fun hrest => hend (by rw [hrest])
      rw [List.cons_append, rawTail.eq_2, ih hlater]
      intro after hletter hafter
      have hquotes : ['"', '"'] <+: rest := by
        apply starts_of_again (rawTail_start rest) _ hlater
        · rw [hafter]
          exact List.prefix_append ['"', '"'] after
        · exact (rawTail_long rest).imp_right (Nat.le_succ 2).trans
      obtain ⟨later, hrest⟩ := hquotes
      exact hclosed later hletter hrest.symm
  | case3 =>
      rw [List.nil_append, hend rfl]
      rfl

theorem regularTail_long (text : List Char) :
    regularTail text = text ∨ 1 ≤ (regularTail text).length := by
  fun_cases regularTail text with
  | case1 letter rest => exact .inr (Nat.succ_pos _)
  | case2 rest => exact .inr (Nat.succ_pos _)
  | case3 letter rest _ _ => exact .inr (Nat.succ_pos _)
  | case4 => exact .inl rfl

theorem regularTail_again (hend : regularTail text = text → more = []) :
    regularTail (regularTail text ++ more) = regularTail text := by
  fun_induction regularTail text with
  | case1 letter rest ih =>
      have hlater := ih fun hrest => hend (by rw [hrest])
      rw [List.cons_append, List.cons_append, regularTail, hlater]
  | case2 rest => rfl
  | case3 letter rest hescape hquote ih =>
      have hlater : regularTail rest = rest → more = [] := fun hrest => hend (by rw [hrest])
      rw [List.cons_append, regularTail.eq_3 _ _ _ hquote, ih hlater]
      intro second after hletter hafter
      have hsecond : [second] <+: rest := by
        apply starts_of_again (regularTail_start rest) _ hlater
        · rw [hafter]
          exact List.prefix_append [second] after
        · exact regularTail_long rest
      obtain ⟨later, hrest⟩ := hsecond
      exact hescape second later hletter hrest.symm
  | case4 =>
      rw [List.nil_append, hend rfl]
      rfl

theorem stringTail_again (hend : stringTail text = text → more = [])
    (hquote : more.head? = some '"' → ∃ later, text = stringTail text ++ '"' :: later) :
    stringTail (stringTail text ++ more) = stringTail text := by
  fun_cases stringTail text with
  | case1 rest =>
      have hlater := @rawTail_again rest more fun hrest => hend (by rw [stringTail, hrest])
      rw [List.cons_append, List.cons_append, stringTail, hlater]
  | case2 _ hregular =>
      rw [stringTail.eq_2 _ hregular] at hend hquote
      rw [stringTail.eq_2, regularTail_again hend]
      intro after hafter
      -- the string is empty, and a third quote would stand behind it both times
      have hfirst : ['"'] <+: text := by
        apply starts_of_again (regularTail_start text) _ hend
        · rw [hafter]
          exact List.prefix_append ['"'] _
        · exact regularTail_long text
      obtain ⟨rest, rfl⟩ := hfirst
      have hempty : regularTail (['"'] ++ rest) = ['"'] := rfl
      rw [hempty] at hafter hquote
      have hmore : more = '"' :: after := (List.cons.inj hafter).2
      obtain ⟨later, hlater⟩ := hquote (congrArg List.head? hmore)
      exact hregular later hlater

theorem lineTail_again (hend : lineTail text = text → more = []) :
    lineTail (lineTail text ++ more) = lineTail text := by
  fun_induction lineTail text with
  | case1 rest => rfl
  | case2 letter rest hline ih =>
      have hlater := ih fun hrest => hend (by rw [hrest])
      rw [List.cons_append, lineTail.eq_2 _ _ hline, hlater]
  | case3 =>
      rw [List.nil_append, hend rfl]
      rfl

theorem blockTail_long (text : List Char) :
    blockTail text = text ∨ 2 ≤ (blockTail text).length := by
  fun_induction blockTail text with
  | case1 rest => exact .inr le_rfl
  | case2 letter rest _ ih =>
      rcases ih with hwhole | hlong
      · exact .inl (by rw [hwhole])
      · exact .inr (hlong.trans (Nat.le_succ _))
  | case3 => exact .inl rfl

theorem blockTail_again (hend : blockTail text = text → more = []) :
    blockTail (blockTail text ++ more) = blockTail text := by
  fun_induction blockTail text with
  | case1 rest => rfl
  | case2 letter rest hclosed ih =>
      have hlater : blockTail rest = rest → more = [] := fun hrest => hend (by rw [hrest])
      rw [List.cons_append, blockTail.eq_2, ih hlater]
      intro after hletter hafter
      have hslash : ['/'] <+: rest := by
        apply starts_of_again (blockTail_start rest) _ hlater
        · rw [hafter]
          exact List.prefix_append ['/'] after
        · exact (blockTail_long rest).imp_right (Nat.le_succ 1).trans
      obtain ⟨later, hrest⟩ := hslash
      exact hclosed later hletter hrest.symm
  | case3 =>
      rw [List.nil_append, hend rfl]
      rfl

end Tails

/-! ## Lexemes read again -/

section Again

variable {front back : List Lexeme} {depth : ℕ} {lexeme : Lexeme}

theorem judge_less (hsource : lexeme.source = ['<']) :
    judge alphanumeric front depth lexeme back =
      if opensTypes alphanumeric (collapsedFrom none (standsBehind lexeme front))
          (sourceOf (standsBefore lexeme back)) then (.opening '<', depth + 1)
      else (.letter '<', depth) := if_pos hsource

theorem judge_greater (hsource : lexeme.source = ['>']) :
    judge alphanumeric front depth lexeme back =
      if 0 < depth ∧ closesTypes (collapsedFrom none (standsBehind lexeme front))
          (sourceOf (standsBefore lexeme back)) then (.closing '>', depth - 1)
      else (.letter '>', depth) := by
  rw [judge, if_neg (by rw [hsource]; decide), if_pos hsource]

theorem judge_other (hless : lexeme.source ≠ ['<']) (hgreater : lexeme.source ≠ ['>']) :
    judge alphanumeric front depth lexeme back = (lexeme, depth) := by
  rw [judge, if_neg hless, if_neg hgreater]

/-- White space and commas are not judged. -/
theorem judge_layout (hproper : lexeme.Proper)
    (hlayout : lexeme.isBlank = true ∨ lexeme = .comma) :
    judge alphanumeric front depth lexeme back = (lexeme, depth) := by
  rcases hlayout with hblank | rfl
  · obtain ⟨text, rfl⟩ := Lexeme.eq_blank hblank
    apply judge_other
    · rintro rfl
      cases hproper.2 '<' List.mem_cons_self
    · rintro rfl
      cases hproper.2 '>' List.mem_cons_self
  · exact judge_other (by decide) (by decide)

theorem isFirm_equals : IsFirm '=' := ⟨by decide, by simp [IsEnd]⟩

theorem less_again (hread : WellRead (front ++ lexeme :: back))
    (hproper : ∀ other ∈ front ++ lexeme :: back, other.Proper)
    (hlexeme : lexeme = .opening '<' ∨ lexeme = .letter '<') :
    read alphanumeric (printedFrom none front (lexeme :: back)) depth '<'
        (foldedFrom (some lexeme) back) = judge alphanumeric front depth lexeme back := by
  have hfront : ∀ other ∈ front, other.Proper :=
    fun other hmem => hproper other (List.mem_append_left _ hmem)
  have hback : ∀ other ∈ back, other.Proper :=
    fun other hmem => hproper other (List.mem_append_right _ (List.mem_cons_of_mem _ hmem))
  have hafter := @head_foldedFrom lexeme back '=' hread.back.tail hback isFirm_equals
  have hless (before after : List Char) : read alphanumeric before depth '<' after =
      if opensTypes alphanumeric before after then (.opening '<', depth + 1)
      else (.letter '<', depth) := by
    simp [read, isWhitespace]
  rcases hlexeme with rfl | rfl
  · rw [hless, judge_less rfl, opensTypes_congr (fun _ => isEnd_solid) (by simp [IsEnd])
      (meets_collapsedFrom hfront rfl) hafter]
    rfl
  · rw [hless, judge_less rfl, opensTypes_congr (fun _ => isEnd_solid) (by simp [IsEnd])
      (meets_collapsedFrom hfront rfl) hafter]
    rfl

theorem greater_again (hread : WellRead (front ++ lexeme :: back))
    (hproper : ∀ other ∈ front ++ lexeme :: back, other.Proper)
    (hlexeme : lexeme = .closing '>' ∨ lexeme = .letter '>') :
    read alphanumeric (printedFrom none front (lexeme :: back)) depth '>'
        (foldedFrom (some lexeme) back) = judge alphanumeric front depth lexeme back := by
  have hfront : ∀ other ∈ front, other.Proper :=
    fun other hmem => hproper other (List.mem_append_left _ hmem)
  have hback : ∀ other ∈ back, other.Proper :=
    fun other hmem => hproper other (List.mem_append_right _ (List.mem_cons_of_mem _ hmem))
  have hafter := @head_foldedFrom lexeme back '=' hread.back.tail hback isFirm_equals
  have hgreater (before after : List Char) : read alphanumeric before depth '>' after =
      if 0 < depth ∧ closesTypes before after then (.closing '>', depth - 1)
      else (.letter '>', depth) := by
    simp [read, isWhitespace]
  rcases hlexeme with rfl | rfl
  · have hlast := @getLast?_standsBehind front back (.closing '>') rfl hread.front
    rw [hgreater, judge_greater rfl, closesTypes_congr hlast hafter]
  · have hlast := (@meets_collapsedFrom front (.letter '>' :: back) hfront rfl).getLast?_eq
    rw [hgreater, judge_greater rfl, closesTypes_congr hlast hafter]
    rfl

/-- Behind a literal that goes to the end of the text nothing is printed. -/
theorem foldedFrom_nil (previous : Option Lexeme) {tail rest : List Char}
    (hread : WellRead back) (hsource : rest = tail ++ sourceOf back) (hwhole : tail = rest) :
    foldedFrom previous back = [] := by
  rw [hwhole] at hsource
  have hnil := List.append_right_eq_self.1 hsource.symm
  cases back with
  | nil => rfl
  | cons first rest =>
      rw [sourceOf_cons, List.append_eq_nil_iff] at hnil
      exact absurd hnil.1 (hread.filled first List.mem_cons_self)

/-- A literal or a comment is read again to where it ended. -/
theorem string_again {first : Char} {rest : List Char} (hfirst : first = '"')
    (hsource : rest = stringTail rest ++ sourceOf back) (hread : WellRead back)
    (hproper : ∀ other ∈ back, other.Proper) (before : List Char) :
    read alphanumeric before depth first (stringTail rest ++
        foldedFrom (some (.sealed ('"' :: stringTail rest))) back) =
      (.sealed ('"' :: stringTail rest), depth) := by
  have hafter := @head_foldedFrom (.sealed ('"' :: stringTail rest)) back '"' hread hproper
    ⟨by decide, by simp [IsEnd]⟩
  have htail : stringTail (stringTail rest ++
      foldedFrom (some (.sealed ('"' :: stringTail rest))) back) = stringTail rest := by
    apply stringTail_again (foldedFrom_nil _ hread hsource)
    intro hquote
    obtain ⟨later, hlater⟩ := List.head?_eq_some_iff.1 (hafter.1 hquote)
    have hbehind : sourceOf back = '"' :: later := hlater
    rw [hbehind] at hsource
    exact ⟨later, hsource⟩
  rw [read, if_pos hfirst, htail]

theorem line_again {first : Char} {rest : List Char} (hfirst : first = '/')
    (hsource : rest = lineTail rest ++ sourceOf back) (hread : WellRead back)
    (previous : Option Lexeme) (before : List Char) :
    read alphanumeric before depth first ('/' :: (lineTail rest ++ foldedFrom previous back)) =
      (.sealed ('/' :: '/' :: lineTail rest), depth) := by
  have htail := lineTail_again (foldedFrom_nil previous hread hsource)
  rw [read, hfirst, if_neg (by decide), if_pos ⟨rfl, rfl⟩, List.tail_cons, htail]

theorem block_again {first : Char} {rest : List Char} (hfirst : first = '/')
    (hsource : rest = blockTail rest ++ sourceOf back) (hread : WellRead back)
    (previous : Option Lexeme) (before : List Char) :
    read alphanumeric before depth first ('*' :: (blockTail rest ++ foldedFrom previous back)) =
      (.sealed ('/' :: '*' :: blockTail rest), depth) := by
  have htail := blockTail_again (foldedFrom_nil previous hread hsource)
  rw [read, hfirst, if_neg (by decide), if_neg (by simp), if_pos ⟨rfl, rfl⟩, List.tail_cons,
    htail]

/-- A letter that opens no comment opens none before what is printed behind it. -/
theorem letter_again {first : Char} (hread : WellRead back)
    (hproper : ∀ other ∈ back, other.Proper) (hquote : first ≠ '"')
    (hline : ¬(first = '/' ∧ (sourceOf back).head? = some '/'))
    (hblock : ¬(first = '/' ∧ (sourceOf back).head? = some '*'))
    (hspace : isWhitespace first ≠ true) (hround : ¬(first = '(' ∨ first = '['))
    (hclose : ¬(first = ')' ∨ first = ']')) (hcomma : first ≠ ',') (hless : first ≠ '<')
    (hgreater : first ≠ '>') (before : List Char) :
    read alphanumeric before depth first (foldedFrom (some (.letter first)) back) =
      (.letter first, depth) := by
  have hafter {letter : Char} (hfirm : IsFirm letter) :
      (foldedFrom (some (.letter first)) back).head? = some letter ↔
        (sourceOf back).head? = some letter :=
    head_foldedFrom hread hproper hfirm
  have hslash : IsFirm '/' := ⟨by decide, by simp [IsEnd]⟩
  have hstar : IsFirm '*' := ⟨by decide, by simp [IsEnd]⟩
  rw [← hafter hslash] at hline
  rw [← hafter hstar] at hblock
  rw [read, if_neg hquote, if_neg hline, if_neg hblock, if_neg hspace, if_neg hround,
    if_neg fun hopens => hless hopens.1, if_neg hclose,
    if_neg fun hcloses => hgreater hcloses.1, if_neg hcomma]

/-- Round and square brackets are read alike wherever they stand. -/
theorem opening_again {first : Char} (hround : first = '(' ∨ first = '[')
    (front back : List Lexeme) (before text : List Char) :
    read alphanumeric before depth first text =
      judge alphanumeric front depth (.opening first) back := by
  rcases hround with rfl | rfl
  · rw [judge_other (by simp [Lexeme.source]) (by simp [Lexeme.source])]
    rfl
  · rw [judge_other (by simp [Lexeme.source]) (by simp [Lexeme.source])]
    rfl

theorem closing_again {first : Char} (hclose : first = ')' ∨ first = ']')
    (front back : List Lexeme) (before text : List Char) :
    read alphanumeric before depth first text =
      judge alphanumeric front depth (.closing first) back := by
  rcases hclose with rfl | rfl
  · rw [judge_other (by simp [Lexeme.source]) (by simp [Lexeme.source])]
    rfl
  · rw [judge_other (by simp [Lexeme.source]) (by simp [Lexeme.source])]
    rfl

theorem comma_again (front back : List Lexeme) (before text : List Char) :
    read alphanumeric before depth ',' text = judge alphanumeric front depth .comma back := by
  rw [judge_other (by simp [Lexeme.source]) (by simp [Lexeme.source])]
  rfl

/-- A lexeme of one character that begins no literal, comment or blank. -/
theorem character_again {first : Char} {rest inner : List Char} {earlier : ℕ}
    (hlexeme : (read alphanumeric (sourceOf front) earlier first rest).1 = lexeme)
    (hrest : rest = inner ++ sourceOf back) (hread : WellRead (front ++ lexeme :: back))
    (hproper : ∀ other ∈ front ++ lexeme :: back, other.Proper)
    (hinner : lexeme.source = first :: inner) (hquote : ¬first = '"')
    (hline : ¬(first = '/' ∧ rest.head? = some '/'))
    (hblock : ¬(first = '/' ∧ rest.head? = some '*')) (hspace : ¬isWhitespace first = true) :
    read alphanumeric (printedFrom none front (lexeme :: back)) depth first
        (inner ++ foldedFrom (some lexeme) back) =
      judge alphanumeric front depth lexeme back := by
  have hback : ∀ other ∈ back, other.Proper :=
    fun other hmem => hproper other (List.mem_append_right _ (List.mem_cons_of_mem _ hmem))
  rw [read, if_neg hquote, if_neg hline, if_neg hblock, if_neg hspace] at hlexeme
  by_cases hround : first = '(' ∨ first = '['
  · rw [if_pos hround] at hlexeme
    subst hlexeme
    exact opening_again hround ..
  rw [if_neg hround] at hlexeme
  by_cases hangle : first = '<' ∧ opensTypes alphanumeric (sourceOf front) rest = true
  · rw [if_pos hangle] at hlexeme
    subst hlexeme
    obtain rfl : [] = inner := (List.cons.inj hinner).2
    obtain ⟨rfl, -⟩ := hangle
    exact less_again hread hproper (.inl rfl)
  rw [if_neg hangle] at hlexeme
  by_cases hclose : first = ')' ∨ first = ']'
  · rw [if_pos hclose] at hlexeme
    subst hlexeme
    exact closing_again hclose ..
  rw [if_neg hclose] at hlexeme
  by_cases hcloseAngle : first = '>' ∧ 0 < earlier ∧ closesTypes (sourceOf front) rest = true
  · rw [if_pos hcloseAngle] at hlexeme
    subst hlexeme
    obtain rfl : [] = inner := (List.cons.inj hinner).2
    obtain ⟨rfl, -⟩ := hcloseAngle
    exact greater_again hread hproper (.inl rfl)
  rw [if_neg hcloseAngle] at hlexeme
  by_cases hcomma : first = ','
  · rw [if_pos hcomma] at hlexeme
    subst hlexeme hcomma
    exact comma_again ..
  rw [if_neg hcomma] at hlexeme
  subst hlexeme
  obtain rfl : [] = inner := (List.cons.inj hinner).2
  rw [List.nil_append] at hrest
  rw [List.nil_append]
  by_cases hless : first = '<'
  · subst hless
    exact less_again hread hproper (.inr rfl)
  · by_cases hgreater : first = '>'
    · subst hgreater
      exact greater_again hread hproper (.inr rfl)
    · rw [judge_other (by simpa [Lexeme.source] using hless)
        (by simpa [Lexeme.source] using hgreater)]
      rw [hrest] at hline hblock
      exact letter_again hread.back.tail hback hquote hline hblock hspace hround hclose hcomma
        hless hgreater _

theorem read_again {first : Char} {rest inner : List Char} {earlier : ℕ}
    (hlexeme : (read alphanumeric (sourceOf front) earlier first rest).1 = lexeme)
    (hsource : first :: rest = lexeme.source ++ sourceOf back)
    (hread : WellRead (front ++ lexeme :: back))
    (hproper : ∀ other ∈ front ++ lexeme :: back, other.Proper)
    (hblank : lexeme.isBlank = false) (hinner : lexeme.source = first :: inner) :
    read alphanumeric (printedFrom none front (lexeme :: back)) depth first
        (inner ++ foldedFrom (some lexeme) back) =
      judge alphanumeric front depth lexeme back := by
  have hback : ∀ other ∈ back, other.Proper :=
    fun other hmem => hproper other (List.mem_append_right _ (List.mem_cons_of_mem _ hmem))
  have hbehind := hread.back.tail
  have hrest : rest = inner ++ sourceOf back := by
    rw [hinner] at hsource
    exact (List.cons.inj hsource).2
  have hbranch := hlexeme
  rw [read] at hbranch
  by_cases hquote : first = '"'
  · rw [if_pos hquote] at hbranch
    subst hbranch
    obtain rfl : stringTail rest = inner := (List.cons.inj hinner).2
    rw [judge_other (by simp [Lexeme.source]) (by simp [Lexeme.source])]
    exact string_again hquote hrest hbehind hback _
  rw [if_neg hquote] at hbranch
  by_cases hline : first = '/' ∧ rest.head? = some '/'
  · rw [if_pos hline] at hbranch
    subst hbranch
    obtain ⟨tail, rfl⟩ := List.head?_eq_some_iff.1 hline.2
    obtain rfl : '/' :: lineTail tail = inner := (List.cons.inj hinner).2
    rw [judge_other (by simp [Lexeme.source]) (by simp [Lexeme.source])]
    exact line_again hline.1 (List.cons.inj hrest).2 hbehind _ _
  rw [if_neg hline] at hbranch
  by_cases hblock : first = '/' ∧ rest.head? = some '*'
  · rw [if_pos hblock] at hbranch
    subst hbranch
    obtain ⟨tail, rfl⟩ := List.head?_eq_some_iff.1 hblock.2
    obtain rfl : '*' :: blockTail tail = inner := (List.cons.inj hinner).2
    rw [judge_other (by simp [Lexeme.source]) (by simp [Lexeme.source])]
    exact block_again hblock.1 (List.cons.inj hrest).2 hbehind _ _
  rw [if_neg hblock] at hbranch
  by_cases hspace : isWhitespace first = true
  · rw [if_pos hspace] at hbranch
    subst hbranch
    cases hblank
  exact character_again hlexeme hrest hread hproper hinner hquote hline hblock hspace

end Again

/-- What is kept of a lexeme, with its bracket judged again. -/
def kept (previous : Option Judged) (judged : Judged) (rest : List Judged) : List Lexeme :=
  match judged.first with
  | .blank _ =>
      if blankStays (previous.map Judged.first) (rest.head?.map Judged.first) then
        [.blank [' ']]
      else []
  | .comma => if commaGoes (rest.map Judged.first) then [] else [.comma]
  | _ => [judged.again]

def keptFrom (previous : Option Judged) : List Judged → List Lexeme
  | [] => []
  | judged :: rest => kept previous judged rest ++ keptFrom (some judged) rest

theorem first_judgedFrom (front : List Lexeme) (depth : ℕ) (lexemes : List Lexeme) :
    (judgedFrom alphanumeric front depth lexemes).map Judged.first = lexemes := by
  induction lexemes generalizing front depth with
  | nil => rfl
  | cons lexeme rest ih => rw [judgedFrom, List.map_cons, ih]

theorem head_judgedFrom (front : List Lexeme) (depth : ℕ) (lexemes : List Lexeme) :
    (judgedFrom alphanumeric front depth lexemes).head?.map Judged.first = lexemes.head? := by
  rw [← List.head?_map, first_judgedFrom]

theorem source_judge (front : List Lexeme) (depth : ℕ) (lexeme : Lexeme)
    (back : List Lexeme) :
    (judge alphanumeric front depth lexeme back).1.source = lexeme.source := by
  rw [judge]
  split_ifs with hless _ hgreater _
  · exact hless.symm
  · exact hless.symm
  · exact hgreater.symm
  · exact hgreater.symm
  · rfl

theorem Lexes.cons {before rest after : List Char} {depth later : ℕ} {first : Char}
    {lexeme : Lexeme} {lexemes : List Lexeme}
    (hread : read alphanumeric before depth first rest = (lexeme, later))
    (hsource : first :: rest = lexeme.source ++ after)
    (hlater : Lexes alphanumeric (before ++ lexeme.source) later after lexemes) :
    Lexes alphanumeric before depth (first :: rest) (lexeme :: lexemes) := by
  have hnext := @Lexes.next alphanumeric before rest after first depth lexemes
  rw [hread] at hnext
  exact hnext hsource hlater

theorem Lexes.uncons {before text : List Char} {depth : ℕ} {lexeme : Lexeme}
    {lexemes : List Lexeme} (hlexes : Lexes alphanumeric before depth text (lexeme :: lexemes)) :
    ∃ first rest later, text = first :: rest ∧
      (read alphanumeric before depth first rest).1 = lexeme ∧
      text = lexeme.source ++ sourceOf lexemes ∧
      Lexes alphanumeric (before ++ lexeme.source) later (sourceOf lexemes) lexemes := by
  have htext := hlexes.sourceOf_eq
  cases hlexes with
  | @next _ rest after first _ _ hsource hlater =>
      refine ⟨first, rest, (read alphanumeric before depth first rest).2, rfl, rfl,
        htext.symm.trans (sourceOf_cons _ _), ?_⟩
      rw [hlater.sourceOf_eq]
      exact hlater

/-- A lexeme that is no blank begins in no white space. -/
theorem head_of_proper {lexeme : Lexeme} (hproper : lexeme.Proper)
    (hblank : lexeme.isBlank = false) :
    ∃ first inner, lexeme.source = first :: inner ∧ isWhitespace first = false := by
  cases lexeme with
  | blank text => cases hblank
  | letter character => exact ⟨character, [], rfl, hproper.1⟩
  | comma => exact ⟨',', [], rfl, by decide⟩
  | sealed text =>
      obtain ⟨first, hfirst, hkind⟩ := hproper
      obtain ⟨inner, htext⟩ := List.head?_eq_some_iff.1 hfirst
      refine ⟨first, inner, htext, ?_⟩
      rcases hkind with rfl | rfl
      · decide
      · decide
  | opening character =>
      refine ⟨character, [], rfl, ?_⟩
      simp only [Lexeme.Proper, List.mem_cons, List.not_mem_nil, or_false] at hproper
      rcases hproper with rfl | rfl | rfl <;> decide
  | closing character =>
      exact ⟨character, [], rfl, isEnd_solid (List.mem_cons_of_mem ',' hproper)⟩

/-- A blank that stays is read again up to the lexeme that keeps it. -/
theorem blank_again {before text : List Char} {depth : ℕ} {previous : Option Lexeme}
    {back : List Lexeme} (hread : WellRead (.blank text :: back))
    (hproper : ∀ lexeme ∈ back, lexeme.Proper)
    (hstays : blankStays previous back.head? = true) :
    read alphanumeric before depth ' ' (foldedFrom (some (.blank text)) back) =
      (.blank [' '], depth) := by
  rw [blank_read (by decide)]
  cases back with
  | nil =>
      rw [blankStays, List.head?_nil, Option.any_none, Bool.and_false] at hstays
      cases hstays
  | cons next rest =>
      rw [blankStays, List.head?_cons, Option.any_some, Bool.and_eq_true, Bool.not_eq_true',
        Bool.or_eq_false_iff] at hstays
      have hsolid := hread.next rfl
      have hcomma : next ≠ .comma := of_decide_eq_false hstays.2.2
      obtain ⟨first, inner, hsource, hfirst⟩ :=
        head_of_proper (hproper next List.mem_cons_self) hsolid
      rw [foldedFrom, image_of_solid hsolid fun hequal => absurd hequal hcomma, hsource,
        List.cons_append, List.takeWhile_cons_of_neg (Bool.eq_false_iff.1 hfirst)]

theorem kept_of_solid {previous : Option Judged} {judged : Judged} {rest : List Judged}
    (hblank : judged.first.isBlank = false) (hcomma : judged.first ≠ .comma) :
    kept previous judged rest = [judged.again] := by
  obtain ⟨first, again⟩ := judged
  cases first with
  | blank text => cases hblank
  | comma => exact absurd rfl hcomma
  | letter character => rfl
  | sealed text => rfl
  | opening character => rfl
  | closing character => rfl

/-- A lexeme that is printed as it stands is read again as it is judged. -/
theorem printed_again {front back lexemes : List Lexeme} {lexeme again : Lexeme} {first : Char}
    {rest : List Char} {depth later after : ℕ}
    (hlexeme : (read alphanumeric (sourceOf front) depth first rest).1 = lexeme)
    (hsource : first :: rest = lexeme.source ++ sourceOf back)
    (hread : WellRead (front ++ lexeme :: back))
    (hproper : ∀ other ∈ front ++ lexeme :: back, other.Proper)
    (hblank : lexeme.isBlank = false)
    (himage : image front.getLast? lexeme back = lexeme.source)
    (hjudge : judge alphanumeric front later lexeme back = (again, after))
    (hlater : Lexes alphanumeric
      (printedFrom none front (lexeme :: back) ++ image front.getLast? lexeme back) after
      (foldedFrom (some lexeme) back) lexemes) :
    Lexes alphanumeric (printedFrom none front (lexeme :: back)) later
      (image front.getLast? lexeme back ++ foldedFrom (some lexeme) back) (again :: lexemes) := by
  obtain ⟨other, inner, hinner, -⟩ := head_of_proper (hproper lexeme (by simp)) hblank
  obtain rfl : first = other := by
    rw [hinner] at hsource
    exact (List.cons.inj hsource).1
  have hagain : again.source = lexeme.source := by
    rw [← source_judge front later lexeme back, hjudge]
  have hfirst := (read_again hlexeme hsource hread hproper hblank hinner).trans hjudge
  rw [himage, ← hagain] at hlater
  rw [himage, hinner]
  rw [hinner] at hagain
  apply Lexes.cons hfirst _ hlater
  rw [hagain]
  rfl

/-- The folded text is read as the lexemes that were kept, with their brackets judged
again. -/
theorem lexes_again {front lexemes : List Lexeme} {text : List Char} {depth later : ℕ}
    {previous : Option Judged} (hprevious : previous.map Judged.first = front.getLast?)
    (hread : WellRead (front ++ lexemes))
    (hproper : ∀ lexeme ∈ front ++ lexemes, lexeme.Proper)
    (hlexes : Lexes alphanumeric (sourceOf front) depth text lexemes) :
    Lexes alphanumeric (printedFrom none front lexemes) later
      (foldedFrom front.getLast? lexemes)
      (keptFrom previous (judgedFrom alphanumeric front later lexemes)) := by
  induction lexemes generalizing front text depth later previous with
  | nil => exact Lexes.done _ later
  | cons lexeme lexemes ih =>
      obtain ⟨first, rest, middle, rfl, hlexeme, hsource, hbehind⟩ := hlexes.uncons
      have hback : ∀ other ∈ lexemes, other.Proper := fun other hmem =>
        hproper other (List.mem_append_right _ (List.mem_cons_of_mem _ hmem))
      obtain ⟨⟨again, after⟩, hjudge⟩ :
          ∃ judged, judge alphanumeric front later lexeme lexemes = judged := ⟨_, rfl⟩
      have hlater : Lexes alphanumeric
          (printedFrom none front (lexeme :: lexemes) ++ image front.getLast? lexeme lexemes)
          after (foldedFrom (some lexeme) lexemes)
          (keptFrom (some ⟨lexeme, again⟩)
            (judgedFrom alphanumeric (front ++ [lexeme]) after lexemes)) := by
        have hconcat := @ih (front ++ [lexeme]) (sourceOf lexemes) middle after
          (some ⟨lexeme, again⟩)
        rw [List.getLast?_concat, printedFrom_concat, Option.or_none, List.append_assoc,
          List.singleton_append, sourceOf_append] at hconcat
        have hsingle : sourceOf [lexeme] = lexeme.source := List.flatMap_singleton _ _
        rw [hsingle] at hconcat
        exact hconcat rfl hread hproper hbehind
      have hprinted (hblank : lexeme.isBlank = false)
          (himage : image front.getLast? lexeme lexemes = lexeme.source) :=
        printed_again hlexeme hsource hread hproper hblank himage hjudge hlater
      rw [judgedFrom, keptFrom, foldedFrom, hjudge]
      cases lexeme with
      | blank text =>
          have hother := hjudge.symm.trans (judge_layout (hproper (.blank text) (by simp))
            (.inl rfl))
          obtain ⟨rfl, rfl⟩ := Prod.mk.inj hother
          rw [kept, hprevious, head_judgedFrom]
          cases hstays : blankStays front.getLast? lexemes.head? with
          | true =>
              rw [image, hstays, if_pos rfl] at hlater ⊢
              rw [if_pos rfl]
              exact Lexes.cons (blank_again hread.back hback hstays) rfl hlater
          | false =>
              rw [image, hstays, if_neg Bool.false_ne_true, List.append_nil] at hlater
              rw [image, hstays, if_neg Bool.false_ne_true, if_neg Bool.false_ne_true]
              exact hlater
      | comma =>
          have hother := hjudge.symm.trans (judge_layout trivial (.inr rfl))
          obtain ⟨rfl, rfl⟩ := Prod.mk.inj hother
          rw [kept, first_judgedFrom]
          cases hgoes : commaGoes lexemes with
          | true =>
              rw [image, hgoes, if_pos rfl, List.append_nil] at hlater
              rw [image, hgoes, if_pos rfl, if_pos rfl]
              exact hlater
          | false =>
              rw [if_neg Bool.false_ne_true]
              apply hprinted rfl
              rw [image, hgoes]
              rfl
      | letter _ | sealed _ | opening _ | closing _ =>
          rw [kept_of_solid rfl (by simp)]
          exact hprinted rfl rfl

/-! ## What is folded twice -/

theorem length_image_le {previous : Option Lexeme} {lexeme : Lexeme} {rest : List Lexeme}
    (hfilled : lexeme.source ≠ []) :
    (image previous lexeme rest).length ≤ lexeme.source.length := by
  cases lexeme with
  | blank text =>
      have hpos : 1 ≤ text.length := List.length_pos_of_ne_nil hfilled
      rw [image]
      split_ifs
      · exact hpos
      · exact Nat.zero_le _
  | comma =>
      rw [image]
      split_ifs
      · exact Nat.zero_le 1
      · exact le_rfl
  | letter character => exact le_rfl
  | sealed text => exact le_rfl
  | opening character => exact le_rfl
  | closing character => exact le_rfl

theorem length_foldedFrom_le {previous : Option Lexeme} {lexemes : List Lexeme}
    (hfilled : ∀ lexeme ∈ lexemes, lexeme.source ≠ []) :
    (foldedFrom previous lexemes).length ≤ (sourceOf lexemes).length := by
  induction lexemes generalizing previous with
  | nil => exact le_rfl
  | cons lexeme rest ih =>
      obtain ⟨hlexeme, hrest⟩ := List.forall_mem_cons.1 hfilled
      rw [foldedFrom, sourceOf_cons, List.length_append, List.length_append]
      exact Nat.add_le_add (length_image_le hlexeme) (ih hrest)

/-- Such a lexeme is printed as it is read. -/
def Fixed (previous : Option Lexeme) (lexeme : Lexeme) (rest : List Lexeme) : Prop :=
  image previous lexeme rest = lexeme.source

/-- A text is folded to itself when each of its lexemes is printed as it is read. -/
theorem foldedFrom_eq_iff {previous : Option Lexeme} {lexemes : List Lexeme}
    (hfilled : ∀ lexeme ∈ lexemes, lexeme.source ≠ []) :
    foldedFrom previous lexemes = sourceOf lexemes ↔ Throughout Fixed previous lexemes := by
  induction lexemes generalizing previous with
  | nil => exact iff_of_true rfl (throughout_nil previous)
  | cons lexeme rest ih =>
      obtain ⟨hlexeme, hrest⟩ := List.forall_mem_cons.1 hfilled
      rw [throughout_cons, ← ih hrest, foldedFrom, sourceOf_cons, Fixed]
      constructor
      · intro hequal
        have himage := @length_image_le previous lexeme rest hlexeme
        have hfolded := @length_foldedFrom_le (some lexeme) rest hrest
        have htotal := congrArg List.length hequal
        rw [List.length_append, List.length_append] at htotal
        exact List.append_inj hequal (by omega)
      · rintro ⟨himage, hfolded⟩
        rw [himage, hfolded]

/-- Only brackets are judged again. -/
structure Judged.Sound (judged : Judged) : Prop where
  same : judged.first.isBlank = true ∨ judged.first = .comma → judged.again = judged.first
  solid : judged.first.isBlank = false → judged.first ≠ .comma →
    judged.again.isBlank = false ∧ judged.again ≠ .comma

theorem sound_judge {front : List Lexeme} {depth : ℕ} {lexeme : Lexeme} {back : List Lexeme}
    (hproper : lexeme.Proper) :
    Judged.Sound ⟨lexeme, (judge alphanumeric front depth lexeme back).1⟩ where
  same := fun hlayout => congrArg Prod.fst (judge_layout hproper hlayout)
  solid := by
    intro hblank hcomma
    dsimp only
    rw [judge]
    split_ifs
    · exact ⟨rfl, by simp⟩
    · exact ⟨rfl, by simp⟩
    · exact ⟨rfl, by simp⟩
    · exact ⟨rfl, by simp⟩
    · exact ⟨hblank, hcomma⟩

theorem sound_judgedFrom {front : List Lexeme} {depth : ℕ} {lexemes : List Lexeme}
    (hproper : ∀ lexeme ∈ lexemes, lexeme.Proper) :
    ∀ judged ∈ judgedFrom alphanumeric front depth lexemes, judged.Sound := by
  induction lexemes generalizing front depth with
  | nil => exact fun _ hmem => absurd hmem List.not_mem_nil
  | cons lexeme rest ih =>
      obtain ⟨hlexeme, hrest⟩ := List.forall_mem_cons.1 hproper
      exact List.forall_mem_cons.2 ⟨sound_judge hlexeme, ih hrest⟩

theorem commaGoes_blank {lexeme : Lexeme} (hblank : lexeme.isBlank = true)
    (back : List Lexeme) : commaGoes (lexeme :: back) = commaGoes back := by
  rw [commaGoes, List.dropWhile_cons_of_pos hblank, commaGoes]

theorem commaGoes_solid {lexeme : Lexeme} (hsolid : lexeme.isBlank = false)
    (back : List Lexeme) : commaGoes (lexeme :: back) = lexeme.isClosing :=
  @commaGoes_gap [] back lexeme (fun _ hmem => absurd hmem List.not_mem_nil) hsolid

/-- The lexemes are sound, and no blank stands behind a blank. -/
structure Chained (judged : List Judged) : Prop where
  sound : ∀ item ∈ judged, item.Sound
  apart : judged.IsChain fun left right =>
    ¬(left.first.isBlank = true ∧ right.first.isBlank = true)

theorem Chained.tail {item : Judged} {judged : List Judged}
    (hchained : Chained (item :: judged)) : Chained judged :=
  ⟨(List.forall_mem_cons.1 hchained.sound).2, hchained.apart.tail⟩

theorem Chained.next {first second : Judged} {judged : List Judged}
    (hchained : Chained (first :: second :: judged)) (hblank : first.first.isBlank = true) :
    second.first.isBlank = false := by
  have hpair := (List.isChain_cons_cons.1 hchained.apart).1
  exact Bool.eq_false_iff.2 fun hsecond => hpair ⟨hblank, hsecond⟩

theorem keptFrom_solid {previous : Option Judged} {judged : Judged} {rest : List Judged}
    (hblank : judged.first.isBlank = false) (hcomma : judged.first ≠ .comma) :
    keptFrom previous (judged :: rest) = judged.again :: keptFrom (some judged) rest := by
  rw [keptFrom, kept_of_solid hblank hcomma, List.singleton_append]

theorem kept_blank {previous : Option Judged} {judged : Judged} {rest : List Judged}
    (hblank : judged.first.isBlank = true) :
    kept previous judged rest =
      if blankStays (previous.map Judged.first) (rest.head?.map Judged.first) then
        [.blank [' ']]
      else [] := by
  obtain ⟨first, again⟩ := judged
  obtain ⟨text, rfl⟩ := Lexeme.eq_blank hblank
  rfl

theorem blankStays_closing {previous : Option Lexeme} {next : Lexeme}
    (hclosing : next.isClosing = true) : blankStays previous (some next) = false := by
  rw [blankStays, Option.any_some, hclosing, Bool.true_or, Bool.not_true, Bool.and_false]

/-- Behind a comma that goes, the bracket is the next thing kept. -/
theorem commaGoes_keptFrom_of_goes {previous : Option Judged} {rest : List Judged}
    (hchained : Chained rest) (hgoes : commaGoes (rest.map Judged.first) = true) :
    commaGoes (keptFrom previous rest) = commaGoes (rest.map Judged.again) := by
  have hclosed {previous : Option Judged} {next : Judged} {back : List Judged}
      (hchained : Chained (next :: back)) (hblank : next.first.isBlank = false)
      (hgoes : commaGoes ((next :: back).map Judged.first) = true) :
      next.first.isClosing = true ∧
        commaGoes (keptFrom previous (next :: back)) =
          commaGoes ((next :: back).map Judged.again) := by
    rw [List.map_cons, commaGoes_solid hblank] at hgoes
    have hcomma : next.first ≠ .comma := by
      intro hequal
      rw [hequal] at hgoes
      cases hgoes
    have hagain := ((List.forall_mem_cons.1 hchained.sound).1.solid hblank hcomma).1
    rw [keptFrom_solid hblank hcomma, List.map_cons, commaGoes_solid hagain,
      commaGoes_solid hagain]
    exact ⟨hgoes, rfl⟩
  cases rest with
  | nil => cases hgoes
  | cons first rest =>
      cases hblank : first.first.isBlank with
      | false => exact (hclosed hchained hblank hgoes).2
      | true =>
          cases rest with
          | nil =>
              rw [List.map_cons, commaGoes_blank hblank] at hgoes
              cases hgoes
          | cons second rest =>
              rw [List.map_cons, commaGoes_blank hblank] at hgoes
              obtain ⟨hclosing, hsame⟩ :=
                @hclosed (some first) _ _ hchained.tail (hchained.next hblank) hgoes
              have hagain : first.again.isBlank = true := by
                rw [(List.forall_mem_cons.1 hchained.sound).1.same (.inl hblank)]
                exact hblank
              rw [keptFrom, kept_blank hblank, List.head?_cons, Option.map_some,
                blankStays_closing hclosing, if_neg Bool.false_ne_true, List.nil_append, hsame]
              exact (commaGoes_blank hagain _).symm

theorem commaGoes_keptFrom_solid {previous : Option Judged} {item : Judged}
    {rest : List Judged} (hchained : Chained (item :: rest))
    (hblank : item.first.isBlank = false) :
    commaGoes (keptFrom previous (item :: rest)) = commaGoesAgain (item :: rest) := by
  obtain ⟨first, again⟩ := item
  have hsolid (hcomma : first ≠ .comma) :
      commaGoes (keptFrom previous (⟨first, again⟩ :: rest)) =
        commaGoes (again :: rest.map Judged.again) := by
    have hagain := ((List.forall_mem_cons.1 hchained.sound).1.solid hblank hcomma).1
    dsimp only at hagain
    rw [keptFrom_solid hblank hcomma, commaGoes_solid hagain, commaGoes_solid hagain]
  cases first with
  | blank text => cases hblank
  | comma =>
      have hlater : commaGoesAgain (⟨.comma, again⟩ :: rest) =
          (commaGoes (rest.map Judged.first) && commaGoes (rest.map Judged.again)) := rfl
      rw [keptFrom, kept, hlater]
      cases hgoes : commaGoes (rest.map Judged.first) with
      | true =>
          rw [if_pos rfl, Bool.true_and, List.nil_append]
          exact commaGoes_keptFrom_of_goes hchained.tail hgoes
      | false =>
          rw [if_neg Bool.false_ne_true, Bool.false_and]
          rfl
  | letter character => exact hsolid (by simp)
  | sealed text => exact hsolid (by simp)
  | opening character => exact hsolid (by simp)
  | closing character => exact hsolid (by simp)

theorem commaGoes_keptFrom {previous : Option Judged} {rest : List Judged}
    (hchained : Chained rest) :
    commaGoes (keptFrom previous rest) = commaGoesAgain rest := by
  cases rest with
  | nil => rfl
  | cons first rest =>
      cases hblank : first.first.isBlank with
      | false => exact commaGoes_keptFrom_solid hchained hblank
      | true =>
          have hskipped : commaGoes (keptFrom previous (first :: rest)) =
              commaGoes (keptFrom (some first) rest) := by
            rw [keptFrom, kept_blank hblank]
            split_ifs
            · exact commaGoes_blank rfl _
            · rfl
          have hagain : commaGoesAgain (first :: rest) = commaGoesAgain rest := by
            have hdrop : (first :: rest).dropWhile (fun judged => judged.first.isBlank) =
                rest.dropWhile fun judged => judged.first.isBlank :=
              List.dropWhile_cons_of_pos hblank
            rw [commaGoesAgain, hdrop]
            rfl
          rw [hskipped, hagain]
          cases rest with
          | nil => rfl
          | cons second rest =>
              exact commaGoes_keptFrom_solid hchained.tail (hchained.next hblank)

/-- The next lexeme is a blank that stays. -/
def staysNext (previous : Option Judged) : List Judged → Bool
  | ⟨.blank _, _⟩ :: rest =>
      blankStays (previous.map Judged.first) (rest.head?.map Judged.first)
  | _ => false

theorem staysNext_solid {previous : Option Judged} {rest : List Judged}
    (hsolid : ∀ next ∈ rest.head?, next.first.isBlank = false) :
    staysNext previous rest = false := by
  cases rest with
  | nil => rfl
  | cons next rest =>
      have hnext := hsolid next rfl
      obtain ⟨first, again⟩ := next
      cases first with
      | blank text => cases hnext
      | letter character => rfl
      | sealed text => rfl
      | opening character => rfl
      | closing character => rfl
      | comma => rfl

theorem staysAgain_blank {previous : Option Judged} {item : Judged} {rest : List Judged}
    (hblank : item.first.isBlank = true) :
    StaysAgain previous item rest ↔
      (blankStays (previous.map Judged.first) (rest.head?.map Judged.first) = true →
        blankStays (previous.map Judged.again) (rest.head?.map Judged.again) = true) := by
  obtain ⟨first, again⟩ := item
  obtain ⟨text, rfl⟩ := Lexeme.eq_blank hblank
  exact Iff.rfl

theorem staysAgain_solid {previous : Option Judged} {item : Judged} {rest : List Judged}
    (hblank : item.first.isBlank = false) (hcomma : item.first ≠ .comma) :
    StaysAgain previous item rest := by
  obtain ⟨first, again⟩ := item
  cases first with
  | blank text => cases hblank
  | comma => exact absurd rfl hcomma
  | letter character => trivial
  | sealed text => trivial
  | opening character => trivial
  | closing character => trivial

/-- The lexeme behind a blank that stays is kept. -/
theorem head_keptFrom {previous before : Option Judged} {item : Judged} {rest : List Judged}
    (hchained : Chained (item :: rest)) (hblank : item.first.isBlank = true)
    (hstays : blankStays (before.map Judged.first) (rest.head?.map Judged.first) = true) :
    (keptFrom previous rest).head? = rest.head?.map Judged.again := by
  cases rest with
  | nil => rfl
  | cons next rest =>
      rw [List.head?_cons, Option.map_some, blankStays, Option.any_some, Bool.and_eq_true,
        Bool.not_eq_true', Bool.or_eq_false_iff] at hstays
      have hcomma : next.first ≠ .comma := of_decide_eq_false hstays.2.2
      rw [keptFrom_solid (hchained.next hblank) hcomma]
      rfl

/-- A blank behind a comma that goes is dropped. -/
theorem staysNext_of_goes {item : Judged} {rest : List Judged} (hchained : Chained rest)
    (hgoes : commaGoes (rest.map Judged.first) = true) :
    staysNext (some item) rest = false := by
  cases rest with
  | nil => rfl
  | cons next rest =>
      cases hblank : next.first.isBlank with
      | false =>
          apply staysNext_solid
          rintro other hother
          obtain rfl := Option.some.inj hother
          exact hblank
      | true =>
          rw [List.map_cons, commaGoes_blank hblank] at hgoes
          obtain ⟨first, again⟩ := next
          obtain ⟨text, rfl⟩ := Lexeme.eq_blank hblank
          rw [staysNext]
          cases rest with
          | nil => exact Bool.and_false _
          | cons second rest =>
              rw [List.map_cons, commaGoes_solid (hchained.next hblank)] at hgoes
              exact blankStays_closing hgoes

/-- What is kept is printed as it is exactly when it stays by the brackets as they are
judged again. -/
theorem fixed_keptFrom_iff {previous : Option Judged} {earlier : Option Lexeme}
    {judged : List Judged} (hchained : Chained judged)
    (hlinked : staysNext previous judged = true → earlier = previous.map Judged.again) :
    Throughout Fixed earlier (keptFrom previous judged) ↔
      Throughout StaysAgain previous judged := by
  induction judged generalizing previous earlier with
  | nil => exact iff_of_true (throughout_nil earlier) (throughout_nil previous)
  | cons item rest ih =>
      have hsound := hchained.sound item List.mem_cons_self
      have hunlinked {other : Option Lexeme} (hnext : staysNext (some item) rest = false) :
          Throughout Fixed other (keptFrom (some item) rest) ↔
            Throughout StaysAgain (some item) rest := by
        apply ih hchained.tail
        rw [hnext]
        exact fun hfalse => absurd hfalse Bool.false_ne_true
      rw [throughout_cons, keptFrom]
      cases hblank : item.first.isBlank with
      | true =>
          have hnext : staysNext (some item) rest = false := by
            apply staysNext_solid
            intro next hmem
            obtain ⟨later, rfl⟩ := List.head?_eq_some_iff.1 hmem
            exact hchained.next hblank
          rw [kept_blank hblank, staysAgain_blank hblank]
          cases hstays :
              blankStays (previous.map Judged.first) (rest.head?.map Judged.first) with
          | true =>
              have hearlier : earlier = previous.map Judged.again := by
                apply hlinked
                obtain ⟨first, again⟩ := item
                obtain ⟨text, rfl⟩ := Lexeme.eq_blank hblank
                exact hstays
              rw [if_pos rfl, List.singleton_append, throughout_cons, Fixed, image,
                head_keptFrom hchained hblank hstays, hearlier]
              apply and_congr _ (hunlinked hnext)
              cases blankStays (previous.map Judged.again) (rest.head?.map Judged.again) <;>
                simp [Lexeme.source]
          | false =>
              rw [if_neg Bool.false_ne_true, List.nil_append, hunlinked hnext]
              exact (and_iff_right fun hfalse => absurd hfalse Bool.false_ne_true).symm
      | false =>
          by_cases hcomma : item.first = .comma
          · have hagain : item.again = .comma := (hsound.same (.inr hcomma)).trans hcomma
            obtain ⟨first, again⟩ := item
            dsimp only at hcomma hagain
            subst hcomma hagain
            rw [kept]
            cases hgoes : commaGoes (rest.map Judged.first) with
            | true =>
                rw [if_pos rfl, List.nil_append,
                  hunlinked (staysNext_of_goes hchained.tail hgoes), StaysAgain, hgoes]
                exact (and_iff_right fun hfalse => absurd hfalse.symm Bool.false_ne_true).symm
            | false =>
                rw [if_neg Bool.false_ne_true, List.singleton_append, throughout_cons, Fixed,
                  image, commaGoes_keptFrom hchained.tail, StaysAgain, hgoes]
                apply and_congr _ (ih hchained.tail fun _ => rfl)
                cases commaGoesAgain rest <;> simp [Lexeme.source]
          · obtain ⟨hsolid, hother⟩ := hsound.solid hblank hcomma
            rw [kept_of_solid hblank hcomma, List.singleton_append, throughout_cons, Fixed,
              image_of_solid hsolid fun hequal => absurd hequal hother]
            exact and_congr (iff_of_true rfl (staysAgain_solid hblank hcomma))
              (ih hchained.tail fun _ => rfl)

theorem chained_judgedOf (text : List Char) : Chained (judgedOf alphanumeric text) := by
  have hlexes := lexes_lexemesOf alphanumeric text
  have hapart := hlexes.wellRead.apart
  rw [← @first_judgedFrom alphanumeric [] 0 (lexemesOf alphanumeric text),
    List.isChain_map] at hapart
  exact ⟨sound_judgedFrom hlexes.proper, hapart⟩

/-- The second pass reads what the first kept. -/
theorem lexemesOf_foldedFrom (text : List Char) :
    lexemesOf alphanumeric (foldedFrom none (lexemesOf alphanumeric text)) =
      keptFrom none (judgedOf alphanumeric text) := by
  have hlexes := lexes_lexemesOf alphanumeric text
  have hagain := @lexes_again alphanumeric [] _ text 0 0 none rfl hlexes.wellRead
    hlexes.proper hlexes
  exact (lexes_lexemesOf alphanumeric _).unique hagain

variable (alphanumeric)

/-- Folding a text twice is folding it once exactly when what stays the first time stays
by the brackets as they are judged again. -/
theorem folded_again_iff (text : String) :
    (∃ once, normalizeSignatureLayout alphanumeric text = some once ∧
      normalizeSignatureLayout alphanumeric once = some once) ↔
        Settled (judgedOf alphanumeric text.toList) := by
  have hlater :=
    lexes_lexemesOf alphanumeric (foldedFrom none (lexemesOf alphanumeric text.toList))
  have htext := hlater.sourceOf_eq
  have hfixed := @foldedFrom_eq_iff none _ hlater.wellRead.filled
  have hstays : Throughout Fixed none (keptFrom none (judgedOf alphanumeric text.toList)) ↔
      Settled (judgedOf alphanumeric text.toList) :=
    fixed_keptFrom_iff (chained_judgedOf text.toList) fun _ => rfl
  rw [htext, lexemesOf_foldedFrom, hstays] at hfixed
  rw [← hfixed, normalizeSignatureLayout_eq, ← lexemesOf_foldedFrom]
  constructor
  · rintro ⟨once, honce, htwice⟩
    obtain rfl := Option.some.inj honce
    rw [normalizeSignatureLayout_eq, String.toList_ofList] at htwice
    exact String.ofList_injective (Option.some.inj htwice)
  · intro hequal
    refine ⟨_, rfl, ?_⟩
    rw [normalizeSignatureLayout_eq, String.toList_ofList, hequal]

end Ktsense.Core.Layout
