import Ktsense.Core.LayoutPlaces
import Ktsense.Core.LayoutTwice

/-!
# Brackets that the folding changes

Whether an angle bracket opens or closes a list of types is told by the text around it, and
the folding changes that text in four ways.  A `<` behind `fun` may open a list only once
the white space before `fun` is one plain space, or no longer once that space is gone; a `<`
may come to stand before `=`, and a `>` behind `-`.
-/

namespace Ktsense.Core.Layout

open Ktsense.Foundation

def IsGap (gap : List Char) : Prop := ∀ space ∈ gap, isWhitespace space = true

variable (alphanumeric : Alphanumeric)

/-- Only white space follows an opening `[` or `<` in the text before. -/
def BehindBracket (before after : List Char) : Prop :=
  ∃ front letter gap, before = front ++ letter :: gap ∧ IsGap gap ∧
    OpensAt alphanumeric front letter (gap ++ after) ∧ letter ≠ '('

/-- Behind this text stands `fun`, and behind white space a `<`. -/
structure FunBehind (head gap after : List Char) : Prop where
  filled : gap ≠ []
  space : IsGap gap
  outside : Outside head ("fun".toList ++ gap ++ '<' :: after)

/-- The white space before `fun` becomes a plain space, or nothing at the start of the text
or behind a `(`. -/
def GainsFun (before after : List Char) : Prop :=
  after.head? ≠ some '=' ∧ ∃ head letter gap,
    before = head ++ [letter] ++ "fun".toList ++ gap ∧ FunBehind (head ++ [letter]) gap after ∧
      Outside head (letter :: ("fun".toList ++ gap ++ '<' :: after)) ∧
        isWhitespace letter = true ∧ letter ≠ ' ' ∧
          ¬BehindBracket alphanumeric (head ++ [letter]) ("fun".toList ++ gap ++ '<' :: after)

/-- The plain space before `fun` goes. -/
def LosesFun (before after : List Char) : Prop :=
  ∃ head gap, before = head ++ [' '] ++ "fun".toList ++ gap ∧
    FunBehind (head ++ [' ']) gap after ∧
      BehindBracket alphanumeric (head ++ [' ']) ("fun".toList ++ gap ++ '<' :: after)

/-- The white space between a `<` and `=` goes. -/
def MeetsEquals (after : List Char) : Prop :=
  ∃ gap rest, after = gap ++ '=' :: rest ∧ IsGap gap

/-- The white space and the comma between a `-` and a closing `>` go. -/
def MeetsDash (before after : List Char) : Prop :=
  ∃ front gap, before = front ++ '-' :: gap ∧ Outside front ('-' :: (gap ++ '>' :: after)) ∧
    (IsGap gap ∨ ∃ one two, gap = one ++ ',' :: two ∧ IsGap one ∧ IsGap two)

/-- A `<` opens a list of types in the folded text. -/
def OpensLater (before after : List Char) : Prop :=
  Outside before ('<' :: after) ∧
    (OpensAt alphanumeric before '<' after ∧ ¬LosesFun alphanumeric before after ∧
        ¬MeetsEquals after ∨
      GainsFun alphanumeric before after)

/-- A `>` may close one there. -/
def ClosesLater (before after : List Char) : Prop :=
  Outside before ('>' :: after) ∧ closesTypes before after = true ∧
    ¬(ClosesAt alphanumeric before '>' after ∧ MeetsDash before after)

open Classical in
noncomputable def lessOpensLater (before after : List Char) : Bool :=
  OpensLater alphanumeric before after

open Classical in
noncomputable def greaterClosesLater (before after : List Char) : Bool :=
  ClosesLater alphanumeric before after

/-- How many lists of types are open in the folded text. -/
noncomputable def typesOpenLater (before after : List Char) : ℕ :=
  typeDepth (lessOpensLater alphanumeric) (greaterClosesLater alphanumeric) [] 0 before after

def ClosesLaterAt (before : List Char) (letter : Char) (after : List Char) : Prop :=
  Outside before (letter :: after) ∧
    (letter = ')' ∨ letter = ']' ∨
      letter = '>' ∧ 0 < typesOpenLater alphanumeric before (letter :: after) ∧
        ClosesLater alphanumeric before after)

/-- What a second folding would change of what the first leaves. -/
structure FoldsOnce (text : List Char) : Prop where
  /-- Of two commas before a bracket that closes both times, the second goes first. -/
  commas : ∀ before gap after space letter rest,
    text = before ++ ',' :: (gap ++ ',' :: after) →
      Outside before (',' :: (gap ++ ',' :: after)) → IsGap gap →
        after = space ++ letter :: rest → IsGap space →
          ClosesAt alphanumeric (before ++ ',' :: (gap ++ ',' :: space)) letter rest →
            ¬ClosesLaterAt alphanumeric (before ++ ',' :: (gap ++ ',' :: space)) letter rest
  /-- White space that stays behind a `<` goes once that opens a list. -/
  opens : ∀ before gap letter rest, text = before ++ '<' :: (gap ++ letter :: rest) →
    GainsFun alphanumeric before (gap ++ letter :: rest) → gap ≠ [] → IsGap gap →
      isWhitespace letter = false →
        letter = ',' ∨ ClosesAt alphanumeric (before ++ '<' :: gap) letter rest
  /-- So does white space before a `>` that closes a list only then. -/
  closes : ∀ before run after, text = before ++ (run ++ '>' :: after) →
    RunAt before run ('>' :: after) →
      ClosesLaterAt alphanumeric (before ++ run) '>' after →
        before = [] ∨ EndsOpen alphanumeric before (run ++ '>' :: after) ∨
          ClosesAt alphanumeric (before ++ run) '>' after
  /-- And so does a comma before one. -/
  commasClosed : ∀ before gap after, text = before ++ ',' :: (gap ++ '>' :: after) →
    Outside before (',' :: (gap ++ '>' :: after)) → IsGap gap →
      ClosesLaterAt alphanumeric (before ++ ',' :: gap) '>' after →
        ClosesAt alphanumeric (before ++ ',' :: gap) '>' after

variable {alphanumeric}

/-! ## Lexemes next to each other -/

theorem sourceOf_letter {lexeme : Lexeme} {letter : Char} (hsource : lexeme.source = [letter])
    (back : List Lexeme) : sourceOf (lexeme :: back) = letter :: sourceOf back := by
  rw [sourceOf_cons, hsource]
  rfl

section Next

variable {text : List Char} {front back : List Lexeme} {lexeme : Lexeme}

/-- The next lexeme is what is read next. -/
theorem next_of_split (hsplit : lexemesOf alphanumeric text = front ++ lexeme :: back)
    {first : Char} {rest : List Char} (hback : sourceOf back = first :: rest) :
    ∃ right, back = readAt alphanumeric (sourceOf front ++ lexeme.source) first rest :: right ∧
      sourceOf (readAt alphanumeric (sourceOf front ++ lexeme.source) first rest :: right) =
        first :: rest := by
  cases back with
  | nil => cases hback
  | cons next right =>
      rw [List.append_cons] at hsplit
      obtain ⟨other, later, hsource, -, hread⟩ := readAt_of_split hsplit
      obtain ⟨rfl, rfl⟩ := List.cons.inj (hback.symm.trans hsource)
      have hsingle : sourceOf [lexeme] = lexeme.source := List.flatMap_singleton _ _
      rw [sourceOf_append, hsingle] at hread
      rw [hread]
      exact ⟨right, rfl, hback⟩

theorem readAt_letter {letter : Char} (hletter : letter ∈ "fun-".toList)
    (before rest : List Char) : readAt alphanumeric before letter rest = .letter letter := by
  have hcases : letter = 'f' ∨ letter = 'u' ∨ letter = 'n' ∨ letter = '-' := by
    simpa using hletter
  rcases hcases with rfl | rfl | rfl | rfl <;> simp [readAt, read, isWhitespace]

/-- A letter of `fun` is followed by the next lexeme. -/
theorem letter_of_split (hsplit : lexemesOf alphanumeric text = front ++ lexeme :: back)
    {letter : Char} {rest : List Char} (hback : sourceOf back = letter :: rest)
    (hletter : letter ∈ "fun-".toList) :
    ∃ right, back = .letter letter :: right ∧ sourceOf right = rest := by
  obtain ⟨right, hright, hsource⟩ := next_of_split hsplit hback
  rw [readAt_letter hletter] at hright hsource
  exact ⟨right, hright, (List.cons.inj hsource).2⟩

theorem takeWhile_gap {gap rest : List Char} {letter : Char} (hgap : IsGap gap)
    (hletter : isWhitespace letter = false) :
    (gap ++ letter :: rest).takeWhile isWhitespace = gap := by
  rw [List.takeWhile_append_of_pos hgap, List.takeWhile_cons_of_neg
    (Bool.eq_false_iff.1 hletter), List.append_nil]

/-- White space is followed by the next lexeme. -/
theorem gap_of_split (hsplit : lexemesOf alphanumeric text = front ++ lexeme :: back)
    {gap rest : List Char} {letter : Char} (hback : sourceOf back = gap ++ letter :: rest)
    (hfilled : gap ≠ []) (hgap : IsGap gap) (hletter : isWhitespace letter = false) :
    ∃ right, back = .blank gap :: right ∧ sourceOf right = letter :: rest := by
  obtain ⟨first, others, rfl⟩ := List.exists_cons_of_ne_nil hfilled
  obtain ⟨hfirst, hothers⟩ := List.forall_mem_cons.1 hgap
  have hnext : sourceOf back = first :: (others ++ letter :: rest) := hback
  obtain ⟨right, hright, hsource⟩ := next_of_split hsplit hnext
  have hread : readAt alphanumeric (sourceOf front ++ lexeme.source) first
      (others ++ letter :: rest) = .blank (first :: others) := by
    rw [readAt, blank_read hfirst, takeWhile_gap hothers hletter]
  rw [hread] at hright hsource
  exact ⟨right, hright, List.append_cancel_left (List.cons.inj hsource).2⟩

/-- In the lexemes of a text white space is in one piece. -/
theorem blanks_short {blanks : List Lexeme}
    (hsplit : lexemesOf alphanumeric text = front ++ (blanks ++ back))
    (hblanks : ∀ item ∈ blanks, item.isBlank = true) :
    blanks = [] ∨ ∃ run, blanks = [.blank run] := by
  have hread := (lexes_lexemesOf alphanumeric text).wellRead
  rw [hsplit] at hread
  have hapart := hread.back.front.apart
  cases blanks with
  | nil => exact .inl rfl
  | cons first blanks =>
      obtain ⟨hfirst, hrest⟩ := List.forall_mem_cons.1 hblanks
      obtain ⟨run, rfl⟩ := Lexeme.eq_blank hfirst
      cases blanks with
      | nil => exact .inr ⟨run, rfl⟩
      | cons second blanks =>
          have hpair := (List.isChain_cons_cons.1 hapart).1
          exact absurd ⟨rfl, hrest second List.mem_cons_self⟩ hpair

theorem isGap_blanks {blanks : List Lexeme}
    (hsplit : lexemesOf alphanumeric text = front ++ (blanks ++ back))
    (hblanks : ∀ item ∈ blanks, item.isBlank = true) : IsGap (sourceOf blanks) := by
  intro space hspace
  obtain ⟨item, hitem, hmem⟩ := List.mem_flatMap.1 hspace
  have hproper := (lexes_lexemesOf alphanumeric text).proper item (by rw [hsplit]; simp [hitem])
  obtain ⟨run, rfl⟩ := Lexeme.eq_blank (hblanks item hitem)
  exact hproper.2 space hmem

/-- The lexemes of `fun` and of the white space behind it. -/
def funBlank (gap : List Char) : List Lexeme :=
  [.letter 'f', .letter 'u', .letter 'n', .blank gap]

theorem append_funBlank (left : List Lexeme) (gap : List Char) :
    left ++ funBlank gap =
      left ++ [Lexeme.letter 'f'] ++ [Lexeme.letter 'u'] ++ [Lexeme.letter 'n'] ++
        [Lexeme.blank gap] := by
  rw [funBlank, List.append_cons, List.append_cons _ (Lexeme.letter 'u'),
    List.append_cons _ (Lexeme.letter 'n')]

theorem sourceOf_funBlank (left : List Lexeme) (gap : List Char) :
    sourceOf (left ++ funBlank gap) = sourceOf left ++ "fun".toList ++ gap := by
  have hsource : sourceOf (funBlank gap) = "fun".toList ++ (gap ++ []) := rfl
  rw [sourceOf_append, hsource, List.append_nil, List.append_assoc]

theorem fun_split (hsplit : lexemesOf alphanumeric text = front ++ lexeme :: back)
    (hless : lexeme.source = ['<']) {head gap : List Char}
    (hfront : sourceOf front = head ++ "fun".toList ++ gap)
    (hfun : FunBehind head gap (sourceOf back)) :
    ∃ left, front = left ++ funBlank gap ∧ sourceOf left = head := by
  have htext : text = head ++ 'f' :: ('u' :: 'n' :: (gap ++ '<' :: sourceOf back)) := by
    rw [text_of_split hsplit, hfront, hless]
    simp
  have hplace : Outside head ('f' :: ('u' :: 'n' :: (gap ++ '<' :: sourceOf back))) := by
    simpa using hfun.outside
  obtain ⟨left, right, hf, hleft, hright⟩ :=
    @exists_split_solid alphanumeric text _ _ _ htext hplace (by decide)
  rw [readAt_letter (by decide)] at hf hright
  obtain ⟨right, rfl, hu⟩ := letter_of_split hf (List.cons.inj hright).2 (by decide)
  rw [List.append_cons] at hf
  obtain ⟨right, rfl, hn⟩ := letter_of_split hf hu (by decide)
  rw [List.append_cons] at hf
  obtain ⟨right, rfl, hgap⟩ := gap_of_split hf hn hfun.filled hfun.space (by decide)
  rw [List.append_cons] at hf
  obtain ⟨later, rfl, -⟩ := next_of_split hf hgap
  rw [List.append_cons] at hf
  rw [← append_funBlank] at hf
  have hsource : sourceOf (left ++ funBlank gap) = sourceOf front := by
    rw [sourceOf_funBlank, hleft, hfront]
  obtain ⟨hfront', -, -⟩ := split_unique hsplit hf hsource
  exact ⟨left, hfront'.symm, hleft⟩

end Next

/-! ## What the text before tells -/

/-- A `<` behind this text opens a list, unless it stands before `=`. -/
def LetsOpen (alphanumeric : Alphanumeric) (before : List Char) : Prop :=
  opensTypes alphanumeric before [] = true

def EndsFun (text : List Char) : Prop :=
  text = "fun".toList ∨ " fun".toList <:+ text ∨ "(fun".toList <:+ text

theorem opensTypes_iff {before after : List Char} :
    opensTypes alphanumeric before after = true ↔
      LetsOpen alphanumeric before ∧ after.head? ≠ some '=' := by
  have hnil : ([] : List Char).head? ≠ some '=' := by simp
  rw [LetsOpen, opensTypes, opensTypes, if_neg hnil]
  split_ifs with hequals
  · exact iff_of_false not_false fun hboth => hboth.2 hequals
  · exact (and_iff_left hequals).symm

theorem not_letsOpen_nil : ¬LetsOpen alphanumeric [] := by
  rw [LetsOpen, opensTypes]
  simp

theorem letsOpen_solid {before : List Char} {last : Char} (hlast : before.getLast? = some last)
    (hsolid : isWhitespace last = false) :
    LetsOpen alphanumeric before ↔
      (alphanumeric.test last || ['_', '?', '>', ')'].contains last) = true := by
  rw [LetsOpen, opensTypes, if_neg (by simp), hlast]
  simp only [hsolid, Bool.false_eq_true, if_false]
  split_ifs with hname
  · exact iff_of_true rfl hname
  · exact iff_of_false not_false hname

theorem rdropWhile_gap {gap : List Char} (hgap : IsGap gap) (before : List Char) :
    (before ++ gap).rdropWhile isWhitespace = before.rdropWhile isWhitespace := by
  have hreverse : ∀ space ∈ gap.reverse, isWhitespace space = true :=
    fun space hspace => hgap space (List.mem_reverse.1 hspace)
  rw [List.rdropWhile, List.rdropWhile, List.reverse_append,
    List.dropWhile_append_of_pos hreverse]

theorem letsOpen_gap {gap : List Char} (hfilled : gap ≠ []) (hgap : IsGap gap)
    (before : List Char) :
    LetsOpen alphanumeric (before ++ gap) ↔ EndsFun (before.rdropWhile isWhitespace) := by
  obtain ⟨last, hlast⟩ := Option.ne_none_iff_exists'.1 (mt List.getLast?_eq_none_iff.1 hfilled)
  have hspace := hgap last (List.mem_of_getLast? hlast)
  have hname : (alphanumeric.test last || ['_', '?', '>', ')'].contains last) = false := by
    rw [alphanumeric.space last hspace, Bool.false_or, List.contains_eq_any_beq,
      List.any_eq_false]
    intro letter hletter hequal
    obtain rfl := beq_iff_eq.1 hequal
    have hclosing : last = '_' ∨ last = '?' ∨ last = '>' ∨ last = ')' := by
      simpa using hletter
    rcases hclosing with rfl | rfl | rfl | rfl <;> exact absurd hspace (by decide)
  rw [LetsOpen, opensTypes, if_neg (by simp), List.getLast?_append_of_ne_nil _ hfilled, hlast]
  simp only [hname, hspace, if_true, Bool.false_eq_true, if_false, rdropWhile_gap hgap,
    Bool.or_eq_true, beq_iff_eq, List.isSuffixOf_iff_suffix, or_assoc]
  exact Iff.rfl

theorem rdropWhile_solid {before : List Char} {last : Char} (hlast : before.getLast? = some last)
    (hsolid : isWhitespace last = false) : before.rdropWhile isWhitespace = before := by
  obtain ⟨front, rfl⟩ := List.getLast?_eq_some_iff.1 hlast
  exact List.rdropWhile_concat_neg _ _ _ (Bool.eq_false_iff.1 hsolid)

theorem EndsFun.suffix {text : List Char} (hends : EndsFun text) : "fun".toList <:+ text := by
  rcases hends with rfl | hspaced | hbracketed
  · exact List.suffix_rfl
  · exact (List.suffix_cons ' ' _).trans hspaced
  · exact (List.suffix_cons '(' _).trans hbracketed

/-- The text before `fun` is none, or ends in a plain space or in a `(`. -/
def IsSpaced (head : List Char) : Prop :=
  head = [] ∨ head.getLast? = some ' ' ∨ head.getLast? = some '('

theorem endsFun_append (head : List Char) :
    EndsFun (head ++ "fun".toList) ↔ IsSpaced head := by
  have hsuffix (letter : Char) :
      letter :: "fun".toList <:+ head ++ "fun".toList ↔ head.getLast? = some letter := by
    rw [List.getLast?_eq_some_iff]
    constructor
    · rintro ⟨front, hfront⟩
      rw [List.append_cons] at hfront
      exact ⟨front, (List.append_cancel_right hfront).symm⟩
    · rintro ⟨front, rfl⟩
      exact ⟨front, by simp⟩
  exact or_congr List.append_left_eq_self (or_congr (hsuffix ' ') (hsuffix '('))

/-! ## White space collapsed -/

theorem collapsed_solid {lexeme : Lexeme} (hblank : lexeme.isBlank = false)
    (previous : Option Lexeme) : collapsed previous lexeme = lexeme.source := by
  cases lexeme with
  | blank run => cases hblank
  | letter character => rfl
  | sealed inner => rfl
  | opening character => rfl
  | closing character => rfl
  | comma => rfl

theorem collapsedFrom_solid {last : Lexeme} (hblank : last.isBlank = false)
    (front : List Lexeme) :
    collapsedFrom none (front ++ [last]) = collapsedFrom none front ++ last.source := by
  rw [collapsedFrom_concat, collapsed_solid hblank]

theorem collapsedFrom_blank (front : List Lexeme) (run : List Char) :
    collapsedFrom none (front ++ [.blank run]) =
      collapsedFrom none front ++
        if front.getLast?.any fun last => !last.isOpening then [' '] else [] := by
  rw [collapsedFrom_concat, Option.or_none, collapsed]

theorem sourceOf_concat (front : List Lexeme) (last : Lexeme) :
    sourceOf (front ++ [last]) = sourceOf front ++ last.source := by
  rw [sourceOf_append, sourceOf_cons]
  exact congrArg _ (List.append_nil _)

/-- A lexeme that is no blank is one letter, or begins a string or a comment. -/
theorem single_or_sealed {lexeme : Lexeme} (hproper : lexeme.Proper)
    (hblank : lexeme.isBlank = false) :
    (∃ letter, lexeme.source = [letter] ∧ isWhitespace letter = false) ∨
      ∃ first inner, lexeme.source = first :: inner ∧ (first = '"' ∨ first = '/') := by
  obtain ⟨first, inner, hsource, hfirst⟩ := head_of_proper hproper hblank
  cases lexeme with
  | blank run => cases hblank
  | sealed text =>
      obtain ⟨quote, hquote, hkind⟩ := hproper
      rw [Lexeme.source] at hsource
      rw [hsource] at hquote
      obtain rfl := Option.some.inj hquote
      exact .inr ⟨first, inner, hsource, hkind⟩
  | letter character =>
      obtain ⟨rfl, rfl⟩ := List.cons.inj hsource
      exact .inl ⟨character, rfl, hfirst⟩
  | opening character =>
      obtain ⟨rfl, rfl⟩ := List.cons.inj hsource
      exact .inl ⟨character, rfl, hfirst⟩
  | closing character =>
      obtain ⟨rfl, rfl⟩ := List.cons.inj hsource
      exact .inl ⟨character, rfl, hfirst⟩
  | comma => exact .inl ⟨',', rfl, by decide⟩

/-- Such a letter is neither white space nor an opening bracket. -/
def IsSolid (letter : Char) : Prop := isWhitespace letter = false ∧ letter ∉ ['(', '[', '<']

/-- Behind collapsed white space stands the letter that stood there, if it is solid. -/
theorem getLast?_collapsedFrom {front : List Lexeme} {letter : Char}
    (hproper : ∀ lexeme ∈ front, lexeme.Proper) (hsolid : IsSolid letter) :
    (collapsedFrom none front).getLast? = some letter ↔
      (sourceOf front).getLast? = some letter := by
  cases front using List.reverseRecOn with
  | nil => exact Iff.rfl
  | append_singleton front last =>
      have hlast := hproper last (by simp)
      cases hblank : last.isBlank with
      | false =>
          obtain ⟨first, inner, hsource, -⟩ := head_of_proper hlast hblank
          have hfilled : last.source ≠ [] := by
            rw [hsource]
            exact List.cons_ne_nil _ _
          rw [collapsedFrom_solid hblank, sourceOf_concat,
            List.getLast?_append_of_ne_nil _ hfilled, List.getLast?_append_of_ne_nil _ hfilled]
      | true =>
          obtain ⟨run, rfl⟩ := Lexeme.eq_blank hblank
          rw [collapsedFrom_blank, sourceOf_concat, Lexeme.source,
            List.getLast?_append_of_ne_nil _ hlast.1]
          apply iff_of_false
          · cases front using List.reverseRecOn with
            | nil => exact fun hequal => absurd hequal (by simp [collapsedFrom])
            | append_singleton front other =>
                rw [List.getLast?_concat, Option.any_some]
                cases hopening : other.isOpening with
                | false =>
                    rw [Bool.not_false, if_pos rfl, List.getLast?_concat]
                    intro hequal
                    obtain rfl := Option.some.inj hequal
                    exact absurd hsolid.1 (by decide)
                | true =>
                    have hother : other.Proper := hproper other (by simp)
                    cases other with
                    | opening bracket =>
                        rw [Bool.not_true, if_neg Bool.false_ne_true, List.append_nil,
                          collapsedFrom_solid rfl, Lexeme.source, List.getLast?_concat]
                        intro hequal
                        obtain rfl := Option.some.inj hequal
                        exact hsolid.2 hother
                    | _ => cases hopening
          · intro hequal
            have hspace := hlast.2 letter (List.mem_of_getLast? hequal)
            rw [hsolid.1] at hspace
            cases hspace

/-- Strings and comments begin with these. -/
def BeginsSealed (letter : Char) : Prop := letter = '"' ∨ letter = '/'

theorem not_suffix_of_last {word text : List Char} {last : Char}
    (hlast : text.getLast? ≠ some last) : ¬word ++ [last] <:+ text := by
  rintro ⟨front, rfl⟩
  rw [← List.append_assoc, List.getLast?_concat] at hlast
  exact hlast rfl

theorem concat_suffix_concat {word text : List Char} {last : Char} :
    word ++ [last] <:+ text ++ [last] ↔ word <:+ text := by
  constructor
  · rintro ⟨front, hfront⟩
    rw [← List.append_assoc] at hfront
    exact ⟨front, List.append_cancel_right hfront⟩
  · rintro ⟨front, rfl⟩
    exact ⟨front, (List.append_assoc _ _ _).symm⟩

theorem isSolid_fun {letter : Char} (hletter : letter ∈ "fun".toList) : IsSolid letter := by
  have hcases : letter = 'f' ∨ letter = 'u' ∨ letter = 'n' := by simpa using hletter
  rcases hcases with rfl | rfl | rfl <;> exact ⟨by decide, by decide⟩

/-- The end of `fun` ends the lexemes, or both texts end alike, or it ends neither. -/
theorem ends_word {front : List Lexeme} {word : List Char}
    (hproper : ∀ lexeme ∈ front, lexeme.Proper)
    (hword : ∀ letter ∈ word, letter ∈ "fun".toList) :
    (∃ left, front = left ++ word.map .letter) ∨
      Meets BeginsSealed (collapsedFrom none front) (sourceOf front) ∨
        ¬word <:+ collapsedFrom none front ∧ ¬word <:+ sourceOf front := by
  induction word using List.reverseRecOn generalizing front with
  | nil => exact .inl ⟨front, (List.append_nil front).symm⟩
  | append_singleton word final ih =>
      have hfinal := hword final (by simp)
      have hsolid := isSolid_fun hfinal
      have hneither (hlast : (sourceOf front).getLast? ≠ some final) :
          ¬word ++ [final] <:+ collapsedFrom none front ∧ ¬word ++ [final] <:+ sourceOf front :=
        ⟨not_suffix_of_last (mt (getLast?_collapsedFrom hproper hsolid).1 hlast),
          not_suffix_of_last hlast⟩
      cases front using List.reverseRecOn with
      | nil => exact .inr (.inr (hneither (by simp [sourceOf])))
      | append_singleton front last =>
          have hlast := hproper last (by simp)
          rw [sourceOf_concat] at hneither ⊢
          cases last with
          | letter character =>
              rw [collapsedFrom_solid rfl, Lexeme.source] at hneither ⊢
              by_cases hsame : character = final
              · subst hsame
                rw [concat_suffix_concat, concat_suffix_concat]
                have hfront : ∀ lexeme ∈ front, lexeme.Proper :=
                  fun lexeme hmem => hproper lexeme (List.mem_append_left _ hmem)
                rcases ih hfront fun letter hmem => hword letter (List.mem_append_left _ hmem) with
                  ⟨left, rfl⟩ | hmeets | hboth
                · exact .inl ⟨left, by simp⟩
                · exact .inr (.inl (hmeets.append _))
                · exact .inr (.inr hboth)
              · refine .inr (.inr (hneither ?_))
                rw [List.getLast?_concat]
                exact fun hequal => hsame (Option.some.inj hequal)
          | sealed text =>
              obtain ⟨quote, hquote, hkind⟩ := hlast
              obtain ⟨inner, rfl⟩ := List.head?_eq_some_iff.1 hquote
              rw [collapsedFrom_solid rfl]
              exact .inr (.inl (Meets.behind _ _ inner hkind))
          | opening bracket =>
              refine .inr (.inr (hneither ?_))
              rw [Lexeme.source, List.getLast?_concat]
              intro hequal
              obtain rfl := Option.some.inj hequal
              exact hsolid.2 hlast
          | closing bracket =>
              refine .inr (.inr (hneither ?_))
              rw [Lexeme.source, List.getLast?_concat]
              intro hequal
              obtain rfl := Option.some.inj hequal
              have hmem : bracket ∈ [')', ']', '>'] := hlast
              have hcases : bracket = ')' ∨ bracket = ']' ∨ bracket = '>' := by simpa using hmem
              rcases hcases with rfl | rfl | rfl <;> exact absurd hfinal (by decide)
          | comma =>
              refine .inr (.inr (hneither ?_))
              rw [Lexeme.source, List.getLast?_concat]
              intro hequal
              obtain rfl := Option.some.inj hequal
              exact absurd hfinal (by decide)
          | blank run =>
              refine .inr (.inr (hneither ?_))
              rw [Lexeme.source, List.getLast?_append_of_ne_nil _ hlast.1]
              intro hequal
              have hspace := hlast.2 final (List.mem_of_getLast? hequal)
              rw [hsolid.1] at hspace
              cases hspace

theorem beginsSealed_solid {letter : Char} (hquote : BeginsSealed letter) :
    isWhitespace letter = false := by
  rcases hquote with rfl | rfl <;> decide

theorem not_beginsSealed {letter : Char} (hletter : letter ∈ " (fun".toList) :
    ¬BeginsSealed letter := by
  rintro (rfl | rfl) <;> exact absurd hletter (by decide)

theorem letsOpen_congr {before other : List Char} (hmeets : Meets BeginsSealed before other) :
    LetsOpen alphanumeric before ↔ LetsOpen alphanumeric other := by
  rw [LetsOpen, LetsOpen, opensTypes_congr (fun _ => beginsSealed_solid)
    (fun _ => not_beginsSealed) hmeets Iff.rfl]

theorem endsFun_congr {text other : List Char} (hmeets : Meets BeginsSealed text other) :
    EndsFun text ↔ EndsFun other := by
  have hword {word : List Char} (hletters : ∀ letter ∈ word, letter ∈ " (fun".toList) :
      ∀ letter ∈ word, ¬BeginsSealed letter :=
    fun letter hletter => not_beginsSealed (hletters letter hletter)
  exact or_congr (hmeets.eq_iff (hword (by simp)))
    (or_congr (hmeets.suffix_iff (hword (by simp))) (hmeets.suffix_iff (hword (by simp))))

/-- Behind a bracket that opens no list of types opens, whatever white space stands between. -/
theorem not_letsOpen_opening {bracket : Char} (hbracket : bracket ∈ ['(', '[', '<'])
    {gap : List Char} (hgap : IsGap gap) (before : List Char) :
    ¬LetsOpen alphanumeric (before ++ [bracket] ++ gap) := by
  have hcases : bracket = '(' ∨ bracket = '[' ∨ bracket = '<' := by simpa using hbracket
  have hsolid : isWhitespace bracket = false := by
    rcases hcases with rfl | rfl | rfl <;> decide
  by_cases hfilled : gap = []
  · subst hfilled
    rw [List.append_nil, letsOpen_solid List.getLast?_concat hsolid]
    rcases hcases with rfl | rfl | rfl <;>
      rw [alphanumeric.ascii _ (by decide)] <;> decide
  · rw [letsOpen_gap hfilled hgap, rdropWhile_solid List.getLast?_concat hsolid]
    intro hends
    refine not_suffix_of_last ?_ (show "fu".toList ++ ['n'] <:+ _ from hends.suffix)
    rw [List.getLast?_concat]
    intro hequal
    obtain rfl := Option.some.inj hequal
    exact absurd hbracket (by decide)

/-- Behind white space the collapsed text lets a `<` open a list where the text does, unless
`fun` stands before it. -/
theorem fun_or_same_gap {front : List Lexeme} {other : Lexeme} {gap : List Char}
    (hproper : ∀ lexeme ∈ front ++ [other], lexeme.Proper) (hsolid : other.isBlank = false)
    (hfilled : gap ≠ []) (hgap : IsGap gap) :
    (∃ left, front ++ [other] ++ [Lexeme.blank gap] = left ++ funBlank gap) ∨
      (LetsOpen alphanumeric (collapsedFrom none (front ++ [other] ++ [Lexeme.blank gap])) ↔
        LetsOpen alphanumeric (sourceOf (front ++ [other]) ++ gap)) := by
  have hother := hproper other (by simp)
  rw [collapsedFrom_blank, List.getLast?_concat, Option.any_some]
  by_cases hopening : other.isOpening = true
  · cases other with
    | opening bracket =>
        apply Or.inr
        rw [hopening, collapsedFrom_solid rfl, sourceOf_concat]
        exact iff_of_false
          (not_letsOpen_opening hother (fun _ hmem => absurd hmem List.not_mem_nil) _)
          (not_letsOpen_opening hother hgap _)
    | _ => cases hopening
  · rw [Bool.eq_false_iff.2 hopening, Bool.not_false, if_pos rfl,
      letsOpen_gap (List.cons_ne_nil ' ' []) (List.forall_mem_singleton.2 (by decide)),
      letsOpen_gap hfilled hgap]
    rcases single_or_sealed hother hsolid with
      ⟨letter, hletter, hspace⟩ | ⟨quote, inner, hquote, hkind⟩
    · have hwhole (text : List Char) :
          (text ++ [letter]).rdropWhile isWhitespace = text ++ [letter] :=
        rdropWhile_solid List.getLast?_concat hspace
      rcases @ends_word (front ++ [other]) "fun".toList hproper (fun _ hmem => hmem) with
        ⟨left, hleft⟩ | hmeets | ⟨hcollapsed, hsource⟩
      · rw [hleft]
        exact .inl ⟨left, List.append_assoc _ _ _⟩
      · exact .inr (endsFun_congr (hmeets.rdropWhile fun _ => beginsSealed_solid))
      · rw [collapsedFrom_solid hsolid, hletter] at hcollapsed ⊢
        rw [sourceOf_concat, hletter] at hsource ⊢
        rw [hwhole, hwhole]
        exact .inr (iff_of_false (fun hends => hcollapsed hends.suffix)
          fun hends => hsource hends.suffix)
    · rw [collapsedFrom_solid hsolid, sourceOf_concat, hquote]
      have hmeets : Meets BeginsSealed (collapsedFrom none front ++ quote :: inner)
          (sourceOf front ++ quote :: inner) :=
        Meets.behind _ _ inner hkind
      exact .inr (endsFun_congr (hmeets.rdropWhile fun _ => beginsSealed_solid))

/-- Only behind `fun` and white space the collapsed text tells something else. -/
theorem fun_or_same {front : List Lexeme} (hread : WellRead front)
    (hproper : ∀ lexeme ∈ front, lexeme.Proper) :
    (∃ left gap, front = left ++ funBlank gap) ∨
      (LetsOpen alphanumeric (collapsedFrom none front) ↔
        LetsOpen alphanumeric (sourceOf front)) := by
  cases front using List.reverseRecOn with
  | nil => exact .inr Iff.rfl
  | append_singleton front last =>
      have hlast := hproper last (by simp)
      have hfront : ∀ lexeme ∈ front, lexeme.Proper :=
        fun lexeme hmem => hproper lexeme (List.mem_append_left _ hmem)
      cases hblank : last.isBlank with
      | false =>
          apply Or.inr
          rw [collapsedFrom_solid hblank, sourceOf_concat]
          rcases single_or_sealed hlast hblank with
            ⟨letter, hletter, hsolid⟩ | ⟨quote, inner, hquote, hkind⟩
          · rw [hletter, letsOpen_solid List.getLast?_concat hsolid,
              letsOpen_solid List.getLast?_concat hsolid]
          · rw [hquote]
            exact letsOpen_congr (Meets.behind _ _ inner hkind)
      | true =>
          obtain ⟨gap, rfl⟩ := Lexeme.eq_blank hblank
          rw [sourceOf_concat, Lexeme.source]
          cases front using List.reverseRecOn with
          | nil =>
              rw [collapsedFrom_blank]
              refine .inr (iff_of_false not_letsOpen_nil ?_)
              rw [letsOpen_gap hlast.1 hlast.2]
              exact fun hends => absurd hends.suffix (by decide)
          | append_singleton front other =>
              have hsolid : other.isBlank = false := by
                have hapart := (List.isChain_append.1 hread.apart).2.2 other
                  List.getLast?_concat (.blank gap) rfl
                exact Bool.eq_false_iff.2 fun hother => hapart ⟨hother, rfl⟩
              rcases @fun_or_same_gap alphanumeric _ _ _ hfront hsolid hlast.1 hlast.2 with
                ⟨left, hleft⟩ | hsame
              · exact .inl ⟨left, gap, hleft⟩
              · exact .inr hsame

/-! ## `fun` gained and lost -/

/-- No `[` and no `<` that opens a list of types ends the lexemes. -/
def KeepsSpace (front : List Lexeme) : Prop :=
  ∀ bracket, front.getLast? = some (.opening bracket) → bracket = '('

section Gained

variable {text : List Char} {front back : List Lexeme} {lexeme : Lexeme}

theorem behindBracket_split (hsplit : lexemesOf alphanumeric text = front ++ lexeme :: back)
    (hbehind : BehindBracket alphanumeric (sourceOf front) (sourceOf (lexeme :: back))) :
    (∃ left bracket, front = left ++ [.opening bracket]) ∨
      ∃ left run, front = left ++ [.blank run] ∧ ¬KeepsSpace left := by
  obtain ⟨head, bracket, gap, hbefore, hgap, hopens, hround⟩ := hbehind
  have htext : text = head ++ bracket :: (gap ++ sourceOf (lexeme :: back)) := by
    rw [text_of_split hsplit, ← sourceOf_cons, hbefore, List.append_assoc]
    rfl
  obtain ⟨left, right, hother, hleft, -⟩ := exists_opening htext hopens
  have hlonger : sourceOf front = sourceOf left ++ ((Lexeme.opening bracket).source ++ gap) := by
    rw [hbefore, hleft]
    rfl
  obtain ⟨between, rfl, hright, hbetween⟩ := split_longer hother hsplit hlonger
  rw [hright, List.append_cons] at hother
  rw [← hbetween] at hgap
  rcases blanks_short hother (isBlank_of_space hother hgap) with rfl | ⟨run, rfl⟩
  · exact .inl ⟨left, bracket, rfl⟩
  · exact .inr ⟨left ++ [.opening bracket], run, List.append_cons left _ _,
      fun hkeeps => hround (hkeeps bracket List.getLast?_concat)⟩

theorem behindBracket_iff {run : List Char}
    (hsplit : lexemesOf alphanumeric text = front ++ .blank run :: lexeme :: back) :
    BehindBracket alphanumeric (sourceOf (front ++ [.blank run])) (sourceOf (lexeme :: back)) ↔
      ¬KeepsSpace front := by
  constructor
  · intro hbehind
    rw [List.append_cons] at hsplit
    rcases behindBracket_split hsplit hbehind with
      ⟨left, bracket, hleft⟩ | ⟨left, other, hleft, hkeeps⟩
    · cases (List.append_inj' hleft rfl).2
    · rwa [(List.append_inj' hleft rfl).1]
  · intro hkeeps
    obtain ⟨bracket, hbracket⟩ := Classical.not_forall.1 hkeeps
    obtain ⟨hlast, hround⟩ := Classical.not_imp.1 hbracket
    obtain ⟨head, rfl⟩ := List.getLast?_eq_some_iff.1 hlast
    have hrun := runAt_of_split hsplit
    rw [List.append_assoc, List.singleton_append] at hsplit
    have hopens := (opensAt_iff hsplit rfl).2 rfl
    rw [sourceOf_cons (.blank run)] at hopens
    refine ⟨sourceOf head, bracket, run, ?_, hrun.space, hopens, hround⟩
    rw [sourceOf_concat, sourceOf_concat, List.append_assoc]
    rfl

/-- The last letter of a blank is white space outside strings and comments, and only that
is. -/
theorem last_blank {head rest : List Char} {letter : Char}
    (hsplit : lexemesOf alphanumeric text = front ++ lexeme :: back)
    (hfront : sourceOf front = head ++ [letter]) (hrest : sourceOf (lexeme :: back) = rest)
    (houtside : Outside head (letter :: rest)) (hspace : isWhitespace letter = true) :
    ∃ left run, front = left ++ [.blank (run ++ [letter])] ∧ head = sourceOf left ++ run := by
  cases front using List.reverseRecOn with
  | nil => exact absurd hfront (by simp [sourceOf])
  | append_singleton left last =>
      rw [List.append_assoc] at hsplit
      obtain ⟨first, inner, hinner, hblank⟩ := begins_of_split hsplit
      rw [sourceOf_concat, hinner] at hfront
      obtain ⟨begun, ended, hended⟩ : ∃ begun ended, first :: inner = begun ++ [ended] :=
        ⟨_, _, (List.dropLast_append_getLast (List.cons_ne_nil first inner)).symm⟩
      rw [hended, ← List.append_assoc] at hfront
      obtain ⟨hhead, hletter⟩ := List.append_inj' hfront rfl
      obtain rfl : ended = letter := (List.cons.inj hletter).1
      by_cases hspaced : last.isBlank = true
      · obtain ⟨run, rfl⟩ := Lexeme.eq_blank hspaced
        rw [Lexeme.source, hended] at hinner
        exact ⟨left, begun, by rw [hinner], hhead.symm⟩
      · cases begun with
        | nil =>
            rw [← (List.cons.inj hended).1] at hspace
            exact absurd (hblank.2 hspace) hspaced
        | cons other begun =>
            rw [hended] at hinner
            refine absurd ?_ (not_outside_of_split hsplit (Bool.eq_false_iff.2 hspaced) hinner
              (List.cons_ne_nil other begun))
            rw [hhead, ← hrest] at *
            exact houtside

theorem sourceOf_behindFun (hless : lexeme.source = ['<']) (gap : List Char) :
    sourceOf (funBlank gap ++ lexeme :: back) = "fun".toList ++ gap ++ '<' :: sourceOf back := by
  rw [sourceOf_append, sourceOf_cons, hless]
  simp [sourceOf, funBlank, Lexeme.source]

theorem funBehind_of_split {left : List Lexeme} {gap : List Char}
    (hsplit : lexemesOf alphanumeric text = left ++ funBlank gap ++ lexeme :: back)
    (hless : lexeme.source = ['<']) : FunBehind (sourceOf left) gap (sourceOf back) := by
  have hfun : lexemesOf alphanumeric text =
      left ++ Lexeme.letter 'f' ::
        (.letter 'u' :: .letter 'n' :: .blank gap :: lexeme :: back) := by
    rw [hsplit, List.append_assoc]
    rfl
  rw [append_funBlank, ← List.append_cons] at hsplit
  have hrun := runAt_of_split hsplit
  obtain ⟨houtside, -⟩ := readAt_of_letter hfun rfl
  have hwhole : 'f' :: sourceOf (.letter 'u' :: .letter 'n' :: .blank gap :: lexeme :: back) =
      "fun".toList ++ gap ++ '<' :: sourceOf back := sourceOf_behindFun hless gap
  rw [hwhole] at houtside
  exact ⟨hrun.filled, hrun.space, houtside⟩

theorem split_funBlank {left : List Lexeme} {run gap : List Char}
    (hsplit : lexemesOf alphanumeric text =
      left ++ [Lexeme.blank run] ++ funBlank gap ++ lexeme :: back) :
    lexemesOf alphanumeric text =
      left ++ Lexeme.blank run :: Lexeme.letter 'f' ::
        ([Lexeme.letter 'u', Lexeme.letter 'n', Lexeme.blank gap] ++ lexeme :: back) := by
  rw [hsplit, List.append_assoc, List.append_assoc]
  rfl

theorem sourceOf_concat_blank (left : List Lexeme) (run : List Char) (letter : Char) :
    sourceOf (left ++ [Lexeme.blank (run ++ [letter])]) = sourceOf left ++ run ++ [letter] := by
  rw [sourceOf_concat, Lexeme.source, List.append_assoc]

theorem losesFun_iff (hsplit : lexemesOf alphanumeric text = front ++ lexeme :: back)
    (hless : lexeme.source = ['<']) :
    LosesFun alphanumeric (sourceOf front) (sourceOf back) ↔
      ∃ left run gap, front = left ++ [Lexeme.blank (run ++ [' '])] ++ funBlank gap ∧
        ¬KeepsSpace left := by
  have hrest := @sourceOf_behindFun back lexeme hless
  constructor
  · rintro ⟨head, gap, hbefore, hfun, hbehind⟩
    obtain ⟨left, rfl, hleft⟩ := fun_split hsplit hless hbefore hfun
    rw [← hleft, ← hrest] at hbehind
    rw [List.append_assoc] at hsplit
    rcases behindBracket_split hsplit hbehind with
      ⟨others, bracket, rfl⟩ | ⟨others, run, rfl, hkeeps⟩
    · have hproper := (lexes_lexemesOf alphanumeric text).proper (.opening bracket)
        (by rw [hsplit]; simp)
      rw [sourceOf_concat] at hleft
      obtain rfl : bracket = ' ' := (List.cons.inj (List.append_inj' hleft rfl).2).1
      exact absurd (show ' ' ∈ ['(', '[', '<'] from hproper) (by decide)
    · have hrun := (lexes_lexemesOf alphanumeric text).proper (.blank run)
        (by rw [hsplit]; simp)
      have hlast := congrArg List.getLast? hleft
      rw [sourceOf_concat, Lexeme.source, List.getLast?_append_of_ne_nil _ hrun.1,
        List.getLast?_concat] at hlast
      obtain ⟨begun, rfl⟩ := List.getLast?_eq_some_iff.1 hlast
      exact ⟨others, begun, gap, rfl, hkeeps⟩
  · rintro ⟨left, run, gap, rfl, hkeeps⟩
    have hfun := funBehind_of_split hsplit hless
    have hbehind := (behindBracket_iff (split_funBlank hsplit)).2 hkeeps
    rw [sourceOf_concat_blank] at hfun hbehind
    refine ⟨sourceOf left ++ run, gap, ?_, hfun, ?_⟩
    · rw [sourceOf_funBlank, sourceOf_concat_blank]
    · rw [← hrest]
      exact hbehind

theorem gainsFun_iff (hsplit : lexemesOf alphanumeric text = front ++ lexeme :: back)
    (hless : lexeme.source = ['<']) :
    GainsFun alphanumeric (sourceOf front) (sourceOf back) ↔
      (sourceOf back).head? ≠ some '=' ∧ ∃ left run letter gap,
        front = left ++ [Lexeme.blank (run ++ [letter])] ++ funBlank gap ∧ letter ≠ ' ' ∧
          KeepsSpace left := by
  have hrest := @sourceOf_behindFun back lexeme hless
  apply and_congr Iff.rfl
  constructor
  · rintro ⟨head, letter, gap, hbefore, hfun, houtside, hspace, hplain, hkeeps⟩
    obtain ⟨left, rfl, hleft⟩ := fun_split hsplit hless hbefore hfun
    rw [List.append_assoc] at hsplit
    obtain ⟨others, run, rfl, -⟩ := last_blank hsplit hleft (hrest gap) houtside hspace
    refine ⟨others, run, letter, gap, rfl, hplain, ?_⟩
    rw [← List.append_assoc] at hsplit
    by_contra hbracket
    have hbehind := (behindBracket_iff (split_funBlank hsplit)).2 hbracket
    rw [hleft] at hbehind
    rw [← hrest] at hkeeps
    exact hkeeps hbehind
  · rintro ⟨left, run, letter, gap, rfl, hplain, hkeeps⟩
    have hfun := funBehind_of_split hsplit hless
    have hbehind := mt (behindBracket_iff (split_funBlank hsplit)).1 (not_not.2 hkeeps)
    have hrun := runAt_of_split (split_funBlank hsplit)
    rw [sourceOf_concat_blank] at hfun hbehind
    refine ⟨sourceOf left ++ run, letter, gap, ?_, hfun, ?_, hrun.space letter (by simp), hplain,
      ?_⟩
    · rw [sourceOf_funBlank, sourceOf_concat_blank]
    · have houtside : Outside (sourceOf left) (run ++ [letter] ++
          ("fun".toList ++ gap ++ '<' :: sourceOf back)) := hrest gap ▸ hrun.outside
      rw [List.append_assoc, List.singleton_append] at houtside
      exact outside_space houtside fun space hmem => hrun.space space (by simp [hmem])
    · rw [← hrest]
      exact hbehind

theorem letsOpen_fun {gap : List Char} (hfilled : gap ≠ []) (hgap : IsGap gap)
    (head : List Char) :
    LetsOpen alphanumeric (head ++ "fun".toList ++ gap) ↔ IsSpaced head := by
  have hlast : (head ++ "fun".toList).getLast? = some 'n' :=
    List.getLast?_append_of_ne_nil _ (by simp)
  rw [letsOpen_gap hfilled hgap, rdropWhile_solid hlast (by decide), endsFun_append]

theorem collapsedFrom_funBlank (left : List Lexeme) (gap : List Char) :
    collapsedFrom none (left ++ funBlank gap) =
      collapsedFrom none left ++ "fun".toList ++ [' '] := by
  rw [append_funBlank, collapsedFrom_blank, collapsedFrom_solid rfl, collapsedFrom_solid rfl,
    collapsedFrom_solid rfl, List.getLast?_concat]
  simp [Lexeme.source, Lexeme.isOpening]

theorem isSpaced_concat (head : List Char) (letter : Char) :
    IsSpaced (head ++ [letter]) ↔ letter = ' ' ∨ letter = '(' := by
  rw [IsSpaced, List.getLast?_concat, Option.some_inj, Option.some_inj]
  exact or_iff_right (by simp)

theorem isSpaced_blank {run : List Char} {letter : Char} (hspace : isWhitespace letter = true)
    (left : List Lexeme) :
    IsSpaced (sourceOf (left ++ [Lexeme.blank (run ++ [letter])])) ↔ letter = ' ' := by
  rw [sourceOf_concat_blank, isSpaced_concat]
  apply or_iff_left
  rintro rfl
  exact absurd hspace (by decide)

theorem isSpaced_collapsed {left : List Lexeme} (hproper : ∀ other ∈ left, other.Proper)
    (run : List Char) :
    IsSpaced (collapsedFrom none (left ++ [.blank run])) ↔ KeepsSpace left := by
  rw [collapsedFrom_blank]
  cases left using List.reverseRecOn with
  | nil => exact iff_of_true (.inl rfl) fun bracket hbracket => by cases hbracket
  | append_singleton left last =>
      rw [KeepsSpace, List.getLast?_concat, Option.any_some]
      cases hopening : last.isOpening with
      | false =>
          rw [Bool.not_false, if_pos rfl, isSpaced_concat]
          refine iff_of_true (.inl rfl) fun bracket hbracket => ?_
          rw [Option.some.inj hbracket] at hopening
          cases hopening
      | true =>
          have hlast : last.Proper := hproper last (by simp)
          cases last with
          | opening bracket =>
              rw [Bool.not_true, if_neg Bool.false_ne_true, List.append_nil,
                collapsedFrom_solid rfl, Lexeme.source, isSpaced_concat]
              have hmem : bracket ∈ ['(', '[', '<'] := hlast
              constructor
              · rintro (rfl | rfl) other hother
                · exact absurd hmem (by decide)
                · cases hother
                  rfl
              · exact fun hkeeps => .inr (hkeeps bracket rfl)
          | _ => cases hopening

theorem isSpaced_solid {last : Lexeme} (hblank : last.isBlank = false)
    (hfilled : last.source ≠ []) (left : List Lexeme) :
    IsSpaced (collapsedFrom none (left ++ [last])) ↔ IsSpaced (sourceOf (left ++ [last])) := by
  have hnil (text : List Char) : text ++ last.source ≠ [] :=
    fun happend => hfilled (List.append_eq_nil_iff.1 happend).2
  rw [collapsedFrom_solid hblank, sourceOf_concat, IsSpaced, IsSpaced,
    List.getLast?_append_of_ne_nil _ hfilled, List.getLast?_append_of_ne_nil _ hfilled]
  exact or_congr (iff_of_false (hnil _) (hnil _)) Iff.rfl

theorem blank_concat_inj {left other : List Lexeme} {run inner : List Char} {letter ending : Char}
    (hsame : left ++ [Lexeme.blank (run ++ [letter])] =
      other ++ [Lexeme.blank (inner ++ [ending])]) :
    left = other ∧ letter = ending := by
  obtain ⟨rfl, hblanks⟩ := List.append_inj' hsame rfl
  have hruns := Lexeme.blank.inj (List.cons.inj hblanks).1
  exact ⟨rfl, (List.cons.inj (List.append_inj' hruns rfl).2).1⟩

/-- What is printed before a word is a space or a parenthesis where the text has one, but for
white space of which nothing is printed and white space that is printed as a space. -/
theorem isSpaced_collapsed_iff {left : List Lexeme} (hproper : ∀ other ∈ left, other.Proper)
    (hread : ∀ other ∈ left, other.source ≠ []) :
    IsSpaced (collapsedFrom none left) ↔
      IsSpaced (sourceOf left) ∧
          (¬∃ others run,
            left = others ++ [Lexeme.blank (run ++ [' '])] ∧ ¬KeepsSpace others) ∨
        ∃ others run letter, left = others ++ [Lexeme.blank (run ++ [letter])] ∧ letter ≠ ' ' ∧
          KeepsSpace others := by
  cases left using List.reverseRecOn with
  | nil =>
      refine iff_of_true (.inl rfl) (.inl ⟨.inl rfl, ?_⟩)
      rintro ⟨others, run, hshape, -⟩
      exact absurd hshape (by simp)
  | append_singleton left last =>
      cases hblank : last.isBlank with
      | false =>
          have hlast (run : List Char) (others : List Lexeme) :
              left ++ [last] ≠ others ++ [.blank run] := by
            intro hshape
            rw [(List.cons.inj (List.append_inj' hshape rfl).2).1] at hblank
            cases hblank
          rw [isSpaced_solid hblank (hread last (by simp))]
          constructor
          · intro hspaced
            refine .inl ⟨hspaced, ?_⟩
            rintro ⟨others, run, hshape, -⟩
            exact hlast _ _ hshape
          · rintro (⟨hspaced, -⟩ | ⟨others, run, letter, hshape, -⟩)
            · exact hspaced
            · exact absurd hshape (hlast _ _)
      | true =>
          obtain ⟨run, rfl⟩ := Lexeme.eq_blank hblank
          have hrun : run ≠ [] ∧ IsGap run := hproper (.blank run) (by simp)
          obtain ⟨begun, letter, rfl⟩ : ∃ begun letter, run = begun ++ [letter] :=
            ⟨_, _, (List.dropLast_append_getLast hrun.1).symm⟩
          rw [isSpaced_blank (hrun.2 letter (by simp)),
            isSpaced_collapsed fun other hmem => hproper other (List.mem_append_left _ hmem)]
          constructor
          · intro hkeeps
            by_cases hplain : letter = ' '
            · refine .inl ⟨hplain, ?_⟩
              rintro ⟨others, inner, hshape, hnone⟩
              exact hnone ((blank_concat_inj hshape).1 ▸ hkeeps)
            · exact .inr ⟨left, begun, letter, rfl, hplain, hkeeps⟩
          · rintro (⟨rfl, hloses⟩ | ⟨others, inner, ending, hshape, -, hkeeps⟩)
            · by_contra hkeeps
              exact hloses ⟨left, begun, rfl, hkeeps⟩
            · rwa [(blank_concat_inj hshape).1]

theorem funBlank_inj {left other : List Lexeme} {gap space : List Char}
    (hsame : left ++ funBlank gap = other ++ funBlank space) : left = other :=
  (List.append_inj' hsame rfl).1

/-- The collapsed text lets a `<` open a list where the text does, but for `fun`. -/
theorem letsOpen_collapsed (hsplit : lexemesOf alphanumeric text = front ++ lexeme :: back)
    (hless : lexeme.source = ['<']) (hnext : (sourceOf back).head? ≠ some '=') :
    LetsOpen alphanumeric (collapsedFrom none front) ↔
      LetsOpen alphanumeric (sourceOf front) ∧
          ¬LosesFun alphanumeric (sourceOf front) (sourceOf back) ∨
        GainsFun alphanumeric (sourceOf front) (sourceOf back) := by
  have hlexes := lexes_lexemesOf alphanumeric text
  have hread := hlexes.wellRead
  have hproper := hlexes.proper
  rw [hsplit] at hread hproper
  have hfront : ∀ other ∈ front, other.Proper :=
    fun other hmem => hproper other (List.mem_append_left _ hmem)
  rw [losesFun_iff hsplit hless, gainsFun_iff hsplit hless, and_iff_right hnext]
  by_cases hfun : ∃ left gap, front = left ++ funBlank gap
  · obtain ⟨left, gap, rfl⟩ := hfun
    have hgap : gap ≠ [] ∧ IsGap gap := hfront (.blank gap) (by simp [funBlank])
    have hleft : ∀ other ∈ left, other.Proper :=
      fun other hmem => hfront other (List.mem_append_left _ hmem)
    rw [collapsedFrom_funBlank, sourceOf_funBlank, letsOpen_fun hgap.1 hgap.2,
      letsOpen_fun (List.cons_ne_nil ' ' []) (List.forall_mem_singleton.2 (by decide)),
      isSpaced_collapsed_iff hleft fun other hmem => hread.filled other (by simp [hmem])]
    have hloses : (∃ others run space, left ++ funBlank gap =
        others ++ [Lexeme.blank (run ++ [' '])] ++ funBlank space ∧ ¬KeepsSpace others) ↔
          ∃ others run, left = others ++ [Lexeme.blank (run ++ [' '])] ∧ ¬KeepsSpace others := by
      constructor
      · rintro ⟨others, run, space, hshape, hnone⟩
        exact ⟨others, run, funBlank_inj hshape, hnone⟩
      · rintro ⟨others, run, rfl, hnone⟩
        exact ⟨others, run, gap, rfl, hnone⟩
    have hgains : (∃ others run letter space, left ++ funBlank gap =
        others ++ [Lexeme.blank (run ++ [letter])] ++ funBlank space ∧ letter ≠ ' ' ∧
          KeepsSpace others) ↔
        ∃ others run letter, left = others ++ [Lexeme.blank (run ++ [letter])] ∧ letter ≠ ' ' ∧
          KeepsSpace others := by
      constructor
      · rintro ⟨others, run, letter, space, hshape, hkeeps⟩
        exact ⟨others, run, letter, funBlank_inj hshape, hkeeps⟩
      · rintro ⟨others, run, letter, rfl, hkeeps⟩
        exact ⟨others, run, letter, gap, rfl, hkeeps⟩
    rw [hloses, hgains]
  · rw [(fun_or_same hread.front hfront).resolve_left hfun]
    constructor
    · intro hopen
      refine .inl ⟨hopen, ?_⟩
      rintro ⟨left, run, gap, rfl, -⟩
      exact hfun ⟨_, gap, rfl⟩
    · rintro (⟨hopen, -⟩ | ⟨left, run, letter, gap, rfl, -⟩)
      · exact hopen
      · exact absurd ⟨_, gap, rfl⟩ hfun

/-- What gains `fun` did not open before. -/
theorem not_letsOpen_of_gainsFun
    (hsplit : lexemesOf alphanumeric text = front ++ lexeme :: back)
    (hless : lexeme.source = ['<'])
    (hgains : GainsFun alphanumeric (sourceOf front) (sourceOf back)) :
    ¬LetsOpen alphanumeric (sourceOf front) := by
  obtain ⟨-, left, run, letter, gap, rfl, hplain, -⟩ := (gainsFun_iff hsplit hless).1 hgains
  have hproper := (lexes_lexemesOf alphanumeric text).proper
  rw [hsplit] at hproper
  have hgap : gap ≠ [] ∧ IsGap gap := hproper (.blank gap) (by simp [funBlank])
  have hrun : run ++ [letter] ≠ [] ∧ IsGap (run ++ [letter]) :=
    hproper (.blank (run ++ [letter])) (by simp)
  rw [sourceOf_funBlank, letsOpen_fun hgap.1 hgap.2, isSpaced_blank (hrun.2 letter (by simp))]
  exact hplain

end Gained

end Ktsense.Core.Layout
