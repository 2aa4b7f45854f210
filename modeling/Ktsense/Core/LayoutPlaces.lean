import Ktsense.Core.LayoutFold

/-!
# Places of a text

Read flatly, a string runs to the next quote that no backslash escapes, whatever its
templates hold, and a character literal is unknown.  A place outside such strings and
outside comments is a bracket, a comma or white space by the characters around it alone.
-/

namespace Ktsense.Core.Layout

open Ktsense.Foundation

/-! ## Flat reading -/

/-- The length of the string or comment that a letter begins, or one. -/
def flatLength (first : Char) (rest : List Char) : ℕ :=
  if first = '"' then (stringTail rest).length + 1
  else if first = '/' ∧ rest.head? = some '/' then (lineTail rest.tail).length + 2
  else if first = '/' ∧ rest.head? = some '*' then (blockTail rest.tail).length + 2
  else 1

/-- How much of a string or comment is left behind a front of the text. -/
def pending (left : ℕ) : List Char → List Char → ℕ
  | [], _ => left
  | first :: before, after =>
      pending (if left = 0 then flatLength first (before ++ after) - 1 else left - 1) before after

/-- Between these two texts stands no string and no comment. -/
def Outside (before after : List Char) : Prop := pending 0 before after = 0

instance (before after : List Char) : Decidable (Outside before after) :=
  inferInstanceAs (Decidable (pending 0 before after = 0))

/-- How many lists of types are open behind a front of the text, by these two tests of what
stands before and behind an angle bracket. -/
def typeDepth (opens closes : List Char → List Char → Bool) (seen : List Char) (depth : ℕ) :
    List Char → List Char → ℕ
  | [], _ => depth
  | letter :: before, after =>
      let next :=
        if letter = '<' ∧ opens seen (before ++ after) then depth + 1
        else if letter = '>' ∧ closes seen (before ++ after) then depth - 1
        else depth
      typeDepth opens closes (seen ++ [letter]) next before after

variable (alphanumeric : Alphanumeric)

/-- A `<` between these texts opens a list of types. -/
def lessOpens (before after : List Char) : Bool :=
  Outside before ('<' :: after) && opensTypes alphanumeric before after

/-- A `>` between these texts may close one. -/
def greaterCloses (before after : List Char) : Bool :=
  Outside before ('>' :: after) && closesTypes before after

def typesOpen (before after : List Char) : ℕ :=
  typeDepth (lessOpens alphanumeric) greaterCloses [] 0 before after

/-- An opening bracket stands between these texts. -/
def OpensAt (before : List Char) (letter : Char) (after : List Char) : Prop :=
  Outside before (letter :: after) ∧
    (letter = '(' ∨ letter = '[' ∨ letter = '<' ∧ opensTypes alphanumeric before after = true)

def ClosesAt (before : List Char) (letter : Char) (after : List Char) : Prop :=
  Outside before (letter :: after) ∧
    (letter = ')' ∨ letter = ']' ∨
      letter = '>' ∧ 0 < typesOpen alphanumeric before (letter :: after) ∧
        closesTypes before after = true)

/-- A run of white space, all of it, stands between these texts. -/
structure RunAt (before run after : List Char) : Prop where
  filled : run ≠ []
  space : ∀ letter ∈ run, isWhitespace letter = true
  outside : Outside before (run ++ after)
  begins : ∀ front letter, before = front ++ [letter] → Outside front (letter :: run ++ after) →
    isWhitespace letter = false
  ends : ∀ letter ∈ after.head?, isWhitespace letter = false

/-- The text before ends in an opening bracket. -/
def EndsOpen (before after : List Char) : Prop :=
  ∃ front letter, before = front ++ [letter] ∧ OpensAt alphanumeric front letter after

/-- White space, and then a bracket that closes. -/
def ClosesNext (before after : List Char) : Prop :=
  ∃ gap letter back, after = gap ++ letter :: back ∧
    (∀ space ∈ gap, isWhitespace space = true) ∧
      ClosesAt alphanumeric (before ++ gap) letter back

/-! ## Reading in parts -/

theorem pending_append (left : ℕ) (front before after : List Char) :
    pending left (front ++ before) after =
      pending (pending left front (before ++ after)) before after := by
  induction front generalizing left with
  | nil => rfl
  | cons first front ih => rw [List.cons_append, pending, pending, ih, List.append_assoc]

/-- Inside a string or a comment each letter is one less. -/
theorem pending_inside {left : ℕ} {inner : List Char} (hleft : inner.length ≤ left)
    (after : List Char) : pending left inner after = left - inner.length := by
  induction inner generalizing left with
  | nil => rfl
  | cons first inner ih =>
      rw [List.length_cons] at hleft
      rw [pending, if_neg (by omega), ih (by omega), List.length_cons]
      omega

theorem outside_append {before front after : List Char}
    (houtside : Outside before (front ++ after)) :
    Outside (before ++ front) after ↔ pending 0 front after = 0 := by
  rw [Outside, pending_append, houtside]

theorem typeDepth_append (opens closes : List Char → List Char → Bool) (seen : List Char)
    (depth : ℕ) (front before after : List Char) :
    typeDepth opens closes seen depth (front ++ before) after =
      typeDepth opens closes (seen ++ front)
        (typeDepth opens closes seen depth front (before ++ after)) before after := by
  induction front generalizing seen depth with
  | nil => rw [List.append_nil]; rfl
  | cons letter front ih =>
      rw [List.cons_append, typeDepth, typeDepth, ih, List.append_assoc, List.append_assoc]
      rfl

theorem typeDepth_still {opens closes : List Char → List Char → Bool} {seen : List Char}
    {depth : ℕ} {inner after : List Char}
    (hstill : ∀ front letter back, inner = front ++ letter :: back →
      ¬(letter = '<' ∧ opens (seen ++ front) (back ++ after) = true) ∧
        ¬(letter = '>' ∧ closes (seen ++ front) (back ++ after) = true)) :
    typeDepth opens closes seen depth inner after = depth := by
  induction inner generalizing seen with
  | nil => rfl
  | cons letter inner ih =>
      have hletter := hstill [] letter inner rfl
      rw [List.append_nil] at hletter
      rw [typeDepth, if_neg hletter.1, if_neg hletter.2]
      apply ih
      intro front other back hinner
      rw [List.append_assoc]
      exact hstill (letter :: front) other back (by rw [hinner]; rfl)

/-! ## One lexeme -/

section Step

variable {alphanumeric} {before rest after : List Char} {first : Char} {depth next : ℕ}

theorem length_source_read (hspace : isWhitespace first = false) :
    (read alphanumeric before depth first rest).1.source.length = flatLength first rest := by
  rw [read, flatLength]
  by_cases hquote : first = '"'
  · rw [if_pos hquote, if_pos hquote]
    rfl
  rw [if_neg hquote, if_neg hquote]
  by_cases hline : first = '/' ∧ rest.head? = some '/'
  · rw [if_pos hline, if_pos hline]
    rfl
  rw [if_neg hline, if_neg hline]
  by_cases hblock : first = '/' ∧ rest.head? = some '*'
  · rw [if_pos hblock, if_pos hblock]
    rfl
  rw [if_neg hblock, if_neg hblock, hspace, if_neg Bool.false_ne_true]
  repeat' split
  all_goals rfl

theorem flatLength_space (hspace : isWhitespace first = true) (rest : List Char) :
    flatLength first rest = 1 := by
  have hplain (letter : Char) (hletter : isWhitespace letter = false) : first ≠ letter := by
    rintro rfl
    rw [hletter] at hspace
    cases hspace
  have hslash : first ≠ '/' := hplain '/' (by decide)
  rw [flatLength, if_neg (hplain '"' (by decide)), if_neg fun hline => hslash hline.1,
    if_neg fun hblock => hslash hblock.1]

/-- White space is read in its place. -/
theorem pending_space {run : List Char} (hspace : ∀ letter ∈ run, isWhitespace letter = true)
    (after : List Char) : pending 0 run after = 0 := by
  induction run with
  | nil => rfl
  | cons letter run ih =>
      obtain ⟨hletter, hrun⟩ := List.forall_mem_cons.1 hspace
      rw [pending, if_pos rfl, flatLength_space hletter]
      exact ih hrun

theorem outside_space {run : List Char} (houtside : Outside before (run ++ after))
    (hspace : ∀ letter ∈ run, isWhitespace letter = true) : Outside (before ++ run) after :=
  (outside_append houtside).2 (pending_space hspace after)

/-- Behind a letter that nothing long begins with, and white space. -/
theorem outside_letter_space {letter : Char} {run : List Char}
    (houtside : Outside before (letter :: (run ++ after)))
    (hflat : flatLength letter (run ++ after) = 1)
    (hspace : ∀ space ∈ run, isWhitespace space = true) :
    Outside (before ++ letter :: run) after := by
  have hshape : letter :: (run ++ after) = (letter :: run) ++ after := rfl
  rw [hshape] at houtside
  rw [outside_append houtside, pending, if_pos rfl, hflat]
  exact pending_space hspace after

/-- A string or a comment is read to the end of its lexeme. -/
theorem pending_source {inner front back : List Char} (hspace : isWhitespace first = false)
    (hsource : (read alphanumeric before depth first rest).1.source = first :: inner)
    (hrest : rest = inner ++ after) (hinner : inner = front ++ back) :
    pending 0 (first :: front) (back ++ after) = back.length := by
  have hlength := @length_source_read alphanumeric before rest first depth hspace
  have hshape : front ++ (back ++ after) = rest := by
    rw [hrest, hinner, List.append_assoc]
  rw [hsource, List.length_cons, hinner, List.length_append] at hlength
  rw [pending, if_pos rfl, hshape, ← hlength, pending_inside (by omega)]
  omega

variable {lexeme : Lexeme}

theorem source_begins (hlexeme : (read alphanumeric before depth first rest).1 = lexeme) :
    ∃ inner, lexeme.source = first :: inner := by
  have hstart := source_read_start alphanumeric before depth first rest
  have hpos := length_source_read_pos alphanumeric before depth first rest
  rw [hlexeme] at hstart hpos
  obtain ⟨other, inner, hother⟩ := List.exists_cons_of_length_pos hpos
  rw [hother] at hstart
  exact ⟨inner, by rw [hother, (List.cons_prefix_cons.1 hstart).1]⟩

/-- A lexeme that begins in white space is white space. -/
theorem space_source (hlexeme : (read alphanumeric before depth first rest).1 = lexeme)
    (hspace : isWhitespace first = true) :
    ∀ letter ∈ lexeme.source, isWhitespace letter = true := by
  rw [blank_read hspace] at hlexeme
  rw [← hlexeme]
  intro letter hletter
  rcases List.mem_cons.1 hletter with rfl | hletter
  · exact hspace
  · exact List.mem_takeWhile_imp hletter

/-- Behind a lexeme no string and no comment is open. -/
theorem outside_source (houtside : Outside before (first :: rest))
    (hlexeme : (read alphanumeric before depth first rest).1 = lexeme)
    (hsource : first :: rest = lexeme.source ++ after) :
    Outside (before ++ lexeme.source) after := by
  rw [hsource] at houtside
  rw [outside_append houtside]
  cases hspace : isWhitespace first with
  | true => exact pending_space (space_source hlexeme hspace) after
  | false =>
      obtain ⟨inner, hinner⟩ := source_begins hlexeme
      rw [hinner] at hsource
      have hrest := (List.cons.inj hsource).2
      have hread := hinner
      rw [← hlexeme] at hread
      rw [hinner]
      exact @pending_source alphanumeric before rest after first depth inner inner [] hspace hread
        hrest (List.append_nil inner).symm

/-- Inside a lexeme that is no white space every place is in a string or a comment. -/
theorem not_outside_inside {inner front back : List Char} {letter : Char}
    (houtside : Outside before (first :: rest)) (hspace : isWhitespace first = false)
    (hsource : (read alphanumeric before depth first rest).1.source = first :: inner)
    (hrest : rest = inner ++ after) (hinner : inner = front ++ letter :: back) :
    ¬Outside (before ++ first :: front) (letter :: (back ++ after)) := by
  have hshape : first :: rest = first :: front ++ letter :: (back ++ after) := by
    rw [hrest, hinner, List.append_assoc]
    rfl
  have hpending := pending_source hspace hsource hrest hinner
  rw [hshape] at houtside
  rw [outside_append houtside, ← List.cons_append, hpending, List.length_cons]
  omega

theorem read_less (before after : List Char) (depth : ℕ) :
    read alphanumeric before depth '<' after =
      if opensTypes alphanumeric before after then (.opening '<', depth + 1)
      else (.letter '<', depth) := by
  simp [read, isWhitespace]

theorem read_greater (before after : List Char) (depth : ℕ) :
    read alphanumeric before depth '>' after =
      if 0 < depth ∧ closesTypes before after then (.closing '>', depth - 1)
      else (.letter '>', depth) := by
  simp [read, isWhitespace]

theorem lessOpens_outside (houtside : Outside before ('<' :: rest)) :
    lessOpens alphanumeric before rest = opensTypes alphanumeric before rest := by
  rw [lessOpens, decide_eq_true houtside, Bool.true_and]

theorem greaterCloses_outside (houtside : Outside before ('>' :: rest)) :
    greaterCloses before rest = closesTypes before rest := by
  rw [greaterCloses, decide_eq_true houtside, Bool.true_and]

theorem depth_read (houtside : Outside before (first :: rest)) :
    (read alphanumeric before depth first rest).2 =
      if first = '<' ∧ lessOpens alphanumeric before rest then depth + 1
      else if first = '>' ∧ greaterCloses before rest then depth - 1
      else depth := by
  by_cases hless : first = '<'
  · subst hless
    rw [read_less, lessOpens_outside houtside]
    cases opensTypes alphanumeric before rest <;> simp
  by_cases hgreater : first = '>'
  · subst hgreater
    rw [read_greater, greaterCloses_outside houtside]
    cases closesTypes before rest with
    | false => simp
    | true =>
        rcases Nat.eq_zero_or_pos depth with rfl | hdepth
        · simp
        · simp [hdepth]
  · rw [if_neg fun hopens => hless hopens.1, if_neg fun hcloses => hgreater hcloses.1]
    exact read_cases (motive := fun result => result.2 = depth) alphanumeric before depth first
      rest (fun _ => rfl) (fun _ _ => rfl) (fun _ _ => rfl) (fun _ => rfl) (fun _ _ => rfl)
      (fun _ hangle => absurd hangle hless) (fun _ _ => rfl)
      (fun _ hangle => absurd hangle hgreater) (fun _ _ => rfl) (fun _ _ => rfl)

/-- The depth behind a lexeme is the one that the tokenizer counts. -/
theorem typeDepth_source (houtside : Outside before (first :: rest))
    (hlexeme : read alphanumeric before depth first rest = (lexeme, next))
    (hsource : first :: rest = lexeme.source ++ after) :
    typeDepth (lessOpens alphanumeric) greaterCloses before depth lexeme.source after = next := by
  have hfirst : (read alphanumeric before depth first rest).1 = lexeme := congrArg Prod.fst hlexeme
  have hnext : (read alphanumeric before depth first rest).2 = next := congrArg Prod.snd hlexeme
  cases hspace : isWhitespace first with
  | true =>
      rw [blank_read hspace] at hnext
      rw [← hnext]
      apply typeDepth_still
      intro front letter back hinner
      have hletter := space_source hfirst hspace letter (by rw [hinner]; simp)
      constructor
      · rintro ⟨rfl, -⟩
        exact absurd hletter (by decide)
      · rintro ⟨rfl, -⟩
        exact absurd hletter (by decide)
  | false =>
      obtain ⟨inner, hinner⟩ := source_begins hfirst
      have hread := hinner
      rw [← hfirst] at hread
      rw [hinner] at hsource
      have hrest : rest = inner ++ after := (List.cons.inj hsource).2
      have hstill (reached : ℕ) : typeDepth (lessOpens alphanumeric) greaterCloses
          (before ++ [first]) reached inner after = reached := by
        apply typeDepth_still
        intro front letter back hsplit
        have hinside := not_outside_inside houtside hspace hread hrest hsplit
        rw [List.append_assoc]
        constructor
        · rintro ⟨rfl, hopens⟩
          rw [lessOpens, Bool.and_eq_true, decide_eq_true_eq] at hopens
          exact hinside hopens.1
        · rintro ⟨rfl, hcloses⟩
          rw [greaterCloses, Bool.and_eq_true, decide_eq_true_eq] at hcloses
          exact hinside hcloses.1
      rw [hinner, typeDepth, hstill, ← hrest, ← hnext, depth_read houtside]

end Step

/-! ## Lexemes and places -/

/-- What the tokenizer reads at a place. -/
def readAt (before : List Char) (first : Char) (rest : List Char) : Lexeme :=
  (read alphanumeric before (typesOpen alphanumeric before (first :: rest)) first rest).1

variable {alphanumeric}

section Places

variable {before rest : List Char} {first : Char}

theorem isOpening_readAt (houtside : Outside before (first :: rest)) :
    (readAt alphanumeric before first rest).isOpening = true ↔
      OpensAt alphanumeric before first rest := by
  rw [OpensAt, and_iff_right houtside, readAt]
  by_cases hround : first = '('
  · subst hround
    simp [read, isWhitespace, Lexeme.isOpening]
  by_cases hsquare : first = '['
  · subst hsquare
    simp [read, isWhitespace, Lexeme.isOpening]
  by_cases hless : first = '<'
  · subst hless
    rw [read_less]
    cases opensTypes alphanumeric before rest <;> simp [Lexeme.isOpening]
  · have hother : ¬(first = '(' ∨ first = '[') := not_or.2 ⟨hround, hsquare⟩
    simp only [hround, hsquare, hless, false_and, or_false, iff_false]
    exact read_cases (motive := fun result => ¬result.1.isOpening = true) alphanumeric before _
      first rest (fun _ => Bool.false_ne_true) (fun _ _ => Bool.false_ne_true)
      (fun _ _ => Bool.false_ne_true) (fun _ => Bool.false_ne_true)
      (fun _ hopens => absurd hopens hother) (fun _ hangle => absurd hangle hless)
      (fun _ _ => Bool.false_ne_true) (fun _ _ => Bool.false_ne_true)
      (fun _ _ => Bool.false_ne_true) (fun _ _ => Bool.false_ne_true)

theorem isClosing_readAt (houtside : Outside before (first :: rest)) :
    (readAt alphanumeric before first rest).isClosing = true ↔
      ClosesAt alphanumeric before first rest := by
  rw [ClosesAt, and_iff_right houtside, readAt]
  by_cases hround : first = ')'
  · subst hround
    simp [read, isWhitespace, Lexeme.isClosing]
  by_cases hsquare : first = ']'
  · subst hsquare
    simp [read, isWhitespace, Lexeme.isClosing]
  by_cases hgreater : first = '>'
  · subst hgreater
    rw [read_greater]
    split_ifs with hcloses
    · simp [Lexeme.isClosing, hcloses]
    · simpa [Lexeme.isClosing] using hcloses
  · have hother : ¬(first = ')' ∨ first = ']') := not_or.2 ⟨hround, hsquare⟩
    simp only [hround, hsquare, hgreater, false_and, or_false, iff_false]
    exact read_cases (motive := fun result => ¬result.1.isClosing = true) alphanumeric before _
      first rest (fun _ => Bool.false_ne_true) (fun _ _ => Bool.false_ne_true)
      (fun _ _ => Bool.false_ne_true) (fun _ => Bool.false_ne_true)
      (fun _ _ => Bool.false_ne_true) (fun _ _ => Bool.false_ne_true)
      (fun _ hcloses => absurd hcloses hother) (fun _ hangle => absurd hangle hgreater)
      (fun _ _ => Bool.false_ne_true) (fun _ _ => Bool.false_ne_true)

theorem readAt_eq_comma : readAt alphanumeric before first rest = .comma ↔ first = ',' := by
  constructor
  · intro hcomma
    obtain ⟨inner, hinner⟩ := source_begins hcomma
    exact (List.cons.inj hinner).1.symm
  · rintro rfl
    simp [readAt, read, isWhitespace]

end Places

/-- Each lexeme is what is read at its place. -/
theorem Lexes.readAt {before text : List Char} {depth : ℕ} {lexemes front back : List Lexeme}
    {lexeme : Lexeme} (hlexes : Lexes alphanumeric before depth text lexemes)
    (houtside : Outside before text) (hdepth : typesOpen alphanumeric before text = depth)
    (hsplit : lexemes = front ++ lexeme :: back) :
    ∃ first rest, sourceOf (lexeme :: back) = first :: rest ∧
      Outside (before ++ sourceOf front) (first :: rest) ∧
        Layout.readAt alphanumeric (before ++ sourceOf front) first rest = lexeme := by
  have htext := hlexes.sourceOf_eq
  induction hlexes generalizing front with
  | done => simp at hsplit
  | @next before rest after first depth lexemes hsource hlater ih =>
      cases front with
      | nil =>
          obtain ⟨rfl, rfl⟩ := List.cons.inj hsplit
          have hbefore : before ++ sourceOf [] = before := List.append_nil before
          rw [hbefore]
          refine ⟨first, rest, htext, houtside, ?_⟩
          rw [Layout.readAt, hdepth]
      | cons other front =>
          obtain ⟨rfl, hrest⟩ := List.cons.inj hsplit
          have hnext := typeDepth_source houtside
            (Prod.mk.eta (p := read alphanumeric before depth first rest)).symm hsource
          rw [sourceOf_cons (read alphanumeric before depth first rest).1, ← List.append_assoc]
          refine ih (outside_source houtside rfl hsource) ?_ hrest hlater.sourceOf_eq
          rw [typesOpen, typeDepth_append, ← hsource]
          rw [typesOpen] at hdepth
          rw [hdepth]
          exact hnext

section Splits

variable {text : List Char} {front back : List Lexeme} {lexeme : Lexeme}

theorem readAt_of_split (hsplit : lexemesOf alphanumeric text = front ++ lexeme :: back) :
    ∃ first rest, sourceOf (lexeme :: back) = first :: rest ∧
      Outside (sourceOf front) (first :: rest) ∧
        readAt alphanumeric (sourceOf front) first rest = lexeme :=
  (lexes_lexemesOf alphanumeric text).readAt rfl rfl hsplit

/-- The texts around a lexeme are these two. -/
theorem text_of_split (hsplit : lexemesOf alphanumeric text = front ++ lexeme :: back) :
    text = sourceOf front ++ (lexeme.source ++ sourceOf back) := by
  rw [← sourceOf_cons, ← sourceOf_append, ← hsplit]
  exact (lexes_lexemesOf alphanumeric text).sourceOf_eq.symm

theorem readAt_of_letter {letter : Char}
    (hsplit : lexemesOf alphanumeric text = front ++ lexeme :: back)
    (hsource : lexeme.source = [letter]) :
    Outside (sourceOf front) (letter :: sourceOf back) ∧
      readAt alphanumeric (sourceOf front) letter (sourceOf back) = lexeme := by
  obtain ⟨first, rest, hrest, houtside, hread⟩ := readAt_of_split hsplit
  rw [sourceOf_cons, hsource] at hrest
  obtain ⟨rfl, rfl⟩ := List.cons.inj hrest
  exact ⟨houtside, hread⟩

theorem opensAt_iff {letter : Char}
    (hsplit : lexemesOf alphanumeric text = front ++ lexeme :: back)
    (hsource : lexeme.source = [letter]) :
    OpensAt alphanumeric (sourceOf front) letter (sourceOf back) ↔ lexeme.isOpening = true := by
  obtain ⟨houtside, hread⟩ := readAt_of_letter hsplit hsource
  rw [← isOpening_readAt houtside, hread]

theorem closesAt_iff {letter : Char}
    (hsplit : lexemesOf alphanumeric text = front ++ lexeme :: back)
    (hsource : lexeme.source = [letter]) :
    ClosesAt alphanumeric (sourceOf front) letter (sourceOf back) ↔ lexeme.isClosing = true := by
  obtain ⟨houtside, hread⟩ := readAt_of_letter hsplit hsource
  rw [← isClosing_readAt houtside, hread]

theorem begins_of_split (hsplit : lexemesOf alphanumeric text = front ++ lexeme :: back) :
    ∃ first inner, lexeme.source = first :: inner ∧
      (lexeme.isBlank = true ↔ isWhitespace first = true) := by
  obtain ⟨first, rest, -, -, hread⟩ := readAt_of_split hsplit
  obtain ⟨inner, hinner⟩ := source_begins hread
  refine ⟨first, inner, hinner, ?_⟩
  rw [← hread]
  exact isBlank_read

/-- Inside a lexeme that is no white space no place is outside. -/
theorem not_outside_of_split (hsplit : lexemesOf alphanumeric text = front ++ lexeme :: back)
    (hblank : lexeme.isBlank = false) {begun ended : List Char} {letter : Char}
    (hsource : lexeme.source = begun ++ letter :: ended) (hbegun : begun ≠ []) :
    ¬Outside (sourceOf front ++ begun) (letter :: (ended ++ sourceOf back)) := by
  obtain ⟨first, rest, hrest, houtside, hread⟩ := readAt_of_split hsplit
  obtain ⟨other, inner, rfl⟩ := List.exists_cons_of_ne_nil hbegun
  rw [sourceOf_cons, hsource] at hrest
  obtain ⟨rfl, hbehind⟩ := List.cons.inj hrest
  have hspace : isWhitespace other = false := by
    rw [← hread] at hblank
    exact Bool.eq_false_iff.2 fun hspace => Bool.eq_false_iff.1 hblank (isBlank_read.2 hspace)
  rw [← hread] at hsource
  exact not_outside_inside houtside hspace hsource hbehind.symm rfl

theorem runAt_of_split {run : List Char}
    (hsplit : lexemesOf alphanumeric text = front ++ .blank run :: back) :
    RunAt (sourceOf front) run (sourceOf back) := by
  have hlexes := lexes_lexemesOf alphanumeric text
  have hproper := hlexes.proper (.blank run) (by rw [hsplit]; simp)
  have hapart := hlexes.wellRead.apart
  rw [hsplit] at hapart
  obtain ⟨-, hbehind, hbefore⟩ := List.isChain_append.1 hapart
  refine ⟨hproper.1, hproper.2, ?_, ?_, ?_⟩
  · obtain ⟨first, rest, hsource, houtside, -⟩ := readAt_of_split hsplit
    rw [← hsource, sourceOf_cons] at houtside
    exact houtside
  · intro earlier letter hearlier houtside
    rcases List.eq_nil_or_concat front with rfl | ⟨others, last, rfl⟩
    · exact absurd (congrArg List.length hearlier) (by simp [sourceOf])
    · rw [List.concat_eq_append] at hsplit hearlier hbefore
      have hsingle : sourceOf [last] = last.source := List.flatMap_singleton _ _
      rw [List.append_assoc, List.singleton_append] at hsplit
      obtain ⟨first, inner, hinner, hspace⟩ := begins_of_split hsplit
      rcases List.eq_nil_or_concat inner with rfl | ⟨begun, final, rfl⟩
      · -- the lexeme before is one letter
        rw [sourceOf_append, hsingle, hinner] at hearlier
        obtain rfl : first = letter := List.cons.inj (List.append_inj' hearlier rfl).2 |>.1
        have hapart := hbefore last List.getLast?_concat (.blank run) rfl
        exact Bool.eq_false_iff.2 fun hblank => hapart ⟨hspace.2 hblank, rfl⟩
      · rw [List.concat_eq_append, ← List.cons_append] at hinner
        rw [sourceOf_append, hsingle, hinner, ← List.append_assoc] at hearlier
        obtain ⟨rfl, hfinal⟩ := List.append_inj' hearlier rfl
        obtain rfl : final = letter := (List.cons.inj hfinal).1
        have hlast : last.isBlank = false := by
          have hapart := hbefore last List.getLast?_concat (.blank run) rfl
          exact Bool.eq_false_iff.2 fun hblank => hapart ⟨hblank, rfl⟩
        exact absurd houtside
          (not_outside_of_split hsplit hlast hinner (List.cons_ne_nil first begun))
  · intro letter hletter
    cases back with
    | nil => cases hletter
    | cons next back =>
        have hnext := (List.isChain_cons_cons.1 hbehind).1
        rw [List.append_cons] at hsplit
        obtain ⟨first, inner, hinner, hspace⟩ := begins_of_split hsplit
        rw [sourceOf_cons, hinner] at hletter
        obtain rfl := Option.some.inj hletter
        exact Bool.eq_false_iff.2 fun hblank => hnext ⟨rfl, hspace.2 hblank⟩

/-- A place outside strings and comments, and not within white space, begins a lexeme. -/
theorem Lexes.split_at {before text : List Char} {depth : ℕ} {lexemes : List Lexeme}
    (hlexes : Lexes alphanumeric before depth text lexemes) (houtside : Outside before text)
    {front rest : List Char} {first : Char} (htext : text = front ++ first :: rest)
    (hplace : Outside (before ++ front) (first :: rest))
    (hbegins : isWhitespace first = true → ∀ earlier letter, front = earlier ++ [letter] →
      Outside (before ++ earlier) (letter :: first :: rest) → isWhitespace letter = false) :
    ∃ left lexeme right, lexemes = left ++ lexeme :: right ∧ sourceOf left = front ∧
      sourceOf (lexeme :: right) = first :: rest := by
  induction hlexes generalizing front with
  | done => exact absurd htext (by simp)
  | @next before rest' after first' depth lexemes hsource hlater ih =>
      rcases List.eq_nil_or_concat front with rfl | ⟨earlier, last, hfront⟩
      · refine ⟨[], _, lexemes, rfl, rfl, ?_⟩
        rw [sourceOf_cons, hlater.sourceOf_eq, ← hsource, htext]
        rfl
      rw [List.concat_eq_append] at hfront
      have hlonger (later : List Char)
          (hfront : front = (read alphanumeric before depth first' rest').1.source ++ later)
          (hafter : after = later ++ first :: rest) :
          ∃ left lexeme right, (read alphanumeric before depth first' rest').1 :: lexemes =
            left ++ lexeme :: right ∧ sourceOf left = front ∧
              sourceOf (lexeme :: right) = first :: rest := by
        subst hfront
        obtain ⟨left, lexeme, right, hsplit, hleft, hright⟩ :=
          ih (outside_source houtside rfl hsource) hafter
            (by rw [List.append_assoc]; exact hplace) (by
              intro hspace earlier letter hlater houtside
              rw [List.append_assoc] at houtside
              exact hbegins hspace _ letter (by rw [hlater, List.append_assoc]) houtside)
        exact ⟨_ :: left, lexeme, right, by rw [hsplit]; rfl, by rw [sourceOf_cons, hleft], hright⟩
      have htext' := htext
      rw [hsource] at htext'
      rcases List.append_eq_append_iff.1 htext' with
        ⟨later, hlonger', hafter⟩ | ⟨inner, hinner, hrest⟩
      · exact hlonger later hlonger' hafter
      cases inner with
      | nil =>
          rw [List.append_nil] at hinner
          exact hlonger [] (by rw [hinner, List.append_nil]) hrest.symm
      | cons other inner =>
          have hbehind : rest = inner ++ after := (List.cons.inj hrest).2
          obtain rfl : first = other := (List.cons.inj hrest).1
          subst hbehind
          cases hspace : isWhitespace first' with
          | true =>
              have hall := @space_source alphanumeric before rest' first' depth _ rfl hspace
              rw [hinner, hfront] at hall
              have hlast := hall last (by simp)
              rw [hfront, List.append_assoc] at htext
              rw [htext] at houtside
              have hearlier :
                  Outside (before ++ earlier) ([last] ++ first :: (inner ++ after)) :=
                outside_space houtside fun letter hmem => hall letter (by simp [hmem])
              have hfirst := hall first (by simp)
              rw [hbegins hfirst earlier last hfront hearlier] at hlast
              cases hlast
          | false =>
              obtain ⟨begun, hbegun⟩ := @source_begins alphanumeric before rest' first' depth _ rfl
              cases front with
              | nil => simp at hfront
              | cons letter front =>
                  have hshape : letter = first' ∧ front ++ first :: inner = begun :=
                    List.cons.inj (hinner.symm.trans hbegun)
                  obtain ⟨rfl, rfl⟩ := hshape
                  have hrest' : rest' = front ++ first :: inner ++ after := by
                    rw [hbegun] at hsource
                    exact (List.cons.inj hsource).2
                  exact absurd hplace (not_outside_inside houtside hspace hbegun hrest' rfl)

theorem exists_split_at {before rest : List Char} {first : Char}
    (htext : text = before ++ first :: rest) (hplace : Outside before (first :: rest))
    (hbegins : isWhitespace first = true → ∀ earlier letter, before = earlier ++ [letter] →
      Outside earlier (letter :: first :: rest) → isWhitespace letter = false) :
    ∃ left right, lexemesOf alphanumeric text =
        left ++ readAt alphanumeric before first rest :: right ∧ sourceOf left = before ∧
      sourceOf (readAt alphanumeric before first rest :: right) = first :: rest := by
  obtain ⟨left, lexeme, right, hsplit, hleft, hright⟩ :=
    (lexes_lexemesOf alphanumeric text).split_at rfl htext hplace hbegins
  obtain ⟨other, later, hsource, -, hread⟩ := readAt_of_split hsplit
  obtain ⟨rfl, rfl⟩ := List.cons.inj (hright.symm.trans hsource)
  rw [hleft] at hread
  rw [hread]
  exact ⟨left, right, hsplit, hleft, hright⟩

/-- A place that is no white space begins a lexeme. -/
theorem exists_split_solid {before rest : List Char} {first : Char}
    (htext : text = before ++ first :: rest) (hplace : Outside before (first :: rest))
    (hsolid : isWhitespace first = false) :
    ∃ left right, lexemesOf alphanumeric text =
        left ++ readAt alphanumeric before first rest :: right ∧ sourceOf left = before ∧
      sourceOf (readAt alphanumeric before first rest :: right) = first :: rest :=
  exists_split_at htext hplace fun hspace => by
    rw [hsolid] at hspace
    cases hspace

theorem eq_opening {letter : Char} {rest : List Char} (hopening : lexeme.isOpening = true)
    (hsource : sourceOf (lexeme :: back) = letter :: rest) :
    lexeme = .opening letter ∧ sourceOf back = rest := by
  cases lexeme with
  | opening character =>
      obtain ⟨rfl, hrest⟩ := List.cons.inj hsource
      exact ⟨rfl, hrest⟩
  | _ => cases hopening

theorem eq_closing {letter : Char} {rest : List Char} (hclosing : lexeme.isClosing = true)
    (hsource : sourceOf (lexeme :: back) = letter :: rest) :
    lexeme = .closing letter ∧ sourceOf back = rest := by
  cases lexeme with
  | closing character =>
      obtain ⟨rfl, hrest⟩ := List.cons.inj hsource
      exact ⟨rfl, hrest⟩
  | _ => cases hclosing

theorem exists_opening {before rest : List Char} {letter : Char}
    (htext : text = before ++ letter :: rest) (hopens : OpensAt alphanumeric before letter rest) :
    ∃ left right, lexemesOf alphanumeric text = left ++ .opening letter :: right ∧
      sourceOf left = before ∧ sourceOf right = rest := by
  have hsolid : isWhitespace letter = false := by
    rcases hopens.2 with rfl | rfl | ⟨rfl, -⟩ <;> decide
  obtain ⟨left, right, hsplit, hleft, hright⟩ :=
    @exists_split_solid alphanumeric text _ _ _ htext hopens.1 hsolid
  obtain ⟨hlexeme, hrest⟩ := eq_opening ((isOpening_readAt hopens.1).2 hopens) hright
  rw [hlexeme] at hsplit
  exact ⟨left, right, hsplit, hleft, hrest⟩

theorem exists_closing {before rest : List Char} {letter : Char}
    (htext : text = before ++ letter :: rest) (hcloses : ClosesAt alphanumeric before letter rest) :
    ∃ left right, lexemesOf alphanumeric text = left ++ .closing letter :: right ∧
      sourceOf left = before ∧ sourceOf right = rest := by
  have hsolid : isWhitespace letter = false := by
    rcases hcloses.2 with rfl | rfl | ⟨rfl, -⟩ <;> decide
  obtain ⟨left, right, hsplit, hleft, hright⟩ :=
    @exists_split_solid alphanumeric text _ _ _ htext hcloses.1 hsolid
  obtain ⟨hlexeme, hrest⟩ := eq_closing ((isClosing_readAt hcloses.1).2 hcloses) hright
  rw [hlexeme] at hsplit
  exact ⟨left, right, hsplit, hleft, hrest⟩

theorem exists_comma {before rest : List Char} (htext : text = before ++ ',' :: rest)
    (hplace : Outside before (',' :: rest)) :
    ∃ left right, lexemesOf alphanumeric text = left ++ .comma :: right ∧
      sourceOf left = before ∧ sourceOf right = rest := by
  obtain ⟨left, right, hsplit, hleft, hright⟩ :=
    @exists_split_solid alphanumeric text _ _ _ htext hplace (by decide)
  rw [readAt_eq_comma.2 rfl] at hsplit hright
  exact ⟨left, right, hsplit, hleft, (List.cons.inj hright).2⟩

theorem exists_run {before run after : List Char} (htext : text = before ++ (run ++ after))
    (hrun : RunAt before run after) :
    ∃ left right, lexemesOf alphanumeric text = left ++ .blank run :: right ∧
      sourceOf left = before ∧ sourceOf right = after := by
  obtain ⟨hfilled, hspace, houtside, hbegins, hends⟩ := hrun
  obtain ⟨first, others, rfl⟩ := List.exists_cons_of_ne_nil hfilled
  obtain ⟨hfirst, hothers⟩ := List.forall_mem_cons.1 hspace
  obtain ⟨left, right, hsplit, hleft, hright⟩ :=
    @exists_split_at alphanumeric text before (others ++ after) first htext houtside
      fun _ earlier letter hbefore hearlier => hbegins earlier letter hbefore hearlier
  have htake : (others ++ after).takeWhile isWhitespace = others := by
    rw [List.takeWhile_append_of_pos hothers]
    cases after with
    | nil => exact List.append_nil others
    | cons next after =>
        rw [List.takeWhile_cons_of_neg (Bool.eq_false_iff.1 (hends next rfl)), List.append_nil]
  have hread : readAt alphanumeric before first (others ++ after) = .blank (first :: others) := by
    rw [readAt, blank_read hfirst, htake]
  rw [hread] at hsplit hright
  exact ⟨left, right, hsplit, hleft, List.append_cancel_left (List.cons.inj hright).2⟩

/-- The lexemes in front of a place are told by the text before it. -/
theorem split_unique {left right : List Lexeme} {other : Lexeme}
    (hsplit : lexemesOf alphanumeric text = front ++ lexeme :: back)
    (hother : lexemesOf alphanumeric text = left ++ other :: right)
    (hsource : sourceOf left = sourceOf front) :
    left = front ∧ other = lexeme ∧ right = back := by
  have hfilled := (lexes_lexemesOf alphanumeric text).wellRead.filled
  have hnone {first rest : List Lexeme} (hrest : ∀ item ∈ rest, item.source ≠ [])
      (hsame : sourceOf (first ++ rest) = sourceOf first) : rest = [] := by
    rw [sourceOf_append, List.append_right_eq_self] at hsame
    cases rest with
    | nil => rfl
    | cons item rest =>
        rw [sourceOf_cons, List.append_eq_nil_iff] at hsame
        exact absurd hsame.1 (hrest item List.mem_cons_self)
  have hboth := hsplit.symm.trans hother
  have hfronts : left = front := by
    rcases List.append_eq_append_iff.1 hboth with ⟨more, rfl, -⟩ | ⟨more, rfl, -⟩
    · rw [hnone (fun item hitem => hfilled item (by rw [hother]; simp [hitem])) hsource,
        List.append_nil]
    · rw [hnone (fun item hitem => hfilled item (by rw [hsplit]; simp [hitem])) hsource.symm,
        List.append_nil]
  subst hfronts
  obtain ⟨rfl, rfl⟩ := List.cons.inj (List.append_cancel_left hboth)
  exact ⟨rfl, rfl, rfl⟩

theorem split_longer {left right : List Lexeme} {other : Lexeme} {gap : List Char}
    (hsplit : lexemesOf alphanumeric text = front ++ lexeme :: back)
    (hother : lexemesOf alphanumeric text = left ++ other :: right)
    (hsource : sourceOf left = sourceOf front ++ (lexeme.source ++ gap)) :
    ∃ between, left = front ++ lexeme :: between ∧ back = between ++ other :: right ∧
      sourceOf between = gap := by
  have hfilled : lexeme.source ≠ [] :=
    (lexes_lexemesOf alphanumeric text).wellRead.filled lexeme (by rw [hsplit]; simp)
  rcases List.append_eq_append_iff.1 (hsplit.symm.trans hother) with
    ⟨more, rfl, hmore⟩ | ⟨more, rfl, -⟩
  · cases more with
    | nil =>
        rw [List.append_nil, List.self_eq_append_right, List.append_eq_nil_iff] at hsource
        exact absurd hsource.1 hfilled
    | cons first between =>
        obtain ⟨rfl, hback⟩ := List.cons.inj hmore
        rw [sourceOf_append, sourceOf_cons] at hsource
        exact ⟨between, rfl, hback,
          List.append_cancel_left (List.append_cancel_left hsource)⟩
  · rw [sourceOf_append, List.append_assoc, List.self_eq_append_right, List.append_eq_nil_iff,
      List.append_eq_nil_iff] at hsource
    exact absurd hsource.2.1 hfilled

theorem endsOpen_iff (hsplit : lexemesOf alphanumeric text = front ++ lexeme :: back) :
    EndsOpen alphanumeric (sourceOf front) (sourceOf (lexeme :: back)) ↔
      front.getLast?.any Lexeme.isOpening = true := by
  have hsingle (last : Lexeme) : sourceOf [last] = last.source := List.flatMap_singleton _ _
  constructor
  · rintro ⟨earlier, letter, hfront, hopens⟩
    have htext : text = earlier ++ letter :: sourceOf (lexeme :: back) := by
      rw [text_of_split hsplit, hfront, sourceOf_cons, List.append_assoc]
      rfl
    obtain ⟨left, right, hother, hleft, hright⟩ := exists_opening htext hopens
    obtain ⟨next, right, rfl⟩ : ∃ next later, right = next :: later := by
      apply List.exists_cons_of_ne_nil
      rintro rfl
      have hfilled := (lexes_lexemesOf alphanumeric text).wellRead.filled lexeme
        (by rw [hsplit]; simp)
      rw [sourceOf_cons] at hright
      exact hfilled (List.append_eq_nil_iff.1 hright.symm).1
    rw [List.append_cons] at hother
    have hsame : sourceOf (left ++ [.opening letter]) = sourceOf front := by
      rw [sourceOf_append, hleft, hfront, hsingle]
      rfl
    obtain ⟨rfl, -, -⟩ := split_unique hsplit hother hsame
    rw [List.getLast?_concat]
    rfl
  · intro hopening
    rcases List.eq_nil_or_concat front with rfl | ⟨earlier, last, rfl⟩
    · cases hopening
    · rw [List.concat_eq_append] at hsplit hopening ⊢
      rw [List.getLast?_concat, Option.any_some] at hopening
      rw [List.append_assoc, List.singleton_append] at hsplit
      cases last with
      | opening letter =>
          have hopens := (opensAt_iff hsplit rfl).2 rfl
          refine ⟨sourceOf earlier, letter, ?_, hopens⟩
          rw [sourceOf_append, hsingle]
          rfl
      | _ => cases hopening

theorem isClosing_next (hsplit : lexemesOf alphanumeric text = front ++ lexeme :: back)
    {letter : Char} {rest : List Char} (hsource : sourceOf (lexeme :: back) = letter :: rest) :
    lexeme.isClosing = true ↔ ClosesAt alphanumeric (sourceOf front) letter rest := by
  obtain ⟨first, later, hfirst, houtside, hread⟩ := readAt_of_split hsplit
  obtain ⟨rfl, rfl⟩ := List.cons.inj (hsource.symm.trans hfirst)
  rw [← isClosing_readAt houtside, hread]

theorem eq_comma_next (hsplit : lexemesOf alphanumeric text = front ++ lexeme :: back)
    {letter : Char} {rest : List Char} (hsource : sourceOf (lexeme :: back) = letter :: rest) :
    lexeme = .comma ↔ letter = ',' := by
  obtain ⟨first, later, hfirst, houtside, hread⟩ := readAt_of_split hsplit
  obtain ⟨rfl, rfl⟩ := List.cons.inj (hsource.symm.trans hfirst)
  rw [← hread, readAt_eq_comma]

/-- Lexemes of white space are blanks. -/
theorem isBlank_of_space {between : List Lexeme}
    (hsplit : lexemesOf alphanumeric text = front ++ (between ++ back))
    (hspace : ∀ letter ∈ sourceOf between, isWhitespace letter = true) :
    ∀ item ∈ between, item.isBlank = true := by
  intro item hitem
  obtain ⟨left, right, rfl⟩ := List.append_of_mem hitem
  have hsplit' : lexemesOf alphanumeric text = (front ++ left) ++ item :: (right ++ back) := by
    rw [hsplit]
    simp
  obtain ⟨first, inner, hinner, hblank⟩ := begins_of_split hsplit'
  apply hblank.2
  apply hspace
  rw [sourceOf_append, sourceOf_cons, hinner]
  simp

/-- The next lexeme that is no blank closes a bracket when the next letter that is no white
space does. -/
theorem closesNext_iff (hsplit : lexemesOf alphanumeric text = front ++ lexeme :: back) :
    ClosesNext alphanumeric (sourceOf front ++ lexeme.source) (sourceOf back) ↔
      commaGoes back = true := by
  constructor
  · rintro ⟨gap, letter, rest, hback, hgap, hcloses⟩
    have htext : text = (sourceOf front ++ lexeme.source ++ gap) ++ letter :: rest := by
      rw [text_of_split hsplit, hback]
      simp only [List.append_assoc]
    obtain ⟨left, right, hother, hleft, -⟩ := exists_closing htext hcloses
    rw [List.append_assoc] at hleft
    obtain ⟨between, rfl, hbetween, hsource⟩ := split_longer hsplit hother hleft
    rw [hbetween, List.append_cons] at hsplit
    rw [← hsource] at hgap
    rw [hbetween, commaGoes, List.dropWhile_append_of_pos (isBlank_of_space hsplit hgap)]
    rfl
  · intro hgoes
    obtain ⟨between, later, hbetween, hlater⟩ :
        ∃ between later, back = between ++ later ∧ later = back.dropWhile Lexeme.isBlank ∧
          ∀ item ∈ between, item.isBlank = true :=
      ⟨back.takeWhile Lexeme.isBlank, _, List.takeWhile_append_dropWhile.symm, rfl,
        fun _ hmem => List.mem_takeWhile_imp hmem⟩
    rw [commaGoes, ← hlater.1] at hgoes
    cases later with
    | nil => cases hgoes
    | cons next later =>
        cases next with
        | closing letter =>
            have hsplit' : lexemesOf alphanumeric text =
                (front ++ lexeme :: between) ++ .closing letter :: later := by
              rw [hsplit, hbetween]
              simp
            have hcloses := (closesAt_iff hsplit' rfl).2 rfl
            rw [sourceOf_append, sourceOf_cons, ← List.append_assoc] at hcloses
            refine ⟨sourceOf between, letter, sourceOf later, ?_, ?_, hcloses⟩
            · rw [hbetween, sourceOf_append, sourceOf_cons]
              rfl
            · intro space hspace
              obtain ⟨item, hitem, hmem⟩ := List.mem_flatMap.1 hspace
              have hproper := (lexes_lexemesOf alphanumeric text).proper item
                (by rw [hsplit']; simp [hitem])
              have hblank := hlater.2 item hitem
              cases item with
              | blank run => exact hproper.2 space hmem
              | _ => cases hblank
        | _ => cases hgoes

end Splits

end Ktsense.Core.Layout
