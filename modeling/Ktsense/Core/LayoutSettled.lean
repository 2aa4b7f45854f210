import Ktsense.Core.LayoutBrackets

/-!
# Texts that are folded once

A bracket that is judged again in the folded text is one that the text itself tells, so
that what a second folding changes is told by the text as well.
-/

namespace Ktsense.Core.Layout

open Ktsense.Foundation

variable {alphanumeric : Alphanumeric}

/-! ## Brackets judged by the text -/

section Ends

variable {text : List Char}

theorem getLast?_cons_of_some {letter last : Char} (hlast : text.getLast? = some last) :
    (letter :: text).getLast? = some last := by
  rw [List.getLast?_cons, hlast]
  rfl

theorem rawTail_ends (text : List Char) :
    rawTail text = text ∨ (rawTail text).getLast? = some '"' := by
  fun_induction rawTail text with
  | case1 rest => exact .inr rfl
  | case2 letter rest _ ih =>
      exact ih.imp (congrArg (letter :: ·)) getLast?_cons_of_some
  | case3 => exact .inl rfl

theorem regularTail_ends (text : List Char) :
    regularTail text = text ∨ (regularTail text).getLast? = some '"' := by
  fun_induction regularTail text with
  | case1 letter rest ih =>
      exact ih.imp (congrArg fun tail => '\\' :: letter :: tail)
        fun hlast => getLast?_cons_of_some (getLast?_cons_of_some hlast)
  | case2 rest => exact .inr rfl
  | case3 letter rest _ _ ih => exact ih.imp (congrArg (letter :: ·)) getLast?_cons_of_some
  | case4 => exact .inl rfl

theorem stringTail_ends (text : List Char) :
    stringTail text = text ∨ (stringTail text).getLast? = some '"' := by
  fun_cases stringTail text with
  | case1 rest =>
      exact (rawTail_ends rest).imp (congrArg fun tail => '"' :: '"' :: tail)
        fun hlast => getLast?_cons_of_some (getLast?_cons_of_some hlast)
  | case2 => exact regularTail_ends text

theorem lineTail_ends (text : List Char) :
    lineTail text = text ∨ (lineTail text).getLast? = some '\n' := by
  fun_induction lineTail text with
  | case1 rest => exact .inr rfl
  | case2 letter rest _ ih => exact ih.imp (congrArg (letter :: ·)) getLast?_cons_of_some
  | case3 => exact .inl rfl

theorem blockTail_ends (text : List Char) :
    blockTail text = text ∨ (blockTail text).getLast? = some '/' := by
  fun_induction blockTail text with
  | case1 rest => exact .inr rfl
  | case2 letter rest _ ih => exact ih.imp (congrArg (letter :: ·)) getLast?_cons_of_some
  | case3 => exact .inl rfl

end Ends

section Judging

variable {text : List Char} {front back : List Lexeme} {lexeme : Lexeme}

theorem sealed_read_ends (before : List Char) (depth : ℕ) (first : Char) (rest : List Char) :
    ∀ inner, (read alphanumeric before depth first rest).1 = .sealed inner →
      inner = first :: rest ∨ ∃ last ∈ ['"', '\n', '/'], inner.getLast? = some last := by
  refine read_cases (motive := fun result => ∀ inner, result.1 = .sealed inner →
    inner = first :: rest ∨ ∃ last ∈ ['"', '\n', '/'], inner.getLast? = some last)
    alphanumeric before depth first rest ?_ ?_ ?_ (fun _ _ hread => by cases hread)
    (fun _ _ _ hread => by cases hread) (fun _ _ _ hread => by cases hread)
    (fun _ _ _ hread => by cases hread) (fun _ _ _ hread => by cases hread)
    (fun _ _ _ hread => by cases hread) (fun _ _ _ hread => by cases hread)
  · rintro rfl inner hread
    obtain rfl := Lexeme.sealed.inj hread
    rcases stringTail_ends rest with hwhole | hlast
    · exact .inl (by rw [hwhole])
    · exact .inr ⟨'"', by simp, getLast?_cons_of_some hlast⟩
  · rintro rfl hline inner hread
    obtain rfl := Lexeme.sealed.inj hread
    obtain ⟨tail, rfl⟩ := List.head?_eq_some_iff.1 hline
    rcases lineTail_ends tail with hwhole | hlast
    · exact .inl (by rw [List.tail_cons, hwhole])
    · exact .inr ⟨'\n', by simp, getLast?_cons_of_some (getLast?_cons_of_some hlast)⟩
  · rintro rfl hblock inner hread
    obtain rfl := Lexeme.sealed.inj hread
    obtain ⟨tail, rfl⟩ := List.head?_eq_some_iff.1 hblock
    rcases blockTail_ends tail with hwhole | hlast
    · exact .inl (by rw [List.tail_cons, hwhole])
    · exact .inr ⟨'/', by simp, getLast?_cons_of_some (getLast?_cons_of_some hlast)⟩

/-- A string or a comment with a lexeme behind it is ended. -/
theorem getLast?_sealed {inner : List Char} {next : Lexeme}
    (hsplit : lexemesOf alphanumeric text = front ++ Lexeme.sealed inner :: next :: back) :
    ∃ last ∈ ['"', '\n', '/'], inner.getLast? = some last := by
  obtain ⟨first, rest, hsource, -, hread⟩ := readAt_of_split hsplit
  rcases sealed_read_ends _ _ first rest inner hread with hwhole | hends
  · have hfilled := (lexes_lexemesOf alphanumeric text).wellRead.filled next
      (by rw [hsplit]; simp)
    rw [← hwhole, sourceOf_cons, Lexeme.source, List.append_right_eq_self, sourceOf_cons]
      at hsource
    exact absurd (List.append_eq_nil_iff.1 hsource).1 hfilled
  · exact hends

/-- The letter before a lexeme is a `-` when a lexeme that is one stands there. -/
theorem getLast?_dash (hsplit : lexemesOf alphanumeric text = front ++ lexeme :: back) :
    (sourceOf front).getLast? = some '-' ↔ ∃ left, front = left ++ [Lexeme.letter '-'] := by
  constructor
  · intro hlast
    cases front using List.reverseRecOn with
    | nil => cases hlast
    | append_singleton left last =>
        have hproper := (lexes_lexemesOf alphanumeric text).proper last (by rw [hsplit]; simp)
        have hfilled := (lexes_lexemesOf alphanumeric text).wellRead.filled last
          (by rw [hsplit]; simp)
        rw [List.append_assoc] at hsplit
        rw [sourceOf_concat, List.getLast?_append_of_ne_nil _ hfilled] at hlast
        refine ⟨left, ?_⟩
        cases last with
        | letter character =>
            obtain rfl : character = '-' := Option.some.inj hlast
            rfl
        | sealed inner =>
            obtain ⟨ended, hmem, hended⟩ := getLast?_sealed hsplit
            obtain rfl := Option.some.inj (hended.symm.trans hlast)
            exact absurd hmem (by decide)
        | opening bracket =>
            obtain rfl : bracket = '-' := Option.some.inj hlast
            exact absurd (show '-' ∈ ['(', '[', '<'] from hproper) (by decide)
        | closing bracket =>
            obtain rfl : bracket = '-' := Option.some.inj hlast
            exact absurd (show '-' ∈ [')', ']', '>'] from hproper) (by decide)
        | comma => exact absurd (Option.some.inj hlast) (by decide)
        | blank run =>
            exact absurd (hproper.2 '-' (List.mem_of_getLast? hlast)) (by decide)
  · rintro ⟨left, rfl⟩
    rw [sourceOf_concat, Lexeme.source, List.getLast?_concat]

/-! ### Equals behind a `<` -/

theorem sourceOf_dropBlanks (hsplit : lexemesOf alphanumeric text = front ++ back) :
    sourceOf (back.dropWhile Lexeme.isBlank) = (sourceOf back).dropWhile isWhitespace := by
  have hshape : back = back.takeWhile Lexeme.isBlank ++ back.dropWhile Lexeme.isBlank :=
    List.takeWhile_append_dropWhile.symm
  have hsplit' := hsplit
  rw [hshape] at hsplit'
  have hgap := isGap_blanks hsplit' fun item hitem => List.mem_takeWhile_imp hitem
  conv_rhs => rw [hshape, sourceOf_append, List.dropWhile_append_of_pos hgap]
  cases hlater : back.dropWhile Lexeme.isBlank with
  | nil => rfl
  | cons next later =>
      have hnext : next.isBlank = false := by
        have hhead := List.head?_dropWhile_not Lexeme.isBlank back
        rw [hlater] at hhead
        simpa using hhead
      rw [hlater, ← List.append_assoc] at hsplit'
      obtain ⟨first, inner, hinner, hblank⟩ := begins_of_split hsplit'
      have hspace : ¬isWhitespace first = true := by
        rw [← hblank, hnext]
        exact Bool.false_ne_true
      rw [sourceOf_cons, hinner, List.cons_append, List.dropWhile_cons_of_neg hspace]

theorem meetsEquals_iff {after : List Char} :
    MeetsEquals after ↔ (after.dropWhile isWhitespace).head? = some '=' := by
  constructor
  · rintro ⟨gap, rest, rfl, hgap⟩
    rw [List.dropWhile_append_of_pos hgap,
      List.dropWhile_cons_of_neg (by decide : ¬isWhitespace '=' = true)]
    rfl
  · intro hhead
    obtain ⟨rest, hrest⟩ := List.head?_eq_some_iff.1 hhead
    refine ⟨after.takeWhile isWhitespace, rest, ?_, fun _ hmem => List.mem_takeWhile_imp hmem⟩
    rw [← hrest, List.takeWhile_append_dropWhile]

/-- What is judged to open again opens in the folded text. -/
theorem opensLater_iff (hsplit : lexemesOf alphanumeric text = front ++ lexeme :: back)
    (hless : lexeme.source = ['<']) :
    opensTypes alphanumeric (collapsedFrom none (standsBehind lexeme front))
        (sourceOf (standsBefore lexeme back)) = true ↔
      OpensLater alphanumeric (sourceOf front) (sourceOf back) := by
  have hopen := opensAt_iff hsplit hless
  have hclosed : lexeme.isClosing = false := by
    rw [Bool.eq_false_iff]
    intro hclosing
    rcases ((closesAt_iff hsplit hless).2 hclosing).2 with hletter | hletter | ⟨hletter, -⟩ <;>
      exact absurd hletter (by decide)
  have hplace : Outside (sourceOf front) ('<' :: sourceOf back) :=
    (readAt_of_letter hsplit hless).1
  have hnow : OpensAt alphanumeric (sourceOf front) '<' (sourceOf back) ↔
      LetsOpen alphanumeric (sourceOf front) ∧ (sourceOf back).head? ≠ some '=' := by
    rw [OpensAt, and_iff_right hplace, ← opensTypes_iff]
    simp
  have hback : lexemesOf alphanumeric text = (front ++ [lexeme]) ++ back := by
    rw [hsplit, List.append_assoc]
    rfl
  rw [standsBehind, hclosed, if_neg Bool.false_ne_true, opensTypes_iff, OpensLater,
    and_iff_right hplace, standsBefore]
  by_cases hopening : lexeme.isOpening = true
  · have hopens := hopen.2 hopening
    have hnext := (hnow.1 hopens).2
    have hgains : ¬GainsFun alphanumeric (sourceOf front) (sourceOf back) :=
      fun hgains => not_letsOpen_of_gainsFun hsplit hless hgains (hnow.1 hopens).1
    rw [if_pos hopening, sourceOf_dropBlanks hback, letsOpen_collapsed hsplit hless hnext,
      or_iff_left hgains, or_iff_left hgains, and_iff_right (hnow.1 hopens).1,
      and_iff_right hopens, ne_eq, meetsEquals_iff]
  · have hnot : ¬OpensAt alphanumeric (sourceOf front) '<' (sourceOf back) :=
      fun hopens => hopening (hopen.1 hopens)
    rw [if_neg hopening, or_iff_right fun hleft => hnot hleft.1]
    by_cases hnext : (sourceOf back).head? = some '='
    · exact iff_of_false (fun hboth => hboth.2 hnext) fun hgains => hgains.1 hnext
    · have hshut : ¬LetsOpen alphanumeric (sourceOf front) := fun hlets =>
        hnot (hnow.2 ⟨hlets, hnext⟩)
      rw [and_iff_left hnext, letsOpen_collapsed hsplit hless hnext,
        or_iff_right fun hleft => hshut hleft.1]

/-! ### A `-` before a `>` -/

theorem withoutBlank_solid {last : Lexeme} (hblank : last.isBlank = false)
    (front : List Lexeme) : withoutBlank (front ++ [last]) = front ++ [last] := by
  rw [withoutBlank, List.getLast?_concat, Option.any_some, hblank, if_neg Bool.false_ne_true]

theorem withoutBlank_blank (front : List Lexeme) (run : List Char) :
    withoutBlank (front ++ [Lexeme.blank run]) = front := by
  rw [withoutBlank, List.getLast?_concat, Option.any_some, Lexeme.isBlank, if_pos rfl,
    List.dropLast_concat]

theorem withoutBlank_short {last : Lexeme} {blanks : List Lexeme} (hblank : last.isBlank = false)
    (hshort : blanks = [] ∨ ∃ run, blanks = [.blank run]) (front : List Lexeme) :
    withoutBlank (front ++ last :: blanks) = front ++ [last] := by
  rcases hshort with rfl | ⟨run, rfl⟩
  · exact withoutBlank_solid hblank front
  · rw [List.append_cons, withoutBlank_blank]

theorem withoutBlank_split (front : List Lexeme) :
    ∃ blanks, front = withoutBlank front ++ blanks ∧ ∀ item ∈ blanks, item.isBlank = true := by
  cases front using List.reverseRecOn with
  | nil => exact ⟨[], rfl, fun _ hmem => absurd hmem List.not_mem_nil⟩
  | append_singleton front last =>
      cases hblank : last.isBlank with
      | false =>
          rw [withoutBlank_solid hblank]
          exact ⟨[], (List.append_nil _).symm, fun _ hmem => absurd hmem List.not_mem_nil⟩
      | true =>
          obtain ⟨run, rfl⟩ := Lexeme.eq_blank hblank
          rw [withoutBlank_blank]
          exact ⟨[.blank run], rfl, List.forall_mem_singleton.2 rfl⟩

/-- Before a closing bracket go white space, and a comma with the white space before it. -/
theorem standsBehind_split (hclosing : lexeme.isClosing = true) (front : List Lexeme) :
    ∃ one two, (∀ item ∈ one, item.isBlank = true) ∧ (∀ item ∈ two, item.isBlank = true) ∧
      (front = standsBehind lexeme front ++ one ∨
        front = standsBehind lexeme front ++ (one ++ Lexeme.comma :: two)) := by
  obtain ⟨two, htwo, htwoBlank⟩ := withoutBlank_split front
  rw [standsBehind, if_pos hclosing]
  split_ifs with hcomma
  · obtain ⟨inner, hinner⟩ := List.getLast?_eq_some_iff.1 hcomma
    obtain ⟨one, hone, honeBlank⟩ := withoutBlank_split inner
    refine ⟨one, two, honeBlank, htwoBlank, .inr ?_⟩
    rw [hinner, List.dropLast_concat, ← List.append_assoc, ← hone]
    rw [hinner, List.append_assoc] at htwo
    exact htwo
  · exact ⟨two, two, htwoBlank, htwoBlank, .inl htwo⟩

theorem standsBehind_dash {gone : List Lexeme} (hclosing : lexeme.isClosing = true)
    (hsplit : lexemesOf alphanumeric text = front ++ Lexeme.letter '-' :: (gone ++ lexeme :: back))
    (hgone : IsGap (sourceOf gone) ∨
      ∃ one two, gone = one ++ Lexeme.comma :: two ∧ IsGap (sourceOf one) ∧ IsGap (sourceOf two)) :
    standsBehind lexeme (front ++ Lexeme.letter '-' :: gone) = front ++ [Lexeme.letter '-'] := by
  have hblanks {left blanks right : List Lexeme}
      (hsplit : lexemesOf alphanumeric text = left ++ (blanks ++ right))
      (hgap : IsGap (sourceOf blanks)) : blanks = [] ∨ ∃ run, blanks = [.blank run] :=
    blanks_short hsplit (isBlank_of_space hsplit hgap)
  rw [standsBehind, if_pos hclosing]
  rcases hgone with hgap | ⟨one, two, rfl, hone, htwo⟩
  · rw [List.append_cons] at hsplit
    rw [withoutBlank_short rfl (hblanks hsplit hgap), List.getLast?_concat]
    exact if_neg (by simp)
  · have hbefore : lexemesOf alphanumeric text =
        (front ++ [Lexeme.letter '-']) ++ (one ++ Lexeme.comma :: (two ++ lexeme :: back)) := by
      rw [hsplit]
      simp
    have hbehind : lexemesOf alphanumeric text =
        (front ++ Lexeme.letter '-' :: one ++ [Lexeme.comma]) ++ (two ++ lexeme :: back) := by
      rw [hsplit]
      simp
    have hshape : front ++ Lexeme.letter '-' :: (one ++ Lexeme.comma :: two) =
        (front ++ Lexeme.letter '-' :: one) ++ Lexeme.comma :: two := by
      simp
    rw [hshape, withoutBlank_short rfl (hblanks hbehind htwo), List.getLast?_concat, if_pos rfl,
      List.dropLast_concat, withoutBlank_short rfl (hblanks hbefore hone)]

/-- A `-` that only what goes parts from a closing `>` comes to stand before it. -/
theorem MeetsDash.stands (hsplit : lexemesOf alphanumeric text = front ++ lexeme :: back)
    (hgreater : lexeme.source = ['>']) (hclosing : lexeme.isClosing = true)
    (hmeets : MeetsDash (sourceOf front) (sourceOf back)) :
    ∃ left, standsBehind lexeme front = left ++ [Lexeme.letter '-'] := by
  obtain ⟨head, gap, hbefore, houtside, hgap⟩ := hmeets
  have hrest : sourceOf (lexeme :: back) = '>' :: sourceOf back := by
    rw [sourceOf_cons, hgreater]
    rfl
  have htext : text = head ++ '-' :: (gap ++ '>' :: sourceOf back) := by
    rw [text_of_split hsplit, ← sourceOf_cons, hrest, hbefore, List.append_assoc]
    rfl
  obtain ⟨left, right, hdash, hleft, -⟩ :=
    @exists_split_solid alphanumeric text _ _ _ htext houtside (by decide)
  rw [readAt_letter (by decide)] at hdash
  have hlonger : sourceOf front = sourceOf left ++ ((Lexeme.letter '-').source ++ gap) := by
    rw [hbefore, hleft]
    rfl
  obtain ⟨gone, rfl, hright, hgone⟩ := split_longer hdash hsplit hlonger
  rw [hright] at hdash
  refine ⟨left, standsBehind_dash hclosing hdash ?_⟩
  rcases hgap with hgap | ⟨one, two, rfl, hone, htwo⟩
  · rw [hgone]
    exact .inl hgap
  · have hcommaText : text = (head ++ '-' :: one) ++ ',' :: (two ++ '>' :: sourceOf back) := by
      rw [htext]
      simp
    have hplace : Outside (head ++ '-' :: one) (',' :: (two ++ '>' :: sourceOf back)) := by
      rw [List.append_assoc] at houtside
      exact outside_letter_space houtside rfl hone
    obtain ⟨others, later, hcomma, hothers, -⟩ :=
      @exists_comma alphanumeric text _ _ hcommaText hplace
    have hfirst : sourceOf others = sourceOf left ++ ((Lexeme.letter '-').source ++ one) := by
      rw [hothers, hleft]
      rfl
    obtain ⟨before, rfl, hbehind, hsame⟩ := split_longer hdash hcomma hfirst
    have hsecond : sourceOf (left ++ Lexeme.letter '-' :: gone) =
        sourceOf (left ++ Lexeme.letter '-' :: before) ++ (Lexeme.comma.source ++ two) := by
      rw [hbefore, hothers, List.append_assoc]
      rfl
    obtain ⟨after, hshape, -, hafter⟩ := split_longer hcomma hsplit hsecond
    have hgone' : gone = before ++ Lexeme.comma :: after := by
      simpa using hshape
    rw [← hsame] at hone
    rw [← hafter] at htwo
    exact .inr ⟨before, after, hgone', hone, htwo⟩

theorem meetsDash_of_stands (hsplit : lexemesOf alphanumeric text = front ++ lexeme :: back)
    (hgreater : lexeme.source = ['>']) (hclosing : lexeme.isClosing = true) {left : List Lexeme}
    (hleft : standsBehind lexeme front = left ++ [Lexeme.letter '-']) :
    MeetsDash (sourceOf front) (sourceOf back) := by
  have hrest : sourceOf (lexeme :: back) = '>' :: sourceOf back := by
    rw [sourceOf_cons, hgreater]
    rfl
  obtain ⟨one, two, hone, htwo, hfront⟩ := standsBehind_split hclosing front
  rw [hleft] at hfront
  obtain ⟨gone, hgone, hkind⟩ : ∃ gone, front = left ++ [Lexeme.letter '-'] ++ gone ∧
      (gone = one ∨ gone = one ++ Lexeme.comma :: two) := by
    rcases hfront with hfront | hfront
    · exact ⟨one, hfront, .inl rfl⟩
    · exact ⟨_, hfront, .inr rfl⟩
  subst hgone
  have hdash : lexemesOf alphanumeric text =
      left ++ Lexeme.letter '-' :: (gone ++ lexeme :: back) := by
    rw [hsplit]
    simp
  obtain ⟨houtside, -⟩ := readAt_of_letter hdash rfl
  rw [sourceOf_append gone, hrest] at houtside
  refine ⟨sourceOf left, sourceOf gone, ?_, houtside, ?_⟩
  · rw [sourceOf_append, sourceOf_concat, List.append_assoc]
    rfl
  · rcases hkind with rfl | rfl
    · rw [List.append_assoc] at hsplit
      exact .inl (isGap_blanks (by rw [hsplit, ← List.append_assoc]) hone)
    · have hbefore : lexemesOf alphanumeric text =
          (left ++ [Lexeme.letter '-']) ++ (one ++ Lexeme.comma :: (two ++ lexeme :: back)) := by
        rw [hsplit]
        simp
      have hbehind : lexemesOf alphanumeric text =
          (left ++ Lexeme.letter '-' :: one ++ [Lexeme.comma]) ++ (two ++ lexeme :: back) := by
        rw [hsplit]
        simp
      refine .inr ⟨sourceOf one, sourceOf two, ?_, isGap_blanks hbefore hone,
        isGap_blanks hbehind htwo⟩
      rw [sourceOf_append]
      rfl

/-- A lexeme that is a `-` comes to stand before a closing `>`. -/
theorem meetsDash_iff (hsplit : lexemesOf alphanumeric text = front ++ lexeme :: back)
    (hgreater : lexeme.source = ['>']) (hclosing : lexeme.isClosing = true) :
    MeetsDash (sourceOf front) (sourceOf back) ↔
      ∃ left, standsBehind lexeme front = left ++ [Lexeme.letter '-'] :=
  ⟨MeetsDash.stands hsplit hgreater hclosing,
    fun ⟨_, hleft⟩ => meetsDash_of_stands hsplit hgreater hclosing hleft⟩

/-- What may be judged to close again closes in the folded text. -/
theorem closesLater_iff (hsplit : lexemesOf alphanumeric text = front ++ lexeme :: back)
    (hgreater : lexeme.source = ['>']) :
    closesTypes (collapsedFrom none (standsBehind lexeme front))
        (sourceOf (standsBefore lexeme back)) = true ↔
      ClosesLater alphanumeric (sourceOf front) (sourceOf back) := by
  have hclose := closesAt_iff hsplit hgreater
  have hplace : Outside (sourceOf front) ('>' :: sourceOf back) :=
    (readAt_of_letter hsplit hgreater).1
  have hshut : lexeme.isOpening = false := by
    rw [Bool.eq_false_iff]
    intro hopening
    rcases ((opensAt_iff hsplit hgreater).2 hopening).2 with hletter | hletter | ⟨hletter, -⟩ <;>
      exact absurd hletter (by decide)
  have hproper := (lexes_lexemesOf alphanumeric text).proper
  rw [hsplit] at hproper
  have hfront : ∀ other ∈ front, other.Proper :=
    fun other hmem => hproper other (List.mem_append_left _ hmem)
  have hdash : IsSolid '-' := ⟨by decide, by decide⟩
  have hiff {before after : List Char} : closesTypes before after = true ↔
      before.getLast? ≠ some '-' ∧ after.head? ≠ some '=' := by
    rw [closesTypes, Bool.and_eq_true, decide_eq_true_eq, decide_eq_true_eq]
  rw [standsBefore, hshut, if_neg Bool.false_ne_true, ClosesLater, and_iff_right hplace, hiff, hiff]
  by_cases hclosing : lexeme.isClosing = true
  · have hcloses := hclose.2 hclosing
    have hnow : closesTypes (sourceOf front) (sourceOf back) = true := by
      rcases hcloses.2 with hletter | hletter | ⟨-, -, hboth⟩
      · exact absurd hletter (by decide)
      · exact absurd hletter (by decide)
      · exact hboth
    rw [hiff] at hnow
    rw [and_iff_left hnow.2, and_iff_right hnow, and_iff_right hcloses,
      meetsDash_iff hsplit hgreater hclosing]
    obtain ⟨one, two, -, -, hshape⟩ := standsBehind_split hclosing front
    obtain ⟨gone, hgone⟩ : ∃ gone, front = standsBehind lexeme front ++ gone := by
      rcases hshape with hshape | hshape
      · exact ⟨_, hshape⟩
      · exact ⟨_, hshape⟩
    have hinner : lexemesOf alphanumeric text =
        standsBehind lexeme front ++ (gone ++ lexeme :: back) := by
      rw [hsplit, ← List.append_assoc, ← hgone]
    obtain ⟨next, later, hnext⟩ : ∃ next later, gone ++ lexeme :: back = next :: later :=
      List.exists_cons_of_ne_nil (by simp)
    rw [hnext] at hinner
    have hbehind : ∀ other ∈ standsBehind lexeme front, other.Proper := fun other hmem =>
      hfront other (by rw [hgone]; exact List.mem_append_left _ hmem)
    rw [ne_eq, getLast?_collapsedFrom hbehind hdash, getLast?_dash hinner]
  · have hnot : ¬ClosesAt alphanumeric (sourceOf front) '>' (sourceOf back) :=
      fun hcloses => hclosing (hclose.1 hcloses)
    rw [standsBehind, if_neg hclosing, ne_eq, getLast?_collapsedFrom hfront hdash]
    exact (and_iff_left fun hboth => hnot hboth.1).symm

theorem lessOpensLater_iff {before after : List Char} :
    lessOpensLater alphanumeric before after = true ↔ OpensLater alphanumeric before after := by
  simp only [lessOpensLater, decide_eq_true_eq]

theorem greaterClosesLater_iff {before after : List Char} :
    greaterClosesLater alphanumeric before after = true ↔
      ClosesLater alphanumeric before after := by
  simp only [greaterClosesLater, decide_eq_true_eq]

/-- An angle bracket within a lexeme is in a string or a comment. -/
theorem not_outside_angle (hsplit : lexemesOf alphanumeric text = front ++ lexeme :: back)
    {begun ended : List Char} {letter : Char} (hangle : letter = '<' ∨ letter = '>')
    (hsource : lexeme.source = begun ++ letter :: ended) (hother : lexeme.source ≠ [letter]) :
    ¬Outside (sourceOf front ++ begun) (letter :: (ended ++ sourceOf back)) := by
  have hproper := (lexes_lexemesOf alphanumeric text).proper lexeme (by rw [hsplit]; simp)
  cases hblank : lexeme.isBlank with
  | true =>
      obtain ⟨run, rfl⟩ := Lexeme.eq_blank hblank
      have hrun : letter ∈ run := by
        rw [Lexeme.source] at hsource
        rw [hsource]
        simp
      have hspace := hproper.2 letter hrun
      rcases hangle with rfl | rfl <;> exact absurd hspace (by decide)
  | false =>
      cases begun with
      | cons first begun =>
          exact not_outside_of_split hsplit hblank hsource (List.cons_ne_nil first begun)
      | nil =>
          rcases single_or_sealed hproper hblank with
            ⟨single, hsingle, -⟩ | ⟨first, inner, hfirst, hkind⟩
          · obtain ⟨rfl, rfl⟩ := List.cons.inj (hsingle.symm.trans hsource)
            exact absurd hsingle hother
          · obtain ⟨rfl, -⟩ := List.cons.inj (hfirst.symm.trans hsource)
            rcases hangle with rfl | rfl <;> exact absurd hkind (by decide)

/-- The depth counted along the folded text is the one that the judging keeps. -/
theorem typeDepth_later (hsplit : lexemesOf alphanumeric text = front ++ lexeme :: back)
    (depth : ℕ) :
    typeDepth (lessOpensLater alphanumeric) (greaterClosesLater alphanumeric) (sourceOf front)
        depth lexeme.source (sourceOf back) = (judge alphanumeric front depth lexeme back).2 := by
  by_cases hless : lexeme.source = ['<']
  · have hsame := Bool.eq_iff_iff.2 (lessOpensLater_iff.trans (opensLater_iff hsplit hless).symm)
    rw [judge_less hless, hless, typeDepth, typeDepth, List.nil_append, hsame]
    simp only [true_and, Char.reduceEq, false_and, if_false]
    split_ifs <;> rfl
  by_cases hgreater : lexeme.source = ['>']
  · have hsame :=
      Bool.eq_iff_iff.2 (greaterClosesLater_iff.trans (closesLater_iff hsplit hgreater).symm)
    rw [judge_greater hgreater, hgreater, typeDepth, typeDepth, List.nil_append, hsame]
    simp only [true_and, Char.reduceEq, false_and, if_false]
    rcases Nat.eq_zero_or_pos depth with rfl | hdepth
    · simp
    · simp only [hdepth, true_and]
      split_ifs <;> rfl
  · rw [judge_other hless hgreater]
    apply typeDepth_still
    intro begun letter ended hsource
    constructor
    · rintro ⟨rfl, hopens⟩
      exact not_outside_angle hsplit (.inl rfl) hsource hless (lessOpensLater_iff.1 hopens).1
    · rintro ⟨rfl, hcloses⟩
      exact not_outside_angle hsplit (.inr rfl) hsource hgreater
        (greaterClosesLater_iff.1 hcloses).1

/-- Each lexeme is judged at the depth that the folded text has there. -/
theorem again_of_split {lexemes : List Lexeme} {left right : List Judged} {item : Judged}
    {depth : ℕ} (hsplit : lexemesOf alphanumeric text = front ++ lexemes)
    (hdepth : typesOpenLater alphanumeric (sourceOf front) (sourceOf lexemes) = depth)
    (hjudged : judgedFrom alphanumeric front depth lexemes = left ++ item :: right) :
    item.again = (judge alphanumeric (front ++ left.map Judged.first)
      (typesOpenLater alphanumeric (sourceOf (front ++ left.map Judged.first))
        (sourceOf (item.first :: right.map Judged.first)))
      item.first (right.map Judged.first)).1 := by
  induction left generalizing front depth lexemes with
  | nil =>
      cases lexemes with
      | nil => cases hjudged
      | cons lexeme rest =>
          obtain ⟨rfl, rfl⟩ := List.cons.inj hjudged
          rw [List.map_nil, List.append_nil, first_judgedFrom, hdepth]
  | cons other left ih =>
      cases lexemes with
      | nil => cases hjudged
      | cons lexeme rest =>
          obtain ⟨rfl, hrest⟩ := List.cons.inj hjudged
          have hsplit' : lexemesOf alphanumeric text = (front ++ [lexeme]) ++ rest := by
            rw [hsplit, List.append_assoc]
            rfl
          have hnext : typesOpenLater alphanumeric (sourceOf (front ++ [lexeme]))
              (sourceOf rest) = (judge alphanumeric front depth lexeme rest).2 := by
            rw [sourceOf_cons, typesOpenLater] at hdepth
            rw [← typeDepth_later hsplit, typesOpenLater, sourceOf_concat, typeDepth_append,
              hdepth]
            rfl
          have hlater := ih hsplit' hnext hrest
          rw [List.append_assoc] at hlater
          exact hlater

end Judging

section Judged

variable {text : List Char} {left right : List Judged} {item : Judged}

theorem firsts_of_split (hjudged : judgedOf alphanumeric text = left ++ item :: right) :
    lexemesOf alphanumeric text =
      left.map Judged.first ++ item.first :: right.map Judged.first := by
  rw [← List.map_cons, ← List.map_append, ← hjudged]
  exact (first_judgedFrom _ _ _).symm

theorem again_eq (hjudged : judgedOf alphanumeric text = left ++ item :: right) :
    item.again = (judge alphanumeric (left.map Judged.first)
      (typesOpenLater alphanumeric (sourceOf (left.map Judged.first))
        (sourceOf (item.first :: right.map Judged.first)))
      item.first (right.map Judged.first)).1 := by
  have hagain := @again_of_split alphanumeric text [] (lexemesOf alphanumeric text) left right
    item 0 (List.nil_append _).symm rfl hjudged
  rwa [List.nil_append] at hagain

/-- A lexeme that opens again only is a `<` that gains `fun`. -/
theorem gainsFun_of_again (hjudged : judgedOf alphanumeric text = left ++ item :: right)
    (hfirst : ¬item.first.isOpening = true) (hagain : item.again.isOpening = true) :
    item.first.source = ['<'] ∧
      GainsFun alphanumeric (sourceOf (left.map Judged.first))
        (sourceOf (right.map Judged.first)) := by
  have hsplit := firsts_of_split hjudged
  rw [again_eq hjudged] at hagain
  by_cases hless : item.first.source = ['<']
  · refine ⟨hless, ?_⟩
    rw [judge_less hless] at hagain
    split_ifs at hagain with hopens
    · rcases ((opensLater_iff hsplit hless).1 hopens).2 with ⟨hnow, -⟩ | hgains
      · exact absurd ((opensAt_iff hsplit hless).1 hnow) hfirst
      · exact hgains
    · cases hagain
  · by_cases hgreater : item.first.source = ['>']
    · rw [judge_greater hgreater] at hagain
      split_ifs at hagain
      · cases hagain
      · cases hagain
    · rw [judge_other hless hgreater] at hagain
      exact absurd hagain hfirst

theorem opening_of_gainsFun (hjudged : judgedOf alphanumeric text = left ++ item :: right)
    (hless : item.first.source = ['<'])
    (hgains : GainsFun alphanumeric (sourceOf (left.map Judged.first))
      (sourceOf (right.map Judged.first))) : item.again.isOpening = true := by
  have hsplit := firsts_of_split hjudged
  obtain ⟨hplace, -⟩ := readAt_of_letter hsplit hless
  have hopens := (opensLater_iff hsplit hless).2 ⟨hplace, .inr hgains⟩
  rw [again_eq hjudged, judge_less hless, if_pos hopens]
  rfl

/-- What closes again is a bracket that closes in the folded text. -/
theorem closing_again_iff (hjudged : judgedOf alphanumeric text = left ++ item :: right)
    {letter : Char} (hletter : item.first.source = [letter]) :
    item.again.isClosing = true ↔
      ClosesLaterAt alphanumeric (sourceOf (left.map Judged.first)) letter
        (sourceOf (right.map Judged.first)) := by
  have hsplit := firsts_of_split hjudged
  obtain ⟨hplace, -⟩ := readAt_of_letter hsplit hletter
  have hrest : sourceOf (item.first :: right.map Judged.first) =
      letter :: sourceOf (right.map Judged.first) := by
    rw [sourceOf_cons, hletter]
    rfl
  rw [again_eq hjudged, ClosesLaterAt, and_iff_right hplace, hrest]
  by_cases hless : letter = '<'
  · subst hless
    rw [judge_less hletter]
    split_ifs <;> simp [Lexeme.isClosing]
  by_cases hgreater : letter = '>'
  · subst hgreater
    rw [judge_greater hletter, ← closesLater_iff hsplit hletter]
    split_ifs with hcloses
    · simp [Lexeme.isClosing, hcloses]
    · simpa [Lexeme.isClosing] using hcloses
  · have hother (angle : Char) (hangle : letter ≠ angle) : item.first.source ≠ [angle] := by
      rw [hletter]
      exact fun hsame => hangle (List.cons.inj hsame).1
    rw [judge_other (hother _ hless) (hother _ hgreater), ← closesAt_iff hsplit hletter, ClosesAt,
      and_iff_right hplace]
    simp [hgreater]

theorem single_of_again (hjudged : judgedOf alphanumeric text = left ++ item :: right)
    (hagain : item.again.isClosing = true) : ∃ letter, item.first.source = [letter] := by
  obtain ⟨letter, hletter⟩ := Lexeme.eq_closing hagain
  have hsource : item.again.source = item.first.source := by
    rw [again_eq hjudged, source_judge]
  rw [hletter] at hsource
  exact ⟨letter, hsource.symm⟩

/-- A lexeme that closes again only is a `>`. -/
theorem greater_of_again (hjudged : judgedOf alphanumeric text = left ++ item :: right)
    (hfirst : ¬item.first.isClosing = true) (hagain : item.again.isClosing = true) :
    item.first.source = ['>'] ∧
      ClosesLaterAt alphanumeric (sourceOf (left.map Judged.first)) '>'
        (sourceOf (right.map Judged.first)) := by
  obtain ⟨letter, hletter⟩ := single_of_again hjudged hagain
  have hlater := (closing_again_iff hjudged hletter).1 hagain
  have hnow := closesAt_iff (firsts_of_split hjudged) hletter
  rcases hlater.2 with rfl | rfl | ⟨rfl, -⟩
  · exact absurd (hnow.1 ⟨hlater.1, .inl rfl⟩) hfirst
  · exact absurd (hnow.1 ⟨hlater.1, .inr (.inl rfl)⟩) hfirst
  · exact ⟨hletter, hlater⟩

/-- The lexemes of a text are judged in their places. -/
theorem judged_of_split {front back : List Lexeme} {lexeme : Lexeme}
    (hsplit : lexemesOf alphanumeric text = front ++ lexeme :: back) :
    ∃ left item right, judgedOf alphanumeric text = left ++ item :: right ∧
      left.map Judged.first = front ∧ item.first = lexeme ∧ right.map Judged.first = back := by
  have hfirst : (judgedOf alphanumeric text).map Judged.first = front ++ lexeme :: back :=
    (first_judgedFrom _ _ _).trans hsplit
  obtain ⟨left, others, hjudged, hleft, hothers⟩ := List.map_eq_append_iff.1 hfirst
  obtain ⟨item, right, rfl, hitem, hright⟩ := List.map_eq_cons_iff.1 hothers
  exact ⟨left, item, right, hjudged, hleft, hitem, hright⟩

/-! ### What goes behind a comma -/

theorem again_blank {blanks : List Judged} (hsound : ∀ other ∈ blanks, other.Sound)
    (hblanks : ∀ other ∈ blanks, other.first.isBlank = true) :
    ∀ lexeme ∈ blanks.map Judged.again, lexeme.isBlank = true := by
  intro lexeme hmem
  obtain ⟨other, hother, rfl⟩ := List.mem_map.1 hmem
  rw [(hsound other hother).same (.inl (hblanks other hother))]
  exact hblanks other hother

theorem first_blank {blanks : List Judged}
    (hblanks : ∀ other ∈ blanks, other.first.isBlank = true) :
    ∀ lexeme ∈ blanks.map Judged.first, lexeme.isBlank = true := by
  intro lexeme hmem
  obtain ⟨other, hother, rfl⟩ := List.mem_map.1 hmem
  exact hblanks other hother

theorem commaGoes_first {blanks : List Judged}
    (hblanks : ∀ other ∈ blanks, other.first.isBlank = true) (hitem : item.first.isBlank = false) :
    commaGoes ((blanks ++ item :: right).map Judged.first) = item.first.isClosing := by
  rw [List.map_append, List.map_cons]
  exact commaGoes_gap (first_blank hblanks) hitem

theorem commaGoes_again {blanks : List Judged} (hitems : ∀ other ∈ blanks ++ [item], other.Sound)
    (hblanks : ∀ other ∈ blanks, other.first.isBlank = true) (hitem : item.first.isBlank = false)
    (hcomma : item.first ≠ .comma) :
    commaGoes ((blanks ++ item :: right).map Judged.again) = item.again.isClosing := by
  have hsound : ∀ other ∈ blanks, other.Sound :=
    fun other hmem => hitems other (List.mem_append_left _ hmem)
  rw [List.map_append, List.map_cons]
  exact commaGoes_gap (again_blank hsound hblanks) ((hitems item (by simp)).solid hitem hcomma).1

theorem commaGoesAgain_solid {blanks : List Judged}
    (hitems : ∀ other ∈ blanks ++ [item], other.Sound)
    (hblanks : ∀ other ∈ blanks, other.first.isBlank = true) (hitem : item.first.isBlank = false)
    (hcomma : item.first ≠ .comma) :
    commaGoesAgain (blanks ++ item :: right) = item.again.isClosing := by
  have hdrop : (blanks ++ item :: right).dropWhile (fun judged => judged.first.isBlank) =
      item :: right := by
    rw [List.dropWhile_append_of_pos hblanks,
      List.dropWhile_cons_of_neg (by rw [hitem]; exact Bool.false_ne_true)]
  have hagain := @commaGoes_again right item [] (fun other hmem => hitems other (by simp_all))
    (fun _ hmem => absurd hmem List.not_mem_nil) hitem hcomma
  obtain ⟨first, again⟩ := item
  rw [commaGoesAgain, hdrop]
  cases first with
  | comma => exact absurd rfl hcomma
  | blank run => cases hitem
  | _ => exact hagain

theorem commaGoesAgain_comma {blanks : List Judged}
    (hblanks : ∀ other ∈ blanks, other.first.isBlank = true) (hcomma : item.first = .comma) :
    commaGoesAgain (blanks ++ item :: right) =
      (commaGoes (right.map Judged.first) && commaGoes (right.map Judged.again)) := by
  have hdrop : (blanks ++ item :: right).dropWhile (fun judged => judged.first.isBlank) =
      item :: right := by
    rw [List.dropWhile_append_of_pos hblanks,
      List.dropWhile_cons_of_neg (by rw [hcomma]; exact Bool.false_ne_true)]
  obtain ⟨first, again⟩ := item
  dsimp only at hcomma
  subst hcomma
  rw [commaGoesAgain, hdrop]

/-- Past the blanks there is nothing, or a lexeme that is none. -/
theorem blanks_or_solid (judged : List Judged) :
    (∀ other ∈ judged, other.first.isBlank = true) ∨ ∃ blanks item right,
      judged = blanks ++ item :: right ∧ (∀ other ∈ blanks, other.first.isBlank = true) ∧
        item.first.isBlank = false := by
  have hblanks : ∀ other ∈ judged.takeWhile fun other => other.first.isBlank,
      other.first.isBlank = true := fun _ hmem =>
    List.mem_takeWhile_imp (p := fun other : Judged => other.first.isBlank) hmem
  have hshape : (judged.takeWhile fun other => other.first.isBlank) ++
      (judged.dropWhile fun other => other.first.isBlank) = judged :=
    List.takeWhile_append_dropWhile
  cases hlater : judged.dropWhile fun other => other.first.isBlank with
  | nil =>
      rw [hlater, List.append_nil] at hshape
      rw [hshape] at hblanks
      exact .inl hblanks
  | cons item right =>
      have hhead := List.head?_dropWhile_not (fun other : Judged => other.first.isBlank) judged
      rw [hlater] at hhead hshape
      exact .inr ⟨_, item, right, hshape.symm, hblanks, by simpa using hhead⟩

end Judged

/-! ## What a second folding changes -/

section Twice

variable {text : List Char}

theorem staysAgain_of_split {left right : List Judged} {item : Judged}
    (hsettled : Settled (judgedOf alphanumeric text))
    (hjudged : judgedOf alphanumeric text = left ++ item :: right) :
    StaysAgain left.getLast? item right := by
  have hstays := hsettled left item right hjudged
  rwa [Option.or_none] at hstays

theorem staysAgain_comma {previous : Option Judged} {item : Judged} {rest : List Judged}
    (hcomma : item.first = .comma) :
    StaysAgain previous item rest ↔
      (commaGoes (rest.map Judged.first) = false → commaGoesAgain rest = false) := by
  obtain ⟨first, again⟩ := item
  dsimp only at hcomma
  subst hcomma
  exact Iff.rfl

theorem blank_of_map {judged : List Judged} {blanks : List Lexeme}
    (hmap : judged.map Judged.first = blanks) (hblanks : ∀ item ∈ blanks, item.isBlank = true) :
    ∀ other ∈ judged, other.first.isBlank = true := by
  intro other hother
  exact hblanks other.first (by rw [← hmap]; exact List.mem_map_of_mem hother)

theorem sound_of_split {left right : List Judged}
    (hjudged : judgedOf alphanumeric text = left ++ right) : ∀ other ∈ right, other.Sound :=
  fun other hmem => (chained_judgedOf text).sound other
    (by rw [hjudged]; exact List.mem_append_right left hmem)

theorem Settled.commas (hsettled : Settled (judgedOf alphanumeric text))
    {before gap after space rest : List Char} {letter : Char}
    (htext : text = before ++ ',' :: (gap ++ ',' :: after))
    (hplace : Outside before (',' :: (gap ++ ',' :: after))) (hgap : IsGap gap)
    (hafter : after = space ++ letter :: rest) (hspace : IsGap space)
    (hcloses : ClosesAt alphanumeric (before ++ ',' :: (gap ++ ',' :: space)) letter rest) :
    ¬ClosesLaterAt alphanumeric (before ++ ',' :: (gap ++ ',' :: space)) letter rest := by
  subst hafter
  intro hlater
  have hsecond : text = (before ++ ',' :: gap) ++ ',' :: (space ++ letter :: rest) := by
    rw [htext]
    simp
  have hsecondPlace : Outside (before ++ ',' :: gap) (',' :: (space ++ letter :: rest)) :=
    outside_letter_space hplace rfl hgap
  have hthird : text = (before ++ ',' :: (gap ++ ',' :: space)) ++ letter :: rest := by
    rw [htext]
    simp
  obtain ⟨front, back, hfirst, hfront, -⟩ := @exists_comma alphanumeric _ _ _ htext hplace
  obtain ⟨middle, behind, hcomma, hmiddle, -⟩ :=
    @exists_comma alphanumeric _ _ _ hsecond hsecondPlace
  obtain ⟨most, last, hclosing, hmost, hlast⟩ := exists_closing hthird hcloses
  have hlonger : sourceOf middle = sourceOf front ++ (Lexeme.comma.source ++ gap) := by
    rw [hmiddle, hfront]
    rfl
  obtain ⟨one, rfl, rfl, hone⟩ := split_longer hfirst hcomma hlonger
  have hlongest : sourceOf most =
      sourceOf (front ++ Lexeme.comma :: one) ++ (Lexeme.comma.source ++ space) := by
    rw [hmost, hmiddle, List.append_assoc]
    rfl
  obtain ⟨two, rfl, rfl, htwo⟩ := split_longer hcomma hclosing hlongest
  obtain ⟨left, item, right, hjudged, hleft, hitem, hright⟩ := judged_of_split hfirst
  rw [List.append_cons] at hfirst hcomma
  obtain ⟨ones, others, rfl, hones, hothers⟩ := List.map_eq_append_iff.1 hright
  obtain ⟨second, others, rfl, hcommaSecond, hmore⟩ := List.map_eq_cons_iff.1 hothers
  obtain ⟨twos, others, rfl, htwos, hothers⟩ := List.map_eq_append_iff.1 hmore
  obtain ⟨bracket, others, rfl, hbracket, hend⟩ := List.map_eq_cons_iff.1 hothers
  have honeBlank := blank_of_map hones (isBlank_of_space hfirst (by rw [hone]; exact hgap))
  have htwoBlank := blank_of_map htwos (isBlank_of_space hcomma (by rw [htwo]; exact hspace))
  have hinner : judgedOf alphanumeric text =
      (left ++ item :: ones ++ second :: twos) ++ bracket :: others := by
    rw [hjudged]
    simp
  have hagain : bracket.again.isClosing = true := by
    rw [closing_again_iff hinner (by rw [hbracket]; rfl), hend, hlast]
    have hsource : sourceOf ((left ++ item :: ones ++ second :: twos).map Judged.first) =
        before ++ ',' :: (gap ++ ',' :: space) := by
      rw [← hmost]
      simp [hleft, hitem, hones, hcommaSecond, htwos]
    rw [hsource]
    exact hlater
  have hclosed : bracket.first.isClosing = true := by
    rw [hbracket]
    rfl
  have hsolid : bracket.first.isBlank = false ∧ bracket.first ≠ .comma := by
    rw [hbracket]
    exact ⟨rfl, by simp⟩
  have hsound : ∀ other ∈ twos ++ [bracket], other.Sound := fun other hmem =>
    sound_of_split hjudged other (by simp at hmem ⊢; tauto)
  have hstays := (staysAgain_comma hitem).1 (staysAgain_of_split hsettled hjudged)
  rw [commaGoes_first honeBlank (by rw [hcommaSecond]; rfl),
    commaGoesAgain_comma honeBlank hcommaSecond, commaGoes_first htwoBlank hsolid.1,
    commaGoes_again hsound htwoBlank hsolid.1 hsolid.2, hcommaSecond, hclosed, hagain] at hstays
  exact absurd (hstays rfl) (by decide)

theorem sourceOf_behind {lexeme : Lexeme} {back : List Lexeme} {letter : Char}
    {rest : List Char} (hsource : lexeme.source = [letter])
    (hback : sourceOf (lexeme :: back) = letter :: rest) : sourceOf back = rest := by
  rw [sourceOf_letter hsource] at hback
  exact (List.cons.inj hback).2

theorem source_readAt_angle {before rest : List Char} {letter : Char}
    (hangle : letter = '<' ∨ letter = '>') :
    (readAt alphanumeric before letter rest).source = [letter] := by
  rcases hangle with rfl | rfl
  · rw [readAt, read_less]
    split_ifs <;> rfl
  · rw [readAt, read_greater]
    split_ifs <;> rfl

/-- Behind `fun` and white space no string and no comment is open. -/
theorem FunBehind.place {head gap after : List Char} (hfun : FunBehind head gap after) :
    Outside (head ++ "fun".toList ++ gap) ('<' :: after) := by
  have houtside := hfun.outside
  have hshape : "fun".toList ++ gap ++ '<' :: after =
      ("fun".toList ++ gap) ++ '<' :: after := rfl
  rw [hshape] at houtside
  rw [List.append_assoc, outside_append houtside, pending_append]
  have hword : pending 0 "fun".toList (gap ++ '<' :: after) = 0 := by
    simp [pending, flatLength]
  rw [hword]
  exact pending_space hfun.space _

theorem Settled.opens (hsettled : Settled (judgedOf alphanumeric text))
    {before gap rest : List Char} {letter : Char}
    (htext : text = before ++ '<' :: (gap ++ letter :: rest))
    (hgains : GainsFun alphanumeric before (gap ++ letter :: rest)) (hfilled : gap ≠ [])
    (hgap : IsGap gap) (hletter : isWhitespace letter = false) :
    letter = ',' ∨ ClosesAt alphanumeric (before ++ '<' :: gap) letter rest := by
  by_contra hneither
  obtain ⟨hcomma, hcloses⟩ := not_or.1 hneither
  have hplace : Outside before ('<' :: (gap ++ letter :: rest)) := by
    obtain ⟨-, head, ending, space, rfl, hfun, -⟩ := hgains
    exact hfun.place
  obtain ⟨front, back, hless, hfront, hback⟩ :=
    @exists_split_solid alphanumeric text _ _ _ htext hplace (by decide)
  have hsource := @source_readAt_angle alphanumeric before (gap ++ letter :: rest) '<' (.inl rfl)
  have hafter := sourceOf_behind hsource hback
  obtain ⟨back, rfl, hbehind⟩ := gap_of_split hless hafter hfilled hgap hletter
  have hless' := hless
  rw [List.append_cons] at hless'
  obtain ⟨back, rfl, -⟩ := next_of_split hless' hbehind
  obtain ⟨left, item, right, hjudged, hleft, hitem, hright⟩ := judged_of_split hless
  obtain ⟨blank, others, rfl, hblank, hothers⟩ := List.map_eq_cons_iff.1 hright
  obtain ⟨next, others, rfl, hnext, hlast⟩ := List.map_eq_cons_iff.1 hothers
  have hagain : item.again.isOpening = true := by
    apply opening_of_gainsFun hjudged (by rw [hitem, hsource])
    rw [hleft, hright, hfront, hafter]
    exact hgains
  have hshut : ¬item.first.isOpening = true := by
    intro hopening
    have hopens := (opensAt_iff hless hsource).2 (by rw [← hitem]; exact hopening)
    rcases hopens.2 with hround | hsquare | ⟨-, htypes⟩
    · exact absurd hround (by decide)
    · exact absurd hsquare (by decide)
    · refine not_letsOpen_of_gainsFun hless hsource ?_ (opensTypes_iff.1 htypes).1
      rw [hfront, hafter]
      exact hgains
  have hbefore := hless'
  rw [List.append_cons] at hbefore
  have hbeforeSource : sourceOf
      (front ++ [readAt alphanumeric before '<' (gap ++ letter :: rest)] ++ [Lexeme.blank gap]) =
        before ++ '<' :: gap := by
    rw [sourceOf_concat, sourceOf_concat, hsource, hfront, List.append_assoc]
    rfl
  have hclosed : ¬next.first.isClosing = true := by
    rw [hnext, isClosing_next hbefore hbehind, hbeforeSource]
    exact hcloses
  have hother : next.first ≠ .comma := by
    rw [hnext, ne_eq, eq_comma_next hbefore hbehind]
    exact hcomma
  have hinner : judgedOf alphanumeric text = (left ++ [item]) ++ blank :: next :: others := by
    rw [hjudged]
    simp
  have hstays := staysAgain_of_split hsettled hinner
  rw [List.getLast?_concat, staysAgain_blank (by rw [hblank]; rfl)] at hstays
  simp [blankStays, hshut, hclosed, hother, hagain] at hstays

theorem Settled.closes (hsettled : Settled (judgedOf alphanumeric text))
    {before run after : List Char} (htext : text = before ++ (run ++ '>' :: after))
    (hrun : RunAt before run ('>' :: after))
    (hlater : ClosesLaterAt alphanumeric (before ++ run) '>' after) :
    before = [] ∨ EndsOpen alphanumeric before (run ++ '>' :: after) ∨
      ClosesAt alphanumeric (before ++ run) '>' after := by
  by_contra hnone
  obtain ⟨hfilled, hnone⟩ := not_or.1 hnone
  obtain ⟨hopen, hcloses⟩ := not_or.1 hnone
  obtain ⟨front, back, hblank, hfront, hback⟩ :=
    @exists_run alphanumeric _ _ _ _ htext hrun
  have hends := endsOpen_iff hblank
  rw [sourceOf_cons, hback, hfront] at hends
  obtain ⟨back, rfl, hsame⟩ := next_of_split hblank hback
  have hblank' := hblank
  rw [List.append_cons] at hblank'
  have hbefore : sourceOf (front ++ [Lexeme.blank run]) = before ++ run := by
    rw [sourceOf_concat, hfront]
    rfl
  obtain ⟨left, item, right, hjudged, hleft, hitem, hright⟩ := judged_of_split hblank
  obtain ⟨next, others, rfl, hnext, hlast⟩ := List.map_eq_cons_iff.1 hright
  have hsource : next.first.source = ['>'] := by
    rw [hnext]
    exact source_readAt_angle (.inr rfl)
  have hinner : judgedOf alphanumeric text = (left ++ [item]) ++ next :: others := by
    rw [hjudged]
    simp
  have hfirsts : (left ++ [item]).map Judged.first = front ++ [Lexeme.blank run] := by
    rw [List.map_append, hleft, ← hitem]
    rfl
  have hagain : next.again.isClosing = true := by
    rw [← hnext] at hsame
    rw [closing_again_iff hinner hsource, hfirsts, hbefore, hlast, sourceOf_behind hsource hsame]
    exact hlater
  have hclosed : ¬next.first.isClosing = true := by
    rw [hnext, isClosing_next hblank' hsame, hbefore]
    exact hcloses
  have hother : next.first ≠ .comma := by
    rw [hnext, ne_eq, eq_comma_next hblank' hsame]
    decide
  have hstays := staysAgain_of_split hsettled hjudged
  rw [staysAgain_blank (by rw [hitem]; rfl), List.head?_cons, Option.map_some, Option.map_some,
    blankStays_closing hagain, ← List.getLast?_map, hleft] at hstays
  cases front using List.reverseRecOn with
  | nil => exact hfilled hfront.symm
  | append_singleton front last =>
      rw [List.getLast?_concat] at hends hstays
      have hshut : ¬last.isOpening = true := fun hopening => hopen (hends.2 hopening)
      simp [blankStays, hshut, hclosed, hother] at hstays

theorem Settled.commasClosed (hsettled : Settled (judgedOf alphanumeric text))
    {before gap after : List Char} (htext : text = before ++ ',' :: (gap ++ '>' :: after))
    (hplace : Outside before (',' :: (gap ++ '>' :: after))) (hgap : IsGap gap)
    (hlater : ClosesLaterAt alphanumeric (before ++ ',' :: gap) '>' after) :
    ClosesAt alphanumeric (before ++ ',' :: gap) '>' after := by
  by_contra hcloses
  have hsecond : text = (before ++ ',' :: gap) ++ '>' :: after := by
    rw [htext]
    simp
  obtain ⟨front, back, hcomma, hfront, -⟩ := @exists_comma alphanumeric _ _ _ htext hplace
  obtain ⟨most, last, hgreater, hmost, hlast⟩ :=
    @exists_split_solid alphanumeric text _ _ _ hsecond hlater.1 (by decide)
  have hlonger : sourceOf most = sourceOf front ++ (Lexeme.comma.source ++ gap) := by
    rw [hmost, hfront]
    rfl
  obtain ⟨one, rfl, rfl, hone⟩ := split_longer hcomma hgreater hlonger
  obtain ⟨left, item, right, hjudged, hleft, hitem, hright⟩ := judged_of_split hcomma
  rw [List.append_cons] at hcomma
  obtain ⟨ones, others, rfl, hones, hothers⟩ := List.map_eq_append_iff.1 hright
  obtain ⟨bracket, others, rfl, hbracket, hend⟩ := List.map_eq_cons_iff.1 hothers
  have honeBlank := blank_of_map hones (isBlank_of_space hcomma (by rw [hone]; exact hgap))
  have hinner : judgedOf alphanumeric text = (left ++ item :: ones) ++ bracket :: others := by
    rw [hjudged]
    simp
  have hfirsts : (left ++ item :: ones).map Judged.first = front ++ Lexeme.comma :: one := by
    rw [List.map_append, List.map_cons, hleft, hitem, hones]
  have hsource : bracket.first.source = ['>'] := by
    rw [hbracket]
    exact source_readAt_angle (.inr rfl)
  have hclosed : ¬bracket.first.isClosing = true := by
    rw [hbracket, isClosing_next hgreater hlast, hmost]
    exact hcloses
  have hsolid : bracket.first.isBlank = false ∧ bracket.first ≠ .comma := by
    constructor
    · rw [Bool.eq_false_iff]
      intro hblank
      obtain ⟨run, hrun⟩ := Lexeme.eq_blank hblank
      have hproper := (lexes_lexemesOf alphanumeric text).proper bracket.first
        (by rw [hgreater, hbracket]; simp)
      rw [hrun] at hproper hsource
      exact absurd (hproper.2 '>' (by rw [show run = ['>'] from hsource]; simp)) (by decide)
    · rw [hbracket, ne_eq, eq_comma_next hgreater hlast]
      decide
  have hagain : bracket.again.isClosing = true := by
    rw [← hbracket] at hlast
    rw [closing_again_iff hinner hsource, hfirsts, hmost, hend, sourceOf_behind hsource hlast]
    exact hlater
  have hsound : ∀ other ∈ ones ++ [bracket], other.Sound := fun other hmem =>
    sound_of_split hjudged other (by simp at hmem ⊢; tauto)
  have hstays := (staysAgain_comma hitem).1 (staysAgain_of_split hsettled hjudged)
  rw [commaGoes_first honeBlank hsolid.1, commaGoesAgain_solid hsound honeBlank hsolid.1 hsolid.2,
    hagain] at hstays
  exact absurd (hstays (Bool.eq_false_iff.2 hclosed)) (by decide)

section Kept

variable {left right : List Judged} {previous item next : Judged} {run : List Char}

/-- Behind a blank that stays stands its next lexeme. -/
theorem next_of_blank
    (hjudged : judgedOf alphanumeric text = left ++ previous :: item :: next :: right)
    (hrun : item.first = .blank run) :
    lexemesOf alphanumeric text =
      (left.map Judged.first ++ [previous.first] ++ [Lexeme.blank run]) ++
        next.first :: right.map Judged.first ∧
      RunAt (sourceOf (left.map Judged.first) ++ previous.first.source) run
        (sourceOf (next.first :: right.map Judged.first)) := by
  have hsplit := firsts_of_split hjudged
  rw [List.map_cons, List.map_cons, hrun] at hsplit
  have hbefore : lexemesOf alphanumeric text = (left.map Judged.first ++ [previous.first]) ++
      .blank run :: next.first :: right.map Judged.first := by
    rw [hsplit]
    simp
  have hplace := runAt_of_split hbefore
  rw [sourceOf_concat] at hplace
  refine ⟨?_, hplace⟩
  rw [hbefore]
  simp

/-- No bracket before a blank that stays opens again only. -/
theorem FoldsOnce.not_opens (hfolds : FoldsOnce alphanumeric text)
    (hjudged : judgedOf alphanumeric text = left ++ previous :: item :: next :: right)
    (hrun : item.first = .blank run) (hshut : ¬previous.first.isOpening = true)
    (hclosed : ¬next.first.isClosing = true) (hother : next.first ≠ .comma) :
    ¬previous.again.isOpening = true := by
  intro hagain
  obtain ⟨hless, hgains⟩ := gainsFun_of_again hjudged hshut hagain
  obtain ⟨hsplit, hplace⟩ := next_of_blank hjudged hrun
  obtain ⟨first, inner, hfirst, -⟩ := begins_of_split hsplit
  have hback : sourceOf (next.first :: right.map Judged.first) =
      first :: (inner ++ sourceOf (right.map Judged.first)) := by
    rw [sourceOf_cons, hfirst]
    rfl
  have hrest : sourceOf ((item :: next :: right).map Judged.first) =
      run ++ first :: (inner ++ sourceOf (right.map Judged.first)) := by
    rw [List.map_cons, List.map_cons, sourceOf_cons, hback, hrun]
    rfl
  have hbefore : sourceOf (left.map Judged.first ++ [previous.first] ++ [Lexeme.blank run]) =
      sourceOf (left.map Judged.first) ++ '<' :: run := by
    rw [sourceOf_concat, sourceOf_concat, hless, List.append_assoc]
    rfl
  have htext : text = sourceOf (left.map Judged.first) ++
      '<' :: (run ++ first :: (inner ++ sourceOf (right.map Judged.first))) := by
    rw [← hrest, text_of_split (firsts_of_split hjudged), hless]
    rfl
  have hspace : isWhitespace first = false := hplace.ends first (by rw [hback]; rfl)
  rw [hrest] at hgains
  rcases hfolds.opens _ run first _ htext hgains hplace.filled hplace.space hspace with
    rfl | hcloses
  · exact hother ((eq_comma_next hsplit hback).2 rfl)
  · rw [← hbefore] at hcloses
    exact hclosed ((isClosing_next hsplit hback).2 hcloses)

/-- No bracket behind one closes again only. -/
theorem FoldsOnce.not_closes (hfolds : FoldsOnce alphanumeric text)
    (hjudged : judgedOf alphanumeric text = left ++ previous :: item :: next :: right)
    (hrun : item.first = .blank run) (hshut : ¬previous.first.isOpening = true)
    (hclosed : ¬next.first.isClosing = true) : ¬next.again.isClosing = true := by
  intro hagain
  have hlater : judgedOf alphanumeric text = (left ++ [previous] ++ [item]) ++ next :: right := by
    rw [hjudged]
    simp
  obtain ⟨hgreater, hcloses⟩ := greater_of_again hlater hclosed hagain
  obtain ⟨hsplit, hplace⟩ := next_of_blank hjudged hrun
  have hfirsts : (left ++ [previous] ++ [item]).map Judged.first =
      left.map Judged.first ++ [previous.first] ++ [Lexeme.blank run] := by
    rw [List.map_append, List.map_append, ← hrun]
    rfl
  have hbefore : sourceOf (left.map Judged.first ++ [previous.first] ++ [Lexeme.blank run]) =
      sourceOf (left.map Judged.first) ++ previous.first.source ++ run := by
    rw [sourceOf_concat, sourceOf_concat]
    rfl
  have hback := sourceOf_letter hgreater (right.map Judged.first)
  have htext := text_of_split hsplit
  rw [← sourceOf_cons, hbefore, hback, List.append_assoc] at htext
  rw [hfirsts, hbefore] at hcloses
  rw [hback] at hplace
  rcases hfolds.closes _ run _ htext hplace hcloses with hnil | hopen | hnow
  · have hfilled := (lexes_lexemesOf alphanumeric text).wellRead.filled previous.first
      (by rw [hsplit]; simp)
    exact hfilled (List.append_eq_nil_iff.1 hnil).2
  · have hblank : lexemesOf alphanumeric text = (left.map Judged.first ++ [previous.first]) ++
        .blank run :: (next.first :: right.map Judged.first) := by
      rw [hsplit]
      simp
    have hends := endsOpen_iff hblank
    rw [sourceOf_cons, hback, sourceOf_concat, List.getLast?_concat, Option.any_some] at hends
    exact hshut (hends.1 hopen)
  · rw [← hbefore] at hnow
    exact hclosed ((isClosing_next hsplit hback).2 hnow)

end Kept

theorem FoldsOnce.blank (hfolds : FoldsOnce alphanumeric text) {left right : List Judged}
    {item : Judged} (hjudged : judgedOf alphanumeric text = left ++ item :: right)
    (hitem : item.first.isBlank = true) : StaysAgain left.getLast? item right := by
  rw [staysAgain_blank hitem]
  intro hstays
  cases left using List.reverseRecOn with
  | nil => cases hstays
  | append_singleton left previous =>
      cases right with
      | nil =>
          rw [blankStays, List.head?_nil, Option.map_none, Option.any_none, Bool.and_false]
            at hstays
          cases hstays
      | cons next right =>
          rw [List.getLast?_concat, List.head?_cons] at hstays ⊢
          have hshut : ¬previous.first.isOpening = true := by
            intro hopening
            simp [blankStays, hopening] at hstays
          have hclosed : ¬next.first.isClosing = true := by
            intro hclosing
            simp [blankStays, hclosing] at hstays
          have hother : next.first ≠ .comma := by
            intro hcomma
            simp [blankStays, hcomma] at hstays
          obtain ⟨run, hrun⟩ := Lexeme.eq_blank hitem
          have hsolid : next.first.isBlank = false := by
            have hchained := @chained_judgedOf alphanumeric text
            rw [hjudged] at hchained
            have hpair := (List.isChain_cons_cons.1
              (List.isChain_append.1 hchained.apart).2.1).1
            exact Bool.eq_false_iff.2 fun hblank => hpair ⟨hitem, hblank⟩
          have hsound : next.Sound := sound_of_split hjudged next (by simp)
          rw [List.append_assoc, List.singleton_append] at hjudged
          have hopens := hfolds.not_opens hjudged hrun hshut hclosed hother
          have hcloses := hfolds.not_closes hjudged hrun hshut hclosed
          simp [blankStays, hopens, hcloses, (hsound.solid hsolid hother).2]

theorem commaGoes_blanks {blanks : List Lexeme}
    (hblanks : ∀ item ∈ blanks, item.isBlank = true) : commaGoes blanks = false := by
  rw [commaGoes, List.dropWhile_eq_nil_iff.2 hblanks]
  rfl

/-- Of two commas the second goes first when a bracket behind them closes both times. -/
theorem FoldsOnce.second (hfolds : FoldsOnce alphanumeric text)
    {left ones later : List Judged} {item next : Judged}
    (hjudged : judgedOf alphanumeric text = left ++ item :: (ones ++ next :: later))
    (hitem : item.first = .comma) (hones : ∀ other ∈ ones, other.first.isBlank = true)
    (hnext : next.first = .comma) :
    (commaGoes (later.map Judged.first) && commaGoes (later.map Judged.again)) = false := by
  rcases blanks_or_solid later with hall | ⟨twos, bracket, others, rfl, htwos, hsolid⟩
  · rw [commaGoes_blanks (first_blank hall), Bool.false_and]
  rw [commaGoes_first htwos hsolid]
  by_cases hcomma : bracket.first = .comma
  · rw [hcomma]
    rfl
  have hsound : ∀ other ∈ twos ++ [bracket], other.Sound := fun other hmem =>
    sound_of_split hjudged other (by simp at hmem ⊢; tauto)
  rw [commaGoes_again hsound htwos hsolid hcomma, Bool.and_eq_false_imp]
  intro hclosing
  rw [Bool.eq_false_iff]
  intro hagain
  have hlast : judgedOf alphanumeric text =
      (left ++ item :: ones ++ next :: twos) ++ bracket :: others := by
    rw [hjudged]
    simp
  obtain ⟨letter, hletter⟩ := single_of_again hlast hagain
  have hlater := (closing_again_iff hlast hletter).1 hagain
  have hcloses := (closesAt_iff (firsts_of_split hlast) hletter).2 hclosing
  have hitemSource : item.first.source = [','] := by
    rw [hitem]
    rfl
  have hnextSource : next.first.source = [','] := by
    rw [hnext]
    rfl
  have hfront : sourceOf ((left ++ item :: ones ++ next :: twos).map Judged.first) =
      sourceOf (left.map Judged.first) ++ ',' ::
        (sourceOf (ones.map Judged.first) ++ ',' :: sourceOf (twos.map Judged.first)) := by
    simp only [List.map_append, List.map_cons, sourceOf_append, sourceOf_letter hitemSource,
      sourceOf_letter hnextSource, List.append_assoc, List.cons_append]
  have hsplit := firsts_of_split hjudged
  rw [hitem] at hsplit
  have hrest : sourceOf ((ones ++ next :: (twos ++ bracket :: others)).map Judged.first) =
      sourceOf (ones.map Judged.first) ++ ',' :: (sourceOf (twos.map Judged.first) ++
        letter :: sourceOf (others.map Judged.first)) := by
    simp only [List.map_append, List.map_cons, sourceOf_append, sourceOf_letter hnextSource,
      sourceOf_letter hletter]
  have htext := text_of_split hsplit
  obtain ⟨hplace, -⟩ := readAt_of_letter hsplit rfl
  rw [hrest] at htext hplace
  rw [hfront] at hlater hcloses
  have honeSplit : lexemesOf alphanumeric text =
      (left.map Judged.first ++ [Lexeme.comma]) ++ (ones.map Judged.first ++
        (next :: (twos ++ bracket :: others)).map Judged.first) := by
    rw [hsplit]
    simp
  have htwoSplit : lexemesOf alphanumeric text =
      (left ++ item :: ones ++ [next]).map Judged.first ++ (twos.map Judged.first ++
        (bracket :: others).map Judged.first) := by
    rw [hsplit, ← hitem]
    simp
  exact hfolds.commas _ _ _ _ _ _ htext hplace (isGap_blanks honeSplit (first_blank hones)) rfl
    (isGap_blanks htwoSplit (first_blank htwos)) hcloses hlater

theorem FoldsOnce.comma (hfolds : FoldsOnce alphanumeric text) {left right : List Judged}
    {item : Judged} (hjudged : judgedOf alphanumeric text = left ++ item :: right)
    (hitem : item.first = .comma) : StaysAgain left.getLast? item right := by
  rw [staysAgain_comma hitem]
  intro hstays
  rcases blanks_or_solid right with hall | ⟨ones, next, later, rfl, hones, hsolid⟩
  · rw [commaGoesAgain, List.dropWhile_eq_nil_iff.2 hall]
    rfl
  by_cases hnext : next.first = .comma
  · rw [commaGoesAgain_comma hones hnext]
    exact hfolds.second hjudged hitem hones hnext
  have hsound : ∀ other ∈ ones ++ [next], other.Sound := fun other hmem =>
    sound_of_split hjudged other (by simp at hmem ⊢; tauto)
  rw [commaGoes_first hones hsolid] at hstays
  rw [commaGoesAgain_solid hsound hones hsolid hnext, Bool.eq_false_iff]
  intro hagain
  have hlast : judgedOf alphanumeric text = (left ++ item :: ones) ++ next :: later := by
    rw [hjudged]
    simp
  obtain ⟨hgreater, hlater⟩ := greater_of_again hlast (Bool.eq_false_iff.1 hstays) hagain
  have hitemSource : item.first.source = [','] := by
    rw [hitem]
    rfl
  have hfront : sourceOf ((left ++ item :: ones).map Judged.first) =
      sourceOf (left.map Judged.first) ++ ',' :: sourceOf (ones.map Judged.first) := by
    simp only [List.map_append, List.map_cons, sourceOf_append, sourceOf_letter hitemSource]
  have hsplit := firsts_of_split hjudged
  rw [hitem] at hsplit
  have hrest : sourceOf ((ones ++ next :: later).map Judged.first) =
      sourceOf (ones.map Judged.first) ++ '>' :: sourceOf (later.map Judged.first) := by
    simp only [List.map_append, List.map_cons, sourceOf_append, sourceOf_letter hgreater]
  have htext := text_of_split hsplit
  obtain ⟨hplace, -⟩ := readAt_of_letter hsplit rfl
  rw [hrest] at htext hplace
  have honeSplit : lexemesOf alphanumeric text =
      (left.map Judged.first ++ [Lexeme.comma]) ++ (ones.map Judged.first ++
        (next :: later).map Judged.first) := by
    rw [hsplit]
    simp
  have hcloses := closesAt_iff (firsts_of_split hlast) hgreater
  rw [hfront] at hlater hcloses
  have hnow := hfolds.commasClosed _ _ _ htext hplace (isGap_blanks honeSplit (first_blank hones))
    hlater
  rw [hcloses.1 hnow] at hstays
  cases hstays

theorem settled_iff (text : List Char) :
    Settled (judgedOf alphanumeric text) ↔ FoldsOnce alphanumeric text := by
  constructor
  · intro hsettled
    exact ⟨fun _ _ _ _ _ _ => hsettled.commas, fun _ _ _ _ => hsettled.opens,
      fun _ _ _ => hsettled.closes, fun _ _ _ => hsettled.commasClosed⟩
  · intro hfolds left item right hjudged
    rw [Option.or_none]
    cases hblank : item.first.isBlank with
    | true => exact hfolds.blank hjudged hblank
    | false =>
        by_cases hcomma : item.first = .comma
        · exact hfolds.comma hjudged hcomma
        · exact staysAgain_solid hblank hcomma

end Twice

variable (alphanumeric)

/-- Folding a text twice is folding it once exactly when the brackets that the folding
changes leave nothing to fold, and no comma is left behind a comma. -/
theorem folded_twice_iff (text : String) :
    (∃ once, normalizeSignatureLayout alphanumeric text = some once ∧
      normalizeSignatureLayout alphanumeric once = some once) ↔
        FoldsOnce alphanumeric text.toList := by
  rw [folded_again_iff, settled_iff]

/-- A declaration on the line behind its modifier. -/
def spacedTypes : String := "private\nfun < T > f()"

/-- No space stands before `fun` until the line break is folded, so the blanks beside the
angle brackets go the second time only. -/
theorem spaced_types_folded_again :
    normalizeSignatureLayout Alphanumeric.onAscii spacedTypes =
        some "private fun < T > f()" ∧
      normalizeSignatureLayout Alphanumeric.onAscii "private fun < T > f()" =
        some "private fun <T> f()" ∧
      "private fun <T> f()" ≠ "private fun < T > f()" := by
  have honce : foldedFrom none (lexemesOf Alphanumeric.onAscii spacedTypes.toList) =
      "private fun < T > f()".toList := by
    decide
  have htwice :
      foldedFrom none (lexemesOf Alphanumeric.onAscii "private fun < T > f()".toList) =
        "private fun <T> f()".toList := by
    decide
  rw [normalizeSignatureLayout_eq, normalizeSignatureLayout_eq, honce, htwice,
    String.ofList_toList, String.ofList_toList]
  exact ⟨rfl, rfl, by decide⟩

end Ktsense.Core.Layout
