import Ktsense.Core.JavaTokens

/-!
# Texts that meet between tokens

Where two texts meet in code and between tokens, the tokens of both together are
those of the first and, moved on, those of the second.
-/

namespace Ktsense.Core

open Ktsense.Foundation

/-- Where lexing stands behind a text that is followed by more. -/
def lexEnd : LexState → List LexState → List (ℕ × Char) → List (ℕ × Char) →
    LexState × List LexState
  | state, taken, [], _ => (state, taken)
  | state, _ :: others, _ :: rest, more => lexEnd state others rest more
  | state, [], (_, letter) :: rest, more =>
      let (next, taken) := lexTurn state letter (rest ++ more)
      lexEnd next taken rest more

/-- Neither letter goes on with a token that the other is part of. -/
def Seam (letters : Letters) (last first : Char) : Prop :=
  ¬((isIdentStart letters last || isIdentContinue letters last) = true ∧
      isIdentContinue letters first = true) ∧
    ¬(last = '-' ∧ first = '>')

/-- Two texts that meet in code and between tokens. -/
structure Splits (letters : Letters) (first second : String) : Prop where
  code : lexEnd .code [] (charIndices 0 first.toList)
    (charIndices first.utf8ByteSize second.toList) = (.code, [])
  seam : ∀ last ∈ first.toList.getLast?, ∀ next ∈ second.toList.head?, Seam letters last next

instance (letters : Letters) (last first : Char) : Decidable (Seam letters last first) :=
  inferInstanceAs (Decidable (_ ∧ _))

theorem Splits.of_letters {letters : Letters} {first second : String} (last next : Char)
    (hcode : lexEnd .code [] (charIndices 0 first.toList)
      (charIndices first.utf8ByteSize second.toList) = (.code, []))
    (hlast : first.toList.getLast? = some last) (hnext : second.toList.head? = some next)
    (hseam : Seam letters last next) : Splits letters first second where
  code := hcode
  seam := by
    intro letter hletter other hother
    rw [hlast] at hletter
    rw [hnext] at hother
    cases hletter
    cases hother
    exact hseam

def Spanned.shift (lines bytes : ℕ) (here : Spanned) : Spanned :=
  ⟨here.token, here.line + lines, here.offset + bytes⟩

def Lexed.shift (bytes : ℕ) (here : Lexed) : Lexed := { here with offset := here.offset + bytes }

/-! ## Lexing -/

theorem lexTurn_of_taken_within (state : LexState) (letter : Char)
    (rest more : List (ℕ × Char))
    (hwithin : (lexTurn state letter (rest ++ more)).2.length ≤ rest.length) :
    lexTurn state letter rest = lexTurn state letter (rest ++ more) := by
  match rest with
  | [] =>
      cases state <;> simp only [lexTurn, List.nil_append, List.length_nil, Nat.le_zero_eq,
        List.head?_nil, List.drop_nil, Option.map_none] at hwithin ⊢ <;> grind
  | [next] =>
      cases state <;> simp only [lexTurn, List.cons_append, List.nil_append, List.length_cons,
        List.length_nil, List.head?_cons, List.drop_one, List.tail_cons, Option.map_some,
        List.head?_nil, Option.map_none] at hwithin ⊢ <;> grind
  | next :: afterNext :: rest => rfl

theorem taken_within (state : LexState) (taken : List LexState) (text more : List (ℕ × Char))
    (hend : (lexEnd state taken text more).2 = []) : taken.length ≤ text.length := by
  induction text generalizing state taken with
  | nil =>
      have htaken : taken = [] := hend
      rw [htaken]
      exact le_rfl
  | cons here rest ih =>
      cases taken with
      | nil => exact Nat.zero_le _
      | cons first others => exact Nat.succ_le_succ (ih state others hend)

/-- Behind a text that ends in code lexing starts again. -/
theorem lexFrom_append (state : LexState) (taken : List LexState)
    (text more : List (ℕ × Char)) (hend : lexEnd state taken text more = (.code, [])) :
    lexFrom state taken (text ++ more) = lexFrom state taken text ++ lexFrom .code [] more := by
  induction text generalizing state taken with
  | nil =>
      rw [lexEnd, Prod.mk.injEq] at hend
      rw [hend.1, hend.2]
      rfl
  | cons here rest ih =>
      cases taken with
      | cons first others =>
          rw [List.cons_append, lexFrom, lexFrom, ih state others hend, List.cons_append]
      | nil =>
          have hsame : lexTurn state here.2 rest = lexTurn state here.2 (rest ++ more) :=
            lexTurn_of_taken_within state here.2 rest more
              (taken_within _ _ rest more (congrArg Prod.snd hend))
          rw [List.cons_append, lexFrom, lexFrom, hsame, List.cons_append]
          exact congrArg _ (ih _ _ hend)

theorem charIndices_append (offset : ℕ) (text more : List Char) :
    charIndices offset (text ++ more) =
      charIndices offset text ++ charIndices (offset + (text.map Char.utf8Size).sum) more := by
  induction text generalizing offset with
  | nil => simp [charIndices]
  | cons letter rest ih =>
      rw [List.cons_append, charIndices, ih, charIndices, List.map_cons, List.sum_cons,
        Nat.add_assoc, List.cons_append]

theorem charIndices_add (offset bytes : ℕ) (text : List Char) :
    charIndices (offset + bytes) text =
      (charIndices offset text).map fun here => (here.1 + bytes, here.2) := by
  induction text generalizing offset with
  | nil => rfl
  | cons letter rest ih =>
      rw [charIndices, charIndices, List.map_cons, Nat.add_right_comm, ih]

theorem lexFrom_shift (bytes : ℕ) (state : LexState) (taken : List LexState)
    (text : List (ℕ × Char)) :
    lexFrom state taken (text.map fun here => (here.1 + bytes, here.2)) =
      (lexFrom state taken text).map (Lexed.shift bytes) := by
  induction text generalizing state taken with
  | nil => cases taken <;> rfl
  | cons here rest ih =>
      cases taken with
      | cons first others =>
          rw [List.map_cons, lexFrom, lexFrom, List.map_cons, ih]
          rfl
      | nil =>
          have hturn : lexTurn state here.2 (rest.map fun here => (here.1 + bytes, here.2)) =
              lexTurn state here.2 rest := by
            rcases rest with - | ⟨next, - | ⟨afterNext, rest⟩⟩ <;> rfl
          rw [List.map_cons, lexFrom, lexFrom, List.map_cons, hturn, ← ih]
          rfl

theorem utf8ByteSize_toList (text : String) :
    (text.toList.map Char.utf8Size).sum = text.utf8ByteSize := by
  rw [← utf8ByteSize_eq_sum, String.ofList_toList]

theorem lex_append {letters : Letters} {first second : String}
    (hsplits : Splits letters first second) :
    lex (first ++ second) = lex first ++ (lex second).map (Lexed.shift first.utf8ByteSize) := by
  have hsecond : lexFrom .code [] (charIndices first.utf8ByteSize second.toList) =
      (lex second).map (Lexed.shift first.utf8ByteSize) := by
    rw [← Nat.zero_add first.utf8ByteSize, charIndices_add, lexFrom_shift, Nat.zero_add, lex]
  rw [lex, String.toList_append, charIndices_append, utf8ByteSize_toList, Nat.zero_add,
    lexFrom_append _ _ _ _ hsplits.code, hsecond]
  rfl

/-! ## Tokenizing -/

section Tokenizing

variable (letters : Letters)

theorem tokenizeFrom_fuel (fuel line : ℕ) (lexed : List Lexed) (henough : lexed.length ≤ fuel) :
    tokenizeFrom letters fuel line lexed = tokenizeFrom letters lexed.length line lexed := by
  induction fuel using Nat.strong_induction_on generalizing line lexed with
  | _ fuel ih =>
      match lexed, fuel, henough with
      | [], 0, _ => rfl
      | [], fuel + 1, _ => rfl
      | here :: rest, fuel + 1, henough =>
          have hrest : rest.length ≤ fuel := Nat.le_of_succ_le_succ henough
          have hdrop (line count : ℕ) : tokenizeFrom letters fuel line (rest.drop count) =
              tokenizeFrom letters rest.length line (rest.drop count) := by
            have hfewer : (rest.drop count).length ≤ rest.length := by simp
            rw [ih fuel (Nat.lt_succ_self _) line _ (hfewer.trans hrest)]
            rcases Nat.lt_or_ge rest.length (fuel + 1) with hlt | hge
            · exact (ih rest.length hlt line _ hfewer).symm
            · omega
          have hwhole (line : ℕ) := hdrop line 0
          rw [List.drop_zero] at hwhole
          simp only [List.length_cons, tokenizeFrom, hdrop, hwhole]

/-- An arrow stands here. -/
def opensArrow (here : Lexed) (rest : List Lexed) : Bool :=
  here.letter = '-' && rest.head?.any fun next => next.letter = '>' && next.state.isCode

/-- The tokens of what is left, from a line on. -/
def tokensFrom (line : ℕ) (lexed : List Lexed) : List Spanned :=
  tokenizeFrom letters lexed.length line lexed

theorem tokensFrom_cons (line : ℕ) (here : Lexed) (rest : List Lexed) :
    tokensFrom letters line (here :: rest) =
      if here.letter = '\n' then tokensFrom letters (line + 1) rest
      else if !here.state.isCode || isWhitespace here.letter then tokensFrom letters line rest
      else if isIdentStart letters here.letter then
        ⟨.ident (wordText (here :: identWord letters rest)), line, here.offset⟩ ::
          tokensFrom letters line (rest.drop (identWord letters rest).length)
      else if opensArrow here rest then
        ⟨.arrow, line, here.offset⟩ :: tokensFrom letters line (rest.drop 1)
      else
        match structuralToken here.letter with
        | some token => ⟨token, line, here.offset⟩ :: tokensFrom letters line rest
        | none => tokensFrom letters line rest := by
  have hdrop (count : ℕ) : tokenizeFrom letters rest.length line (rest.drop count) =
      tokensFrom letters line (rest.drop count) :=
    tokenizeFrom_fuel letters _ line _ (by simp)
  rw [tokensFrom, List.length_cons, tokenizeFrom]
  simp only [List.length_cons, Nat.add_sub_cancel, hdrop]
  rfl

theorem tokensFrom_shift (line lines bytes : ℕ) (lexed : List Lexed) :
    tokensFrom letters (line + lines) (lexed.map (Lexed.shift bytes)) =
      (tokensFrom letters line lexed).map (Spanned.shift lines bytes) := by
  induction hlength : lexed.length using Nat.strong_induction_on generalizing line lexed with
  | _ length ih =>
      cases lexed with
      | nil => rfl
      | cons here rest =>
          subst hlength
          have hdrop (line count : ℕ) :
              tokensFrom letters (line + lines) ((rest.map (Lexed.shift bytes)).drop count) =
                (tokensFrom letters line (rest.drop count)).map (Spanned.shift lines bytes) := by
            rw [← List.map_drop]
            exact ih _ (by simp) line _ rfl
          have hwhole (line : ℕ) := hdrop line 0
          rw [List.drop_zero, List.drop_zero] at hwhole
          have harrow : opensArrow (here.shift bytes) (rest.map (Lexed.shift bytes)) =
              opensArrow here rest := by
            cases rest <;> rfl
          have hword : identWord letters (rest.map (Lexed.shift bytes)) =
              (identWord letters rest).map (Lexed.shift bytes) := by
            rw [identWord, List.takeWhile_map]
            rfl
          have htext (word : List Lexed) :
              wordText (word.map (Lexed.shift bytes)) = wordText word := by
            rw [wordText, List.map_map]
            rfl
          rw [List.map_cons, tokensFrom_cons, tokensFrom_cons, hword, List.length_map,
            ← List.map_cons, htext, harrow, hwhole, hdrop, hdrop, Nat.add_right_comm, hwhole]
          dsimp +instances only [Lexed.shift]
          split_ifs
          · rfl
          · rfl
          · rfl
          · rfl
          · split <;> rfl

end Tokenizing

/-! ## Tokens across a seam -/

section Seams

variable {letters : Letters}

/-- The last letter of one text and the first of another are apart. -/
def Seamed (letters : Letters) (lexed more : List Lexed) : Prop :=
  ∀ last ∈ lexed.getLast?, ∀ next ∈ more.head?, Seam letters last.letter next.letter

theorem Seamed.drop {here : Lexed} {rest more : List Lexed}
    (hseamed : Seamed letters (here :: rest) more) (count : ℕ) :
    Seamed letters (rest.drop count) more := by
  intro last hlast
  apply hseamed last
  obtain ⟨front, hfront⟩ := List.getLast?_eq_some_iff.mp hlast
  have hsplit : here :: rest = (here :: rest.take count ++ front) ++ [last] := by
    rw [List.append_assoc, ← hfront, List.cons_append, List.take_append_drop]
  rw [hsplit]
  exact List.getLast?_concat

theorem Seamed.identWord {here : Lexed} {rest more : List Lexed}
    (hseamed : Seamed letters (here :: rest) more)
    (hstart : isIdentStart letters here.letter = true) :
    identWord letters (rest ++ more) = identWord letters rest := by
  rw [Core.identWord, Core.identWord, List.takeWhile_append]
  split_ifs with hwhole
  · have hall := (List.takeWhile_prefix _).eq_of_length hwhole
    have hlast : ∀ last ∈ (here :: rest).getLast?,
        (isIdentStart letters last.letter || isIdentContinue letters last.letter) = true := by
      intro last hlast
      rcases List.mem_cons.mp (List.mem_of_getLast? hlast) with rfl | hrest
      · rw [hstart, Bool.true_or]
      · have hword := List.takeWhile_eq_self_iff.mp hall last hrest
        rw [(Bool.and_eq_true_iff.mp hword).2, Bool.or_true]
    cases more with
    | nil => rw [List.takeWhile_nil, List.append_nil, hall]
    | cons next others =>
        have hends : (here :: rest).getLast? = some ((here :: rest).getLast (by simp)) :=
          List.getLast?_eq_some_getLast _
        have hseam := (hseamed _ hends next rfl).1
        have hstops : ¬(next.state.isCode && isIdentContinue letters next.letter) = true :=
          fun hnext => hseam ⟨hlast _ hends, (Bool.and_eq_true_iff.mp hnext).2⟩
        rw [List.takeWhile_cons, if_neg hstops, List.append_nil, hall]
  · rfl

theorem Seamed.opensArrow {here : Lexed} {rest more : List Lexed}
    (hseamed : Seamed letters (here :: rest) more) :
    opensArrow here (rest ++ more) = opensArrow here rest := by
  cases rest with
  | cons next others => rfl
  | nil =>
      cases more with
      | nil => rfl
      | cons next others =>
          have hseam := (hseamed here rfl next rfl).2
          rw [List.nil_append, Bool.eq_iff_iff]
          simp only [Core.opensArrow, List.head?_cons, List.head?_nil, Option.any_some,
            Option.any_none, Bool.and_eq_true, decide_eq_true_eq]
          exact ⟨fun harrow => absurd ⟨harrow.1, harrow.2.1⟩ hseam, fun harrow => by simp at harrow⟩

/-- Behind a seam tokenizing starts again, on a line that the breaks before it lead to. -/
theorem tokensFrom_append (letters : Letters) (line : ℕ) (lexed : List Lexed) :
    ∃ lines ≤ lexed.countP (fun here => here.letter = '\n'), ∀ more : List Lexed,
      Seamed letters lexed more → tokensFrom letters line (lexed ++ more) =
        tokensFrom letters line lexed ++ tokensFrom letters (line + lines) more := by
  induction hlength : lexed.length using Nat.strong_induction_on generalizing line lexed with
  | _ length ih =>
      cases lexed with
      | nil => exact ⟨0, Nat.zero_le _, fun more _ => rfl⟩
      | cons here rest =>
          subst hlength
          -- a turn leaves a part of the rest, on this line or the next
          have hturn (count next : ℕ) := ih (rest.drop count).length (by simp) next _ rfl
          have hfewer (count : ℕ) := ((List.drop_sublist count rest).cons here).countP_le
            (p := fun here => decide (here.letter = '\n'))
          by_cases hbreak : here.letter = '\n'
          · obtain ⟨lines, hle, happend⟩ := hturn 0 (line + 1)
            refine ⟨lines + 1, ?_, fun more hseamed => ?_⟩
            · rw [List.countP_cons, if_pos (decide_eq_true hbreak)]
              exact Nat.succ_le_succ hle
            · rw [List.cons_append, tokensFrom_cons, tokensFrom_cons, if_pos hbreak,
                if_pos hbreak, Nat.add_comm lines, ← Nat.add_assoc]
              exact happend more (hseamed.drop 0)
          by_cases hpass : (!here.state.isCode || isWhitespace here.letter) = true
          · obtain ⟨lines, hle, happend⟩ := hturn 0 line
            refine ⟨lines, hle.trans (hfewer 0), fun more hseamed => ?_⟩
            rw [List.cons_append, tokensFrom_cons, tokensFrom_cons, if_neg hbreak, if_neg hbreak,
              if_pos hpass, if_pos hpass]
            exact happend more (hseamed.drop 0)
          by_cases hstart : isIdentStart letters here.letter = true
          · obtain ⟨lines, hle, happend⟩ := hturn (identWord letters rest).length line
            refine ⟨lines, hle.trans (hfewer _), fun more hseamed => ?_⟩
            have hdrop : (rest ++ more).drop (identWord letters rest).length =
                rest.drop (identWord letters rest).length ++ more :=
              List.drop_append_of_le_length (List.takeWhile_prefix _).length_le
            rw [List.cons_append, tokensFrom_cons, tokensFrom_cons, if_neg hbreak, if_neg hbreak,
              if_neg hpass, if_neg hpass, if_pos hstart, if_pos hstart,
              hseamed.identWord hstart, hdrop, happend more (hseamed.drop _), List.cons_append]
          by_cases harrow : opensArrow here rest = true
          · obtain ⟨lines, hle, happend⟩ := hturn 1 line
            refine ⟨lines, hle.trans (hfewer _), fun more hseamed => ?_⟩
            have hdrop : (rest ++ more).drop 1 = rest.drop 1 ++ more := by
              cases rest with
              | nil => simp [opensArrow] at harrow
              | cons next others => rfl
            rw [List.cons_append, tokensFrom_cons, tokensFrom_cons, if_neg hbreak, if_neg hbreak,
              if_neg hpass, if_neg hpass, if_neg hstart, if_neg hstart, hseamed.opensArrow,
              if_pos harrow, if_pos harrow, hdrop, happend more (hseamed.drop _),
              List.cons_append]
          · obtain ⟨lines, hle, happend⟩ := hturn 0 line
            refine ⟨lines, hle.trans (hfewer 0), fun more hseamed => ?_⟩
            have hrest := happend more (hseamed.drop 0)
            rw [List.drop_zero] at hrest
            rw [List.cons_append, tokensFrom_cons, tokensFrom_cons, if_neg hbreak, if_neg hbreak,
              if_neg hpass, if_neg hpass, if_neg hstart, if_neg hstart, hseamed.opensArrow,
              if_neg harrow, if_neg harrow, hrest]
            split <;> rfl

/-- Tokens of one text and, moved on, of another behind it. -/
theorem tokenize_append (letters : Letters) (first : String) :
    ∃ lines ≤ first.toList.count '\n', ∀ second, Splits letters first second →
      tokenize letters (first ++ second) = tokenize letters first ++
        (tokenize letters second).map (Spanned.shift lines first.utf8ByteSize) := by
  obtain ⟨lines, hlines, happend⟩ := tokensFrom_append letters 1 (lex first)
  refine ⟨lines, ?_, fun second hsplits => ?_⟩
  · rw [← lex_letters, List.count_eq_countP, List.countP_map]
    exact hlines.trans (List.countP_congr fun here _ => by simp).le
  · have hseamed : Seamed letters (lex first)
        ((lex second).map (Lexed.shift first.utf8ByteSize)) := by
      intro last hlast next hnext
      rw [List.head?_map] at hnext
      obtain ⟨head, hhead, rfl⟩ := Option.mem_map.mp hnext
      refine hsplits.seam last.letter ?_ head.letter ?_
      · rw [← lex_letters, List.getLast?_map]
        exact Option.mem_map_of_mem _ hlast
      · rw [← lex_letters, List.head?_map]
        exact Option.mem_map_of_mem _ hhead
    have htokens := happend _ hseamed
    rw [← lex_append hsplits, tokensFrom_shift] at htokens
    exact htokens

end Seams

end Ktsense.Core
