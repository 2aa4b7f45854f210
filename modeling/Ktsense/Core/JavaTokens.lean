import Ktsense.Core.JavaScan
import Ktsense.Foundation.ByteOffsets

/-!
# The tokens both Java scans walk

An annotation use is passed over by both scans alike, so each of them folds over
what is left.  The tokens stand in the order of their offsets, on lines that never
go back.
-/

namespace Ktsense.Core

open Ktsense.Foundation

/-- What a scan acts on: a token, or the `@` of an annotation type together with
its keyword. -/
inductive Seen where
  | token (here : Spanned)
  | annotationType (here : Spanned)
  deriving DecidableEq, Repr

def Seen.spanned : Seen → Spanned
  | .token here => here
  | .annotationType here => here

/-- What a scan makes of an `@`, and the tokens it goes on with. -/
def seenAt (here : Spanned) (rest : List Spanned) : List Seen × List Spanned :=
  match rest with
  | ⟨.ident "interface", _, _⟩ :: left => ([.annotationType here], left)
  | _ => ([], skipAnnotationUse rest)

/-- What is left when the uses of annotations are passed over. -/
def seenFrom : ℕ → List Spanned → List Seen
  | fuel + 1, here :: rest =>
      if here.token = .at then
        (seenAt here rest).1 ++ seenFrom fuel (seenAt here rest).2
      else .token here :: seenFrom fuel rest
  | _, _ => []

def seen (tokens : List Spanned) : List Seen := seenFrom tokens.length tokens

/-! ## The scans as folds -/

def EnclosingScan.see (scan : EnclosingScan) : Seen → EnclosingScan
  | .token here => (scan.step here []).1
  | .annotationType _ => { scan with unit := { scan.unit with expectClassName := true } }

def DeclarationScan.see (letters : Letters) (source : String) (scan : DeclarationScan) :
    Seen → DeclarationScan
  | .token here => (scan.step letters source here []).1
  | .annotationType here =>
      { scan with
        pending := { scan.pending with
          startOffset := scan.pending.startOffset.or (some here.offset)
          kind := some .annotationType
          expectTypeName := true } }

theorem EnclosingScan.step_of_ne_at (scan : EnclosingScan) {here : Spanned}
    (hat : here.token ≠ .at) (rest : List Spanned) :
    scan.step here rest = (scan.see (.token here), rest) := by
  rw [EnclosingScan.see, EnclosingScan.step.eq_def, EnclosingScan.step.eq_def]
  cases htoken : here.token <;> first | rfl | exact absurd htoken hat

theorem DeclarationScan.step_of_ne_at (letters : Letters) (source : String)
    (scan : DeclarationScan) {here : Spanned} (hat : here.token ≠ .at)
    (rest : List Spanned) :
    scan.step letters source here rest = (scan.see letters source (.token here), rest) := by
  rw [DeclarationScan.see, DeclarationScan.step.eq_def, DeclarationScan.step.eq_def]
  cases htoken : here.token <;> first | rfl | exact absurd htoken hat

/-- Behind an `@` comes no keyword of an annotation type. -/
def BeginsUse (rest : List Spanned) : Prop :=
  ∀ line offset left, rest ≠ ⟨.ident "interface", line, offset⟩ :: left

theorem interface_of_not_use {rest : List Spanned} (huse : ¬BeginsUse rest) :
    ∃ line offset left, rest = ⟨.ident "interface", line, offset⟩ :: left := by
  simp only [BeginsUse, not_forall, not_not] at huse
  exact huse

theorem seenAt_of_use {rest : List Spanned} (huse : BeginsUse rest) (here : Spanned) :
    seenAt here rest = ([], skipAnnotationUse rest) := by
  rw [seenAt.eq_def]
  split
  · exact absurd rfl (huse _ _ _)
  · rfl

theorem EnclosingScan.step_at (scan : EnclosingScan) {here : Spanned}
    (hat : here.token = .at) (rest : List Spanned) :
    scan.step here rest = ((seenAt here rest).1.foldl see scan, (seenAt here rest).2) := by
  simp only [EnclosingScan.step, hat]
  by_cases huse : BeginsUse rest
  · rw [seenAt_of_use huse]
    unfold skipAnnotation
    split
    · exact absurd rfl (huse _ _ _)
    · rfl
  · obtain ⟨line, offset, left, rfl⟩ := interface_of_not_use huse
    rfl

theorem DeclarationScan.step_at (letters : Letters) (source : String)
    (scan : DeclarationScan) {here : Spanned} (hat : here.token = .at)
    (rest : List Spanned) :
    scan.step letters source here rest =
      ((seenAt here rest).1.foldl (see letters source) scan, (seenAt here rest).2) := by
  simp only [DeclarationScan.step, hat]
  by_cases huse : BeginsUse rest
  · rw [seenAt_of_use huse]
    unfold stepAnnotation
    split
    · exact absurd rfl (huse _ _ _)
    · rfl
  · obtain ⟨line, offset, left, rfl⟩ := interface_of_not_use huse
    rfl

theorem EnclosingScan.run_eq_foldl (fuel : ℕ) (scan : EnclosingScan)
    (tokens : List Spanned) :
    EnclosingScan.run fuel scan tokens = (seenFrom fuel tokens).foldl see scan := by
  induction fuel generalizing scan tokens with
  | zero => simp [EnclosingScan.run, seenFrom]
  | succ fuel ih =>
      cases tokens with
      | nil => simp [EnclosingScan.run, seenFrom]
      | cons here rest =>
          rw [EnclosingScan.run, seenFrom]
          split_ifs with hat
          · rw [EnclosingScan.step_at scan hat rest, List.foldl_append]
            exact ih _ _
          · rw [EnclosingScan.step_of_ne_at scan hat rest]
            exact ih _ _

theorem DeclarationScan.run_eq_foldl (letters : Letters) (source : String) (fuel : ℕ)
    (scan : DeclarationScan) (tokens : List Spanned) :
    DeclarationScan.run letters source fuel scan tokens =
      (seenFrom fuel tokens).foldl (see letters source) scan := by
  induction fuel generalizing scan tokens with
  | zero => simp [DeclarationScan.run, seenFrom]
  | succ fuel ih =>
      cases tokens with
      | nil => simp [DeclarationScan.run, seenFrom]
      | cons here rest =>
          rw [DeclarationScan.run, seenFrom]
          split_ifs with hat
          · rw [DeclarationScan.step_at letters source scan hat rest, List.foldl_append]
            exact ih _ _
          · rw [DeclarationScan.step_of_ne_at letters source scan hat rest]
            exact ih _ _

theorem enclosingScan_eq_foldl (tokens : List Spanned) :
    enclosingScan tokens = (seen tokens).foldl EnclosingScan.see .start :=
  EnclosingScan.run_eq_foldl _ _ _

theorem declarationScan_eq_foldl (letters : Letters) (source : String)
    (tokens : List Spanned) :
    declarationScan letters source tokens =
      (seen tokens).foldl (DeclarationScan.see letters source) .start :=
  DeclarationScan.run_eq_foldl _ _ _ _ _

/-! ## What is seen is in order -/

theorem skipArguments_suffix (depth : ℕ) (tokens : List Spanned) :
    skipArguments depth tokens <:+ tokens := by
  induction tokens generalizing depth with
  | nil => exact List.suffix_refl _
  | cons here rest ih =>
      have hrest := fun depth => (ih depth).trans (List.suffix_cons here rest)
      rw [skipArguments]
      split
      · exact hrest _
      · split_ifs
        · exact List.suffix_cons here rest
        · exact hrest _
      · exact hrest _

theorem skipAnnotationUse_suffix (tokens : List Spanned) :
    skipAnnotationUse tokens <:+ tokens := by
  rw [skipAnnotationUse.eq_def]
  dsimp only
  split
  -- The annotation has arguments.
  · refine (skipArguments_suffix 0 _).trans ?_
    split
    · exact List.suffix_cons _ _
    · exact List.suffix_refl _
  · split
    · exact List.suffix_cons _ _
    · exact List.suffix_refl _

theorem seenAt_sublist (here : Spanned) (rest : List Spanned) :
    ∃ left, rest = left ++ (seenAt here rest).2 ∧
      ((seenAt here rest).1.map Seen.spanned).Sublist (here :: left) := by
  rw [seenAt.eq_def]
  split
  · exact ⟨[_], rfl, (List.nil_sublist _).cons_cons here⟩
  · obtain ⟨left, hleft⟩ := skipAnnotationUse_suffix rest
    exact ⟨left, hleft.symm, List.nil_sublist _⟩

theorem seenFrom_sublist (fuel : ℕ) (tokens : List Spanned) :
    ((seenFrom fuel tokens).map Seen.spanned).Sublist tokens := by
  induction fuel generalizing tokens with
  | zero => simp [seenFrom]
  | succ fuel ih =>
      cases tokens with
      | nil => simp [seenFrom]
      | cons here rest =>
          rw [seenFrom]
          split_ifs
          · obtain ⟨left, hleft, hitems⟩ := seenAt_sublist here rest
            have happend := hitems.append (ih (seenAt here rest).2)
            rw [List.cons_append, ← hleft] at happend
            rw [List.map_append]
            exact happend
          · exact (ih rest).cons_cons here

theorem seen_sublist (tokens : List Spanned) :
    ((seen tokens).map Seen.spanned).Sublist tokens :=
  seenFrom_sublist _ _

/-! ## Tokens in order -/

/-- Behind one another in the source, and not on an earlier line. -/
def Spanned.Precedes (first second : Spanned) : Prop :=
  first.offset < second.offset ∧ first.line ≤ second.line

theorem lexFrom_offsets (state : LexState) (taken : List LexState)
    (peek : List (ℕ × Char)) :
    (lexFrom state taken peek).map (fun here => (here.offset, here.letter)) = peek := by
  induction peek generalizing state taken with
  | nil => cases taken <;> rfl
  | cons here rest ih =>
      cases taken with
      | nil =>
          rw [lexFrom, List.map_cons, ih]
      | cons first others =>
          rw [lexFrom, List.map_cons, ih]

theorem charIndices_bounds (offset : ℕ) (text : List Char) :
    ∀ here ∈ charIndices offset text,
      offset ≤ here.1 ∧ here.1 < offset + (text.map Char.utf8Size).sum := by
  induction text generalizing offset with
  | nil => simp [charIndices]
  | cons letter rest ih =>
      have hsize := letter.utf8Size_pos
      rw [charIndices, List.map_cons, List.sum_cons]
      rintro here (_ | ⟨_, hrest⟩)
      · exact ⟨le_rfl, by omega⟩
      · have hbounds := ih _ here hrest
        omega

theorem pairwise_charIndices (offset : ℕ) (text : List Char) :
    (charIndices offset text).Pairwise fun first second => first.1 < second.1 := by
  induction text generalizing offset with
  | nil => exact List.Pairwise.nil
  | cons letter rest ih =>
      rw [charIndices, List.pairwise_cons]
      refine ⟨fun later hlater => ?_, ih _⟩
      have hsize := letter.utf8Size_pos
      have hbound := (charIndices_bounds _ _ later hlater).1
      exact Nat.lt_of_lt_of_le (by omega) hbound

section Tokenizing

variable (letters : Letters)

theorem tokenizeFrom_offsets (fuel line : ℕ) (lexed : List Lexed) :
    ((tokenizeFrom letters fuel line lexed).map (·.offset)).Sublist
      (lexed.map (·.offset)) := by
  induction fuel generalizing line lexed with
  | zero => simp [tokenizeFrom]
  | succ fuel ih =>
      cases lexed with
      | nil => simp [tokenizeFrom]
      | cons here rest =>
          have hdrop (line count : ℕ) :
              ((tokenizeFrom letters fuel line (rest.drop count)).map (·.offset)).Sublist
                (rest.map (·.offset)) :=
            (ih line _).trans ((List.drop_sublist _ _).map _)
          rw [tokenizeFrom]
          split_ifs
          · exact (ih _ _).cons _
          · exact (ih _ _).cons _
          · exact (hdrop _ _).cons_cons _
          · exact (hdrop _ _).cons_cons _
          · split
            · exact (ih _ _).cons_cons _
            · exact (ih _ _).cons _

/-- The breaks that a token can stand behind. -/
def innerBreaks (lexed : List Lexed) : ℕ :=
  lexed.dropLast.countP fun here => here.letter = '\n'

theorem innerBreaks_suffix {left lexed : List Lexed} (hleft : left <:+ lexed) :
    innerBreaks left ≤ innerBreaks lexed := by
  obtain ⟨before, rfl⟩ := hleft
  by_cases hempty : left = []
  · subst hempty
    exact Nat.zero_le _
  · rw [innerBreaks, innerBreaks, List.dropLast_append_of_ne_nil hempty, List.countP_append]
    exact Nat.le_add_left _ _

theorem innerBreaks_cons {here next : Lexed} {rest : List Lexed} (hbreak : here.letter = '\n') :
    innerBreaks (here :: next :: rest) = innerBreaks (next :: rest) + 1 := by
  rw [innerBreaks, List.dropLast_cons_of_ne_nil (by simp), List.countP_cons, innerBreaks,
    if_pos (decide_eq_true hbreak)]

/-- A token stands on a line that the breaks before it lead to. -/
theorem tokenizeFrom_lines (fuel line : ℕ) (lexed : List Lexed) :
    ∀ token ∈ tokenizeFrom letters fuel line lexed,
      line ≤ token.line ∧ token.line ≤ line + innerBreaks lexed := by
  induction fuel generalizing line lexed with
  | zero => simp [tokenizeFrom]
  | succ fuel ih =>
      cases lexed with
      | nil => simp [tokenizeFrom]
      | cons here rest =>
          have hlater (left : List Lexed) (hleft : left <:+ rest) (token : Spanned)
              (htoken : token ∈ tokenizeFrom letters fuel line left) :
              line ≤ token.line ∧ token.line ≤ line + innerBreaks (here :: rest) := by
            have hbreaks := innerBreaks_suffix (hleft.trans (List.suffix_cons here rest))
            have hlines := ih line left token htoken
            omega
          have hcons (token : Token) (left : List Lexed) (hleft : left <:+ rest) :
              ∀ found ∈ ⟨token, line, here.offset⟩ :: tokenizeFrom letters fuel line left,
                line ≤ found.line ∧ found.line ≤ line + innerBreaks (here :: rest) := by
            rintro found (_ | ⟨_, hfound⟩)
            · exact ⟨le_rfl, Nat.le_add_right _ _⟩
            · exact hlater left hleft found hfound
          rw [tokenizeFrom]
          split_ifs with hbreak
          · intro token htoken
            cases rest with
            | nil => cases fuel <;> simp [tokenizeFrom] at htoken
            | cons next rest =>
                have hlines := ih _ _ token htoken
                rw [innerBreaks_cons hbreak]
                omega
          · exact hlater rest (List.suffix_refl _)
          · exact hcons _ _ (List.drop_suffix _ _)
          · exact hcons _ _ (List.drop_suffix _ _)
          · split
            · exact hcons _ _ (List.suffix_refl _)
            · exact hlater rest (List.suffix_refl _)

theorem pairwise_tokenizeFrom (fuel line : ℕ) (lexed : List Lexed) :
    (tokenizeFrom letters fuel line lexed).Pairwise fun first second =>
      first.line ≤ second.line := by
  induction fuel generalizing line lexed with
  | zero => exact List.Pairwise.nil
  | succ fuel ih =>
      cases lexed with
      | nil => exact List.Pairwise.nil
      | cons here rest =>
          have hcons (token : Token) (offset : ℕ) (left : List Lexed) :
              (⟨token, line, offset⟩ :: tokenizeFrom letters fuel line left).Pairwise
                fun first second : Spanned => first.line ≤ second.line :=
            List.Pairwise.cons
              (fun later hlater => (tokenizeFrom_lines letters fuel line left later hlater).1)
              (ih line left)
          rw [tokenizeFrom]
          split_ifs
          · exact ih _ _
          · exact ih _ _
          · exact hcons _ _ _
          · exact hcons _ _ _
          · split
            · exact hcons _ _ _
            · exact ih _ _

theorem lex_offsets (source : String) :
    (lex source).map (fun here => (here.offset, here.letter)) =
      charIndices 0 source.toList :=
  lexFrom_offsets _ _ _

theorem letters_charIndices (offset : ℕ) (text : List Char) :
    (charIndices offset text).map Prod.snd = text := by
  induction text generalizing offset with
  | nil => rfl
  | cons letter rest ih => rw [charIndices, List.map_cons, ih]

theorem lex_letters (source : String) : (lex source).map (·.letter) = source.toList := by
  have hletters := letters_charIndices 0 source.toList
  rw [← lex_offsets, List.map_map] at hletters
  exact hletters

/-- The character at an index has the bytes before it for an offset. -/
theorem getElem?_charIndices (offset : ℕ) (text : List Char) (index : ℕ) :
    (charIndices offset text)[index]? =
      text[index]?.map fun letter => (offset + utf8Length (text.take index), letter) := by
  induction text generalizing offset index with
  | nil => rfl
  | cons letter rest ih =>
      cases index with
      | zero => rfl
      | succ index =>
          rw [charIndices, List.getElem?_cons_succ, ih, List.getElem?_cons_succ,
            List.take_succ_cons, utf8Length_cons, Nat.add_assoc]

theorem offset_of_lex {source : String} {index : ℕ} {here : Lexed}
    (hhere : (lex source)[index]? = some here) :
    here.offset = utf8Length (source.toList.take index) := by
  have hpair : ((lex source).map fun here => (here.offset, here.letter))[index]? =
      some (here.offset, here.letter) := by
    rw [List.getElem?_map, hhere]
    rfl
  rw [lex, lexFrom_offsets, getElem?_charIndices] at hpair
  obtain ⟨letter, -, heq⟩ := Option.map_eq_some_iff.mp hpair
  rw [← (Prod.mk.inj heq).1, Nat.zero_add]

theorem length_lex (source : String) : (lex source).length = source.toList.length := by
  have hlength (offset : ℕ) (text : List Char) :
      (charIndices offset text).length = text.length := by
    induction text generalizing offset with
    | nil => rfl
    | cons letter rest ih => rw [charIndices, List.length_cons, ih, List.length_cons]
  have hpairs := congrArg List.length (lexFrom_offsets .code [] (charIndices 0 source.toList))
  rw [List.length_map, hlength] at hpairs
  exact hpairs

theorem tokenize_offsets (source : String) :
    ((tokenize letters source).map (·.offset)).Sublist
      ((charIndices 0 source.toList).map Prod.fst) := by
  rw [← lex_offsets, List.map_map]
  exact tokenizeFrom_offsets letters _ _ _

/-- The tokens of a source follow one another. -/
theorem pairwise_tokenize (source : String) :
    (tokenize letters source).Pairwise Spanned.Precedes := by
  have hoffsets : (tokenize letters source).Pairwise fun first second =>
      first.offset < second.offset := by
    rw [← List.pairwise_map (f := fun here : Spanned => here.offset)]
    refine List.Pairwise.sublist (tokenize_offsets letters source) ?_
    rw [List.pairwise_map]
    exact pairwise_charIndices _ _
  exact hoffsets.and (pairwise_tokenizeFrom letters _ _ _)

theorem utf8ByteSize_eq_sum (text : List Char) :
    (String.ofList text).utf8ByteSize = (text.map Char.utf8Size).sum := by
  induction text with
  | nil => rfl
  | cons letter rest ih =>
      have hcons : String.ofList (letter :: rest) =
          String.singleton letter ++ String.ofList rest := by
        rw [← String.toList_inj, String.toList_append]
        simp
      rw [hcons, String.utf8ByteSize_append, String.utf8ByteSize_singleton, ih,
        List.map_cons, List.sum_cons]

theorem innerBreaks_lex (source : String) :
    innerBreaks (lex source) + 1 ≤ lastLine source := by
  have hinner : innerBreaks (lex source) = source.toList.dropLast.count '\n' := by
    rw [← lex_letters source, ← List.map_dropLast, List.count_eq_countP, List.countP_map,
      innerBreaks]
    exact List.countP_congr fun here _ => by simp
  rw [hinner, lastLine]
  by_cases hempty : source.toList = []
  · rw [hempty]
    exact Nat.le_max_right _ _
  · have hsplit := List.dropLast_append_getLast hempty
    have hcount : source.toList.count '\n' =
        source.toList.dropLast.count '\n' + [source.toList.getLast hempty].count '\n' := by
      rw [← List.count_append, hsplit]
    refine le_max_of_le_left ?_
    rw [List.getLast?_eq_some_getLast hempty, hcount]
    split_ifs with hends
    · rcases hends with hnone | hbreak
      · exact absurd (by rw [hnone]; rfl) hempty
      · rw [Option.some.inj hbreak, List.count_singleton_self]
    · omega

/-- A token stands within the source. -/
theorem tokenize_bounds (source : String) :
    ∀ token ∈ tokenize letters source,
      token.offset < source.utf8ByteSize ∧ token.line ≤ lastLine source := by
  intro token htoken
  constructor
  · have hmem := (tokenize_offsets letters source).subset (List.mem_map_of_mem htoken)
    obtain ⟨here, hhere, heq⟩ := List.mem_map.mp hmem
    have hbound := (charIndices_bounds _ _ here hhere).2
    rw [heq, Nat.zero_add, ← utf8ByteSize_eq_sum, String.ofList_toList] at hbound
    exact hbound
  · have hline := (tokenizeFrom_lines letters _ _ _ token htoken).2
    have hbreaks := innerBreaks_lex source
    omega

end Tokenizing

end Ktsense.Core
