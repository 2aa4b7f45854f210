import Ktsense.Core.JavaAnnotations
import Ktsense.Core.JavaIndices

/-!
# The lexer is aligned with its input

`lex` gives one entry for each character, so the loops that look up the state of a
character at its index never leave the list, and each of them ends with what the list
model reads.  Tokens stand at characters, so the headers cut from one to another are
cut between characters.
-/

namespace Ktsense.Core

open Ktsense.Foundation

/-! ## Every index is in range -/

section InRange

variable {lexed : List Lexed} {index : ℕ} {here : Lexed} {rest : List Lexed}

theorem getElem?_of_drop (hdrop : lexed.drop index = here :: rest) (place : ℕ) :
    lexed[index + place]? = (here :: rest)[place]? := by
  rw [← hdrop, List.getElem?_drop]

theorem state_of_drop (hdrop : lexed.drop index = here :: rest) :
    (lexed.map Lexed.entry)[index]? = some (here.offset, here.state) := by
  have hat := getElem?_of_drop hdrop 0
  rw [List.getElem?_map, ← Nat.add_zero index, hat]
  rfl

theorem letter_of_drop (hdrop : lexed.drop index = here :: rest) :
    (lexed.map (·.letter))[index]? = some here.letter := by
  have hat := getElem?_of_drop hdrop 0
  rw [List.getElem?_map, ← Nat.add_zero index, hat]
  rfl

theorem exists_drop (hlt : index < lexed.length) :
    ∃ here rest, lexed.drop index = here :: rest :=
  ⟨_, _, List.drop_eq_getElem_cons hlt⟩

theorem drop_behind (hdrop : lexed.drop index = here :: rest) (count : ℕ) :
    lexed.drop (index + 1 + count) = rest.drop count := by
  rw [← List.drop_drop, ← List.drop_drop, hdrop, List.drop_one, List.tail_cons]

theorem drop_next (hdrop : lexed.drop index = here :: rest) : lexed.drop (index + 1) = rest :=
  drop_behind hdrop 0

variable (letters : Letters)

/-- The loop over an identifier never reads past the end, and stops behind it. -/
theorem identTurn_proceeds {last : ℕ}
    (hword : index + (identWord letters (lexed.drop index)).length = last) :
    Proceeds (identTurn letters (lexed.map Lexed.entry) (lexed.map (·.letter)))
      (fun index => index + (identWord letters (lexed.drop index)).length = last)
      (lexed.length - ·) last index := by
  rw [Proceeds, identTurn, List.length_map]
  rcases Nat.lt_or_ge index lexed.length with hlt | hge
  · obtain ⟨here, rest, hdrop⟩ := exists_drop hlt
    rw [if_pos hlt, state_of_drop hdrop, letter_of_drop hdrop]
    rw [hdrop, identWord, List.takeWhile_cons] at hword
    cases hcode : here.state.isCode with
    | false =>
        refine .inr ?_
        rw [hcode, Bool.false_and, if_neg Bool.false_ne_true] at hword
        simp [hcode, ← hword]
    | true =>
        rw [hcode, Bool.true_and] at hword
        split_ifs at hword with hcontinues
        · refine .inl ⟨index + 1, by simp [hcode, hcontinues], ?_, by omega⟩
          rw [drop_next hdrop, ← hword, List.length_cons, identWord]
          omega
        · refine .inr ?_
          simp [hcontinues, ← hword]
  · rw [List.drop_eq_nil_of_le hge] at hword
    rw [if_neg (not_lt.mpr hge), ← hword]
    exact .inr rfl

theorem identEnd_eq (lexed : List Lexed) (start : ℕ) :
    identEnd letters (lexed.map Lexed.entry) (lexed.map (·.letter)) start =
      some (start + (identWord letters (lexed.drop start)).length) :=
  runLoop_eq_some (fun _ hword => identTurn_proceeds letters hword) rfl
    (by rw [List.length_map]; omega)

variable {letters}

/-- What is alphabetic is alphanumeric. -/
def Letters.Lawful (letters : Letters) : Prop :=
  ∀ letter, letters.isAlphabetic letter = true → letters.isAlphanumeric letter = true

theorem LetterClasses.lawful (classes : LetterClasses) : classes.letters.Lawful :=
  fun _ halphabetic => Bool.or_eq_true_iff.mpr (.inl halphabetic)

theorem isIdentContinue_of_isIdentStart (hletters : letters.Lawful) {letter : Char}
    (hstart : isIdentStart letters letter = true) :
    isIdentContinue letters letter = true := by
  rw [isIdentStart, Bool.or_eq_true, Bool.or_eq_true] at hstart
  rw [isIdentContinue, Bool.or_eq_true, Bool.or_eq_true]
  exact hstart.imp_left (Or.imp_left (hletters letter))

/-- Where an identifier starts, its end and its text. -/
theorem identEnd_of_start (hletters : letters.Lawful)
    (hdrop : lexed.drop index = here :: rest) (hcode : here.state.isCode = true)
    (hstart : isIdentStart letters here.letter = true) :
    identEnd letters (lexed.map Lexed.entry) (lexed.map (·.letter)) index =
        some (index + 1 + (identWord letters rest).length) ∧
      textBetween (lexed.map (·.letter)) index (index + 1 + (identWord letters rest).length) =
        some (wordText (here :: identWord letters rest)) := by
  have hcontinues := isIdentContinue_of_isIdentStart hletters hstart
  have hword : identWord letters (here :: rest) = here :: identWord letters rest := by
    rw [identWord, List.takeWhile_cons_of_pos (by simp [hcode, hcontinues])]
    rfl
  have hlength := congrArg List.length hdrop
  have hfits := (List.takeWhile_prefix (l := rest)
    fun here : Lexed => here.state.isCode && isIdentContinue letters here.letter).length_le
  rw [List.length_drop, List.length_cons] at hlength
  constructor
  · rw [identEnd_eq, hdrop, hword, List.length_cons]
    congr 1
    omega
  · have hbounds : index ≤ index + 1 + (identWord letters rest).length ∧
        index + 1 + (identWord letters rest).length ≤ (lexed.map (·.letter)).length := by
      rw [List.length_map, identWord]
      omega
    have htake : (lexed.drop index).take (1 + (identWord letters rest).length) =
        here :: identWord letters rest := by
      rw [hdrop, Nat.add_comm, List.take_succ_cons]
      exact congrArg _ (List.prefix_iff_eq_take.mp (List.takeWhile_prefix _)).symm
    rw [textBetween, if_pos hbounds, wordText, ← htake, List.map_take, List.map_drop,
      List.drop_take]
    congr 3
    omega

/-- What a turn of `tokenize` does, by what stands at its index. -/
theorem TokenLoop.body_eq (hletters : letters.Lawful) {loop : TokenLoop}
    (hdrop : lexed.drop loop.index = here :: rest) :
    loop.body letters (lexed.map Lexed.entry) (lexed.map (·.letter)) = some (
      if here.letter = '\n' then ⟨loop.tokens, loop.line + 1, loop.index + 1⟩
      else if !here.state.isCode || isWhitespace here.letter then
        ⟨loop.tokens, loop.line, loop.index + 1⟩
      else if isIdentStart letters here.letter then
        ⟨loop.tokens ++ [⟨.ident (wordText (here :: identWord letters rest)), loop.line,
          here.offset⟩], loop.line, loop.index + 1 + (identWord letters rest).length⟩
      else if opensArrow here rest then
        ⟨loop.tokens ++ [⟨.arrow, loop.line, here.offset⟩], loop.line, loop.index + 2⟩
      else
        ⟨loop.tokens ++ (structuralToken here.letter).toList.map (⟨·, loop.line, here.offset⟩),
          loop.line, loop.index + 1⟩) := by
  have harrow : (decide (here.letter = '-') &&
      decide ((lexed.map (·.letter))[loop.index + 1]? = some '>') &&
        (lexed.map Lexed.entry)[loop.index + 1]?.any (·.2.isCode)) =
      opensArrow here rest := by
    rw [List.getElem?_map, List.getElem?_map, getElem?_of_drop hdrop 1,
      List.getElem?_cons_succ, opensArrow, List.head?_eq_getElem?, Bool.and_assoc]
    cases rest[0]? with
    | none => simp
    | some next => simp [Lexed.entry]
  rw [body, letter_of_drop hdrop, state_of_drop hdrop]
  simp only [Option.bind_eq_bind, Option.bind_some, Option.pure_def]
  by_cases hbreak : here.letter = '\n'
  · rw [if_pos hbreak, if_pos hbreak]
  rw [if_neg hbreak, if_neg hbreak]
  by_cases hpass : (!here.state.isCode || isWhitespace here.letter) = true
  · rw [if_pos hpass, if_pos hpass]
  rw [if_neg hpass, if_neg hpass]
  by_cases hstart : isIdentStart letters here.letter = true
  · have hcode : here.state.isCode = true := by
      cases hcode : here.state.isCode <;> simp [hcode] at hpass ⊢
    obtain ⟨hend, htext⟩ := identEnd_of_start hletters hdrop hcode hstart
    rw [if_pos hstart, if_pos hstart, hend, Option.bind_some, htext, Option.bind_some]
  rw [if_neg hstart, if_neg hstart, harrow]
  by_cases hopens : opensArrow here rest = true
  · rw [if_pos hopens, if_pos hopens]
  rw [if_neg hopens, if_neg hopens]
  cases structuralToken here.letter with
  | none => rw [Option.toList_none, List.map_nil, List.append_nil]
  | some token => rfl

/-- With what is unread `tokenize` comes to these tokens. -/
def TokenLoop.LeadsTo (letters : Letters) (lexed : List Lexed) (tokens : List Spanned)
    (loop : TokenLoop) : Prop :=
  loop.tokens ++ tokensFrom letters loop.line (lexed.drop loop.index) = tokens

theorem TokenLoop.proceeds (hletters : letters.Lawful) {tokens : List Spanned}
    {loop : TokenLoop} (hleads : loop.LeadsTo letters lexed tokens) :
    Proceeds (turn letters (lexed.map Lexed.entry) (lexed.map (·.letter)))
      (LeadsTo letters lexed tokens) (lexed.length - ·.index) tokens loop := by
  rw [LeadsTo] at hleads
  rw [Proceeds, turn, List.length_map]
  rcases Nat.lt_or_ge loop.index lexed.length with hlt | hge
  · obtain ⟨here, rest, hdrop⟩ := exists_drop hlt
    refine .inl ⟨_, by rw [if_pos hlt, body_eq hletters hdrop, Option.map_some], ?_⟩
    rw [hdrop, tokensFrom_cons] at hleads
    rw [LeadsTo]
    split_ifs at hleads ⊢
    · exact ⟨by rw [drop_next hdrop, hleads], by dsimp only; omega⟩
    · exact ⟨by rw [drop_next hdrop, hleads], by dsimp only; omega⟩
    · exact ⟨by rw [drop_behind hdrop, List.append_assoc]; exact hleads, by dsimp only; omega⟩
    · exact ⟨by rw [drop_behind hdrop 1, List.append_assoc]; exact hleads, by dsimp only; omega⟩
    · cases htoken : structuralToken here.letter with
      | none =>
          rw [htoken] at hleads
          exact ⟨by rw [drop_next hdrop, Option.toList_none, List.map_nil, List.append_nil]
                    exact hleads, by dsimp only; omega⟩
      | some token =>
          rw [htoken] at hleads
          exact ⟨by rw [drop_next hdrop, List.append_assoc]; exact hleads, by dsimp only; omega⟩
  · rw [List.drop_eq_nil_of_le hge] at hleads
    refine .inr ?_
    rw [if_neg (not_lt.mpr hge), ← hleads]
    exact congrArg (fun tokens => some (Sum.inr tokens)) (List.append_nil loop.tokens).symm

theorem tokenizeIndexed_eq (hletters : letters.Lawful) (source : String) :
    tokenizeIndexed letters source = some (tokenize letters source) := by
  have hstart : TokenLoop.LeadsTo letters (lex source) (tokenize letters source) ⟨[], 1, 0⟩ := rfl
  rw [tokenizeIndexed, lexStates_eq, ← lex_letters]
  exact runLoop_eq_some (fun _ hleads => TokenLoop.proceeds hletters hleads) hstart
    (by rw [List.length_map]; exact Nat.lt_succ_self _)

/-- What a turn of `supertypes_in_header` does, by what stands at its index. -/
theorem SupertypeLoop.body_eq (hletters : letters.Lawful) {loop : SupertypeLoop}
    (hdrop : lexed.drop loop.index = here :: rest) :
    loop.body letters (lexed.map Lexed.entry) (lexed.map (·.letter)) = some (
      if !here.state.isCode then ⟨loop.scan, loop.index + 1⟩
      else if isIdentStart letters here.letter then
        ⟨loop.scan.observeWord (wordText (here :: identWord letters rest)),
          loop.index + 1 + (identWord letters rest).length⟩
      else ⟨loop.scan.observePunctuation here.letter, loop.index + 1⟩) := by
  rw [body, letter_of_drop hdrop, state_of_drop hdrop]
  simp only [Option.bind_eq_bind, Option.bind_some, Option.pure_def]
  by_cases hcode : here.state.isCode = true
  · have hread : ¬(!here.state.isCode) = true := by simp [hcode]
    rw [if_neg hread, if_neg hread]
    by_cases hstart : isIdentStart letters here.letter = true
    · obtain ⟨hend, htext⟩ := identEnd_of_start hletters hdrop hcode hstart
      rw [if_pos hstart, if_pos hstart, hend, Option.bind_some, htext, Option.bind_some]
      split_ifs with hdepth
      · rw [SupertypeScan.observeWord, if_pos hdepth]
      · rfl
    · rw [if_neg hstart, if_neg hstart]
  · have hpass : (!here.state.isCode) = true := by simpa using hcode
    rw [if_pos hpass, if_pos hpass]

/-- With what is unread `supertypes_in_header` comes to these names. -/
def SupertypeLoop.LeadsTo (letters : Letters) (lexed : List Lexed) (supertypes : List String)
    (loop : SupertypeLoop) : Prop :=
  ∃ fuel scan, (lexed.drop loop.index).length ≤ fuel ∧
    SupertypeScan.run letters fuel loop.scan (lexed.drop loop.index) = scan ∧
    (scan.pushCurrent scan.inClause).supertypes = supertypes

theorem SupertypeLoop.proceeds (hletters : letters.Lawful) {supertypes : List String}
    {loop : SupertypeLoop} (hleads : loop.LeadsTo letters lexed supertypes) :
    Proceeds (turn letters (lexed.map Lexed.entry) (lexed.map (·.letter)))
      (LeadsTo letters lexed supertypes) (lexed.length - ·.index) supertypes loop := by
  obtain ⟨fuel, scan, hfuel, hscan, hsupertypes⟩ := hleads
  rw [Proceeds, turn, List.length_map]
  rcases Nat.lt_or_ge loop.index lexed.length with hlt | hge
  · obtain ⟨here, rest, hdrop⟩ := exists_drop hlt
    refine .inl ⟨_, by rw [if_pos hlt, body_eq hletters hdrop, Option.map_some], ?_⟩
    rw [hdrop] at hfuel hscan
    obtain ⟨fuel, rfl, hrest⟩ := exists_fuel_of_cons hfuel
    rw [SupertypeScan.run] at hscan
    split_ifs at hscan ⊢
    · refine ⟨⟨fuel, scan, ?_, ?_, hsupertypes⟩, by dsimp only; omega⟩
      · rwa [drop_next hdrop]
      · rwa [drop_next hdrop]
    · refine ⟨⟨fuel, scan, ?_, ?_, hsupertypes⟩, by dsimp only; omega⟩
      · rw [drop_behind hdrop, List.length_drop]
        omega
      · rw [drop_behind hdrop]
        exact hscan
    · refine ⟨⟨fuel, scan, ?_, ?_, hsupertypes⟩, by dsimp only; omega⟩
      · rwa [drop_next hdrop]
      · rwa [drop_next hdrop]
  · refine .inr ?_
    rw [List.drop_eq_nil_of_le hge] at hscan
    have hdone : loop.scan = scan := by
      cases fuel <;> exact hscan
    rw [if_neg (not_lt.mpr hge), hdone, hsupertypes]

theorem supertypesIndexed_eq (hletters : letters.Lawful) (header : String) :
    supertypesIndexed letters header = some (supertypesInHeader letters header) := by
  have hstart : SupertypeLoop.LeadsTo letters (lex header) (supertypesInHeader letters header)
      ⟨⟨[], false, 0, none⟩, 0⟩ := ⟨_, _, le_rfl, rfl, rfl⟩
  rw [supertypesIndexed, lexStates_eq, ← lex_letters]
  exact runLoop_eq_some (fun _ hleads => SupertypeLoop.proceeds hletters hleads) hstart
    (by rw [List.length_map]; exact Nat.lt_succ_self _)

/-- The letters of the package name at the front. -/
def packageLetters (letters : Letters) (lexed : List Lexed) : List Char :=
  (((lexed.filter (·.state.isCode)).takeWhile (·.letter ≠ ';')).filter fun here =>
    isIdentContinue letters here.letter || here.letter = '.').map (·.letter)

theorem readPackageName_eq (letters : Letters) (lexed : List Lexed) :
    readPackageName letters lexed =
      if (packageLetters letters lexed).isEmpty then none
      else some (String.ofList (packageLetters letters lexed)) := by
  rw [readPackageName, packageLetters, List.isEmpty_map]
  rfl

theorem packageLetters_cons (letters : Letters) (here : Lexed) (rest : List Lexed) :
    packageLetters letters (here :: rest) =
      if !here.state.isCode then packageLetters letters rest
      else if here.letter = ';' then []
      else if isIdentContinue letters here.letter || here.letter = '.' then
        here.letter :: packageLetters letters rest
      else packageLetters letters rest := by
  rw [packageLetters]
  by_cases hcode : here.state.isCode = true
  · rw [if_neg (by simp [hcode]), List.filter_cons, if_pos hcode]
    by_cases hend : here.letter = ';'
    · rw [if_pos hend, List.takeWhile_cons_of_neg (by simpa using hend)]
      rfl
    · rw [if_neg hend, List.takeWhile_cons_of_pos (by simpa using hend), List.filter_cons]
      split_ifs
      · rfl
      · rfl
  · rw [if_pos (by simpa using hcode), List.filter_cons, if_neg hcode]
    rfl

theorem NameLoop.proceeds {name : List Char} {loop : NameLoop}
    (hname : loop.name ++ packageLetters letters (lexed.drop loop.index) = name) :
    Proceeds (turn letters (lexed.map Lexed.entry) (lexed.map (·.letter)))
      (fun loop => loop.name ++ packageLetters letters (lexed.drop loop.index) = name)
      (lexed.length - ·.index) name loop := by
  rw [Proceeds, turn, List.length_map]
  rcases Nat.lt_or_ge loop.index lexed.length with hlt | hge
  · obtain ⟨here, rest, hdrop⟩ := exists_drop hlt
    rw [if_pos hlt, letter_of_drop hdrop, state_of_drop hdrop]
    rw [hdrop, packageLetters_cons] at hname
    simp only [Option.bind_eq_bind, Option.bind_some, Option.pure_def]
    split_ifs at hname ⊢
    · exact .inl ⟨_, rfl, by rw [drop_next hdrop]; exact hname, by dsimp only; omega⟩
    · exact .inr (congrArg (some ∘ Sum.inr) ((List.append_nil _).symm.trans hname))
    · refine .inl ⟨_, rfl, ?_, by dsimp only; omega⟩
      rw [drop_next hdrop, List.append_assoc]
      exact hname
    · exact .inl ⟨_, rfl, by rw [drop_next hdrop]; exact hname, by dsimp only; omega⟩
  · rw [List.drop_eq_nil_of_le hge] at hname
    rw [if_neg (not_lt.mpr hge)]
    exact .inr (congrArg (some ∘ Sum.inr) ((List.append_nil _).symm.trans hname))

theorem packageNameFrom_eq (letters : Letters) (lexed : List Lexed) (index : ℕ) :
    packageNameFrom letters (lexed.map Lexed.entry) (lexed.map (·.letter)) index =
      some (readPackageName letters (lexed.drop index)) := by
  have hruns : runLoop (NameLoop.turn letters (lexed.map Lexed.entry) (lexed.map (·.letter)))
      ((lexed.map (·.letter)).length + 1) ⟨[], index⟩ =
        some (packageLetters letters (lexed.drop index)) :=
    runLoop_eq_some (fun _ hname => NameLoop.proceeds hname) rfl
      (by rw [List.length_map]; dsimp only; omega)
  rw [packageNameFrom, hruns, Option.map_some, readPackageName_eq]

/-- What a turn of `java_package` does, by what stands at its index. -/
theorem packageTurn_eq (hletters : letters.Lawful)
    (hdrop : lexed.drop index = here :: rest) :
    packageTurn letters (lexed.map Lexed.entry) (lexed.map (·.letter)) index = some (
      if !here.state.isCode then .inl (index + 1)
      else if isIdentStart letters here.letter then
        if wordText (here :: identWord letters rest) = "package" then
          .inr (readPackageName letters (rest.drop (identWord letters rest).length))
        else .inl (index + 1 + (identWord letters rest).length)
      else .inl (index + 1)) := by
  have hlt : index < (lexed.map (·.letter)).length := by
    rw [List.length_map]
    by_contra hge
    rw [List.drop_eq_nil_of_le (not_lt.mp hge)] at hdrop
    cases hdrop
  rw [packageTurn, if_pos hlt, letter_of_drop hdrop, state_of_drop hdrop]
  simp only [Option.bind_eq_bind, Option.bind_some, Option.pure_def]
  by_cases hcode : here.state.isCode = true
  · have hread : ¬(!here.state.isCode) = true := by simp [hcode]
    rw [if_neg hread, if_neg hread]
    by_cases hstart : isIdentStart letters here.letter = true
    · obtain ⟨hend, htext⟩ := identEnd_of_start hletters hdrop hcode hstart
      rw [if_pos hstart, if_pos hstart, hend, Option.bind_some, htext, Option.bind_some,
        packageNameFrom_eq, drop_behind hdrop, Option.bind_some]
      split_ifs
      · rfl
      · rfl
    · rw [if_neg hstart, if_neg hstart]
  · have hpass : (!here.state.isCode) = true := by simpa using hcode
    rw [if_pos hpass, if_pos hpass]

/-- With what is unread `java_package` comes to this package. -/
def PackageLeadsTo (letters : Letters) (lexed : List Lexed) (package : Option String)
    (index : ℕ) : Prop :=
  ∃ fuel, (lexed.drop index).length ≤ fuel ∧
    javaPackageFrom letters fuel (lexed.drop index) = package

theorem packageTurn_proceeds (hletters : letters.Lawful) {package : Option String}
    (hleads : PackageLeadsTo letters lexed package index) :
    Proceeds (packageTurn letters (lexed.map Lexed.entry) (lexed.map (·.letter)))
      (PackageLeadsTo letters lexed package) (lexed.length - ·) package index := by
  obtain ⟨fuel, hfuel, hpackage⟩ := hleads
  rw [Proceeds]
  rcases Nat.lt_or_ge index lexed.length with hlt | hge
  · obtain ⟨here, rest, hdrop⟩ := exists_drop hlt
    rw [packageTurn_eq hletters hdrop]
    rw [hdrop] at hfuel hpackage
    obtain ⟨fuel, rfl, hrest⟩ := exists_fuel_of_cons hfuel
    simp only [javaPackageFrom, List.length_cons, Nat.add_sub_cancel] at hpackage
    split_ifs at hpackage ⊢
    · refine .inl ⟨index + 1, rfl, ⟨fuel, ?_, ?_⟩, by omega⟩
      · rwa [drop_next hdrop]
      · rwa [drop_next hdrop]
    · exact .inr (congrArg (some ∘ Sum.inr) hpackage)
    · refine .inl ⟨_, rfl, ⟨fuel, ?_, ?_⟩, by omega⟩
      · rw [drop_behind hdrop, List.length_drop]
        omega
      · rw [drop_behind hdrop]
        exact hpackage
    · refine .inl ⟨index + 1, rfl, ⟨fuel, ?_, ?_⟩, by omega⟩
      · rwa [drop_next hdrop]
      · rwa [drop_next hdrop]
  · rw [List.drop_eq_nil_of_le hge] at hpackage
    have hnone : package = none := by
      cases fuel <;> exact hpackage.symm
    rw [packageTurn, List.length_map, if_neg (not_lt.mpr hge), hnone]
    exact .inr rfl

theorem packageIndexed_eq (hletters : letters.Lawful) (source : String) :
    packageIndexed letters source = some (javaPackage letters source) := by
  have hstart : PackageLeadsTo letters (lex source) (javaPackage letters source) 0 :=
    ⟨_, le_rfl, rfl⟩
  rw [packageIndexed, lexStates_eq, ← lex_letters]
  exact runLoop_eq_some (fun _ hleads => packageTurn_proceeds hletters hleads) hstart
    (by rw [List.length_map]; exact Nat.lt_succ_self _)

end InRange

/-! ## Every slice is between characters -/

/-- A place between two characters of a text. -/
def IsBoundary (text : List Char) (offset : ℕ) : Prop :=
  ∃ before, before <+: text ∧ utf8Length before = offset

theorem isBoundary_of_mem_charIndices {text : List Char} {offset : ℕ}
    (hmem : offset ∈ (charIndices 0 text).map Prod.fst) : IsBoundary text offset := by
  obtain ⟨here, hhere, rfl⟩ := List.mem_map.mp hmem
  obtain ⟨index, hindex⟩ := List.mem_iff_getElem?.mp hhere
  rw [getElem?_charIndices, Nat.zero_add] at hindex
  obtain ⟨letter, -, rfl⟩ := Option.map_eq_some_iff.mp hindex
  exact ⟨_, List.take_prefix _ _, rfl⟩

theorem utf8Length_toList (text : String) : utf8Length text.toList = text.utf8ByteSize :=
  utf8ByteSize_toList text

theorem headerSlice_between (front slice behind : String) :
    headerSlice (front ++ slice ++ behind) (some front.utf8ByteSize)
      (front.utf8ByteSize + slice.utf8ByteSize) = slice := by
  rw [headerSlice_append, headerSlice_append, headerSlice_empty front (.inr le_rfl),
    headerSlice_empty behind (.inl (by rw [String.utf8ByteSize_append]; omega)),
    Nat.sub_self, Nat.add_sub_cancel_left, headerSlice_all, String.empty_append,
    String.append_empty]

/-- Between two boundaries in order a slice is taken, and it is the header. -/
theorem headerSliceBytes_eq {source : String} {first last : ℕ} (hle : first ≤ last)
    (hfirst : IsBoundary source.toList first) (hlast : IsBoundary source.toList last) :
    headerSliceBytes source (some first) last =
      some (headerSlice source (some first) last) := by
  obtain ⟨front, hfront, rfl⟩ := hfirst
  obtain ⟨whole, ⟨behind, hwhole⟩, rfl⟩ := hlast
  obtain ⟨slice, rfl⟩ : front <+: whole := by
    rcases List.prefix_or_prefix_of_prefix hfront ⟨behind, hwhole⟩ with hprefix | ⟨extra, rfl⟩
    · exact hprefix
    · rw [utf8Length_append] at hle
      have hextra : extra = [] := utf8Length_eq_zero.mp (by omega)
      rw [hextra, List.append_nil]
  have hsource : source = String.ofList front ++ String.ofList slice ++ String.ofList behind := by
    rw [← String.ofList_append, ← String.ofList_append, hwhole, String.ofList_toList]
  have hheader : headerSlice source (some (utf8Length front)) (utf8Length (front ++ slice)) =
      String.ofList slice := by
    have hbetween := headerSlice_between (String.ofList front) (String.ofList slice)
      (String.ofList behind)
    rwa [← hsource, ← utf8Length_toList, ← utf8Length_toList, String.toList_ofList,
      String.toList_ofList, ← utf8Length_append] at hbetween
  have hslice : sliceBytes (utf8Length front) (utf8Length (front ++ slice)) source.toList =
      some slice := by
    rw [sliceBytes, ← hwhole, splitBytes_append, Option.bind_eq_bind, Option.bind_some]
    dsimp only
    rw [splitBytes_append]
    rfl
  rw [headerSliceBytes, if_pos hle, hslice, hheader, Option.map_some]

theorem mem_of_headerStart {items : List Seen} {first : ℕ}
    (hfirst : headerStart items = some first) : ∃ item ∈ items, item.spanned.offset = first := by
  obtain ⟨item, hitem, rfl⟩ := Option.map_eq_some_iff.mp hfirst
  exact ⟨item, (List.rtakeWhile_suffix _ _).subset (List.mem_of_find?_eq_some hitem), rfl⟩

/-- Wherever the declaration scan stands, the header that has begun is sliced between
characters. -/
theorem headerSliceBytes_declarationScan (letters : Letters) (source : String)
    {before after : List Seen} {here : Spanned}
    (hseen : seen (tokenize letters source) = before ++ .token here :: after) :
    headerSliceBytes source
        (before.foldl (DeclarationScan.see letters source) .start).pending.startOffset
        here.offset =
      some (headerSlice source
        (before.foldl (DeclarationScan.see letters source) .start).pending.startOffset
        here.offset) := by
  have hsublist := seen_sublist (tokenize letters source)
  have hboundary : ∀ item ∈ seen (tokenize letters source),
      IsBoundary source.toList item.spanned.offset := by
    intro item hitem
    have htoken := hsublist.subset (List.mem_map_of_mem hitem)
    exact isBoundary_of_mem_charIndices
      ((tokenize_offsets letters source).subset (List.mem_map_of_mem htoken))
  have hordered := (pairwise_tokenize letters source).sublist hsublist
  rw [hseen, List.map_append, List.map_cons, List.pairwise_append] at hordered
  rw [startOffset_foldl]
  cases hstart : headerStart before with
  | none => rfl
  | some first =>
      obtain ⟨item, hitem, rfl⟩ := mem_of_headerStart hstart
      have hprecedes := hordered.2.2 _ (List.mem_map_of_mem hitem) here List.mem_cons_self
      exact headerSliceBytes_eq hprecedes.1.le
        (hboundary item (by rw [hseen]; exact List.mem_append_left _ hitem))
        (hboundary (.token here) (by rw [hseen]; simp))

/-- `lex` ends with one entry for each character, in order, at its byte offset.  So no
lookup of a state in the loops over a lexed text is out of range, where each of them ends
with the result of the model, and no header is cut inside a character. -/
theorem lexer_aligned (classes : LetterClasses) (source : String) :
    (∃ states, lexStates source = some states ∧ states.length = source.toList.length ∧
      (∀ index entry, states[index]? = some entry →
        entry.1 = utf8Length (source.toList.take index)) ∧
      ∀ index, packageNameFrom classes.letters states source.toList index =
        some (readPackageName classes.letters ((lex source).drop index))) ∧
    tokenizeIndexed classes.letters source = some (tokenize classes.letters source) ∧
    supertypesIndexed classes.letters source =
      some (supertypesInHeader classes.letters source) ∧
    packageIndexed classes.letters source = some (javaPackage classes.letters source) ∧
    ∀ before here after,
      seen (tokenize classes.letters source) = before ++ .token here :: after →
        ∀ declared, before.foldl (DeclarationScan.see classes.letters source) .start = declared →
          headerSliceBytes source declared.pending.startOffset here.offset =
            some (headerSlice source declared.pending.startOffset here.offset) := by
  have hletters := classes.lawful
  refine ⟨⟨_, lexStates_eq source, ?_, ?_, ?_⟩, tokenizeIndexed_eq hletters source,
    supertypesIndexed_eq hletters source, packageIndexed_eq hletters source, ?_⟩
  · rw [List.length_map, length_lex]
  · intro index entry hentry
    rw [List.getElem?_map] at hentry
    obtain ⟨here, hhere, rfl⟩ := Option.map_eq_some_iff.mp hentry
    exact offset_of_lex hhere
  · intro index
    rw [← lex_letters]
    exact packageNameFrom_eq _ _ index
  · rintro before here after hseen declared rfl
    exact headerSliceBytes_declarationScan _ _ hseen

end Ktsense.Core
