import Ktsense.Core.JavaSeams

/-!
# Annotations inserted between tokens

A use of an annotation, put where the scans come to and before a declaration or a
modifier, is walked through.  The scans see the same items as without it, those behind
the place moved on.
-/

namespace Ktsense.Core

open Ktsense.Foundation

/-! ## The walk at a place -/

/-- The scans walk these tokens to what is left of them, and see these items on the
way. -/
inductive Walks : List Spanned → List Seen → List Spanned → Prop
  | here (tokens : List Spanned) : Walks tokens [] tokens
  | token {here : Spanned} {rest left : List Spanned} {items : List Seen}
      (hat : here.token ≠ .at) (hrest : Walks rest items left) :
      Walks (here :: rest) (.token here :: items) left
  | mark {here : Spanned} {rest left : List Spanned} {items : List Seen}
      (hat : here.token = .at) (hrest : Walks (seenAt here rest).2 items left) :
      Walks (here :: rest) ((seenAt here rest).1 ++ items) left

theorem seenAt_suffix (here : Spanned) (rest : List Spanned) :
    (seenAt here rest).2 <:+ rest := by
  obtain ⟨left, hleft, -⟩ := seenAt_sublist here rest
  exact ⟨left, hleft.symm⟩

theorem Walks.of_seenAt {here : Spanned} {rest passed left : List Spanned}
    {found items : List Seen} (hat : here.token = .at) (hseen : seenAt here rest = (found, passed))
    (hrest : Walks passed items left) : Walks (here :: rest) (found ++ items) left := by
  obtain ⟨rfl, rfl⟩ := Prod.mk.inj hseen
  exact .mark hat hrest

theorem Walks.suffix {tokens left : List Spanned} {items : List Seen}
    (hwalks : Walks tokens items left) : left <:+ tokens := by
  induction hwalks with
  | here tokens => exact List.suffix_refl _
  | token _ _ ih => exact ih.trans (List.suffix_cons _ _)
  | mark _ _ ih => exact (ih.trans (seenAt_suffix _ _)).trans (List.suffix_cons _ _)

theorem seenFrom_fuel (fuel : ℕ) (tokens : List Spanned) (henough : tokens.length ≤ fuel) :
    seenFrom fuel tokens = seen tokens := by
  rw [seen]
  induction fuel using Nat.strong_induction_on generalizing tokens with
  | _ fuel ih =>
      match tokens, fuel, henough with
      | [], 0, _ => rfl
      | [], fuel + 1, _ => rfl
      | here :: rest, fuel + 1, henough =>
          have hrest : rest.length ≤ fuel := Nat.le_of_succ_le_succ henough
          have hpart (left : List Spanned) (hleft : left <:+ rest) :
              seenFrom fuel left = seenFrom rest.length left := by
            rw [ih fuel (Nat.lt_succ_self _) left (hleft.length_le.trans hrest)]
            exact (ih rest.length (Nat.lt_succ_of_le hrest) left hleft.length_le).symm
          rw [List.length_cons, seenFrom, seenFrom, hpart rest (List.suffix_refl _),
            hpart _ (seenAt_suffix here rest)]

theorem Walks.seen {tokens left : List Spanned} {items : List Seen}
    (hwalks : Walks tokens items left) : seen tokens = items ++ Core.seen left := by
  induction hwalks with
  | here tokens => rfl
  | @token here rest _ _ hat _ ih =>
      rw [List.cons_append, ← ih, Core.seen, List.length_cons, seenFrom, if_neg hat]
      rfl
  | @mark here rest _ _ hat _ ih =>
      rw [List.append_assoc, ← ih, Core.seen, List.length_cons, seenFrom, if_pos hat,
        seenFrom_fuel _ _ (seenAt_suffix here rest).length_le]

/-! ## Argument lists -/

/-- An argument list that ends before these tokens ends there whatever follows. -/
theorem skipArguments_append (depth : ℕ) (tokens : List Spanned) {more : List Spanned}
    (hmore : more ≠ []) (hends : more.length ≤ (skipArguments depth (tokens ++ more)).length) :
    ∃ left, ∀ other, skipArguments depth (tokens ++ other) = left ++ other := by
  induction tokens generalizing depth with
  | nil =>
      exfalso
      cases more with
      | nil => exact hmore rfl
      | cons next others =>
          have hfewer (depth : ℕ) := (skipArguments_suffix depth others).length_le
          rw [List.nil_append, skipArguments, List.length_cons] at hends
          split at hends
          · have := hfewer (depth + 1)
            omega
          · split_ifs at hends
            · omega
            · have := hfewer (depth - 1)
              omega
          · have := hfewer depth
            omega
  | cons here rest ih =>
      simp only [List.cons_append, skipArguments] at hends ⊢
      cases htoken : here.token with
      | lParen =>
          simp only [htoken] at hends ⊢
          exact ih _ hends
      | rParen =>
          simp only [htoken] at hends ⊢
          split_ifs at hends ⊢ with hlast
          · exact ⟨rest, fun other => rfl⟩
          · exact ih _ hends
      | ident _ | lBrace | rBrace | semi | «at» | arrow | eq | lAngle | rAngle =>
          simp only [htoken] at hends ⊢
          exact ih _ hends

/-- What follows an argument list, if one stands here. -/
def pastArguments (tokens : List Spanned) : List Spanned :=
  match tokens with
  | ⟨.lParen, _, _⟩ :: _ => skipArguments 0 tokens
  | _ => tokens

theorem pastArguments_of_ne {here : Spanned} (hother : here.token ≠ .lParen)
    (rest : List Spanned) : pastArguments (here :: rest) = here :: rest := by
  obtain ⟨token, line, offset⟩ := here
  cases token <;> first | rfl | exact absurd rfl hother

theorem skipAnnotationUse_ident (name : String) (line offset : ℕ) (rest : List Spanned) :
    skipAnnotationUse (⟨.ident name, line, offset⟩ :: rest) = pastArguments rest := rfl

theorem skipAnnotationUse_of_ne {here : Spanned} (hother : ∀ name, here.token ≠ .ident name)
    (rest : List Spanned) : skipAnnotationUse (here :: rest) = pastArguments (here :: rest) := by
  obtain ⟨token, line, offset⟩ := here
  cases token <;> first | rfl | exact absurd rfl (hother _)

theorem pastArguments_append (tokens : List Spanned) {next : Spanned} {more : List Spanned}
    (hends : (next :: more).length ≤ (pastArguments (tokens ++ next :: more)).length) :
    ∃ left, ∀ (first : Spanned) (others : List Spanned), first.token ≠ .lParen →
      pastArguments (tokens ++ first :: others) = left ++ first :: others := by
  cases tokens with
  | nil => exact ⟨[], fun first others hfirst => pastArguments_of_ne hfirst others⟩
  | cons here rest =>
      by_cases hparen : here.token = .lParen
      · obtain ⟨token, line, offset⟩ := here
        subst hparen
        obtain ⟨left, hleft⟩ := skipArguments_append 0 (⟨.lParen, line, offset⟩ :: rest)
          (List.cons_ne_nil next more) hends
        exact ⟨left, fun first others _ => hleft (first :: others)⟩
      · exact ⟨here :: rest, fun first others _ => pastArguments_of_ne hparen _⟩

theorem seenAt_use (here : Spanned) {first : Spanned}
    (hfirst : first.token ≠ .ident "interface") (rest : List Spanned) :
    seenAt here (first :: rest) = ([], skipAnnotationUse (first :: rest)) := by
  obtain ⟨token, line, offset⟩ := first
  rw [seenAt.eq_def]
  split
  · rename_i heq
    exact absurd (congrArg Spanned.token (List.cons.inj heq).1) hfirst
  · rfl

theorem pastArguments_suffix (tokens : List Spanned) : pastArguments tokens <:+ tokens := by
  rw [pastArguments.eq_def]
  split
  · exact skipArguments_suffix 0 _
  · exact List.suffix_refl _

/-- The name of an annotation goes with it. -/
theorem length_seenAt_ident (here : Spanned) {first : Spanned} {name : String}
    (hfirst : first.token = .ident name) (rest : List Spanned) :
    (seenAt here (first :: rest)).2.length ≤ rest.length := by
  obtain ⟨token, line, offset⟩ := first
  subst hfirst
  by_cases hinterface : name = "interface"
  · subst hinterface
    exact le_rfl
  · rw [seenAt_use here (by simpa using hinterface), skipAnnotationUse_ident]
    exact (pastArguments_suffix rest).length_le

/-- An annotation that ends before this token ends there also when another annotation
follows instead. -/
theorem seenAt_append (here : Spanned) (tokens : List Spanned) {next : Spanned}
    {more : List Spanned} (hnext : next.token ≠ .lParen)
    (hends : (next :: more).length ≤ (seenAt here (tokens ++ next :: more)).2.length) :
    ∃ items left, seenAt here (tokens ++ next :: more) = (items, left ++ next :: more) ∧
      ∀ (mark : Spanned) (others : List Spanned), mark.token = .at →
        seenAt here (tokens ++ mark :: others) = (items, left ++ mark :: others) := by
  have hparen {mark : Spanned} (hmark : mark.token = .at) : mark.token ≠ .lParen := by
    rw [hmark]
    simp
  cases tokens with
  | nil =>
      have hbare (first : Spanned) (others : List Spanned) (hfirst : first.token ≠ .lParen)
          (hother : ∀ name, first.token ≠ .ident name) :
          seenAt here (first :: others) = ([], first :: others) := by
        rw [seenAt_use here (hother _), skipAnnotationUse_of_ne hother,
          pastArguments_of_ne hfirst]
      refine ⟨[], [], hbare next more hnext fun name hname => ?_, fun mark others hmark =>
        hbare mark others (hparen hmark) fun name => by rw [hmark]; simp⟩
      exact absurd (hends.trans (length_seenAt_ident here hname more)) (Nat.not_succ_le_self _)
  | cons first rest =>
      by_cases hinterface : first.token = .ident "interface"
      · obtain ⟨token, line, offset⟩ := first
        subst hinterface
        exact ⟨_, rest, rfl, fun mark others _ => rfl⟩
      · have huse (other : List Spanned) : seenAt here (first :: rest ++ other) =
            ([], skipAnnotationUse (first :: rest ++ other)) :=
          seenAt_use here hinterface (rest ++ other)
        -- the argument list begins behind the name, or here
        obtain ⟨list, hlist⟩ : ∃ list, ∀ other,
            skipAnnotationUse (first :: rest ++ other) = pastArguments (list ++ other) := by
          by_cases hident : ∃ name, first.token = .ident name
          · obtain ⟨name, hname⟩ := hident
            obtain ⟨token, line, offset⟩ := first
            subst hname
            exact ⟨rest, fun other => skipAnnotationUse_ident name line offset _⟩
          · exact ⟨first :: rest, fun other =>
              skipAnnotationUse_of_ne (fun name hname => hident ⟨name, hname⟩) _⟩
        rw [huse, hlist] at hends
        obtain ⟨left, hleft⟩ := pastArguments_append list hends
        refine ⟨[], left, ?_, fun mark others hmark => ?_⟩
        · rw [huse, hlist, hleft next more hnext]
        · rw [huse, hlist, hleft mark others (hparen hmark)]

/-- Walked to a place, the scans have seen the same when an annotation follows there. -/
theorem Walks.annotated {tokens : List Spanned} {next : Spanned} {more : List Spanned}
    {items : List Seen} (hwalks : Walks (tokens ++ next :: more) items (next :: more))
    (hnext : next.token ≠ .lParen) {mark : Spanned} (hmark : mark.token = .at)
    (others : List Spanned) : Walks (tokens ++ mark :: others) items (mark :: others) := by
  generalize hwhole : tokens ++ next :: more = whole at hwalks
  generalize hleft : next :: more = left at hwalks hwhole
  induction hwalks generalizing tokens with
  | here whole =>
      have hnone : tokens = [] := by simpa using hwhole
      rw [hnone]
      exact .here _
  | @token here rest left items hat hrest ih =>
      cases tokens with
      | nil =>
          have := hrest.suffix.length_le
          have := congrArg List.length hwhole
          simp at this
          omega
      | cons first tokens =>
          obtain ⟨rfl, hsame⟩ := List.cons.inj hwhole
          exact .token hat (ih hleft hsame)
  | @mark here rest left items hat hrest ih =>
      cases tokens with
      | nil =>
          have := (hrest.suffix.trans (seenAt_suffix here rest)).length_le
          have := congrArg List.length hwhole
          simp at this
          omega
      | cons first tokens =>
          obtain ⟨rfl, hsame⟩ := List.cons.inj hwhole
          subst hleft hsame
          obtain ⟨found, passed, hseen, hother⟩ := seenAt_append first tokens hnext
            hrest.suffix.length_le
          have hrest : Walks (passed ++ mark :: others) items (mark :: others) :=
            ih rfl (congrArg Prod.snd hseen).symm
          have hfound : (seenAt first (tokens.append (next :: more))).1 = found :=
            congrArg Prod.fst hseen
          rw [hfound]
          exact .of_seenAt hat (hother mark others hmark) hrest

/-! ## Uses of annotations -/

def ParensMatch (tokens : List Token) : Prop :=
  tokens.count .rParen = tokens.count .lParen ∧
    ∀ front, front <+: tokens → front.count .rParen ≤ front.count .lParen

/-- An `@`, a simple name, and perhaps an argument list. -/
def IsAnnotationUse (tokens : List Token) : Prop :=
  ∃ name list, tokens = .at :: .ident name :: list ∧ name ≠ "interface" ∧
    (list = [] ∨ ∃ arguments, list = .lParen :: arguments ++ [.rParen] ∧ ParensMatch arguments)

/-- Matching parentheses leave the depth alone. -/
theorem skipArguments_of_match (depth : ℕ) (arguments rest : List Spanned)
    (hopen : ∀ front, front <+: arguments.map (·.token) →
      front.count .rParen < depth + front.count .lParen) :
    skipArguments depth (arguments ++ rest) =
      skipArguments (depth + (arguments.map (·.token)).count .lParen -
        (arguments.map (·.token)).count .rParen) rest := by
  induction arguments generalizing depth with
  | nil => rfl
  | cons here arguments ih =>
      have hfirst (front : List Token) (hfront : front <+: arguments.map (·.token)) :=
        hopen (here.token :: front) (by simpa using hfront)
      rw [List.cons_append, skipArguments, List.map_cons]
      cases htoken : here.token with
      | lParen =>
          simp only [htoken, List.count_cons_self, ne_eq, reduceCtorEq, not_false_eq_true,
            List.count_cons_of_ne] at hfirst ⊢
          rw [ih (depth + 1) fun front hfront => by have := hfirst front hfront; omega]
          congr 1
          omega
      | rParen =>
          simp only [htoken, List.count_cons_self, ne_eq, reduceCtorEq, not_false_eq_true,
            List.count_cons_of_ne] at hfirst ⊢
          have hdepth := hfirst [] List.nil_prefix
          rw [List.count_nil, List.count_nil] at hdepth
          rw [if_neg (by omega),
            ih (depth - 1) fun front hfront => by have := hfirst front hfront; omega]
          congr 1
          omega
      | ident _ | lBrace | rBrace | semi | «at» | arrow | eq | lAngle | rAngle =>
          simp only [htoken, ne_eq, reduceCtorEq, not_false_eq_true,
            List.count_cons_of_ne] at hfirst ⊢
          exact ih depth hfirst

/-- A use is walked through and nothing of it is seen. -/
theorem walks_annotationUse {tokens : List Spanned}
    (huse : IsAnnotationUse (tokens.map (·.token))) {next : Spanned}
    (hnext : next.token ≠ .lParen) (more : List Spanned) :
    Walks (tokens ++ next :: more) [] (next :: more) := by
  obtain ⟨name, list, htokens, hname, hlist⟩ := huse
  obtain ⟨mark, first, rest, rfl, hmark, hfirst, hrest⟩ : ∃ mark first rest,
      tokens = mark :: first :: rest ∧ mark.token = .at ∧ first.token = .ident name ∧
        rest.map (·.token) = list := by
    obtain ⟨mark, others, rfl, hmark, hothers⟩ := List.map_eq_cons_iff.mp htokens
    obtain ⟨first, rest, rfl, hfirst, hrest⟩ := List.map_eq_cons_iff.mp hothers
    exact ⟨mark, first, rest, rfl, hmark, hfirst, hrest⟩
  have hpast : pastArguments (rest ++ next :: more) = next :: more := by
    rcases hlist with rfl | ⟨arguments, rfl, htotal, hfront⟩
    · rw [List.map_eq_nil_iff.mp hrest, List.nil_append]
      exact pastArguments_of_ne hnext more
    · obtain ⟨inner, last, hsplit, hinner, hlast⟩ := List.map_eq_append_iff.mp hrest
      obtain ⟨lparen, inside, rfl, hlparen, hinside⟩ := List.map_eq_cons_iff.mp hinner
      obtain ⟨rparen, rfl, hrparen⟩ := List.map_eq_singleton_iff.mp hlast
      obtain ⟨token, line, offset⟩ := lparen
      cases hlparen
      subst hsplit hinside
      have hmatch : skipArguments 1 (inside ++ rparen :: next :: more) =
          skipArguments 1 (rparen :: next :: more) := by
        rw [skipArguments_of_match 1 inside _ fun front hprior => by
          have := hfront front hprior
          omega]
        rw [htotal, Nat.add_sub_cancel]
      have hclosed : skipArguments 1 (rparen :: next :: more) = next :: more := by
        rw [skipArguments, hrparen]
        rfl
      rw [List.append_assoc]
      exact hmatch.trans hclosed
  obtain ⟨token, line, offset⟩ := first
  subst hfirst
  have hseen : seenAt mark (⟨.ident name, line, offset⟩ :: (rest ++ next :: more)) =
      ([], next :: more) := by
    rw [seenAt_use mark (by simpa using hname), skipAnnotationUse_ident, hpast]
  exact .of_seenAt hmark hseen (.here _)

/-! ## Moved items -/

def Seen.shift (lines bytes : ℕ) : Seen → Seen
  | .token here => .token (here.shift lines bytes)
  | .annotationType here => .annotationType (here.shift lines bytes)

theorem skipArguments_shift (lines bytes depth : ℕ) (tokens : List Spanned) :
    skipArguments depth (tokens.map (Spanned.shift lines bytes)) =
      (skipArguments depth tokens).map (Spanned.shift lines bytes) := by
  induction tokens generalizing depth with
  | nil => rfl
  | cons here rest ih =>
      rw [List.map_cons, skipArguments, skipArguments]
      dsimp only [Spanned.shift]
      cases here.token with
      | rParen => split_ifs <;> first | rfl | exact ih _
      | lParen | ident _ | lBrace | rBrace | semi | «at» | arrow | eq | lAngle | rAngle =>
          exact ih _

theorem pastArguments_shift (lines bytes : ℕ) (tokens : List Spanned) :
    pastArguments (tokens.map (Spanned.shift lines bytes)) =
      (pastArguments tokens).map (Spanned.shift lines bytes) := by
  cases tokens with
  | nil => rfl
  | cons here rest =>
      obtain ⟨token, line, offset⟩ := here
      cases token with
      | lParen => exact skipArguments_shift lines bytes 0 (⟨.lParen, line, offset⟩ :: rest)
      | rParen | ident _ | lBrace | rBrace | semi | «at» | arrow | eq | lAngle | rAngle => rfl

theorem seenAt_shift (lines bytes : ℕ) (here : Spanned) (rest : List Spanned) :
    seenAt (here.shift lines bytes) (rest.map (Spanned.shift lines bytes)) =
      ((seenAt here rest).1.map (Seen.shift lines bytes),
        (seenAt here rest).2.map (Spanned.shift lines bytes)) := by
  cases rest with
  | nil => rfl
  | cons first rest =>
      by_cases hinterface : first.token = .ident "interface"
      · obtain ⟨token, line, offset⟩ := first
        subst hinterface
        rfl
      · have hmoved : (first.shift lines bytes).token ≠ .ident "interface" := hinterface
        rw [List.map_cons, seenAt_use here hinterface, seenAt_use _ hmoved]
        by_cases hident : ∃ name, first.token = .ident name
        · obtain ⟨name, hname⟩ := hident
          obtain ⟨token, line, offset⟩ := first
          subst hname
          exact congrArg (Prod.mk []) (pastArguments_shift lines bytes rest)
        · have hother : ∀ name, first.token ≠ .ident name :=
            fun name hname => hident ⟨name, hname⟩
          have hmovedOther : ∀ name, (first.shift lines bytes).token ≠ .ident name := hother
          rw [skipAnnotationUse_of_ne hother, skipAnnotationUse_of_ne hmovedOther,
            ← List.map_cons, pastArguments_shift]
          rfl

theorem seen_shift (lines bytes : ℕ) (tokens : List Spanned) :
    seen (tokens.map (Spanned.shift lines bytes)) =
      (seen tokens).map (Seen.shift lines bytes) := by
  rw [seen, seen, List.length_map]
  induction tokens.length generalizing tokens with
  | zero => rfl
  | succ fuel ih =>
      cases tokens with
      | nil => rfl
      | cons here rest =>
          rw [List.map_cons, seenFrom, seenFrom, seenAt_shift, ih, ih]
          by_cases hat : here.token = .at
          · rw [if_pos hat, if_pos (show (here.shift lines bytes).token = .at from hat),
              List.map_append]
          · rw [if_neg hat, if_neg (show ¬(here.shift lines bytes).token = .at from hat)]
            rfl

/-! ## Insertions -/

/-- The tokens from a place on. -/
def tokensBehind (place : ℕ) (tokens : List Spanned) : List Spanned :=
  tokens.filter (place ≤ ·.offset)

/-- What a declaration or a modifier begins with: a word, an annotation or a list of
type parameters. -/
def StartsDeclaration (token : Token) : Prop :=
  (∃ name, token = .ident name) ∨ token = .at ∨ token = .lAngle

/-- A use of an annotation put between two texts, before a declaration or a modifier
that the scans come to. -/
structure Insertion (letters : Letters) (before inserted after : String) : Prop where
  place : Splits letters before after
  front : Splits letters before (inserted ++ after)
  back : Splits letters inserted after
  use : IsAnnotationUse ((tokenize letters inserted).map (·.token))
  reached : ∃ items, Walks (tokenize letters (before ++ after)) items
    (tokensBehind before.utf8ByteSize (tokenize letters (before ++ after)))
  declaration : ∃ next ∈ (tokensBehind before.utf8ByteSize
    (tokenize letters (before ++ after))).head?, StartsDeclaration next.token

/-- What is seen on the way stands before what is left. -/
theorem Walks.sublist {tokens left : List Spanned} {items : List Seen}
    (hwalks : Walks tokens items left) :
    ∃ front, tokens = front ++ left ∧ (items.map Seen.spanned).Sublist front := by
  induction hwalks with
  | here tokens => exact ⟨[], rfl, List.nil_sublist _⟩
  | @token here rest left items _ _ ih =>
      obtain ⟨front, rfl, hitems⟩ := ih
      exact ⟨here :: front, rfl, hitems.cons_cons here⟩
  | @mark here rest left items _ _ ih =>
      obtain ⟨front, hfront, hitems⟩ := ih
      obtain ⟨passed, hpassed, hfound⟩ := seenAt_sublist here rest
      refine ⟨here :: passed ++ front, ?_, ?_⟩
      · rw [List.append_assoc, ← hfront, List.cons_append, ← hpassed]
      · rw [List.map_append]
        exact hfound.append hitems

theorem Walks.trans {tokens passed left : List Spanned} {items more : List Seen}
    (hwalks : Walks tokens items passed) (hmore : Walks passed more left) :
    Walks tokens (items ++ more) left := by
  induction hwalks with
  | here tokens => exact hmore
  | token hat _ ih => exact .token hat (ih hmore)
  | mark hat _ ih =>
      rw [List.append_assoc]
      exact .mark hat (ih hmore)

/-- A use inserted where the scans come to is walked through. -/
theorem Walks.inserted {tokens use more : List Spanned} {next other : Spanned}
    {items : List Seen} (hwalks : Walks (tokens ++ next :: more) items (next :: more))
    (hnext : next.token ≠ .lParen) (huse : IsAnnotationUse (use.map (·.token)))
    (hother : other.token ≠ .lParen) (others : List Spanned) :
    Walks (tokens ++ (use ++ other :: others)) items (other :: others) := by
  have hpassed := walks_annotationUse huse hother others
  obtain ⟨_, _, htokens, -⟩ := huse
  obtain ⟨mark, rest, rfl, hmark, -⟩ := List.map_eq_cons_iff.mp htokens
  have hwalked := (hwalks.annotated hnext hmark (rest ++ other :: others)).trans hpassed
  rw [List.append_nil] at hwalked
  exact hwalked

theorem offset_lt_of_mem_tokenize {letters : Letters} {source : String} {token : Spanned}
    (htoken : token ∈ tokenize letters source) : token.offset < source.utf8ByteSize :=
  (tokenize_bounds letters source token htoken).1

theorem tokensBehind_append (letters : Letters) (before : String) (lines : ℕ)
    (tokens : List Spanned) :
    tokensBehind before.utf8ByteSize (tokenize letters before ++
      tokens.map (Spanned.shift lines before.utf8ByteSize)) =
        tokens.map (Spanned.shift lines before.utf8ByteSize) := by
  have hbefore : (tokenize letters before).filter (before.utf8ByteSize ≤ ·.offset) = [] := by
    rw [List.filter_eq_nil_iff]
    intro token htoken
    simpa using offset_lt_of_mem_tokenize htoken
  have hbehind : (tokens.map (Spanned.shift lines before.utf8ByteSize)).filter
      (before.utf8ByteSize ≤ ·.offset) =
        tokens.map (Spanned.shift lines before.utf8ByteSize) := by
    rw [List.filter_eq_self]
    intro token htoken
    obtain ⟨here, -, rfl⟩ := List.mem_map.mp htoken
    simp [Spanned.shift]
  rw [tokensBehind, List.filter_append, hbefore, hbehind, List.nil_append]

/-- With an annotation inserted the same is seen before the place, and behind it the
same moved on. -/
theorem Insertion.seen_eq {letters : Letters} {before inserted after : String}
    (hinsert : Insertion letters before inserted after) :
    ∃ lines ≤ inserted.toList.count '\n', ∃ front back : List Seen,
      seen (tokenize letters (before ++ after)) = front ++ back ∧
        seen (tokenize letters (before ++ inserted ++ after)) =
          front ++ back.map (Seen.shift lines inserted.utf8ByteSize) ∧
        (∀ item ∈ front, item.spanned.offset < before.utf8ByteSize) ∧
        ∀ item ∈ back, before.utf8ByteSize ≤ item.spanned.offset := by
  obtain ⟨prior, -, hprior⟩ := tokenize_append letters before
  obtain ⟨lines, hlines, hmoved⟩ := tokenize_append letters inserted
  obtain ⟨items, hwalks⟩ := hinsert.reached
  obtain ⟨next, hnext, hstarts⟩ := hinsert.declaration
  have hplain := hprior after hinsert.place
  have hsource := hprior (inserted ++ after) hinsert.front
  rw [hmoved after hinsert.back, List.map_append, ← String.append_assoc] at hsource
  rw [hplain, tokensBehind_append] at hwalks hnext
  obtain ⟨behind, hbehind⟩ :
      ∃ behind, behind = (tokenize letters after).map (Spanned.shift prior before.utf8ByteSize) :=
    ⟨_, rfl⟩
  obtain ⟨use, huse⟩ :
      ∃ use, use = (tokenize letters inserted).map (Spanned.shift prior before.utf8ByteSize) :=
    ⟨_, rfl⟩
  have hcommute : ((tokenize letters after).map
      (Spanned.shift lines inserted.utf8ByteSize)).map (Spanned.shift prior before.utf8ByteSize) =
        behind.map (Spanned.shift lines inserted.utf8ByteSize) := by
    rw [hbehind, List.map_map, List.map_map]
    refine List.map_congr_left fun token _ => ?_
    simp [Spanned.shift, Nat.add_right_comm]
  have hisUse : IsAnnotationUse (use.map (·.token)) := by
    rw [huse, List.map_map]
    exact hinsert.use
  rw [hcommute, ← huse] at hsource
  rw [← hbehind] at hplain hwalks hnext
  obtain ⟨more, rfl⟩ : ∃ more, behind = next :: more := List.head?_eq_some_iff.mp hnext
  have hparen : next.token ≠ .lParen := by
    rcases hstarts with ⟨name, hname⟩ | hname | hname <;> rw [hname] <;> simp
  have hparenMoved : (next.shift lines inserted.utf8ByteSize).token ≠ .lParen := hparen
  have hwalked := hwalks.inserted hparen hisUse hparenMoved
    (more.map (Spanned.shift lines inserted.utf8ByteSize))
  refine ⟨lines, hlines, items, seen (next :: more), ?_, ?_, ?_, ?_⟩
  · rw [hplain, hwalks.seen]
  · rw [hsource, ← seen_shift]
    exact hwalked.seen
  · obtain ⟨front, hfront, hitems⟩ := hwalks.sublist
    rw [← List.append_cancel_right hfront] at hitems
    intro item hitem
    exact offset_lt_of_mem_tokenize (hitems.subset (List.mem_map_of_mem hitem))
  · intro item hitem
    have hmem := (seen_sublist _).subset (List.mem_map_of_mem hitem)
    rw [hbehind] at hmem
    obtain ⟨here, -, hhere⟩ := List.mem_map.mp hmem
    rw [← hhere]
    exact Nat.le_add_left _ _

end Ktsense.Core
