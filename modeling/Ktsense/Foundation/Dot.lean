import Mathlib

/-!
# Reading Graphviz text

The part of the DOT language that has a graph of named nodes and edges: a directed
graph with attribute assignments, node statements and edge chains.  A quoted name ends
at the first quote that no backslash precedes; in it a backslash stands for itself
unless it precedes a quote, or a line break, which it removes.

Lexer and parser are transducers: machines that put out a list at each step.
-/

namespace Ktsense.Foundation

/-! ## Transducers -/

structure Transducer (S A B : Type*) where
  step : S → A → Option (List B × S)
  finish : S → Option (List B)

namespace Transducer

variable {S A B : Type*} (machine : Transducer S A B)

/-- What is put out from a state on. -/
def run : S → List A → Option (List B)
  | state, [] => machine.finish state
  | state, item :: rest =>
      (machine.step state item).bind fun taken =>
        (run taken.2 rest).map (taken.1 ++ ·)

/-- What is put out over a front, and the state after it. -/
def steps : S → List A → Option (List B × S)
  | state, [] => some ([], state)
  | state, item :: rest =>
      (machine.step state item).bind fun taken =>
        (steps taken.2 rest).map fun later => (taken.1 ++ later.1, later.2)

variable {machine}

theorem run_cons_of_step {state next : S} {item : A} {out : List B}
    (hstep : machine.step state item = some (out, next)) (rest : List A) :
    machine.run state (item :: rest) = (machine.run next rest).map (out ++ ·) := by
  rw [run, hstep, Option.bind_some]

theorem run_append (state : S) (front back : List A) :
    machine.run state (front ++ back) = (machine.steps state front).bind fun taken =>
      (machine.run taken.2 back).map (taken.1 ++ ·) := by
  induction front generalizing state with
  | nil =>
      rw [steps, Option.bind_some, List.nil_append]
      cases machine.run state back <;> rfl
  | cons item rest ih =>
      rw [List.cons_append, run, steps]
      cases machine.step state item with
      | none => rfl
      | some taken =>
          rw [Option.bind_some, Option.bind_some, ih]
          cases machine.steps taken.2 rest with
          | none => rfl
          | some later =>
              rw [Option.bind_some, Option.map_some, Option.bind_some, Option.map_map]
              congr 1
              funext out
              exact (List.append_assoc _ _ _).symm

theorem steps_append (state : S) (front back : List A) :
    machine.steps state (front ++ back) = (machine.steps state front).bind fun taken =>
      (machine.steps taken.2 back).map fun later => (taken.1 ++ later.1, later.2) := by
  induction front generalizing state with
  | nil =>
      rw [steps, Option.bind_some, List.nil_append]
      cases machine.steps state back <;> rfl
  | cons item rest ih =>
      rw [List.cons_append, steps, steps]
      cases machine.step state item with
      | none => rfl
      | some taken =>
          rw [Option.bind_some, Option.bind_some, ih]
          cases machine.steps taken.2 rest with
          | none => rfl
          | some later =>
              rw [Option.bind_some, Option.map_some, Option.bind_some, Option.map_map]
              congr 1
              funext further
              exact congrArg (·, further.2) (List.append_assoc _ _ _).symm

theorem run_of_steps {state next : S} {front : List A} {out : List B}
    (hsteps : machine.steps state front = some (out, next)) (back : List A) :
    machine.run state (front ++ back) = (machine.run next back).map (out ++ ·) := by
  rw [run_append, hsteps, Option.bind_some]

end Transducer

namespace Dot

/-! ## Tokens -/

inductive Token where
  | word (letters : List Char)
  | quoted (letters : List Char)
  | opening
  | closing
  | equals
  | semicolon
  | arrow
  deriving DecidableEq, Repr

inductive LexState where
  | between
  | word (letters : List Char)
  | quoted (letters : List Char)
  | escaped (letters : List Char)
  | dash
  deriving DecidableEq, Repr

def isBlank (letter : Char) : Bool := [' ', '\t', '\r', '\n'].contains letter

def startsWord (letter : Char) : Bool := letter.isAlpha || letter = '_'

/-- What a letter begins between two tokens. -/
def beginToken (letter : Char) : Option (List Token × LexState) :=
  if isBlank letter then some ([], .between)
  else if startsWord letter then some ([], .word [letter])
  else
    match letter with
    | '"' => some ([], .quoted [])
    | '-' => some ([], .dash)
    | '\x7b' => some ([.opening], .between)
    | '\x7d' => some ([.closing], .between)
    | '=' => some ([.equals], .between)
    | ';' => some ([.semicolon], .between)
    | _ => none

def lexer : Transducer LexState Char Token where
  step
    | .between, letter => beginToken letter
    | .word letters, letter =>
        if startsWord letter || letter.isDigit then some ([], .word (letters ++ [letter]))
        else (beginToken letter).map fun begun => (.word letters :: begun.1, begun.2)
    | .quoted letters, '"' => some ([.quoted letters], .between)
    | .quoted letters, '\\' => some ([], .escaped letters)
    | .quoted letters, letter => some ([], .quoted (letters ++ [letter]))
    | .escaped letters, '"' => some ([], .quoted (letters ++ ['"']))
    | .escaped letters, '\n' => some ([], .quoted letters)
    | .escaped letters, letter => some ([], .quoted (letters ++ ['\\', letter]))
    | .dash, '>' => some ([.arrow], .between)
    | .dash, _ => none
  finish
    | .between => some []
    | .word letters => some [.word letters]
    | _ => none

/-! ## Statements -/

/-- A node statement is a path of one name; an assignment sets an attribute. -/
inductive Statement where
  | path (names : List (List Char))
  | assign (key value : List Char)
  deriving DecidableEq, Repr

inductive ParseState where
  | start
  | names (done : List (List Char))
  | arrow (done : List (List Char))
  | value (key : List Char)
  | assigned
  | closed
  deriving DecidableEq, Repr

def keywords : List (List Char) :=
  ["node".toList, "edge".toList, "graph".toList, "digraph".toList, "subgraph".toList,
    "strict".toList]

def identifier : Token → Option (List Char)
  | .quoted letters => some letters
  | .word letters => if keywords.contains letters then none else some letters
  | _ => none

/-- What a token begins between two statements. -/
def beginStatement (token : Token) : Option (List Statement × ParseState) :=
  match token with
  | .closing => some ([], .closed)
  | other => (identifier other).map fun name => ([], .names [name])

/-- What a token makes of the names before it. -/
def afterNames (done : List (List Char)) (token : Token) :
    Option (List Statement × ParseState) :=
  match token with
  | .semicolon => some ([.path done], .start)
  | .arrow => some ([], .arrow done)
  | .equals => if done.length = 1 then some ([], .value done.flatten) else none
  | other => (beginStatement other).map fun begun => (.path done :: begun.1, begun.2)

def parser : Transducer ParseState Token Statement where
  step
    | .start, token => beginStatement token
    | .names done, token => afterNames done token
    | .arrow done, token => (identifier token).map fun name => ([], .names (done ++ [name]))
    | .value key, token => (identifier token).map fun value => ([.assign key value], .assigned)
    | .assigned, .semicolon => some ([], .start)
    | .assigned, token => beginStatement token
    | .closed, _ => none
  finish
    | .closed => some []
    | _ => none

/-- The statements from a state of the parser on. -/
def readFrom (state : ParseState) (text : List Char) : Option (List Statement) :=
  (lexer.run .between text).bind (parser.run state)

/-- The statements of a directed graph. -/
def parse (text : List Char) : Option (List Statement) :=
  (lexer.run .between text).bind fun tokens =>
    match tokens with
    | .word head :: name :: .opening :: body =>
        if head = "digraph".toList && (identifier name).isSome then parser.run .start body
        else none
    | _ => none

/-! ## Names -/

/-- The backslashes a text ends in. -/
def trailingBackslashes (text : List Char) : ℕ := (text.rtakeWhile (· = '\\')).length

/-- The text can stand between quotes as it is: no quote is in it, and the backslashes
it ends in are paired. -/
def Quotable (text : List Char) : Prop :=
  '"' ∉ text ∧ Even (trailingBackslashes text)

instance (text : List Char) : Decidable (Quotable text) := by
  unfold Quotable
  infer_instance

theorem trailingBackslashes_append (text : List Char) (letter : Char) :
    trailingBackslashes (text ++ [letter]) =
      if letter = '\\' then trailingBackslashes text + 1 else 0 := by
  rw [trailingBackslashes, List.rtakeWhile_concat]
  split_ifs with hletter hslash hslash
  · rw [List.length_append]
    rfl
  · simp_all
  · simp_all
  · rfl

/-- A text that ends in an odd number of backslashes ends in one. -/
theorem eq_append_of_odd {text : List Char} (hodd : ¬Even (trailingBackslashes text)) :
    ∃ front, text = front ++ ['\\'] := by
  induction text using List.reverseRecOn with
  | nil => exact absurd (by decide) hodd
  | append_singleton front letter _ =>
      rw [trailingBackslashes_append] at hodd
      split_ifs at hodd with hslash
      · exact ⟨front, by rw [hslash]⟩
      · exact absurd (by decide) hodd

/-- The state of the lexer after a text that stands in quotes. -/
def withinQuotes (held text : List Char) : LexState :=
  if Even (trailingBackslashes text) then .quoted (held ++ text)
  else .escaped (held ++ text.dropLast)

theorem withinQuotes_of_even {text : List Char} (heven : Even (trailingBackslashes text))
    (held : List Char) : withinQuotes held text = .quoted (held ++ text) := if_pos heven

theorem withinQuotes_of_odd {front : List Char}
    (hodd : ¬Even (trailingBackslashes (front ++ ['\\']))) (held : List Char) :
    withinQuotes held (front ++ ['\\']) = .escaped (held ++ front) := by
  rw [withinQuotes, if_neg hodd, List.dropLast_concat]

theorem step_quoted_plain (held : List Char) {letter : Char} (hquote : letter ≠ '"')
    (hslash : letter ≠ '\\') :
    lexer.step (.quoted held) letter = some ([], .quoted (held ++ [letter])) := by
  simp only [lexer]

theorem step_escaped_plain (held : List Char) {letter : Char} (hquote : letter ≠ '"')
    (hline : letter ≠ '\n') :
    lexer.step (.escaped held) letter = some ([], .quoted (held ++ ['\\', letter])) := by
  simp only [lexer]

theorem steps_withinQuotes {text : List Char} (hquote : '"' ∉ text) (hline : '\n' ∉ text)
    (held : List Char) :
    lexer.steps (.quoted held) text = some ([], withinQuotes held text) := by
  induction text using List.reverseRecOn with
  | nil =>
      rw [withinQuotes, if_pos (by decide), List.append_nil]
      rfl
  | append_singleton front letter ih =>
      rw [List.mem_append, List.mem_singleton, not_or] at hquote hline
      have hletterQuote : letter ≠ '"' := fun hequal => hquote.2 hequal.symm
      have hletterLine : letter ≠ '\n' := fun hequal => hline.2 hequal.symm
      have hstep : lexer.step (withinQuotes held front) letter =
          some ([], withinQuotes held (front ++ [letter])) := by
        have hcount := trailingBackslashes_append front letter
        by_cases hslash : letter = '\\'
        · subst hslash
          rw [if_pos rfl] at hcount
          by_cases heven : Even (trailingBackslashes front)
          · have hodd : ¬Even (trailingBackslashes (front ++ ['\\'])) := by
              rw [hcount, Nat.even_add_one]
              exact not_not.2 heven
            rw [withinQuotes_of_even heven, withinQuotes_of_odd hodd]
            rfl
          · obtain ⟨before, rfl⟩ := eq_append_of_odd heven
            rw [withinQuotes_of_odd heven,
              withinQuotes_of_even (by rw [hcount, Nat.even_add_one]; exact heven),
              step_escaped_plain _ hletterQuote hletterLine]
            simp
        · rw [if_neg hslash] at hcount
          have hnext : withinQuotes held (front ++ [letter]) =
              .quoted (held ++ (front ++ [letter])) :=
            withinQuotes_of_even (by rw [hcount]; exact Even.zero) held
          rw [hnext]
          by_cases heven : Even (trailingBackslashes front)
          · rw [withinQuotes_of_even heven, step_quoted_plain _ hletterQuote hslash,
              List.append_assoc]
          · obtain ⟨before, rfl⟩ := eq_append_of_odd heven
            rw [withinQuotes_of_odd heven, step_escaped_plain _ hletterQuote hletterLine]
            simp
      rw [Transducer.steps_append, ih hquote.1 hline.1, Option.bind_some, Transducer.steps, hstep]
      rfl

/-- A quotable text in quotes is one token. -/
theorem run_quotable {text : List Char} (hquotable : Quotable text) (hline : '\n' ∉ text)
    (after : List Char) :
    lexer.run .between ('"' :: (text ++ '"' :: after)) =
      (lexer.run .between after).map (.quoted text :: ·) := by
  have hsteps := steps_withinQuotes hquotable.1 hline []
  rw [withinQuotes, if_pos hquotable.2, List.nil_append] at hsteps
  have hopen : lexer.step .between '"' = some ([], .quoted []) := rfl
  have hclose : lexer.step (.quoted text) '"' = some ([.quoted text], .between) := rfl
  rw [Transducer.run_cons_of_step hopen, Transducer.run_of_steps hsteps,
    Transducer.run_cons_of_step hclose]
  cases lexer.run .between after <;> rfl

/-- In quotes, the first token is a quoted one that goes on from what was read. -/
theorem head_of_run_quoted (text : List Char) :
    (∀ held tokens, lexer.run (.quoted held) text = some tokens →
      ∃ more rest, tokens = .quoted (held ++ more) :: rest) ∧
    ∀ held tokens, lexer.run (.escaped held) text = some tokens →
      ∃ more rest, tokens = .quoted (held ++ more) :: rest := by
  induction text with
  | nil =>
      constructor
      · intro held tokens hrun
        cases hrun
      · intro held tokens hrun
        cases hrun
  | cons letter text ih =>
      have hgo {held add : List Char} {tokens : List Token}
          (hrun : (lexer.run (.quoted (held ++ add)) text).map ([] ++ ·) = some tokens) :
          ∃ more rest, tokens = .quoted (held ++ more) :: rest := by
        obtain ⟨later, hlater, rfl⟩ := Option.map_eq_some_iff.1 hrun
        obtain ⟨more, rest, rfl⟩ := ih.1 _ later hlater
        exact ⟨add ++ more, rest, by rw [List.append_assoc]; rfl⟩
      constructor
      · intro held tokens hrun
        by_cases hquote : letter = '"'
        · subst hquote
          have hstep : lexer.step (.quoted held) '"' = some ([.quoted held], .between) := rfl
          rw [Transducer.run_cons_of_step hstep] at hrun
          obtain ⟨later, -, rfl⟩ := Option.map_eq_some_iff.1 hrun
          exact ⟨[], later, by rw [List.append_nil]; rfl⟩
        by_cases hslash : letter = '\\'
        · subst hslash
          have hstep : lexer.step (.quoted held) '\\' = some ([], .escaped held) := rfl
          rw [Transducer.run_cons_of_step hstep] at hrun
          obtain ⟨later, hlater, rfl⟩ := Option.map_eq_some_iff.1 hrun
          exact ih.2 held later hlater
        · rw [Transducer.run_cons_of_step (step_quoted_plain held hquote hslash)] at hrun
          exact hgo hrun
      · intro held tokens hrun
        by_cases hquote : letter = '"'
        · subst hquote
          have hstep : lexer.step (.escaped held) '"' =
            some ([], .quoted (held ++ ['"'])) := rfl
          rw [Transducer.run_cons_of_step hstep] at hrun
          exact hgo hrun
        by_cases hline : letter = '\n'
        · subst hline
          have hstep : lexer.step (.escaped held) '\n' = some ([], .quoted held) := rfl
          rw [Transducer.run_cons_of_step hstep] at hrun
          obtain ⟨later, hlater, rfl⟩ := Option.map_eq_some_iff.1 hrun
          exact ih.1 held later hlater
        · rw [Transducer.run_cons_of_step (step_escaped_plain held hquote hline)] at hrun
          exact hgo hrun

/-- What is read up to a quote: all of it, or, with the quote escaped, something else. -/
theorem read_at_quote {front tail read : List Char} {rest : List Token}
    (hquote : '"' ∉ front) (hline : '\n' ∉ front)
    (hrun : lexer.run (.quoted []) (front ++ '"' :: tail) = some (.quoted read :: rest)) :
    (Even (trailingBackslashes front) ∧ read = front) ∨
      ∃ before more, front = before ++ ['\\'] ∧ read = before ++ '"' :: more := by
  rw [Transducer.run_of_steps (steps_withinQuotes hquote hline [])] at hrun
  by_cases heven : Even (trailingBackslashes front)
  · have hclose : lexer.step (.quoted front) '"' = some ([.quoted front], .between) := rfl
    rw [withinQuotes_of_even heven, List.nil_append, Transducer.run_cons_of_step hclose,
      Option.map_map] at hrun
    obtain ⟨later, -, hlater⟩ := Option.map_eq_some_iff.1 hrun
    have hhead := (List.cons.inj hlater).1
    exact .inl ⟨heven, (Token.quoted.inj hhead).symm⟩
  · obtain ⟨before, rfl⟩ := eq_append_of_odd heven
    have hescaped : lexer.step (.escaped before) '"' =
      some ([], .quoted (before ++ ['"'])) := rfl
    rw [withinQuotes_of_odd heven, List.nil_append, Transducer.run_cons_of_step hescaped,
      Option.map_map] at hrun
    obtain ⟨later, hlater, hequal⟩ := Option.map_eq_some_iff.1 hrun
    obtain ⟨more, others, rfl⟩ := (head_of_run_quoted tail).1 _ later hlater
    have hhead := Token.quoted.inj (List.cons.inj hequal).1
    exact .inr ⟨before, more, rfl, by rw [← hhead, List.append_assoc]; rfl⟩

/-- A text that is read back from between quotes is quotable. -/
theorem quotable_of_run {text after : List Char} {rest : List Token} (hline : '\n' ∉ text)
    (hrun : lexer.run (.quoted []) (text ++ '"' :: after) = some (.quoted text :: rest)) :
    Quotable text := by
  have hquote : '"' ∉ text := by
    intro hmem
    obtain ⟨front, back, rfl, hfront⟩ := List.eq_append_cons_of_mem hmem
    have hfrontLine : '\n' ∉ front := fun hfrontMem => hline (List.mem_append_left _ hfrontMem)
    rw [List.append_assoc, List.cons_append] at hrun
    rcases read_at_quote hfront hfrontLine hrun with ⟨-, hread⟩ | ⟨before, more, rfl, hread⟩
    · have hlength := congrArg List.length hread
      rw [List.length_append, List.length_cons] at hlength
      omega
    · rw [List.append_assoc] at hread
      have hletter := (List.cons.inj (List.append_cancel_left hread)).1
      exact absurd hletter (by decide)
  rcases read_at_quote hquote hline hrun with ⟨heven, -⟩ | ⟨before, more, rfl, hread⟩
  · exact ⟨hquote, heven⟩
  · have hletter := (List.cons.inj (List.append_cancel_left hread)).1
    exact absurd hletter (by decide)

/-! ## Paths -/

/-- The text of the names of a path, quoted. -/
def namesText (name : List Char) : List (List Char) → List Char
  | [] => '"' :: (name ++ "\";\n".toList)
  | next :: later => '"' :: (name ++ "\" -> ".toList ++ namesText next later)

/-- The text of a path of quoted names. -/
def pathText (path : List Char × List (List Char)) : List Char :=
  "  ".toList ++ namesText path.1 path.2

theorem readFrom_closing : readFrom .start "\x7d\n".toList = some [] := by decide

/-- A token after names goes on with them, ends their path, or makes a name the key of an
assignment. -/
theorem afterNames_cases {done : List (List Char)} {token : Token} {out : List Statement}
    {next : ParseState} (hstep : afterNames done token = some (out, next)) :
    (∃ more, out = .path done :: more) ∨ (out = [] ∧ next = .arrow done) ∨
      ∃ key, out = [] ∧ next = .value key := by
  have hbegin (other : Token) (hother : (beginStatement other).map (fun begun =>
      (Statement.path done :: begun.1, begun.2)) = some (out, next)) :
      ∃ more, out = .path done :: more := by
    obtain ⟨begun, -, hequal⟩ := Option.map_eq_some_iff.1 hother
    exact ⟨begun.1, (congrArg Prod.fst hequal).symm⟩
  cases token with
  | semicolon =>
      obtain ⟨rfl, -⟩ := Prod.mk.inj (Option.some.inj hstep)
      exact .inl ⟨[], rfl⟩
  | arrow =>
      obtain ⟨rfl, rfl⟩ := Prod.mk.inj (Option.some.inj hstep)
      exact .inr (.inl ⟨rfl, rfl⟩)
  | equals =>
      rw [afterNames] at hstep
      split_ifs at hstep
      obtain ⟨rfl, rfl⟩ := Prod.mk.inj (Option.some.inj hstep)
      exact .inr (.inr ⟨_, rfl, rfl⟩)
  | word letters => exact .inl (hbegin (.word letters) hstep)
  | quoted letters => exact .inl (hbegin (.quoted letters) hstep)
  | opening => exact .inl (hbegin .opening hstep)
  | closing => exact .inl (hbegin .closing hstep)

/-- The first statement continues the names, or is an assignment. -/
def GoesOn (done : List (List Char)) (statements : List Statement) : Prop :=
  ∃ first rest, statements = first :: rest ∧
    ((∃ more, first = .path (done ++ more)) ∨ ∃ key value, first = .assign key value)

theorem goesOn_of_append {done add : List (List Char)} {statements : List Statement}
    (hgoes : GoesOn (done ++ add) statements) : GoesOn done statements := by
  obtain ⟨first, rest, rfl, ⟨more, rfl⟩ | hassign⟩ := hgoes
  · exact ⟨_, rest, rfl, .inl ⟨add ++ more, by rw [List.append_assoc]⟩⟩
  · exact ⟨first, rest, rfl, .inr hassign⟩

theorem run_value_goesOn {key : List Char} (done : List (List Char)) {tokens : List Token}
    {statements : List Statement} (hrun : parser.run (.value key) tokens = some statements) :
    GoesOn done statements := by
  cases tokens with
  | nil => cases hrun
  | cons token rest =>
      obtain ⟨taken, htaken, hlater⟩ := Option.bind_eq_some_iff.1 hrun
      obtain ⟨value, -, rfl⟩ := Option.map_eq_some_iff.1 htaken
      obtain ⟨later, -, rfl⟩ := Option.map_eq_some_iff.1 hlater
      exact ⟨_, later, rfl, .inr ⟨key, value, rfl⟩⟩

theorem run_goesOn (tokens : List Token) :
    (∀ done statements, parser.run (.names done) tokens = some statements →
      GoesOn done statements) ∧
    ∀ done statements, parser.run (.arrow done) tokens = some statements →
      GoesOn done statements := by
  induction tokens with
  | nil =>
      constructor
      · intro done statements hrun
        cases hrun
      · intro done statements hrun
        cases hrun
  | cons token rest ih =>
      constructor
      · intro done statements hrun
        obtain ⟨⟨out, next⟩, htaken, hlater⟩ := Option.bind_eq_some_iff.1 hrun
        obtain ⟨later, hnext, rfl⟩ := Option.map_eq_some_iff.1 hlater
        rcases afterNames_cases htaken with ⟨more, rfl⟩ | ⟨rfl, rfl⟩ | ⟨key, rfl, rfl⟩
        · exact ⟨.path done, more ++ later, rfl, .inl ⟨[], by rw [List.append_nil]⟩⟩
        · exact ih.2 done later hnext
        · exact run_value_goesOn done hnext
      · intro done statements hrun
        obtain ⟨taken, htaken, hlater⟩ := Option.bind_eq_some_iff.1 hrun
        obtain ⟨later, hnext, rfl⟩ := Option.map_eq_some_iff.1 hlater
        obtain ⟨name, -, rfl⟩ := Option.map_eq_some_iff.1 htaken
        exact goesOn_of_append (ih.1 _ later hnext)

/-! ## Reading paths back -/

/-- A name is expected, behind those of a path. -/
def Expects (state : ParseState) (done : List (List Char)) : Prop :=
  ∀ name, parser.step state (.quoted name) = some ([], .names (done ++ [name]))

theorem expects_start : Expects .start [] := fun _ => rfl

theorem expects_arrow (done : List (List Char)) : Expects (.arrow done) done := fun _ => rfl

/-- A quoted name where one is expected, when it is quotable. -/
theorem readFrom_quotable {state : ParseState} {done : List (List Char)}
    (hexpects : Expects state done) {name : List Char} (hquotable : Quotable name)
    (hline : '\n' ∉ name) (after : List Char) :
    readFrom state ('"' :: (name ++ '"' :: after)) = readFrom (.names (done ++ [name])) after := by
  rw [readFrom, run_quotable hquotable hline, readFrom]
  cases lexer.run .between after with
  | none => rfl
  | some tokens =>
      rw [Option.map_some, Option.bind_some, Option.bind_some,
        Transducer.run_cons_of_step (hexpects name)]
      cases parser.run (.names (done ++ [name])) tokens <;> rfl

/-- A quoted name where one is expected is read as it is only when it is quotable. -/
theorem quotable_of_readFrom {state : ParseState} {done later : List (List Char)}
    (hexpects : Expects state done) {name after : List Char} (hline : '\n' ∉ name)
    {rest : List Statement} (hread : readFrom state ('"' :: (name ++ '"' :: after)) =
      some (.path (done ++ name :: later) :: rest)) : Quotable name := by
  obtain ⟨tokens, hlex, hparse⟩ := Option.bind_eq_some_iff.1 hread
  have hopen : lexer.step .between '"' = some ([], .quoted []) := rfl
  rw [Transducer.run_cons_of_step hopen] at hlex
  obtain ⟨lexed, hlexed, rfl⟩ := Option.map_eq_some_iff.1 hlex
  obtain ⟨read, others, rfl⟩ := (head_of_run_quoted _).1 [] lexed hlexed
  rw [List.nil_append, Transducer.run_cons_of_step (hexpects _)] at hparse
  obtain ⟨statements, hstatements, hequal⟩ := Option.map_eq_some_iff.1 hparse
  obtain ⟨first, more, rfl, hfirst⟩ := (run_goesOn others).1 _ statements hstatements
  have hhead := (List.cons.inj hequal).1
  have hname : read = name := by
    rcases hfirst with ⟨further, rfl⟩ | ⟨key, value, rfl⟩
    · have hnames := Statement.path.inj hhead
      rw [List.append_assoc] at hnames
      exact (List.cons.inj (List.append_cancel_left hnames)).1
    · cases hhead
  rw [List.nil_append, hname] at hlexed
  exact quotable_of_run hline hlexed

/-- What the lexer puts out over a front is read before the rest. -/
theorem readFrom_append {state next : ParseState} {front : List Char} {tokens : List Token}
    {out : List Statement} (hfront : lexer.steps .between front = some (tokens, .between))
    (hsteps : parser.steps state tokens = some (out, next)) (text : List Char) :
    readFrom state (front ++ text) = (readFrom next text).map (out ++ ·) := by
  rw [readFrom, Transducer.run_of_steps hfront, readFrom]
  cases lexer.run .between text with
  | none => rfl
  | some later =>
      rw [Option.map_some, Option.bind_some, Option.bind_some, Transducer.run_of_steps hsteps]

theorem readFrom_indent (text : List Char) :
    readFrom .start ("  ".toList ++ text) = readFrom .start text := by
  have hfront : lexer.steps .between "  ".toList = some ([], .between) := by decide
  rw [readFrom_append hfront rfl]
  cases readFrom .start text <;> rfl

theorem readFrom_arrow (done : List (List Char)) (text : List Char) :
    readFrom (.names done) (" -> ".toList ++ text) = readFrom (.arrow done) text := by
  have hfront : lexer.steps .between " -> ".toList = some ([.arrow], .between) := by decide
  rw [readFrom_append hfront rfl]
  cases readFrom (.arrow done) text <;> rfl

theorem readFrom_end (done : List (List Char)) (text : List Char) :
    readFrom (.names done) (";\n".toList ++ text) =
      (readFrom .start text).map (.path done :: ·) := by
  have hfront : lexer.steps .between ";\n".toList = some ([.semicolon], .between) := by decide
  have hsteps : parser.steps (.names done) [.semicolon] = some ([.path done], .start) := rfl
  exact readFrom_append hfront hsteps text

/-- Names are read back, with what follows them, exactly when they are quotable. -/
theorem readFrom_namesText {state : ParseState} {done : List (List Char)}
    (hexpects : Expects state done) {name : List Char} {later : List (List Char)}
    (hlines : ∀ text ∈ name :: later, '\n' ∉ text) (after : List Char)
    (rest : List Statement) :
    readFrom state (namesText name later ++ after) =
        some (.path (done ++ name :: later) :: rest) ↔
      (∀ text ∈ name :: later, Quotable text) ∧ readFrom .start after = some rest := by
  induction later generalizing state done name with
  | nil =>
      have hline := hlines name List.mem_cons_self
      have htext : namesText name [] ++ after =
          '"' :: (name ++ '"' :: (";\n".toList ++ after)) := by
        simp [namesText]
      rw [htext]
      constructor
      · intro hread
        have hquotable := quotable_of_readFrom hexpects hline hread
        rw [readFrom_quotable hexpects hquotable hline, readFrom_end] at hread
        obtain ⟨statements, hafter, hequal⟩ := Option.map_eq_some_iff.1 hread
        rw [(List.cons.inj hequal).2] at hafter
        exact ⟨List.forall_mem_singleton.2 hquotable, hafter⟩
      · rintro ⟨hquotable, hafter⟩
        rw [readFrom_quotable hexpects (hquotable name List.mem_cons_self) hline, readFrom_end,
          hafter]
        rfl
  | cons next later ih =>
      have hline := hlines name List.mem_cons_self
      have htext : namesText name (next :: later) ++ after =
          '"' :: (name ++ '"' :: (" -> ".toList ++ (namesText next later ++ after))) := by
        simp [namesText]
      have hnext := ih (expects_arrow (done ++ [name]))
        fun text hmem => hlines text (List.mem_cons_of_mem _ hmem)
      rw [List.append_assoc] at hnext
      rw [htext]
      constructor
      · intro hread
        have hquotable := quotable_of_readFrom hexpects hline hread
        rw [readFrom_quotable hexpects hquotable hline, readFrom_arrow] at hread
        obtain ⟨hothers, hafter⟩ := hnext.1 hread
        exact ⟨List.forall_mem_cons.2 ⟨hquotable, hothers⟩, hafter⟩
      · rintro ⟨hquotable, hafter⟩
        obtain ⟨hname, hothers⟩ := List.forall_mem_cons.1 hquotable
        rw [readFrom_quotable hexpects hname hline, readFrom_arrow]
        exact hnext.2 ⟨hothers, hafter⟩

/-- Paths are read back exactly when their names are quotable. -/
theorem readFrom_paths {paths : List (List Char × List (List Char))}
    (hlines : ∀ path ∈ paths, ∀ text ∈ path.1 :: path.2, '\n' ∉ text) :
    readFrom .start (paths.flatMap pathText ++ "\x7d\n".toList) =
        some (paths.map fun path => .path (path.1 :: path.2)) ↔
      ∀ path ∈ paths, ∀ text ∈ path.1 :: path.2, Quotable text := by
  induction paths with
  | nil => exact ⟨fun _ path hmem => absurd hmem List.not_mem_nil, fun _ => readFrom_closing⟩
  | cons path paths ih =>
      obtain ⟨hpath, hpaths⟩ := List.forall_mem_cons.1 hlines
      rw [List.flatMap_cons, List.append_assoc, pathText, List.append_assoc, readFrom_indent,
        List.map_cons, List.forall_mem_cons, ← ih hpaths]
      exact readFrom_namesText expects_start hpath _ _

/-- The head of a graph is read before its statements. -/
theorem parse_append {front : List Char} {name : Token} {tokens : List Token}
    {out : List Statement}
    (hfront : lexer.steps .between front =
      some (.word "digraph".toList :: name :: .opening :: tokens, .between))
    (hname : (identifier name).isSome) (hsteps : parser.steps .start tokens = some (out, .start))
    (text : List Char) : parse (front ++ text) = (readFrom .start text).map (out ++ ·) := by
  rw [parse, Transducer.run_of_steps hfront, readFrom]
  cases lexer.run .between text with
  | none => rfl
  | some later =>
      rw [Option.map_some, Option.bind_some, Option.bind_some,
        ← Transducer.run_of_steps hsteps]
      simp [hname]

end Dot

end Ktsense.Foundation
