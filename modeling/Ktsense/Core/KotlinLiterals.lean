import Mathlib

/-!
# The literals of Kotlin text

Where the contents of string and character literals stand.  Strings nest through templates
to any depth, so the scanner keeps a stack: code within its braces, a string with the index
its contents start at, or a comment.
-/

namespace Ktsense.Core.Kotlin

/-- The contents of a literal, between its quotes. -/
structure Place where
  start : ℕ
  stop : ℕ
  deriving DecidableEq, Repr

inductive Mode where
  | code (braces : ℕ)
  | regular (start : ℕ)
  | raw (start : ℕ)
  | lineComment
  | blockComment (depth : ℕ)
  | quotedName
  deriving DecidableEq, Repr

/-- What a turn of the scanner reads: how much, and which literals end there. -/
structure Turn where
  width : ℕ
  modes : List Mode
  found : List Place
  deriving DecidableEq, Repr

/-! ## The scanner -/

/-- Code, at the top or in a template; the brace that closes a template ends it. -/
def codeTurn (braces : ℕ) (below : List Mode) (index : ℕ) : List Char → Turn
  | '"' :: '"' :: '"' :: _ => ⟨3, .raw (index + 3) :: .code braces :: below, []⟩
  | '"' :: _ => ⟨1, .regular (index + 1) :: .code braces :: below, []⟩
  | '\x27' :: '\\' :: 'u' :: _ :: _ :: _ :: _ :: '\x27' :: _ =>
      ⟨8, .code braces :: below, [⟨index + 1, index + 7⟩]⟩
  | '\x27' :: '\\' :: _ :: '\x27' :: _ => ⟨4, .code braces :: below, [⟨index + 1, index + 3⟩]⟩
  | '\x27' :: letter :: '\x27' :: _ =>
      if ['\\', '\x27', '\n', '\r'].contains letter then ⟨1, .code braces :: below, []⟩
      else ⟨3, .code braces :: below, [⟨index + 1, index + 2⟩]⟩
  | '/' :: '/' :: _ => ⟨2, .lineComment :: .code braces :: below, []⟩
  | '/' :: '*' :: _ => ⟨2, .blockComment 0 :: .code braces :: below, []⟩
  | '\x60' :: _ => ⟨1, .quotedName :: .code braces :: below, []⟩
  | '\x7b' :: _ => ⟨1, .code (braces + 1) :: below, []⟩
  | '\x7d' :: _ =>
      if 0 < braces then ⟨1, .code (braces - 1) :: below, []⟩
      else ⟨1, below, []⟩
  | _ => ⟨1, .code braces :: below, []⟩

def regularTurn (start : ℕ) (below : List Mode) (index : ℕ) : List Char → Turn
  | '\\' :: _ :: _ => ⟨2, .regular start :: below, []⟩
  | '$' :: '\x7b' :: _ => ⟨2, .code 0 :: .regular start :: below, []⟩
  | '"' :: _ => ⟨1, below, [⟨start, index⟩]⟩
  | _ => ⟨1, .regular start :: below, []⟩

/-- A raw string ends at the last three quotes of a run of them. -/
def rawTurn (start : ℕ) (below : List Mode) (index : ℕ) : List Char → Turn
  | '"' :: '"' :: '"' :: '"' :: _ => ⟨1, .raw start :: below, []⟩
  | '"' :: '"' :: '"' :: _ => ⟨3, below, [⟨start, index⟩]⟩
  | '$' :: '\x7b' :: _ => ⟨2, .code 0 :: .raw start :: below, []⟩
  | _ => ⟨1, .raw start :: below, []⟩

def lineCommentTurn (below : List Mode) : List Char → Turn
  | '\n' :: _ => ⟨1, below, []⟩
  | _ => ⟨1, .lineComment :: below, []⟩

/-- Block comments nest. -/
def blockCommentTurn (depth : ℕ) (below : List Mode) : List Char → Turn
  | '/' :: '*' :: _ => ⟨2, .blockComment (depth + 1) :: below, []⟩
  | '*' :: '/' :: _ =>
      if 0 < depth then ⟨2, .blockComment (depth - 1) :: below, []⟩ else ⟨2, below, []⟩
  | _ => ⟨1, .blockComment depth :: below, []⟩

def quotedNameTurn (below : List Mode) : List Char → Turn
  | '\x60' :: _ => ⟨1, below, []⟩
  | '\n' :: _ => ⟨1, below, []⟩
  | _ => ⟨1, .quotedName :: below, []⟩

def turn (modes : List Mode) (index : ℕ) (text : List Char) : Turn :=
  match modes with
  | [] => codeTurn 0 [] index text
  | .code braces :: below => codeTurn braces below index text
  | .regular start :: below => regularTurn start below index text
  | .raw start :: below => rawTurn start below index text
  | .lineComment :: below => lineCommentTurn below text
  | .blockComment depth :: below => blockCommentTurn depth below text
  | .quotedName :: below => quotedNameTurn below text

def scan : ℕ → List Mode → ℕ → List Char → List Place
  | fuel + 1, modes, index, first :: rest =>
      let turn := turn modes index (first :: rest)
      turn.found ++ scan fuel turn.modes (index + turn.width) ((first :: rest).drop turn.width)
  | _, _, _, _ => []

/-- The literals of a text, each where it ends. -/
def literalPlaces (text : List Char) : List Place := scan text.length [] 0 text

example : literalPlaces "f(\x22a$\x7bg('b')\x7d\x22)".toList = [⟨9, 10⟩, ⟨3, 13⟩] := by decide

/-! ## Literals stand between quotes -/

def IsQuote (letter : Char) : Prop := letter = '"' ∨ letter = '\x27'

def OpenedAt (text : List Char) (start : ℕ) : Prop :=
  ∃ before quote, IsQuote quote ∧ text.take start = before ++ [quote]

structure Place.Between (text : List Char) (place : Place) : Prop where
  ordered : place.start ≤ place.stop
  opened : OpenedAt text place.start
  closed : ∃ quote after, IsQuote quote ∧ text.drop place.stop = quote :: after

/-- The string of a mode starts before an index, behind a quote. -/
def Mode.Opened (text : List Char) (index : ℕ) : Mode → Prop
  | .regular start => start ≤ index ∧ OpenedAt text start
  | .raw start => start ≤ index ∧ OpenedAt text start
  | _ => True

theorem Mode.Opened.mono {text : List Char} {index later : ℕ} {mode : Mode}
    (hopened : mode.Opened text index) (hle : index ≤ later) : mode.Opened text later := by
  cases mode with
  | regular start => exact ⟨hopened.1.trans hle, hopened.2⟩
  | raw start => exact ⟨hopened.1.trans hle, hopened.2⟩
  | code braces => trivial
  | lineComment => trivial
  | blockComment depth => trivial
  | quotedName => trivial

structure Turn.Sound (text : List Char) (index : ℕ) (turn : Turn) : Prop where
  fits : index < text.length → index + turn.width ≤ text.length
  modes : ∀ mode ∈ turn.modes, mode.Opened text (index + turn.width)
  found : ∀ place ∈ turn.found, place.Between text

section Turns

variable {text before rest : List Char} {below : List Mode}

theorem openedAt_append (front : List Char) {quote : Char} (after : List Char)
    (hquote : IsQuote quote) :
    OpenedAt (before ++ (front ++ quote :: after)) (before.length + (front.length + 1)) := by
  refine ⟨before ++ front, quote, hquote, ?_⟩
  have hsplit : before ++ (front ++ quote :: after) = (before ++ front ++ [quote]) ++ after := by
    simp
  rw [hsplit]
  exact List.take_left' (by simp)

theorem closed_append (front : List Char) {quote : Char} (after : List Char)
    (hquote : IsQuote quote) :
    ∃ other later, IsQuote other ∧
      (before ++ (front ++ quote :: after)).drop (before.length + front.length) =
        other :: later := by
  refine ⟨quote, after, hquote, ?_⟩
  rw [← List.append_assoc]
  exact List.drop_left' (by simp)

/-- The strings that are open are open further on. -/
theorem opened_later {index : ℕ} (hbelow : ∀ mode ∈ below, mode.Opened text index)
    (width : ℕ) : ∀ mode ∈ below, mode.Opened text (index + width) :=
  fun mode hmode => (hbelow mode hmode).mono (Nat.le_add_right index width)

theorem not_found : ∀ place ∈ ([] : List Place), place.Between text :=
  fun _ hmem => absurd hmem List.not_mem_nil

/-- A character literal lies between its quotes. -/
theorem between_quotes (inner after : List Char) :
    Place.Between (before ++ ('\x27' :: inner ++ '\x27' :: after))
      ⟨before.length + 1, before.length + (inner.length + 1)⟩ where
  ordered := by simp
  opened := openedAt_append [] (inner ++ '\x27' :: after) (.inr rfl)
  closed := closed_append ('\x27' :: inner) after (.inr rfl)

theorem sound_codeTurn (hbelow : ∀ mode ∈ below, mode.Opened (before ++ rest) before.length)
    (braces : ℕ) : (codeTurn braces below before.length rest).Sound (before ++ rest)
      before.length := by
  have hcode (width braces : ℕ) : ∀ mode ∈ .code braces :: below,
      mode.Opened (before ++ rest) (before.length + width) :=
    List.forall_mem_cons.2 ⟨trivial, opened_later hbelow width⟩
  fun_cases codeTurn braces below before.length rest with
  | case1 tail =>
      have hraw : Mode.Opened (before ++ '"' :: '"' :: '"' :: tail) (before.length + 3)
          (.raw (before.length + 3)) :=
        ⟨le_rfl, openedAt_append ['"', '"'] tail (.inl rfl)⟩
      exact ⟨fun _ => by simp, List.forall_mem_cons.2 ⟨hraw, hcode 3 braces⟩, not_found⟩
  | case2 tail =>
      have hregular : Mode.Opened (before ++ '"' :: tail) (before.length + 1)
          (.regular (before.length + 1)) := ⟨le_rfl, openedAt_append [] tail (.inl rfl)⟩
      exact ⟨id, List.forall_mem_cons.2 ⟨hregular, hcode 1 braces⟩, not_found⟩
  | case3 a b c d tail =>
      exact ⟨fun _ => by simp, hcode 8 braces,
        List.forall_mem_singleton.2 (between_quotes ['\\', 'u', a, b, c, d] tail)⟩
  | case4 letter tail =>
      exact ⟨fun _ => by simp, hcode 4 braces,
        List.forall_mem_singleton.2 (between_quotes ['\\', letter] tail)⟩
  | case5 => exact ⟨id, hcode 1 braces, not_found⟩
  | case6 letter tail =>
      exact ⟨fun _ => by simp, hcode 3 braces,
        List.forall_mem_singleton.2 (between_quotes [letter] tail)⟩
  | case7 => exact ⟨fun _ => by simp, List.forall_mem_cons.2 ⟨trivial, hcode 2 braces⟩, not_found⟩
  | case8 => exact ⟨fun _ => by simp, List.forall_mem_cons.2 ⟨trivial, hcode 2 braces⟩, not_found⟩
  | case9 => exact ⟨id, List.forall_mem_cons.2 ⟨trivial, hcode 1 braces⟩, not_found⟩
  | case10 => exact ⟨id, hcode 1 (braces + 1), not_found⟩
  | case11 => exact ⟨id, hcode 1 (braces - 1), not_found⟩
  | case12 => exact ⟨id, opened_later hbelow 1, not_found⟩
  | case13 => exact ⟨id, hcode 1 braces, not_found⟩

theorem sound_regularTurn
    (hbelow : ∀ mode ∈ below, mode.Opened (before ++ rest) before.length) {start : ℕ}
    (hopened : (Mode.regular start).Opened (before ++ rest) before.length) :
    (regularTurn start below before.length rest).Sound (before ++ rest) before.length := by
  have hregular (width : ℕ) : ∀ mode ∈ .regular start :: below,
      mode.Opened (before ++ rest) (before.length + width) :=
    List.forall_mem_cons.2 ⟨hopened.mono (Nat.le_add_right _ _), opened_later hbelow width⟩
  fun_cases regularTurn start below before.length rest with
  | case1 => exact ⟨fun _ => by simp, hregular 2, not_found⟩
  | case2 => exact ⟨fun _ => by simp, List.forall_mem_cons.2 ⟨trivial, hregular 2⟩, not_found⟩
  | case3 tail =>
      exact ⟨id, opened_later hbelow 1, List.forall_mem_singleton.2
        ⟨hopened.1, hopened.2, closed_append [] tail (.inl rfl)⟩⟩
  | case4 => exact ⟨id, hregular 1, not_found⟩

theorem sound_rawTurn
    (hbelow : ∀ mode ∈ below, mode.Opened (before ++ rest) before.length) {start : ℕ}
    (hopened : (Mode.raw start).Opened (before ++ rest) before.length) :
    (rawTurn start below before.length rest).Sound (before ++ rest) before.length := by
  have hraw (width : ℕ) : ∀ mode ∈ .raw start :: below,
      mode.Opened (before ++ rest) (before.length + width) :=
    List.forall_mem_cons.2 ⟨hopened.mono (Nat.le_add_right _ _), opened_later hbelow width⟩
  fun_cases rawTurn start below before.length rest with
  | case1 => exact ⟨id, hraw 1, not_found⟩
  | case2 tail =>
      exact ⟨fun _ => by simp, opened_later hbelow 3, List.forall_mem_singleton.2
        ⟨hopened.1, hopened.2, closed_append [] ('"' :: '"' :: tail) (.inl rfl)⟩⟩
  | case3 => exact ⟨fun _ => by simp, List.forall_mem_cons.2 ⟨trivial, hraw 2⟩, not_found⟩
  | case4 => exact ⟨id, hraw 1, not_found⟩

/-- A turn outside literals finds none, and opens no string. -/
theorem sound_quiet {index width : ℕ} {modes : List Mode}
    (hwidth : index < text.length → index + width ≤ text.length)
    (hmodes : ∀ mode ∈ modes, mode ∈ below ∨ ∀ later, mode.Opened text later)
    (hbelow : ∀ mode ∈ below, mode.Opened text index) :
    Turn.Sound text index ⟨width, modes, []⟩ where
  fits := hwidth
  modes := by
    intro mode hmem
    rcases hmodes mode hmem with hold | hnew
    · exact (hbelow mode hold).mono (Nat.le_add_right _ _)
    · exact hnew _
  found := not_found

theorem sound_turn {modes : List Mode}
    (hmodes : ∀ mode ∈ modes, mode.Opened (before ++ rest) before.length) :
    (turn modes before.length rest).Sound (before ++ rest) before.length := by
  cases modes with
  | nil => exact sound_codeTurn hmodes 0
  | cons mode below =>
      obtain ⟨hmode, hbelow⟩ := List.forall_mem_cons.1 hmodes
      have hsame (other : Mode) (hother : ∀ later, other.Opened (before ++ rest) later) :
          ∀ mode ∈ other :: below, mode ∈ below ∨ ∀ later, mode.Opened (before ++ rest) later :=
        List.forall_mem_cons.2 ⟨.inr hother, fun mode hmem => .inl hmem⟩
      have hpop : ∀ mode ∈ below, mode ∈ below ∨ ∀ later, mode.Opened (before ++ rest) later :=
        fun mode hmem => .inl hmem
      cases mode with
      | code braces => exact sound_codeTurn hbelow braces
      | regular start => exact sound_regularTurn hbelow hmode
      | raw start => exact sound_rawTurn hbelow hmode
      | lineComment =>
          rw [turn, lineCommentTurn.eq_def]
          split
          · exact sound_quiet id hpop hbelow
          · exact sound_quiet id (hsame .lineComment fun _ => trivial) hbelow
      | blockComment depth =>
          rw [turn, blockCommentTurn.eq_def]
          split
          · exact sound_quiet (fun _ => by simp)
              (hsame (.blockComment (depth + 1)) fun _ => trivial) hbelow
          · split_ifs
            · exact sound_quiet (fun _ => by simp)
                (hsame (.blockComment (depth - 1)) fun _ => trivial) hbelow
            · exact sound_quiet (fun _ => by simp) hpop hbelow
          · exact sound_quiet id (hsame (.blockComment depth) fun _ => trivial) hbelow
      | quotedName =>
          rw [turn, quotedNameTurn.eq_def]
          split
          · exact sound_quiet id hpop hbelow
          · exact sound_quiet id hpop hbelow
          · exact sound_quiet id (hsame .quotedName fun _ => trivial) hbelow

end Turns

theorem between_of_mem_scan {fuel : ℕ} {before rest : List Char} {modes : List Mode}
    (hmodes : ∀ mode ∈ modes, mode.Opened (before ++ rest) before.length) {place : Place}
    (hplace : place ∈ scan fuel modes before.length rest) : place.Between (before ++ rest) := by
  induction fuel generalizing before rest modes with
  | zero => exact absurd hplace List.not_mem_nil
  | succ fuel ih =>
      cases rest with
      | nil => exact absurd hplace List.not_mem_nil
      | cons first rest =>
          have hsound := sound_turn hmodes
          have hfits := hsound.fits (by simp)
          rw [List.length_append] at hfits
          have hwidth := Nat.le_of_add_le_add_left hfits
          rw [scan] at hplace
          rcases List.mem_append.1 hplace with hfound | hlater
          · exact hsound.found place hfound
          · have hsplit := List.take_append_drop (turn modes before.length (first :: rest)).width
              (first :: rest)
            have hlength : (before ++ (first :: rest).take
                (turn modes before.length (first :: rest)).width).length =
                  before.length + (turn modes before.length (first :: rest)).width := by
              rw [List.length_append, List.length_take_of_le hwidth]
            have hnext := hsound.modes
            rw [← hlength] at hnext hlater
            have hbetween := ih (by rw [List.append_assoc, hsplit]; exact hnext) hlater
            rwa [List.append_assoc, hsplit] at hbetween

/-- The contents of a literal stand between its quotes. -/
theorem between_of_mem_literalPlaces {text : List Char} {place : Place}
    (hplace : place ∈ literalPlaces text) : place.Between text :=
  @between_of_mem_scan text.length [] text [] (fun _ hmem => absurd hmem List.not_mem_nil) place
    hplace

/-- A text cut at the quotes of one of its literals. -/
theorem Place.Between.split {text : List Char} {place : Place} (hbetween : place.Between text) :
    ∃ before quote inner other after, IsQuote quote ∧ IsQuote other ∧
      text = before ++ [quote] ++ inner ++ other :: after ∧
        place = ⟨before.length + 1, before.length + 1 + inner.length⟩ := by
  obtain ⟨hordered, ⟨before, quote, hquote, hopened⟩, other, after, hother, hclosed⟩ := hbetween
  obtain ⟨start, stop⟩ := place
  dsimp only at hordered hopened hclosed
  have hlength := congrArg List.length hopened
  have hrest := congrArg List.length hclosed
  simp only [List.length_take, List.length_drop, List.length_append, List.length_cons,
    List.length_nil] at hlength hrest
  have hinner : (text.drop start).take (stop - start) ++ text.drop stop = text.drop start := by
    have hdrop : text.drop stop = (text.drop start).drop (stop - start) := by
      rw [List.drop_drop, Nat.add_sub_cancel' hordered]
    rw [hdrop, List.take_append_drop]
  refine ⟨before, quote, (text.drop start).take (stop - start), other, after, hquote, hother,
    ?_, ?_⟩
  · rw [← hopened, ← hclosed, List.append_assoc, hinner, List.take_append_drop]
  · rw [List.length_take, List.length_drop]
    congr 1 <;> omega

end Ktsense.Core.Kotlin
