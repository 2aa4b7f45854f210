import Mathlib

/-!
# Occurrences of a word

Where a word stands in a text, overlapping occurrences included, and those that a search
finds which goes on behind each.  What such a search passes over begins inside an
occurrence it found, so it misses no occurrence that stands apart from its neighbours.
-/

namespace Ktsense.Foundation

section Words

variable {A : Type*} {word text : List A}

/-- The word stands at an index of the text. -/
def OccursAt (word text : List A) (start : ℕ) : Prop := word <+: text.drop start

theorem OccursAt.of_cons {first : A} {rest : List A} {start : ℕ}
    (hoccurs : OccursAt word rest start) : OccursAt word (first :: rest) (start + 1) := hoccurs

theorem OccursAt.lt_length (hword : word ≠ []) {start : ℕ}
    (hoccurs : OccursAt word text start) : start < text.length := by
  by_contra hbehind
  rw [OccursAt, List.drop_eq_nil_of_le (not_lt.mp hbehind), List.prefix_nil] at hoccurs
  exact hword hoccurs

theorem OccursAt.end_le (hword : word ≠ []) {start : ℕ} (hoccurs : OccursAt word text start) :
    start + word.length ≤ text.length := by
  have hstart := hoccurs.lt_length hword
  have hle := hoccurs.length_le
  rw [List.length_drop] at hle
  omega

theorem OccursAt.getElem?_add {start index : ℕ} (hoccurs : OccursAt word text start)
    (hindex : index < word.length) : text[start + index]? = word[index]? := by
  obtain ⟨rest, hrest⟩ := hoccurs
  rw [← List.getElem?_drop, ← hrest, List.getElem?_append_left hindex]

theorem OccursAt.mem {start : ℕ} {letter : A} (hoccurs : OccursAt word text start)
    (hletter : letter ∈ word) : letter ∈ text :=
  List.mem_of_mem_drop (hoccurs.subset hletter)

theorem OccursAt.getElem_eq {start : ℕ} {first : A} (hoccurs : OccursAt word text start)
    (hfirst : word.head? = some first) (hstart : start < text.length) :
    text[start] = first := by
  obtain ⟨more, rfl⟩ := List.head?_eq_some_iff.mp hfirst
  rw [OccursAt, List.drop_eq_getElem_cons hstart, List.cons_prefix_cons] at hoccurs
  exact hoccurs.1.symm

/-- The letter before an index inside an occurrence is a letter of the word. -/
theorem getLast?_take_of_occursAt {found start : ℕ} (hoccurs : OccursAt word text found)
    (hlow : found < start) (hhigh : start < found + word.length) :
    ∃ letter ∈ word, (text.take start).getLast? = some letter := by
  obtain ⟨rest, hrest⟩ := hoccurs
  have hindex : start - 1 - found < word.length := by omega
  have hletter : text[start - 1]? = some word[start - 1 - found] := by
    have hinside : (text.drop found)[start - 1 - found]? = some word[start - 1 - found] := by
      rw [← hrest, List.getElem?_append_left hindex, List.getElem?_eq_getElem hindex]
    rwa [List.getElem?_drop, Nat.add_sub_cancel' (by omega)] at hinside
  refine ⟨word[start - 1 - found], List.getElem_mem hindex, ?_⟩
  rw [List.getLast?_take, if_neg (by omega), hletter]
  rfl

variable [DecidableEq A]

instance (word text : List A) (start : ℕ) : Decidable (OccursAt word text start) :=
  inferInstanceAs (Decidable (word <+: text.drop start))

/-- The word stands at an index, and no neighbour of it belongs to a word. -/
structure WholeWord (belongs : A → Bool) (word text : List A) (start : ℕ) : Prop where
  occurs : OccursAt word text start
  before : (text.take start).getLast?.any belongs = false
  behind : (text.drop (start + word.length)).head?.any belongs = false

/-- `str::match_indices`, in characters; `skip` counts what is left of the occurrence
found last. -/
def matchIndicesFrom (word : List A) : ℕ → ℕ → List A → List ℕ
  | _, position, [] => if word = [] then [position] else []
  | skip + 1, position, _ :: rest => matchIndicesFrom word skip (position + 1) rest
  | 0, position, first :: rest =>
      if word.isPrefixOf (first :: rest) then
        position :: matchIndicesFrom word (word.length - 1) (position + 1) rest
      else matchIndicesFrom word 0 (position + 1) rest

def matchIndices (word text : List A) : List ℕ := matchIndicesFrom word 0 0 text

/-- What is found stands in the text. -/
theorem occursAt_of_mem_matchIndicesFrom (hword : word ≠ []) {skip position found : ℕ}
    {text : List A} (hfound : found ∈ matchIndicesFrom word skip position text) :
    ∃ start, found = position + start ∧ OccursAt word text start := by
  induction text generalizing skip position with
  | nil =>
      rw [matchIndicesFrom, if_neg hword] at hfound
      cases hfound
  | cons first rest ih =>
      have hlater : ∀ {skip : ℕ}, found ∈ matchIndicesFrom word skip (position + 1) rest →
          ∃ start, found = position + start ∧ OccursAt word (first :: rest) start := by
        intro skip hrest
        obtain ⟨start, hstart, hoccurs⟩ := ih hrest
        exact ⟨start + 1, by omega, hoccurs.of_cons⟩
      cases skip with
      | succ skip => exact hlater hfound
      | zero =>
          rw [matchIndicesFrom] at hfound
          split_ifs at hfound with hhere
          · rcases List.mem_cons.mp hfound with heq | hrest
            · exact ⟨0, heq, List.isPrefixOf_iff_prefix.mp hhere⟩
            · exact hlater hrest
          · exact hlater hfound

theorem le_of_mem_matchIndicesFrom (hword : word ≠ []) {skip position found : ℕ}
    {text : List A} (hfound : found ∈ matchIndicesFrom word skip position text) :
    position ≤ found := by
  obtain ⟨start, hstart, -⟩ := occursAt_of_mem_matchIndicesFrom hword hfound
  omega

theorem pairwise_matchIndicesFrom (hword : word ≠ []) (skip position : ℕ) (text : List A) :
    (matchIndicesFrom word skip position text).Pairwise (· < ·) := by
  induction text generalizing skip position with
  | nil =>
      rw [matchIndicesFrom, if_neg hword]
      exact List.Pairwise.nil
  | cons first rest ih =>
      cases skip with
      | succ skip => exact ih skip (position + 1)
      | zero =>
          rw [matchIndicesFrom]
          split_ifs
          · refine List.pairwise_cons.mpr ⟨fun found hfound => ?_, ih _ _⟩
            exact le_of_mem_matchIndicesFrom hword hfound
          · exact ih _ _

/-- An occurrence is found, or begins inside one that is. -/
theorem mem_matchIndicesFrom_or (hword : word ≠ []) (position : ℕ) {skip start : ℕ}
    {text : List A} (hskip : skip ≤ start) (hoccurs : OccursAt word text start) :
    position + start ∈ matchIndicesFrom word skip position text ∨
      ∃ found ∈ matchIndicesFrom word skip position text,
        found < position + start ∧ position + start < found + word.length := by
  induction text generalizing skip position start with
  | nil =>
      rw [OccursAt, List.drop_nil, List.prefix_nil] at hoccurs
      exact absurd hoccurs hword
  | cons first rest ih =>
      have hlater : ∀ {skip start : ℕ}, skip ≤ start → OccursAt word rest start →
          position + (start + 1) ∈ matchIndicesFrom word skip (position + 1) rest ∨
            ∃ found ∈ matchIndicesFrom word skip (position + 1) rest,
              found < position + (start + 1) ∧
                position + (start + 1) < found + word.length := by
        intro skip start hle hrest
        have hshift : position + (start + 1) = position + 1 + start := by omega
        rw [hshift]
        exact ih (position + 1) hle hrest
      cases skip with
      | succ skip =>
          obtain ⟨later, rfl⟩ := Nat.exists_eq_add_of_le' (Nat.le_trans (Nat.le_add_left 1 _) hskip)
          exact hlater (Nat.le_of_succ_le_succ hskip) hoccurs
      | zero =>
          rw [matchIndicesFrom]
          cases start with
          | zero =>
              have hhere : word.isPrefixOf (first :: rest) = true :=
                List.isPrefixOf_iff_prefix.mpr hoccurs
              rw [if_pos hhere]
              exact .inl List.mem_cons_self
          | succ start =>
              split_ifs with hhere
              · by_cases hinside : word.length - 1 ≤ start
                · rcases hlater hinside hoccurs with hmem | ⟨found, hmem, hbounds⟩
                  · exact .inl (List.mem_cons_of_mem _ hmem)
                  · exact .inr ⟨found, List.mem_cons_of_mem _ hmem, hbounds⟩
                · exact .inr ⟨position, List.mem_cons_self, by omega, by omega⟩
              · exact hlater (Nat.zero_le _) hoccurs

/-- A search finds exactly the occurrences that stand apart, when every letter of the
word belongs to a word. -/
theorem mem_matchIndices_of_wholeWord {belongs : A → Bool} (hword : word ≠ [])
    (hletters : ∀ letter ∈ word, belongs letter = true) {start : ℕ}
    (hwhole : WholeWord belongs word text start) : start ∈ matchIndices word text := by
  have hfound : start ∈ matchIndices word text ∨ ∃ found ∈ matchIndices word text,
      found < start ∧ start < found + word.length := by
    have hsearch := mem_matchIndicesFrom_or hword 0 (Nat.zero_le start) hwhole.occurs
    rwa [Nat.zero_add] at hsearch
  refine hfound.resolve_right ?_
  rintro ⟨found, hmem, hlow, hhigh⟩
  obtain ⟨earlier, hearlier, hoccurs⟩ := occursAt_of_mem_matchIndicesFrom hword hmem
  rw [Nat.zero_add] at hearlier
  subst hearlier
  obtain ⟨letter, hletter, hlast⟩ := getLast?_take_of_occursAt hoccurs hlow hhigh
  have hbefore := hwhole.before
  rw [hlast, Option.any_some, hletters letter hletter] at hbefore
  cases hbefore

end Words

/-! ## Columns in UTF-16 -/

/-- `char::len_utf16`. -/
def utf16Size (letter : Char) : ℕ := if letter.toNat < 0x10000 then 1 else 2

theorem utf16Size_pos (letter : Char) : 0 < utf16Size letter := by
  rw [utf16Size]
  split_ifs <;> decide

/-- The UTF-16 code units of a text. -/
def utf16Length (text : List Char) : ℕ := (text.map utf16Size).sum

@[simp]
theorem utf16Length_nil : utf16Length [] = 0 := rfl

@[simp]
theorem utf16Length_cons (letter : Char) (rest : List Char) :
    utf16Length (letter :: rest) = utf16Size letter + utf16Length rest := rfl

@[simp]
theorem utf16Length_append (left right : List Char) :
    utf16Length (left ++ right) = utf16Length left + utf16Length right := by
  rw [utf16Length, List.map_append, List.sum_append]
  rfl

theorem length_le_utf16Length (text : List Char) : text.length ≤ utf16Length text := by
  induction text with
  | nil => exact le_rfl
  | cons letter rest ih =>
      have hpositive := utf16Size_pos letter
      rw [List.length_cons, utf16Length_cons]
      omega

/-- Characters and code units are as many exactly when no character takes two. -/
theorem utf16Length_eq_length_iff (text : List Char) :
    utf16Length text = text.length ↔ ∀ letter ∈ text, letter.toNat < 0x10000 := by
  induction text with
  | nil => simp
  | cons letter rest ih =>
      have hle := length_le_utf16Length rest
      rw [utf16Length_cons, List.length_cons, List.forall_mem_cons, ← ih, utf16Size]
      split_ifs with hplain
      · simp only [hplain, true_and]
        omega
      · simp only [hplain, false_and, iff_false]
        omega

end Ktsense.Foundation
