import Mathlib

/-!
# Lists seen from their ends, and place by place

Two lists that are equal from a fixed item on end alike: a test that looks back no further
than a fixed item cannot tell them apart.  A property of an item and of what stands around
it holds throughout a list when it holds of every item in its place.
-/

namespace Ktsense.Foundation

variable {A : Type*}

/-- The lists are equal, or they are from a fixed item on. -/
inductive Meets (fixed : A → Prop) : List A → List A → Prop
  | same (items : List A) : Meets fixed items items
  | behind (left right back : List A) {item : A} (hfixed : fixed item) :
      Meets fixed (left ++ item :: back) (right ++ item :: back)

namespace Meets

variable {fixed : A → Prop} {left right : List A}

theorem append (hmeets : Meets fixed left right) (items : List A) :
    Meets fixed (left ++ items) (right ++ items) := by
  cases hmeets with
  | same => exact Meets.same _
  | behind left right back hfixed =>
      rw [List.append_assoc, List.append_assoc, List.cons_append]
      exact Meets.behind left right (back ++ items) hfixed

theorem getLast?_eq (hmeets : Meets fixed left right) : left.getLast? = right.getLast? := by
  cases hmeets with
  | same => rfl
  | behind left right back hfixed =>
      rw [List.getLast?_append_cons, List.getLast?_append_cons]

end Meets

theorem rdropWhile_append_cons {goes : A → Bool} {item : A} (hitem : goes item = false)
    (front back : List A) :
    (front ++ item :: back).rdropWhile goes = front ++ item :: back.rdropWhile goes := by
  induction back using List.reverseRecOn with
  | nil =>
      rw [List.rdropWhile_concat_neg goes front item (by rw [hitem]; exact Bool.false_ne_true)]
      rfl
  | append_singleton back last ih =>
      rw [← List.cons_append, ← List.append_assoc]
      by_cases hlast : goes last = true
      · rw [List.rdropWhile_concat_pos goes _ last hlast, ih,
          List.rdropWhile_concat_pos goes _ last hlast]
      · rw [List.rdropWhile_concat_neg goes _ last hlast,
          List.rdropWhile_concat_neg goes _ last hlast, List.append_assoc]
        rfl

/-- A word without the item ends a list where it ends what is behind the item. -/
theorem suffix_append_cons {word front back : List A} {item : A} (hitem : item ∉ word) :
    word <:+ front ++ item :: back ↔ word <:+ back := by
  constructor
  · intro hsuffix
    rcases List.suffix_or_suffix_of_suffix hsuffix
      (List.suffix_append front (item :: back)) with hword | hback
    · rcases List.suffix_cons_iff.1 hword with rfl | hword
      · exact absurd List.mem_cons_self hitem
      · exact hword
    · exact absurd (hback.mem List.mem_cons_self) hitem
  · exact fun hsuffix =>
      hsuffix.trans ((List.suffix_cons item back).trans (List.suffix_append front _))

namespace Meets

variable {fixed : A → Prop} {left right : List A}

theorem rdropWhile {goes : A → Bool} (hgoes : ∀ item, fixed item → goes item = false)
    (hmeets : Meets fixed left right) :
    Meets fixed (left.rdropWhile goes) (right.rdropWhile goes) := by
  cases hmeets with
  | same => exact Meets.same _
  | behind left right back hfixed =>
      rw [rdropWhile_append_cons (hgoes _ hfixed), rdropWhile_append_cons (hgoes _ hfixed)]
      exact Meets.behind left right _ hfixed

theorem suffix_iff {word : List A} (hword : ∀ item ∈ word, ¬fixed item)
    (hmeets : Meets fixed left right) : word <:+ left ↔ word <:+ right := by
  cases hmeets with
  | same => exact Iff.rfl
  | behind left right back hfixed =>
      have hitem := fun hmem => hword _ hmem hfixed
      rw [suffix_append_cons hitem, suffix_append_cons hitem]

theorem eq_iff {word : List A} (hword : ∀ item ∈ word, ¬fixed item)
    (hmeets : Meets fixed left right) : left = word ↔ right = word := by
  cases hmeets with
  | same => exact Iff.rfl
  | @behind left right back item hfixed =>
      have hne (front : List A) : front ++ item :: back ≠ word := by
        rintro rfl
        exact hword item (List.mem_append_right front List.mem_cons_self) hfixed
      exact iff_of_false (hne left) (hne right)

end Meets

/-! ## Place by place -/

/-- The property holds of each item, with the one before it and those behind it. -/
def Throughout (holds : Option A → A → List A → Prop) (previous : Option A)
    (items : List A) : Prop :=
  ∀ front item back, items = front ++ item :: back →
    holds (front.getLast?.or previous) item back

theorem getLast?_cons_or (first : A) (front : List A) (previous : Option A) :
    (first :: front).getLast?.or previous = front.getLast?.or (some first) := by
  cases front using List.reverseRecOn with
  | nil => rfl
  | append_singleton front last =>
      rw [← List.cons_append, List.getLast?_concat, List.getLast?_concat]
      rfl

variable {holds : Option A → A → List A → Prop}

theorem throughout_nil (previous : Option A) : Throughout holds previous [] := by
  intro front item back hsplit
  simp at hsplit

theorem throughout_cons {previous : Option A} {first : A} {rest : List A} :
    Throughout holds previous (first :: rest) ↔
      holds previous first rest ∧ Throughout holds (some first) rest := by
  constructor
  · intro hall
    refine ⟨hall [] first rest rfl, ?_⟩
    intro front item back hsplit
    rw [← getLast?_cons_or first front previous]
    exact hall (first :: front) item back (by rw [hsplit]; rfl)
  · rintro ⟨hfirst, hrest⟩ front item back hsplit
    cases front with
    | nil =>
        obtain ⟨rfl, rfl⟩ := List.cons.inj hsplit
        exact hfirst
    | cons other front =>
        obtain ⟨rfl, htail⟩ := List.cons.inj hsplit
        rw [getLast?_cons_or]
        exact hrest front item back htail

end Ktsense.Foundation
