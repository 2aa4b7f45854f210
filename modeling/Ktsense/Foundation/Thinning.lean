import Mathlib

/-!
# Lists thinned item by item

Each item of a list becomes at most one item, and a fixed item stays as it is.  Between
two fixed items, a segment of the list is still in its place exactly when each of its
items was left alone.
-/

namespace Ktsense.Foundation

variable {A : Type*}

/-- An item, with what becomes of it. -/
structure Mark (A : Type*) where
  item : A
  image : List A

namespace Mark

/-- The list that is thinned. -/
def items (marks : List (Mark A)) : List A := marks.map Mark.item

/-- What becomes of it. -/
def result (marks : List (Mark A)) : List A := marks.flatMap Mark.image

/-- The item stays as it is. -/
def Alone (mark : Mark A) : Prop := mark.image = [mark.item]

structure Thins (fixed : A → Bool) (mark : Mark A) : Prop where
  short : mark.image.length ≤ 1
  fixes : mark.image.filter fixed = [mark.item].filter fixed

theorem result_append (front back : List (Mark A)) :
    result (front ++ back) = result front ++ result back := List.flatMap_append

theorem length_result_le {marks : List (Mark A)}
    (hshort : ∀ mark ∈ marks, mark.image.length ≤ 1) : (result marks).length ≤ marks.length := by
  induction marks with
  | nil => exact le_rfl
  | cons mark rest ih =>
      obtain ⟨hmark, hrest⟩ := List.forall_mem_cons.1 hshort
      have hlater := ih hrest
      rw [result, List.flatMap_cons, List.length_append, List.length_cons]
      rw [result] at hlater
      omega

/-- Nothing changes exactly when every item is left alone. -/
theorem result_eq_items_iff {marks : List (Mark A)}
    (hshort : ∀ mark ∈ marks, mark.image.length ≤ 1) :
    result marks = items marks ↔ ∀ mark ∈ marks, mark.Alone := by
  induction marks with
  | nil => simp [result, items]
  | cons mark rest ih =>
      obtain ⟨hmark, hrest⟩ := List.forall_mem_cons.1 hshort
      have hlater := length_result_le hrest
      rw [List.forall_mem_cons, ← ih hrest, result, List.flatMap_cons, items, List.map_cons]
      constructor
      · intro hequal
        have hlength := congrArg List.length hequal
        rw [List.length_append, List.length_cons, List.length_map, ← result] at hlength
        obtain ⟨image, himage⟩ := List.length_eq_one_iff.1 (show mark.image.length = 1 by omega)
        rw [himage] at hequal
        obtain ⟨hitem, hresult⟩ := List.cons.inj hequal
        exact ⟨by rw [Alone, himage, hitem], hresult⟩
      · rintro ⟨halone, hresult⟩
        rw [show mark.image = [mark.item] from halone]
        exact congrArg (mark.item :: ·) hresult

theorem filter_result {fixed : A → Bool} {marks : List (Mark A)}
    (hthins : ∀ mark ∈ marks, Thins fixed mark) :
    (result marks).filter fixed = (items marks).filter fixed := by
  induction marks with
  | nil => rfl
  | cons mark rest ih =>
      obtain ⟨hmark, hrest⟩ := List.forall_mem_cons.1 hthins
      have hitems : items (mark :: rest) = [mark.item] ++ items rest := rfl
      rw [result, List.flatMap_cons, List.filter_append, hmark.fixes, ← result, ih hrest, hitems,
        List.filter_append]

/-- A fixed item is its own image. -/
theorem Thins.alone {fixed : A → Bool} {mark : Mark A} (hthins : Thins fixed mark)
    (hfixed : fixed mark.item = true) : mark.Alone := by
  have hfixes := hthins.fixes
  rw [List.filter_cons_of_pos hfixed, List.filter_nil] at hfixes
  have hmem : mark.item ∈ mark.image := by
    apply List.mem_of_mem_filter (p := fixed)
    rw [hfixes]
    exact List.mem_singleton_self _
  have hlength := List.length_pos_of_mem hmem
  obtain ⟨image, himage⟩ :=
    List.length_eq_one_iff.1 (Nat.le_antisymm hthins.short hlength)
  rw [himage, List.mem_singleton] at hmem
  rw [Alone, himage, hmem]

/-- A list cut at fixed items has one cut with these fixed items in front. -/
theorem eq_append_of_filter {fixed : A → Bool} {front back before after : List A} {last : A}
    (hlast : fixed last = true) (hsplit : front ++ [last] ++ back = before ++ after)
    (hfixed : before.filter fixed = (front ++ [last]).filter fixed) :
    ∃ gap, before = front ++ [last] ++ gap ∧ gap.filter fixed = [] := by
  rcases List.append_eq_append_iff.1 hsplit with ⟨gap, hbefore, -⟩ | ⟨gap, hfront, -⟩
  · rw [hbefore, List.filter_append] at hfixed
    exact ⟨gap, hbefore, List.append_right_eq_self.1 hfixed⟩
  · rw [hfront, List.filter_append] at hfixed
    have hgap := List.append_right_eq_self.1 hfixed.symm
    cases gap using List.reverseRecOn with
    | nil => exact ⟨[], by rw [hfront, List.append_nil, List.append_nil], rfl⟩
    | append_singleton gap final =>
        rw [← List.append_assoc] at hfront
        have hfinal : [last] = [final] := (List.append_inj' hfront rfl).2
        rw [← hfinal, List.filter_append, List.filter_cons_of_pos hlast] at hgap
        simp at hgap

/-- The items of the middle stand in the result, behind what is fixed before them. -/
def InPlace (fixed : A → Bool) (front middle : List (Mark A)) (out : List A) : Prop :=
  ∃ before after, out = before ++ items middle ++ after ∧
    before.filter fixed = (items front).filter fixed

/-- Between fixed items a segment is in its place exactly when its items are left alone. -/
theorem inPlace_iff {fixed : A → Bool} {front middle back : List (Mark A)} {last first : Mark A}
    (hthins : ∀ mark ∈ front ++ [last] ++ middle ++ first :: back, Thins fixed mark)
    (hlast : fixed last.item = true) (hfirst : fixed first.item = true) :
    InPlace fixed (front ++ [last]) middle (result (front ++ [last] ++ middle ++ first :: back)) ↔
      ∀ mark ∈ middle, mark.Alone := by
  simp only [List.forall_mem_append, List.forall_mem_cons] at hthins
  obtain ⟨⟨⟨hfrontThins, hlastThins, -⟩, hmiddleThins⟩, hfirstThins, hbackThins⟩ := hthins
  have hfront : result (front ++ [last]) = result front ++ [last.item] := by
    rw [result_append, result, result, List.flatMap_singleton, hlastThins.alone hlast]
  have hback : result (first :: back) = first.item :: result back := by
    rw [result, List.flatMap_cons, hfirstThins.alone hfirst]
    rfl
  have hfrontFilter : (result front ++ [last.item]).filter fixed =
      (items (front ++ [last])).filter fixed := by
    rw [← hfront]
    exact filter_result (List.forall_mem_append.2
      ⟨hfrontThins, List.forall_mem_singleton.2 hlastThins⟩)
  have hmiddleFilter := filter_result hmiddleThins
  rw [← result_eq_items_iff fun mark hmark => (hmiddleThins mark hmark).short, InPlace,
    result_append, result_append, hfront, hback]
  constructor
  · rintro ⟨before, after, hout, hbefore⟩
    rw [← hfrontFilter] at hbefore
    have hsplit : result front ++ [last.item] ++ (result middle ++ first.item :: result back) =
        before ++ (items middle ++ after) := by
      rw [← List.append_assoc, hout, List.append_assoc]
    obtain ⟨gap, hgap, -⟩ := eq_append_of_filter hlast hsplit hbefore
    have hafter : after.filter fixed = (first.item :: result back).filter fixed := by
      have hfilter := congrArg (List.filter fixed) hsplit
      rw [List.filter_append (result front ++ [last.item]), List.filter_append before,
        hbefore] at hfilter
      have hrest := List.append_cancel_left hfilter
      rw [List.filter_append, List.filter_append, hmiddleFilter] at hrest
      exact (List.append_cancel_left hrest).symm
    -- the same at the other end, with the list reversed
    have hreversed : (result back).reverse ++ [first.item] ++
        (result front ++ [last.item] ++ result middle).reverse =
          after.reverse ++ (before ++ items middle).reverse := by
      have hflipped := congrArg List.reverse hout
      simpa using hflipped
    have hafterReversed : after.reverse.filter fixed =
        ((result back).reverse ++ [first.item]).filter fixed := by
      rw [List.filter_reverse, hafter, ← List.filter_reverse, List.reverse_cons]
    obtain ⟨rest, hrest, -⟩ := eq_append_of_filter hfirst hreversed hafterReversed
    have hlength := congrArg List.length hout
    have hafterLength := congrArg List.length hrest
    have hshort := length_result_le fun mark hmark => (hmiddleThins mark hmark).short
    have hitems : (items middle).length = middle.length := List.length_map ..
    simp only [hgap, List.length_append, List.length_cons, List.length_reverse, List.length_nil]
      at hlength hafterLength
    obtain rfl : gap = [] := List.length_eq_zero_iff.1 (by omega)
    rw [hgap, List.append_nil] at hsplit
    exact (List.append_inj' (List.append_cancel_left hsplit) (by simp; omega)).1
  · intro hmiddle
    exact ⟨result front ++ [last.item], first.item :: result back, by rw [hmiddle], hfrontFilter⟩

end Mark

end Ktsense.Foundation
