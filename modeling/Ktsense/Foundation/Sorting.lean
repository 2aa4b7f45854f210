import Mathlib

/-!
# Sorted lists without repetitions

`sort` followed by `dedup` turns a list into the strictly ascending list of its
members.  Such a list is determined by its members, which is how results built
in different orders are shown to be equal.
-/

namespace Ktsense.Foundation

variable {A : Type*} [LinearOrder A]

/-- Two strictly ascending lists with the same members are equal. -/
theorem eq_of_pairwise_lt_of_mem_iff {left right : List A}
    (hleft : left.Pairwise (· < ·)) (hright : right.Pairwise (· < ·))
    (hmem : ∀ value, value ∈ left ↔ value ∈ right) : left = right := by
  have hperm : left.Perm right :=
    (List.perm_ext_iff_of_nodup (hleft.imp ne_of_lt)
      (hright.imp ne_of_lt)).2 hmem
  refine hperm.eq_of_pairwise ?_ hleft hright
  intro a b _ _ hab hba
  exact absurd (hab.trans hba) (lt_irrefl _)

/-- Drop each element equal to its successor, as `Vec::dedup` does. -/
def dedupAdjacent : List A → List A
  | [] => []
  | [value] => [value]
  | first :: second :: rest =>
      if first = second then dedupAdjacent (second :: rest)
      else first :: dedupAdjacent (second :: rest)

@[simp]
theorem mem_dedupAdjacent (values : List A) (value : A) :
    value ∈ dedupAdjacent values ↔ value ∈ values := by
  fun_induction dedupAdjacent values with
  | case1 => rfl
  | case2 => rfl
  | case3 first rest ih => simp [ih]
  | case4 first second rest hne ih => simp [ih]

theorem pairwise_dedupAdjacent {values : List A}
    (hsorted : values.Pairwise (· ≤ ·)) :
    (dedupAdjacent values).Pairwise (· < ·) := by
  fun_induction dedupAdjacent values with
  | case1 => exact List.Pairwise.nil
  | case2 => exact List.pairwise_singleton _ _
  | case3 first rest ih => exact ih hsorted.tail
  | case4 first second rest hne ih =>
      obtain ⟨hfirst, hrest⟩ := List.pairwise_cons.1 hsorted
      refine List.pairwise_cons.2 ⟨?_, ih hrest⟩
      intro value hvalue
      have hlt : first < second :=
        lt_of_le_of_ne (hfirst second List.mem_cons_self) hne
      rcases List.mem_cons.1 ((mem_dedupAdjacent _ _).1 hvalue) with rfl | hmem
      · exact hlt
      · exact hlt.trans_le ((List.pairwise_cons.1 hrest).1 value hmem)

/-- `sort` then `dedup`. -/
def sortDedup (values : List A) : List A :=
  dedupAdjacent (values.insertionSort (· ≤ ·))

@[simp]
theorem mem_sortDedup (values : List A) (value : A) :
    value ∈ sortDedup values ↔ value ∈ values := by
  rw [sortDedup, mem_dedupAdjacent]
  exact (List.perm_insertionSort _ values).mem_iff

theorem pairwise_sortDedup (values : List A) :
    (sortDedup values).Pairwise (· < ·) :=
  pairwise_dedupAdjacent (List.pairwise_insertionSort _ values)

/-- `sort_by`: a stable sort by a comparison. -/
def sortBy {B : Type*} (compare : B → B → Ordering) (values : List B) : List B :=
  values.insertionSort fun left right => compare left right ≠ .gt

theorem sortBy_perm {B : Type*} (compare : B → B → Ordering) (values : List B) :
    (sortBy compare values).Perm values :=
  List.perm_insertionSort _ values

theorem transCmp_comap {B C : Type*} {compare : B → B → Ordering}
    (hcompare : Std.TransCmp compare) (key : C → B) :
    Std.TransCmp fun left right => compare (key left) (key right) where
  eq_swap := hcompare.eq_swap
  isLE_trans := hcompare.isLE_trans

theorem pairwise_sortBy {B : Type*} {compare : B → B → Ordering}
    (hcompare : Std.TransCmp compare) (values : List B) :
    (sortBy compare values).Pairwise fun left right =>
      (compare left right).isLE = true := by
  have htotal : Std.Total fun left right => compare left right ≠ .gt := by
    refine ⟨fun left right => ?_⟩
    rw [hcompare.eq_swap (a := right) (b := left)]
    cases compare left right <;> simp
  have htrans : IsTrans B fun left right => compare left right ≠ .gt := by
    refine ⟨fun first second third hfirst hsecond => ?_⟩
    have hle := hcompare.isLE_trans (Ordering.isLE_iff_ne_gt.2 hfirst)
      (Ordering.isLE_iff_ne_gt.2 hsecond)
    exact Ordering.isLE_iff_ne_gt.1 hle
  refine (List.pairwise_insertionSort _ values).imp ?_
  intro left right hle
  exact Ordering.isLE_iff_ne_gt.2 hle

/-- A sort by a comparison that tells all values apart does not depend on the
order they come in. -/
theorem sortBy_eq_of_perm {B : Type*} {compare : B → B → Ordering}
    (hcompare : Std.TransCmp compare) {left right : List B}
    (hperm : left.Perm right)
    (hdistinct : ∀ a ∈ left, ∀ b ∈ left, compare a b = .eq → a = b) :
    sortBy compare left = sortBy compare right := by
  have hsorted : (sortBy compare left).Perm (sortBy compare right) :=
    ((sortBy_perm compare left).trans hperm).trans (sortBy_perm compare right).symm
  refine hsorted.eq_of_pairwise ?_ (pairwise_sortBy hcompare left)
    (pairwise_sortBy hcompare right)
  intro a b ha hb hab hba
  have hmemA : a ∈ left := (sortBy_perm compare left).mem_iff.1 ha
  have hmemB : b ∈ left :=
    hperm.mem_iff.2 ((sortBy_perm compare right).mem_iff.1 hb)
  exact hdistinct a hmemA b hmemB (Std.OrientedCmp.isLE_antisymm hab hba)

/-- `max_by_key`: of several greatest values the last. -/
def lastMaxBy {B : Type*} (key : B → A) (values : List B) : Option B :=
  values.foldl (fun best value =>
    match best with
    | some held => if key held ≤ key value then some value else some held
    | none => some value) none

theorem lastMaxBy_append_singleton {B : Type*} (key : B → A) (values : List B) (last : B) :
    lastMaxBy key (values ++ [last]) =
      match lastMaxBy key values with
      | some held => if key held ≤ key last then some last else some held
      | none => some last := by
  rw [lastMaxBy, List.foldl_append]
  rfl

theorem lastMaxBy_eq_none {B : Type*} {key : B → A} {values : List B} :
    lastMaxBy key values = none ↔ values = [] := by
  cases values using List.reverseRecOn with
  | nil => simp [lastMaxBy]
  | append_singleton values last =>
      rw [lastMaxBy_append_singleton]
      cases lastMaxBy key values with
      | none => simp
      | some held =>
          simp only
          split_ifs <;> simp

/-- What is taken is at least as great as all before it and greater than all behind
it. -/
theorem lastMaxBy_eq_some {B : Type*} {key : B → A} {values : List B} {greatest : B}
    (hgreatest : lastMaxBy key values = some greatest) :
    ∃ before after, values = before ++ greatest :: after ∧
      (∀ value ∈ before, key value ≤ key greatest) ∧
        ∀ value ∈ after, key value < key greatest := by
  induction values using List.reverseRecOn generalizing greatest with
  | nil => cases hgreatest
  | append_singleton values last ih =>
      rw [lastMaxBy_append_singleton] at hgreatest
      cases hheld : lastMaxBy key values with
      | none =>
          rw [hheld] at hgreatest
          cases hgreatest
          rw [lastMaxBy_eq_none.mp hheld]
          exact ⟨[], [], rfl, by simp, by simp⟩
      | some held =>
          obtain ⟨before, after, hvalues, hbefore, hafter⟩ := ih hheld
          simp only [hheld] at hgreatest
          split_ifs at hgreatest with hle
          · cases hgreatest
            refine ⟨values, [], rfl, ?_, by simp⟩
            intro value hvalue
            rw [hvalues, List.mem_append, List.mem_cons] at hvalue
            rcases hvalue with hearly | rfl | hlate
            · exact (hbefore value hearly).trans hle
            · exact hle
            · exact (hafter value hlate).le.trans hle
          · cases hgreatest
            refine ⟨before, after ++ [last], by rw [hvalues]; simp, hbefore, ?_⟩
            intro value hvalue
            rcases List.mem_append.mp hvalue with hlate | hlast
            · exact hafter value hlate
            · rw [List.mem_singleton] at hlast
              exact hlast ▸ lt_of_not_ge hle

/-- `min_by_key`: of several least values the first. -/
def firstMinBy {B : Type*} (key : B → A) : List B → Option B
  | [] => none
  | first :: rest =>
      match firstMinBy key rest with
      | some held => if key first ≤ key held then some first else some held
      | none => some first

theorem firstMinBy_eq_none {B : Type*} {key : B → A} {values : List B} :
    firstMinBy key values = none ↔ values = [] := by
  cases values with
  | nil => simp [firstMinBy]
  | cons first rest =>
      rw [firstMinBy]
      cases firstMinBy key rest with
      | none => simp
      | some held =>
          simp only
          split_ifs <;> simp

/-- What is taken is less than all before it and at most as great as all behind it. -/
theorem firstMinBy_eq_some {B : Type*} {key : B → A} {values : List B} {least : B}
    (hleast : firstMinBy key values = some least) :
    ∃ before after, values = before ++ least :: after ∧
      (∀ value ∈ before, key least < key value) ∧
        ∀ value ∈ after, key least ≤ key value := by
  induction values generalizing least with
  | nil => cases hleast
  | cons first rest ih =>
      rw [firstMinBy] at hleast
      cases hheld : firstMinBy key rest with
      | none =>
          rw [hheld] at hleast
          cases hleast
          rw [firstMinBy_eq_none.mp hheld]
          exact ⟨[], [], rfl, by simp, by simp⟩
      | some held =>
          obtain ⟨before, after, hrest, hbefore, hafter⟩ := ih hheld
          simp only [hheld] at hleast
          split_ifs at hleast with hle
          · cases hleast
            refine ⟨[], rest, rfl, by simp, ?_⟩
            intro value hvalue
            rw [hrest, List.mem_append, List.mem_cons] at hvalue
            rcases hvalue with hearly | rfl | hlate
            · exact hle.trans (hbefore value hearly).le
            · exact hle
            · exact hle.trans (hafter value hlate)
          · cases hleast
            refine ⟨first :: before, after, by rw [hrest]; rfl, ?_, hafter⟩
            intro value hvalue
            rcases List.mem_cons.mp hvalue with rfl | hearly
            · exact lt_of_not_ge hle
            · exact hbefore value hearly

section Stability

variable {B : Type*} (le : B → B → Prop) [DecidableRel le] [IsTrans B le]
  (kept : B → Bool)

/-- What is inserted into a sorted list stands where it would stand among the
values that are kept. -/
theorem filter_orderedInsert {value : B} (hvalue : kept value = true)
    {values : List B} (hsorted : values.Pairwise le) :
    (values.orderedInsert le value).filter kept =
      (values.filter kept).orderedInsert le value := by
  induction values with
  | nil => simp [hvalue]
  | cons first rest ih =>
      obtain ⟨hfirst, hrest⟩ := List.pairwise_cons.1 hsorted
      by_cases hle : le value first
      · have hbefore : ∀ other ∈ (first :: rest).filter kept, le value other := by
          intro other hother
          rcases List.mem_cons.1 (List.mem_of_mem_filter hother) with rfl | hmem
          · exact hle
          · exact IsTrans.trans _ _ _ hle (hfirst other hmem)
        rw [List.orderedInsert_cons_of_le _ _ hle, List.filter_cons_of_pos hvalue]
        cases hfiltered : (first :: rest).filter kept with
        | nil => rfl
        | cons other others =>
            rw [hfiltered] at hbefore
            rw [List.orderedInsert_cons_of_le _ _
              (hbefore other List.mem_cons_self)]
      · rw [List.orderedInsert_of_not_le _ _ hle]
        by_cases hkept : kept first = true
        · rw [List.filter_cons_of_pos hkept, List.filter_cons_of_pos hkept,
            List.orderedInsert_of_not_le _ _ hle, ih hrest]
        · rw [List.filter_cons_of_neg hkept, List.filter_cons_of_neg hkept,
            ih hrest]

omit [IsTrans B le] in
theorem filter_orderedInsert_of_not {value : B} (hvalue : kept value = false)
    (values : List B) :
    (values.orderedInsert le value).filter kept = values.filter kept := by
  rw [List.orderedInsert_eq_take_drop, List.filter_append,
    List.filter_cons_of_neg (by simp [hvalue]), ← List.filter_append,
    List.takeWhile_append_dropWhile]

/-- A stable sort keeps its order when values are left out. -/
theorem filter_insertionSort [Std.Total le] (values : List B) :
    (values.insertionSort le).filter kept =
      (values.filter kept).insertionSort le := by
  induction values with
  | nil => rfl
  | cons value rest ih =>
      have hsorted := List.pairwise_insertionSort le rest
      rw [List.insertionSort_cons]
      cases hvalue : kept value with
      | true =>
          rw [filter_orderedInsert le kept hvalue hsorted, ih,
            List.filter_cons_of_pos hvalue, List.insertionSort_cons]
      | false =>
          rw [filter_orderedInsert_of_not le kept hvalue, ih,
            List.filter_cons_of_neg (by simp [hvalue])]

end Stability

/-- Sorting a list without repetitions gives a strictly ascending one. -/
theorem pairwise_lt_insertionSort {values : List A} (hnodup : values.Nodup) :
    (values.insertionSort (· ≤ ·)).Pairwise (· < ·) := by
  have hsorted := List.pairwise_insertionSort (· ≤ ·) values
  have hdistinct : (values.insertionSort (· ≤ ·)).Nodup :=
    (List.perm_insertionSort _ values).nodup_iff.2 hnodup
  exact (hsorted.and hdistinct).imp fun h => lt_of_le_of_ne h.1 h.2

section DedupBy

variable {B : Type*}

/-- `Vec::dedup_by`, behind the element kept last. -/
def dedupAfter (same : B → B → Bool) (last : B) : List B → List B
  | [] => []
  | value :: rest =>
      if same value last then dedupAfter same last rest
      else value :: dedupAfter same value rest

/-- `Vec::dedup_by`: drop each element that is the same as the one kept last. -/
def dedupBy (same : B → B → Bool) : List B → List B
  | [] => []
  | first :: rest => first :: dedupAfter same first rest

theorem dedupAfter_sublist (same : B → B → Bool) (last : B) (values : List B) :
    (dedupAfter same last values).Sublist values := by
  induction values generalizing last with
  | nil => exact List.Sublist.refl _
  | cons value rest ih =>
      rw [dedupAfter]
      split_ifs
      · exact (ih last).cons value
      · exact (ih value).cons_cons value

theorem dedupBy_sublist (same : B → B → Bool) (values : List B) :
    (dedupBy same values).Sublist values := by
  cases values with
  | nil => exact List.Sublist.refl _
  | cons first rest => exact (dedupAfter_sublist same first rest).cons_cons first

variable {K : Type*} [LinearOrder K] (key : B → K) {same : B → B → Bool}

theorem filter_dedupAfter {last : B} {values : List B}
    (hsame : ∀ left ∈ last :: values, ∀ right ∈ last :: values,
      same left right = true ↔ key left = key right)
    (hsorted : (last :: values).Pairwise (key · ≤ key ·)) (wanted : K) :
    (dedupAfter same last values).filter (key · = wanted) =
      if key last = wanted then [] else (values.filter (key · = wanted)).take 1 := by
  induction values generalizing last with
  | nil => simp [dedupAfter]
  | cons value rest ih =>
      obtain ⟨hlast, hrest⟩ := List.pairwise_cons.mp hsorted
      rw [dedupAfter]
      by_cases hequal : key value = key last
      · rw [if_pos ((hsame value (by simp) last (by simp)).mpr hequal), List.filter_cons,
          ih (fun left hleft right hright => hsame left (by grind) right (by grind))
            (hsorted.sublist (by simp))]
        by_cases hwanted : key last = wanted <;> simp [hwanted, hequal]
      · rw [if_neg fun hdropped => hequal ((hsame value (by simp) last (by simp)).mp hdropped),
          List.filter_cons, List.filter_cons,
          ih (fun left hleft right hright => hsame left (by grind) right (by grind)) hrest]
        by_cases hwanted : key value = wanted
        · have hearlier : key last ≠ wanted := fun heq => hequal (hwanted.trans heq.symm)
          simp [hwanted, hearlier]
        · by_cases hearlier : key last = wanted
          · -- the wanted key is behind, and those to come are above it
            have hnone : rest.filter (key · = wanted) = [] := by
              rw [List.filter_eq_nil_iff]
              intro other hother
              have hbetween := (List.pairwise_cons.mp hrest).1 other hother
              have habove := lt_of_le_of_ne (hlast value (by simp)) (Ne.symm hequal)
              simpa [← hearlier] using (habove.trans_le hbetween).ne'
            simp [hwanted, hearlier, hnone]
          · simp [hwanted, hearlier]

/-- Of a list sorted by a key that `same` compares, the first of each key is left. -/
theorem filter_dedupBy {values : List B}
    (hsame : ∀ left ∈ values, ∀ right ∈ values,
      same left right = true ↔ key left = key right)
    (hsorted : values.Pairwise (key · ≤ key ·)) (wanted : K) :
    (dedupBy same values).filter (key · = wanted) =
      (values.filter (key · = wanted)).take 1 := by
  cases values with
  | nil => rfl
  | cons first rest =>
      rw [dedupBy, List.filter_cons, List.filter_cons,
        filter_dedupAfter key hsame hsorted wanted]
      by_cases hwanted : key first = wanted <;> simp [hwanted]

end DedupBy

end Ktsense.Foundation
