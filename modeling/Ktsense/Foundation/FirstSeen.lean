import Mathlib

/-!
# A capped index of first appearances

Items are noted in order, each once, until a limit; from then on an item that is not
in the index is only counted.  What is counted is every appearance of such an item,
so the count is the number of items left out exactly when none of them appears twice.
-/

namespace Ktsense.Foundation

variable {A : Type*} [DecidableEq A]

structure CappedIndex (A : Type*) where
  kept : List A
  omitted : ℕ
  deriving DecidableEq, Repr

namespace CappedIndex

/-- Note one item. -/
def note (limit : ℕ) (index : CappedIndex A) (item : A) : CappedIndex A :=
  if item ∈ index.kept then index
  else if index.kept.length = limit then { index with omitted := index.omitted + 1 }
  else { index with kept := index.kept ++ [item] }

def ofList (limit : ℕ) (items : List A) : CappedIndex A :=
  items.foldl (note limit) ⟨[], 0⟩

theorem ofList_append_singleton (limit : ℕ) (items : List A) (item : A) :
    ofList limit (items ++ [item]) = note limit (ofList limit items) item := by
  rw [ofList, List.foldl_append]
  rfl

end CappedIndex

theorem nodup_eraseDups (items : List A) : items.eraseDups.Nodup := by
  induction hlength : items.length using Nat.strong_induction_on generalizing items with
  | _ length ih =>
      cases items with
      | nil => exact List.nodup_nil
      | cons first rest =>
          have hshorter : (rest.filter fun other => !other == first).length < length := by
            rw [← hlength]
            exact Nat.lt_succ_of_le (List.length_filter_le _ _)
          rw [List.eraseDups_cons, List.nodup_cons]
          refine ⟨?_, ih _ hshorter _ rfl⟩
          rw [List.mem_eraseDups, List.mem_filter]
          simp

theorem eraseDups_append_singleton (items : List A) (item : A) :
    (items ++ [item]).eraseDups =
      if item ∈ items then items.eraseDups else items.eraseDups ++ [item] := by
  rw [List.eraseDups_append]
  split_ifs with hmem
  · simp [List.removeAll, hmem]
  · simp [List.removeAll, hmem, List.eraseDups_cons]

theorem eraseDups_of_nodup {items : List A} (hnodup : items.Nodup) :
    items.eraseDups = items := by
  induction items with
  | nil => rfl
  | cons first rest ih =>
      rw [List.nodup_cons] at hnodup
      have hkept : (rest.filter fun other => !other == first) = rest := by
        rw [List.filter_eq_self]
        intro other hother
        have hne : other ≠ first := ne_of_mem_of_not_mem hother hnodup.1
        simpa using hne
      rw [List.eraseDups_cons, hkept, ih hnodup.2]

namespace CappedIndex

variable (limit : ℕ) (items : List A)

/-- The items of the index: the first ones, in the order of their first appearance. -/
def firsts : List A := items.eraseDups.take limit

/-- The appearances of items that are not in the index. -/
def beyond : ℕ := items.countP (· ∉ firsts limit items)

theorem mem_of_mem_firsts {item : A} (hmem : item ∈ firsts limit items) : item ∈ items :=
  List.mem_eraseDups.1 (List.mem_of_mem_take hmem)

/-- An index that is not full has every item. -/
theorem firsts_of_room (hroom : (firsts limit items).length ≠ limit) :
    items.eraseDups.length < limit ∧ firsts limit items = items.eraseDups := by
  rw [firsts, List.length_take] at hroom
  have hlt : items.eraseDups.length < limit := by omega
  exact ⟨hlt, List.take_of_length_le hlt.le⟩

theorem beyond_of_room (hroom : (firsts limit items).length ≠ limit) :
    beyond limit items = 0 := by
  rw [beyond, (firsts_of_room limit items hroom).2, List.countP_eq_zero]
  intro item hitem
  simpa using hitem

variable {limit items} {item : A}

theorem firsts_append_of_mem (hmem : item ∈ items) :
    firsts limit (items ++ [item]) = firsts limit items := by
  rw [firsts, eraseDups_append_singleton, if_pos hmem, firsts]

/-- A full index takes no more. -/
theorem firsts_append_of_full (hfull : (firsts limit items).length = limit) :
    firsts limit (items ++ [item]) = firsts limit items := by
  have hle : limit ≤ items.eraseDups.length := by
    rw [firsts, List.length_take] at hfull
    omega
  rw [firsts, eraseDups_append_singleton]
  split_ifs
  · rfl
  · rw [List.take_append_of_le_length hle, firsts]

theorem firsts_append_of_new (hroom : (firsts limit items).length ≠ limit)
    (hnew : item ∉ items) : firsts limit (items ++ [item]) = firsts limit items ++ [item] := by
  obtain ⟨hlt, hall⟩ := firsts_of_room limit items hroom
  rw [hall, firsts, eraseDups_append_singleton, if_neg hnew]
  apply List.take_of_length_le
  rw [List.length_append, List.length_singleton]
  exact hlt

theorem beyond_append (hsame : firsts limit (items ++ [item]) = firsts limit items) :
    beyond limit (items ++ [item]) =
      beyond limit items + if item ∈ firsts limit items then 0 else 1 := by
  rw [beyond, hsame, List.countP_append, List.countP_singleton, ← beyond]
  split_ifs <;> simp_all

/-- What the index has, and what it counts as left out. -/
theorem ofList_eq : ofList limit items = ⟨firsts limit items, beyond limit items⟩ := by
  induction items using List.reverseRecOn with
  | nil => simp [ofList, firsts, beyond]
  | append_singleton items item ih =>
      rw [ofList_append_singleton, ih, note]
      dsimp only
      split_ifs with hkept hfull
      · have hsame : firsts limit (items ++ [item]) = firsts limit items :=
          firsts_append_of_mem (mem_of_mem_firsts limit items hkept)
        rw [beyond_append hsame, hsame, if_pos hkept, Nat.add_zero]
      · have hsame : firsts limit (items ++ [item]) = firsts limit items :=
          firsts_append_of_full hfull
        rw [beyond_append hsame, hsame, if_neg hkept]
      · have hnew : item ∉ items := by
          rw [(firsts_of_room limit items hfull).2, List.mem_eraseDups] at hkept
          exact hkept
        have hfirsts := firsts_append_of_new hfull hnew
        have hbeyond : beyond limit (items ++ [item]) = 0 := by
          rw [beyond, hfirsts, List.countP_eq_zero, (firsts_of_room limit items hfull).2]
          intro other hother
          simp only [List.mem_append, List.mem_singleton] at hother
          simpa [or_iff_not_imp_left] using hother
        rw [hbeyond, beyond_of_room limit items hfull, hfirsts]

/-- Distinct items of a list are no more than its index keeps and leaves out. -/
theorem length_le_ofList {limit : ℕ} {items distinct : List A} (hnodup : distinct.Nodup)
    (hsubset : distinct ⊆ items) :
    distinct.length ≤ (ofList limit items).kept.length + (ofList limit items).omitted := by
  have hkept : (distinct.filter (· ∈ firsts limit items)).length ≤
      (firsts limit items).length := by
    apply List.Subperm.length_le
    apply (hnodup.sublist List.filter_sublist).subperm
    intro item hitem
    exact of_decide_eq_true (List.mem_filter.mp hitem).2
  have hbeyond : (distinct.filter (· ∉ firsts limit items)).length ≤ beyond limit items := by
    rw [beyond, List.countP_eq_length_filter]
    apply List.Subperm.length_le
    apply (hnodup.sublist List.filter_sublist).subperm
    intro item hitem
    obtain ⟨hmem, hnew⟩ := List.mem_filter.mp hitem
    exact List.mem_filter.mpr ⟨hsubset hmem, hnew⟩
  have hall := List.length_eq_length_filter_add (l := distinct) (· ∈ firsts limit items)
  simp only [decide_not] at hbeyond
  rw [ofList_eq, hall]
  exact Nat.add_le_add hkept hbeyond

end CappedIndex

/-! ## When the count is the number of items left out -/

theorem sum_map_eq_length_iff {B : Type*} (count : B → ℕ) {items : List B}
    (hpositive : ∀ item ∈ items, 1 ≤ count item) :
    (items.map count).sum = items.length ↔ ∀ item ∈ items, count item = 1 := by
  induction items with
  | nil => simp
  | cons first rest ih =>
      rw [List.forall_mem_cons] at hpositive
      have hrest : rest.length ≤ (rest.map count).sum := by
        have hsum := List.card_nsmul_le_sum (rest.map count) 1 (by simpa using hpositive.2)
        simpa using hsum
      rw [List.map_cons, List.sum_cons, List.length_cons, List.forall_mem_cons, ← ih hpositive.2]
      omega

/-- The appearances of distinct items, item by item. -/
theorem countP_mem_eq_sum {items distinct : List A} (hnodup : distinct.Nodup)
    (hsubset : distinct ⊆ items) :
    items.countP (· ∈ distinct) = (distinct.map fun item => items.count item).sum := by
  have hperm : distinct.Perm (items.dedup.filter (· ∈ distinct)) := by
    rw [List.perm_ext_iff_of_nodup hnodup ((List.nodup_dedup items).filter _)]
    intro item
    rw [List.mem_filter, List.mem_dedup, decide_eq_true_eq]
    exact ⟨fun hmem => ⟨hsubset hmem, hmem⟩, fun hmem => hmem.2⟩
  rw [(hperm.map fun item => items.count item).sum_eq]
  exact (List.sum_map_count_dedup_filter_eq_countP _ items).symm

namespace CappedIndex

variable (limit : ℕ) (items : List A)

theorem beyond_eq_sum : beyond limit items =
    ((items.eraseDups.drop limit).map fun item => items.count item).sum := by
  have hnodup := nodup_eraseDups items
  have hsubset : items.eraseDups.drop limit ⊆ items := by
    intro item hitem
    exact List.mem_eraseDups.1 (List.mem_of_mem_drop hitem)
  rw [← countP_mem_eq_sum (hnodup.sublist (List.drop_sublist _ _)) hsubset, beyond]
  rw [← List.take_append_drop limit items.eraseDups] at hnodup
  have hdisjoint := List.disjoint_of_nodup_append hnodup
  apply List.countP_congr
  intro item hitem
  have hsplit : item ∈ firsts limit items ∨ item ∈ items.eraseDups.drop limit := by
    rw [firsts, ← List.mem_append, List.take_append_drop]
    exact List.mem_eraseDups.2 hitem
  rw [decide_eq_true_eq, decide_eq_true_eq]
  exact ⟨hsplit.resolve_left, fun hlater hfirst => hdisjoint hfirst hlater⟩

/-- The index and its count make the number of distinct items exactly when no item
after the limit appears twice. -/
theorem length_add_omitted_iff :
    (ofList limit items).kept.length + (ofList limit items).omitted = items.eraseDups.length ↔
      ∀ item ∈ items.eraseDups.drop limit, items.count item = 1 := by
  have hpositive : ∀ item ∈ items.eraseDups.drop limit, 1 ≤ items.count item := by
    intro item hitem
    exact List.one_le_count_iff.2 (List.mem_eraseDups.1 (List.mem_of_mem_drop hitem))
  have hlength : items.eraseDups.length =
      (firsts limit items).length + (items.eraseDups.drop limit).length := by
    rw [firsts, ← List.length_append, List.take_append_drop]
  rw [ofList_eq, ← sum_map_eq_length_iff _ hpositive, ← beyond_eq_sum, hlength]
  exact Nat.add_left_cancel_iff

end CappedIndex

end Ktsense.Foundation
