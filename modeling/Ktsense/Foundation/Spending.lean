import Mathlib

/-!
# Spending on a prefix

Items are taken in order as long as the running total of their costs is
admitted, and the first item that is not ends the spending.  What is taken is
the longest prefix all of whose totals are admitted, so admitting more totals
never loses an item.  When the items stand in order of priority, a priority
that lost an item leaves nothing for the later ones.
-/

namespace Ktsense.Foundation

variable {A B : Type*}

/-- Take items while the running total is admitted; what was taken, and the
total. -/
def spend (admits : ℕ → Bool) (cost : A → ℕ) : ℕ → List A → List A × ℕ
  | spent, [] => ([], spent)
  | spent, item :: rest =>
      if admits (spent + cost item) then
        (item :: (spend admits cost (spent + cost item) rest).1,
          (spend admits cost (spent + cost item) rest).2)
      else ([], spent)

variable (admits : ℕ → Bool) (cost : A → ℕ)

theorem spend_isPrefix (spent : ℕ) (items : List A) :
    (spend admits cost spent items).1 <+: items := by
  induction items generalizing spent with
  | nil => exact List.prefix_rfl
  | cons item rest ih =>
      rw [spend]
      split_ifs
      · exact (List.prefix_cons_inj item).2 (ih _)
      · exact List.nil_prefix

theorem spend_total (spent : ℕ) (items : List A) :
    (spend admits cost spent items).2 =
      spent + ((spend admits cost spent items).1.map cost).sum := by
  induction items generalizing spent with
  | nil => rfl
  | cons item rest ih =>
      rw [spend]
      split_ifs
      · rw [ih, List.map_cons, List.sum_cons, Nat.add_assoc]
      · rfl

/-- Every total reached is admitted, if the first one is. -/
theorem admits_spend {spent : ℕ} (hspent : admits spent = true)
    (items : List A) : admits (spend admits cost spent items).2 = true := by
  induction items generalizing spent with
  | nil => exact hspent
  | cons item rest ih =>
      rw [spend]
      split_ifs with hadmits
      · exact ih hadmits
      · exact hspent

/-- Admitting more totals keeps every item. -/
theorem spend_isPrefix_of_le {more : ℕ → Bool}
    (hmore : ∀ total, admits total = true → more total = true) (spent : ℕ)
    (items : List A) :
    (spend admits cost spent items).1 <+: (spend more cost spent items).1 := by
  induction items generalizing spent with
  | nil => exact List.prefix_rfl
  | cons item rest ih =>
      rw [spend, spend]
      by_cases hadmits : admits (spent + cost item) = true
      · rw [if_pos hadmits, if_pos (hmore _ hadmits)]
        exact (List.prefix_cons_inj item).2 (ih _)
      · rw [if_neg hadmits]
        exact List.nil_prefix

/-- The item the spending stopped at is not admitted. -/
theorem not_admits_next {spent : ℕ} {items : List A} {next : A}
    (hnext : items[(spend admits cost spent items).1.length]? = some next) :
    admits ((spend admits cost spent items).2 + cost next) = false := by
  induction items generalizing spent with
  | nil => cases hnext
  | cons item rest ih =>
      rw [spend] at hnext ⊢
      split_ifs at hnext ⊢ with hadmits
      · exact ih hnext
      · obtain rfl := Option.some.inj hnext
        simpa using hadmits

/-- The longest prefix whose total is admitted. -/
def longestAdmitted (items : List A) : List A :=
  items.take (Nat.findGreatest
    (fun count => admits ((items.take count).map cost).sum = true) items.length)

/-- When every total below an admitted one is admitted, what is spent is the
longest prefix whose total is admitted. -/
theorem spend_eq_longestAdmitted
    (hclosed : ∀ total smaller, smaller ≤ total → admits total = true →
      admits smaller = true)
    (hzero : admits 0 = true) (items : List A) :
    (spend admits cost 0 items).1 = longestAdmitted admits cost items := by
  have hinitial := spend_isPrefix admits cost 0 items
  have htaken : (spend admits cost 0 items).1 =
      items.take (spend admits cost 0 items).1.length :=
    List.prefix_iff_eq_take.1 hinitial
  have htotal := spend_total admits cost 0 items
  rw [Nat.zero_add] at htotal
  rw [longestAdmitted]
  have hcount : Nat.findGreatest
      (fun count => admits ((items.take count).map cost).sum = true)
        items.length = (spend admits cost 0 items).1.length := by
    rw [Nat.findGreatest_eq_iff]
    refine ⟨hinitial.length_le, fun _ => ?_, ?_⟩
    · rw [← htaken, ← htotal]
      exact admits_spend admits cost hzero items
    · intro count hmore hcount hadmits
      have hlt : (spend admits cost 0 items).1.length < items.length :=
        hmore.trans_le hcount
      have hstop := not_admits_next admits cost
        (List.getElem?_eq_getElem hlt)
      have hnext : (spend admits cost 0 items).2 +
          cost items[(spend admits cost 0 items).1.length] ≤
          ((items.take count).map cost).sum := by
        have hsum : ((items.take
            ((spend admits cost 0 items).1.length + 1)).map cost).sum =
            (spend admits cost 0 items).2 +
              cost items[(spend admits cost 0 items).1.length] := by
          rw [List.take_succ_eq_append_getElem hlt, ← htaken, List.map_append,
            List.sum_append, ← htotal]
          simp
        rw [← hsum]
        have hsub : items.take ((spend admits cost 0 items).1.length + 1) <+:
            items.take count :=
          List.take_prefix_take_left (by omega)
        exact (hsub.sublist.map cost).sum_le_sum (by simp)
      rw [hclosed _ _ hnext hadmits] at hstop
      cases hstop
  rw [hcount]
  exact htaken

/-- When every total below an admitted one is admitted, the items at the front are
taken exactly when their total is admitted. -/
theorem isPrefix_spend_iff
    (hclosed : ∀ total smaller, smaller ≤ total → admits total = true →
      admits smaller = true)
    {spent : ℕ} (hspent : admits spent = true) {front items : List A}
    (hfront : front <+: items) :
    front <+: (spend admits cost spent items).1 ↔
      admits (spent + (front.map cost).sum) = true := by
  induction front generalizing spent items with
  | nil => simp [hspent]
  | cons item front ih =>
      obtain ⟨more, rfl⟩ := hfront
      rw [List.cons_append, spend, List.map_cons, List.sum_cons, ← Nat.add_assoc]
      split_ifs with hadmits
      · rw [List.prefix_cons_inj, ih hadmits (List.prefix_append front more)]
      · have hbeyond : admits (spent + cost item + (front.map cost).sum) ≠ true :=
          fun htotal => hadmits (hclosed _ _ (Nat.le_add_right _ _) htotal)
        simp [hbeyond]

/-! ## Priorities -/

/-- When a priority lost an item, no item of a later priority was taken. -/
theorem countP_eq_zero_of_lost {kept offered : List A} (priority : A → ℕ)
    (hinitial : kept <+: offered)
    (hsorted : offered.Pairwise fun left right =>
      priority left ≤ priority right)
    {earlier later : ℕ} (hlater : earlier < later)
    (hlost : kept.countP (priority · = earlier) <
      offered.countP (priority · = earlier)) :
    kept.countP (priority · = later) = 0 := by
  obtain ⟨rest, rfl⟩ := hinitial
  rw [List.countP_append] at hlost
  have hrest : 0 < rest.countP (priority · = earlier) := by omega
  obtain ⟨lost, hlost, hpriority⟩ := List.countP_pos_iff.1 hrest
  rw [List.countP_eq_zero]
  intro item hitem
  have hle : priority item ≤ priority lost :=
    (List.pairwise_append.1 hsorted).2.2 item hitem lost hlost
  simp only [decide_eq_true_eq] at hpriority ⊢
  omega

end Ktsense.Foundation
