import Ktsense.Foundation.OrderedMap

/-!
# Listings by group

Items are listed group by group: each group sorted by a key, stably, and cut to a limit
with the rest counted.  Within what is shown, consecutive items of one name can be
joined.  Nothing is lost on the way.
-/

namespace Ktsense.Foundation

variable {A G K : Type*}

/-! ## Stable sorts -/

/-- `sort_by_key`. -/
def sortByKey [LinearOrder K] (key : A → K) (items : List A) : List A :=
  items.insertionSort (key · ≤ key ·)

/-- The items in the order of their keys, those of one key as they came. -/
structure StableSort [LinearOrder K] (key : A → K) (items sorted : List A) : Prop where
  perm : sorted.Perm items
  ordered : sorted.Pairwise (key · ≤ key ·)
  stable : ∀ wanted, sorted.filter (key · = wanted) = items.filter (key · = wanted)

theorem stableSort_sortByKey [LinearOrder K] (key : A → K) (items : List A) :
    StableSort key items (sortByKey key items) := by
  have htrans : IsTrans A (key · ≤ key ·) := ⟨fun _ _ _ => le_trans⟩
  have htotal : Std.Total (α := A) (key · ≤ key ·) := ⟨fun _ _ => le_total _ _⟩
  constructor
  · exact List.perm_insertionSort _ items
  · exact List.pairwise_insertionSort _ items
  · intro wanted
    rw [sortByKey, filter_insertionSort]
    apply List.Pairwise.insertionSort_eq
    apply List.pairwise_of_forall_mem_list
    intro left hleft right hright
    have hleftKey : key left = wanted := of_decide_eq_true (List.mem_filter.1 hleft).2
    have hrightKey : key right = wanted := of_decide_eq_true (List.mem_filter.1 hright).2
    rw [hleftKey, hrightKey]

/-! ## Sorts that agree -/

theorem StableSort.mem_iff [LinearOrder K] {key : A → K} {items sorted : List A}
    (hsort : StableSort key items sorted) (item : A) : item ∈ sorted ↔ item ∈ items :=
  hsort.perm.mem_iff

/-- Lists with the same items of each key have the same items. -/
theorem mem_iff_of_filter [DecidableEq K] {key : A → K} {left right : List A}
    (hsame : ∀ wanted, left.filter (key · = wanted) = right.filter (key · = wanted))
    (item : A) : item ∈ left ↔ item ∈ right := by
  have hitem := congrArg (item ∈ ·) (hsame (key item))
  simpa [List.mem_filter] using hitem

/-- Lists in the order of a key are equal where they agree on the items of each key. -/
theorem eq_of_ordered [LinearOrder K] {key : A → K} {left right : List A}
    (hleft : left.Pairwise (key · ≤ key ·)) (hright : right.Pairwise (key · ≤ key ·))
    (hsame : ∀ wanted, left.filter (key · = wanted) = right.filter (key · = wanted)) :
    left = right := by
  have hmem := mem_iff_of_filter hsame
  induction left generalizing right with
  | nil => exact (List.eq_nil_iff_forall_not_mem.mpr fun item hitem =>
      List.not_mem_nil ((hmem item).mpr hitem)).symm
  | cons first rest ih =>
      obtain ⟨hfirst, hrest⟩ := List.pairwise_cons.mp hleft
      cases right with
      | nil => exact absurd ((hmem first).mp List.mem_cons_self) List.not_mem_nil
      | cons head tail =>
          obtain ⟨hhead, htail⟩ := List.pairwise_cons.mp hright
          have hle : key first ≤ key head := by
            rcases List.mem_cons.mp ((hmem head).mpr List.mem_cons_self) with rfl | hlater
            · exact le_rfl
            · exact hfirst head hlater
          have hge : key head ≤ key first := by
            rcases List.mem_cons.mp ((hmem first).mp List.mem_cons_self) with rfl | hlater
            · exact le_rfl
            · exact hhead first hlater
          have hkey : key head = key first := le_antisymm hge hle
          have hheads := hsame (key first)
          simp only [List.filter_cons, hkey, decide_true, if_true] at hheads
          obtain rfl : first = head := (List.cons.inj hheads).1
          have htails : ∀ wanted,
              rest.filter (key · = wanted) = tail.filter (key · = wanted) := by
            intro wanted
            have hwanted := hsame wanted
            rw [List.filter_cons, List.filter_cons] at hwanted
            split_ifs at hwanted with hfirstKey
            · exact (List.cons.inj hwanted).2
            · exact hwanted
          rw [ih hrest htail htails (mem_iff_of_filter htails)]

/-- What is kept of a sorted list is sorted as it would be by itself. -/
theorem filter_sortByKey [LinearOrder K] (key : A → K) (kept : A → Bool) (items : List A) :
    (sortByKey key items).filter kept = sortByKey key (items.filter kept) := by
  have htrans : IsTrans A (key · ≤ key ·) := ⟨fun _ _ _ => le_trans⟩
  have htotal : Std.Total (α := A) (key · ≤ key ·) := ⟨fun _ _ => le_total _ _⟩
  exact filter_insertionSort _ kept items

/-- A stable sort is settled by the order in which the items of each key come. -/
theorem sortByKey_eq_of_filter [LinearOrder K] {key : A → K} {items others : List A}
    (hsame : ∀ wanted, items.filter (key · = wanted) = others.filter (key · = wanted)) :
    sortByKey key items = sortByKey key others := by
  have hitems := stableSort_sortByKey key items
  have hothers := stableSort_sortByKey key others
  exact eq_of_ordered hitems.ordered hothers.ordered fun wanted =>
    (hitems.stable wanted).trans ((hsame wanted).trans (hothers.stable wanted).symm)

/-- A sort does not see the order of items that their keys tell apart. -/
theorem sortByKey_eq_of_perm [LinearOrder K] {key : A → K} {items others : List A}
    (hperm : items.Perm others)
    (hkey : ∀ one ∈ items, ∀ other ∈ items, key one = key other → one = other) :
    sortByKey key items = sortByKey key others := by
  have hitems := stableSort_sortByKey key items
  have hothers := stableSort_sortByKey key others
  have hsorted : (sortByKey key items).Perm (sortByKey key others) :=
    hitems.perm.trans (hperm.trans hothers.perm.symm)
  apply hsorted.eq_of_pairwise _ hitems.ordered hothers.ordered
  intro one other hone hother hle hge
  exact hkey one ((hitems.mem_iff one).mp hone) other
    (hperm.mem_iff.mpr ((hothers.mem_iff other).mp hother)) (le_antisymm hle hge)

/-- What a key puts first heads the list in its order. -/
theorem takeWhile_eq_filter_of_ordered [LinearOrder K] {key : A → K} {items : List A}
    {kept : A → Bool} (hordered : items.Pairwise (key · ≤ key ·))
    (hkept : ∀ item other, kept other = true → key item ≤ key other → kept item = true) :
    items.takeWhile kept = items.filter kept := by
  induction items with
  | nil => rfl
  | cons first rest ih =>
      obtain ⟨hfirst, hrest⟩ := List.pairwise_cons.mp hordered
      by_cases hkeptFirst : kept first = true
      · rw [List.takeWhile_cons_of_pos hkeptFirst, List.filter_cons_of_pos hkeptFirst,
          ih hrest]
      · have hnone : ∀ item ∈ rest, ¬kept item = true := fun item hitem hitemKept =>
          hkeptFirst (hkept first item hitemKept (hfirst item hitem))
        rw [List.takeWhile_cons_of_neg hkeptFirst, List.filter_cons_of_neg hkeptFirst,
          List.filter_eq_nil_iff.mpr hnone]

/-- Keys that order the items alike sort them alike. -/
theorem sortByKey_congr {L : Type*} [LinearOrder K] [LinearOrder L] {key : A → K}
    {other : A → L} {items : List A}
    (hagree : ∀ left ∈ items, ∀ right ∈ items,
      (key left ≤ key right ↔ other left ≤ other right)) :
    sortByKey key items = sortByKey other items := by
  have hkey := stableSort_sortByKey key items
  have hother := stableSort_sortByKey other items
  apply eq_of_ordered _ hother.ordered
  · intro wanted
    rw [hother.stable wanted]
    by_cases hsome : ∃ item ∈ items, other item = wanted
    · obtain ⟨item, hitem, rfl⟩ := hsome
      have hsame : ∀ found ∈ items,
          decide (other found = other item) = decide (key found = key item) := by
        intro found hfound
        rw [decide_eq_decide, le_antisymm_iff, le_antisymm_iff,
          hagree found hfound item hitem, hagree item hitem found hfound]
      calc (sortByKey key items).filter (other · = other item)
          = (sortByKey key items).filter (key · = key item) :=
            List.filter_congr fun found hfound => hsame found ((hkey.mem_iff found).mp hfound)
        _ = items.filter (key · = key item) := hkey.stable (key item)
        _ = items.filter (other · = other item) :=
            List.filter_congr fun found hfound => (hsame found hfound).symm
    · have hnone : ∀ found ∈ items, ¬decide (other found = wanted) = true :=
        fun found hfound hwanted => hsome ⟨found, hfound, of_decide_eq_true hwanted⟩
      rw [List.filter_eq_nil_iff.mpr fun found hfound =>
          hnone found ((hkey.mem_iff found).mp hfound),
        List.filter_eq_nil_iff.mpr hnone]
  · apply List.Pairwise.imp_of_mem _ hkey.ordered
    intro left right hleft hright hle
    exact (hagree left ((hkey.mem_iff left).mp hleft) right
      ((hkey.mem_iff right).mp hright)).mp hle

/-! ## Limits -/

/-- What a limit shows of a list, and how many it leaves out. -/
def withinLimit (limit : Option ℕ) (items : List A) : List A × ℕ :=
  match limit with
  | some limit =>
      if limit < items.length then (items.take limit, items.length - limit) else (items, 0)
  | none => (items, 0)

theorem shown_withinLimit (limit : Option ℕ) (items : List A) :
    (withinLimit limit items).1 = limit.elim items (items.take ·) := by
  cases limit with
  | none => rfl
  | some limit =>
      rw [withinLimit, Option.elim_some]
      split_ifs with hlimit
      · rfl
      · exact (List.take_of_length_le (not_lt.1 hlimit)).symm

theorem length_withinLimit (limit : Option ℕ) (items : List A) :
    (withinLimit limit items).1.length + (withinLimit limit items).2 = items.length := by
  cases limit with
  | none => rfl
  | some limit =>
      rw [withinLimit]
      split_ifs with hlimit
      · rw [List.length_take_of_le hlimit.le, Nat.add_sub_cancel' hlimit.le]
      · rfl

theorem isPrefix_of_withinLimit {limit : Option ℕ} {items shown : List A} {omitted : ℕ}
    (hcut : (shown, omitted) = withinLimit limit items) : shown <+: items := by
  have hshown : shown = limit.elim items (items.take ·) :=
    (congrArg Prod.fst hcut).trans (shown_withinLimit limit items)
  rw [hshown]
  cases limit with
  | none => exact List.prefix_rfl
  | some limit => exact List.take_prefix limit items

/-- What is left out is behind a full list. -/
theorem limits_of_withinLimit {limit : ℕ} {items shown : List A} {omitted : ℕ}
    (hcut : (shown, omitted) = withinLimit (some limit) items) :
    shown.length ≤ limit ∧ (0 < omitted → shown.length = limit) := by
  rw [withinLimit] at hcut
  split_ifs at hcut with hlimit
  · obtain ⟨rfl, rfl⟩ := Prod.mk.inj hcut
    have hlength := List.length_take_of_le hlimit.le
    exact ⟨hlength.le, fun _ => hlength⟩
  · obtain ⟨rfl, rfl⟩ := Prod.mk.inj hcut
    exact ⟨not_lt.mp hlimit, fun hpositive => absurd hpositive (lt_irrefl 0)⟩

/-! ## Groups -/

/-- The groups in the order of their names, each with what is shown of it and the
number left out. -/
def listing [LinearOrder G] [LinearOrder K] (group : A → G) (key : A → K)
    (limit : Option ℕ) (items : List A) : List (G × List A × ℕ) :=
  (OrderedMap.groupBy group items).entries.map fun (name, held) =>
    (name, withinLimit limit (sortByKey key held))

section Groups

variable [LinearOrder G] [LinearOrder K] (group : A → G) (key : A → K)
  (limit : Option ℕ) (items : List A)

theorem names_listing :
    (listing group key limit items).map Prod.fst = sortDedup (items.map group) := by
  rw [listing, List.map_map, ← OrderedMap.keys_groupBy]
  rfl

/-- A group shows the first of its items, stably sorted. -/
theorem shown_of_mem_listing {name : G} {shown : List A} {omitted : ℕ}
    (hmem : (name, shown, omitted) ∈ listing group key limit items) :
    ∃ sorted, StableSort key (items.filter (group · = name)) sorted ∧
      shown = limit.elim sorted (sorted.take ·) := by
  obtain ⟨⟨other, held⟩, hentry, hequal⟩ := List.mem_map.1 hmem
  obtain ⟨rfl, hcut⟩ := Prod.mk.inj hequal
  have hheld := ((OrderedMap.get?_groupBy group items other held).1
    ((OrderedMap.mem_entries_iff _ _ _).1 hentry)).2
  have hshown := shown_withinLimit limit (sortByKey key held)
  rw [hcut] at hshown
  rw [← hheld]
  exact ⟨sortByKey key held, stableSort_sortByKey key held, hshown⟩

/-- Nothing is lost: an item is shown or counted. -/
theorem sum_listing {size : G × List A × ℕ → ℕ}
    (hlisted : ∀ entry, size entry = entry.2.1.length + entry.2.2) :
    ((listing group key limit items).map size).sum = items.length := by
  have hsize (entry : G × List A) :
      (withinLimit limit (sortByKey key entry.2)).1.length +
        (withinLimit limit (sortByKey key entry.2)).2 = entry.2.length := by
    rw [length_withinLimit, sortByKey, List.length_insertionSort]
  have htotal := OrderedMap.total_groupBy_countP group items fun _ _ => true
  simp only [List.countP_true, OrderedMap.total] at htotal
  rw [listing, List.map_map, ← htotal]
  apply congrArg List.sum
  apply List.map_congr_left
  intro entry _
  exact (hlisted _).trans (hsize entry)

/-- A listing of some groups. -/
theorem listing_filter (kept : G → Bool) :
    listing group key limit (items.filter fun item => kept (group item)) =
      (listing group key limit items).filter fun entry => kept entry.1 := by
  rw [listing, OrderedMap.entries_groupBy_filter, listing, List.filter_map]
  rfl

/-- What is shown of a group, and how many items are left out. -/
theorem entry_of_mem_listing {name : G} {shown : List A} {omitted : ℕ}
    (hmem : (name, shown, omitted) ∈ listing group key limit items) :
    (shown, omitted) =
      withinLimit limit (sortByKey key (items.filter (group · = name))) := by
  obtain ⟨⟨other, held⟩, hentry, hequal⟩ := List.mem_map.1 hmem
  obtain ⟨rfl, hcut⟩ := Prod.mk.inj hequal
  have hheld := ((OrderedMap.get?_groupBy group items other held).1
    ((OrderedMap.mem_entries_iff _ _ _).1 hentry)).2
  rw [← hheld]
  exact hcut.symm

/-- Items of one name are one group. -/
theorem flatMap_listing_of_constant {items : List A} {name : G}
    (hnamed : ∀ item ∈ items, group item = name) :
    (listing group key limit items).flatMap (·.2.1) =
      (withinLimit limit (sortByKey key items)).1 := by
  have hkept : items.filter (group · = name) = items :=
    List.filter_eq_self.mpr fun item hitem => decide_eq_true (hnamed item hitem)
  cases hempty : items with
  | nil =>
      rw [shown_withinLimit]
      cases limit with
      | none => rfl
      | some limit => exact List.take_nil.symm
  | cons first rest =>
      rw [← hempty]
      have hkeys : (listing group key limit items).map Prod.fst = [name] := by
        rw [names_listing]
        apply eq_of_pairwise_lt_of_mem_iff (pairwise_sortDedup _) (List.pairwise_singleton _ _)
        intro other
        rw [mem_sortDedup, List.mem_singleton, List.mem_map]
        constructor
        · rintro ⟨item, hitem, rfl⟩
          exact hnamed item hitem
        · rintro rfl
          have hfirst : first ∈ items := hempty ▸ List.mem_cons_self
          exact ⟨first, hfirst, hnamed first hfirst⟩
      obtain ⟨⟨other, shown, omitted⟩, hsingle, hother⟩ := List.map_eq_singleton_iff.mp hkeys
      have hentry := entry_of_mem_listing group key limit items
        (hsingle ▸ List.mem_singleton_self (other, shown, omitted))
      obtain rfl : other = name := hother
      rw [hkept] at hentry
      rw [hsingle, List.flatMap_singleton, ← hentry]

end Groups

/-! ## Runs -/

variable [DecidableEq G]

/-- Put an item to the last run when it has its name, else into a new one. -/
def pushRun (name : A → G) (runs : List (G × List A)) (item : A) : List (G × List A) :=
  match runs.getLast? with
  | some (last, held) =>
      if last = name item then runs.dropLast ++ [(last, held ++ [item])]
      else runs ++ [(name item, [item])]
  | none => runs ++ [(name item, [item])]

/-- The runs of consecutive items of one name. -/
def runsOf (name : A → G) (items : List A) : List (G × List A) :=
  items.foldl (pushRun name) []

/-- The items of a list of runs, each with the name of its run. -/
def namedItems (runs : List (G × List A)) : List (G × A) :=
  runs.flatMap fun run => run.2.map (run.1, ·)

omit [DecidableEq G] in
theorem namedItems_append (front back : List (G × List A)) :
    namedItems (front ++ back) = namedItems front ++ namedItems back :=
  List.flatMap_append

omit [DecidableEq G] in
theorem namedItems_singleton (name : G) (held : List A) :
    namedItems [(name, held)] = held.map (name, ·) := List.append_nil _

theorem namedItems_pushRun (name : A → G) (runs : List (G × List A)) (item : A) :
    namedItems (pushRun name runs item) = namedItems runs ++ [(name item, item)] := by
  induction runs using List.reverseRecOn with
  | nil => rfl
  | append_singleton runs run _ =>
      obtain ⟨last, held⟩ := run
      rw [pushRun, List.getLast?_concat]
      dsimp only
      split_ifs with hsame
      · rw [List.dropLast_concat, namedItems_append, namedItems_append, namedItems_singleton,
          namedItems_singleton, List.map_append, hsame, List.append_assoc]
        rfl
      · rw [namedItems_append]
        rfl

/-- The runs hold the items in order, each under its own name. -/
theorem namedItems_runsOf (name : A → G) (items : List A) :
    namedItems (runsOf name items) = items.map fun item => (name item, item) := by
  induction items using List.reverseRecOn with
  | nil => rfl
  | append_singleton items item ih =>
      rw [runsOf, List.foldl_concat, namedItems_pushRun, ← runsOf, ih, List.map_append]
      rfl

theorem isChain_pushRun (name : A → G) {runs : List (G × List A)} (item : A)
    (hchain : runs.IsChain fun left right => left.1 ≠ right.1) :
    (pushRun name runs item).IsChain fun left right => left.1 ≠ right.1 := by
  induction runs using List.reverseRecOn with
  | nil => exact List.isChain_singleton _
  | append_singleton runs run _ =>
      obtain ⟨last, held⟩ := run
      rw [pushRun, List.getLast?_concat]
      dsimp only
      split_ifs with hsame
      · rw [List.dropLast_concat]
        rw [List.isChain_append] at hchain ⊢
        refine ⟨hchain.1, List.isChain_singleton _, ?_⟩
        intro before hbefore next hnext
        obtain rfl := Option.some.inj hnext
        exact hchain.2.2 before hbefore (last, held) rfl
      · rw [List.isChain_append]
        refine ⟨hchain, List.isChain_singleton _, ?_⟩
        intro before hbefore next hnext
        rw [List.getLast?_concat] at hbefore
        obtain rfl := Option.some.inj hbefore
        obtain rfl := Option.some.inj hnext
        exact hsame

/-- Neighbouring runs have different names. -/
theorem isChain_runsOf (name : A → G) (items : List A) :
    (runsOf name items).IsChain fun left right => left.1 ≠ right.1 := by
  induction items using List.reverseRecOn with
  | nil => exact List.isChain_nil
  | append_singleton items item ih =>
      rw [runsOf, List.foldl_concat]
      exact isChain_pushRun name item ih

/-! ## Files in any order -/

section Files

variable {P N : Type*} [DecidableEq N] {name : P → N} {own : P → List A} {nameOf : A → N}

/-- What is listed under a name comes from the files of that name. -/
theorem filter_flatMap_of_name (hown : ∀ file, ∀ item ∈ own file, nameOf item = name file)
    (files : List P) (wanted : N) :
    (files.flatMap own).filter (nameOf · = wanted) =
      (files.filter (name · = wanted)).flatMap own := by
  induction files with
  | nil => rfl
  | cons file rest ih =>
      rw [List.flatMap_cons, List.filter_append, ih, List.filter_cons]
      split_ifs with hfile
      · rw [List.flatMap_cons, List.filter_eq_self.mpr]
        intro item hitem
        exact decide_eq_true ((hown file item hitem).trans (of_decide_eq_true hfile))
      · rw [List.filter_eq_nil_iff.mpr, List.nil_append]
        intro item hitem hwanted
        exact hfile (decide_eq_true ((hown file item hitem).symm.trans
          (of_decide_eq_true hwanted)))

/-- Where names are distinct, files in another order list the same under each name. -/
theorem filter_flatMap_of_perm {files others : List P} (hperm : others.Perm files)
    (hnames : (files.map name).Nodup)
    (hown : ∀ file, ∀ item ∈ own file, nameOf item = name file) (wanted : N) :
    (others.flatMap own).filter (nameOf · = wanted) =
      (files.flatMap own).filter (nameOf · = wanted) := by
  rw [filter_flatMap_of_name hown, filter_flatMap_of_name hown]
  congr 1
  have hfiltered := hperm.filter (name · = wanted)
  cases hfiles : files.filter (name · = wanted) with
  | nil => exact List.perm_nil.mp (hfiles ▸ hfiltered)
  | cons first rest =>
      have hdistinct : ((first :: rest).map name).Nodup :=
        hfiles ▸ hnames.sublist (List.filter_sublist.map name)
      have hname : ∀ file ∈ first :: rest, name file = wanted := by
        rw [← hfiles]
        exact fun file hfile => of_decide_eq_true (List.mem_filter.mp hfile).2
      cases rest with
      | nil => exact List.perm_singleton.mp (hfiles ▸ hfiltered)
      | cons second rest =>
          have hsame : name first = name second :=
            (hname first List.mem_cons_self).trans
              (hname second (List.mem_cons_of_mem _ List.mem_cons_self)).symm
          simp [hsame] at hdistinct

end Files

end Ktsense.Foundation
