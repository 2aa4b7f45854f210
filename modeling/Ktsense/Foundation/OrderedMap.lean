import Ktsense.Foundation.Sorting

/-!
# Ordered maps

A map kept as its entries in strictly ascending key order, which is what
iterating a `BTreeMap` shows.  Every update goes through `alter`, so the
lookup, the entry list and the sums over the entries after an update are each
described by one lemma.
-/

namespace Ktsense.Foundation

/-- A finite map, stored as its entries in strictly ascending key order. -/
structure OrderedMap (K V : Type*) [LinearOrder K] where
  entries : List (K × V)
  ordered : entries.Pairwise fun left right => left.1 < right.1

namespace OrderedMap

variable {K V : Type*} [LinearOrder K]

def empty : OrderedMap K V := ⟨[], List.Pairwise.nil⟩

/-- The value of the first entry under `key`. -/
def lookup (key : K) : List (K × V) → Option V
  | [] => none
  | (other, value) :: rest => if key = other then some value else lookup key rest

def get? (map : OrderedMap K V) (key : K) : Option V :=
  lookup key map.entries

/-- Replace the value under `key` by what `change` makes of it, inserting the
key at its place when it is absent. -/
def alterEntries (key : K) (change : Option V → V) :
    List (K × V) → List (K × V)
  | [] => [(key, change none)]
  | (other, value) :: rest =>
      if key < other then (key, change none) :: (other, value) :: rest
      else if key = other then (key, change (some value)) :: rest
      else (other, value) :: alterEntries key change rest

theorem key_mem_alterEntries {key : K} {change : Option V → V}
    {entries : List (K × V)} {entry : K × V}
    (hmem : entry ∈ alterEntries key change entries) :
    entry.1 = key ∨ entry ∈ entries := by
  induction entries with
  | nil => exact Or.inl (by simp_all [alterEntries])
  | cons head rest ih =>
      obtain ⟨other, value⟩ := head
      simp only [alterEntries] at hmem
      split_ifs at hmem with hlt heq
      · rcases List.mem_cons.1 hmem with rfl | hrest
        · exact Or.inl rfl
        · exact Or.inr hrest
      · rcases List.mem_cons.1 hmem with rfl | hrest
        · exact Or.inl rfl
        · exact Or.inr (List.mem_cons_of_mem _ hrest)
      · rcases List.mem_cons.1 hmem with rfl | hrest
        · exact Or.inr List.mem_cons_self
        · exact (ih hrest).imp_right (List.mem_cons_of_mem _)

theorem ordered_alterEntries (key : K) (change : Option V → V)
    {entries : List (K × V)}
    (hordered : entries.Pairwise fun left right => left.1 < right.1) :
    (alterEntries key change entries).Pairwise
      fun left right => left.1 < right.1 := by
  induction entries with
  | nil => simp [alterEntries]
  | cons head rest ih =>
      obtain ⟨other, value⟩ := head
      obtain ⟨hhead, hrest⟩ := List.pairwise_cons.1 hordered
      simp only [alterEntries]
      split_ifs with hlt heq
      · refine List.pairwise_cons.2 ⟨?_, hordered⟩
        intro entry hentry
        rcases List.mem_cons.1 hentry with rfl | hmem
        · exact hlt
        · exact hlt.trans (hhead entry hmem)
      · subst heq
        exact List.pairwise_cons.2 ⟨hhead, hrest⟩
      · refine List.pairwise_cons.2 ⟨?_, ih hrest⟩
        intro entry hentry
        rcases key_mem_alterEntries hentry with hkey | hmem
        · rw [hkey]
          exact lt_of_le_of_ne (not_lt.1 hlt) (Ne.symm heq)
        · exact hhead entry hmem

def alter (map : OrderedMap K V) (key : K) (change : Option V → V) :
    OrderedMap K V :=
  ⟨alterEntries key change map.entries,
    ordered_alterEntries key change map.ordered⟩

def insert (map : OrderedMap K V) (key : K) (value : V) : OrderedMap K V :=
  map.alter key fun _ => value

@[simp]
theorem get?_empty (key : K) : (empty : OrderedMap K V).get? key = none := rfl

theorem lookup_eq_none_of_lt {key : K} {entries : List (K × V)}
    (hlt : ∀ entry ∈ entries, key < entry.1) : lookup key entries = none := by
  induction entries with
  | nil => rfl
  | cons head rest ih =>
      obtain ⟨other, value⟩ := head
      have hhead : key < other := hlt _ List.mem_cons_self
      rw [lookup, if_neg hhead.ne]
      exact ih fun entry hentry => hlt entry (List.mem_cons_of_mem _ hentry)

theorem lookup_alterEntries (key other : K) (change : Option V → V)
    {entries : List (K × V)}
    (hordered : entries.Pairwise fun left right => left.1 < right.1) :
    lookup other (alterEntries key change entries) =
      if other = key then some (change (lookup key entries))
      else lookup other entries := by
  induction entries with
  | nil => simp [alterEntries, lookup]
  | cons head rest ih =>
      obtain ⟨first, value⟩ := head
      obtain ⟨hhead, hrest⟩ := List.pairwise_cons.1 hordered
      by_cases hlt : key < first
      · have habsent : lookup key ((first, value) :: rest) = none := by
          apply lookup_eq_none_of_lt
          intro entry hentry
          rcases List.mem_cons.1 hentry with rfl | hmem
          · exact hlt
          · exact hlt.trans (hhead entry hmem)
        rw [alterEntries, if_pos hlt, habsent, lookup]
      by_cases heq : key = first
      · subst heq
        by_cases hsame : other = key <;> simp [alterEntries, lookup, hsame]
      rw [alterEntries, if_neg hlt, if_neg heq, lookup, ih hrest]
      by_cases hsame : other = key
      · subst hsame
        simp [lookup, heq]
      · simp [lookup, hsame]

@[simp]
theorem get?_alter (map : OrderedMap K V) (key other : K)
    (change : Option V → V) :
    (map.alter key change).get? other =
      if other = key then some (change (map.get? key)) else map.get? other :=
  lookup_alterEntries key other change map.ordered

@[simp]
theorem get?_insert (map : OrderedMap K V) (key other : K) (value : V) :
    (map.insert key value).get? other =
      if other = key then some value else map.get? other :=
  map.get?_alter key other fun _ => value

theorem mem_of_lookup {key : K} {value : V} {entries : List (K × V)}
    (hlookup : lookup key entries = some value) : (key, value) ∈ entries := by
  induction entries with
  | nil => simp [lookup] at hlookup
  | cons head rest ih =>
      obtain ⟨other, stored⟩ := head
      simp only [lookup] at hlookup
      split_ifs at hlookup with heq
      · obtain rfl := Option.some.inj hlookup
        rw [heq]
        exact List.mem_cons_self
      · exact List.mem_cons_of_mem _ (ih hlookup)

theorem lookup_of_mem {key : K} {value : V} {entries : List (K × V)}
    (hordered : entries.Pairwise fun left right => left.1 < right.1)
    (hmem : (key, value) ∈ entries) : lookup key entries = some value := by
  induction entries with
  | nil => simp at hmem
  | cons head rest ih =>
      obtain ⟨other, stored⟩ := head
      obtain ⟨hhead, hrest⟩ := List.pairwise_cons.1 hordered
      rcases List.mem_cons.1 hmem with heq | htail
      · obtain ⟨rfl, rfl⟩ := Prod.mk.inj heq
        simp [lookup]
      · have hne : key ≠ other := (hhead _ htail).ne'
        rw [lookup, if_neg hne]
        exact ih hrest htail

theorem mem_entries_iff (map : OrderedMap K V) (key : K) (value : V) :
    (key, value) ∈ map.entries ↔ map.get? key = some value :=
  ⟨lookup_of_mem map.ordered, mem_of_lookup⟩

theorem nodup_entries (map : OrderedMap K V) : map.entries.Nodup :=
  map.ordered.imp fun {left right} (hlt : left.1 < right.1) heq =>
    hlt.ne (congrArg Prod.fst heq)

/-- An ordered map is determined by its lookups. -/
theorem ext_get? {left right : OrderedMap K V}
    (hget : ∀ key, left.get? key = right.get? key) : left = right := by
  have hperm : left.entries.Perm right.entries := by
    rw [List.perm_ext_iff_of_nodup left.nodup_entries right.nodup_entries]
    rintro ⟨key, value⟩
    rw [mem_entries_iff, mem_entries_iff, hget]
  have hentries : left.entries = right.entries := by
    refine hperm.eq_of_pairwise ?_ left.ordered right.ordered
    intro a b _ _ hab hba
    exact absurd (hab.trans hba) (lt_irrefl _)
  cases left
  cases right
  simpa using hentries

/-- What an update does to a sum over the entries. -/
theorem sum_alterEntries (key : K) (change : Option V → V) (weight : K → V → ℕ)
    {entries : List (K × V)}
    (hordered : entries.Pairwise fun left right => left.1 < right.1) :
    ((alterEntries key change entries).map fun entry =>
          weight entry.1 entry.2).sum +
        (lookup key entries).elim 0 (weight key) =
      (entries.map fun entry => weight entry.1 entry.2).sum +
        weight key (change (lookup key entries)) := by
  induction entries with
  | nil => simp [alterEntries, lookup]
  | cons head rest ih =>
      obtain ⟨other, value⟩ := head
      obtain ⟨hhead, hrest⟩ := List.pairwise_cons.1 hordered
      simp only [alterEntries]
      split_ifs with hlt heq
      · have habsent : lookup key ((other, value) :: rest) = none := by
          apply lookup_eq_none_of_lt
          intro entry hentry
          rcases List.mem_cons.1 hentry with rfl | hmem
          · exact hlt
          · exact hlt.trans (hhead entry hmem)
        simp only [habsent, List.map_cons, List.sum_cons, Option.elim_none]
        omega
      · subst heq
        simp only [lookup, if_true, List.map_cons, List.sum_cons,
          Option.elim_some]
        omega
      · have htail := ih hrest
        simp only [lookup, if_neg heq, List.map_cons, List.sum_cons]
        omega

/-- The map a list of pairs is collected into: a later pair under the same key
replaces an earlier one. -/
def ofList (pairs : List (K × V)) : OrderedMap K V :=
  pairs.foldl (fun map pair => map.insert pair.1 pair.2) empty

theorem ofList_append_singleton (pairs : List (K × V)) (pair : K × V) :
    ofList (pairs ++ [pair]) = (ofList pairs).insert pair.1 pair.2 := by
  simp [ofList]

/-- The last pair under a key is the one that is kept. -/
theorem get?_ofList_eq_getLast? (pairs : List (K × V)) (key : K) :
    (ofList pairs).get? key = (pairs.filter (·.1 = key)).getLast?.map Prod.snd := by
  induction pairs using List.reverseRecOn with
  | nil => simp [ofList]
  | append_singleton pairs pair ih =>
      rw [ofList_append_singleton, get?_insert, List.filter_append]
      by_cases hkey : key = pair.1
      · subst hkey
        simp
      · have hother : ¬pair.1 = key := fun h => hkey h.symm
        rw [if_neg hkey, ih, List.filter_cons_of_neg (by simpa using hother), List.filter_nil,
          List.append_nil]

/-- Nothing is lost of pairs with distinct keys. -/
theorem get?_ofList {pairs : List (K × V)} (hkeys : (pairs.map Prod.fst).Nodup)
    (key : K) (value : V) :
    (ofList pairs).get? key = some value ↔ (key, value) ∈ pairs := by
  induction pairs using List.reverseRecOn with
  | nil => simp [ofList]
  | append_singleton pairs pair ih =>
      rw [List.map_append, List.nodup_append'] at hkeys
      have hfresh : ∀ value, (pair.1, value) ∉ pairs := fun value hmem =>
        hkeys.2.2 (List.mem_map_of_mem (f := Prod.fst) hmem) (by simp)
      rw [ofList_append_singleton, get?_insert, List.mem_append,
        List.mem_singleton]
      by_cases hkey : key = pair.1
      · subst hkey
        simp [hfresh, Prod.ext_iff, eq_comm]
      · rw [if_neg hkey, ih hkeys.1]
        simp [Prod.ext_iff, hkey]

theorem nodup_keys (map : OrderedMap K V) : (map.entries.map Prod.fst).Nodup := by
  rw [List.nodup_iff_pairwise_ne, List.pairwise_map]
  exact map.ordered.imp fun hlt => hlt.ne

/-- The items of a list under each value of `key`, in list order. -/
def groupBy {A : Type*} (key : A → K) (items : List A) :
    OrderedMap K (List A) :=
  items.foldl
    (fun map item => map.alter (key item) fun held => held.getD [] ++ [item])
    empty

theorem groupBy_append_singleton {A : Type*} (key : A → K) (items : List A)
    (item : A) :
    groupBy key (items ++ [item]) =
      (groupBy key items).alter (key item) fun held =>
        held.getD [] ++ [item] := by
  simp [groupBy]

theorem getD_groupBy {A : Type*} (key : A → K) (items : List A) (target : K) :
    ((groupBy key items).get? target).getD [] =
      items.filter fun item => key item = target := by
  induction items using List.reverseRecOn with
  | nil => rfl
  | append_singleton items item ih =>
      rw [groupBy_append_singleton, get?_alter, List.filter_append]
      by_cases hkey : target = key item
      · subst hkey
        simp [ih]
      · have hother : ¬key item = target := fun h => hkey h.symm
        simp [hkey, hother, ih]

/-- A group has the items of its key, and there is none without an item. -/
theorem get?_groupBy {A : Type*} (key : A → K) (items : List A) (target : K)
    (held : List A) :
    (groupBy key items).get? target = some held ↔
      held ≠ [] ∧ held = items.filter fun item => key item = target := by
  induction items using List.reverseRecOn generalizing held with
  | nil => simp +contextual [groupBy]
  | append_singleton items item ih =>
      rw [groupBy_append_singleton, get?_alter, List.filter_append, getD_groupBy]
      by_cases hkey : target = key item
      · subst hkey
        simp only [if_true, Option.some.injEq, decide_true, List.filter_cons_of_pos,
          List.filter_nil]
        constructor
        · rintro rfl
          simp
        · intro hheld
          exact hheld.2.symm
      · have hother : ¬key item = target := fun h => hkey h.symm
        simp [hkey, hother, ih]

theorem mem_keys_groupBy {A : Type*} (key : A → K) (items : List A) (target : K) :
    target ∈ (groupBy key items).entries.map Prod.fst ↔ target ∈ items.map key := by
  rw [List.mem_map, List.mem_map]
  constructor
  · rintro ⟨⟨group, held⟩, hentry, rfl⟩
    obtain ⟨hne, rfl⟩ := (get?_groupBy key items group held).1
      ((mem_entries_iff _ _ _).1 hentry)
    obtain ⟨item, hitem⟩ := List.exists_mem_of_ne_nil _ hne
    rw [List.mem_filter, decide_eq_true_eq] at hitem
    exact ⟨item, hitem⟩
  · rintro ⟨item, hitem, rfl⟩
    have hheld : item ∈ items.filter fun other => key other = key item :=
      List.mem_filter.2 ⟨hitem, by simp⟩
    have hget := (get?_groupBy key items (key item) _).2 ⟨List.ne_nil_of_mem hheld, rfl⟩
    exact ⟨_, (mem_entries_iff _ _ _).2 hget, rfl⟩

/-- The groups stand in the order of their keys, one for each. -/
theorem keys_groupBy {A : Type*} (key : A → K) (items : List A) :
    (groupBy key items).entries.map Prod.fst = sortDedup (items.map key) := by
  apply eq_of_pairwise_lt_of_mem_iff
  · exact List.pairwise_map.2 (groupBy key items).ordered
  · exact pairwise_sortDedup _
  · intro target
    rw [mem_keys_groupBy, mem_sortDedup]

/-- A map with the entries of some keys of another lists them in its order. -/
theorem entries_eq_filter {left right : OrderedMap K V} (kept : K → Bool)
    (hget : ∀ key, left.get? key = if kept key then right.get? key else none) :
    left.entries = right.entries.filter fun entry => kept entry.1 := by
  have hfiltered : (right.entries.filter fun entry => kept entry.1).Pairwise
      fun first second => first.1 < second.1 := right.ordered.filter _
  have hmap : left = ⟨right.entries.filter fun entry => kept entry.1,
      hfiltered⟩ := by
    apply ext_get?
    intro key
    apply Option.ext
    intro value
    rw [← mem_entries_iff ⟨_, hfiltered⟩, List.mem_filter, mem_entries_iff, hget]
    cases kept key <;> simp
  rw [hmap]

theorem entries_groupBy_filter {A : Type*} (key : A → K) (kept : K → Bool)
    (items : List A) :
    (groupBy key (items.filter fun item => kept (key item))).entries =
      (groupBy key items).entries.filter fun entry => kept entry.1 := by
  apply entries_eq_filter
  intro target
  apply Option.ext
  intro held
  have hfilter : (items.filter fun item => kept (key item)).filter
      (fun item => key item = target) =
        if kept target then items.filter fun item => key item = target
        else [] := by
    rw [List.filter_filter]
    cases hkept : kept target with
    | true =>
        rw [if_pos rfl]
        apply List.filter_congr
        intro item _
        by_cases hkey : key item = target
        · simp [hkey, hkept]
        · simp [hkey]
    | false =>
        rw [if_neg (by simp), List.filter_eq_nil_iff]
        intro item _
        by_cases hkey : key item = target
        · simp [hkey, hkept]
        · simp [hkey]
  rw [get?_groupBy, hfilter]
  cases kept target with
  | true => simp only [if_true, get?_groupBy]
  | false => simp +contextual

/-- The sum of a weight over the entries of a map. -/
def total (map : OrderedMap K V) (weight : K → V → ℕ) : ℕ :=
  (map.entries.map fun entry => weight entry.1 entry.2).sum

@[simp]
theorem total_empty (weight : K → V → ℕ) :
    (empty : OrderedMap K V).total weight = 0 := rfl

/-- The total, key by key. -/
theorem total_eq_sum (map : OrderedMap K V) (weight : K → V → ℕ) :
    map.total weight = ∑ key ∈ (map.entries.map Prod.fst).toFinset,
      (map.get? key).elim 0 (weight key) := by
  rw [List.sum_toFinset _ map.nodup_keys, total, List.map_map]
  congr 1
  apply List.map_congr_left
  rintro ⟨key, value⟩ hentry
  have hget := (map.mem_entries_iff key value).1 hentry
  simp only [Function.comp_apply, hget, Option.elim_some]

/-- A map with less under fewer keys has the smaller total. -/
theorem total_le_total {left right : OrderedMap K V} {weight : K → V → ℕ}
    (hle : ∀ key value, left.get? key = some value →
      ∃ other, right.get? key = some other ∧
        weight key value ≤ weight key other) :
    left.total weight ≤ right.total weight := by
  have hkeys : (left.entries.map Prod.fst).toFinset ⊆
      (right.entries.map Prod.fst).toFinset := by
    intro key hkey
    rw [List.mem_toFinset, List.mem_map] at hkey ⊢
    obtain ⟨entry, hentry, rfl⟩ := hkey
    obtain ⟨other, hother, -⟩ :=
      hle entry.1 entry.2 ((left.mem_entries_iff _ _).1 hentry)
    exact ⟨(entry.1, other), (right.mem_entries_iff _ _).2 hother, rfl⟩
  rw [total_eq_sum, total_eq_sum]
  calc
    _ ≤ ∑ key ∈ (left.entries.map Prod.fst).toFinset,
          (right.get? key).elim 0 (weight key) := by
      apply Finset.sum_le_sum
      intro key _
      cases hleft : left.get? key with
      | none => exact Nat.zero_le _
      | some value =>
          obtain ⟨other, hother, hweight⟩ := hle key value hleft
          simpa only [hother, Option.elim_some] using hweight
    _ ≤ _ := Finset.sum_le_sum_of_subset hkeys

/-- An update that adds `cost` to what `key` held adds it to the total. -/
theorem total_alter {map : OrderedMap K V} {key : K} {change : Option V → V}
    {weight : K → V → ℕ} {cost : ℕ}
    (hcost : weight key (change (map.get? key)) =
      (map.get? key).elim 0 (weight key) + cost) :
    (map.alter key change).total weight = map.total weight + cost := by
  have hsum := sum_alterEntries key change weight map.ordered
  rw [get?] at hcost
  simp only [total, alter]
  omega

/-- Counting in every group counts in the whole list. -/
theorem total_groupBy_countP {A : Type*} (key : A → K) (items : List A)
    (counted : K → A → Bool) :
    (groupBy key items).total (fun group held => held.countP (counted group)) =
      items.countP fun item => counted (key item) item := by
  induction items using List.reverseRecOn with
  | nil => rfl
  | append_singleton items item ih =>
      rw [groupBy_append_singleton, List.countP_append, ← ih,
        List.countP_singleton]
      apply total_alter
      rw [List.countP_append, List.countP_singleton]
      cases (groupBy key items).get? (key item) with
      | none => simp
      | some held => simp

end OrderedMap

end Ktsense.Foundation
