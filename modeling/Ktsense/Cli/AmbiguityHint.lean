import Ktsense.Cli.Symbols

/-!
# The hint of an ambiguous name

The hint names the shortest suffix of a candidate that no other candidate of the
listing carries.  A suffix at a dot is a suffix of the list of segments, so the
suffixes of one name are comparable, and whatever is unique among the candidates
that carry the pick is longer than the pick and carried by no other candidate.
-/

namespace Ktsense.Cli

open Ktsense.Core Ktsense.Foundation

/-! ## Segments -/

/-- The segments of a dotted name. -/
def segments (name : String) : List (List Char) := split ['.'] name.toList

theorem splitAt_eq_splitOn (marker : Char) (piece text : List Char) :
    splitAt [marker] 0 piece text =
      (text.splitOn marker).modifyHead (piece ++ ·) := by
  induction text generalizing piece with
  | nil => simp [splitAt]
  | cons first rest ih =>
      rw [List.splitOn_cons_eq_if_modifyHead]
      by_cases hfirst : first = marker
      · subst hfirst
        rw [splitAt, if_pos (by simp)]
        simp only [List.length_singleton, Nat.sub_self, ih, List.nil_append, beq_self_eq_true,
          if_true, List.modifyHead_cons, List.append_nil]
        congr 1
        exact congrFun List.modifyHead_id _
      · have hmarker : ¬marker = first := fun h => hfirst h.symm
        rw [splitAt, if_neg (by simp [hmarker]), ih, if_neg (by simpa using hfirst)]
        rw [List.modifyHead_modifyHead]
        congr 1
        funext rest
        simp

theorem segments_eq (name : String) : segments name = name.toList.splitOn '.' := by
  rw [segments, split, splitAt_eq_splitOn]
  simp only [List.nil_append]
  exact congrFun List.modifyHead_id _

theorem segments_ne_nil (name : String) : segments name ≠ [] := by
  rw [segments_eq]
  exact List.splitOn_ne_nil _ _

theorem intercalate_segments (name : String) :
    ['.'].intercalate (segments name) = name.toList := by
  rw [segments_eq]
  exact List.intercalate_splitOn '.'

theorem intercalate_append {left right : List (List Char)} (hleft : left ≠ [])
    (hright : right ≠ []) :
    ['.'].intercalate (left ++ right) =
      ['.'].intercalate left ++ '.' :: ['.'].intercalate right := by
  induction left with
  | nil => exact absurd rfl hleft
  | cons first rest ih =>
      cases rest with
      | nil =>
          rw [List.singleton_append, List.intercalate_cons_of_ne_nil hright]
          simp
      | cons second rest =>
          rw [List.cons_append, List.cons_append, List.intercalate_cons_cons,
            ← List.cons_append, ih (by simp), List.intercalate_cons_cons]
          simp

/-- A match at a dot is a suffix of the segments. -/
theorem matches_iff_suffix (fqn pick : String) :
    Matches fqn pick ↔ segments pick <:+ segments fqn := by
  constructor
  · rintro (rfl | ⟨front, rfl⟩)
    · exact List.suffix_rfl
    · refine ⟨segments front, ?_⟩
      have hletters : (front ++ "." ++ pick).toList = front.toList ++ '.' :: pick.toList := by
        simp
      rw [segments_eq, segments_eq, segments_eq, hletters, List.splitOn_append_cons_self]
  · rintro ⟨front, hfront⟩
    have hfqn := intercalate_segments fqn
    have hpick := intercalate_segments pick
    rw [← hfront] at hfqn
    by_cases hnil : front = []
    · rw [hnil, List.nil_append, hpick] at hfqn
      exact Or.inl (String.toList_inj.1 hfqn.symm)
    · rw [intercalate_append hnil (segments_ne_nil pick), hpick] at hfqn
      refine Or.inr ⟨String.ofList (['.'].intercalate front), ?_⟩
      rw [← String.toList_inj, ← hfqn]
      simp

theorem matches_trans {name middle ending : String} (hmiddle : Matches name middle)
    (hending : Matches middle ending) : Matches name ending := by
  rw [matches_iff_suffix] at hmiddle hending ⊢
  exact hending.trans hmiddle

/-- Of two suffixes of a name the one with fewer segments is a suffix of the
other. -/
theorem comparable_of_matches {name short long : String} (hshort : Matches name short)
    (hlong : Matches name long)
    (hle : (segments short).length ≤ (segments long).length) : Matches long short := by
  rw [matches_iff_suffix] at hshort hlong ⊢
  exact List.suffix_of_suffix_length_le hshort hlong hle

theorem dot_not_mem_of_mem_splitOn {marker : Char} {text segment : List Char}
    (hsegment : segment ∈ text.splitOn marker) : marker ∉ segment := by
  induction text generalizing segment with
  | nil => simp_all
  | cons first rest ih =>
      rw [List.splitOn_cons_eq_if_modifyHead] at hsegment
      split_ifs at hsegment with hfirst
      · rcases List.mem_cons.1 hsegment with rfl | hrest
        · simp
        · exact ih hrest
      · cases hpieces : rest.splitOn marker with
        | nil => exact absurd hpieces (List.splitOn_ne_nil _ _)
        | cons piece pieces =>
            rw [hpieces, List.modifyHead_cons] at hsegment
            rcases List.mem_cons.1 hsegment with rfl | hrest
            · have hmem : piece ∈ rest.splitOn marker := by
                rw [hpieces]
                exact List.mem_cons_self
              have hpiece := ih hmem
              have hne : ¬marker = first := fun h => hfirst (by simp [h])
              simp [hne, hpiece]
            · exact ih (by rw [hpieces]; exact List.mem_cons_of_mem _ hrest)

/-- The suffix from a segment on has the segments from there. -/
theorem segments_suffixFrom {target : String} {start : ℕ}
    (hstart : start < (segments target).length) :
    segments (suffixFrom target start) = (segments target).drop start := by
  have hne : (segments target).drop start ≠ [] := by
    simpa using hstart
  rw [segments_eq (suffixFrom target start), suffixFrom, String.toList_ofList, ← segments]
  apply List.splitOn_intercalate '.' _ hne
  intro segment hsegment
  have hmem := List.mem_of_mem_drop hsegment
  rw [segments_eq] at hmem
  exact dot_not_mem_of_mem_splitOn hmem

theorem matches_suffixFrom {target : String} {start : ℕ}
    (hstart : start < (segments target).length) :
    Matches target (suffixFrom target start) := by
  rw [matches_iff_suffix, segments_suffixFrom hstart]
  exact List.drop_suffix _ _

/-- A suffix at a dot is the suffix from some segment on. -/
theorem eq_suffixFrom_of_matches {target ending : String} (hending : Matches target ending) :
    (segments ending).length ≤ (segments target).length ∧
      ending = suffixFrom target
        ((segments target).length - (segments ending).length) := by
  have hsuffix := (matches_iff_suffix target ending).1 hending
  refine ⟨hsuffix.length_le, ?_⟩
  rw [suffixFrom, ← segments, ← List.suffix_iff_eq_drop.1 hsuffix, intercalate_segments,
    String.ofList_toList]

/-! ## The only candidate that carries a suffix -/

/-- The candidates that carry a suffix. -/
def carriers (ending : String) (fqns : List String) : List String :=
  fqns.filter (isDotSuffix · ending)

theorem mem_carriers (ending : String) (fqns : List String) (fqn : String) :
    fqn ∈ carriers ending fqns ↔ fqn ∈ fqns ∧ Matches fqn ending := by
  rw [carriers, List.mem_filter, isDotSuffix_iff]
  rfl

theorem length_suffixIndices (pick : String) (fqns : List String) :
    (suffixIndices pick fqns).length = (carriers pick fqns).length := by
  have hnames : fqns = fqns.zipIdx.map Prod.fst := by simp
  rw [suffixIndices, List.length_map, carriers]
  conv_rhs => rw [hnames, List.filter_map, List.length_map]
  rfl

/-- A name in the list is selected at its first place. -/
theorem matchPick_self {target : String} {fqns : List String} (hmem : target ∈ fqns) :
    matchPick target fqns = .selected (fqns.idxOf target) := by
  have hfound : fqns.findIdx? (· == target) = some (fqns.idxOf target) := by
    rw [List.findIdx?_eq_some_iff_findIdx_eq]
    exact ⟨List.idxOf_lt_length_of_mem hmem, rfl⟩
  rw [matchPick, hfound]

theorem findIdx?_eq_none_of_not_mem {ending : String} {fqns : List String}
    (hexact : ending ∉ fqns) : fqns.findIdx? (· == ending) = none := by
  rw [List.findIdx?_eq_none_iff]
  intro fqn hfqn
  rw [beq_eq_false_iff_ne]
  rintro rfl
  exact hexact hfqn

/-- A suffix that one candidate alone carries selects it. -/
theorem matchPick_of_lone_carrier {target ending : String} {fqns : List String}
    (hlone : carriers ending fqns = [target]) :
    matchPick ending fqns = .selected (fqns.idxOf target) := by
  have hcarried (fqn : String) : fqn ∈ fqns ∧ Matches fqn ending ↔ fqn = target := by
    rw [← mem_carriers, hlone, List.mem_singleton]
  by_cases hexact : ending ∈ fqns
  · rw [← (hcarried ending).1 ⟨hexact, Or.inl rfl⟩]
    exact matchPick_self hexact
  · have hnone := findIdx?_eq_none_of_not_mem hexact
    have hlength := length_suffixIndices ending fqns
    rw [hlone, List.length_singleton, List.length_eq_one_iff] at hlength
    obtain ⟨only, honly⟩ := hlength
    have hmem (index : ℕ) := mem_suffixIndices ending fqns index
    simp only [honly, List.mem_singleton] at hmem
    have htarget := (hcarried target).2 rfl
    have hfirst : fqns[fqns.idxOf target]? = some target :=
      List.getElem?_idxOf htarget.1
    have hindex := (hmem (fqns.idxOf target)).2 ⟨target, hfirst, htarget.2⟩
    rw [matchPick, hnone, honly, ← hindex]

/-! ## The shortest suffix -/

/-- The loop stops at the last segment from which one candidate alone carries the
suffix, or falls back to the whole name. -/
theorem shortestUniqueFrom_spec (target : String) (fqns : List String) (count : ℕ) :
    (∃ start < count, shortestUniqueFrom target fqns count = suffixFrom target start ∧
        (carriers (suffixFrom target start) fqns).length = 1 ∧
        ∀ later, start < later → later < count →
          (carriers (suffixFrom target later) fqns).length ≠ 1) ∨
      (shortestUniqueFrom target fqns count = target ∧
        ∀ later < count, (carriers (suffixFrom target later) fqns).length ≠ 1) := by
  induction count with
  | zero => exact Or.inr ⟨rfl, by simp⟩
  | succ start ih =>
      rw [shortestUniqueFrom]
      split_ifs with hlone
      · exact Or.inl ⟨start, Nat.lt_succ_self start, rfl, hlone, by omega⟩
      · have hlater (later : ℕ) (hlt : later < start + 1) (hne : ¬later < start) :
            (carriers (suffixFrom target later) fqns).length ≠ 1 := by
          obtain rfl : later = start := by omega
          exact hlone
        rcases ih with ⟨first, hfirst, hhint, hunique, hnone⟩ | ⟨hhint, hnone⟩
        · refine Or.inl ⟨first, by omega, hhint, hunique, ?_⟩
          intro later hafter hlt
          by_cases hbefore : later < start
          · exact hnone later hafter hbefore
          · exact hlater later hlt hbefore
        · refine Or.inr ⟨hhint, ?_⟩
          intro later hlt
          by_cases hbefore : later < start
          · exact hnone later hbefore
          · exact hlater later hlt hbefore

/-- The hint is a suffix that one candidate alone carries, or the whole name, and
no suffix with fewer segments is carried by one alone. -/
theorem shortestUniqueSuffix_spec (target : String) (fqns : List String) :
    Matches target (shortestUniqueSuffix target fqns) ∧
      ((carriers (shortestUniqueSuffix target fqns) fqns).length = 1 ∨
        shortestUniqueSuffix target fqns = target) ∧
      ∀ ending, Matches target ending →
        (segments ending).length <
          (segments (shortestUniqueSuffix target fqns)).length →
        (carriers ending fqns).length ≠ 1 := by
  have hspec := shortestUniqueFrom_spec target fqns (segments target).length
  rw [segments, ← shortestUniqueSuffix] at hspec
  rcases hspec with ⟨start, hstart, hhint, hunique, hnone⟩ | ⟨hhint, hnone⟩
  · rw [hhint]
    refine ⟨matches_suffixFrom hstart, Or.inl hunique, ?_⟩
    intro ending hending hfewer
    obtain ⟨hle, heq⟩ := eq_suffixFrom_of_matches hending
    have hpositive := List.length_pos_iff.2 (segments_ne_nil ending)
    rw [segments_suffixFrom hstart, List.length_drop] at hfewer
    rw [heq]
    apply hnone
    · omega
    · rw [← segments]
      omega
  · refine ⟨Or.inl hhint.symm, Or.inr hhint, ?_⟩
    intro ending hending _
    obtain ⟨hle, heq⟩ := eq_suffixFrom_of_matches hending
    have hpositive := List.length_pos_iff.2 (segments_ne_nil ending)
    rw [heq]
    apply hnone
    rw [← segments]
    omega

theorem carriers_eq_singleton {target ending : String} {fqns : List String}
    (hmem : target ∈ fqns) (hmatches : Matches target ending)
    (hlone : (carriers ending fqns).length = 1) : carriers ending fqns = [target] := by
  obtain ⟨only, honly⟩ := List.length_eq_one_iff.1 hlone
  have hcarried := (mem_carriers ending fqns target).2 ⟨hmem, hmatches⟩
  rw [honly, List.mem_singleton] at hcarried
  rw [honly, hcarried]

/-- A suffix that selects a name other than itself is carried by it alone. -/
theorem lone_of_selected {ending : String} {fqns : List String} {index : ℕ}
    (hexact : ending ∉ fqns) (hselected : matchPick ending fqns = .selected index) :
    (carriers ending fqns).length = 1 := by
  have hnone := findIdx?_eq_none_of_not_mem hexact
  rw [← length_suffixIndices]
  rw [matchPick, hnone] at hselected
  dsimp only at hselected
  split at hselected
  · cases hselected
  · rename_i only hsingle
    rw [hsingle]
    rfl
  · cases hselected

/-! ## The listing of an ambiguous pick -/

/-- The candidates listed for an ambiguous pick are those that carry it. -/
theorem retainIndices_suffixIndices (pick : String) (fqns : List String) :
    retainIndices fqns (suffixIndices pick fqns) = carriers pick fqns := by
  have hnames : fqns = fqns.zipIdx.map Prod.fst := by simp
  rw [retainIndices, carriers]
  conv_rhs => rw [hnames, List.filter_map]
  congr 1
  apply List.filter_congr
  rintro ⟨fqn, index⟩ hentry
  have hget := List.mem_zipIdx_iff_getElem?.1 hentry
  rw [Bool.eq_iff_iff, List.contains_iff_mem, mem_suffixIndices]
  simp only [Function.comp_apply, isDotSuffix_iff]
  constructor
  · rintro ⟨other, hother, hmatches⟩
    obtain rfl := Option.some.inj (hget.symm.trans hother)
    exact hmatches
  · intro hmatches
    exact ⟨fqn, hget, hmatches⟩

theorem ambiguous_spec {pick : String} {fqns : List String} {indices : List ℕ}
    (hambiguous : matchPick pick fqns = .ambiguous indices) :
    retainIndices fqns indices = carriers pick fqns ∧
      (carriers pick fqns).length ≠ 1 := by
  rw [matchPick] at hambiguous
  split at hambiguous
  · cases hambiguous
  · split at hambiguous
    · cases hambiguous
    · cases hambiguous
    · rename_i hmany
      obtain rfl := PickMatch.ambiguous.inj hambiguous
      refine ⟨retainIndices_suffixIndices pick fqns, ?_⟩
      rw [← length_suffixIndices]
      intro hlone
      obtain ⟨only, honly⟩ := List.length_eq_one_iff.1 hlone
      exact hmany only honly

/-- Candidates that carry a longer suffix are found among those that carry the
pick. -/
theorem carriers_carriers {pick ending : String} (hmatches : Matches ending pick)
    (fqns : List String) :
    carriers ending (carriers pick fqns) = carriers ending fqns := by
  rw [carriers, carriers, List.filter_filter]
  apply List.filter_congr
  intro fqn _
  rw [Bool.and_eq_left_iff_imp]
  intro hending
  rw [isDotSuffix_iff] at hending ⊢
  exact matches_trans hending hmatches

/-- The hint selects its name, and nothing with fewer segments does; computed on
the listing of an ambiguous pick, it selects the name among all candidates. -/
theorem ambiguity_hint_selects (fqns : List String) :
    (∀ target, fqns.count target = 1 →
      matchPick (shortestUniqueSuffix target fqns) fqns =
          .selected (fqns.idxOf target) ∧
        ∀ ending, isDotSuffix target ending = true →
          (segments ending).length <
            (segments (shortestUniqueSuffix target fqns)).length →
          matchPick ending fqns ≠ .selected (fqns.idxOf target)) ∧
      ∀ pick indices, matchPick pick fqns = .ambiguous indices →
        ∀ target, (retainIndices fqns indices).count target = 1 →
          matchPick (shortestUniqueSuffix target (retainIndices fqns indices)) fqns =
            .selected (fqns.idxOf target) := by
  constructor
  · intro target hcount
    have hmem : target ∈ fqns := List.count_pos_iff.1 (by omega)
    obtain ⟨hmatches, hunique, hnone⟩ := shortestUniqueSuffix_spec target fqns
    constructor
    · rcases hunique with hlone | hwhole
      · exact matchPick_of_lone_carrier (carriers_eq_singleton hmem hmatches hlone)
      · rw [hwhole]
        exact matchPick_self hmem
    · intro ending hending hfewer hselected
      rw [isDotSuffix_iff] at hending
      by_cases hexact : ending ∈ fqns
      · -- an exact match is its own answer, and has as many segments as the name
        rw [matchPick_self hexact, PickMatch.selected.injEq,
          List.idxOf_inj hexact] at hselected
        rw [hselected] at hfewer
        have hle := ((matches_iff_suffix _ _).1 hmatches).length_le
        omega
      · exact hnone ending hending hfewer (lone_of_selected hexact hselected)
  · intro pick indices hambiguous target hcount
    obtain ⟨hlisting, hmany⟩ := ambiguous_spec hambiguous
    rw [hlisting] at hcount ⊢
    have hmem : target ∈ carriers pick fqns := List.count_pos_iff.1 (by omega)
    obtain ⟨hlisted, hpick⟩ := (mem_carriers pick fqns target).1 hmem
    obtain ⟨hmatches, hunique, -⟩ :=
      shortestUniqueSuffix_spec target (carriers pick fqns)
    rcases hunique with hlone | hwhole
    · have hlonger : Matches (shortestUniqueSuffix target (carriers pick fqns)) pick := by
        rcases le_total (segments pick).length
          (segments (shortestUniqueSuffix target (carriers pick fqns))).length with hle | hle
        · exact comparable_of_matches hpick hmatches hle
        · -- every candidate that carries the pick would carry a shorter hint
          have hcarried := comparable_of_matches hmatches hpick hle
          have hall : carriers (shortestUniqueSuffix target (carriers pick fqns))
              (carriers pick fqns) = carriers pick fqns := by
            apply List.filter_eq_self.2
            intro fqn hfqn
            rw [isDotSuffix_iff]
            exact matches_trans ((mem_carriers _ _ _).1 hfqn).2 hcarried
          rw [hall] at hlone
          exact absurd hlone hmany
      rw [carriers_carriers hlonger] at hlone
      exact matchPick_of_lone_carrier (carriers_eq_singleton hlisted hmatches hlone)
    · rw [hwhole]
      exact matchPick_self hlisted

/-- `save` is a method of two types and a function at the top level. -/
theorem hint_of_nested_name :
    matchPick (shortestUniqueSuffix "save" ["save", "shop.A.save", "shop.B.save"])
        ["save", "shop.A.save", "shop.B.save"] = .selected 0 ∧
      matchPick (shortestUniqueSuffix "shop.A.save"
          (retainIndices ["a.shop.A.save", "shop.A.save", "shop.B.save"] [0, 1, 2]))
          ["a.shop.A.save", "shop.A.save", "shop.B.save"] = .selected 1 :=
  ⟨((ambiguity_hint_selects ["save", "shop.A.save", "shop.B.save"]).1 "save"
      (by decide)).1,
    (ambiguity_hint_selects ["a.shop.A.save", "shop.A.save", "shop.B.save"]).2 "save"
      [0, 1, 2] (by decide) "shop.A.save" (by decide)⟩

end Ktsense.Cli
