import Ktsense.Foundation.Text

/-!
# Picking a candidate by name

`pick.rs` resolves a pick value against candidate names: an exact name wins,
then a suffix at a dot boundary that only one candidate carries.  `NeverGuesses`
says what an honest outcome is; `matchPick` meets it unless two candidates share
the very name that was picked.
-/

namespace Ktsense.Core

open Ktsense.Foundation

inductive PickMatch where
  | selected (index : ℕ)
  | ambiguous (indices : List ℕ)
  | missed
  deriving DecidableEq, Repr

/-- `str::ends_with`. -/
def endsWith (text ending : String) : Bool :=
  ending.toList.isSuffixOf text.toList

def isDotSuffix (fqn ending : String) : Bool :=
  if fqn = ending then true
  else if (utf8 ending).length < (utf8 fqn).length then
    let boundary := (utf8 fqn).length - (utf8 ending).length
    endsWith fqn ending && (utf8 fqn)[boundary - 1]? == some 46
  else false

/-- The indices `match_pick` collects once no name is the pick itself. -/
def suffixIndices (pick : String) (fqns : List String) : List ℕ :=
  (fqns.zipIdx.filter fun (fqn, _) => isDotSuffix fqn pick).map Prod.snd

def matchPick (pick : String) (fqns : List String) : PickMatch :=
  match fqns.findIdx? (· == pick) with
  | some index => .selected index
  | none =>
      match suffixIndices pick fqns with
      | [] => .missed
      | [only] => .selected only
      | matched => .ambiguous matched

def lastSegment (query : String) : String :=
  String.ofList ((split ['.'] query.toList).getLastD query.toList)

/-- The suffix of `target` from segment `start` on. -/
def suffixFrom (target : String) (start : ℕ) : String :=
  String.ofList
    (List.intercalate ['.'] ((split ['.'] target.toList).drop start))

/-- The loop of `shortest_unique_suffix`, from the last segment up. -/
def shortestUniqueFrom (target : String) (fqns : List String) : ℕ → String
  | 0 => target
  | start + 1 =>
      let candidate := suffixFrom target start
      if (fqns.filter fun fqn => isDotSuffix fqn candidate).length = 1 then
        candidate
      else shortestUniqueFrom target fqns start

def shortestUniqueSuffix (target : String) (fqns : List String) : String :=
  shortestUniqueFrom target fqns (split ['.'] target.toList).length

/-! ## The suffix test -/

/-- `fqn` ends in `ending` right after a dot. -/
def CarriesSuffix (fqn ending : String) : Prop :=
  ∃ front, fqn = front ++ "." ++ ending

/-- Only the dot ends in the byte of a dot: the last byte of a longer encoding
is a continuation byte. -/
theorem getLast?_utf8EncodeChar {letter : Char} :
    (String.utf8EncodeChar letter).getLast? = some 46 ↔ letter = '.' := by
  have hletter : letter = '.' ↔ letter.val.toNat = 46 := by
    constructor
    · rintro rfl
      rfl
    · intro hcode
      exact Char.ext (UInt32.toNat_inj.1 hcode)
  have hbyte : ∀ code : ℕ, code < 256 → (UInt8.ofNat code = 46 ↔ code = 46) := by
    intro code hcode
    rw [← UInt8.toNat_inj, UInt8.toNat_ofNat', Nat.mod_eq_of_lt hcode]
    rfl
  rw [hletter]
  unfold String.utf8EncodeChar
  generalize letter.val.toNat = code
  have hlast := hbyte (code % 64 + 128) (by omega)
  dsimp only
  split
  · rw [List.getLast?_singleton, Option.some.injEq, hbyte code (by omega)]
  · split
    · simp only [List.getLast?_cons_cons, List.getLast?_singleton,
        Option.some.injEq, hlast]
      omega
    · split
      · simp only [List.getLast?_cons_cons, List.getLast?_singleton,
          Option.some.injEq, hlast]
        omega
      · simp only [List.getLast?_cons_cons, List.getLast?_singleton,
          Option.some.injEq, hlast]
        omega

theorem utf8EncodeChar_ne_nil (letter : Char) :
    String.utf8EncodeChar letter ≠ [] := by
  unfold String.utf8EncodeChar
  dsimp only
  split
  · simp
  · split
    · simp
    · split <;> simp

theorem getLast?_flatMap_utf8EncodeChar (letters : List Char) :
    (letters.flatMap String.utf8EncodeChar).getLast? = some 46 ↔
      letters.getLast? = some '.' := by
  induction letters using List.reverseRecOn with
  | nil => simp
  | append_singleton letters last _ =>
      rw [List.flatMap_append, List.flatMap_singleton, List.getLast?_append_of_ne_nil _
        (utf8EncodeChar_ne_nil last), getLast?_utf8EncodeChar]
      simp

/-- The byte test of `is_dot_suffix`, once the text is split at the ending. -/
theorem byte_before_ending {fqn ending : String} {front : List Char}
    (hfront : front ++ ending.toList = fqn.toList) (hne : fqn ≠ ending) :
    (utf8 ending).length < (utf8 fqn).length ∧
      ((utf8 fqn)[(utf8 fqn).length - (utf8 ending).length - 1]? = some 46 ↔
        front.getLast? = some '.') := by
  have hbytes : utf8 fqn = front.flatMap String.utf8EncodeChar ++ utf8 ending := by
    rw [utf8, ← hfront, List.flatMap_append]
    rfl
  have hnonempty : front.flatMap String.utf8EncodeChar ≠ [] := by
    intro hempty
    have hnil : front = [] := by
      cases front with
      | nil => rfl
      | cons first front =>
          rw [List.flatMap_cons, List.append_eq_nil_iff] at hempty
          exact absurd hempty.1 (utf8EncodeChar_ne_nil first)
    rw [hnil, List.nil_append] at hfront
    exact hne (String.toList_inj.1 hfront.symm)
  have hpositive := List.length_pos_of_ne_nil hnonempty
  rw [← getLast?_flatMap_utf8EncodeChar, hbytes, List.length_append,
    Nat.add_sub_cancel, List.getLast?_eq_getElem?,
    List.getElem?_append_left (by omega)]
  exact ⟨by omega, Iff.rfl⟩

theorem isDotSuffix_iff (fqn ending : String) :
    isDotSuffix fqn ending = true ↔ fqn = ending ∨ CarriesSuffix fqn ending := by
  rw [isDotSuffix]
  by_cases hequal : fqn = ending
  · simp [hequal]
  rw [if_neg hequal, or_iff_right hequal]
  constructor
  · intro hsuffix
    split at hsuffix
    · rw [Bool.and_eq_true, endsWith, List.isSuffixOf_iff_suffix, beq_iff_eq]
        at hsuffix
      obtain ⟨⟨front, hfront⟩, hdot⟩ := hsuffix
      rw [(byte_before_ending hfront hequal).2, List.getLast?_eq_some_iff] at hdot
      obtain ⟨initial, rfl⟩ := hdot
      refine ⟨String.ofList initial, ?_⟩
      rw [← String.toList_inj, ← hfront]
      simp
    · exact absurd hsuffix (by simp)
  · rintro ⟨front, hfront⟩
    have hsplit : (front.toList ++ ['.']) ++ ending.toList = fqn.toList := by
      rw [hfront, String.toList_append, String.toList_append]
      rfl
    obtain ⟨hlength, hdot⟩ := byte_before_ending hsplit hequal
    rw [if_pos hlength, Bool.and_eq_true, endsWith, List.isSuffixOf_iff_suffix,
      beq_iff_eq, hdot]
    exact ⟨⟨_, hsplit⟩, by simp⟩

/-! ## What a pick resolves to -/

/-- The name matches the pick as a whole or as a suffix at a dot. -/
def Matches (fqn pick : String) : Prop :=
  fqn = pick ∨ CarriesSuffix fqn pick

/-- `index` is the only candidate with exactly the picked name or, when no
candidate has it, the only one that carries it as a suffix. -/
def OnlyMatch (pick : String) (fqns : List String) (index : ℕ) : Prop :=
  (fqns[index]? = some pick ∧ ∀ other, fqns[other]? = some pick → other = index) ∨
    (pick ∉ fqns ∧
      (∃ fqn, fqns[index]? = some fqn ∧ CarriesSuffix fqn pick) ∧
      ∀ other fqn, fqns[other]? = some fqn → CarriesSuffix fqn pick →
        other = index)

/-- An outcome that does not guess. -/
def NeverGuesses (pick : String) (fqns : List String) : PickMatch → Prop
  | .selected index => OnlyMatch pick fqns index
  | .ambiguous indices =>
      2 ≤ indices.length ∧ indices.Pairwise (· < ·) ∧
        ∀ index, index ∈ indices ↔
          ∃ fqn, fqns[index]? = some fqn ∧ Matches fqn pick
  | .missed => ∀ fqn ∈ fqns, ¬Matches fqn pick

theorem mem_suffixIndices (pick : String) (fqns : List String) (index : ℕ) :
    index ∈ suffixIndices pick fqns ↔
      ∃ fqn, fqns[index]? = some fqn ∧ Matches fqn pick := by
  simp only [suffixIndices, List.mem_map, List.mem_filter, Prod.exists,
    exists_eq_right, List.mem_zipIdx_iff_getElem?, isDotSuffix_iff]
  rfl

theorem pairwise_suffixIndices (pick : String) (fqns : List String) :
    (suffixIndices pick fqns).Pairwise (· < ·) := by
  have hsublist : (suffixIndices pick fqns).Sublist (fqns.zipIdx.map Prod.snd) :=
    List.filter_sublist.map Prod.snd
  rw [List.zipIdx_map_snd] at hsublist
  exact List.Pairwise.sublist hsublist List.pairwise_lt_range'

/-- Without an exact match, the suffixes decide, and honestly. -/
theorem neverGuesses_of_not_mem {pick : String} {fqns : List String}
    (hpick : pick ∉ fqns) : NeverGuesses pick fqns (matchPick pick fqns) := by
  have hnone : fqns.findIdx? (· == pick) = none := by
    rw [List.findIdx?_eq_none_iff]
    intro fqn hfqn
    rw [beq_eq_false_iff_ne]
    rintro rfl
    exact hpick hfqn
  have hmem := mem_suffixIndices pick fqns
  have hcarries : ∀ (index : ℕ) (fqn : String), fqns[index]? = some fqn →
      (Matches fqn pick ↔ CarriesSuffix fqn pick) := by
    intro index fqn hget
    apply or_iff_right
    rintro rfl
    exact hpick (List.mem_of_getElem? hget)
  rw [matchPick, hnone]
  dsimp only
  split
  · rename_i hempty
    intro fqn hfqn hmatches
    obtain ⟨index, hget⟩ := List.mem_iff_getElem?.1 hfqn
    have hindex := (hmem index).2 ⟨fqn, hget, hmatches⟩
    rw [hempty] at hindex
    exact List.not_mem_nil hindex
  · rename_i only hsingle
    simp only [hsingle, List.mem_singleton] at hmem
    apply Or.inr
    obtain ⟨fqn, hget, hmatches⟩ := (hmem only).1 rfl
    refine ⟨hpick, ⟨fqn, hget, (hcarries only fqn hget).1 hmatches⟩, ?_⟩
    intro other fqn hget hsuffix
    exact (hmem other).2 ⟨fqn, hget, Or.inr hsuffix⟩
  · rename_i hnil hsingle
    refine ⟨?_, pairwise_suffixIndices pick fqns, hmem⟩
    match hmatched : suffixIndices pick fqns with
    | [] => exact absurd hmatched hnil
    | [only] => exact absurd hmatched (hsingle only)
    | _ :: _ :: _ => simp

/-- An exact match is selected at its first occurrence. -/
theorem matchPick_of_mem {pick : String} {fqns : List String}
    (hpick : pick ∈ fqns) :
    ∃ index, matchPick pick fqns = .selected index ∧ fqns[index]? = some pick := by
  cases hfound : fqns.findIdx? (· == pick) with
  | none =>
      rw [List.findIdx?_eq_none_iff] at hfound
      exact absurd (hfound pick hpick) (by simp)
  | some index =>
      obtain ⟨hlt, hat, _⟩ := List.findIdx?_eq_some_iff_getElem.1 hfound
      refine ⟨index, by rw [matchPick, hfound], ?_⟩
      rw [List.getElem?_eq_getElem hlt]
      exact congrArg some (by simpa using hat)

/-- A name occurs at most once exactly when no two indices hold it. -/
theorem count_le_one_iff {pick : String} {fqns : List String} {index : ℕ}
    (hindex : fqns[index]? = some pick) :
    fqns.count pick ≤ 1 ↔ ∀ other, fqns[other]? = some pick → other = index := by
  rw [← not_lt, ← Nat.succ_le_iff, ← List.duplicate_iff_two_le_count,
    List.duplicate_iff_exists_distinct_get]
  obtain ⟨hlt, hat⟩ := List.getElem?_eq_some_iff.1 hindex
  constructor
  · intro hdistinct other hother
    obtain ⟨hotherLt, hotherAt⟩ := List.getElem?_eq_some_iff.1 hother
    rcases lt_trichotomy other index with hless | hsame | hmore
    · exact absurd ⟨⟨other, hotherLt⟩, ⟨index, hlt⟩, hless, hotherAt.symm,
        hat.symm⟩ hdistinct
    · exact hsame
    · exact absurd ⟨⟨index, hlt⟩, ⟨other, hotherLt⟩, hmore, hat.symm,
        hotherAt.symm⟩ hdistinct
  · rintro hunique ⟨first, second, hless, hfirst, hsecond⟩
    have hfirstAt := hunique first
      (List.getElem?_eq_some_iff.2 ⟨first.2, hfirst.symm⟩)
    have hsecondAt := hunique second
      (List.getElem?_eq_some_iff.2 ⟨second.2, hsecond.symm⟩)
    have hcontra : first.val < second.val := hless
    omega

theorem neverGuesses_iff (pick : String) (fqns : List String) :
    NeverGuesses pick fqns (matchPick pick fqns) ↔ fqns.count pick ≤ 1 := by
  by_cases hpick : pick ∈ fqns
  · obtain ⟨index, hmatch, hget⟩ := matchPick_of_mem hpick
    rw [hmatch, count_le_one_iff hget]
    constructor
    · rintro (⟨_, hunique⟩ | ⟨habsent, _⟩)
      · exact hunique
      · exact absurd hpick habsent
    · intro hunique
      exact Or.inl ⟨hget, hunique⟩
  · rw [List.count_eq_zero.2 hpick]
    exact iff_of_true (neverGuesses_of_not_mem hpick) (Nat.zero_le 1)

theorem matchPick_eq_missed_iff (pick : String) (fqns : List String) :
    matchPick pick fqns = .missed ↔ ∀ fqn ∈ fqns, ¬Matches fqn pick := by
  by_cases hpick : pick ∈ fqns
  · obtain ⟨index, hmatch, _⟩ := matchPick_of_mem hpick
    rw [hmatch]
    refine iff_of_false (by simp) fun hnone => ?_
    exact hnone pick hpick (Or.inl rfl)
  · have hhonest := neverGuesses_of_not_mem hpick
    constructor
    · intro hmissed
      rwa [hmissed] at hhonest
    · intro hnone
      cases hmatch : matchPick pick fqns with
      | missed => rfl
      | selected index =>
          rw [hmatch] at hhonest
          rcases hhonest with ⟨hget, _⟩ | ⟨_, ⟨fqn, hget, hsuffix⟩, _⟩
          · exact absurd (List.mem_of_getElem? hget) hpick
          · exact absurd (Or.inr hsuffix) (hnone fqn (List.mem_of_getElem? hget))
      | ambiguous indices =>
          rw [hmatch] at hhonest
          obtain ⟨hlength, _, hmem⟩ := hhonest
          have hpositive : 0 < indices.length := by omega
          obtain ⟨first, hfirst⟩ := List.exists_mem_of_length_pos hpositive
          obtain ⟨fqn, hget, hmatches⟩ := (hmem first).1 hfirst
          exact absurd hmatches (hnone fqn (List.mem_of_getElem? hget))

end Ktsense.Core
