import Ktsense.Core.Context

/-!
# The windows of a source match

`kept_indices` keeps, around every line the matcher accepts, the lines within a
distance; `matched_body` opens a gap where the line above was not kept.  The end of a
window is a sum of machine words, which wraps for a distance near their bound.
-/

namespace Ktsense.Core

open Ktsense.Foundation

section Windows

variable (lines : List String) (spec : SourceMatch)

/-- The matcher accepts the line at an index. -/
def MatchesAt (index : ℕ) : Prop :=
  ∃ line, lines[index]? = some line ∧ spec.matcher line = true

/-- What a source match promises of the lines it keeps and of their gaps. -/
structure KeepsWindows (startLine endLine : ℕ) : Prop where
  sorted : (keptIndices lines spec).Pairwise (· < ·)
  mem_iff : ∀ kept, kept ∈ keptIndices lines spec ↔
    kept < lines.length ∧ ∃ index, MatchesAt lines spec index ∧
      ((index : ℤ) - kept).natAbs ≤ spec.around
  matching_kept : ∀ index, MatchesAt lines spec index → index ∈ keptIndices lines spec
  gaps : List.Forall₂ (fun kept candidate => ∃ line, candidate.matched = some line ∧
      line.number = startLine + kept ∧
      (line.gapBefore = true ↔ 0 < kept ∧ kept - 1 ∉ keptIndices lines spec))
    (keptIndices lines spec) (matchedBody lines startLine endLine spec).candidates

variable {lines spec}

theorem MatchesAt.lt_length {index : ℕ} (hmatches : MatchesAt lines spec index) :
    index < lines.length := by
  obtain ⟨line, hline, -⟩ := hmatches
  exact (List.getElem?_eq_some_iff.mp hline).1

theorem mem_keptIndices (kept : ℕ) :
    kept ∈ keptIndices lines spec ↔
      ∃ index, MatchesAt lines spec index ∧ index - spec.around ≤ kept ∧
        kept ≤ min (wrappingAdd index spec.around) (lines.length - 1) := by
  rw [keptIndices, mem_sortDedup, List.mem_flatMap]
  constructor
  · rintro ⟨⟨line, index⟩, hline, hkept⟩
    rw [List.mem_zipIdx_iff_getElem?] at hline
    dsimp only at hline hkept
    split_ifs at hkept with hmatcher
    · rw [List.mem_range'_1] at hkept
      exact ⟨index, ⟨line, hline, hmatcher⟩, hkept.1, by omega⟩
    · cases hkept
  · rintro ⟨index, ⟨line, hline, hmatcher⟩, hlow, hhigh⟩
    refine ⟨(line, index), List.mem_zipIdx_iff_getElem?.mpr hline, ?_⟩
    dsimp only
    rw [if_pos hmatcher, List.mem_range'_1]
    exact ⟨hlow, by omega⟩

/-- A line opens a gap where the index before its own was not kept. -/
theorem gaps_matchedCandidates (startLine : ℕ) (before indices : List ℕ)
    (hsorted : (before ++ indices).Pairwise (· < ·)) :
    List.Forall₂ (fun kept candidate => ∃ line, candidate.matched = some line ∧
        line.number = startLine + kept ∧
        (line.gapBefore = true ↔ 0 < kept ∧ kept - 1 ∉ before ++ indices))
      indices (matchedCandidates lines startLine before.getLast? indices) := by
  induction indices generalizing before with
  | nil => exact List.Forall₂.nil
  | cons index rest ih =>
      rw [matchedCandidates.eq_def]
      refine List.Forall₂.cons ⟨_, rfl, rfl, ?_⟩ ?_
      · obtain ⟨-, hindex, hbefore⟩ := List.pairwise_append.mp hsorted
        have hrest := (List.pairwise_cons.mp hindex).1
        have hbehind : 0 < index → index - 1 ∉ index :: rest := by
          intro hpositive hmem
          rcases List.mem_cons.mp hmem with heq | hmem
          · omega
          · have := hrest _ hmem
            omega
        rcases List.eq_nil_or_concat' before with rfl | ⟨front, previous, rfl⟩
        · simpa using hbehind
        · have hprevious : previous < index :=
            hbefore previous (by simp) index List.mem_cons_self
          rw [List.getLast?_concat]
          simp only [decide_eq_true_eq]
          constructor
          · intro hgap
            refine ⟨by omega, fun hmem => ?_⟩
            rcases List.mem_append.mp hmem with hfront | hrest
            · rcases List.mem_append.mp hfront with hfront | hlast
              · have hlt := (List.pairwise_append.mp
                  (List.pairwise_append.mp hsorted).1).2.2 _ hfront previous (by simp)
                omega
              · have := List.mem_singleton.mp hlast
                omega
            · exact hbehind (by omega) hrest
          · rintro ⟨hpositive, hnot⟩
            by_contra hgap
            have heq : index - 1 = previous := by omega
            exact hnot (by simp [heq])
      · have hnext := ih (before ++ [index]) (by simpa using hsorted)
        rw [List.getLast?_concat, List.append_assoc, List.singleton_append] at hnext
        exact hnext

/-- A source match keeps exactly the windows if and only if the first of them does not
wrap: a window further down that wraps is then covered by the first. -/
theorem keepsWindows_iff (haround : spec.around < usizeBound)
    (hlength : lines.length < 2 ^ 63) (startLine endLine : ℕ) :
    KeepsWindows lines spec startLine endLine ↔
      ∀ first, lines.findIdx? spec.matcher = some first →
        first + spec.around < usizeBound := by
  have hwrap (index : ℕ) : wrappingAdd index spec.around ≤ index + spec.around :=
    Nat.mod_le _ _
  constructor
  · intro hwindows first hfirst
    by_contra hover
    obtain ⟨hlt, hmatcher, hearlier⟩ := List.findIdx?_eq_some_iff_getElem.mp hfirst
    have hmatches : MatchesAt lines spec first :=
      ⟨lines[first], List.getElem?_eq_getElem hlt, hmatcher⟩
    -- the last line lies in the first window, and no window reaches it
    have hlast : lines.length - 1 ∈ keptIndices lines spec := by
      refine (hwindows.mem_iff _).mpr ⟨by omega, first, hmatches, ?_⟩
      simp only [usizeBound] at hover
      omega
    obtain ⟨index, hindex, -, hhigh⟩ := (mem_keptIndices _).mp hlast
    have hle : first ≤ index := by
      by_contra hbefore
      obtain ⟨line, hline, haccepts⟩ := hindex
      obtain ⟨hbound, rfl⟩ := List.getElem?_eq_some_iff.mp hline
      exact hearlier index (by omega) haccepts
    have hbound := hindex.lt_length
    have hsum : wrappingAdd index spec.around = index + spec.around - usizeBound := by
      rw [wrappingAdd, Nat.mod_eq_sub_mod (by omega), Nat.mod_eq_of_lt]
      simp only [usizeBound] at *
      omega
    rw [hsum] at hhigh
    omega
  · intro hfirst
    have hkept : ∀ kept, kept ∈ keptIndices lines spec ↔
        kept < lines.length ∧ ∃ index, MatchesAt lines spec index ∧
          ((index : ℤ) - kept).natAbs ≤ spec.around := by
      intro kept
      rw [mem_keptIndices]
      constructor
      · rintro ⟨index, hindex, hlow, hhigh⟩
        have hbound := hindex.lt_length
        have hle := hwrap index
        exact ⟨by omega, index, hindex, by omega⟩
      · rintro ⟨hlt, index, hindex, hdistance⟩
        by_cases hfits : index + spec.around < usizeBound
        · refine ⟨index, hindex, by omega, ?_⟩
          rw [wrappingAdd, Nat.mod_eq_of_lt hfits]
          omega
        · have hbound := hindex.lt_length
          obtain ⟨line, hline, haccepts⟩ := hindex
          obtain ⟨first, hfound⟩ := Option.isSome_iff_exists.mp
            (List.findIdx?_isSome.trans
              (List.any_eq_true.mpr ⟨line, List.mem_of_getElem? hline, haccepts⟩))
          obtain ⟨hfirstLt, hmatcher, -⟩ := List.findIdx?_eq_some_iff_getElem.mp hfound
          have hsum := hfirst first hfound
          refine ⟨first, ⟨lines[first], List.getElem?_eq_getElem hfirstLt, hmatcher⟩, ?_, ?_⟩
          · simp only [usizeBound] at *
            omega
          · rw [wrappingAdd, Nat.mod_eq_of_lt hsum]
            simp only [usizeBound] at *
            omega
    refine ⟨pairwise_sortDedup _, hkept, fun index hindex => ?_, ?_⟩
    · exact (hkept index).mpr ⟨hindex.lt_length, index, hindex, by omega⟩
    · exact gaps_matchedCandidates startLine [] _ (pairwise_sortDedup _)

end Windows

/-- One line around a match. -/
theorem keepsWindows_one : KeepsWindows ["a", "b", "c"] ⟨(· == "b"), 1⟩ 1 3 :=
  (keepsWindows_iff (by decide) (by decide) 1 3).mpr (by decide)

/-- The greatest distance: the window of the second line ends at the first, and the
matching line is lost. -/
theorem widest_window_loses_match :
    keptIndices ["a", "b"] ⟨(· == "b"), 2 ^ 64 - 1⟩ = [0] ∧
      ¬KeepsWindows ["a", "b"] ⟨(· == "b"), 2 ^ 64 - 1⟩ 1 2 := by
  have hkept : keptIndices ["a", "b"] ⟨(· == "b"), 2 ^ 64 - 1⟩ = [0] := by decide
  refine ⟨hkept, fun hwindows => ?_⟩
  have hmatching := hwindows.matching_kept 1 ⟨"b", rfl, by decide⟩
  rw [hkept] at hmatching
  cases hmatching with
  | tail _ hrest => cases hrest

end Ktsense.Core
