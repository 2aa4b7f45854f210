import Ktsense.Core.Outline
import Ktsense.Core.RenderContext
import Ktsense.Foundation.Lines

/-!
# Documents written line by line

A document that is a list of lines, each with its line break, has the line breaks of
its template and no other unsafe character exactly when every line is safe.
-/

namespace Ktsense.Core

open Ktsense.Foundation

@[simp]
theorem safe_repr (number : ℕ) : Safe number.repr := safe_toString number

theorem safe_pluralize (count : ℕ) {singular : String} (hsingular : Safe singular) :
    Safe (pluralize count singular) := by
  have hcounted : Safe (toString count ++ " " ++ singular) := by
    rw [safe_append, safe_append]
    exact ⟨⟨safe_toString count, by decide⟩, hsingular⟩
  rw [pluralize]
  apply safe_ite hcounted
  rw [safe_append]
  exact ⟨hcounted, by decide⟩

theorem safe_intercalate_iff {separator : String} (hseparator : Safe separator)
    (texts : List String) : Safe (separator.intercalate texts) ↔ AllSafe texts := by
  constructor
  · intro hsafe text htext letter hletter
    exact hsafe letter ((piece_within_intercalate separator htext).subset hletter)
  · exact safe_intercalate hseparator

theorem safe_trim {text : String} (htext : Safe text) :
    Safe (String.ofList (trim text.toList)) := by
  intro letter hletter
  rw [String.toList_ofList, trim, List.mem_reverse] at hletter
  have hreversed := (List.dropWhile_subset _) hletter
  rw [List.mem_reverse] at hreversed
  exact htext letter ((List.dropWhile_subset _) hreversed)

theorem allSafe_flatMap {α : Type*} {items : List α} {lines : α → List String}
    (hlines : ∀ item ∈ items, AllSafe (lines item)) : AllSafe (items.flatMap lines) := by
  intro line hline
  obtain ⟨item, hitem, hmem⟩ := List.mem_flatMap.1 hline
  exact hlines item hitem line hmem

/-! ## Line breaks -/

/-- The number of unsafe characters of a text. -/
def unsafeCount (text : String) : ℕ := (text.toList.filter isUnsafeInOutput).length

theorem unsafeCount_append (left right : String) :
    unsafeCount (left ++ right) = unsafeCount left + unsafeCount right := by
  rw [unsafeCount, String.toList_append, List.filter_append, List.length_append]
  rfl

theorem Breaks.unsafeCount_eq {text : String} {count : ℕ} (hbreaks : Breaks text count) :
    unsafeCount text = count := by
  rw [unsafeCount, hbreaks, List.length_replicate]

theorem breaks_zero_iff (text : String) : Breaks text 0 ↔ Safe text := by
  rw [Breaks, List.replicate_zero, List.filter_eq_nil_iff]
  simp only [Safe, Bool.not_eq_true]

/-- Where no part has fewer unsafe characters than it should, no part has more. -/
theorem Breaks.split {left right : String} {leftCount rightCount : ℕ}
    (hleft : leftCount ≤ unsafeCount left) (hright : rightCount ≤ unsafeCount right)
    (hbreaks : Breaks (left ++ right) (leftCount + rightCount)) :
    Breaks left leftCount ∧ Breaks right rightCount := by
  have htotal := hbreaks.unsafeCount_eq
  rw [unsafeCount_append] at htotal
  rw [Breaks, String.toList_append, List.filter_append, List.append_eq_replicate_iff]
    at hbreaks
  have hleftCount : (left.toList.filter isUnsafeInOutput).length = leftCount := by
    rw [← unsafeCount]
    omega
  have hrightCount : (right.toList.filter isUnsafeInOutput).length = rightCount := by
    rw [← unsafeCount]
    omega
  rw [hleftCount, hrightCount] at hbreaks
  exact hbreaks.2

theorem length_le_unsafeCount_unlines (lines : List String) :
    lines.length ≤ unsafeCount (unlines lines) := by
  induction lines with
  | nil => exact Nat.zero_le _
  | cons line rest ih =>
      rw [unlines_cons, unsafeCount_append, unsafeCount_append,
        breaks_newline.unsafeCount_eq, List.length_cons]
      omega

/-- The unsafe characters of a document are the line breaks of its lines exactly when
no line holds one. -/
theorem breaks_unlines_iff (lines : List String) :
    Breaks (unlines lines) lines.length ↔ AllSafe lines := by
  induction lines with
  | nil => simp [breaks_zero_iff]
  | cons line rest ih =>
      rw [unlines_cons, List.length_cons, Nat.add_comm, allSafe_cons, ← ih]
      constructor
      · intro hbreaks
        have hline : 1 ≤ unsafeCount (line ++ "\n") := by
          rw [unsafeCount_append, breaks_newline.unsafeCount_eq]
          omega
        have hparts := hbreaks.split hline (length_le_unsafeCount_unlines rest)
        have hfront : Breaks (line ++ "\n") (0 + 1) := hparts.1
        have hsplit := hfront.split (Nat.zero_le _) breaks_newline.unsafeCount_eq.ge
        exact ⟨(breaks_zero_iff line).1 hsplit.1, hparts.2⟩
      · intro hsafe
        exact hsafe.1.line.append hsafe.2

/-- Safe lines are read as they were written. -/
theorem flatMap_textLines_of_allSafe {lines : List String} (hsafe : AllSafe lines) :
    (lines.flatMap fun line => textLines (line ++ "\n")) = lines := by
  induction lines with
  | nil => rfl
  | cons line rest ih =>
      have hline := (allSafe_cons line rest).1 hsafe
      have hreturn : line.toList.getLast? ≠ some '\r' := by
        intro hlast
        have hsafeReturn := hline.1 '\r' (List.mem_of_getLast? hlast)
        revert hsafeReturn
        decide
      rw [List.flatMap_cons, textLines_of_clean hline.1.newline_notMem hreturn, ih hline.2,
        List.singleton_append]

/-! ## Fenced text -/

/-- The lines of a fenced text; an empty one is an empty line. -/
def fencedLines (language : String) (lines : List String) : List String :=
  let fence := fenceFor ("\n".intercalate lines)
  ["", fence ++ language] ++ (if lines = [] then [""] else lines) ++ [fence]

theorem fenced_eq (language : String) (lines : List String) :
    fenced language lines = unlines (fencedLines language lines) := by
  have hbody : "\n".intercalate lines ++ "\n" =
      unlines (if lines = [] then [""] else lines) := by
    by_cases hnil : lines = []
    · rw [if_pos hnil, hnil]
      rfl
    · rw [if_neg hnil, unlines_eq_intercalate hnil]
  rw [fencedLines, unlines_append, unlines_append, ← hbody, ← String.toList_inj]
  simp [fenced]

theorem allSafe_fencedLines {language : String} {lines : List String}
    (hlanguage : Safe language) (hlines : AllSafe lines) :
    AllSafe (fencedLines language lines) := by
  have hfence := safe_fenceFor ("\n".intercalate lines)
  rw [fencedLines, allSafe_append, allSafe_append]
  refine ⟨⟨by simp [hfence, hlanguage], ?_⟩, by simp [hfence]⟩
  exact allSafe_ite (by simp) hlines

/-- The line breaks of a document are its template's, it holds no other control
character and no override, and the texts in its fences cannot close them. -/
structure InjectionSafe (document : String) (lines : ℕ)
    (fences : List (String × List String)) : Prop where
  breaks : Breaks document lines
  printed : ∀ language texts, (language, texts) ∈ fences →
    (fenced language texts).toList <:+: document.toList
  unclosed : ∀ language texts, (language, texts) ∈ fences → ∀ count,
    List.replicate count (Char.ofNat 0x60) <:+: ("\n".intercalate texts).toList →
      count < (fenceFor ("\n".intercalate texts)).length

theorem injectionSafe_iff {document : String} {lines : ℕ}
    {fences : List (String × List String)}
    (hprinted : ∀ language texts, (language, texts) ∈ fences →
      (fenced language texts).toList <:+: document.toList) :
    InjectionSafe document lines fences ↔ Breaks document lines :=
  ⟨InjectionSafe.breaks, fun hbreaks =>
    ⟨hbreaks, hprinted, fun _ _ _ _ hrun => lt_length_fenceFor hrun⟩⟩

end Ktsense.Core
