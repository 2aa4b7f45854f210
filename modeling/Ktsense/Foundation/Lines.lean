import Ktsense.Foundation.Text

/-!
# Lines of a text

A document written line by line, and the lines that `str::lines` reads from a text.
-/

namespace Ktsense.Foundation

/-- Every line with its line break. -/
def unlines (lines : List String) : String :=
  String.join (lines.map fun line => line ++ "\n")

@[simp]
theorem unlines_nil : unlines [] = "" := rfl

@[simp]
theorem unlines_cons (line : String) (lines : List String) :
    unlines (line :: lines) = line ++ "\n" ++ unlines lines := by
  rw [unlines, List.map_cons, String.join_cons]
  rfl

@[simp]
theorem unlines_append (left right : List String) :
    unlines (left ++ right) = unlines left ++ unlines right := by
  induction left with
  | nil => simp
  | cons line rest ih => simp [ih, String.append_assoc]

theorem unlines_map {A : Type*} (items : List A) (line : A → String) :
    unlines (items.map line) = String.join (items.map fun item => line item ++ "\n") := by
  rw [unlines, List.map_map]
  rfl

theorem unlines_flatMap {A : Type*} (items : List A) (lines : A → List String) :
    unlines (items.flatMap lines) =
      String.join (items.map fun item => unlines (lines item)) := by
  induction items with
  | nil => rfl
  | cons item rest ih =>
      rw [List.flatMap_cons, unlines_append, ih, List.map_cons, String.join_cons]

/-- Lines joined by line breaks, and one after the last. -/
theorem unlines_eq_intercalate {lines : List String} (hne : lines ≠ []) :
    unlines lines = "\n".intercalate lines ++ "\n" := by
  induction lines with
  | nil => exact absurd rfl hne
  | cons line rest ih =>
      cases rest with
      | nil => simp
      | cons next rest =>
          rw [unlines_cons, ih (List.cons_ne_nil next rest),
            String.intercalate_cons_cons]
          simp only [String.append_assoc]

/-! ## Reading lines -/

/-- A line without the carriage return before its line feed. -/
def stripReturn (letters : List Char) : List Char :=
  if letters.getLast? = some '\r' then letters.dropLast else letters

theorem stripReturn_cases (letters : List Char) :
    letters.getLast? ≠ some '\r' ∧ stripReturn letters = letters ∨
      letters = stripReturn letters ++ ['\r'] := by
  rw [stripReturn]
  split_ifs with hreturn
  · obtain ⟨front, rfl⟩ := List.getLast?_eq_some_iff.mp hreturn
    exact .inr (by rw [List.dropLast_concat])
  · exact .inl ⟨hreturn, rfl⟩

theorem stripReturn_prefix (letters : List Char) : stripReturn letters <+: letters := by
  rw [stripReturn]
  split_ifs
  · exact List.dropLast_prefix letters
  · exact List.prefix_rfl

/-- `str::lines`: what follows the last line break is a line unless it is empty. -/
def textLines (text : String) : List String :=
  let pieces := text.toList.splitOn '\n'
  let last := pieces.getLastD []
  pieces.dropLast.map (fun piece => String.ofList (stripReturn piece)) ++
    if last = [] then [] else [String.ofList last]

/-- The lines of a text that ends with a line break. -/
theorem textLines_line (text : String) :
    textLines (text ++ "\n") =
      (text.toList.splitOn '\n').map fun piece => String.ofList (stripReturn piece) := by
  have hpieces : (text ++ "\n").toList.splitOn '\n' = text.toList.splitOn '\n' ++ [[]] := by
    have hletters : (text ++ "\n").toList = text.toList ++ ['\n'] := by simp
    rw [hletters, List.splitOn_append_cons_self]
    rfl
  rw [textLines, hpieces]
  simp

theorem textLines_append (left right : String) :
    textLines (left ++ "\n" ++ right) = textLines (left ++ "\n") ++ textLines right := by
  have hpieces : (left ++ "\n" ++ right).toList.splitOn '\n' =
      left.toList.splitOn '\n' ++ right.toList.splitOn '\n' := by
    have hletters : (left ++ "\n" ++ right).toList = left.toList ++ '\n' :: right.toList := by
      simp
    rw [hletters, List.splitOn_append_cons_self]
  have hne := List.splitOn_ne_nil '\n' right.toList
  rw [textLines_line, textLines, textLines, hpieces]
  rw [List.dropLast_append_of_ne_nil hne, List.map_append, List.append_assoc,
    List.getLastD_eq_getLast?, List.getLastD_eq_getLast?,
    List.getLast?_append_of_ne_nil _ hne]

/-- What is written line by line is read line by line. -/
theorem textLines_unlines (lines : List String) :
    textLines (unlines lines) = lines.flatMap fun line => textLines (line ++ "\n") := by
  induction lines with
  | nil => rfl
  | cons line rest ih => rw [unlines_cons, textLines_append, ih, List.flatMap_cons]

/-- A line without a line break that ends in no carriage return is read as it is. -/
theorem textLines_of_clean {line : String} (hbreak : '\n' ∉ line.toList)
    (hreturn : line.toList.getLast? ≠ some '\r') : textLines (line ++ "\n") = [line] := by
  rw [textLines_line, List.splitOn_eq_singleton hbreak, List.map_singleton, stripReturn,
    if_neg hreturn, String.ofList_toList]

/-! ## Line after line -/

/-- A text is its last line, or a line and its break before another text. -/
theorem lines_induction {motive : List Char → Prop}
    (last : ∀ text, '\n' ∉ text → motive text)
    (line : ∀ first rest, '\n' ∉ first → motive rest → motive (first ++ '\n' :: rest))
    (text : List Char) : motive text := by
  induction hlength : text.length using Nat.strongRecOn generalizing text with
  | ind length ih =>
      by_cases hbreak : '\n' ∈ text
      · obtain ⟨first, rest, rfl, hfirst⟩ := List.eq_append_cons_of_mem hbreak
        refine line first rest hfirst (ih rest.length ?_ rest rfl)
        rw [← hlength, List.length_append, List.length_cons]
        omega
      · exact last text hbreak

theorem textLines_last {text : List Char} (hbreak : '\n' ∉ text) :
    textLines (String.ofList text) = if text = [] then [] else [String.ofList text] := by
  rw [textLines, String.toList_ofList, List.splitOn_eq_singleton hbreak]
  rfl

theorem textLines_cons {first : List Char} (hfirst : '\n' ∉ first) (rest : List Char) :
    textLines (String.ofList (first ++ '\n' :: rest)) =
      String.ofList (stripReturn first) :: textLines (String.ofList rest) := by
  have htext : String.ofList (first ++ '\n' :: rest) =
      String.ofList first ++ "\n" ++ String.ofList rest := by
    apply String.toList_inj.mp
    simp
  rw [htext, textLines_append, textLines_line, String.toList_ofList,
    List.splitOn_eq_singleton hfirst]
  rfl

theorem rtakeWhile_append_of_neg {A : Type*} {keeps : A → Bool} {stop : A}
    (hstop : ¬keeps stop) (before behind : List A) :
    (before ++ stop :: behind).rtakeWhile keeps = behind.rtakeWhile keeps := by
  induction behind using List.reverseRecOn with
  | nil => exact List.rtakeWhile_concat_neg keeps before stop hstop
  | append_singleton behind last ih =>
      rw [← List.cons_append, ← List.append_assoc, List.rtakeWhile_concat,
        List.rtakeWhile_concat, ih]

end Ktsense.Foundation
