import Ktsense.Core.Render

/-!
# The outline document

`render_markdown`: a path heading, the package and the skeleton in a fence.
Every string of a skeleton is lifted from source.  None of them can put a
control character or a bidirectional override into the document, so the line
breaks in it are those of the writer, and none can close the fence.
-/

namespace Ktsense.Core

open Ktsense.Foundation

mutual

def subtreeSize : Declaration → ℕ
  | { children, .. } => 1 + subtreeSizes children

def subtreeSizes : List Declaration → ℕ
  | [] => 0
  | declaration :: rest => subtreeSize declaration + subtreeSizes rest

end

mutual

def hiddenWithin : Declaration → ℕ
  | declaration@{ children, .. } =>
      if isVisibleApi declaration.visibility then hiddenAmong children
      else subtreeSize declaration

def hiddenAmong : List Declaration → ℕ
  | [] => 0
  | declaration :: rest => hiddenWithin declaration + hiddenAmong rest

end

def hiddenDeclarationCount (declarations : List Declaration)
    (options : RenderOptions) : ℕ :=
  if options.includePrivate then 0 else hiddenAmong declarations

mutual

def annotationsWithin (options : RenderOptions) : Declaration → ℕ
  | declaration@{ children, .. } =>
      if !isVisibleApi declaration.visibility && !options.includePrivate then 0
      else declaration.annotations.length + annotationsAmong options children

def annotationsAmong (options : RenderOptions) : List Declaration → ℕ
  | [] => 0
  | declaration :: rest =>
      annotationsWithin options declaration + annotationsAmong options rest

end

def hiddenAnnotationCount (declarations : List Declaration)
    (options : RenderOptions) : ℕ :=
  if options.includeAnnotations then 0 else annotationsAmong options declarations

/-- `append_hidden_notice`: what it appends. -/
def hiddenNotice (hidden : ℕ) : String :=
  if hidden = 0 then ""
  else
    let noun := if hidden = 1 then "declaration" else "declarations"
    toString hidden ++ " private or internal " ++ noun ++
      " hidden; pass --private to include them.\n"

/-- `append_annotation_notice`: what it appends. -/
def annotationNotice (hidden : ℕ) : String :=
  if hidden = 0 then ""
  else
    let noun := if hidden = 1 then "annotation" else "annotations"
    toString hidden ++ " " ++ noun ++
      " hidden; pass --annotations to include them.\n"

def renderMarkdown (file : FileSkeleton) (options : RenderOptions) : String :=
  let body := renderSkeleton file options
  let package :=
    match file.package with
    | some package => "\npackage " ++ neutralize package ++ "\n"
    | none => ""
  let notices :=
    hiddenNotice (hiddenDeclarationCount file.declarations options) ++
      annotationNotice (hiddenAnnotationCount file.declarations options)
  "## " ++ neutralize file.path ++ "\n" ++ package ++
    if body = "" then "\nNo public declarations.\n" ++ notices
    else
      let fence := fenceFor body
      "\n" ++ fence ++ "kotlin\n" ++ body ++ "\n" ++ fence ++ "\n" ++ notices

/-! ## Safe text -/

/-- No control character and no bidirectional override. -/
def Safe (text : String) : Prop :=
  ∀ letter ∈ text.toList, isUnsafeInOutput letter = false

instance (text : String) : Decidable (Safe text) :=
  decidable_of_iff (text.toList.all fun letter => !isUnsafeInOutput letter) (by
    simp only [Safe, List.all_eq_true, Bool.not_eq_true'])

@[simp]
theorem safe_append (left right : String) :
    Safe (left ++ right) ↔ Safe left ∧ Safe right := by
  simp only [Safe, String.toList_append, List.mem_append, or_imp, forall_and]

@[simp]
theorem safe_empty : Safe "" := by decide

theorem safe_ite {condition : Prop} [Decidable condition] {left right : String}
    (hleft : Safe left) (hright : Safe right) :
    Safe (if condition then left else right) := by
  split_ifs
  · exact hleft
  · exact hright

/-- Lines, or words, none of which holds an unsafe character. -/
def AllSafe (texts : List String) : Prop := ∀ text ∈ texts, Safe text

@[simp]
theorem allSafe_nil : AllSafe [] := List.forall_mem_nil _

@[simp]
theorem allSafe_cons (text : String) (rest : List String) :
    AllSafe (text :: rest) ↔ Safe text ∧ AllSafe rest := List.forall_mem_cons

@[simp]
theorem allSafe_append (left right : List String) :
    AllSafe (left ++ right) ↔ AllSafe left ∧ AllSafe right := List.forall_mem_append

theorem allSafe_map {α : Type*} {items : List α} {text : α → String}
    (htext : ∀ item, Safe (text item)) : AllSafe (items.map text) :=
  List.forall_mem_map.mpr fun item _ => htext item

theorem allSafe_ite {condition : Prop} [Decidable condition]
    {left right : List String} (hleft : AllSafe left) (hright : AllSafe right) :
    AllSafe (if condition then left else right) := by
  split_ifs
  · exact hleft
  · exact hright

theorem safe_intercalate {separator : String} {texts : List String}
    (hseparator : Safe separator) (htexts : AllSafe texts) :
    Safe (separator.intercalate texts) := by
  induction texts with
  | nil => exact safe_empty
  | cons text rest ih =>
      rw [allSafe_cons] at htexts
      cases rest with
      | nil => simpa using htexts.1
      | cons next rest =>
          rw [String.intercalate_cons_cons, safe_append, safe_append]
          exact ⟨⟨htexts.1, hseparator⟩, ih htexts.2⟩

theorem safe_join {texts : List String} (htexts : AllSafe texts) :
    Safe (String.join texts) := by
  induction texts with
  | nil => exact safe_empty
  | cons text rest ih =>
      rw [allSafe_cons] at htexts
      rw [String.join_cons, safe_append]
      exact ⟨htexts.1, ih htexts.2⟩

theorem safe_trimEnd {text : String} (htext : Safe text) : Safe (trimEnd text) := by
  intro letter hletter
  rw [trimEnd, String.toList_ofList] at hletter
  exact htext letter ((List.rdropWhile_prefix _ _).subset hletter)

/-- The codes of the characters that are replaced. -/
def unsafeCodes : List ℕ :=
  List.range 0x20 ++ List.range' 0x7F 0x21 ++ bidirectionalOverrides

theorem mem_unsafeCodes {letter : Char} (hreplaced : isUnsafeInOutput letter = true) :
    letter.toNat ∈ unsafeCodes := by
  simp only [isUnsafeInOutput, isControl, Bool.or_eq_true, Bool.and_eq_true,
    decide_eq_true_eq, List.contains_iff_mem] at hreplaced
  simp only [unsafeCodes, List.mem_append, List.mem_range, List.mem_range'_1]
  rcases hreplaced with hcontrol | hoverride
  · exact Or.inl (by omega)
  · exact Or.inr hoverride

/-- A marker is made of hexadecimal digits. -/
theorem safe_hexMarker {code : ℕ} (hcode : code ∈ unsafeCodes) :
    (hexMarker code).all (fun letter => !isUnsafeInOutput letter) = true := by
  have hall : unsafeCodes.all (fun code =>
      (hexMarker code).all fun letter => !isUnsafeInOutput letter) = true := by
    decide
  exact List.all_eq_true.mp hall code hcode

theorem safe_marker : Safe "<U+" ∧ Safe ">" := by decide

@[simp]
theorem safe_neutralize (text : String) : Safe (neutralize text) := by
  intro letter hletter
  rw [neutralize, String.toList_ofList, List.mem_flatMap] at hletter
  obtain ⟨original, -, hletter⟩ := hletter
  rw [neutralizeChar] at hletter
  split_ifs at hletter with hreplaced
  · simp only [List.mem_append] at hletter
    rcases hletter with (hletter | hletter) | hletter
    · exact safe_marker.1 letter hletter
    · have hdigits := safe_hexMarker (mem_unsafeCodes hreplaced)
      simpa using List.all_eq_true.mp hdigits letter hletter
    · exact safe_marker.2 letter hletter
  · rw [List.mem_singleton] at hletter
    rw [hletter]
    simpa using hreplaced

theorem neutralize_append (left right : String) :
    neutralize (left ++ right) = neutralize left ++ neutralize right := by
  rw [neutralize, String.toList_append, List.flatMap_append, String.ofList_append, neutralize,
    neutralize]

theorem neutralize_safe {text : String} (hsafe : Safe text) : neutralize text = text := by
  have hletters : text.toList.flatMap neutralizeChar = text.toList.flatMap ([·]) := by
    apply List.flatMap_congr
    intro letter hletter
    rw [neutralizeChar, hsafe letter hletter, if_neg Bool.false_ne_true]
  rw [neutralize, hletters, List.flatMap_singleton', String.ofList_toList]

theorem safe_toString (number : ℕ) : Safe (toString number) := by
  intro letter hletter
  have hten : decimalDigits.all (fun digit => !isUnsafeInOutput digit) = true := by
    decide
  simpa using of_mem_toString hten hletter

/-- The texts of the writer's own that stand between pieces of source. -/
@[simp]
theorem safe_punctuation :
    Safe " " ∧ Safe "." ∧ Safe ", " ∧ Safe ";" ∧ Safe ": " ∧ Safe " : " ∧
      Safe " = " ∧ Safe "(" ∧ Safe ")" ∧ Safe " \x7b" ∧ Safe " \x7b " ∧
      Safe " \x7d" ∧ Safe "\x7d" ∧ Safe "/** " ∧ Safe " */" := by
  decide

@[simp]
theorem safe_words :
    Safe "var " ∧ Safe "val " ∧ Safe " where " ∧ Safe " constructor" ∧
      Safe "  # L" ∧ Safe indent ∧ Safe inferredTypeMarker ∧
      Safe truncationNotice := by
  decide

@[simp]
theorem safe_partialNotice : Safe partialNotice := by
  unfold partialNotice
  exact (safe_append _ _).mpr ⟨by decide, by decide⟩

/-- The keywords a signature can begin with. -/
def keywords : List String :=
  ["", "class", "interface", "object", "fun", "val", "var", "typealias",
    "internal", "protected", "private", "expect", "actual", "final", "open",
    "abstract", "sealed", "const", "external", "override", "lateinit", "tailrec",
    "vararg", "suspend", "inner", "enum", "annotation", "companion", "inline",
    "value", "infix", "operator", "data"]

theorem safe_of_mem_keywords {text : String} (htext : text ∈ keywords) : Safe text := by
  have hall : keywords.all (fun text => decide (Safe text)) = true := by
    decide
  exact of_decide_eq_true (List.all_eq_true.mp hall text htext)

@[simp]
theorem safe_visibility_keyword (visibility : Visibility) :
    Safe visibility.keyword := by
  apply safe_of_mem_keywords
  cases visibility <;> simp [Visibility.keyword, keywords]

@[simp]
theorem safe_modifier_keyword (modifier : Modifier) : Safe modifier.keyword := by
  apply safe_of_mem_keywords
  cases modifier <;> simp [Modifier.keyword, keywords]

@[simp]
theorem safe_kind_keyword (kind : DeclKind) : Safe kind.keyword := by
  apply safe_of_mem_keywords
  cases kind <;> simp [DeclKind.keyword, keywords]

/-! ## The signature line -/

theorem safe_keywordPrefix (declaration : Declaration) :
    Safe (keywordPrefix declaration) := by
  rw [keywordPrefix]
  apply safe_ite safe_empty
  rw [safe_append]
  refine ⟨safe_intercalate (by simp) ?_, by simp⟩
  have htypeParameters (parameters : Option String) :
      AllSafe (parameters.map neutralize).toList := by
    cases parameters <;> simp
  simp only [allSafe_append]
  exact ⟨⟨⟨allSafe_ite (by simp) (by simp), allSafe_map safe_modifier_keyword⟩,
    allSafe_ite (by simp) (by simp)⟩, htypeParameters _⟩

theorem safe_nameSegment (declaration : Declaration) :
    Safe (nameSegment declaration) := by
  rw [nameSegment]
  cases declaration.receiver <;> simp

theorem safe_renderParameter (parameter : Parameter) :
    Safe (renderParameter parameter) := by
  simp only [renderParameter, safe_append]
  have hvararg : Safe (if parameter.vararg then Modifier.vararg.keyword ++ " " else "") :=
    safe_ite (by simp) safe_empty
  refine ⟨⟨⟨⟨⟨?_, hvararg⟩, by simp⟩, by simp⟩, by simp⟩, ?_⟩
  · cases parameter.property with
    | none => exact safe_empty
    | some property =>
        rw [safe_append]
        exact ⟨safe_ite (by simp) safe_empty, safe_ite (by simp) (by simp)⟩
  · cases parameter.default <;> simp

theorem safe_parameterSegment (declaration : Declaration) :
    Safe (parameterSegment declaration) := by
  have hkeyword : Safe (constructorKeyword declaration) := by
    rw [constructorKeyword]
    cases declaration.constructorVisibility with
    | none => exact safe_empty
    | some visibility => exact safe_ite (by simp) safe_empty
  have hparameters :
      Safe (", ".intercalate (declaration.parameters.map renderParameter)) :=
    safe_intercalate (by simp) (allSafe_map safe_renderParameter)
  rw [parameterSegment]
  apply safe_ite safe_empty
  simp only [safe_append]
  exact ⟨⟨⟨hkeyword, by simp⟩, hparameters⟩, by simp⟩

theorem safe_typeSegment (declaration : Declaration) :
    Safe (typeSegment declaration) := by
  rw [typeSegment]
  cases declaration.returnType with
  | none => exact safe_ite (by simp) safe_empty
  | some typeName =>
      rw [safe_append]
      exact ⟨safe_ite (by simp) (by simp), by simp⟩

theorem safe_supertypeSegment (declaration : Declaration) :
    Safe (supertypeSegment declaration) := by
  rw [supertypeSegment]
  apply safe_ite safe_empty
  rw [safe_append]
  exact ⟨by simp, safe_intercalate (by simp) (allSafe_map safe_neutralize)⟩

theorem safe_constraintSegment (declaration : Declaration) :
    Safe (constraintSegment declaration) := by
  rw [constraintSegment]
  cases declaration.typeConstraints <;> simp

theorem safe_lineSegment (declaration : Declaration) (options : RenderOptions) :
    Safe (lineSegment declaration options) := by
  apply safe_ite _ safe_empty
  rw [safe_append]
  exact ⟨by simp, safe_toString _⟩

theorem safe_headerOf (declaration : Declaration) (options : RenderOptions) :
    Safe (headerOf declaration options) := by
  apply safe_trimEnd
  simp only [safe_append]
  exact ⟨⟨⟨⟨⟨⟨safe_keywordPrefix declaration, safe_nameSegment declaration⟩,
    safe_parameterSegment declaration⟩, safe_typeSegment declaration⟩,
    safe_supertypeSegment declaration⟩, safe_constraintSegment declaration⟩,
    safe_lineSegment declaration options⟩

/-! ## The writer -/

namespace SkeletonWriter

variable (options : RenderOptions)

theorem safe_padding (depth : ℕ) : Safe (padding depth) := by
  apply safe_join
  intro text htext
  rw [List.eq_of_mem_replicate htext]
  simp

theorem safe_padded {depth : ℕ} {text : String} (htext : Safe text) :
    Safe (padding depth ++ text) := by
  rw [safe_append]
  exact ⟨safe_padding depth, htext⟩

theorem allSafe_docLines (declaration : Declaration) (depth : ℕ) :
    AllSafe (docLines options declaration depth) := by
  rw [docLines]
  split
  · simp [safe_padding]
  · exact allSafe_nil

theorem allSafe_annotationLines (declaration : Declaration) (depth : ℕ) :
    AllSafe (annotationLines options declaration depth) :=
  allSafe_ite (allSafe_map fun annotation => safe_padded (safe_neutralize annotation))
    allSafe_nil

theorem safe_inlineForm {header inlined : String} {members : List Declaration}
    {indentWidth : ℕ} (hheader : Safe header)
    (hinlined : inlineForm options header members indentWidth = some inlined) :
    Safe inlined := by
  unfold inlineForm at hinlined
  split at hinlined
  · rename_i only
    simp only [Option.ite_none_left_eq_some, Option.ite_none_right_eq_some,
      Option.some.injEq] at hinlined
    obtain ⟨-, -, rfl⟩ := hinlined
    simp [hheader, safe_headerOf]
  · simp at hinlined

theorem safe_joinNames (declarations : List Declaration) :
    Safe (joinNames declarations) :=
  safe_intercalate (by simp) (allSafe_map fun _ => safe_neutralize _)

theorem allSafe_memberLines {members : List (Declaration × List String)}
    (hmembers : ∀ member ∈ members, AllSafe member.2) (depth : ℕ) :
    AllSafe (memberLines members depth) := by
  simp only [memberLines, allSafe_append]
  constructor
  · apply allSafe_ite allSafe_nil
    simp only [allSafe_cons, allSafe_nil, and_true, safe_append]
    exact ⟨⟨safe_padding depth, safe_joinNames _⟩, safe_ite (by simp) safe_empty⟩
  · intro line hline
    obtain ⟨member, hmember, hline⟩ := List.mem_flatMap.mp hline
    exact hmembers member (List.mem_of_mem_drop hmember) line hline

theorem allSafe_containerLines {members : List (Declaration × List String)}
    (hmembers : ∀ member ∈ members, AllSafe member.2)
    (declaration : Declaration) (depth : ℕ) :
    AllSafe (containerLines options declaration members depth) := by
  have hheader := safe_headerOf declaration options
  simp only [containerLines]
  apply allSafe_ite (by simp [safe_padding, hheader])
  apply allSafe_ite (by simp [truncationLine, safe_padding, hheader])
  split
  · rename_i inlined hinlined
    simp [safe_padding, safe_inlineForm options hheader hinlined]
  · simp [safe_padding, hheader, allSafe_memberLines hmembers]

mutual

theorem allSafe_write : (declaration : Declaration) → (depth : ℕ) →
    AllSafe (write options declaration depth)
  | declaration@{ children, .. }, depth => by
      have hmembers := allSafe_writeEach children (depth + 1)
      rw [write]
      apply allSafe_ite _ allSafe_nil
      simp only [allSafe_append]
      refine ⟨⟨allSafe_docLines options _ depth, allSafe_annotationLines options _ depth⟩,
        allSafe_containerLines options ?_ _ depth⟩
      intro member hmember
      exact hmembers member (List.mem_of_mem_filter hmember)

theorem allSafe_writeEach : (declarations : List Declaration) → (depth : ℕ) →
    ∀ member ∈ writeEach options declarations depth, AllSafe member.2
  | [], _ => by simp [writeEach]
  | declaration :: rest, depth => by
      rw [writeEach, List.forall_mem_cons]
      exact ⟨allSafe_write declaration depth, allSafe_writeEach rest depth⟩

end

theorem allSafe_writeAll (declarations : List Declaration) (depth : ℕ) :
    AllSafe (writeAll options declarations depth) := by
  intro line hline
  obtain ⟨declaration, -, hline⟩ := List.mem_flatMap.mp hline
  exact allSafe_write options declaration depth line hline

end SkeletonWriter

/-- The lines pushed for a file. -/
def skeletonLines (file : FileSkeleton) (options : RenderOptions) : List String :=
  (if file.partialOutline then [partialNotice] else []) ++
    SkeletonWriter.writeAll options file.declarations 0 ++
    (if file.truncated then [SkeletonWriter.truncationLine 0] else [])

theorem renderSkeleton_eq (file : FileSkeleton) (options : RenderOptions) :
    renderSkeleton file options = "\n".intercalate (skeletonLines file options) := rfl

theorem allSafe_skeletonLines (file : FileSkeleton) (options : RenderOptions) :
    AllSafe (skeletonLines file options) := by
  simp only [skeletonLines, allSafe_append]
  exact ⟨⟨allSafe_ite (by simp) allSafe_nil,
    SkeletonWriter.allSafe_writeAll options file.declarations 0⟩,
    allSafe_ite
      (by simp [SkeletonWriter.truncationLine, SkeletonWriter.safe_padding]) allSafe_nil⟩

/-! ## Line breaks -/

/-- The unsafe characters of a text are `count` line breaks. -/
def Breaks (text : String) (count : ℕ) : Prop :=
  text.toList.filter isUnsafeInOutput = List.replicate count '\n'

theorem Safe.breaks {text : String} (htext : Safe text) : Breaks text 0 := by
  rw [Breaks, List.replicate_zero, List.filter_eq_nil_iff]
  intro letter hletter
  rw [htext letter hletter]
  exact Bool.false_ne_true

theorem breaks_newline : Breaks "\n" 1 := by
  rw [Breaks]
  decide

theorem Breaks.append {left right : String} {leftCount rightCount : ℕ}
    (hleft : Breaks left leftCount) (hright : Breaks right rightCount) :
    Breaks (left ++ right) (leftCount + rightCount) := by
  rw [Breaks, String.toList_append, List.filter_append, hleft, hright,
    List.replicate_append_replicate]

theorem Safe.line {text : String} (htext : Safe text) : Breaks (text ++ "\n") 1 :=
  htext.breaks.append breaks_newline

theorem breaks_intercalate {lines : List String} (hlines : AllSafe lines) :
    Breaks ("\n".intercalate lines) (lines.length - 1) := by
  induction lines with
  | nil => exact safe_empty.breaks
  | cons line rest ih =>
      rw [allSafe_cons] at hlines
      cases rest with
      | nil => simpa using hlines.1.breaks
      | cons next rest =>
          rw [String.intercalate_cons_cons]
          have hcount : (line :: next :: rest).length - 1 =
              1 + ((next :: rest).length - 1) := by
            simp only [List.length_cons]
            omega
          rw [hcount]
          exact hlines.1.line.append (ih hlines.2)

/-- No override is a line break, so none is among the unsafe characters. -/
theorem Breaks.no_override {text : String} {count : ℕ} (hbreaks : Breaks text count)
    {letter : Char} (hletter : letter ∈ text.toList) :
    letter.toNat ∉ bidirectionalOverrides := by
  intro hoverride
  have hreplaced : isUnsafeInOutput letter = true := by
    rw [isUnsafeInOutput, Bool.or_eq_true]
    exact Or.inr (List.contains_iff_mem.mpr hoverride)
  have hmem : letter ∈ text.toList.filter isUnsafeInOutput :=
    List.mem_filter.mpr ⟨hletter, hreplaced⟩
  rw [hbreaks] at hmem
  rw [List.eq_of_mem_replicate hmem] at hoverride
  exact absurd hoverride (by decide)

theorem Breaks.control {text : String} {count : ℕ} (hbreaks : Breaks text count)
    {letter : Char} (hletter : letter ∈ text.toList)
    (hcontrol : isControl letter = true) : letter = '\n' := by
  have hreplaced : isUnsafeInOutput letter = true := by
    rw [isUnsafeInOutput, hcontrol, Bool.true_or]
  have hmem : letter ∈ text.toList.filter isUnsafeInOutput :=
    List.mem_filter.mpr ⟨hletter, hreplaced⟩
  rw [hbreaks] at hmem
  exact List.eq_of_mem_replicate hmem

/-- The lines of a text, the last one unterminated. -/
def linesOf (text : String) : List String :=
  (text.toList.splitOn '\n').map String.ofList

theorem linesOf_append (left right : String) :
    linesOf (left ++ "\n" ++ right) = linesOf left ++ linesOf right := by
  have hletters : (left ++ "\n" ++ right).toList =
      left.toList ++ '\n' :: right.toList := by
    simp
  rw [linesOf, hletters, List.splitOn_append_cons_self, List.map_append]
  rfl

theorem Safe.newline_notMem {text : String} (htext : Safe text) :
    '\n' ∉ text.toList := by
  intro hmem
  have hreplaced := htext '\n' hmem
  revert hreplaced
  decide

theorem Safe.linesOf_eq {text : String} (htext : Safe text) : linesOf text = [text] := by
  rw [linesOf, List.splitOn_eq_singleton htext.newline_notMem]
  simp

/-- Lines that hold no line break are read back. -/
theorem linesOf_intercalate {lines : List String} (hlines : AllSafe lines)
    (hne : lines ≠ []) : linesOf ("\n".intercalate lines) = lines := by
  have hfree : ∀ line ∈ lines.map String.toList, '\n' ∉ line := by
    rw [List.forall_mem_map]
    intro line hline
    exact (hlines line hline).newline_notMem
  have hletters : ("\n".intercalate lines).toList =
      ['\n'].intercalate (lines.map String.toList) := by
    rw [String.toList_intercalate]
    rfl
  rw [linesOf, hletters, List.splitOn_intercalate _ hfree (by simpa using hne),
    List.map_map]
  simp [Function.comp_def]

/-! ## The fence -/

theorem le_longestBacktickRun (letters : List Char) (run longest : ℕ) :
    run ≤ longestBacktickRun letters run longest ∧
      longest ≤ longestBacktickRun letters run longest := by
  induction letters generalizing run longest with
  | nil => exact ⟨le_max_left _ _, le_max_right _ _⟩
  | cons letter rest ih =>
      rw [longestBacktickRun]
      split_ifs
      · exact ⟨(Nat.le_succ run).trans (ih _ _).1, (ih _ _).2⟩
      · exact ⟨(le_max_left _ _).trans (ih _ _).2, (le_max_right _ _).trans (ih _ _).2⟩

/-- A run at the front lengthens the run being read. -/
theorem add_le_longestBacktickRun {letters : List Char} {count : ℕ}
    (hrun : List.replicate count (Char.ofNat 0x60) <+: letters) (run longest : ℕ) :
    run + count ≤ longestBacktickRun letters run longest := by
  induction count generalizing letters run with
  | zero => exact (le_longestBacktickRun letters run longest).1
  | succ count ih =>
      cases letters with
      | nil => simp [List.replicate_succ] at hrun
      | cons letter rest =>
          rw [List.replicate_succ, List.cons_prefix_cons] at hrun
          rw [longestBacktickRun, if_pos hrun.1.symm]
          have hrest := ih hrun.2 (run + 1)
          omega

theorem length_le_longestBacktickRun {letters : List Char} {count : ℕ}
    (hrun : List.replicate count (Char.ofNat 0x60) <:+: letters) (run longest : ℕ) :
    count ≤ longestBacktickRun letters run longest := by
  induction letters generalizing run longest with
  | nil =>
      have hlength := hrun.length_le
      simp only [List.length_replicate, List.length_nil, Nat.le_zero] at hlength
      rw [hlength]
      exact Nat.zero_le _
  | cons letter rest ih =>
      rw [List.infix_cons_iff] at hrun
      rcases hrun with hfront | hrest
      · have := add_le_longestBacktickRun hfront run longest
        omega
      · rw [longestBacktickRun]
        split_ifs
        · exact ih hrest _ _
        · exact ih hrest _ _

/-- No run of backticks of a body is as long as its fence. -/
theorem lt_length_fenceFor {body : String} {count : ℕ}
    (hrun : List.replicate count (Char.ofNat 0x60) <:+: body.toList) :
    count < (fenceFor body).length := by
  have hcount := length_le_longestBacktickRun hrun 0 0
  rw [fenceFor, String.length_ofList, List.length_replicate]
  omega

theorem safe_fenceFor (body : String) : Safe (fenceFor body) := by
  intro letter hletter
  rw [fenceFor, String.toList_ofList] at hletter
  rw [List.eq_of_mem_replicate hletter]
  decide

/-! ## The document -/

/-- The heading and the package. -/
def markdownOpening (file : FileSkeleton) : String :=
  "## " ++ neutralize file.path ++ "\n" ++
    match file.package with
    | some package => "\npackage " ++ neutralize package ++ "\n"
    | none => ""

/-- The two notices. -/
def markdownClosing (file : FileSkeleton) (options : RenderOptions) : String :=
  hiddenNotice (hiddenDeclarationCount file.declarations options) ++
    annotationNotice (hiddenAnnotationCount file.declarations options)

theorem renderMarkdown_empty {file : FileSkeleton} {options : RenderOptions}
    (hempty : renderSkeleton file options = "") :
    renderMarkdown file options = markdownOpening file ++
      ("\nNo public declarations.\n" ++ markdownClosing file options) := by
  unfold renderMarkdown
  simp only [hempty, if_true]
  rfl

theorem renderMarkdown_fenced {file : FileSkeleton} {options : RenderOptions}
    (hbody : renderSkeleton file options ≠ "") :
    renderMarkdown file options = markdownOpening file ++
      ("\n" ++ fenceFor (renderSkeleton file options) ++ "kotlin\n" ++
        renderSkeleton file options ++ "\n" ++
        fenceFor (renderSkeleton file options) ++ "\n" ++
        markdownClosing file options) := by
  unfold renderMarkdown
  simp only [hbody, if_false]
  rfl

/-- The lines of the template: the heading, a blank line and the package, a
blank line with the answer for an empty body or with both fences, the notices. -/
def templateLines (file : FileSkeleton) (options : RenderOptions) : ℕ :=
  (if file.package.isSome then 3 else 1) +
    (if renderSkeleton file options = "" then 2 else 3) +
    (if hiddenDeclarationCount file.declarations options = 0 then 0 else 1) +
    (if hiddenAnnotationCount file.declarations options = 0 then 0 else 1)

/-- The texts of the template, with the line breaks of each. -/
theorem breaks_template :
    Breaks "\npackage " 1 ∧ Breaks "kotlin\n" 1 ∧
      Breaks "\nNo public declarations.\n" 2 ∧
      Breaks " hidden; pass --private to include them.\n" 1 ∧
      Breaks " hidden; pass --annotations to include them.\n" 1 := by
  unfold Breaks
  decide

theorem safe_template :
    Safe "## " ∧ Safe " private or internal " ∧ Safe "declaration" ∧
      Safe "declarations" ∧ Safe "annotation" ∧ Safe "annotations" := by
  decide

theorem breaks_markdownOpening (file : FileSkeleton) :
    Breaks (markdownOpening file) (if file.package.isSome then 3 else 1) := by
  have hheading : Breaks ("## " ++ neutralize file.path ++ "\n") 1 := by
    apply Safe.line
    rw [safe_append]
    exact ⟨safe_template.1, safe_neutralize file.path⟩
  rw [markdownOpening]
  cases file.package with
  | none => exact hheading.append safe_empty.breaks
  | some package =>
      have hpackage := (breaks_template.1.append (safe_neutralize package).breaks).append
        breaks_newline
      exact hheading.append hpackage

theorem breaks_hiddenNotice (hidden : ℕ) :
    Breaks (hiddenNotice hidden) (if hidden = 0 then 0 else 1) := by
  obtain ⟨-, -, -, hnotice, -⟩ := breaks_template
  obtain ⟨-, hmiddle, hsingular, hplural, -⟩ := safe_template
  unfold hiddenNotice
  split_ifs with hzero hone
  · exact safe_empty.breaks
  · exact (((safe_toString hidden).breaks.append hmiddle.breaks).append
      hsingular.breaks).append hnotice
  · exact (((safe_toString hidden).breaks.append hmiddle.breaks).append
      hplural.breaks).append hnotice

theorem breaks_annotationNotice (hidden : ℕ) :
    Breaks (annotationNotice hidden) (if hidden = 0 then 0 else 1) := by
  obtain ⟨-, -, -, -, hnotice⟩ := breaks_template
  obtain ⟨-, -, -, -, hsingular, hplural⟩ := safe_template
  have hspace : Safe " " := by simp
  unfold annotationNotice
  split_ifs with hzero hone
  · exact safe_empty.breaks
  · exact (((safe_toString hidden).breaks.append hspace.breaks).append
      hsingular.breaks).append hnotice
  · exact (((safe_toString hidden).breaks.append hspace.breaks).append
      hplural.breaks).append hnotice

theorem breaks_renderSkeleton (file : FileSkeleton) (options : RenderOptions) :
    Breaks (renderSkeleton file options) ((skeletonLines file options).length - 1) :=
  breaks_intercalate (allSafe_skeletonLines file options)

theorem skeletonLines_ne_nil {file : FileSkeleton} {options : RenderOptions}
    (hbody : renderSkeleton file options ≠ "") : skeletonLines file options ≠ [] := by
  intro hnil
  rw [renderSkeleton_eq, hnil] at hbody
  exact hbody rfl

/-- Every line break of the document is the template's or stands after a line
that was pushed. -/
theorem breaks_renderMarkdown (file : FileSkeleton) (options : RenderOptions) :
    Breaks (renderMarkdown file options) (templateLines file options +
      if renderSkeleton file options = "" then 0
      else (skeletonLines file options).length) := by
  have hopening := breaks_markdownOpening file
  have hclosing : Breaks (markdownClosing file options) _ :=
    (breaks_hiddenNotice (hiddenDeclarationCount file.declarations options)).append
      (breaks_annotationNotice (hiddenAnnotationCount file.declarations options))
  obtain ⟨-, hkotlin, hnone, -, -⟩ := breaks_template
  by_cases hbody : renderSkeleton file options = ""
  · rw [renderMarkdown_empty hbody, templateLines, if_pos hbody, if_pos hbody]
    convert hopening.append (hnone.append hclosing) using 1
    omega
  · have hpushed := List.length_pos_iff.mpr (skeletonLines_ne_nil hbody)
    have hfence := (safe_fenceFor (renderSkeleton file options)).breaks
    have hfenced := ((((((breaks_newline.append hfence).append hkotlin).append
      (breaks_renderSkeleton file options)).append breaks_newline).append
      hfence).append breaks_newline).append hclosing
    rw [renderMarkdown_fenced hbody, templateLines, if_neg hbody, if_neg hbody]
    convert hopening.append hfenced using 1
    omega

/-- The lines of a document with a body: the lines that were pushed stand
between the two fences. -/
theorem linesOf_renderMarkdown {file : FileSkeleton} {options : RenderOptions}
    (hbody : renderSkeleton file options ≠ "") :
    linesOf (renderMarkdown file options) = linesOf (markdownOpening file) ++
      [fenceFor (renderSkeleton file options) ++ "kotlin"] ++
      skeletonLines file options ++ [fenceFor (renderSkeleton file options)] ++
      linesOf (markdownClosing file options) := by
  set fence := fenceFor (renderSkeleton file options) with hfence
  have hsafe : Safe fence := safe_fenceFor _
  have hkotlin : Safe (fence ++ "kotlin") := by
    rw [safe_append]
    exact ⟨hsafe, by decide⟩
  have hlines : linesOf (renderSkeleton file options) = skeletonLines file options :=
    linesOf_intercalate (allSafe_skeletonLines file options) (skeletonLines_ne_nil hbody)
  have hbreak : "kotlin\n" = "kotlin" ++ "\n" := by decide
  calc linesOf (renderMarkdown file options)
      = linesOf (markdownOpening file ++ "\n" ++ ((fence ++ "kotlin") ++ "\n" ++
          (renderSkeleton file options ++ "\n" ++
            (fence ++ "\n" ++ markdownClosing file options)))) := by
        rw [renderMarkdown_fenced hbody, ← hfence, hbreak]
        simp only [String.append_assoc]
    _ = _ := by
        rw [linesOf_append, linesOf_append, linesOf_append, linesOf_append,
          hkotlin.linesOf_eq, hsafe.linesOf_eq, hlines]
        simp only [List.append_assoc]

/-- A line between the fences holds no run of backticks as long as the fence. -/
theorem lt_length_fence_of_mem {file : FileSkeleton} {options : RenderOptions}
    {line : String} (hline : line ∈ skeletonLines file options) {count : ℕ}
    (hrun : List.replicate count (Char.ofNat 0x60) <:+: line.toList) :
    count < (fenceFor (renderSkeleton file options)).length := by
  apply lt_length_fenceFor
  apply hrun.trans
  rw [renderSkeleton_eq]
  exact piece_within_intercalate _ hline

/-- Whatever the strings of a skeleton hold: the unsafe characters of an outline
are the line breaks between the lines that were pushed, those of the document
are these and the template's, and the fence is closed by the template. -/
theorem outline_injection_safe (file : FileSkeleton) (options : RenderOptions) :
    let pushed := skeletonLines file options
    let body := renderSkeleton file options
    let document := renderMarkdown file options
    let fence := fenceFor body
    body = "\n".intercalate pushed ∧
      Breaks body (pushed.length - 1) ∧
      Breaks document (templateLines file options +
        if body = "" then 0 else pushed.length) ∧
      (∀ text ∈ [body, document], ∀ letter ∈ text.toList,
        (isControl letter = true → letter = '\n') ∧
          letter.toNat ∉ bidirectionalOverrides) ∧
      (body ≠ "" →
        linesOf body = pushed ∧
        (∃ opening closing, linesOf document =
          opening ++ [fence ++ "kotlin"] ++ pushed ++ [fence] ++ closing) ∧
        ∀ line ∈ pushed, ∀ count,
          List.replicate count (Char.ofNat 0x60) <:+: line.toList →
            count < fence.length) := by
  have hbody := breaks_renderSkeleton file options
  have hdocument := breaks_renderMarkdown file options
  refine ⟨rfl, hbody, hdocument, ?_, ?_⟩
  · intro text htext letter hletter
    rw [List.mem_pair] at htext
    rcases htext with rfl | rfl
    · exact ⟨hbody.control hletter, hbody.no_override hletter⟩
    · exact ⟨hdocument.control hletter, hdocument.no_override hletter⟩
  · intro hne
    refine ⟨linesOf_intercalate (allSafe_skeletonLines file options)
      (skeletonLines_ne_nil hne), ⟨_, _, linesOf_renderMarkdown hne⟩, ?_⟩
    intro line hline count hrun
    exact lt_length_fence_of_mem hline hrun

end Ktsense.Core
