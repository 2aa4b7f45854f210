import Ktsense.Cli.TextRefs
import Ktsense.Foundation.FirstSeen
import Ktsense.Syntax.Annotations

/-!
# The scan for an annotation

The collecting half of `text_refs.rs`: the Kotlin files of the workspace and then those
generated ones that were not among them, each read once.  A file that is not read adds
nothing, and one in which the annotation is no whole word is never parsed.
-/

namespace Ktsense.Cli.WorkspaceScan

open Ktsense.Foundation Ktsense.Core Ktsense.Core.Layout
open Ktsense.Syntax Ktsense.Syntax.Annotations

variable {P A : Type} [DecidableEq P]

section Loops

variable (scan : P → Option (List A))

/-- A file is scanned.  The state holds the files that were, and what they added. -/
def scanFile (state : List P × List A) (path : P) : Option (List P × List A) := do
  return (state.1 ++ [path], state.2 ++ (← scan path))

def scanFresh (state : List P × List A) (path : P) : Option (List P × List A) :=
  if path ∈ state.1 then some state else scanFile scan state path

/-- The two loops over the files.  A scan of a file fails where its search for the name
panics. -/
def scanFiles (kotlin generated : List P) : Option (List A) := do
  let walked ← kotlin.foldlM (scanFile scan) ([], [])
  let all ← generated.foldlM (scanFresh scan) walked
  return all.2

end Loops

/-- `filtered`: what the filter keeps, and how many it drops. -/
def filtered (filter : Option SiteFilter) (pathOf : A → String) (items : List A) :
    List A × ℕ :=
  match filter with
  | none => (items, 0)
  | some filter =>
      let kept := items.filter fun item => filter.matchesPath (pathOf item)
      (kept, items.length - kept.length)

section Workspace

variable (read : P → Option String) (display : P → String)
  (alphanumeric : Alphanumeric) (parse : String → Option Tree)

def scanFileForAnnotations (wanted : String) (path : P) :
    Option (List AnnotatedDeclaration) :=
  match read path with
  | none => some []
  | some source =>
      (wordBoundedMatches source wanted).map fun found =>
        if found.isEmpty then []
        else annotatedDeclarations alphanumeric parse (display path) source wanted

def collectAnnotationUses (wanted : String) (filter : Option SiteFilter)
    (kotlin generated : List P) : Option (List AnnotatedDeclaration × ℕ) :=
  (scanFiles (scanFileForAnnotations read display alphanumeric parse wanted) kotlin
    generated).map (filtered filter AnnotatedDeclaration.path)

end Workspace

/-! ## Every file once -/

/-- The files in the order they are scanned. -/
def visited (kotlin generated : List P) : List P :=
  kotlin ++ (generated.filter (· ∉ kotlin)).eraseDups

theorem mem_visited (kotlin generated : List P) (path : P) :
    path ∈ visited kotlin generated ↔ path ∈ kotlin ∨ path ∈ generated := by
  rw [visited, List.mem_append, List.mem_eraseDups, List.mem_filter]
  by_cases hmem : path ∈ kotlin <;> simp [hmem]

/-- One more file behind those that were scanned. -/
theorem visited_append_singleton (kotlin generated : List P) (path : P) :
    visited kotlin (generated ++ [path]) =
      if path ∈ visited kotlin generated then visited kotlin generated
      else visited kotlin generated ++ [path] := by
  simp only [mem_visited]
  rw [visited, visited, List.filter_append]
  by_cases hkotlin : path ∈ kotlin
  · simp [hkotlin]
  · have hkept : [path].filter (· ∉ kotlin) = [path] := by simp [hkotlin]
    have hmem : path ∈ generated.filter (· ∉ kotlin) ↔ path ∈ generated := by
      simp [List.mem_filter, hkotlin]
    rw [hkept, eraseDups_append_singleton]
    simp only [hmem, hkotlin, false_or]
    split
    · rfl
    · rw [List.append_assoc]

theorem nodup_visited {kotlin : List P} (hkotlin : kotlin.Nodup) (generated : List P) :
    (visited kotlin generated).Nodup := by
  rw [visited, List.nodup_append]
  refine ⟨hkotlin, nodup_eraseDups _, fun path hpath other hother => ?_⟩
  rw [List.mem_eraseDups, List.mem_filter] at hother
  rintro rfl
  exact of_decide_eq_true hother.2 hpath

section Loops

variable {scan : P → Option (List A)}

omit [DecidableEq P] in
theorem mapM_append_singleton (scan : P → Option (List A)) (paths : List P) (path : P) :
    (paths ++ [path]).mapM scan =
      (paths.mapM scan).bind fun found => (scan path).map fun more => found ++ [more] := by
  rw [List.mapM_append]
  cases paths.mapM scan with
  | none => rfl
  | some found => cases hscan : scan path <;> simp [hscan]

omit [DecidableEq P] in
/-- What the loops hold after some files. -/
theorem scanFile_of_scanned (paths : List P) (path : P) :
    ((paths.mapM scan).map fun found => (paths, found.flatten)).bind (scanFile scan · path) =
      ((paths ++ [path]).mapM scan).map fun found => (paths ++ [path], found.flatten) := by
  rw [mapM_append_singleton]
  cases paths.mapM scan with
  | none => rfl
  | some found => cases hscan : scan path <;> simp [scanFile, hscan]

omit [DecidableEq P] in
theorem walked_eq (kotlin : List P) :
    kotlin.foldlM (scanFile scan) ([], []) =
      (kotlin.mapM scan).map fun found => (kotlin, found.flatten) := by
  induction kotlin using List.reverseRecOn with
  | nil => rfl
  | append_singleton kotlin path ih =>
      rw [List.foldlM_append, ih, ← scanFile_of_scanned]
      simp

theorem scanFresh_of_scanned (paths : List P) (path : P) :
    ((paths.mapM scan).map fun found => (paths, found.flatten)).bind (scanFresh scan · path) =
      let more := if path ∈ paths then paths else paths ++ [path]
      (more.mapM scan).map fun found => (more, found.flatten) := by
  by_cases hmem : path ∈ paths
  · cases hfound : paths.mapM scan <;> simp [scanFresh, hmem, hfound]
  · rw [if_neg hmem, ← scanFile_of_scanned]
    cases hfound : paths.mapM scan <;> simp [scanFresh, hmem]

/-- The loops scan every file that there is, in order and each once. -/
theorem scanFiles_eq (kotlin generated : List P) :
    scanFiles scan kotlin generated =
      ((visited kotlin generated).mapM scan).map List.flatten := by
  have hloops : (kotlin.foldlM (scanFile scan) ([], [])).bind
      (generated.foldlM (scanFresh scan)) =
        ((visited kotlin generated).mapM scan).map fun found =>
          (visited kotlin generated, found.flatten) := by
    induction generated using List.reverseRecOn with
    | nil =>
        rw [walked_eq, visited, List.filter_nil, List.eraseDups_nil, List.append_nil]
        cases kotlin.mapM scan <;> rfl
    | append_singleton generated path ih =>
        rw [visited_append_singleton, ← scanFresh_of_scanned, ← ih, Option.bind_assoc]
        simp [List.foldlM_append]
  have hbind : scanFiles scan kotlin generated =
      ((kotlin.foldlM (scanFile scan) ([], [])).bind
        (generated.foldlM (scanFresh scan))).map Prod.snd := by
    rw [scanFiles]
    cases kotlin.foldlM (scanFile scan) ([], []) with
    | none => rfl
    | some walked => cases hall : generated.foldlM (scanFresh scan) walked <;> simp [hall]
  rw [hbind, hloops]
  cases (visited kotlin generated).mapM scan <;> rfl

end Loops

/-! ## The declarations an annotation is written on -/

theorem filtered_eq (filter : Option SiteFilter) (pathOf : A → String) (items : List A) :
    (filtered filter pathOf items).1 =
        items.filter (fun item => filter.all (·.matchesPath (pathOf item))) ∧
      (filtered filter pathOf items).1.length + (filtered filter pathOf items).2 =
        items.length := by
  cases filter with
  | none => exact ⟨by simp [filtered], rfl⟩
  | some filter =>
      exact ⟨rfl, Nat.add_sub_cancel' (List.length_filter_le _ _)⟩

/-- The answer says of some declarations in which file and where each is. -/
structure ListsExactly (uses : List AnnotatedDeclaration) (answer : AnnotatedDeclarations) :
    Prop where
  total : answer.total = uses.length
  files : answer.groups.map AnnotatedGroup.path =
    sortDedup (uses.map AnnotatedDeclaration.path)
  fileCount : answer.fileCount = answer.groups.length
  sum : (answer.groups.map fun group => group.declarations.length).sum = uses.length
  group : ∀ group ∈ answer.groups, ∃ sorted,
    StableSort position (uses.filter (·.path = group.path)) sorted ∧
      group.declarations = sorted.map member

theorem listsExactly_buildAnnotated (wanted : String) (uses : List AnnotatedDeclaration) :
    ListsExactly uses (buildAnnotated wanted uses) := by
  constructor
  · rfl
  · rw [← names_listing AnnotatedDeclaration.path position none, buildAnnotated, List.map_map]
    rfl
  · rfl
  · rw [buildAnnotated, List.map_map,
      ← sum_listing AnnotatedDeclaration.path position none uses fun _ => rfl]
    apply congrArg List.sum
    apply List.map_congr_left
    intro entry hentry
    obtain ⟨group, -, rfl⟩ := List.mem_map.mp hentry
    exact List.length_map _
  · intro group hgroup
    obtain ⟨⟨path, shown, omitted⟩, hentry, rfl⟩ := List.mem_map.mp hgroup
    obtain ⟨sorted, hsorted, hshown⟩ := shown_of_mem_listing _ _ _ _ hentry
    rw [Option.elim_none] at hshown
    exact ⟨sorted, hsorted, congrArg (List.map member) hshown⟩

section Uses

variable (read : P → Option String) (display : P → String) (alphanumeric : Alphanumeric)
  (parse : String → Option Tree) (wanted : String)

/-- What a file adds, where no search panics. -/
def usesIn (path : P) : List AnnotatedDeclaration :=
  match read path with
  | none => []
  | some source =>
      if wordBoundedMatches source wanted = some [] then []
      else annotatedDeclarations alphanumeric parse (display path) source wanted

omit [DecidableEq P] in
theorem scanFileForAnnotations_eq_some {path : P} {uses : List AnnotatedDeclaration}
    (hscan : scanFileForAnnotations read display alphanumeric parse wanted path =
      some uses) : uses = usesIn read display alphanumeric parse wanted path := by
  rw [scanFileForAnnotations] at hscan
  rw [usesIn]
  cases hread : read path with
  | none =>
      rw [hread] at hscan
      exact (Option.some.inj hscan).symm
  | some source =>
      rw [hread] at hscan
      obtain ⟨found, hfound, rfl⟩ := Option.map_eq_some_iff.mp hscan
      cases found with
      | nil => simp [hfound]
      | cons site rest => simp [hfound]

omit [DecidableEq P] in
theorem mapM_scan_eq_some {paths : List P} {found : List (List AnnotatedDeclaration)}
    (hfound : paths.mapM (scanFileForAnnotations read display alphanumeric parse wanted) =
      some found) : found = paths.map (usesIn read display alphanumeric parse wanted) := by
  induction paths generalizing found with
  | nil => exact (Option.some.inj hfound).symm
  | cons path rest ih =>
      rw [List.mapM_cons] at hfound
      obtain ⟨first, hfirst, hrest⟩ := Option.bind_eq_some_iff.mp hfound
      obtain ⟨others, hothers, hall⟩ := Option.bind_eq_some_iff.mp hrest
      rw [← Option.some.inj hall, List.map_cons, ih hothers,
        scanFileForAnnotations_eq_some read display alphanumeric parse wanted hfirst]

variable {read display alphanumeric parse wanted}

/-- The declarations that are found are those of the files, each file once where the walk gives
none twice, that the filter keeps; the rest is counted, and the answer lists every one in its
file. -/
theorem annotation_uses_exact {filter : Option SiteFilter} {kotlin generated : List P}
    {uses : List AnnotatedDeclaration} {omitted : ℕ}
    (huses : collectAnnotationUses read display alphanumeric parse wanted filter kotlin
      generated = some (uses, omitted)) :
    (kotlin.Nodup → (visited kotlin generated).Nodup) ∧
    (∀ path, path ∈ visited kotlin generated ↔ path ∈ kotlin ∨ path ∈ generated) ∧
    uses = ((visited kotlin generated).flatMap
      (usesIn read display alphanumeric parse wanted)).filter
        (fun use => filter.all (·.matchesPath use.path)) ∧
    uses.length + omitted = ((visited kotlin generated).flatMap
      (usesIn read display alphanumeric parse wanted)).length ∧
    ListsExactly uses (buildAnnotated wanted uses) := by
  rw [collectAnnotationUses, scanFiles_eq, Option.map_map] at huses
  obtain ⟨found, hfound, hfiltered⟩ := Option.map_eq_some_iff.mp huses
  have hall := filtered_eq filter AnnotatedDeclaration.path found.flatten
  rw [Function.comp_apply] at hfiltered
  rw [hfiltered, mapM_scan_eq_some read display alphanumeric parse wanted hfound,
    ← List.flatMap_def] at hall
  exact ⟨fun hkotlin => nodup_visited hkotlin generated, mem_visited kotlin generated, hall.1,
    hall.2, listsExactly_buildAnnotated wanted uses⟩

end Uses

/-- A file that is among the generated ones as well. -/
theorem annotation_uses_exact_audited :
    ∃ uses omitted, collectAnnotationUses (fun _ => some auditedTree.root.text) id
        Alphanumeric.onAscii parseAudited "Audited" none ["A.kt"] ["A.kt"] =
          some (uses, omitted) ∧
      (visited ["A.kt"] ["A.kt"]).Nodup ∧ ListsExactly uses (buildAnnotated "Audited" uses) := by
  have hfound : wordBoundedMatches auditedTree.root.text "Audited" = some [(1, 2)] := by
    decide +kernel
  have huses : ∃ uses, collectAnnotationUses (fun _ => some auditedTree.root.text) id
      Alphanumeric.onAscii parseAudited "Audited" none ["A.kt"] ["A.kt"] =
        some (uses, 0) := by
    refine ⟨annotatedDeclarations Alphanumeric.onAscii parseAudited "A.kt"
      auditedTree.root.text "Audited", ?_⟩
    simp [collectAnnotationUses, scanFiles, scanFile, scanFresh, scanFileForAnnotations,
      hfound, filtered]
  obtain ⟨uses, huses⟩ := huses
  obtain ⟨honce, -, -, -, hlists⟩ := annotation_uses_exact huses
  exact ⟨uses, 0, huses, honce (List.nodup_singleton _), hlists⟩

end Ktsense.Cli.WorkspaceScan
