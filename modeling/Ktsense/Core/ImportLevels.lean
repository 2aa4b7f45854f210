import Ktsense.Core.Imports
import Ktsense.Core.SccWalk

/-!
# The two levels of the import graph

Packages are resolved through the sets of packages and names, files through the
indices by package and by symbol.  All four say which files an import leads to,
so the nodes, edges and external imports of either level are the images of one
relation between files.
-/

namespace Ktsense.Core

open Ktsense.Foundation

/-! ## What an import leads to -/

/-- A file of the package that declares the name, or any file of it for a
wildcard. -/
def Offers (file : FileSkeleton) (package name : String) : Prop :=
  file.package = some package ∧
    (name = "*" ∨ ∃ declaration ∈ file.declarations, declaration.name = name)

def LeadsTo (imported : String) (file : FileSkeleton) : Prop :=
  ∃ package name, rsplitOnce '.' imported = some (package, name) ∧
    Offers file package name

namespace WorkspaceIndex

variable {K : Type*} [LinearOrder K]

theorem get?_collect (entries : List (K × String)) (key : K)
    (held : List String) :
    (collect entries).get? key = some held ↔
      ∃ group, (OrderedMap.groupBy Prod.fst entries).get? key = some group ∧
        held = sortDedup (group.map Prod.snd) := by
  rw [collect, OrderedMap.get?_ofList, List.mem_map]
  · constructor
    · rintro ⟨⟨other, group⟩, hmem, heq⟩
      obtain ⟨rfl, rfl⟩ := Prod.ext_iff.1 heq
      exact ⟨group, (OrderedMap.mem_entries_iff _ _ _).1 hmem, rfl⟩
    · rintro ⟨group, hget, rfl⟩
      exact ⟨(key, group), (OrderedMap.mem_entries_iff _ _ _).2 hget, rfl⟩
  · -- the keys are those of the groups
    rw [List.map_map]
    exact (OrderedMap.groupBy Prod.fst entries).nodup_keys

/-- What is collected under a key is what stood beside it. -/
theorem mem_collect (entries : List (K × String)) (key : K) (value : String) :
    (∃ held, (collect entries).get? key = some held ∧ value ∈ held) ↔
      (key, value) ∈ entries := by
  simp only [get?_collect, OrderedMap.get?_groupBy]
  constructor
  · rintro ⟨held, ⟨group, ⟨-, rfl⟩, rfl⟩, hvalue⟩
    rw [mem_sortDedup, List.mem_map] at hvalue
    obtain ⟨⟨other, same⟩, hmem, rfl⟩ := hvalue
    rw [List.mem_filter, decide_eq_true_eq] at hmem
    obtain ⟨hentry, rfl⟩ := hmem
    exact hentry
  · intro hmem
    have hgroup : (key, value) ∈ entries.filter fun entry => entry.1 = key := by
      simp [hmem]
    refine ⟨_, ⟨_, ⟨List.ne_nil_of_mem hgroup, rfl⟩, rfl⟩, ?_⟩
    rw [mem_sortDedup]
    exact List.mem_map_of_mem hgroup

theorem mem_getD_collect (entries : List (K × String)) (key : K)
    (value : String) :
    value ∈ ((collect entries).get? key).getD [] ↔ (key, value) ∈ entries := by
  rw [← mem_collect]
  cases (collect entries).get? key with
  | none => simp
  | some held => simp

theorem any_contains_collect (entries : List (K × String)) (key : K)
    (value : String) :
    ((collect entries).get? key).any (·.contains value) = true ↔
      (key, value) ∈ entries := by
  rw [← mem_collect]
  cases (collect entries).get? key with
  | none => simp
  | some held => simp

variable (files : List FileSkeleton)

theorem mem_packaged (package : String) (file : FileSkeleton) :
    (package, file) ∈ packaged files ↔
      file ∈ files ∧ file.package = some package := by
  simp only [packaged, List.mem_filterMap, Option.map_eq_some_iff, Prod.mk.injEq]
  constructor
  · rintro ⟨_, hfile, _, hpackage, rfl, rfl⟩
    exact ⟨hfile, hpackage⟩
  · rintro ⟨hfile, hpackage⟩
    exact ⟨file, hfile, package, hpackage, rfl, rfl⟩

theorem mem_symbols (package name path : String) :
    (package, name, path) ∈ symbols files ↔
      ∃ file ∈ files, file.package = some package ∧
        (∃ declaration ∈ file.declarations, declaration.name = name) ∧
          file.path = path := by
  simp only [symbols, List.mem_flatMap, List.mem_map, Prod.exists, mem_packaged,
    Prod.mk.injEq]
  constructor
  · rintro ⟨_, file, ⟨hfile, hpackage⟩, declaration, hmem, rfl, hname, hpath⟩
    exact ⟨file, hfile, hpackage, ⟨declaration, hmem, hname⟩, hpath⟩
  · rintro ⟨file, hfile, hpackage, ⟨declaration, hmem, hname⟩, hpath⟩
    exact ⟨package, file, ⟨hfile, hpackage⟩, declaration, hmem, rfl, hname, hpath⟩

/-- The sets of packages and names say whether some file offers the name. -/
theorem internal_iff (package name : String) :
    (if name = "*" then (build files).packages.contains package
      else ((build files).namesByPackage.get? package).any (·.contains name)) =
        true ↔
      ∃ file ∈ files, Offers file package name := by
  by_cases hwildcard : name = "*"
  · simp only [hwildcard, if_true, build, List.contains_iff_mem, mem_sortDedup,
      List.mem_map, Prod.exists, mem_packaged, Offers, true_or, and_true]
    constructor
    · rintro ⟨_, file, ⟨hfile, hpackage⟩, rfl⟩
      exact ⟨file, hfile, hpackage⟩
    · rintro ⟨file, hfile, hpackage⟩
      exact ⟨package, file, ⟨hfile, hpackage⟩, rfl⟩
  · simp only [hwildcard, if_false, build, any_contains_collect, List.mem_map,
      Prod.exists, mem_symbols, Prod.mk.injEq, Offers, false_or]
    constructor
    · rintro ⟨_, _, _, ⟨file, hfile, hpackage, hname, -⟩, rfl, rfl⟩
      exact ⟨file, hfile, hpackage, hname⟩
    · rintro ⟨file, hfile, hpackage, hname⟩
      exact ⟨package, name, file.path, ⟨file, hfile, hpackage, hname, rfl⟩,
        rfl, rfl⟩

/-- The two indices of files have the files that offer the name. -/
theorem mem_targetFiles (package name path : String) :
    path ∈ (build files).targetFiles package name (name = "*") ↔
      ∃ file ∈ files, Offers file package name ∧ file.path = path := by
  by_cases hwildcard : name = "*"
  · simp only [hwildcard, targetFiles, decide_true, if_true, build,
      mem_getD_collect, List.mem_map, Prod.exists, mem_packaged, Prod.mk.injEq,
      Offers, true_or, and_true]
    constructor
    · rintro ⟨_, file, ⟨hfile, hpackage⟩, rfl, hpath⟩
      exact ⟨file, hfile, hpackage, hpath⟩
    · rintro ⟨file, hfile, hpackage, hpath⟩
      exact ⟨package, file, ⟨hfile, hpackage⟩, rfl, hpath⟩
  · simp only [hwildcard, targetFiles, decide_false, Bool.false_eq_true, if_false,
      build, mem_getD_collect, List.mem_map, Prod.exists, mem_symbols,
      Prod.mk.injEq, Offers, false_or, EmbeddingLike.apply_eq_iff_eq]
    constructor
    · rintro ⟨_, _, _, ⟨file, hfile, hpackage, hname, hpath⟩, ⟨rfl, rfl⟩, rfl⟩
      exact ⟨file, hfile, ⟨hpackage, hname⟩, hpath⟩
    · rintro ⟨file, hfile, ⟨hpackage, hname⟩, hpath⟩
      exact ⟨package, name, path, ⟨file, hfile, hpackage, hname, hpath⟩,
        ⟨rfl, rfl⟩, rfl⟩

variable {imported package name : String} (level : DepLevel)

theorem resolve_of_offered
    (hsplit : rsplitOnce '.' imported = some (package, name))
    (hoffered : ∃ file ∈ files, Offers file package name) :
    (build files).resolve imported level =
      match level with
      | .package => some [package]
      | .file =>
          some ((build files).targetFiles package name (name = "*")) := by
  have hinternal := (internal_iff files package name).2 hoffered
  cases level with
  | package =>
      rw [resolve, hsplit]
      simp only [decide_eq_true_eq, if_pos hinternal]
  | file =>
      rw [resolve, hsplit]
      simp only [decide_eq_true_eq, if_pos hinternal]

theorem resolve_of_not_offered
    (hsplit : rsplitOnce '.' imported = some (package, name))
    (hoffered : ¬∃ file ∈ files, Offers file package name) :
    (build files).resolve imported level = none := by
  have hinternal := (not_congr (internal_iff files package name)).2 hoffered
  rw [resolve, hsplit]
  simp only [decide_eq_true_eq]
  rw [if_neg hinternal]

theorem leadsTo_iff (hsplit : rsplitOnce '.' imported = some (package, name))
    (file : FileSkeleton) : LeadsTo imported file ↔ Offers file package name := by
  simp [LeadsTo, hsplit]

/-- Whether an import resolves does not depend on the level. -/
theorem isNone_resolve (imported : String) :
    ((build files).resolve imported level).isNone = true ↔
      ∀ file ∈ files, ¬LeadsTo imported file := by
  cases hsplit : rsplitOnce '.' imported with
  | none => simp [LeadsTo, resolve, hsplit]
  | some parts =>
      simp only [leadsTo_iff hsplit]
      by_cases hoffered : ∃ file ∈ files, Offers file parts.1 parts.2
      · rw [resolve_of_offered files level hsplit hoffered]
        obtain ⟨file, hfile, hoffers⟩ := hoffered
        refine iff_of_false ?_ fun hnone => hnone file hfile hoffers
        cases level <;> simp
      · rw [resolve_of_not_offered files level hsplit hoffered]
        refine iff_of_true rfl fun file hfile hoffers => ?_
        exact hoffered ⟨file, hfile, hoffers⟩

/-- An import leads to the nodes of the files it leads to. -/
theorem mem_resolve (imported target : String) :
    target ∈ ((build files).resolve imported level).getD [] ↔
      ∃ file ∈ files, LeadsTo imported file ∧
        sourceNode level file = some target := by
  cases hsplit : rsplitOnce '.' imported with
  | none => simp [LeadsTo, resolve, hsplit]
  | some parts =>
      simp only [leadsTo_iff hsplit]
      by_cases hoffered : ∃ file ∈ files, Offers file parts.1 parts.2
      · rw [resolve_of_offered files level hsplit hoffered]
        cases level with
        | package =>
            simp only [Option.getD_some, List.mem_singleton, sourceNode]
            constructor
            · rintro rfl
              obtain ⟨file, hfile, hoffers⟩ := hoffered
              exact ⟨file, hfile, hoffers, by simp [hoffers.1]⟩
            · rintro ⟨file, -, hoffers, hnode⟩
              simpa [hoffers.1, eq_comm] using hnode
        | file =>
            simp only [Option.getD_some, mem_targetFiles, sourceNode]
            apply exists_congr
            intro file
            refine and_congr_right fun _ => and_congr_right fun hoffers => ?_
            simp [hoffers.1]
      · rw [resolve_of_not_offered files level hsplit hoffered]
        refine iff_of_false (by simp) ?_
        rintro ⟨file, hfile, hoffers, -⟩
        exact hoffered ⟨file, hfile, hoffers⟩

end WorkspaceIndex

/-! ## Images of one relation -/

theorem mem_sortedPairs (pairs : List (String × String)) (pair : String × String) :
    pair ∈ sortedPairs pairs ↔ pair ∈ pairs := by
  rw [sortedPairs, List.mem_map]
  constructor
  · rintro ⟨_, hmem, rfl⟩
    obtain ⟨_, hpair, rfl⟩ := List.mem_map.1 ((mem_sortDedup _ _).1 hmem)
    exact hpair
  · intro hmem
    exact ⟨toLex pair, (mem_sortDedup _ _).2 (List.mem_map_of_mem hmem), rfl⟩

/-- Sorted pairs are determined by their members. -/
theorem sortedPairs_congr {left right : List (String × String)}
    (hmem : ∀ pair, pair ∈ left ↔ pair ∈ right) :
    sortedPairs left = sortedPairs right := by
  have hsort : sortDedup (left.map toLex) = sortDedup (right.map toLex) := by
    apply eq_of_pairwise_lt_of_mem_iff (pairwise_sortDedup _) (pairwise_sortDedup _)
    intro pair
    simp [hmem]
  rw [sortedPairs, sortedPairs, hsort]

theorem sortDedup_congr {left right : List String}
    (hmem : ∀ value, value ∈ left ↔ value ∈ right) :
    sortDedup left = sortDedup right := by
  apply eq_of_pairwise_lt_of_mem_iff (pairwise_sortDedup _) (pairwise_sortDedup _)
  intro value
  simp [hmem]

section Images

variable (files : List FileSkeleton) (level : DepLevel)

theorem mem_importsOf (source imported : String) :
    (source, imported) ∈ importsOf files level ↔
      ∃ file ∈ files, sourceNode level file = some source ∧
        imported ∈ file.imports := by
  simp only [importsOf, List.mem_flatMap]
  apply exists_congr
  intro file
  apply and_congr_right
  intro _
  cases sourceNode level file with
  | none => simp
  | some node => simp [and_comm, eq_comm]

/-- The pairs of nodes a level connects. -/
def edgePairs : List (String × String) :=
  (importsOf files level).flatMap fun (source, imported) =>
    ((((WorkspaceIndex.build files).resolve imported level).getD []).filter
      (· ≠ source)).map fun target => (source, target)

def externalPairs : List (String × String) :=
  (importsOf files level).filter fun (_, imported) =>
    ((WorkspaceIndex.build files).resolve imported level).isNone

/-- The edges are the images of the imports from file to file. -/
theorem mem_edgePairs (source target : String) :
    (source, target) ∈ edgePairs files level ↔
      source ≠ target ∧ ∃ importer ∈ files, ∃ imported ∈ importer.imports,
        ∃ file ∈ files, LeadsTo imported file ∧
          sourceNode level importer = some source ∧
          sourceNode level file = some target := by
  simp only [edgePairs, List.mem_flatMap, Prod.exists, mem_importsOf,
    List.mem_map, List.mem_filter, WorkspaceIndex.mem_resolve, Prod.mk.injEq,
    decide_eq_true_eq]
  constructor
  · rintro ⟨_, imported, ⟨importer, himporter, hsource, himported⟩, _,
      ⟨⟨file, hfile, hleads, htarget⟩, hne⟩, rfl, rfl⟩
    exact ⟨Ne.symm hne, importer, himporter, imported, himported, file, hfile,
      hleads, hsource, htarget⟩
  · rintro ⟨hne, importer, himporter, imported, himported, file, hfile, hleads,
      hsource, htarget⟩
    exact ⟨source, imported, ⟨importer, himporter, hsource, himported⟩, target,
      ⟨⟨file, hfile, hleads, htarget⟩, Ne.symm hne⟩, rfl, rfl⟩

theorem mem_externalPairs (source imported : String) :
    (source, imported) ∈ externalPairs files level ↔
      (∃ importer ∈ files, sourceNode level importer = some source ∧
        imported ∈ importer.imports) ∧
      ∀ file ∈ files, ¬LeadsTo imported file := by
  simp only [externalPairs, List.mem_filter, mem_importsOf,
    WorkspaceIndex.isNone_resolve]

end Images

/-! ## Agreement -/

/-- The package of the file at a path. -/
def packageOf (files : List FileSkeleton) (path : String) : Option String :=
  (files.find? fun file => file.path = path).bind (·.package)

/-- Two nodes an import connects at a level. -/
def ImportGraph.edge (graph : ImportGraph) (origin destination : String) : Prop :=
  ⟨origin, destination⟩ ∈ graph.edges

/-- The package level is the image of the file level, the cycles of both are
the components of their edges, and neither depends on the order of the files. -/
structure LevelsAgree (files : List FileSkeleton) : Prop where
  edges : (buildImportGraph files .package).edges =
    (sortedPairs ((buildImportGraph files .file).edges.filterMap fun edge => do
      let origin ← packageOf files edge.origin
      let destination ← packageOf files edge.destination
      if origin = destination then none else some (origin, destination))).map
        fun (origin, destination) => ⟨origin, destination⟩
  external : (buildImportGraph files .package).external =
    (sortedPairs ((buildImportGraph files .file).external.filterMap fun outside =>
      (packageOf files outside.source).map fun package =>
        (package, outside.imported))).map
          fun (source, imported) => ⟨source, imported⟩
  nodes : (buildImportGraph files .package).nodes =
    sortDedup ((buildImportGraph files .file).nodes.filterMap (packageOf files))
  cycles : ∀ level cycle, cycle ∈ (buildImportGraph files level).cycles ↔
    IsComponent (buildImportGraph files level).edge cycle ∧ 2 ≤ cycle.length
  cycles_sorted : ∀ level,
    (buildImportGraph files level).cycles.Pairwise (· < ·)
  permuted : ∀ other level, other.Perm files →
    buildImportGraph other level = buildImportGraph files level

theorem packageOf_eq {files : List FileSkeleton}
    (hpaths : (files.map (·.path)).Nodup) {file : FileSkeleton}
    (hfile : file ∈ files) : packageOf files file.path = file.package := by
  rw [packageOf]
  cases hfind : files.find? fun other => other.path = file.path with
  | none =>
      have hnone := List.find?_eq_none.1 hfind file hfile
      simp at hnone
  | some found =>
      have hpath : found.path = file.path := by
        simpa using List.find?_some hfind
      have hsame : found = file := List.inj_on_of_nodup_map hpaths
        (List.mem_of_find?_eq_some hfind) hfile hpath
      rw [hsame]
      rfl

section Agreement

variable (files : List FileSkeleton)

theorem edges_buildImportGraph (level : DepLevel) :
    (buildImportGraph files level).edges =
      (sortedPairs (edgePairs files level)).map
        fun (origin, destination) => ⟨origin, destination⟩ := rfl

theorem external_buildImportGraph (level : DepLevel) :
    (buildImportGraph files level).external =
      (sortedPairs (externalPairs files level)).map
        fun (source, imported) => ⟨source, imported⟩ := rfl

theorem cycles_buildImportGraph (level : DepLevel) :
    (buildImportGraph files level).cycles =
      cycles (Graph.fromEdges (sortedPairs (edgePairs files level))) := by
  rw [buildImportGraph, edgePairs]

theorem mem_edges_iff (level : DepLevel) (edge : DepEdge) :
    edge ∈ (buildImportGraph files level).edges ↔
      (edge.origin, edge.destination) ∈ edgePairs files level := by
  rw [edges_buildImportGraph, List.mem_map]
  constructor
  · rintro ⟨pair, hpair, rfl⟩
    exact (mem_sortedPairs _ _).1 hpair
  · intro hpair
    exact ⟨_, (mem_sortedPairs _ _).2 hpair, rfl⟩

theorem mem_external_iff (level : DepLevel) (outside : ExternalImport) :
    outside ∈ (buildImportGraph files level).external ↔
      (outside.source, outside.imported) ∈ externalPairs files level := by
  rw [external_buildImportGraph, List.mem_map]
  constructor
  · rintro ⟨pair, hpair, rfl⟩
    exact (mem_sortedPairs _ _).1 hpair
  · intro hpair
    exact ⟨_, (mem_sortedPairs _ _).2 hpair, rfl⟩

/-- Only the set of files decides the graph. -/
theorem buildImportGraph_congr {other : List FileSkeleton}
    (hsame : ∀ file, file ∈ other ↔ file ∈ files) (level : DepLevel) :
    buildImportGraph other level = buildImportGraph files level := by
  have hedges : sortedPairs (edgePairs other level) =
      sortedPairs (edgePairs files level) := by
    apply sortedPairs_congr
    rintro ⟨source, target⟩
    simp only [mem_edgePairs, hsame]
  have hexternal : sortedPairs (externalPairs other level) =
      sortedPairs (externalPairs files level) := by
    apply sortedPairs_congr
    rintro ⟨source, imported⟩
    simp only [mem_externalPairs, hsame]
  have hnodes : sortDedup (other.filterMap (sourceNode level)) =
      sortDedup (files.filterMap (sourceNode level)) := by
    apply sortDedup_congr
    intro node
    simp only [List.mem_filterMap, hsame]
  simp only [buildImportGraph]
  rw [edgePairs, edgePairs] at hedges
  rw [externalPairs, externalPairs] at hexternal
  rw [hedges, hexternal, hnodes]

theorem edge_buildImportGraph (level : DepLevel) (origin destination : String) :
    (buildImportGraph files level).edge origin destination ↔
      (origin, destination) ∈ sortedPairs (edgePairs files level) := by
  rw [ImportGraph.edge, mem_edges_iff, mem_sortedPairs]

/-- No node has an edge to itself, so every cycle has two members. -/
theorem mem_cycles_iff (level : DepLevel) (cycle : List String) :
    cycle ∈ (buildImportGraph files level).cycles ↔
      IsComponent (buildImportGraph files level).edge cycle ∧
        2 ≤ cycle.length := by
  have hclasses := sortedClasses_fromEdges (sortedPairs (edgePairs files level))
  have hloop : ∀ node, (node, node) ∉ sortedPairs (edgePairs files level) := by
    intro node hmem
    rw [mem_sortedPairs, mem_edgePairs] at hmem
    exact hmem.1 rfl
  have hnodes : ∀ node next, (node, next) ∈ sortedPairs (edgePairs files level) →
      node ∈ endpoints (sortedPairs (edgePairs files level)) :=
    fun node next hmem => ⟨_, hmem, Or.inl rfl⟩
  have hedge : (buildImportGraph files level).edge =
      fun origin destination =>
        (origin, destination) ∈ sortedPairs (edgePairs files level) := by
    funext origin destination
    exact propext (edge_buildImportGraph files level origin destination)
  rw [cycles_buildImportGraph, cycles_fromEdges, List.mem_filter, hedge]
  simp only [hloop, and_false, exists_false, or_false, decide_eq_true_eq]
  apply and_congr_left
  intro hlength
  exact hclasses.mem_iff_isComponent hnodes hlength

theorem pairwise_cycles (level : DepLevel) :
    (buildImportGraph files level).cycles.Pairwise (· < ·) := by
  have hclasses := sortedClasses_fromEdges (sortedPairs (edgePairs files level))
  rw [cycles_buildImportGraph, cycles]
  exact hclasses.sorted.filter _

variable {files}

/-- The package-level edges are those of the files, less the edges within a
package. -/
theorem mem_edgePairs_package (hpaths : (files.map (·.path)).Nodup)
    (origin destination : String) :
    (origin, destination) ∈ edgePairs files .package ↔
      origin ≠ destination ∧ ∃ source target,
        (source, target) ∈ edgePairs files .file ∧
          packageOf files source = some origin ∧
          packageOf files target = some destination := by
  simp only [mem_edgePairs, sourceNode, Option.map_eq_some_iff,
    exists_eq_right]
  constructor
  · rintro ⟨hne, importer, himporter, imported, himported, file, hfile, hleads,
      horigin, hdestination⟩
    have hpackages : importer.path ≠ file.path := by
      intro hpath
      have hsame := List.inj_on_of_nodup_map hpaths himporter hfile hpath
      rw [hsame, hdestination] at horigin
      exact hne (Option.some.inj horigin).symm
    refine ⟨hne, importer.path, file.path, ⟨hpackages, importer, himporter,
      imported, himported, file, hfile, hleads, ⟨origin, horigin, rfl⟩,
      ⟨destination, hdestination, rfl⟩⟩, ?_, ?_⟩
    · rw [packageOf_eq hpaths himporter, horigin]
    · rw [packageOf_eq hpaths hfile, hdestination]
  · rintro ⟨hne, source, target, ⟨-, importer, himporter, imported, himported,
      file, hfile, hleads, ⟨_, _, rfl⟩, ⟨_, _, rfl⟩⟩, horigin, hdestination⟩
    rw [packageOf_eq hpaths himporter] at horigin
    rw [packageOf_eq hpaths hfile] at hdestination
    exact ⟨hne, importer, himporter, imported, himported, file, hfile, hleads,
      horigin, hdestination⟩

theorem mem_externalPairs_package (hpaths : (files.map (·.path)).Nodup)
    (package imported : String) :
    (package, imported) ∈ externalPairs files .package ↔
      ∃ source, (source, imported) ∈ externalPairs files .file ∧
        packageOf files source = some package := by
  simp only [mem_externalPairs, sourceNode, Option.map_eq_some_iff,
    exists_eq_right]
  constructor
  · rintro ⟨⟨importer, himporter, hpackage, himported⟩, houtside⟩
    refine ⟨importer.path, ⟨⟨importer, himporter, ⟨package, hpackage, rfl⟩,
      himported⟩, houtside⟩, ?_⟩
    rw [packageOf_eq hpaths himporter, hpackage]
  · rintro ⟨source, ⟨⟨importer, himporter, ⟨_, _, rfl⟩, himported⟩, houtside⟩,
      hpackage⟩
    rw [packageOf_eq hpaths himporter] at hpackage
    exact ⟨⟨importer, himporter, hpackage, himported⟩, houtside⟩

theorem mem_nodes_package (hpaths : (files.map (·.path)).Nodup)
    (package : String) :
    package ∈ files.filterMap (sourceNode .package) ↔
      ∃ path ∈ files.filterMap (sourceNode .file),
        packageOf files path = some package := by
  simp only [List.mem_filterMap, sourceNode, Option.map_eq_some_iff,
    exists_eq_right]
  constructor
  · rintro ⟨file, hfile, hpackage⟩
    refine ⟨file.path, ⟨file, hfile, package, hpackage, rfl⟩, ?_⟩
    rw [packageOf_eq hpaths hfile, hpackage]
  · rintro ⟨_, ⟨file, hfile, _, _, rfl⟩, hpackage⟩
    rw [packageOf_eq hpaths hfile] at hpackage
    exact ⟨file, hfile, hpackage⟩

end Agreement

/-- The two levels agree whenever no two files have one path. -/
theorem importGraph_levels_agree (files : List FileSkeleton)
    (hpaths : (files.map (·.path)).Nodup) : LevelsAgree files where
  edges := by
    rw [edges_buildImportGraph]
    congr 1
    apply sortedPairs_congr
    rintro ⟨origin, destination⟩
    rw [mem_edgePairs_package hpaths, List.mem_filterMap]
    constructor
    · rintro ⟨hne, source, target, hedge, horigin, hdestination⟩
      refine ⟨⟨source, target⟩, (mem_edges_iff files .file _).2 hedge, ?_⟩
      simp [horigin, hdestination, hne]
    · rintro ⟨edge, hedge, himage⟩
      rw [mem_edges_iff] at hedge
      simp only [Option.bind_eq_bind, Option.bind_eq_some_iff,
        Option.ite_none_left_eq_some, Option.some.injEq, Prod.mk.injEq] at himage
      obtain ⟨_, horigin, _, hdestination, hne, rfl, rfl⟩ := himage
      exact ⟨hne, edge.origin, edge.destination, hedge, horigin, hdestination⟩
  external := by
    rw [external_buildImportGraph]
    congr 1
    apply sortedPairs_congr
    rintro ⟨package, imported⟩
    rw [mem_externalPairs_package hpaths, List.mem_filterMap]
    constructor
    · rintro ⟨source, houtside, hpackage⟩
      refine ⟨⟨source, imported⟩, (mem_external_iff files .file _).2 houtside, ?_⟩
      simp [hpackage]
    · rintro ⟨outside, houtside, himage⟩
      rw [mem_external_iff] at houtside
      simp only [Option.map_eq_some_iff, Prod.mk.injEq] at himage
      obtain ⟨_, hpackage, rfl, rfl⟩ := himage
      exact ⟨outside.source, houtside, hpackage⟩
  nodes := by
    apply sortDedup_congr
    intro package
    rw [mem_nodes_package hpaths, List.mem_filterMap]
    apply exists_congr
    intro path
    rw [buildImportGraph, mem_sortDedup]
  cycles := mem_cycles_iff files
  cycles_sorted := pairwise_cycles files
  permuted other level hperm :=
    buildImportGraph_congr files (fun _ => hperm.mem_iff) level

/-- Two packages that import each other. -/
def mutualImports : List FileSkeleton :=
  [{ FileSkeleton.new "a/A.kt" with
      package := some "a"
      imports := ["b.B"]
      declarations := [Declaration.new .classKind "A" 3] },
    { FileSkeleton.new "b/B.kt" with
      package := some "b"
      imports := ["a.*", "kotlin.io.println"]
      declarations := [Declaration.new .classKind "B" 3] }]

theorem mutualImports_levels_agree :
    LevelsAgree mutualImports ∧
      (buildImportGraph mutualImports .package).edges = [⟨"a", "b"⟩, ⟨"b", "a"⟩] :=
  ⟨importGraph_levels_agree mutualImports (by decide), by decide⟩

end Ktsense.Core
