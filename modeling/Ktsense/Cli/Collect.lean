import Ktsense.Cli.FileTree

/-!
# Walking the workspace

The production walk, the walk into generated sources, and the filter that drops
what the engine reports from directories the walks skip.  Below `build/generated`
the walk prunes nothing while the filter goes on judging names, so the two part
exactly there.
-/

namespace Ktsense.Cli

open Ktsense.Core Ktsense.Foundation

def ignoredDirs : List String :=
  [".git", "target", "build", "bin", ".gradle", ".idea", "node_modules"]

def maxTraversalDepth : ℕ := 64

def generatedDirs : List String := ["generated", "generated-src"]

def isIgnoredDirName (name : String) : Bool :=
  name.toList.head? = some '.' || ignoredDirs.contains name

/-- A name as the walks judge it: one that is not UTF-8 is never ignored. -/
def FileName.isIgnored (name : FileName) : Bool := name.toStr.any isIgnoredDirName

def isIgnoredDir (path : Path) : Bool :=
  (path.fileName.bind FileName.toStr).any isIgnoredDirName

def isBuildDir (path : Path) : Bool := path.fileName.bind FileName.toStr = some "build"

/-! ## The production walk -/

/-- A directory to read, with how deep it lies below the root. -/
structure Pending where
  path : Path
  entry : Entry
  depth : ℕ

/-- The state of a walk; the last directory pushed stands first. -/
structure Walk where
  pending : List Pending
  files : List Path

/-- `children.sort()`: the children of one directory by name. -/
def sortChildren (children : List (FileName × Entry)) : List (FileName × Entry) :=
  sortBy (compareOn fun child => child.1.bytes) children

def readChildPaths (path : Path) (entry : Entry) :
    Except CommandError (List (FileName × Entry)) :=
  match entry.readDir with
  | .ok children => .ok (sortChildren children)
  | .error failure => .error (.read path failure)

section Production

variable (keep : Path → Bool)

def visitSource (path : Path) (depth : ℕ) (walk : Walk)
    (child : FileName × Entry) : Except CommandError Walk :=
  let childPath := path.join child.1
  match child.2 with
  | .unknown failure => .error (.read childPath failure)
  | .symlink _ => .ok walk
  | .directory _ _ =>
      if depth < maxTraversalDepth && !isIgnoredDir childPath then
        .ok { walk with pending := ⟨childPath, child.2, depth + 1⟩ :: walk.pending }
      else .ok walk
  | _ =>
      if keep childPath then .ok { walk with files := walk.files ++ [childPath] }
      else .ok walk

/-- One turn of the loop; nothing follows a failure or an empty stack. -/
def sourceStep : Except CommandError Walk → Option (Except CommandError Walk)
  | .ok ⟨next :: pending, files⟩ => some
      ((readChildPaths next.path next.entry).bind fun children =>
        children.foldlM (visitSource keep next.path next.depth) ⟨pending, files⟩)
  | _ => none

def collectSourceFiles (root : Path) (tree : Entry) :
    Except CommandError (List Path) :=
  (whileLoop (sourceStep keep) tree.size (.ok ⟨[⟨root, tree, 0⟩], []⟩)).map
    fun walk => sortBy Path.compare walk.files

end Production

def collectKotlinFiles (root : Path) (tree : Entry) :
    Except CommandError (List Path) :=
  collectSourceFiles hasKotlinExtension root tree

/-! ## The walk into generated sources -/

mutual

def collectKotlinUnder (path : Path) (depth : ℕ) : Entry → List Path
  | .directory failure children =>
      if maxTraversalDepth < depth || failure.isSome then []
      else collectKotlinAmong path depth children
  -- `read_dir` follows a link.
  | .symlink target => collectKotlinUnder path depth target
  | _ => []

def collectKotlinAmong (path : Path) (depth : ℕ) :
    List (FileName × Entry) → List Path
  | [] => []
  | (name, .directory failure children) :: rest =>
      collectKotlinUnder (path.join name) (depth + 1) (.directory failure children) ++
        collectKotlinAmong path depth rest
  | (name, .file _) :: rest =>
      (if hasKotlinExtension (path.join name) then [path.join name] else []) ++
        collectKotlinAmong path depth rest
  | _ :: rest => collectKotlinAmong path depth rest

end

/-- What a directory holds under a name. -/
def namedChildren (entry : Entry) (name : String) : List (FileName × Entry) :=
  match entry with
  | .directory _ children => children.filter fun child => child.1.bytes = utf8 name
  | _ => []

def collectGeneratedUnderBuild (buildDir : Path) (entry : Entry) : List Path :=
  generatedDirs.flatMap fun generated =>
    (namedChildren entry generated).flatMap fun child =>
      collectKotlinUnder (buildDir.join child.1) 0 child.2

def visitGenerated (path : Path) (depth : ℕ) (walk : Walk)
    (child : FileName × Entry) : Walk :=
  let childPath := path.join child.1
  if !child.2.isDir then walk
  else if isBuildDir childPath then
    { walk with files := walk.files ++ collectGeneratedUnderBuild childPath child.2 }
  else if depth < maxTraversalDepth && !isIgnoredDir childPath then
    { walk with pending := ⟨childPath, child.2, depth + 1⟩ :: walk.pending }
  else walk

def generatedStep : Walk → Option Walk
  | ⟨next :: pending, files⟩ => some
      (match readChildPaths next.path next.entry with
      | .ok children =>
          children.foldl (visitGenerated next.path next.depth) ⟨pending, files⟩
      | .error _ => ⟨pending, files⟩)
  | _ => none

def collectGeneratedKotlinFiles (root : Path) (tree : Entry) : List Path :=
  sortBy Path.compare
    (whileLoop generatedStep tree.size ⟨[⟨root, tree, 0⟩], []⟩).files

/-! ## The filter -/

/-- `str::split` at a slash. -/
def splitSlash (text : String) : List String :=
  (text.toList.splitOn '/').map String.ofList

/-- Whether some directory is skipped, other than a `build` that a generated tree
follows. -/
def anySkipped (directories : List String) : Bool :=
  directories.zipIdx.any fun (name, index) =>
    let generatedFollows := directories[index + 1]?.any generatedDirs.contains
    isIgnoredDirName name && !(name = "build" && generatedFollows)

def isInsideIgnoredDir (canonicalize : Path → Option Path) (root path : Path) :
    Bool :=
  let relative := normalizedPath canonicalize root path
  if relative.toList.head? = some '/' then false
  else anySkipped (splitSlash relative).dropLast

/-! ## What a walk has found and will find -/

namespace Walk

/-- A path is collected already, or a pending directory leads to it. -/
def Finds (leads : Pending → Path → Prop) (walk : Walk) (path : Path) : Prop :=
  path ∈ walk.files ∨ ∃ next ∈ walk.pending, leads next path

/-- What is left to read. -/
def remaining (walk : Walk) : ℕ := (walk.pending.map fun next => next.entry.size).sum

theorem finds_push (leads : Pending → Path → Prop) (walk : Walk) (next : Pending)
    (path : Path) :
    Finds leads { walk with pending := next :: walk.pending } path ↔
      Finds leads walk path ∨ leads next path := by
  simp only [Finds, List.mem_cons, exists_eq_or_imp]
  by_cases hleads : leads next path <;> simp [hleads]

theorem finds_collect (leads : Pending → Path → Prop) (walk : Walk)
    (collected : List Path) (path : Path) :
    Finds leads { walk with files := walk.files ++ collected } path ↔
      Finds leads walk path ∨ path ∈ collected := by
  simp only [Finds, List.mem_append]
  by_cases hcollected : path ∈ collected <;> simp [hcollected]

theorem remaining_push (walk : Walk) (next : Pending) :
    remaining { walk with pending := next :: walk.pending } =
      next.entry.size + walk.remaining := by
  rw [remaining, List.map_cons, List.sum_cons]
  rfl

end Walk

theorem fileName_join (path : Path) (name : FileName) :
    (path.join name).fileName = some name := by
  rw [Path.fileName, Path.join, List.getLast?_append_of_ne_nil _ (List.cons_ne_nil _ _)]
  rfl

theorem isIgnoredDir_join (path : Path) (name : FileName) :
    isIgnoredDir (path.join name) = name.isIgnored := by
  rw [isIgnoredDir, fileName_join, Option.bind_some, FileName.isIgnored]

theorem isBuildDir_join (path : Path) (name : FileName) :
    isBuildDir (path.join name) = decide (name.toStr = some "build") := by
  rw [isBuildDir, fileName_join, Option.bind_some]

theorem below_cons (path : Path) (name : FileName) (names : List FileName) :
    path.below (name :: names) = (path.join name).below names := by
  rw [Path.below, Path.below, Path.join, List.map_cons, List.append_assoc]
  rfl

theorem below_singleton (path : Path) (name : FileName) :
    path.below [name] = path.join name := rfl

theorem mem_sortChildren {children : List (FileName × Entry)}
    {child : FileName × Entry} :
    child ∈ sortChildren children ↔ child ∈ children :=
  (sortBy_perm _ children).mem_iff

section ProductionWalk

variable (keep : Path → Bool)

/-- A file or a special entry, which the walk offers to `keep`. -/
def Entry.isPlain : Entry → Bool
  | .file _ => true
  | .special _ => true
  | _ => false

/-- What a pending directory leads to: a chain of directories, none ignored and
none too deep, to an entry that is kept. -/
def LeadsToSource (next : Pending) (path : Path) : Prop :=
  ∃ dirs name found, path = next.path.below (dirs ++ [name]) ∧
    next.entry.Holds dirs name found ∧ found.isPlain = true ∧ keep path = true ∧
    (∀ dir ∈ dirs, dir.isIgnored = false) ∧
    (dirs = [] ∨ next.depth + dirs.length ≤ maxTraversalDepth)

/-- What one child of a directory adds. -/
def ChildLeadsToSource (path : Path) (depth : ℕ) (child : FileName × Entry)
    (target : Path) : Prop :=
  (child.2.isPlain = true ∧ keep target = true ∧ target = path.join child.1) ∨
    (child.2.isDir = true ∧ depth < maxTraversalDepth ∧
      child.1.isIgnored = false ∧
      LeadsToSource keep ⟨path.join child.1, child.2, depth + 1⟩ target)

theorem leadsToSource_iff (next : Pending) (target : Path) :
    LeadsToSource keep next target ↔
      ∃ children, next.entry.readDir = .ok children ∧
        ∃ child ∈ children,
          ChildLeadsToSource keep next.path next.depth child target := by
  constructor
  · rintro ⟨dirs, name, found, hpath, hholds, hplain, hkeep, hnames, hdepth⟩
    cases dirs with
    | nil =>
        obtain ⟨children, hread, hmem⟩ := hholds
        exact ⟨children, hread, _, hmem, Or.inl ⟨hplain, hkeep, hpath⟩⟩
    | cons dir rest =>
        obtain ⟨children, hread, inner, hmem, hdir, hinner⟩ := hholds
        rw [List.forall_mem_cons] at hnames
        have hdeep : next.depth + (rest.length + 1) ≤ maxTraversalDepth :=
          hdepth.resolve_left (List.cons_ne_nil _ _)
        refine ⟨children, hread, _, hmem, Or.inr ⟨hdir, by omega, hnames.1,
          rest, name, found, ?_, hinner, hplain, hkeep, hnames.2, Or.inr ?_⟩⟩
        · rw [hpath, List.cons_append, below_cons]
        · show next.depth + 1 + rest.length ≤ maxTraversalDepth
          omega
  · rintro ⟨children, hread, child, hmem, ⟨hplain, hkeep, hpath⟩ |
      ⟨hdir, hdeep, hname, rest, name, found, hpath, hinner, hplain, hkeep, hnames, hdepth⟩⟩
    · exact ⟨[], child.1, child.2, hpath, ⟨children, hread, hmem⟩, hplain, hkeep,
        List.forall_mem_nil _, Or.inl rfl⟩
    · refine ⟨child.1 :: rest, name, found, ?_,
        ⟨children, hread, child.2, hmem, hdir, hinner⟩,
        hplain, hkeep, List.forall_mem_cons.mpr ⟨hname, hnames⟩, Or.inr ?_⟩
      · rw [hpath, List.cons_append, below_cons]
      · show next.depth + (rest.length + 1) ≤ maxTraversalDepth
        rcases hdepth with rfl | hdepth
        · rw [List.length_nil]
          omega
        · change next.depth + 1 + rest.length ≤ maxTraversalDepth at hdepth
          omega

/-- What a visit may do to a walk: it finds what it found and what the child
leads to, and it leaves at most the child more to read. -/
def Visited (path : Path) (depth : ℕ) (child : FileName × Entry)
    (walk next : Walk) : Prop :=
  (∀ target, next.Finds (LeadsToSource keep) target ↔
    walk.Finds (LeadsToSource keep) target ∨
      ChildLeadsToSource keep path depth child target) ∧
    next.remaining ≤ walk.remaining + child.2.size

variable {keep}

theorem visited_unchanged {path : Path} {depth : ℕ} {child : FileName × Entry}
    {walk : Walk} (hnone : ∀ target, ¬ChildLeadsToSource keep path depth child target) :
    Visited keep path depth child walk walk := by
  refine ⟨fun target => ?_, Nat.le_add_right _ _⟩
  rw [or_iff_left (hnone target)]

theorem visited_plain {path : Path} {depth : ℕ} {child : FileName × Entry}
    {walk next : Walk} (hplain : child.2.isPlain = true) (hdir : child.2.isDir = false)
    (hnext : (if keep (path.join child.1) then
      Except.ok { walk with files := walk.files ++ [path.join child.1] }
      else .ok walk) = (Except.ok next : Except CommandError Walk)) :
    Visited keep path depth child walk next := by
  have hchild (target : Path) : ChildLeadsToSource keep path depth child target ↔
      keep target = true ∧ target = path.join child.1 := by
    simp [ChildLeadsToSource, hplain, hdir]
  split_ifs at hnext with hkeep
  · cases hnext
    refine ⟨fun target => ?_, Nat.le_add_right _ _⟩
    rw [Walk.finds_collect, List.mem_singleton, hchild]
    constructor
    · rintro (hfound | rfl)
      · exact Or.inl hfound
      · exact Or.inr ⟨hkeep, rfl⟩
    · rintro (hfound | ⟨-, rfl⟩)
      · exact Or.inl hfound
      · exact Or.inr rfl
  · cases hnext
    apply visited_unchanged
    intro target hleads
    obtain ⟨hkept, rfl⟩ := (hchild target).mp hleads
    exact hkeep hkept

theorem visited_directory {path : Path} {depth : ℕ} {child : FileName × Entry}
    {walk next : Walk} (hplain : child.2.isPlain = false) (hdir : child.2.isDir = true)
    (hnext : (if depth < maxTraversalDepth && !child.1.isIgnored then
      Except.ok { walk with
        pending := ⟨path.join child.1, child.2, depth + 1⟩ :: walk.pending }
      else .ok walk) = (Except.ok next : Except CommandError Walk)) :
    Visited keep path depth child walk next := by
  have hchild (target : Path) : ChildLeadsToSource keep path depth child target ↔
      (depth < maxTraversalDepth ∧ child.1.isIgnored = false) ∧
        LeadsToSource keep ⟨path.join child.1, child.2, depth + 1⟩ target := by
    simp [ChildLeadsToSource, hplain, hdir, and_assoc]
  simp only [Bool.and_eq_true, decide_eq_true_eq, Bool.not_eq_true'] at hnext
  split_ifs at hnext with hpushed
  · cases hnext
    refine ⟨fun target => ?_, ?_⟩
    · rw [Walk.finds_push, hchild, and_iff_right hpushed]
    · rw [Walk.remaining_push, Nat.add_comm]
  · cases hnext
    apply visited_unchanged
    intro target hleads
    exact hpushed ((hchild target).mp hleads).1

theorem visitSource_spec {path : Path} {depth : ℕ} {walk next : Walk}
    {child : FileName × Entry}
    (hvisit : visitSource keep path depth walk child = .ok next) :
    Visited keep path depth child walk next := by
  obtain ⟨name, entry⟩ := child
  cases entry with
  | unknown failure => cases hvisit
  | symlink target =>
      cases hvisit
      apply visited_unchanged
      intro target
      simp [ChildLeadsToSource, Entry.isPlain, Entry.isDir]
  | file content => exact visited_plain rfl rfl hvisit
  | special content => exact visited_plain rfl rfl hvisit
  | directory failure children =>
      simp only [visitSource, isIgnoredDir_join] at hvisit
      exact visited_directory rfl rfl hvisit

theorem foldlM_visitSource {path : Path} {depth : ℕ}
    {children : List (FileName × Entry)} {walk next : Walk}
    (hvisit : children.foldlM (visitSource keep path depth) walk = .ok next) :
    (∀ target, next.Finds (LeadsToSource keep) target ↔
      walk.Finds (LeadsToSource keep) target ∨
        ∃ child ∈ children, ChildLeadsToSource keep path depth child target) ∧
      next.remaining ≤ walk.remaining + entrySizes children := by
  induction children generalizing walk with
  | nil =>
      cases hvisit
      exact ⟨fun target => by simp, Nat.le_add_right _ _⟩
  | cons child rest ih =>
      rw [List.foldlM_cons] at hvisit
      cases hfirst : visitSource keep path depth walk child with
      | error failure =>
          rw [hfirst] at hvisit
          cases hvisit
      | ok visited =>
          rw [hfirst] at hvisit
          obtain ⟨hfinds, hleft⟩ := visitSource_spec hfirst
          obtain ⟨hrest, hrestLeft⟩ := ih hvisit
          refine ⟨fun target => ?_, ?_⟩
          · rw [hrest, hfinds, or_assoc, List.exists_mem_cons_iff]
          · rw [entrySizes]
            omega

theorem entrySizes_sortChildren (children : List (FileName × Entry)) :
    entrySizes (sortChildren children) = entrySizes children :=
  entrySizes_perm (sortBy_perm _ children)

variable (keep)

/-- What the loop keeps: unless the walk failed, it finds what the root leads
to. -/
def Finding (root : Pending) : Except CommandError Walk → Prop
  | .ok walk => ∀ target, walk.Finds (LeadsToSource keep) target ↔
      LeadsToSource keep root target
  | .error _ => True

def walkRemaining : Except CommandError Walk → ℕ
  | .ok walk => walk.remaining
  | .error _ => 0

theorem sourceStep_spec {root : Pending} (state next : Except CommandError Walk)
    (hfinding : Finding keep root state) (hstep : sourceStep keep state = some next) :
    Finding keep root next ∧ walkRemaining next < walkRemaining state := by
  rw [sourceStep.eq_def] at hstep
  split at hstep
  · rename_i first pending files
    have hremaining : walkRemaining (.ok ⟨first :: pending, files⟩) =
        first.entry.size + Walk.remaining ⟨pending, files⟩ :=
      Walk.remaining_push ⟨pending, files⟩ first
    have hpositive := first.entry.size_pos
    obtain rfl := Option.some.inj hstep
    cases hread : first.entry.readDir with
    | error failure =>
        simp only [readChildPaths, hread, Except.bind]
        exact ⟨trivial, by rw [hremaining, walkRemaining]; omega⟩
    | ok children =>
        simp only [readChildPaths, hread, Except.bind]
        cases hvisit : (sortChildren children).foldlM
            (visitSource keep first.path first.depth) ⟨pending, files⟩ with
        | error failure => exact ⟨trivial, by rw [hremaining, walkRemaining]; omega⟩
        | ok visited =>
            obtain ⟨hfinds, hleft⟩ := foldlM_visitSource hvisit
            have hsmaller := Entry.entrySizes_lt hread
            rw [entrySizes_sortChildren] at hleft
            refine ⟨fun target => ?_, by rw [hremaining, walkRemaining]; omega⟩
            rw [hfinds, ← hfinding target]
            simp only [mem_sortChildren]
            have hpop := Walk.finds_push (LeadsToSource keep) ⟨pending, files⟩ first target
            rw [hpop, leadsToSource_iff, hread]
            simp
  · cases hstep

theorem finds_of_no_pending (leads : Pending → Path → Prop) (files : List Path)
    (target : Path) : Walk.Finds leads ⟨[], files⟩ target ↔ target ∈ files := by
  simp [Walk.Finds]

theorem finds_start (leads : Pending → Path → Prop) (root : Pending) (target : Path) :
    Walk.Finds leads ⟨[root], []⟩ target ↔ leads root target := by
  simp [Walk.Finds]

theorem remaining_start (root : Pending) :
    Walk.remaining ⟨[root], []⟩ = root.entry.size := by
  simp [Walk.remaining]

/-- The production walk collects exactly what the root leads to. -/
theorem mem_collectSourceFiles {root : Path} {tree : Entry} {files : List Path}
    (hwalk : collectSourceFiles keep root tree = .ok files) (target : Path) :
    target ∈ files ↔ LeadsToSource keep ⟨root, tree, 0⟩ target := by
  have hstart : Finding keep ⟨root, tree, 0⟩ (.ok ⟨[⟨root, tree, 0⟩], []⟩) :=
    fun target => finds_start _ _ target
  obtain ⟨hfinding, hexit⟩ := whileLoop_spec (sourceStep_spec keep) tree.size hstart
    (le_of_eq (remaining_start _))
  rw [collectSourceFiles] at hwalk
  cases hend : whileLoop (sourceStep keep) tree.size (.ok ⟨[⟨root, tree, 0⟩], []⟩) with
  | error failure =>
      rw [hend] at hwalk
      cases hwalk
  | ok walk =>
      rw [hend] at hwalk hfinding hexit
      obtain rfl := Except.ok.inj hwalk
      obtain ⟨pending, collected⟩ := walk
      cases pending with
      | nil =>
          rw [(sortBy_perm _ collected).mem_iff, ← hfinding target]
          exact (finds_of_no_pending _ _ _).symm
      | cons next rest => cases hexit

end ProductionWalk

/-! ## What the generated walk finds -/

/-- What a pending directory leads to: a chain of directories, none ignored and
none too deep, to a `build` whose generated trees hold the file. -/
def LeadsToGenerated (next : Pending) (target : Path) : Prop :=
  ∃ dirs build found, next.entry.Holds dirs build found ∧ found.isDir = true ∧
    build.toStr = some "build" ∧ (∀ dir ∈ dirs, dir.isIgnored = false) ∧
    (dirs = [] ∨ next.depth + dirs.length ≤ maxTraversalDepth) ∧
    target ∈ collectGeneratedUnderBuild (next.path.below (dirs ++ [build])) found

def ChildLeadsToGenerated (path : Path) (depth : ℕ) (child : FileName × Entry)
    (target : Path) : Prop :=
  child.2.isDir = true ∧
    ((child.1.toStr = some "build" ∧
        target ∈ collectGeneratedUnderBuild (path.join child.1) child.2) ∨
      (depth < maxTraversalDepth ∧ child.1.isIgnored = false ∧
        LeadsToGenerated ⟨path.join child.1, child.2, depth + 1⟩ target))

theorem leadsToGenerated_iff (next : Pending) (target : Path) :
    LeadsToGenerated next target ↔
      ∃ children, next.entry.readDir = .ok children ∧
        ∃ child ∈ children,
          ChildLeadsToGenerated next.path next.depth child target := by
  constructor
  · rintro ⟨dirs, build, found, hholds, hfound, hbuild, hnames, hdepth, htarget⟩
    cases dirs with
    | nil =>
        obtain ⟨children, hread, hmem⟩ := hholds
        exact ⟨children, hread, _, hmem, hfound, Or.inl ⟨hbuild, htarget⟩⟩
    | cons dir rest =>
        obtain ⟨children, hread, inner, hmem, hdir, hinner⟩ := hholds
        rw [List.forall_mem_cons] at hnames
        have hdeep : next.depth + (rest.length + 1) ≤ maxTraversalDepth :=
          hdepth.resolve_left (List.cons_ne_nil _ _)
        rw [List.cons_append, below_cons] at htarget
        refine ⟨children, hread, _, hmem, hdir, Or.inr ⟨by omega, hnames.1,
          rest, build, found, hinner, hfound, hbuild, hnames.2, Or.inr ?_, htarget⟩⟩
        show next.depth + 1 + rest.length ≤ maxTraversalDepth
        omega
  · rintro ⟨children, hread, child, hmem, hdir, ⟨hbuild, htarget⟩ |
      ⟨hdeep, hname, rest, build, found, hinner, hfound, hbuild, hnames, hdepth, htarget⟩⟩
    · exact ⟨[], child.1, child.2, ⟨children, hread, hmem⟩, hdir, hbuild,
        List.forall_mem_nil _, Or.inl rfl, htarget⟩
    · refine ⟨child.1 :: rest, build, found,
        ⟨children, hread, child.2, hmem, hdir, hinner⟩,
        hfound, hbuild, List.forall_mem_cons.mpr ⟨hname, hnames⟩, Or.inr ?_, ?_⟩
      · show next.depth + (rest.length + 1) ≤ maxTraversalDepth
        rcases hdepth with rfl | hdepth
        · rw [List.length_nil]
          omega
        · change next.depth + 1 + rest.length ≤ maxTraversalDepth at hdepth
          omega
      · rw [List.cons_append, below_cons]
        exact htarget

theorem isIgnored_of_build {name : FileName} (hbuild : name.toStr = some "build") :
    name.isIgnored = true := by
  rw [FileName.isIgnored, hbuild]
  decide

theorem visitGenerated_spec (path : Path) (depth : ℕ) (walk : Walk)
    (child : FileName × Entry) :
    (∀ target, (visitGenerated path depth walk child).Finds LeadsToGenerated target ↔
      walk.Finds LeadsToGenerated target ∨
        ChildLeadsToGenerated path depth child target) ∧
      (visitGenerated path depth walk child).remaining ≤
        walk.remaining + child.2.size := by
  simp only [visitGenerated, isBuildDir_join, isIgnoredDir_join, ChildLeadsToGenerated,
    Bool.not_eq_true', decide_eq_true_eq, Bool.and_eq_true]
  split_ifs with hdir hbuild hpushed
  · refine ⟨fun target => ?_, Nat.le_add_right _ _⟩
    simp [hdir]
  · refine ⟨fun target => ?_, Nat.le_add_right _ _⟩
    rw [Walk.finds_collect]
    simp [hdir, hbuild, isIgnored_of_build hbuild]
  · refine ⟨fun target => ?_, ?_⟩
    · rw [Walk.finds_push]
      simp [hdir, hbuild, hpushed]
    · rw [Walk.remaining_push, Nat.add_comm]
  · refine ⟨fun target => (or_iff_left ?_).symm, Nat.le_add_right _ _⟩
    rintro ⟨-, ⟨hname, -⟩ | ⟨hdeep, hname, -⟩⟩
    · exact hbuild hname
    · exact hpushed ⟨hdeep, hname⟩

theorem foldl_visitGenerated (path : Path) (depth : ℕ)
    (children : List (FileName × Entry)) (walk : Walk) :
    (∀ target, (children.foldl (visitGenerated path depth) walk).Finds
        LeadsToGenerated target ↔
      walk.Finds LeadsToGenerated target ∨
        ∃ child ∈ children, ChildLeadsToGenerated path depth child target) ∧
      (children.foldl (visitGenerated path depth) walk).remaining ≤
        walk.remaining + entrySizes children := by
  induction children generalizing walk with
  | nil => exact ⟨fun target => by simp, Nat.le_add_right _ _⟩
  | cons child rest ih =>
      obtain ⟨hfinds, hleft⟩ := visitGenerated_spec path depth walk child
      obtain ⟨hrest, hrestLeft⟩ := ih (visitGenerated path depth walk child)
      rw [List.foldl_cons]
      refine ⟨fun target => ?_, ?_⟩
      · rw [hrest, hfinds, or_assoc, List.exists_mem_cons_iff]
      · rw [entrySizes]
        omega

theorem generatedStep_spec {root : Pending} (walk next : Walk)
    (hfinding : ∀ target, walk.Finds LeadsToGenerated target ↔
      LeadsToGenerated root target)
    (hstep : generatedStep walk = some next) :
    (∀ target, next.Finds LeadsToGenerated target ↔ LeadsToGenerated root target) ∧
      next.remaining < walk.remaining := by
  rw [generatedStep.eq_def] at hstep
  split at hstep
  · rename_i first pending files
    have hremaining := Walk.remaining_push ⟨pending, files⟩ first
    have hpositive := first.entry.size_pos
    have hpop (target : Path) :=
      Walk.finds_push LeadsToGenerated ⟨pending, files⟩ first target
    obtain rfl := Option.some.inj hstep
    cases hread : first.entry.readDir with
    | error failure =>
        simp only [readChildPaths, hread]
        refine ⟨fun target => ?_, by rw [hremaining]; omega⟩
        rw [← hfinding target, hpop, leadsToGenerated_iff, hread]
        simp
    | ok children =>
        simp only [readChildPaths, hread]
        obtain ⟨hfinds, hleft⟩ := foldl_visitGenerated first.path first.depth
          (sortChildren children) ⟨pending, files⟩
        have hsmaller := Entry.entrySizes_lt hread
        rw [entrySizes_sortChildren] at hleft
        refine ⟨fun target => ?_, by rw [hremaining]; omega⟩
        rw [hfinds, ← hfinding target, hpop, leadsToGenerated_iff, hread]
        simp [mem_sortChildren]
  · cases hstep

theorem mem_collectGeneratedKotlinFiles (root : Path) (tree : Entry) (target : Path) :
    target ∈ collectGeneratedKotlinFiles root tree ↔
      LeadsToGenerated ⟨root, tree, 0⟩ target := by
  obtain ⟨hfinding, hexit⟩ := whileLoop_spec generatedStep_spec tree.size
    (fun target => finds_start LeadsToGenerated ⟨root, tree, 0⟩ target)
    (le_of_eq (remaining_start _))
  rw [collectGeneratedKotlinFiles, (sortBy_perm _ _).mem_iff, ← hfinding target]
  cases hend : whileLoop generatedStep tree.size ⟨[⟨root, tree, 0⟩], []⟩ with
  | mk pending files =>
      rw [hend] at hexit
      cases pending with
      | nil => exact (finds_of_no_pending _ _ _).symm
      | cons next rest => cases hexit

/-! ## Below a generated directory -/

theorem collectKotlinUnder_eq {entry : Entry} {children : List (FileName × Entry)}
    (hread : entry.readDir = .ok children) (path : Path) {depth : ℕ}
    (hdepth : depth ≤ maxTraversalDepth) :
    collectKotlinUnder path depth entry = collectKotlinAmong path depth children := by
  fun_induction Entry.behind entry with
  | case1 target ih =>
      rw [collectKotlinUnder]
      exact ih hread
  | case2 entry hlink =>
      cases entry with
      | symlink target => exact absurd rfl (hlink target)
      | file content => cases hread
      | special content => cases hread
      | unknown failure => cases hread
      | directory failure listed =>
          cases failure with
          | some failure => cases hread
          | none =>
              cases hread
              simp [collectKotlinUnder, hdepth]

/-- What one child of a generated directory adds. -/
def generatedFrom (path : Path) (depth : ℕ) (child : FileName × Entry) : List Path :=
  collectKotlinAmong path depth [child]

theorem collectKotlinAmong_eq (path : Path) (depth : ℕ)
    (children : List (FileName × Entry)) :
    collectKotlinAmong path depth children =
      children.flatMap (generatedFrom path depth) := by
  induction children with
  | nil => rw [collectKotlinAmong, List.flatMap_nil]
  | cons child rest ih =>
      obtain ⟨name, entry⟩ := child
      cases entry <;>
        simp [collectKotlinAmong, generatedFrom, List.flatMap_cons, ih]

theorem generatedFrom_directory (path : Path) (depth : ℕ) (name : FileName)
    {entry : Entry} (hdir : entry.isDir = true) :
    generatedFrom path depth (name, entry) =
      collectKotlinUnder (path.join name) (depth + 1) entry := by
  cases entry with
  | directory failure children =>
      rw [generatedFrom, collectKotlinAmong, collectKotlinAmong, List.append_nil]
  | _ => cases hdir

/-- Every Kotlin file below is collected: no name is pruned. -/
theorem mem_collectKotlinUnder {rest : List FileName} {name : FileName}
    {content : Except IoError String} {entry : Entry} (path : Path) (depth : ℕ)
    (hholds : entry.Holds rest name (.file content))
    (hdepth : depth + rest.length ≤ maxTraversalDepth)
    (hkotlin : hasKotlinExtension (path.below (rest ++ [name])) = true) :
    path.below (rest ++ [name]) ∈ collectKotlinUnder path depth entry := by
  induction rest generalizing entry path depth with
  | nil =>
      obtain ⟨children, hread, hmem⟩ := hholds
      rw [collectKotlinUnder_eq hread path (by omega), collectKotlinAmong_eq,
        List.mem_flatMap]
      refine ⟨_, hmem, ?_⟩
      rw [List.nil_append, below_singleton] at hkotlin ⊢
      simp [generatedFrom, collectKotlinAmong, hkotlin]
  | cons dir rest ih =>
      obtain ⟨children, hread, inner, hmem, hdir, hinner⟩ := hholds
      rw [List.length_cons] at hdepth
      rw [List.cons_append, below_cons] at hkotlin ⊢
      rw [collectKotlinUnder_eq hread path (by omega), collectKotlinAmong_eq,
        List.mem_flatMap]
      refine ⟨_, hmem, ?_⟩
      rw [generatedFrom_directory _ _ _ hdir]
      exact ih _ _ hinner (by omega) hkotlin

mutual

/-- What is collected below a directory has its path. -/
theorem below_of_mem_collectKotlinUnder {target : Path} (path : Path) (depth : ℕ) :
    (entry : Entry) → target ∈ collectKotlinUnder path depth entry →
    ∃ rest name, target = path.below (rest ++ [name])
  | .directory failure children, hmem => by
      rw [collectKotlinUnder] at hmem
      split_ifs at hmem
      · cases hmem
      · exact below_of_mem_collectKotlinAmong path depth children hmem
  | .symlink entry, hmem => by
      rw [collectKotlinUnder] at hmem
      exact below_of_mem_collectKotlinUnder path depth entry hmem
  | .file content, hmem => by simp [collectKotlinUnder] at hmem
  | .special content, hmem => by simp [collectKotlinUnder] at hmem
  | .unknown failure, hmem => by simp [collectKotlinUnder] at hmem

theorem below_of_mem_collectKotlinAmong {target : Path} (path : Path) (depth : ℕ) :
    (children : List (FileName × Entry)) →
    target ∈ collectKotlinAmong path depth children →
    ∃ rest name, target = path.below (rest ++ [name])
  | [], hmem => by simp [collectKotlinAmong] at hmem
  | (name, .directory failure children) :: others, hmem => by
      rw [collectKotlinAmong, List.mem_append] at hmem
      rcases hmem with hmem | hmem
      · obtain ⟨rest, last, htarget⟩ := below_of_mem_collectKotlinUnder
          (path.join name) (depth + 1) (.directory failure children) hmem
        exact ⟨name :: rest, last, by rw [htarget, List.cons_append, below_cons]⟩
      · exact below_of_mem_collectKotlinAmong path depth others hmem
  | (name, .file content) :: others, hmem => by
      rw [collectKotlinAmong, List.mem_append] at hmem
      rcases hmem with hmem | hmem
      · split_ifs at hmem
        · exact ⟨[], name, List.mem_singleton.mp hmem⟩
        · cases hmem
      · exact below_of_mem_collectKotlinAmong path depth others hmem
  | (name, .special content) :: others, hmem => by
      simp only [collectKotlinAmong] at hmem
      exact below_of_mem_collectKotlinAmong path depth others hmem
  | (name, .symlink entry) :: others, hmem => by
      simp only [collectKotlinAmong] at hmem
      exact below_of_mem_collectKotlinAmong path depth others hmem
  | (name, .unknown failure) :: others, hmem => by
      simp only [collectKotlinAmong] at hmem
      exact below_of_mem_collectKotlinAmong path depth others hmem

end

end Ktsense.Cli
