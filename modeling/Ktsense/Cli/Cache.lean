import Ktsense.Cli.Collect
import Ktsense.Core.Outline

/-!
# The skeleton cache

`cache.rs` beside the functions of `main.rs` it mirrors: `outline` and `deps`
parse every file they read, the cache parses a file only when no entry of its
path has the fingerprint of the text just read.  Extraction, JSON and the label
of a file under a root are taken as given.
-/

namespace Ktsense.Cli

open Ktsense.Core Ktsense.Foundation

/-! ## What the commands print -/

def noun : DepLevel → String
  | .file => "file"
  | .package => "package"

/-- `append_lines`: what it appends. -/
def listedLines {T : Type*} (items : List T) (renderLine : T → String) : String :=
  if items.isEmpty then "- none\n"
  else String.join (items.map fun item => renderLine item ++ "\n")

def renderDepsMarkdown (graph : ImportGraph) : String :=
  "# Dependencies\n\n" ++ "Level: " ++ noun graph.level ++ ". " ++
    pluralize graph.nodes.length (noun graph.level) ++ ", " ++
    pluralize graph.edges.length "edge" ++ ", " ++
    pluralize graph.external.length "external import" ++ ", " ++
    pluralize graph.cycles.length "cycle" ++ ".\n" ++
    "\n## Edges\n" ++
    listedLines graph.edges (fun edge =>
      "- " ++ neutralize edge.origin ++ " -> " ++ neutralize edge.destination) ++
    "\n## Cycles\n" ++
    listedLines graph.cycles (fun cycle =>
      "- \x7b " ++ ", ".intercalate (cycle.map neutralize) ++ " \x7d") ++
    "\n## External imports\n" ++
    listedLines graph.external (fun external =>
      "- " ++ neutralize external.source ++ " -> " ++ neutralize external.imported) ++
    "\nResolution is syntactic: edges are import statements, not type-checked " ++
    "references.\n"

def renderDepsDot (graph : ImportGraph) : String :=
  "digraph deps \x7b\n  rankdir=LR;\n" ++
    String.join (graph.nodes.map fun node => "  \"" ++ neutralize node ++ "\";\n") ++
    String.join (graph.edges.map fun edge =>
      "  \"" ++ neutralize edge.origin ++ "\" -> \"" ++
        neutralize edge.destination ++ "\";\n") ++
    "\x7d\n"

mutual

def stripAnnotations : Declaration → Declaration
  | declaration@{ children, .. } =>
      { declaration with annotations := [], children := stripAll children }

def stripAll : List Declaration → List Declaration
  | [] => []
  | declaration :: rest => stripAnnotations declaration :: stripAll rest

end

def withoutAnnotations (skeleton : FileSkeleton) : FileSkeleton :=
  { skeleton with declarations := stripAll skeleton.declarations }

/-- What the commands take from outside: the syntax adapter, the label of a file
under a root, and JSON. -/
structure Adapters where
  extract : String → String → Option FileSkeleton
  normalizedPath : Path → Path → String
  skeletonJson : FileSkeleton → Except CommandError String
  graphJson : ImportGraph → Except CommandError String

/-- What stands at each path while a request is answered. -/
abbrev Disk := Path → Entry

section Commands

variable (adapters : Adapters)

def present (skeleton : FileSkeleton) (format : Format) (options : RenderOptions) :
    Except CommandError String :=
  match format with
  | .md => .ok (renderMarkdown skeleton options)
  | .json =>
      if options.includeAnnotations then adapters.skeletonJson skeleton
      else adapters.skeletonJson (withoutAnnotations skeleton)
  | .dot => .error (.unsupportedFormat "outline")

def presentDeps (graph : ImportGraph) : Format → Except CommandError String
  | .md => .ok (renderDepsMarkdown graph)
  | .dot => .ok (renderDepsDot graph)
  | .json => adapters.graphJson graph

/-! ## In process -/

/-- `parse_fresh`, which `outline` spells out. -/
def parseFresh (root file : Path) (source : String) :
    Except CommandError FileSkeleton :=
  match adapters.extract (adapters.normalizedPath root file) source with
  | some skeleton => .ok skeleton
  | none => .error (.unparseable file)

def outline (disk : Disk) (root file : Path) (format : Format)
    (options : RenderOptions) : Except CommandError String :=
  match (disk file).readToString with
  | .error failure => .error (.read file failure)
  | .ok source => (parseFresh adapters root file source).bind fun skeleton =>
      present adapters skeleton format options

def skeletonForDeps (disk : Disk) (root path : Path) : Option FileSkeleton :=
  match (disk path).readToString with
  | .error _ => none
  | .ok source => adapters.extract (adapters.normalizedPath root path) source

def deps (disk : Disk) (root : Path) (level : DepLevel) (format : Format) :
    Except CommandError String :=
  (collectKotlinFiles root (disk root)).bind fun files =>
    let skeletons := files.filterMap (skeletonForDeps adapters disk root)
    presentDeps adapters (buildImportGraph skeletons level) format

/-! ## Through the cache -/

structure CacheEntry where
  fingerprint : UInt64
  skeleton : FileSkeleton

/-- The map from a path to its entry. -/
abbrev SkeletonCache := Path → Option CacheEntry

/-- FNV-1a over the bytes of a file, with wrapping multiplication. -/
def fingerprint (source : String) : UInt64 :=
  (utf8 source).foldl (fun hash byte => (hash ^^^ byte.toUInt64) * 0x00000100000001b3)
    0xcbf29ce484222325

namespace SkeletonCache

def empty : SkeletonCache := fun _ => none

def hit (cache : SkeletonCache) (file : Path) (key : UInt64) : Option FileSkeleton :=
  ((cache file).filter fun entry => entry.fingerprint = key).map (·.skeleton)

def store (cache : SkeletonCache) (file : Path) (entry : CacheEntry) : SkeletonCache :=
  Function.update cache file (some entry)

def resolve (cache : SkeletonCache) (root file : Path) (source : String) :
    SkeletonCache × Except CommandError FileSkeleton :=
  let key := Cli.fingerprint source
  match cache.hit file key with
  | some skeleton => (cache, .ok skeleton)
  | none =>
      match parseFresh adapters root file source with
      | .ok skeleton => (cache.store file ⟨key, skeleton⟩, .ok skeleton)
      | .error failure => (cache, .error failure)

def outline (cache : SkeletonCache) (disk : Disk) (root file : Path)
    (format : Format) (options : RenderOptions) :
    SkeletonCache × Except CommandError String :=
  match (disk file).readToString with
  | .error failure => (cache, .error (.read file failure))
  | .ok source =>
      let (cache, skeleton) := cache.resolve adapters root file source
      (cache, skeleton.bind fun skeleton => present adapters skeleton format options)

/-- The `skeleton_for_deps` of the cache. -/
def skeletonForDeps (cache : SkeletonCache) (disk : Disk) (root path : Path) :
    SkeletonCache × Option FileSkeleton :=
  match (disk path).readToString with
  | .error _ => (cache, none)
  | .ok source =>
      let (cache, skeleton) := cache.resolve adapters root path source
      (cache, skeleton.toOption)

/-- `filter_map` with `skeleton_for_deps`, file after file. -/
def skeletonsForDeps (disk : Disk) (root : Path) :
    SkeletonCache → List Path → SkeletonCache × List FileSkeleton
  | cache, [] => (cache, [])
  | cache, path :: rest =>
      let (cache, skeleton) := cache.skeletonForDeps adapters disk root path
      let (cache, skeletons) := skeletonsForDeps disk root cache rest
      (cache, skeleton.toList ++ skeletons)

def deps (cache : SkeletonCache) (disk : Disk) (root : Path) (level : DepLevel)
    (format : Format) : SkeletonCache × Except CommandError String :=
  match collectKotlinFiles root (disk root) with
  | .error failure => (cache, .error failure)
  | .ok files =>
      let (cache, skeletons) := skeletonsForDeps adapters disk root cache files
      (cache, presentDeps adapters (buildImportGraph skeletons level) format)

end SkeletonCache

/-! ## Histories -/

inductive CacheRequest where
  | outline (root file : Path) (format : Format) (options : RenderOptions)
  | deps (root : Path) (level : DepLevel) (format : Format)

/-- The answer in process. -/
def CacheRequest.fresh (disk : Disk) : CacheRequest → Except CommandError String
  | .outline root file format options =>
      Cli.outline adapters disk root file format options
  | .deps root level format => Cli.deps adapters disk root level format

/-- The answer through the cache, and the cache after it. -/
def CacheRequest.cached (cache : SkeletonCache) (disk : Disk) :
    CacheRequest → SkeletonCache × Except CommandError String
  | .outline root file format options =>
      cache.outline adapters disk root file format options
  | .deps root level format => cache.deps adapters disk root level format

/-- A request with the disk it finds: between two requests anything may have been
created, rewritten or deleted. -/
abbrev History := List (Disk × CacheRequest)

/-- The requests of a history answered one after the other. -/
def answerAll :
    SkeletonCache → History → SkeletonCache × List (Except CommandError String)
  | cache, [] => (cache, [])
  | cache, (disk, request) :: rest =>
      let (cache, answer) := request.cached adapters cache disk
      let (cache, answers) := answerAll cache rest
      (cache, answer :: answers)

/-- A text that a request read, with the file and its label. -/
structure SourceRead where
  file : Path
  display : String
  source : String

def readOf (disk : Disk) (root file : Path) : List SourceRead :=
  match (disk file).readToString with
  | .ok source => [⟨file, adapters.normalizedPath root file, source⟩]
  | .error _ => []

/-- What a request reads. -/
def CacheRequest.reads (disk : Disk) : CacheRequest → List SourceRead
  | .outline root file _ _ => readOf adapters disk root file
  | .deps root _ _ =>
      match collectKotlinFiles root (disk root) with
      | .ok files => files.flatMap (readOf adapters disk root)
      | .error _ => []

def History.reads (history : History) : List SourceRead :=
  history.flatMap fun (disk, request) => request.reads adapters disk

/-- No two texts read at one path share a fingerprint. -/
def CollisionFree (reads : List SourceRead) : Prop :=
  ∀ first ∈ reads, ∀ second ∈ reads, first.file = second.file →
    fingerprint first.source = fingerprint second.source →
      first.source = second.source

/-- A path is read under one label. -/
def LabelledAlike (reads : List SourceRead) : Prop :=
  ∀ first ∈ reads, ∀ second ∈ reads, first.file = second.file →
    first.display = second.display

/-- Every entry is what extraction made of a text that was read at its path. -/
def Recorded (reads : List SourceRead) (cache : SkeletonCache) : Prop :=
  ∀ file entry, cache file = some entry →
    ∃ read ∈ reads, read.file = file ∧ fingerprint read.source = entry.fingerprint ∧
      adapters.extract read.display read.source = some entry.skeleton

/-! ## One file -/

variable {adapters} {reads : List SourceRead}

theorem recorded_empty : Recorded adapters reads SkeletonCache.empty := by
  intro file entry hentry
  cases hentry

theorem Recorded.store {cache : SkeletonCache} (hcache : Recorded adapters reads cache)
    {read : SourceRead} (hread : read ∈ reads) {skeleton : FileSkeleton}
    (hextract : adapters.extract read.display read.source = some skeleton) :
    Recorded adapters reads
      (cache.store read.file ⟨fingerprint read.source, skeleton⟩) := by
  intro file entry hentry
  rw [SkeletonCache.store, Function.update_apply] at hentry
  split_ifs at hentry with hfile
  · cases hentry
    exact ⟨read, hread, hfile.symm, rfl, hextract⟩
  · exact hcache file entry hentry

/-- A hit is what extraction would give now. -/
theorem Recorded.hit (hcollision : CollisionFree reads) (hlabels : LabelledAlike reads)
    {cache : SkeletonCache} (hcache : Recorded adapters reads cache)
    {read : SourceRead} (hread : read ∈ reads) {skeleton : FileSkeleton}
    (hhit : cache.hit read.file (fingerprint read.source) = some skeleton) :
    adapters.extract read.display read.source = some skeleton := by
  rw [SkeletonCache.hit, Option.map_eq_some_iff] at hhit
  obtain ⟨entry, hentry, rfl⟩ := hhit
  rw [Option.filter_eq_some_iff, decide_eq_true_eq] at hentry
  obtain ⟨earlier, hearlier, hfile, hkey, hextract⟩ := hcache read.file entry hentry.1
  have hsource : earlier.source = read.source :=
    hcollision earlier hearlier read hread hfile (hkey.trans hentry.2)
  have hdisplay : earlier.display = read.display :=
    hlabels earlier hearlier read hread hfile
  rw [← hsource, ← hdisplay]
  exact hextract

/-- Resolving a text that is read: the skeleton or failure of a fresh parse, and
a cache that still holds only what was extracted. -/
theorem Recorded.resolve (hcollision : CollisionFree reads)
    (hlabels : LabelledAlike reads) {cache : SkeletonCache}
    (hcache : Recorded adapters reads cache) {root file : Path} {source : String}
    (hread : ⟨file, adapters.normalizedPath root file, source⟩ ∈ reads) :
    Recorded adapters reads (cache.resolve adapters root file source).1 ∧
      (cache.resolve adapters root file source).2 =
        parseFresh adapters root file source := by
  simp only [SkeletonCache.resolve]
  cases hhit : cache.hit file (fingerprint source) with
  | some skeleton =>
      have hextract := hcache.hit hcollision hlabels hread hhit
      simp only at hextract
      exact ⟨hcache, by simp only [parseFresh, hextract]⟩
  | none =>
      cases hextract : adapters.extract (adapters.normalizedPath root file) source with
      | none =>
          have hparse : parseFresh adapters root file source =
              .error (.unparseable file) := by
            simp only [parseFresh, hextract]
          simp only [hparse]
          exact ⟨hcache, trivial⟩
      | some skeleton =>
          have hparse : parseFresh adapters root file source = .ok skeleton := by
            simp only [parseFresh, hextract]
          simp only [hparse]
          exact ⟨hcache.store hread hextract, trivial⟩

/-! ## One request -/

theorem toOption_parseFresh (root file : Path) (source : String) :
    (parseFresh adapters root file source).toOption =
      adapters.extract (adapters.normalizedPath root file) source := by
  rw [parseFresh]
  cases adapters.extract (adapters.normalizedPath root file) source <;> rfl

theorem Recorded.outline (hcollision : CollisionFree reads)
    (hlabels : LabelledAlike reads) {cache : SkeletonCache}
    (hcache : Recorded adapters reads cache) {disk : Disk} {root file : Path}
    (hreads : ∀ read ∈ readOf adapters disk root file, read ∈ reads)
    (format : Format) (options : RenderOptions) :
    Recorded adapters reads (cache.outline adapters disk root file format options).1 ∧
      (cache.outline adapters disk root file format options).2 =
        Cli.outline adapters disk root file format options := by
  cases hsource : (disk file).readToString with
  | error failure =>
      simp only [SkeletonCache.outline, Cli.outline, hsource]
      exact ⟨hcache, trivial⟩
  | ok source =>
      have hread : ⟨file, adapters.normalizedPath root file, source⟩ ∈ reads := by
        apply hreads
        simp only [readOf, hsource, List.mem_singleton]
      obtain ⟨hkept, hparse⟩ := hcache.resolve hcollision hlabels hread
      simp only [SkeletonCache.outline, Cli.outline, hsource, hparse]
      exact ⟨hkept, trivial⟩

theorem Recorded.skeletonForDeps (hcollision : CollisionFree reads)
    (hlabels : LabelledAlike reads) {cache : SkeletonCache}
    (hcache : Recorded adapters reads cache) {disk : Disk} {root path : Path}
    (hreads : ∀ read ∈ readOf adapters disk root path, read ∈ reads) :
    Recorded adapters reads (cache.skeletonForDeps adapters disk root path).1 ∧
      (cache.skeletonForDeps adapters disk root path).2 =
        Cli.skeletonForDeps adapters disk root path := by
  cases hsource : (disk path).readToString with
  | error failure =>
      simp only [SkeletonCache.skeletonForDeps, Cli.skeletonForDeps, hsource]
      exact ⟨hcache, trivial⟩
  | ok source =>
      have hread : ⟨path, adapters.normalizedPath root path, source⟩ ∈ reads := by
        apply hreads
        simp only [readOf, hsource, List.mem_singleton]
      obtain ⟨hkept, hparse⟩ := hcache.resolve hcollision hlabels hread
      simp only [SkeletonCache.skeletonForDeps, Cli.skeletonForDeps, hsource, hparse,
        toOption_parseFresh]
      exact ⟨hkept, trivial⟩

theorem Recorded.skeletonsForDeps (hcollision : CollisionFree reads)
    (hlabels : LabelledAlike reads) {cache : SkeletonCache}
    (hcache : Recorded adapters reads cache) {disk : Disk} {root : Path}
    {files : List Path}
    (hreads : ∀ read ∈ files.flatMap (readOf adapters disk root), read ∈ reads) :
    Recorded adapters reads
        (SkeletonCache.skeletonsForDeps adapters disk root cache files).1 ∧
      (SkeletonCache.skeletonsForDeps adapters disk root cache files).2 =
        files.filterMap (Cli.skeletonForDeps adapters disk root) := by
  induction files generalizing cache with
  | nil => exact ⟨hcache, rfl⟩
  | cons path rest ih =>
      rw [List.flatMap_cons, List.forall_mem_append] at hreads
      obtain ⟨hkept, hskeleton⟩ := hcache.skeletonForDeps hcollision hlabels hreads.1
      obtain ⟨hrest, hskeletons⟩ := ih hkept hreads.2
      refine ⟨hrest, ?_⟩
      simp only [SkeletonCache.skeletonsForDeps, hskeletons, hskeleton]
      rw [List.filterMap_cons]
      cases Cli.skeletonForDeps adapters disk root path <;> rfl

theorem Recorded.cached (hcollision : CollisionFree reads)
    (hlabels : LabelledAlike reads) {cache : SkeletonCache}
    (hcache : Recorded adapters reads cache) {disk : Disk} {request : CacheRequest}
    (hreads : ∀ read ∈ request.reads adapters disk, read ∈ reads) :
    Recorded adapters reads (request.cached adapters cache disk).1 ∧
      (request.cached adapters cache disk).2 = request.fresh adapters disk := by
  cases request with
  | outline root file format options =>
      exact hcache.outline hcollision hlabels hreads format options
  | deps root level format =>
      simp only [CacheRequest.cached, CacheRequest.fresh, SkeletonCache.deps, Cli.deps]
      simp only [CacheRequest.reads] at hreads
      cases hfiles : collectKotlinFiles root (disk root) with
      | error failure => exact ⟨hcache, rfl⟩
      | ok files =>
          rw [hfiles] at hreads
          obtain ⟨hkept, hskeletons⟩ := hcache.skeletonsForDeps hcollision hlabels hreads
          refine ⟨hkept, ?_⟩
          simp only [hskeletons]
          rfl

/-! ## Whole histories -/

theorem Recorded.answerAll (hcollision : CollisionFree reads)
    (hlabels : LabelledAlike reads) {cache : SkeletonCache}
    (hcache : Recorded adapters reads cache) {history : History}
    (hreads : ∀ read ∈ History.reads adapters history, read ∈ reads) :
    Recorded adapters reads (Cli.answerAll adapters cache history).1 ∧
      (Cli.answerAll adapters cache history).2 =
        history.map fun (disk, request) => request.fresh adapters disk := by
  induction history generalizing cache with
  | nil => exact ⟨hcache, rfl⟩
  | cons step rest ih =>
      obtain ⟨disk, request⟩ := step
      rw [History.reads, List.flatMap_cons, List.forall_mem_append] at hreads
      obtain ⟨hkept, hanswer⟩ := hcache.cached hcollision hlabels hreads.1
      obtain ⟨hrest, hanswers⟩ := ih hkept hreads.2
      refine ⟨hrest, ?_⟩
      simp only [Cli.answerAll, hanswers, hanswer, List.map_cons]

end Commands

def CacheRequest.root : CacheRequest → Path
  | .outline root _ _ _ => root
  | .deps root _ _ => root

theorem display_of_mem_readOf {adapters : Adapters} {disk : Disk} {root file : Path}
    {read : SourceRead} (hread : read ∈ readOf adapters disk root file) :
    read.display = adapters.normalizedPath root read.file := by
  rw [readOf] at hread
  split at hread
  · rw [List.mem_singleton] at hread
    rw [hread]
  · cases hread

theorem display_of_mem_reads {adapters : Adapters} {disk : Disk}
    {request : CacheRequest} {read : SourceRead}
    (hread : read ∈ request.reads adapters disk) :
    read.display = adapters.normalizedPath request.root read.file := by
  cases request with
  | outline root file format options => exact display_of_mem_readOf hread
  | deps root level format =>
      rw [CacheRequest.reads] at hread
      split at hread
      · obtain ⟨file, -, hread⟩ := List.mem_flatMap.mp hread
        exact display_of_mem_readOf hread
      · cases hread

/-- Requests that all name one root, as those of a daemon do, read each path
under one label. -/
theorem labelledAlike_of_one_root {adapters : Adapters} {history : History}
    {root : Path} (hroot : ∀ step ∈ history, step.2.root = root) :
    LabelledAlike (History.reads adapters history) := by
  have hdisplay : ∀ read ∈ History.reads adapters history,
      read.display = adapters.normalizedPath root read.file := by
    intro read hread
    obtain ⟨step, hstep, hread⟩ := List.mem_flatMap.mp hread
    rw [display_of_mem_reads hread, hroot step hstep]
  intro first hfirst second hsecond hfile
  rw [hdisplay first hfirst, hdisplay second hsecond, hfile]

/-- The answers through one cache are those in process, request by request, as
long as no two texts read at a path collide and each path is read under one
label; and every entry left is a skeleton that extraction made of a text read at
its path, so no failure is stored. -/
theorem cache_transparent (adapters : Adapters) (history : History)
    (hcollision : CollisionFree (History.reads adapters history))
    (hlabels : LabelledAlike (History.reads adapters history)) :
    (answerAll adapters .empty history).2 =
        history.map (fun (disk, request) => request.fresh adapters disk) ∧
      Recorded adapters (History.reads adapters history)
        (answerAll adapters .empty history).1 := by
  obtain ⟨hrecorded, hanswers⟩ :=
    recorded_empty.answerAll hcollision hlabels fun _ hread => hread
  exact ⟨hanswers, hrecorded⟩

/-! ## One file under two roots -/

namespace TwoRoots

def workspace : FileName := ⟨utf8 "workspace", by decide, by decide, by decide⟩

def core : FileName := ⟨utf8 "core", by decide, by decide, by decide⟩

def order : FileName := ⟨utf8 "Order.kt", by decide, by decide, by decide⟩

def outerRoot : Path := [.rootDir, .normal workspace]

def coreRoot : Path := outerRoot.join core

def file : Path := coreRoot.join order

def disk : Disk := fun path =>
  if path = file then .file (.ok "package shop") else .unknown ⟨true, "not found"⟩

def adapters : Adapters where
  extract display source :=
    if source = "package shop" then some ⟨display, some "shop", [], [], false, false⟩
    else none
  normalizedPath := Cli.normalizedPath some
  skeletonJson skeleton := .ok skeleton.path
  graphJson _ := .ok ""

def outlineUnder (root : Path) : Disk × CacheRequest :=
  (disk, .outline root file .md .default)

theorem collisionFree_outlines (first second : Path) :
    CollisionFree
      (History.reads adapters [outlineUnder first, outlineUnder second]) := by
  have hsource : ∀ read ∈
      History.reads adapters [outlineUnder first, outlineUnder second],
      read.source = "package shop" := by
    simp [History.reads, outlineUnder, CacheRequest.reads, readOf, disk,
      Entry.readToString, Entry.behind]
  intro left hleft right hright _ _
  rw [hsource left hleft, hsource right hright]

/-- The second request is answered with the label of the first. -/
theorem answered_under_first_root :
    CollisionFree
        (History.reads adapters [outlineUnder outerRoot, outlineUnder coreRoot]) ∧
      (answerAll adapters .empty [outlineUnder outerRoot, outlineUnder coreRoot]).2 ≠
        [outlineUnder outerRoot, outlineUnder coreRoot].map fun (disk, request) =>
          request.fresh adapters disk :=
  ⟨collisionFree_outlines outerRoot coreRoot, by decide⟩

theorem transparent_under_one_root :
    (answerAll adapters .empty [outlineUnder outerRoot, outlineUnder outerRoot]).2 =
        [outlineUnder outerRoot, outlineUnder outerRoot].map (fun (disk, request) =>
          request.fresh adapters disk) ∧
      Recorded adapters
        (History.reads adapters [outlineUnder outerRoot, outlineUnder outerRoot])
        (answerAll adapters .empty [outlineUnder outerRoot, outlineUnder outerRoot]).1 := by
  have hroot : ∀ step ∈ [outlineUnder outerRoot, outlineUnder outerRoot],
      step.2.root = outerRoot := by
    simp [outlineUnder, CacheRequest.root]
  exact cache_transparent adapters [outlineUnder outerRoot, outlineUnder outerRoot]
    (collisionFree_outlines outerRoot outerRoot) (labelledAlike_of_one_root hroot)

end TwoRoots

end Ktsense.Cli
