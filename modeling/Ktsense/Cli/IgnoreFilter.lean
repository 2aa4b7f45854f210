import Ktsense.Cli.Collect

/-!
# The filter against the walks

`is_inside_ignored_dir` is to drop what the walks would not read.  On the names
alone: the production walk reads a file when no directory above it is ignored,
the generated walk when the first ignored one is a `build` with a generated tree
in it, and the filter keeps it when every ignored one is.  The walks take a name
that is not UTF-8 for no ignored one, while the filter reads it with replacement
and drops it for a leading dot.
-/

namespace Ktsense.Cli

open Ktsense.Core Ktsense.Foundation

/-! ## Names as the walks and the filter read them -/

namespace FileName

/-- A leading dot of a name that is not UTF-8: the filter drops it, the walks do
not. -/
def HiddenUndecodable (name : FileName) : Prop :=
  name.toStr = none ∧ name.bytes.head? = some 0x2E

instance (name : FileName) : Decidable name.HiddenUndecodable :=
  inferInstanceAs (Decidable (_ ∧ _))

def IsGenerated (name : FileName) : Prop := ∃ text ∈ generatedDirs, name.toStr = some text

theorem text_of_toStr {name : FileName} {text : String} (htext : name.toStr = some text) :
    name.text = text := fromUtf8Lossy_of_fromUtf8 htext

/-- A text without the replacement character is read from no other bytes than its own. -/
theorem text_eq_iff {name : FileName} {plain : String}
    (hplain : replacementCharacter ∉ plain.toList) :
    name.text = plain ↔ name.toStr = some plain := by
  constructor
  · intro htext
    cases hdecoded : name.toStr with
    | some text => rw [← text_of_toStr hdecoded, htext]
    | none =>
        have hreplaced := mem_fromUtf8Lossy hdecoded
        exact absurd (htext ▸ hreplaced) hplain
  · exact text_of_toStr

theorem not_mem_of_listed {name : FileName} (hnone : name.toStr = none)
    {listed : List String} (hlisted : ∀ plain ∈ listed, replacementCharacter ∉ plain.toList) :
    name.text ∉ listed :=
  fun hmem => hlisted _ hmem (mem_fromUtf8Lossy hnone)

theorem text_mem_generatedDirs (name : FileName) :
    name.text ∈ generatedDirs ↔ name.IsGenerated := by
  have hplain : ∀ plain ∈ generatedDirs, replacementCharacter ∉ plain.toList := by decide
  constructor
  · intro hmem
    exact ⟨name.text, hmem, (text_eq_iff (hplain _ hmem)).mp rfl⟩
  · rintro ⟨text, hmem, htext⟩
    rwa [text_of_toStr htext]

theorem text_build (name : FileName) : name.text = "build" ↔ name.toStr = some "build" :=
  text_eq_iff (by decide)

theorem head?_text (name : FileName) :
    name.text.toList.head? = some '.' ↔ name.bytes.head? = some 0x2E := by
  rw [text, fromUtf8Lossy, String.toList_ofList, head?_lossyFrom (by decide)]
  rfl

/-- What the filter skips: the names the walks skip, and a dot before what is not
UTF-8. -/
theorem isIgnoredDirName_text (name : FileName) :
    isIgnoredDirName name.text = true ↔ name.isIgnored = true ∨ name.HiddenUndecodable := by
  cases hdecoded : name.toStr with
  | some text => simp [isIgnored, HiddenUndecodable, hdecoded, text_of_toStr hdecoded]
  | none =>
      have hlisted : name.text ∉ ignoredDirs := not_mem_of_listed hdecoded (by decide)
      simp [isIgnored, HiddenUndecodable, hdecoded, isIgnoredDirName, head?_text, hlisted]

theorem IsGenerated.not_skipped {name : FileName} (hgenerated : name.IsGenerated) :
    ¬(name.isIgnored = true ∨ name.HiddenUndecodable) := by
  have hall : ∀ text ∈ generatedDirs, isIgnoredDirName text = false := by decide
  rw [← isIgnoredDirName_text, Bool.not_eq_true]
  exact hall _ ((text_mem_generatedDirs name).mpr hgenerated)

theorem slash_not_mem_text (name : FileName) : '/' ∉ name.text.toList := by
  intro hmem
  rw [text, fromUtf8Lossy, String.toList_ofList] at hmem
  exact name.noSlash (mem_of_mem_lossyFrom (by decide) hmem)

theorem text_ne_empty (name : FileName) : name.text.toList ≠ [] := by
  rw [text, fromUtf8Lossy, String.toList_ofList]
  exact lossyFrom_ne_nil name.nonempty

end FileName

/-! ## The filter on names -/

/-- A directory is followed by one of the generated trees. -/
def LeadsIntoGenerated (dir : FileName) (after : List FileName) : Prop :=
  dir.toStr = some "build" ∧ ∃ child ∈ after.head?, child.IsGenerated

/-- Every directory the filter judges ignored is a `build` that a generated tree
follows. -/
def OnlyGeneratedIgnored (dirs : List FileName) : Prop :=
  ∀ before dir after, dirs = before ++ dir :: after →
    dir.isIgnored = true ∨ dir.HiddenUndecodable → LeadsIntoGenerated dir after

theorem onlyGeneratedIgnored_nil : OnlyGeneratedIgnored [] := by
  intro before dir after hsplit
  simp at hsplit

theorem onlyGeneratedIgnored_cons (dir : FileName) (rest : List FileName) :
    OnlyGeneratedIgnored (dir :: rest) ↔
      (dir.isIgnored = true ∨ dir.HiddenUndecodable → LeadsIntoGenerated dir rest) ∧
        OnlyGeneratedIgnored rest := by
  constructor
  · intro honly
    exact ⟨honly [] dir rest rfl, fun before other after hsplit =>
      honly (dir :: before) other after (by rw [hsplit, List.cons_append])⟩
  · rintro ⟨hhead, htail⟩ before other after hsplit hskipped
    cases before with
    | nil =>
        obtain ⟨rfl, rfl⟩ := List.cons.inj hsplit
        exact hhead hskipped
    | cons first before => exact htail before other after (List.cons.inj hsplit).2 hskipped

theorem anySkipped_cons (name : String) (rest : List String) :
    anySkipped (name :: rest) =
      ((isIgnoredDirName name &&
        !(name = "build" && rest.head?.any generatedDirs.contains)) ||
        anySkipped rest) := by
  simp only [anySkipped, List.zipIdx_cons, List.any_cons, Nat.zero_add]
  congr 1
  · cases rest <;> simp
  · rw [List.zipIdx_succ, List.any_map]
    rfl

theorem leadsIntoGenerated_iff (dir : FileName) (after : List FileName) :
    LeadsIntoGenerated dir after ↔
      (decide (dir.text = "build") &&
        (after.map (·.text)).head?.any generatedDirs.contains) = true := by
  rw [LeadsIntoGenerated, Bool.and_eq_true, decide_eq_true_eq, dir.text_build]
  refine and_congr_right fun _ => ?_
  cases after <;> simp [FileName.text_mem_generatedDirs]

theorem anySkipped_eq_false_iff (dirs : List FileName) :
    anySkipped (dirs.map (·.text)) = false ↔ OnlyGeneratedIgnored dirs := by
  induction dirs with
  | nil => exact iff_of_true rfl onlyGeneratedIgnored_nil
  | cons dir rest ih =>
      rw [List.map_cons, anySkipped_cons, Bool.or_eq_false_iff, ih, onlyGeneratedIgnored_cons,
        Bool.and_eq_false_imp, dir.isIgnoredDirName_text, leadsIntoGenerated_iff,
        Bool.not_eq_false']

/-- The directories below the first ignored one, when that is a `build` and its
generated tree is entered. -/
def EntersGenerated (dirs before rest : List FileName) : Prop :=
  ∃ build child, dirs = before ++ build :: child :: rest ∧
    (∀ dir ∈ before, dir.isIgnored = false) ∧ build.toStr = some "build" ∧ child.IsGenerated

/-- Above what the walks skip, the filter drops only names that are not UTF-8. -/
theorem onlyGeneratedIgnored_append {dirs : List FileName}
    (hdirs : ∀ dir ∈ dirs, dir.isIgnored = false) (rest : List FileName) :
    OnlyGeneratedIgnored (dirs ++ rest) ↔
      (∀ dir ∈ dirs, ¬dir.HiddenUndecodable) ∧ OnlyGeneratedIgnored rest := by
  induction dirs with
  | nil => simp
  | cons dir others ih =>
      rw [List.forall_mem_cons] at hdirs
      have hhead : (dir.isIgnored = true ∨ dir.HiddenUndecodable →
          LeadsIntoGenerated dir (others ++ rest)) ↔ ¬dir.HiddenUndecodable := by
        constructor
        · intro hleads hhidden
          have hbuild := (hleads (.inr hhidden)).1
          rw [hhidden.1] at hbuild
          cases hbuild
        · rintro hplain (hignored | hhidden)
          · rw [hdirs.1] at hignored
            cases hignored
          · exact absurd hhidden hplain
      rw [List.cons_append, onlyGeneratedIgnored_cons, hhead, ih hdirs.2,
        List.forall_mem_cons, and_assoc]

/-- Inside a generated tree what lies deeper is judged, and what lies above it. -/
theorem EntersGenerated.onlyGeneratedIgnored_iff {dirs before rest : List FileName}
    (henters : EntersGenerated dirs before rest) :
    OnlyGeneratedIgnored dirs ↔
      (∀ dir ∈ before, ¬dir.HiddenUndecodable) ∧ OnlyGeneratedIgnored rest := by
  obtain ⟨build, child, rfl, hbefore, hbuild, hchild⟩ := henters
  have hleads : LeadsIntoGenerated build (child :: rest) := ⟨hbuild, child, rfl, hchild⟩
  rw [onlyGeneratedIgnored_append hbefore, onlyGeneratedIgnored_cons,
    onlyGeneratedIgnored_cons]
  simp [hleads, hchild.not_skipped]

/-- Where neither walk goes, the filter drops. -/
theorem not_onlyGeneratedIgnored {dirs : List FileName}
    (hignored : ¬∀ dir ∈ dirs, dir.isIgnored = false)
    (hgenerated : ∀ before rest, ¬EntersGenerated dirs before rest) :
    ¬OnlyGeneratedIgnored dirs := by
  induction dirs with
  | nil => exact absurd (List.forall_mem_nil _) hignored
  | cons dir others ih =>
      rw [onlyGeneratedIgnored_cons]
      rintro ⟨hleads, hothers⟩
      cases hdir : dir.isIgnored with
      | false =>
          refine ih (fun hplain => hignored (List.forall_mem_cons.mpr ⟨hdir, hplain⟩)) ?_ hothers
          rintro before rest ⟨build, child, rfl, hbefore, hentered⟩
          exact hgenerated (dir :: before) rest ⟨build, child, rfl,
            List.forall_mem_cons.mpr ⟨hdir, hbefore⟩, hentered⟩
      | true =>
          obtain ⟨hbuild, child, hhead, hchild⟩ := hleads (.inl hdir)
          cases others with
          | nil => cases hhead
          | cons next rest =>
              rw [← Option.some_inj.mp hhead] at hchild
              exact hgenerated [] rest ⟨dir, next, rfl, List.forall_mem_nil _, hbuild, hchild⟩

/-! ## The filter on a path below the root -/

theorem stripPrefix_below (root : Path) (names : List FileName) :
    (root.below names).stripPrefix root = some (names.map .normal) := by
  rw [Path.stripPrefix, Path.below, if_pos, List.drop_left]
  exact List.isPrefixOf_iff_prefix.mpr (List.prefix_append _ _)

theorem joinComponents_names (names : List FileName) :
    joinComponents (names.map .normal) = "/".intercalate (names.map (·.text)) := by
  have hrooted : Path.hasRoot (names.map .normal) = false := by
    cases names <;> simp [Path.hasRoot]
  have hkept : (names.map Component.normal).filter (· ≠ .rootDir) =
      names.map Component.normal := by
    rw [List.filter_eq_self]
    simp
  rw [joinComponents, hrooted, hkept, List.map_map]
  rfl

theorem splitSlash_intercalate {names : List FileName} (hne : names ≠ []) :
    splitSlash ("/".intercalate (names.map (·.text))) = names.map (·.text) := by
  have hfree : ∀ letters ∈ (names.map (·.text)).map String.toList, '/' ∉ letters := by
    simp only [List.map_map, List.forall_mem_map]
    exact fun name _ => name.slash_not_mem_text
  have hletters : ("/".intercalate (names.map (·.text))).toList =
      ['/'].intercalate ((names.map (·.text)).map String.toList) := by
    rw [String.toList_intercalate]
    rfl
  rw [splitSlash, hletters, List.splitOn_intercalate _ hfree (by simpa using hne),
    List.map_map]
  simp [Function.comp_def]

theorem head?_intercalate_names (names : List FileName) :
    ("/".intercalate (names.map (·.text))).toList.head? ≠ some '/' := by
  cases names with
  | nil => simp
  | cons name rest =>
      have hhead : ("/".intercalate ((name :: rest).map (·.text))).toList.head? =
          name.text.toList.head? := by
        have hne := name.text_ne_empty
        cases rest with
        | nil => simp
        | cons next rest =>
            rw [List.map_cons, List.map_cons, String.intercalate_cons_cons,
              String.append_assoc, String.toList_append, List.head?_append_of_ne_nil _ hne]
      rw [hhead]
      intro hslash
      exact name.slash_not_mem_text (List.mem_of_mem_head? hslash)

theorem isInsideIgnoredDir_below (canonicalize : Path → Option Path) (root : Path)
    (dirs : List FileName) (name : FileName) :
    isInsideIgnoredDir canonicalize root (root.below (dirs ++ [name])) =
      anySkipped (dirs.map (·.text)) := by
  have hrelative : normalizedPath canonicalize root (root.below (dirs ++ [name])) =
      "/".intercalate ((dirs ++ [name]).map (·.text)) := by
    rw [normalizedPath, stripPrefix_below]
    exact joinComponents_names _
  rw [isInsideIgnoredDir, hrelative, if_neg (head?_intercalate_names _),
    splitSlash_intercalate (by simp)]
  simp

theorem below_injective (root : Path) {left right : List FileName}
    (heq : root.below left = root.below right) : left = right := by
  have hmaps := List.append_cancel_left heq
  exact (List.map_injective_iff.mpr fun _ _ hname => Component.normal.inj hname) hmaps

/-! ## The walks on names -/

theorem below_append (root : Path) (outer inner : List FileName) :
    root.below (outer ++ inner) = (root.below outer).below inner := by
  rw [Path.below, Path.below, Path.below, List.map_append, List.append_assoc]

theorem Entry.Holds.split {entry found : Entry} {outer rest : List FileName}
    {dir name : FileName} (hholds : entry.Holds (outer ++ dir :: rest) name found) :
    ∃ inner, entry.Holds outer dir inner ∧ inner.isDir = true ∧
      inner.Holds rest name found := by
  induction outer generalizing entry with
  | nil =>
      obtain ⟨children, hread, inner, hmem, hdir, hinner⟩ := hholds
      exact ⟨inner, ⟨children, hread, hmem⟩, hdir, hinner⟩
  | cons first outer ih =>
      obtain ⟨children, hread, next, hmem, hdir, hnext⟩ := hholds
      obtain ⟨inner, houter, hinner, hrest⟩ := ih hnext
      exact ⟨inner, ⟨children, hread, next, hmem, hdir, houter⟩, hinner, hrest⟩

section OneFile

variable {root : Path} {tree : Entry} {dirs : List FileName} {name : FileName}
  {content : Except IoError String}

theorem mem_production_iff {files : List Path}
    (hwalk : collectKotlinFiles root tree = .ok files)
    (hholds : tree.Holds dirs name (.file content))
    (hkotlin : hasKotlinExtension (root.below (dirs ++ [name])) = true)
    (hdepth : dirs.length ≤ maxTraversalDepth) :
    root.below (dirs ++ [name]) ∈ files ↔
      ∀ dir ∈ dirs, dir.isIgnored = false := by
  rw [mem_collectSourceFiles hasKotlinExtension hwalk]
  constructor
  · rintro ⟨others, last, found, hpath, -, -, -, hnames, -⟩
    have heq := below_injective root hpath
    rw [(List.append_inj' heq rfl).1]
    exact hnames
  · intro hnames
    refine ⟨dirs, name, _, rfl, hholds, rfl, hkotlin, hnames, Or.inr ?_⟩
    rwa [Nat.zero_add]

theorem mem_collectGeneratedUnderBuild {buildDir : Path} {entry : Entry}
    {child : FileName} {rest : List FileName} (hdir : entry.isDir = true)
    (hholds : entry.Holds (child :: rest) name (.file content))
    (hchild : child.IsGenerated) (hdepth : rest.length ≤ maxTraversalDepth)
    (hkotlin : hasKotlinExtension (buildDir.below (child :: rest ++ [name])) = true) :
    buildDir.below (child :: rest ++ [name]) ∈
      collectGeneratedUnderBuild buildDir entry := by
  obtain ⟨children, hread, inner, hmem, -, hinner⟩ := hholds
  obtain ⟨text, hlisted, htext⟩ := hchild
  have hnamed : (child, inner) ∈ namedChildren entry text := by
    cases entry with
    | directory failure listed =>
        cases failure with
        | some failure => cases hread
        | none =>
            cases hread
            simp [namedChildren, hmem, utf8_of_fromUtf8 htext]
    | _ => cases hdir
  rw [List.cons_append, below_cons] at hkotlin ⊢
  rw [collectGeneratedUnderBuild, List.mem_flatMap]
  refine ⟨text, hlisted, List.mem_flatMap.mpr ⟨_, hnamed, ?_⟩⟩
  exact mem_collectKotlinUnder _ 0 hinner (by omega) hkotlin

theorem of_mem_collectGeneratedUnderBuild {buildDir target : Path} {entry : Entry}
    (hmem : target ∈ collectGeneratedUnderBuild buildDir entry) :
    ∃ child rest last, child.IsGenerated ∧
      target = buildDir.below (child :: rest ++ [last]) := by
  rw [collectGeneratedUnderBuild, List.mem_flatMap] at hmem
  obtain ⟨generated, hgenerated, hmem⟩ := hmem
  obtain ⟨child, hchild, hmem⟩ := List.mem_flatMap.mp hmem
  obtain ⟨rest, last, rfl⟩ := below_of_mem_collectKotlinUnder _ _ _ hmem
  have hname : child.1.bytes = utf8 generated := by
    rw [namedChildren.eq_def] at hchild
    split at hchild
    · simpa using (List.mem_filter.mp hchild).2
    · cases hchild
  refine ⟨child.1, rest, last, ⟨generated, hgenerated, ?_⟩, ?_⟩
  · rw [FileName.toStr, hname, fromUtf8_utf8]
  · rw [List.cons_append, below_cons]

theorem mem_generated_iff (hholds : tree.Holds dirs name (.file content))
    (hkotlin : hasKotlinExtension (root.below (dirs ++ [name])) = true)
    (hdepth : dirs.length ≤ maxTraversalDepth) :
    root.below (dirs ++ [name]) ∈ collectGeneratedKotlinFiles root tree ↔
      ∃ before rest, EntersGenerated dirs before rest := by
  rw [mem_collectGeneratedKotlinFiles]
  constructor
  · rintro ⟨before, build, found, -, -, hbuild, hnames, -, htarget⟩
    obtain ⟨child, rest, last, hchild, hpath⟩ := of_mem_collectGeneratedUnderBuild htarget
    rw [← below_append] at hpath
    have heq := below_injective root hpath
    have hsame : dirs ++ [name] = (before ++ build :: child :: rest) ++ [last] := by
      rw [heq]
      simp
    exact ⟨before, rest, build, child, (List.append_inj' hsame rfl).1, hnames, hbuild, hchild⟩
  · rintro ⟨before, rest, build, child, rfl, hbefore, hbuild, hchild⟩
    obtain ⟨entry, houter, hdir, hinner⟩ := hholds.split
    simp only [List.length_append, List.length_cons] at hdepth
    have hpath : root.below (before ++ build :: child :: rest ++ [name]) =
        (root.below (before ++ [build])).below (child :: rest ++ [name]) := by
      rw [← below_append]
      simp
    rw [hpath] at hkotlin ⊢
    refine ⟨before, build, entry, houter, hdir, hbuild, hbefore,
      Or.inr (by show 0 + before.length ≤ maxTraversalDepth; omega), ?_⟩
    exact mem_collectGeneratedUnderBuild hdir hinner hchild (by omega) hkotlin

end OneFile

/-! ## Agreement -/

/-- What the filter needs to follow the walks.  Where no directory is ignored, none
has a leading dot before what is not UTF-8; where the first ignored one is a `build`
whose generated tree the path enters, none above it has, and below it every directory
the filter judges ignored is again such a `build`. -/
structure FollowsWalks (dirs : List FileName) : Prop where
  production : (∀ dir ∈ dirs, dir.isIgnored = false) → ∀ dir ∈ dirs, ¬dir.HiddenUndecodable
  generated : ∀ before rest, EntersGenerated dirs before rest →
    (∀ dir ∈ before, ¬dir.HiddenUndecodable) ∧ OnlyGeneratedIgnored rest

/-- A path that the generated walk reads is not read by the other. -/
theorem EntersGenerated.not_production {dirs before rest : List FileName}
    (henters : EntersGenerated dirs before rest) :
    ¬∀ dir ∈ dirs, dir.isIgnored = false := by
  obtain ⟨build, child, rfl, -, hbuild, -⟩ := henters
  intro hplain
  have hignored := hplain build (by simp)
  rw [isIgnored_of_build hbuild] at hignored
  cases hignored

theorem onlyGeneratedIgnored_agrees_iff (dirs : List FileName) :
    (OnlyGeneratedIgnored dirs ↔ (∀ dir ∈ dirs, dir.isIgnored = false) ∨
      ∃ before rest, EntersGenerated dirs before rest) ↔ FollowsWalks dirs := by
  by_cases hgenerated : ∃ before rest, EntersGenerated dirs before rest
  · constructor
    · intro hagree
      refine ⟨fun hplain => ?_, fun before rest henters => ?_⟩
      · obtain ⟨before, rest, henters⟩ := hgenerated
        exact absurd hplain henters.not_production
      · exact henters.onlyGeneratedIgnored_iff.mp (hagree.mpr (.inr hgenerated))
    · intro hfollows
      obtain ⟨before, rest, henters⟩ := hgenerated
      exact iff_of_true (henters.onlyGeneratedIgnored_iff.mpr (hfollows.generated _ _ henters))
        (.inr ⟨before, rest, henters⟩)
  · rw [or_iff_left hgenerated]
    have hnone : ∀ before rest, ¬EntersGenerated dirs before rest :=
      fun before rest henters => hgenerated ⟨before, rest, henters⟩
    by_cases hplain : ∀ dir ∈ dirs, dir.isIgnored = false
    · have hkept := onlyGeneratedIgnored_append hplain []
      rw [List.append_nil, and_iff_left onlyGeneratedIgnored_nil] at hkept
      rw [hkept, iff_true_right hplain]
      exact ⟨fun hfree => ⟨fun _ => hfree, fun before rest henters =>
        absurd henters (hnone before rest)⟩, fun hfollows => hfollows.production hplain⟩
    · refine iff_of_true (iff_of_false (not_onlyGeneratedIgnored hplain hnone) hplain) ?_
      exact ⟨fun hall => absurd hall hplain, fun before rest henters =>
        absurd henters (hnone before rest)⟩

/-- The filter keeps a Kotlin file exactly when one of the walks collects it, if
and only if its directories let it follow the walks. -/
theorem ignore_filter_agrees_iff (canonicalize : Path → Option Path) (root : Path)
    (tree : Entry) (files : List Path)
    (hwalk : collectKotlinFiles root tree = .ok files)
    (dirs : List FileName) (name : FileName) (content : Except IoError String)
    (hholds : tree.Holds dirs name (.file content))
    (hkotlin : hasKotlinExtension (root.below (dirs ++ [name])) = true)
    (hdepth : dirs.length ≤ maxTraversalDepth) :
    (isInsideIgnoredDir canonicalize root (root.below (dirs ++ [name])) = false ↔
      root.below (dirs ++ [name]) ∈ files ∨
        root.below (dirs ++ [name]) ∈ collectGeneratedKotlinFiles root tree) ↔
      FollowsWalks dirs := by
  rw [isInsideIgnoredDir_below, mem_production_iff hwalk hholds hkotlin hdepth,
    mem_generated_iff hholds hkotlin hdepth, anySkipped_eq_false_iff]
  exact onlyGeneratedIgnored_agrees_iff dirs

/-! ## A generated package named `build` -/

namespace GeneratedPackage

def build : FileName := ⟨utf8 "build", by decide, by decide, by decide⟩

def generated : FileName := ⟨utf8 "generated", by decide, by decide, by decide⟩

def shop : FileName := ⟨utf8 "shop", by decide, by decide, by decide⟩

def info : FileName := ⟨utf8 "Info.kt", by decide, by decide, by decide⟩

def root : Path := [.rootDir, .normal shop]

/-- The tree of `build/generated/shop/build/Info.kt`. -/
def tree : Entry :=
  .directory none [(build, .directory none [(generated, .directory none
    [(shop, .directory none [(build, .directory none
      [(info, .file (.ok "package shop.build"))])])])])]

def dirs : List FileName := [build, generated, shop, build]

theorem holds_info : tree.Holds dirs info (.file (.ok "package shop.build")) :=
  ⟨_, rfl, _, .head _, rfl, _, rfl, _, .head _, rfl, _, rfl, _, .head _, rfl,
    _, rfl, _, .head _, rfl, _, rfl, .head _⟩

/-- The generated walk collects the file and the filter drops it. -/
theorem filter_drops_generated_file :
    collectKotlinFiles root tree = .ok [] ∧
      tree.Holds dirs info (.file (.ok "package shop.build")) ∧
      hasKotlinExtension (root.below (dirs ++ [info])) = true ∧
      dirs.length ≤ maxTraversalDepth ∧
      root.below (dirs ++ [info]) ∈ collectGeneratedKotlinFiles root tree ∧
      ¬(isInsideIgnoredDir some root (root.below (dirs ++ [info])) = false ↔
        root.below (dirs ++ [info]) ∈ ([] : List Path) ∨
          root.below (dirs ++ [info]) ∈ collectGeneratedKotlinFiles root tree) := by
  have hwalk : collectKotlinFiles root tree = .ok [] := rfl
  have hcollected :
      root.below (dirs ++ [info]) ∈ collectGeneratedKotlinFiles root tree := by
    decide
  have hdropped :
      isInsideIgnoredDir some root (root.below (dirs ++ [info])) = true := by
    decide
  refine ⟨hwalk, holds_info, by decide, by decide, hcollected, ?_⟩
  rw [hdropped]
  intro hagree
  exact absurd (hagree.mpr (Or.inr hcollected)) (by decide)

theorem agrees_iff_at_generated_file :
    collectKotlinFiles root tree = .ok [] ∧
      ((isInsideIgnoredDir some root (root.below (dirs ++ [info])) = false ↔
        root.below (dirs ++ [info]) ∈ ([] : List Path) ∨
          root.below (dirs ++ [info]) ∈ collectGeneratedKotlinFiles root tree) ↔
        FollowsWalks dirs) :=
  ⟨rfl, ignore_filter_agrees_iff some root tree [] rfl dirs info _ holds_info
    (by decide) (by decide)⟩

end GeneratedPackage

/-! ## A dot before a byte that is not UTF-8 -/

namespace HiddenUndecodable

open GeneratedPackage

def dotted : FileName := ⟨[0x2E, 0xFF], by decide, by decide, by decide⟩

def tree : Entry :=
  .directory none [(dotted, .directory none [(info, .file (.ok "package shop"))])]

/-- The production walk collects the file below such a directory, and the filter drops
it. -/
example :
    collectKotlinFiles root tree = .ok [root.below [dotted, info]] ∧
      isInsideIgnoredDir some root (root.below [dotted, info]) = true := by
  decide

end HiddenUndecodable

end Ktsense.Cli
