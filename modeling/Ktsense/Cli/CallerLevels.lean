import Ktsense.Cli.Collect
import Ktsense.Cli.Positions
import Ktsense.Core.TraceFilter
import Ktsense.Foundation.Dialogue
import Ktsense.Lsp.Client

/-!
# Deeper levels of callers

`Session::callers_of_each` asks the engine about one caller of the frontier at a time,
collapses each answer onto the enclosing declarations and puts the results together.
The put-together list is sorted by place, and of one place only the first entry is
kept: a declaration whose sites come from two callers of the frontier loses those of the
later one, and so does a second declaration on the same line.
-/

namespace Ktsense.Cli

open Ktsense.Core
open Ktsense.Foundation
open Ktsense.Lsp

/-! ## The files of an answer -/

structure SiteLocation where
  path : Path
  line : ℕ
  column : ℕ

inductive DeclarationScope where
  | included
  | excluded

/-- `textDocument/references` at a position. -/
structure ReferenceQuestion where
  position : FilePosition
  scope : DeclarationScope

/-- What a session reads: the file system under its root, and what the grammar makes of a
source. -/
structure Workspace where
  root : Path
  canonicalize : Path → Option Path
  read : String → Option String
  extract : String → Option FileSkeleton
  classifyReferenceSites : String → List (ℕ × ℕ) → List SiteKind
  isAlphanumeric : Char → Bool

/-- `Path::join`, as it prints. -/
def joinText (base path : String) : String :=
  if path.toList.head? = some '/' then path
  else if base = "" || endsWith base "/" then base ++ path
  else base ++ "/" ++ path

namespace Workspace

variable (workspace : Workspace)

def readSource (path : String) : Option String :=
  workspace.read (joinText (joinComponents workspace.root) path)

/-- `Session::absolute`. -/
def absolute (path : String) : String :=
  let canonicalRoot := (workspace.canonicalize workspace.root).getD workspace.root
  joinText (joinComponents canonicalRoot) path

/-- A skeleton bears the path it is extracted for. -/
def skeletonAt (path : String) : Option FileSkeleton :=
  (workspace.readSource path).bind fun source =>
    (workspace.extract source).map fun skeleton => { skeleton with path }

variable {workspace}

theorem path_skeletonAt {path : String} {skeleton : FileSkeleton}
    (hskeleton : workspace.skeletonAt path = some skeleton) : skeleton.path = path := by
  obtain ⟨source, -, hskeleton⟩ := Option.bind_eq_some_iff.mp hskeleton
  obtain ⟨extracted, -, rfl⟩ := Option.map_eq_some_iff.mp hskeleton
  rfl

end Workspace

/-- The skeletons of the files touched so far, and their list as of the last time it was
asked for. -/
structure Skeletons where
  byPath : OrderedMap String FileSkeleton
  ordered : List FileSkeleton
  stale : Bool
  named : ∀ path skeleton, byPath.get? path = some skeleton → skeleton.path = path
  fresh : stale = false → ordered = byPath.entries.map Prod.snd

namespace Skeletons

variable (skeletons : Skeletons)

def insert (path : String) (skeleton : FileSkeleton) (hpath : skeleton.path = path) :
    Skeletons where
  byPath := skeletons.byPath.insert path skeleton
  ordered := skeletons.ordered
  stale := true
  named := by
    intro other held hheld
    rw [OrderedMap.get?_insert] at hheld
    split_ifs at hheld with hother
    · rw [← Option.some.inj hheld, hother, hpath]
    · exact skeletons.named other held hheld
  fresh := by simp

def load (workspace : Workspace) (path : String) : Skeletons :=
  if (skeletons.byPath.get? path).isSome then skeletons
  else
    match hread : workspace.skeletonAt path with
    | none => skeletons
    | some skeleton => skeletons.insert path skeleton (Workspace.path_skeletonAt hread)

def all : List FileSkeleton × Skeletons :=
  if skeletons.stale then
    (skeletons.byPath.entries.map Prod.snd,
      { skeletons with
        ordered := skeletons.byPath.entries.map Prod.snd
        stale := false
        fresh := fun _ => rfl })
  else (skeletons.ordered, skeletons)

end Skeletons

/-! ## A session -/

structure Session where
  skeletons : Skeletons
  ignored : ℕ

namespace Workspace

variable (workspace : Workspace)

/-- A site under the path the answer names its file by. -/
def normalized (site : SiteLocation) : String × ℕ × ℕ :=
  (normalizedPath workspace.canonicalize workspace.root site.path, site.line, site.column)

/-- The kinds of the sites, in one pass per file; without its source a file leaves its
sites as code. -/
def siteKinds (normalized : List (String × ℕ × ℕ)) : List SiteKind :=
  let positionsByPath := OrderedMap.groupBy (fun entry => entry.1.1) normalized.zipIdx
  positionsByPath.entries.foldl
    (fun kinds (path, entries) =>
      match workspace.readSource path with
      | none => kinds
      | some source =>
          let coordinates := entries.map fun entry => entry.1.2
          let classified := workspace.classifyReferenceSites source coordinates
          (entries.zip classified).foldl (fun kinds (entry, kind) => kinds.set entry.2 kind)
            kinds)
    (List.replicate normalized.length .code)

/-- The reported sites as locations of the answer. -/
def locations (kept : List SiteLocation) : List Location :=
  let normalized := kept.map workspace.normalized
  (normalized.zip (workspace.siteKinds normalized)).map fun ((path, line, column), kind) =>
    ⟨path, line, some column, kind⟩

end Workspace

namespace Session

variable (workspace : Workspace) (session : Session)

def sites (locations : List SiteLocation) : List Location × Session :=
  let (ignored, kept) := locations.partition fun site =>
    isInsideIgnoredDir workspace.canonicalize workspace.root site.path
  let paths := kept.map fun site => (workspace.normalized site).1
  (workspace.locations kept,
    { skeletons := paths.foldl (fun skeletons path => skeletons.load workspace path)
        session.skeletons
      ignored := session.ignored + ignored.length })

end Session

/-- Where to ask about a caller: at its own name on its line. -/
def positionOf (workspace : Workspace) (caller : RelatedDeclaration) : Option FilePosition :=
  caller.qualifiedName.bind fun name =>
    namePosition workspace.isAlphanumeric workspace.read (workspace.absolute caller.path)
      caller.line (lastSegment name)

/-- The line a caller is declared on, which is no call of it. -/
def ownSite (caller : RelatedDeclaration) : Location :=
  ⟨caller.path, caller.line, none, .code⟩

/-- The order of `(test, path, line)`. -/
def levelKey (declaration : RelatedDeclaration) : Lex (Bool × Lex (String × ℕ)) :=
  toLex (declaration.test, toLex (declaration.path, declaration.line))

def samePlace (left right : RelatedDeclaration) : Bool :=
  left.path = right.path && left.line = right.line

/-- The callers found, put together to one level. -/
def collapsed (found : List RelatedDeclaration) : List RelatedDeclaration :=
  dedupBy samePlace (found.insertionSort fun left right => levelKey left ≤ levelKey right)

abbrev EngineDialogue (R : Type) :=
  Dialogue ReferenceQuestion (Except LspError (List SiteLocation)) R

/-- The loop of `callers_of_each`, with the callers found so far. -/
def gatherCallers (workspace : Workspace) : List RelatedDeclaration → Session →
    List RelatedDeclaration →
      EngineDialogue (Except LspError (List RelatedDeclaration × Session))
  | [], session, found => .done (.ok (found, session))
  | caller :: callers, session, found =>
      match positionOf workspace caller with
      | none => gatherCallers workspace callers session found
      | some position =>
          .ask ⟨position, .excluded⟩ fun
            | .error failure => .done (.error failure)
            | .ok references =>
                let (sites, session) := session.sites workspace references
                let (skeletons, loaded) := session.skeletons.all
                gatherCallers workspace callers { session with skeletons := loaded }
                  (found ++ callersOf sites [ownSite caller] skeletons)

def callersOfEach (workspace : Workspace) (session : Session)
    (callers : List RelatedDeclaration) :
    EngineDialogue (Except LspError (List RelatedDeclaration × Session)) :=
  (gatherCallers workspace callers session []).map fun
    | .ok (found, session) => .ok (collapsed found, session)
    | .error failure => .error failure

/-! ## Keys gathered in groups -/

section Groups

variable {K P : Type*} [LinearOrder K] (place : K → P) (named : K → Prop)

/-- The first group with a key at the place of this one has this one, and none below it;
no later group has it. -/
def FirstAtPlace (key : K) : List (List K) → Prop
  | [] => False
  | group :: rest =>
      (∀ other ∈ group, place other ≠ place key) ∧ FirstAtPlace key rest ∨
        key ∈ group ∧ (∀ other ∈ group, place other = place key → key ≤ other) ∧
          key ∉ rest.flatten

/-- A named key is alone at its place, in its own group and before it. -/
structure SeparatePlaces (groups : List (List K)) : Prop where
  within : ∀ group ∈ groups, ∀ key ∈ group, named key →
    ∀ other ∈ group, place other = place key → other = key
  across : groups.Pairwise fun earlier later =>
    ∀ key ∈ later, named key → ∀ other ∈ earlier, place other ≠ place key

variable {place named}

omit [LinearOrder K] in
theorem separatePlaces_cons {group : List K} {rest : List (List K)} :
    SeparatePlaces place named (group :: rest) ↔
      (∀ key ∈ group, named key → ∀ other ∈ group, place other = place key → other = key) ∧
        (∀ key ∈ rest.flatten, named key → ∀ other ∈ group, place other ≠ place key) ∧
          SeparatePlaces place named rest := by
  constructor
  · intro hseparate
    obtain ⟨hfirst, hrest⟩ := List.pairwise_cons.mp hseparate.across
    refine ⟨hseparate.within group List.mem_cons_self, ?_, ?_, hrest⟩
    · intro key hkey
      obtain ⟨later, hlater, hmem⟩ := List.mem_flatten.mp hkey
      exact hfirst later hlater key hmem
    · exact fun later hlater => hseparate.within later (List.mem_cons_of_mem _ hlater)
  · rintro ⟨hgroup, hfirst, hrest⟩
    refine ⟨List.forall_mem_cons.mpr ⟨hgroup, hrest.within⟩,
      List.pairwise_cons.mpr ⟨?_, hrest.across⟩⟩
    exact fun later hlater key hkey => hfirst key (List.mem_flatten.mpr ⟨later, hlater, hkey⟩)

/-- When a key without a name stands before the named ones of its place, every named key
is the first at its place exactly when the places are separate. -/
theorem forall_firstAtPlace_iff
    (hunnamed : ∀ key other, named key → ¬named other → place other = place key →
      other < key) (groups : List (List K)) :
    (∀ key ∈ groups.flatten, named key → FirstAtPlace place key groups) ↔
      SeparatePlaces place named groups := by
  induction groups with
  | nil =>
      refine iff_of_true (by simp) ⟨by simp, List.Pairwise.nil⟩
  | cons group rest ih =>
      rw [separatePlaces_cons, ← ih]
      constructor
      · intro hall
        have hgroup (key : K) (hkey : key ∈ group) (hnamed : named key) :
            ∀ other ∈ group, place other = place key → key ≤ other := by
          rcases hall key (by simp [hkey]) hnamed with ⟨hnone, -⟩ | ⟨-, hleast, -⟩
          · exact absurd rfl (hnone key hkey)
          · exact hleast
        have hrest (key : K) (hkey : key ∈ rest.flatten) (hnamed : named key) :
            (∀ other ∈ group, place other ≠ place key) ∧ FirstAtPlace place key rest := by
          have hfirst := hall key (List.mem_append_right _ hkey) hnamed
          exact hfirst.resolve_right fun hhere => hhere.2.2 hkey
        refine ⟨?_, fun key hkey hnamed => (hrest key hkey hnamed).1,
          fun key hkey hnamed => (hrest key hkey hnamed).2⟩
        intro key hkey hnamed other hother hplace
        have hle := hgroup key hkey hnamed other hother hplace
        by_cases hother' : named other
        · exact le_antisymm (hgroup other hother hother' key hkey hplace.symm) hle
        · exact absurd hle (not_le.mpr (hunnamed key other hnamed hother' hplace))
      · rintro ⟨hgroup, hacross, hrest⟩ key hkey hnamed
        rcases List.mem_append.mp hkey with hhere | hlater
        · refine Or.inr ⟨hhere, ?_, ?_⟩
          · intro other hother hplace
            exact (hgroup key hhere hnamed other hother hplace).ge
          · exact fun hlater => hacross key hlater hnamed key hhere rfl
        · exact Or.inl ⟨hacross key hlater hnamed, hrest key hlater hnamed⟩

end Groups

/-! ## What one answer is collapsed to -/

def keyLine (key : DeclarationKey) : ℕ := (ofLex (ofLex key).2).1

def keyName (key : DeclarationKey) : WithBot String := (ofLex (ofLex key).2).2

def placeOf (key : DeclarationKey) : String × ℕ := (keyPath key, keyLine key)

/-- The key of a declaration, not of a site outside all of them. -/
def IsDeclaration (key : DeclarationKey) : Prop := keyName key ≠ ⊥

instance : DecidablePred IsDeclaration := fun key =>
  inferInstanceAs (Decidable (keyName key ≠ ⊥))

theorem lt_of_not_isDeclaration (key other : DeclarationKey) (hkey : IsDeclaration key)
    (hother : ¬IsDeclaration other) (hplace : placeOf other = placeOf key) : other < key := by
  have hname : keyName other < keyName key := by
    rw [not_not.mp hother]
    exact bot_lt_iff_ne_bot.mpr hkey
  obtain ⟨hpath, hline⟩ := Prod.mk.inj hplace
  have hbehind : (ofLex other).2 < (ofLex key).2 :=
    Prod.Lex.lt_iff.mpr (Or.inr ⟨hline, hname⟩)
  exact Prod.Lex.lt_iff.mpr (Or.inr ⟨hpath, hbehind⟩)

/-- Entries that count keys: one for each, and those of one place in order. -/
structure Tally (keys : List DeclarationKey) (entries : List RelatedDeclaration) : Prop where
  mem_iff : ∀ key, key ∈ keys ↔ ∃ entry ∈ entries, entry.key = key
  sites : ∀ entry ∈ entries, entry.sites = keys.count entry.key
  test : ∀ entry ∈ entries, entry.test = isTestSource entry.path
  ascending : ∀ place, (entries.filter (placeOf ·.key = place)).Pairwise (·.key < ·.key)

section Counted

variable (skeletons : OrderedMap String FileSkeleton)

def siteKeys (sites : List Location) : List DeclarationKey :=
  sites.map fun site => (relatedDeclaration skeletons site).key

@[simp]
theorem key_withSites (entry : RelatedDeclaration) (sites : ℕ) :
    { entry with sites }.key = entry.key := rfl

theorem sites_relatedDeclaration (site : Location) :
    (relatedDeclaration skeletons site).sites = 0 := by
  rw [relatedDeclaration]
  cases SkeletonIndex.resolve skeletons site with
  | none => rfl
  | some enclosing => rfl

/-- An entry stands under its own key and counts the sites of that key. -/
theorem get?_countedSites (sites : List Location) (key : DeclarationKey) :
    ((countedSites skeletons sites).get? key).map (fun entry => (entry.key, entry.sites)) =
      if key ∈ siteKeys skeletons sites then
        some (key, (siteKeys skeletons sites).count key)
      else none := by
  induction sites using List.reverseRecOn with
  | nil => rfl
  | append_singleton sites site ih =>
      have hkeys : siteKeys skeletons (sites ++ [site]) =
          siteKeys skeletons sites ++ [(relatedDeclaration skeletons site).key] := by
        simp [siteKeys]
      rw [countedSites_append_singleton, countSite, OrderedMap.get?_alter, hkeys,
        List.count_append]
      by_cases hkey : key = (relatedDeclaration skeletons site).key
      · subst hkey
        cases hheld : (countedSites skeletons sites).get?
            (relatedDeclaration skeletons site).key with
        | none =>
            rw [hheld] at ih
            have habsent : (relatedDeclaration skeletons site).key ∉
                siteKeys skeletons sites := by
              intro hmem
              rw [if_pos hmem] at ih
              cases ih
            rw [if_pos rfl, Option.getD_none, Option.map_some, key_withSites,
              sites_relatedDeclaration, if_pos (by simp),
              List.count_eq_zero_of_not_mem habsent, List.count_singleton_self]
        | some held =>
            rw [hheld, Option.map_some] at ih
            split_ifs at ih with hmem
            obtain ⟨hheldKey, hheldSites⟩ := Prod.mk.inj (Option.some.inj ih)
            simp [hheldKey, hheldSites]
      · have hother : (relatedDeclaration skeletons site).key ≠ key := fun h => hkey h.symm
        simp [hkey, hother, ih]

theorem mem_relatedDeclarations (sites : List Location) (entry : RelatedDeclaration) :
    entry ∈ relatedDeclarations sites skeletons ↔
      (countedSites skeletons sites).get? entry.key = some entry := by
  rw [relatedDeclarations_eq, List.mem_insertionSort, List.mem_map]
  constructor
  · rintro ⟨⟨key, counted⟩, hentry, rfl⟩
    rw [OrderedMap.mem_entries_iff] at hentry
    have hspec := get?_countedSites skeletons sites key
    rw [hentry, Option.map_some] at hspec
    split_ifs at hspec with hmem
    obtain ⟨hkey, -⟩ := Prod.mk.inj (Option.some.inj hspec)
    rwa [hkey]
  · intro hget
    exact ⟨(entry.key, entry), (OrderedMap.mem_entries_iff _ _ _).mpr hget, rfl⟩

theorem pairwise_values_countedSites (sites : List Location) :
    ((countedSites skeletons sites).entries.map Prod.snd).Pairwise (·.key < ·.key) := by
  have hkey (entry) (hentry : entry ∈ (countedSites skeletons sites).entries) :
      entry.2.key = entry.1 := by
    have hspec := get?_countedSites skeletons sites entry.1
    rw [(OrderedMap.mem_entries_iff _ entry.1 entry.2).mp hentry, Option.map_some] at hspec
    split_ifs at hspec with hmem
    exact (Prod.mk.inj (Option.some.inj hspec)).1
  rw [List.pairwise_map]
  refine (countedSites skeletons sites).ordered.imp_of_mem ?_
  intro left right hleft hright hlt
  rwa [hkey left hleft, hkey right hright]

theorem tally_relatedDeclarations (sites : List Location) :
    Tally (siteKeys skeletons sites) (relatedDeclarations sites skeletons) where
  mem_iff := by
    intro key
    have hspec := get?_countedSites skeletons sites key
    simp only [mem_relatedDeclarations]
    constructor
    · intro hmem
      rw [if_pos hmem, Option.map_eq_some_iff] at hspec
      obtain ⟨entry, hget, hpair⟩ := hspec
      obtain ⟨rfl, -⟩ := Prod.mk.inj hpair
      exact ⟨entry, hget, rfl⟩
    · rintro ⟨entry, hget, rfl⟩
      by_contra habsent
      rw [hget, if_neg habsent] at hspec
      cases hspec
  sites := by
    intro entry hentry
    have hspec := get?_countedSites skeletons sites entry.key
    rw [(mem_relatedDeclarations skeletons sites entry).mp hentry, Option.map_some] at hspec
    split_ifs at hspec with hmem
    exact (Prod.mk.inj (Option.some.inj hspec)).2
  test := fun entry hentry => test_of_mem_relatedDeclarations skeletons hentry
  ascending := by
    intro place
    have htotal : Std.Total fun left right : RelatedDeclaration =>
        left.test ≤ right.test := ⟨fun left right => le_total left.test right.test⟩
    have htrans : IsTrans RelatedDeclaration fun left right =>
        left.test ≤ right.test := ⟨fun _ _ _ => le_trans⟩
    have hascending := (pairwise_values_countedSites skeletons sites).filter
      fun entry => placeOf entry.key = place
    rw [relatedDeclarations_eq, filter_insertionSort, List.Pairwise.insertionSort_eq]
    · exact hascending
    · -- entries of one path are all of tests or none is
      have htest (entry) (hentry : entry ∈
          (((countedSites skeletons sites).entries.map Prod.snd).filter
            fun entry => placeOf entry.key = place)) :
          entry.test = isTestSource place.1 := by
        obtain ⟨hmem, hplace⟩ := List.mem_filter.mp hentry
        have hrelated : entry ∈ relatedDeclarations sites skeletons :=
          (List.mem_insertionSort _).mpr hmem
        rw [test_of_mem_relatedDeclarations skeletons hrelated, ← of_decide_eq_true hplace]
        rfl
      refine List.pairwise_of_forall_mem_list ?_
      intro left hleft right hright
      rw [htest left hleft, htest right hright]

end Counted

/-! ## One level of all answers -/

theorem levelKey_eq_iff {entry : RelatedDeclaration}
    (htest : entry.test = isTestSource entry.path) (place : String × ℕ) :
    levelKey entry = toLex (isTestSource place.1, toLex place) ↔
      placeOf entry.key = place := by
  obtain ⟨path, line⟩ := place
  rw [levelKey, htest]
  constructor
  · intro hkey
    exact congrArg (fun key => ofLex (ofLex key).2) hkey
  · intro hplace
    obtain ⟨hpath, hline⟩ := Prod.mk.inj hplace
    change entry.path = path at hpath
    change entry.line = line at hline
    rw [hpath, hline]

theorem samePlace_iff {left right : RelatedDeclaration}
    (hleft : left.test = isTestSource left.path)
    (hright : right.test = isTestSource right.path) :
    samePlace left right = true ↔ levelKey left = levelKey right := by
  have hplace : placeOf left.key = placeOf right.key ↔ samePlace left right = true := by
    rw [samePlace, Bool.and_eq_true, decide_eq_true_iff, decide_eq_true_iff]
    exact Prod.mk_inj
  rw [← hplace, ← levelKey_eq_iff hleft, ← (levelKey_eq_iff hright _).mpr rfl]

theorem mem_collapsed {found : List RelatedDeclaration} {entry : RelatedDeclaration}
    (hentry : entry ∈ collapsed found) : entry ∈ found :=
  (List.mem_insertionSort _).mp ((dedupBy_sublist _ _).subset hentry)

/-- Of every place the level keeps the first entry found. -/
theorem filter_collapsed {found : List RelatedDeclaration}
    (htest : ∀ entry ∈ found, entry.test = isTestSource entry.path) (place : String × ℕ) :
    (collapsed found).filter (placeOf ·.key = place) =
      (found.filter (placeOf ·.key = place)).take 1 := by
  have htotal : Std.Total fun left right : RelatedDeclaration =>
      levelKey left ≤ levelKey right := ⟨fun left right => le_total _ _⟩
  have htrans : IsTrans RelatedDeclaration fun left right =>
      levelKey left ≤ levelKey right := ⟨fun _ _ _ => le_trans⟩
  have hwanted (entries : List RelatedDeclaration) (hentries : ∀ entry ∈ entries, entry ∈ found) :
      entries.filter (placeOf ·.key = place) =
        entries.filter (levelKey · = toLex (isTestSource place.1, toLex place)) := by
    refine List.filter_congr fun entry hentry => ?_
    rw [decide_eq_decide, levelKey_eq_iff (htest entry (hentries entry hentry))]
  have hkept : (found.filter
      (levelKey · = toLex (isTestSource place.1, toLex place))).Pairwise
        fun left right => levelKey left ≤ levelKey right := by
    refine List.pairwise_of_forall_mem_list fun left hleft right hright => ?_
    rw [of_decide_eq_true (List.mem_filter.mp hleft).2,
      of_decide_eq_true (List.mem_filter.mp hright).2]
  rw [hwanted _ fun entry => mem_collapsed, hwanted _ fun _ => id, collapsed,
    filter_dedupBy levelKey, filter_insertionSort, hkept.insertionSort_eq]
  · intro left hleft right hright
    exact samePlace_iff (htest left ((List.mem_insertionSort _).mp hleft))
      (htest right ((List.mem_insertionSort _).mp hright))
  · exact List.pairwise_insertionSort _ found

theorem test_of_mem_flatten {calls : List (List DeclarationKey)}
    {entries : List (List RelatedDeclaration)} (htallies : List.Forall₂ Tally calls entries) :
    ∀ entry ∈ entries.flatten, entry.test = isTestSource entry.path := by
  induction htallies with
  | nil => simp
  | cons htally _ ih =>
      intro entry hentry
      rw [List.flatten_cons, List.mem_append] at hentry
      exact hentry.elim (htally.test entry) (ih entry)

/-- The first entry of a place counts all sites of its key exactly when the key is first
at its place. -/
theorem first_counts_iff {calls : List (List DeclarationKey)}
    {entries : List (List RelatedDeclaration)} (htallies : List.Forall₂ Tally calls entries)
    (key : DeclarationKey) :
    (((entries.flatten.filter (placeOf ·.key = placeOf key)).take 1).filter
        (·.key = key)).map (·.sites) = [calls.flatten.count key] ↔
      FirstAtPlace placeOf key calls := by
  induction htallies with
  | nil => simp [FirstAtPlace]
  | @cons keys held calls entries htally htallies ih =>
      rw [List.flatten_cons, List.flatten_cons, List.filter_append, List.count_append,
        FirstAtPlace]
      have hplaced (other : DeclarationKey) (hother : other ∈ keys)
          (hplace : placeOf other = placeOf key) :
          ∃ entry ∈ held.filter (placeOf ·.key = placeOf key), entry.key = other := by
        obtain ⟨entry, hentry, rfl⟩ := (htally.mem_iff other).mp hother
        exact ⟨entry, List.mem_filter.mpr ⟨hentry, decide_eq_true hplace⟩, rfl⟩
      have hascending := htally.ascending (placeOf key)
      cases hheld : held.filter (placeOf ·.key = placeOf key) with
      | nil =>
          rw [hheld] at hplaced
          have hnone : ∀ other ∈ keys, placeOf other ≠ placeOf key := by
            intro other hother hplace
            obtain ⟨entry, hentry, -⟩ := hplaced other hother hplace
            cases hentry
          have habsent : key ∉ keys := fun hkey => hnone key hkey rfl
          rw [List.nil_append, List.count_eq_zero_of_not_mem habsent, Nat.zero_add, ih,
            and_iff_right hnone, or_iff_left fun hhere => habsent hhere.1]
      | cons first later =>
          rw [hheld] at hplaced hascending
          obtain ⟨hfirst, hplace⟩ :=
            List.mem_filter.mp (hheld ▸ List.mem_cons_self : first ∈ held.filter _)
          have hmem : first.key ∈ keys := (htally.mem_iff _).mpr ⟨first, hfirst, rfl⟩
          have hbelow := (List.pairwise_cons.mp hascending).1
          have hhere : ¬∀ other ∈ keys, placeOf other ≠ placeOf key :=
            fun hnone => hnone first.key hmem (of_decide_eq_true hplace)
          rw [List.cons_append, List.take_succ_cons, List.take_zero,
            or_iff_right fun hskipped => hhere hskipped.1]
          by_cases hkey : first.key = key
          · have hleast : ∀ other ∈ keys, placeOf other = placeOf key → key ≤ other := by
              intro other hother hsame
              obtain ⟨entry, hentry, rfl⟩ := hplaced other hother hsame
              rcases List.mem_cons.mp hentry with rfl | hlater
              · exact hkey.ge
              · exact hkey ▸ (hbelow entry hlater).le
            have hkept : [first].filter (·.key = key) = [first] := by simp [hkey]
            rw [and_iff_right (hkey ▸ hmem), and_iff_right hleast, hkept, List.map_singleton,
              List.singleton_inj, htally.sites first hfirst, hkey, left_eq_add,
              List.count_eq_zero]
          · refine iff_of_false (by simp [hkey]) ?_
            rintro ⟨hmemKey, hleast, -⟩
            obtain ⟨entry, hentry, rfl⟩ := hplaced key hmemKey rfl
            have hle := hleast first.key hmem (of_decide_eq_true hplace)
            rcases List.mem_cons.mp hentry with rfl | hlater
            · exact hkey rfl
            · exact (hbelow entry hlater).not_ge hle

/-! ## The skeletons a session resolves with -/

namespace Skeletons

variable (workspace : Workspace) (skeletons : Skeletons)

theorem get?_load (path other : String) :
    (skeletons.load workspace path).byPath.get? other =
      (skeletons.byPath.get? other).or
        (if other = path then workspace.skeletonAt path else none) := by
  rw [load]
  split_ifs with hheld hother hother
  · obtain ⟨skeleton, hskeleton⟩ := Option.isSome_iff_exists.mp hheld
    rw [hother, hskeleton]
    rfl
  · rw [Option.or_none]
  · rw [Option.not_isSome_iff_eq_none] at hheld
    rw [hother, hheld, Option.none_or]
    split
    · next hread => rw [hread, hheld]
    · next skeleton hread => simp [Skeletons.insert, hread]
  · rw [Option.or_none]
    split
    · rfl
    · simp [Skeletons.insert, hother]

theorem get?_foldl_load (paths : List String) (other : String) :
    (paths.foldl (fun skeletons path => skeletons.load workspace path)
        skeletons).byPath.get? other =
      (skeletons.byPath.get? other).or
        (if other ∈ paths then workspace.skeletonAt other else none) := by
  induction paths generalizing skeletons with
  | nil => simp
  | cons path rest ih =>
      rw [List.foldl_cons, ih, get?_load, Option.or_assoc]
      congr 1
      by_cases hother : other = path
      · cases hread : workspace.skeletonAt path <;> simp [hother, hread]
      · simp [hother]

theorem all_fst : skeletons.all.1 = skeletons.byPath.entries.map Prod.snd := by
  rw [all]
  split_ifs with hstale
  · rfl
  · exact skeletons.fresh (Bool.eq_false_iff.mpr hstale)

theorem byPath_all : skeletons.all.2.byPath = skeletons.byPath := by
  rw [all]
  split_ifs
  · rfl
  · rfl

/-- Indexing the list of the skeletons by their own paths gives the map back. -/
theorem skeletonByPath_values :
    skeletonByPath (skeletons.byPath.entries.map Prod.snd) = skeletons.byPath := by
  have hpairs : (skeletons.byPath.entries.map Prod.snd).map
      (fun skeleton => (skeleton.path, skeleton)) = skeletons.byPath.entries := by
    rw [List.map_map]
    refine (List.map_congr_left fun entry hentry => ?_).trans (List.map_id _)
    have hget := (OrderedMap.mem_entries_iff skeletons.byPath entry.1 entry.2).mp hentry
    exact Prod.ext (skeletons.named entry.1 entry.2 hget) rfl
  rw [skeletonByPath, hpairs]
  apply OrderedMap.ext_get?
  intro path
  ext skeleton
  rw [OrderedMap.get?_ofList skeletons.byPath.nodup_keys, OrderedMap.mem_entries_iff]

end Skeletons

/-! ## What the frontier is called by -/

section Level

variable (workspace : Workspace) (session : Session)

/-- The skeleton a site of the file is resolved with: one that is held, or else the one
loaded for the site. -/
def Session.skeletonOf (path : String) : Option FileSkeleton :=
  (session.skeletons.byPath.get? path).or (workspace.skeletonAt path)

/-- The declaration that encloses a site, by path, line and qualified name; a site in
none stands for itself. -/
def callKey (site : Location) : DeclarationKey :=
  match (session.skeletonOf workspace site.path).bind
      (fullyQualifiedEnclosing · site.line) with
  | some enclosing => toLex (site.path, toLex (enclosing.line, ↑enclosing.fqn))
  | none => toLex (site.path, toLex (site.line, ⊥))

/-- The reported sites that are code outside ignored directories, and not on the line of
the caller they are reported for. -/
def callSites (caller : RelatedDeclaration) (report : List SiteLocation) : List Location :=
  let kept := report.filter fun site =>
    !isInsideIgnoredDir workspace.canonicalize workspace.root site.path
  ((workspace.locations kept).filter (·.kind.isCode)).filter fun site =>
    !sameSite (ownSite caller) site

/-- For each caller the engine is asked about, the declarations its call sites are in,
one key for each site. -/
def callKeys (frontier : List RelatedDeclaration) (reports : List (List SiteLocation)) :
    List (List DeclarationKey) :=
  let asked := frontier.filter fun caller => (positionOf workspace caller).isSome
  (asked.zip reports).map fun (caller, report) =>
    (callSites workspace caller report).map (callKey workspace session)

/-- Every declaration with a call site is in the level once, with the number of its call
sites over the whole frontier. -/
def LosesNothing (calls : List (List DeclarationKey)) (level : List RelatedDeclaration) : Prop :=
  ∀ key ∈ calls.flatten, IsDeclaration key →
    (level.filter (·.key = key)).map (·.sites) = [calls.flatten.count key]

/-- The reports among the answers. -/
def reportsOf
    (exchanges : List (ReferenceQuestion × Except LspError (List SiteLocation))) :
    List (List SiteLocation) :=
  exchanges.filterMap fun exchange => exchange.2.toOption

variable {workspace session}

theorem losesNothing_collapsed_iff {calls : List (List DeclarationKey)}
    {entries : List (List RelatedDeclaration)} (htallies : List.Forall₂ Tally calls entries) :
    LosesNothing calls (collapsed entries.flatten) ↔
      SeparatePlaces placeOf IsDeclaration calls := by
  rw [← forall_firstAtPlace_iff lt_of_not_isDeclaration, LosesNothing]
  refine forall₂_congr fun key _ => forall_congr' fun _ => ?_
  have hplaced : ((collapsed entries.flatten).filter (placeOf ·.key = placeOf key)).filter
      (·.key = key) = (collapsed entries.flatten).filter (·.key = key) := by
    rw [List.filter_filter]
    refine List.filter_congr fun entry _ => ?_
    by_cases hkey : entry.key = key <;> simp [hkey]
  rw [← first_counts_iff htallies, ← filter_collapsed (test_of_mem_flatten htallies), hplaced]

theorem sites_fst (references : List SiteLocation) :
    (session.sites workspace references).1 = workspace.locations
      (references.filter fun site =>
        !isInsideIgnoredDir workspace.canonicalize workspace.root site.path) := by
  rw [Session.sites, List.partition_eq_filter_filter]
  rfl

theorem length_siteKinds (normalized : List (String × ℕ × ℕ)) :
    (workspace.siteKinds normalized).length = normalized.length := by
  have hset (classified : List (((String × ℕ × ℕ) × ℕ) × SiteKind)) (kinds : List SiteKind) :
      (classified.foldl (fun kinds (entry, kind) => kinds.set entry.2 kind) kinds).length =
        kinds.length := by
    induction classified generalizing kinds with
    | nil => rfl
    | cons classed rest ih => rw [List.foldl_cons, ih, List.length_set]
  rw [Workspace.siteKinds]
  refine List.foldlRecOn (motive := fun kinds : List SiteKind =>
    kinds.length = normalized.length) _ _ List.length_replicate ?_
  rintro kinds hkinds ⟨path, entries⟩ -
  dsimp only
  cases workspace.readSource path with
  | none => exact hkinds
  | some source => exact (hset _ kinds).trans hkinds

theorem map_path_locations (kept : List SiteLocation) :
    (workspace.locations kept).map (·.path) =
      kept.map fun site => (workspace.normalized site).1 := by
  have hkinds : (workspace.siteKinds (kept.map workspace.normalized)).length =
      (kept.map workspace.normalized).length := length_siteKinds _
  have hzip := List.map_fst_zip hkinds.ge
  calc
    _ = ((kept.map workspace.normalized).zip
          (workspace.siteKinds (kept.map workspace.normalized))).map
            (Prod.fst ∘ Prod.fst) := by
      rw [Workspace.locations, List.map_map]
      rfl
    _ = (kept.map workspace.normalized).map Prod.fst := by
      rw [← List.map_map, hzip]
    _ = kept.map fun site => (workspace.normalized site).1 := by
      rw [List.map_map]
      rfl

theorem get?_sites (references : List SiteLocation) (path : String) :
    (session.sites workspace references).2.skeletons.byPath.get? path =
      (session.skeletons.byPath.get? path).or
        (if path ∈ (session.sites workspace references).1.map (·.path) then
          workspace.skeletonAt path
        else none) := by
  rw [sites_fst, map_path_locations, Session.sites, List.partition_eq_filter_filter]
  exact Skeletons.get?_foldl_load workspace session.skeletons _ path

/-- Loading skeletons does not change what a file is resolved with. -/
theorem skeletonOf_sites (references : List SiteLocation) (path : String) :
    (session.sites workspace references).2.skeletonOf workspace path =
      session.skeletonOf workspace path := by
  rw [Session.skeletonOf, get?_sites, Option.or_assoc, Session.skeletonOf]
  split_ifs
  · rw [Option.or_self]
  · rw [Option.none_or]

/-- Among the skeletons loaded for them the sites resolve to the declarations they are
in. -/
theorem key_relatedDeclaration_sites {references : List SiteLocation} {site : Location}
    (hsite : site ∈ (session.sites workspace references).1) :
    (relatedDeclaration (session.sites workspace references).2.skeletons.byPath site).key =
      callKey workspace session site := by
  have hget : (session.sites workspace references).2.skeletons.byPath.get? site.path =
      session.skeletonOf workspace site.path := by
    rw [get?_sites, if_pos (List.mem_map_of_mem hsite), Session.skeletonOf]
  rw [relatedDeclaration, callKey, SkeletonIndex.resolve, hget]
  cases (session.skeletonOf workspace site.path).bind
      (fullyQualifiedEnclosing · site.line) with
  | none => rfl
  | some enclosing => rfl

theorem tally_callersOf (caller : RelatedDeclaration) (references : List SiteLocation) :
    Tally ((callSites workspace caller references).map (callKey workspace session))
      (callersOf (session.sites workspace references).1 [ownSite caller]
        (session.sites workspace references).2.skeletons.all.1) := by
  have hsites : callSites workspace caller references =
      ((session.sites workspace references).1.filter (·.kind.isCode)).filter fun site =>
        !([ownSite caller].any fun excluded => sameSite excluded site) := by
    simp [callSites, sites_fst]
  have hkeys : (callSites workspace caller references).map (callKey workspace session) =
      siteKeys (session.sites workspace references).2.skeletons.byPath
        (callSites workspace caller references) := by
    refine List.map_congr_left fun site hsite => ?_
    rw [hsites, List.mem_filter, List.mem_filter] at hsite
    exact (key_relatedDeclaration_sites hsite.1.1).symm
  rw [hkeys, callersOf, Skeletons.all_fst, Skeletons.skeletonByPath_values, ← hsites]
  exact tally_relatedDeclarations _ _

/-- The session behind a report, its skeletons listed. -/
def Session.reported (workspace : Workspace) (session : Session)
    (references : List SiteLocation) : Session :=
  { (session.sites workspace references).2 with
    skeletons := (session.sites workspace references).2.skeletons.all.2 }

theorem skeletonOf_reported (references : List SiteLocation) (path : String) :
    (session.reported workspace references).skeletonOf workspace path =
      session.skeletonOf workspace path := by
  have hlisted : (session.reported workspace references).skeletons.byPath =
      (session.sites workspace references).2.skeletons.byPath := Skeletons.byPath_all _
  rw [Session.skeletonOf, hlisted]
  exact skeletonOf_sites references path

theorem callKey_congr {other : Session}
    (hsame : ∀ path, other.skeletonOf workspace path = session.skeletonOf workspace path) :
    callKey workspace other = callKey workspace session := by
  funext site
  rw [callKey, callKey, hsame]

theorem callKeys_congr {other : Session}
    (hsame : ∀ path, other.skeletonOf workspace path = session.skeletonOf workspace path)
    (frontier : List RelatedDeclaration) (reports : List (List SiteLocation)) :
    callKeys workspace other frontier reports = callKeys workspace session frontier reports := by
  rw [callKeys, callKeys, callKey_congr hsame]

/-- A run of the loop finds, caller by caller, what the call sites reported for it are
counted at. -/
theorem tallies_of_runs {S : Type*} {answers : S → ReferenceQuestion →
      Except LspError (List SiteLocation) → S → Prop}
    {frontier found level : List RelatedDeclaration} {after : Session} {state last : S}
    {exchanges : List (ReferenceQuestion × Except LspError (List SiteLocation))}
    (hruns : Dialogue.Runs answers (gatherCallers workspace frontier session found) state
      exchanges (.ok (level, after)) last) :
    ∃ entries, level = found ++ entries.flatten ∧
      List.Forall₂ Tally (callKeys workspace session frontier (reportsOf exchanges))
        entries := by
  induction frontier generalizing session found state exchanges with
  | nil =>
      rw [gatherCallers] at hruns
      cases hruns
      exact ⟨[], by simp, List.Forall₂.nil⟩
  | cons caller callers ih =>
      rw [gatherCallers] at hruns
      cases hposition : positionOf workspace caller with
      | none =>
          rw [hposition] at hruns
          obtain ⟨entries, hlevel, htallies⟩ := ih hruns
          refine ⟨entries, hlevel, ?_⟩
          rw [callKeys, List.filter_cons_of_neg (by simp [hposition])]
          exact htallies
      | some position =>
          rw [hposition] at hruns
          cases hruns with
          | @ask _ answer _ _ _ _ exchanges _ hanswer hnext =>
              cases answer with
              | error failure => cases hnext
              | ok references =>
                  change Dialogue.Runs answers (gatherCallers workspace callers
                    (session.reported workspace references)
                    (found ++ callersOf (session.sites workspace references).1
                      [ownSite caller]
                      (session.sites workspace references).2.skeletons.all.1))
                    _ exchanges _ last at hnext
                  obtain ⟨entries, hlevel, htallies⟩ := ih hnext
                  refine ⟨_ :: entries, hlevel.trans (List.append_assoc _ _ _), ?_⟩
                  rw [callKeys_congr (skeletonOf_reported references)] at htallies
                  rw [callKeys, List.filter_cons_of_pos (by simp [hposition])]
                  exact List.Forall₂.cons (tally_callersOf caller references) htallies

end Level

/-- A level loses nothing exactly when every calling declaration calls one caller of the
frontier only, and is the only calling declaration on its line. -/
theorem deeper_level_loses_nothing_iff {S : Type*} {answers : S → ReferenceQuestion →
      Except LspError (List SiteLocation) → S → Prop}
    {workspace : Workspace} {session after : Session}
    {frontier level : List RelatedDeclaration} {state last : S}
    {exchanges : List (ReferenceQuestion × Except LspError (List SiteLocation))}
    (hruns : Dialogue.Runs answers (callersOfEach workspace session frontier) state exchanges
      (.ok (level, after)) last) :
    LosesNothing (callKeys workspace session frontier (reportsOf exchanges)) level ↔
      SeparatePlaces placeOf IsDeclaration
        (callKeys workspace session frontier (reportsOf exchanges)) := by
  obtain ⟨result, hresult, hgathered⟩ := hruns.of_map
  cases result with
  | error failure => cases hresult
  | ok gathered =>
      obtain ⟨found, loaded⟩ := gathered
      obtain ⟨rfl, -⟩ := Prod.mk.inj (Except.ok.inj hresult)
      obtain ⟨entries, rfl, htallies⟩ := tallies_of_runs hgathered
      exact losesNothing_collapsed_iff htallies

/-! ## One caller of two -/

def sharedFile : FileName := ⟨utf8 "A.kt", by decide, by decide, by decide⟩

/-- Three functions, of which the last calls the others. -/
def sharedWorkspace : Workspace where
  root := []
  canonicalize := fun _ => none
  read := fun path =>
    if path = "A.kt" then some "fun f() = 1\nfun g() = 2\nfun h() = f() + g()" else none
  extract := fun _ => some ((FileSkeleton.new "").withDeclarations
    [.new .function "f" 1, .new .function "g" 2, .new .function "h" 3])
  classifyReferenceSites := fun _ sites => sites.map fun _ => .code
  isAlphanumeric := Char.isAlphanum

/-- The call of the function on the line that is asked about. -/
def sharedEngine (question : ReferenceQuestion) : Except LspError (List SiteLocation) :=
  if question.position.line = 0 then .ok [⟨[.normal sharedFile], 3, 11⟩]
  else .ok [⟨[.normal sharedFile], 3, 17⟩]

def newSession : Session where
  skeletons := ⟨OrderedMap.empty, [], false, by simp, fun _ => rfl⟩
  ignored := 0

def functionAt (name : String) (line sites : ℕ) : RelatedDeclaration :=
  ⟨"A.kt", line, some name, some .function, sites, false⟩

def sharedAnswers (_ : Unit) (question : ReferenceQuestion)
    (answer : Except LspError (List SiteLocation)) (_ : Unit) : Prop :=
  answer = sharedEngine question

def callAt (column : ℕ) : List SiteLocation := [⟨[.normal sharedFile], 3, column⟩]

def askAbout (line column : ℕ) : ReferenceQuestion × Except LspError (List SiteLocation) :=
  (⟨⟨"file://A.kt", line, 4⟩, .excluded⟩, .ok (callAt column))

/-- One turn of the loop: a caller is asked about, and the function behind both is
found. -/
theorem runs_shared {caller : RelatedDeclaration} {session : Session} {line column : ℕ}
    (hposition : positionOf sharedWorkspace caller = some ⟨"file://A.kt", line, 4⟩)
    (hanswer : sharedEngine ⟨⟨"file://A.kt", line, 4⟩, .excluded⟩ = .ok (callAt column))
    (hfound : callersOf (session.sites sharedWorkspace (callAt column)).1 [ownSite caller]
      (session.sites sharedWorkspace (callAt column)).2.skeletons.all.1 =
        [functionAt "h" 3 1])
    {callers found level : List RelatedDeclaration} {after : Session}
    {exchanges : List (ReferenceQuestion × Except LspError (List SiteLocation))}
    (hrest : Dialogue.Runs sharedAnswers (gatherCallers sharedWorkspace callers
      (session.reported sharedWorkspace (callAt column)) (found ++ [functionAt "h" 3 1]))
      () exchanges (.ok (level, after)) ()) :
    Dialogue.Runs sharedAnswers (gatherCallers sharedWorkspace (caller :: callers) session found)
      () (askAbout line column :: exchanges) (.ok (level, after)) () := by
  rw [gatherCallers, hposition]
  rw [← hfound] at hrest
  exact .ask hanswer.symm hrest

/-- Asked about one function, the level counts the one call of it. -/
theorem lone_caller_counted :
    LosesNothing (callKeys sharedWorkspace newSession [functionAt "f" 1 1]
      (reportsOf [askAbout 0 11])) [functionAt "h" 3 1] := by
  have hgathered : Dialogue.Runs sharedAnswers
      (gatherCallers sharedWorkspace [functionAt "f" 1 1] newSession []) ()
      [askAbout 0 11] (.ok ([functionAt "h" 3 1], _)) () :=
    runs_shared (by decide) rfl (by decide) (.done _ _)
  have hruns : Dialogue.Runs sharedAnswers
      (callersOfEach sharedWorkspace newSession [functionAt "f" 1 1]) ()
      [askAbout 0 11] (.ok ([functionAt "h" 3 1], _)) () := hgathered.map _
  have hkeys : callKeys sharedWorkspace newSession [functionAt "f" 1 1]
      (reportsOf [askAbout 0 11]) = [[(functionAt "h" 3 1).key]] := by decide
  rw [deeper_level_loses_nothing_iff hruns, hkeys]
  refine ⟨?_, List.pairwise_singleton _ _⟩
  intro group hgroup key hkey _ other hother _
  rw [List.mem_singleton.mp hgroup, List.mem_singleton] at hkey hother
  rw [hother, hkey]

/-- The function that calls both is listed with one call of its two. -/
theorem second_caller_lost :
    (∃ after, Dialogue.Runs sharedAnswers
      (callersOfEach sharedWorkspace newSession [functionAt "f" 1 1, functionAt "g" 2 1]) ()
      [askAbout 0 11, askAbout 1 17] (.ok ([functionAt "h" 3 1], after)) ()) ∧
    ¬LosesNothing (callKeys sharedWorkspace newSession
      [functionAt "f" 1 1, functionAt "g" 2 1] (reportsOf [askAbout 0 11, askAbout 1 17]))
      [functionAt "h" 3 1] := by
  constructor
  · have hgathered : Dialogue.Runs sharedAnswers
        (gatherCallers sharedWorkspace [functionAt "f" 1 1, functionAt "g" 2 1] newSession [])
        () [askAbout 0 11, askAbout 1 17]
        (.ok ([functionAt "h" 3 1, functionAt "h" 3 1], _)) () :=
      runs_shared (by decide) rfl (by decide)
        (runs_shared (by decide) rfl (by decide) (.done _ _))
    exact ⟨_, hgathered.map _⟩
  · have hkeys : callKeys sharedWorkspace newSession
        [functionAt "f" 1 1, functionAt "g" 2 1] (reportsOf [askAbout 0 11, askAbout 1 17]) =
          [[(functionAt "h" 3 1).key], [(functionAt "h" 3 1).key]] := by decide
    intro hnothing
    have hcount := hnothing (functionAt "h" 3 1).key (by simp [hkeys]) (by decide)
    rw [hkeys] at hcount
    revert hcount
    decide

end Ktsense.Cli
