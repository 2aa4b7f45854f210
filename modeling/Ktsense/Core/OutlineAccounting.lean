import Ktsense.Core.Outline

/-!
# Where every declaration of an outline goes

The skeleton writer has four forms: a signature line of its own, a container with
its only member on one line, leading enum entries joined on one line, and braces.
Each line is marked here with what it writes, so that the declarations written can
be compared with those `hidden_declaration_count` counts, and the annotation lines
with `hidden_annotation_count`.
-/

namespace Ktsense.Core

/-! ## Places -/

mutual

/-- The places of a declaration and all under it; a place is the index at each level,
outermost first. -/
def allPlaces : Declaration → List ℕ → List (List ℕ)
  | { children, .. }, place => place :: allPlacesAmong children place 0

def allPlacesAmong : List Declaration → List ℕ → ℕ → List (List ℕ)
  | [], _, _ => []
  | declaration :: rest, above, index =>
      allPlaces declaration (above ++ [index]) ++ allPlacesAmong rest above (index + 1)

end

mutual

/-- The places `hidden_within` counts. -/
def hiddenPlaces (options : RenderOptions) : Declaration → List ℕ → List (List ℕ)
  | declaration@{ children, .. }, place =>
      if options.admits declaration then hiddenPlacesAmong options children place 0
      else allPlaces declaration place

def hiddenPlacesAmong (options : RenderOptions) :
    List Declaration → List ℕ → ℕ → List (List ℕ)
  | [], _, _ => []
  | declaration :: rest, above, index =>
      hiddenPlaces options declaration (above ++ [index]) ++
        hiddenPlacesAmong options rest above (index + 1)

end

mutual

theorem length_allPlaces : (declaration : Declaration) → (place : List ℕ) →
    (allPlaces declaration place).length = subtreeSize declaration
  | { children, .. }, place => by
      rw [allPlaces, subtreeSize, List.length_cons, length_allPlacesAmong children place 0,
        Nat.add_comm]

theorem length_allPlacesAmong : (declarations : List Declaration) → (above : List ℕ) →
    (index : ℕ) → (allPlacesAmong declarations above index).length = subtreeSizes declarations
  | [], _, _ => rfl
  | declaration :: rest, above, index => by
      rw [allPlacesAmong, subtreeSizes, List.length_append,
        length_allPlaces declaration, length_allPlacesAmong rest]

end

mutual

theorem isPrefix_of_mem_allPlaces : (declaration : Declaration) → (place : List ℕ) →
    ∀ inner ∈ allPlaces declaration place, place <+: inner
  | { children, .. }, place => by
      rw [allPlaces, List.forall_mem_cons]
      refine ⟨List.prefix_rfl, ?_⟩
      intro inner hinner
      obtain ⟨index, _, hplace⟩ := isPrefix_of_mem_allPlacesAmong children place 0 inner hinner
      exact (List.prefix_append place [index]).trans hplace

/-- A place among siblings starts with the index of one of them. -/
theorem isPrefix_of_mem_allPlacesAmong : (declarations : List Declaration) →
    (above : List ℕ) → (first : ℕ) → ∀ inner ∈ allPlacesAmong declarations above first,
      ∃ index, first ≤ index ∧ above ++ [index] <+: inner
  | [], _, _ => by simp [allPlacesAmong]
  | declaration :: rest, above, first => by
      intro inner hinner
      rw [allPlacesAmong, List.mem_append] at hinner
      rcases hinner with hfirst | hrest
      · exact ⟨first, le_rfl, isPrefix_of_mem_allPlaces declaration _ inner hfirst⟩
      · obtain ⟨index, hle, hplace⟩ :=
          isPrefix_of_mem_allPlacesAmong rest above (first + 1) inner hrest
        exact ⟨index, (Nat.le_succ first).trans hle, hplace⟩

end

theorem not_isPrefix_of_ne {above inner : List ℕ} {left right : ℕ} (hne : left ≠ right)
    (hleft : above ++ [left] <+: inner) : ¬above ++ [right] <+: inner := by
  intro hright
  have hequal : above ++ [left] = above ++ [right] :=
    (List.prefix_of_prefix_length_le hleft hright (by simp)).eq_of_length (by simp)
  exact hne (List.singleton_injective (List.append_cancel_left hequal))

mutual

/-- No two declarations have one place. -/
theorem nodup_allPlaces : (declaration : Declaration) → (place : List ℕ) →
    (allPlaces declaration place).Nodup
  | { children, .. }, place => by
      rw [allPlaces, List.nodup_cons]
      refine ⟨?_, nodup_allPlacesAmong children place 0⟩
      intro hplace
      obtain ⟨index, _, hlonger⟩ := isPrefix_of_mem_allPlacesAmong children place 0 place hplace
      have hlength := hlonger.length_le
      rw [List.length_append] at hlength
      exact absurd hlength (Nat.not_succ_le_self _)

theorem nodup_allPlacesAmong : (declarations : List Declaration) → (above : List ℕ) →
    (index : ℕ) → (allPlacesAmong declarations above index).Nodup
  | [], _, _ => List.nodup_nil
  | declaration :: rest, above, index => by
      rw [allPlacesAmong]
      apply (nodup_allPlaces declaration _).append (nodup_allPlacesAmong rest above _)
      intro inner hfirst hrest
      have hplace := isPrefix_of_mem_allPlaces declaration _ inner hfirst
      obtain ⟨later, hlater, hother⟩ :=
        isPrefix_of_mem_allPlacesAmong rest above (index + 1) inner hrest
      exact not_isPrefix_of_ne (Nat.ne_of_lt hlater) hplace hother

end

section Hidden

variable {options : RenderOptions}

theorem admits_of_includePrivate (hprivate : options.includePrivate = true)
    (declaration : Declaration) : options.admits declaration = true := by
  rw [RenderOptions.admits, hprivate, Bool.true_or]

theorem admits_of_not_includePrivate (hprivate : options.includePrivate = false)
    (declaration : Declaration) :
    options.admits declaration = isVisibleApi declaration.visibility := by
  rw [RenderOptions.admits, hprivate, Bool.false_or]

mutual

theorem hiddenPlaces_of_includePrivate (hprivate : options.includePrivate = true) :
    (declaration : Declaration) → (place : List ℕ) →
      hiddenPlaces options declaration place = []
  | { children, .. }, place => by
      rw [hiddenPlaces, if_pos (admits_of_includePrivate hprivate _)]
      exact hiddenPlacesAmong_of_includePrivate hprivate children place 0

theorem hiddenPlacesAmong_of_includePrivate (hprivate : options.includePrivate = true) :
    (declarations : List Declaration) → (above : List ℕ) → (index : ℕ) →
      hiddenPlacesAmong options declarations above index = []
  | [], _, _ => rfl
  | declaration :: rest, above, index => by
      rw [hiddenPlacesAmong, hiddenPlaces_of_includePrivate hprivate declaration,
        hiddenPlacesAmong_of_includePrivate hprivate rest, List.append_nil]

end

mutual

theorem length_hiddenPlaces (hprivate : options.includePrivate = false) :
    (declaration : Declaration) → (place : List ℕ) →
      (hiddenPlaces options declaration place).length = hiddenWithin declaration
  | { children, .. }, place => by
      rw [hiddenPlaces, hiddenWithin, admits_of_not_includePrivate hprivate]
      split_ifs
      · exact length_hiddenPlacesAmong hprivate children place 0
      · exact length_allPlaces _ place

theorem length_hiddenPlacesAmong (hprivate : options.includePrivate = false) :
    (declarations : List Declaration) → (above : List ℕ) → (index : ℕ) →
      (hiddenPlacesAmong options declarations above index).length = hiddenAmong declarations
  | [], _, _ => rfl
  | declaration :: rest, above, index => by
      rw [hiddenPlacesAmong, hiddenAmong, List.length_append,
        length_hiddenPlaces hprivate declaration, length_hiddenPlacesAmong hprivate rest]

end

/-- The hidden places are as many as the outline says it hides. -/
theorem length_hiddenPlaces_eq (declarations : List Declaration) (options : RenderOptions) :
    (hiddenPlacesAmong options declarations [] 0).length =
      hiddenDeclarationCount declarations options := by
  rw [hiddenDeclarationCount]
  split_ifs with hprivate
  · rw [hiddenPlacesAmong_of_includePrivate hprivate]
    rfl
  · exact length_hiddenPlacesAmong (Bool.eq_false_iff.2 hprivate) declarations [] 0

end Hidden

/-! ## Marked lines -/

/-- What a line of an outline writes; a signature line has the places of the
declarations on it. -/
inductive LineRole where
  | doc
  | annotations
  | signature (written : List (List ℕ))
  | closing
  | truncation
  deriving DecidableEq, Repr

structure MarkedLine where
  text : String
  role : LineRole
  deriving DecidableEq, Repr

/-- A member of a container at its place, with the lines it writes of its own. -/
structure MarkedMember where
  place : List ℕ
  declaration : Declaration
  lines : List MarkedLine
  deriving Repr

namespace SkeletonWriter

variable (options : RenderOptions)

/-- `memberLines`, marked. -/
def markedMembers (members : List MarkedMember) (depth : ℕ) : List MarkedLine :=
  let entries := members.takeWhile fun member => member.declaration.kind = .enumEntry
  let terminator := if entries.length < members.length then ";" else ""
  let entryLines :=
    if entries.isEmpty then []
    else
      [⟨padding depth ++ joinNames (entries.map (·.declaration)) ++ terminator,
        .signature (entries.map (·.place))⟩]
  entryLines ++ (members.drop entries.length).flatMap (·.lines)

/-- `containerLines`, marked. -/
def markedContainer (declaration : Declaration) (place : List ℕ)
    (members : List MarkedMember) (depth : ℕ) : List MarkedLine :=
  let header := headerOf declaration options
  if !declaration.isContainer || members.isEmpty then
    [⟨padding depth ++ header, .signature [place]⟩]
  else if maxNestingDepth ≤ depth then
    [⟨padding depth ++ header ++ " \x7b", .signature [place]⟩,
      ⟨truncationLine (depth + 1), .truncation⟩, ⟨padding depth ++ "\x7d", .closing⟩]
  else
    match inlineForm options header (members.map (·.declaration))
        (byteLength (padding depth)) with
    | some inlined =>
        [⟨padding depth ++ inlined, .signature (place :: members.map (·.place))⟩]
    | none =>
        [⟨padding depth ++ header ++ " \x7b", .signature [place]⟩] ++
          markedMembers members (depth + 1) ++ [⟨padding depth ++ "\x7d", .closing⟩]

mutual

/-- `write`, marked. -/
def mark : Declaration → List ℕ → ℕ → List MarkedLine
  | declaration@{ children, .. }, place, depth =>
      if options.admits declaration then
        (docLines options declaration depth).map (⟨·, .doc⟩) ++
          (annotationLines options declaration depth).map (⟨·, .annotations⟩) ++
          markedContainer options declaration place
            ((markEach children place 0 (depth + 1)).filter fun member =>
              options.admits member.declaration) depth
      else []

def markEach : List Declaration → List ℕ → ℕ → ℕ → List MarkedMember
  | [], _, _, _ => []
  | declaration :: rest, above, index, depth =>
      ⟨above ++ [index], declaration, mark declaration (above ++ [index]) depth⟩ ::
        markEach rest above (index + 1) depth

end

def markAll (declarations : List Declaration) : List MarkedLine :=
  (markEach options declarations [] 0 0).flatMap (·.lines)

/-! ## The marks change no line -/

def MarkedMember.written (member : MarkedMember) : Declaration × List String :=
  (member.declaration, member.lines.map (·.text))

theorem text_markedMembers (members : List MarkedMember) (depth : ℕ) :
    (markedMembers members depth).map (·.text) =
      memberLines (members.map MarkedMember.written) depth := by
  have hentries : ((members.map MarkedMember.written).map Prod.fst).takeWhile
      (fun member => member.kind = .enumEntry) =
        (members.takeWhile fun member => member.declaration.kind = .enumEntry).map
          (·.declaration) := by
    rw [List.map_map, List.takeWhile_map]
    rfl
  rw [markedMembers, memberLines]
  simp only [hentries, List.map_append, List.length_map, List.isEmpty_map, ← List.map_drop,
    List.map_flatMap, List.flatMap_map]
  split_ifs <;> rfl

theorem text_markedContainer (declaration : Declaration) (place : List ℕ)
    (members : List MarkedMember) (depth : ℕ) :
    (markedContainer options declaration place members depth).map (·.text) =
      containerLines options declaration (members.map MarkedMember.written) depth := by
  have hdeclarations : (members.map MarkedMember.written).map Prod.fst =
      members.map (·.declaration) := by
    rw [List.map_map]
    rfl
  rw [markedContainer, containerLines]
  simp only [hdeclarations, List.isEmpty_map, ← text_markedMembers]
  split_ifs
  · rfl
  · rfl
  · cases inlineForm options (headerOf declaration options) (members.map (·.declaration))
        (byteLength (padding depth)) with
    | some inlined => rfl
    | none => simp

mutual

theorem text_mark : (declaration : Declaration) → (place : List ℕ) → (depth : ℕ) →
    (mark options declaration place depth).map (·.text) = write options declaration depth
  | declaration@{ children, .. }, place, depth => by
      have hmembers := written_markEach children place 0 (depth + 1)
      rw [mark, write]
      split_ifs
      · rw [← hmembers, List.filter_map, List.map_append, List.map_append,
          text_markedContainer, List.map_map, List.map_map]
        simp [Function.comp_def, MarkedMember.written]
      · rfl

theorem written_markEach : (declarations : List Declaration) → (above : List ℕ) →
    (index depth : ℕ) → (markEach options declarations above index depth).map
      MarkedMember.written = writeEach options declarations depth
  | [], _, _, _ => rfl
  | declaration :: rest, above, index, depth => by
      rw [markEach, writeEach, List.map_cons, written_markEach rest, MarkedMember.written,
        text_mark declaration]

end

theorem text_markAll (declarations : List Declaration) :
    (markAll options declarations).map (·.text) = writeAll options declarations 0 := by
  have heach : (writeEach options declarations 0).flatMap Prod.snd =
      writeAll options declarations 0 := by
    induction declarations with
    | nil => rfl
    | cons declaration rest ih =>
        rw [writeEach, List.flatMap_cons, ih, writeAll, writeAll, List.flatMap_cons]
  rw [markAll, ← heach, ← written_markEach options declarations [] 0 0, List.map_flatMap,
    List.flatMap_map]
  rfl

end SkeletonWriter

/-! ## The shape the extractor gives -/

mutual

/-- Only containers have children, enum entries have neither doc nor annotations, and
nothing is nested deeper than the bound. -/
def extractorShaped : Declaration → ℕ → Bool
  | declaration@{ children, .. }, depth =>
      depth ≤ maxNestingDepth && (declaration.isContainer || children.isEmpty) &&
        (declaration.kind ≠ .enumEntry ||
          declaration.doc.isNone && declaration.annotations.isEmpty) &&
        eachExtractorShaped children (depth + 1)

def eachExtractorShaped : List Declaration → ℕ → Bool
  | [], _ => true
  | declaration :: rest, depth =>
      extractorShaped declaration depth && eachExtractorShaped rest depth

end

theorem extractorShaped_of_mem {declarations : List Declaration} {depth : ℕ}
    (hshape : eachExtractorShaped declarations depth = true) :
    ∀ declaration ∈ declarations, extractorShaped declaration depth = true := by
  induction declarations with
  | nil => simp
  | cons first rest ih =>
      rw [eachExtractorShaped, Bool.and_eq_true] at hshape
      rw [List.forall_mem_cons]
      exact ⟨hshape.1, ih hshape.2⟩

/-- What the shape of a declaration says. -/
structure Shaped (declaration : Declaration) (depth : ℕ) : Prop where
  depth_le : depth ≤ maxNestingDepth
  container : declaration.children ≠ [] → declaration.isContainer = true
  entry : declaration.kind = .enumEntry → declaration.annotations = []
  children : eachExtractorShaped declaration.children (depth + 1) = true

theorem extractorShaped.shaped {declaration : Declaration} {depth : ℕ}
    (hshape : extractorShaped declaration depth = true) : Shaped declaration depth := by
  obtain ⟨⟩ := declaration
  simp only [extractorShaped, Bool.and_eq_true, Bool.or_eq_true, decide_eq_true_eq,
    List.isEmpty_iff, Option.isNone_iff_eq_none] at hshape
  obtain ⟨⟨⟨hdepth, hcontainer⟩, hentry⟩, hchildren⟩ := hshape
  exact ⟨hdepth, hcontainer.resolve_right, fun hkind => (hentry.resolve_left (· hkind)).2,
    hchildren⟩

theorem Shaped.leaf_of_entry {declaration : Declaration} {depth : ℕ}
    (hshaped : Shaped declaration depth) (hentry : declaration.kind = .enumEntry) :
    declaration.children = [] := by
  by_contra hchildren
  have hcontainer := hshaped.container hchildren
  rw [Declaration.isContainer, hentry] at hcontainer
  cases hcontainer

/-- A declaration with children is above the bound. -/
theorem Shaped.depth_lt {declaration : Declaration} {depth : ℕ}
    (hshaped : Shaped declaration depth) (hchildren : declaration.children ≠ []) :
    depth < maxNestingDepth := by
  have hshape := hshaped.children
  cases hfirst : declaration.children with
  | nil => exact absurd hfirst hchildren
  | cons first rest =>
      rw [hfirst] at hshape
      have hdeeper := (extractorShaped_of_mem hshape first List.mem_cons_self)
      exact (extractorShaped.shaped hdeeper).depth_le

/-! ## Counting what the lines write -/

/-- A count over lines that does not mind whether declarations share one. -/
structure LineCount (A : Type*) where
  of : LineRole → List A
  doc : of .doc = []
  closing : of .closing = []
  nothing : of (.signature []) = []
  joined : ∀ left right,
    of (.signature (left ++ right)) = of (.signature left) ++ of (.signature right)

namespace LineCount

variable {A : Type*} (count : LineCount A)

def total (lines : List MarkedLine) : List A :=
  lines.flatMap fun line => count.of line.role

@[simp]
theorem total_nil : count.total [] = [] := rfl

@[simp]
theorem total_cons (line : MarkedLine) (rest : List MarkedLine) :
    count.total (line :: rest) = count.of line.role ++ count.total rest := rfl

@[simp]
theorem total_append (left right : List MarkedLine) :
    count.total (left ++ right) = count.total left ++ count.total right :=
  List.flatMap_append

theorem total_flatMap {B : Type*} (items : List B) (lines : B → List MarkedLine) :
    count.total (items.flatMap lines) = items.flatMap fun item => count.total (lines item) :=
  List.flatMap_assoc

theorem joined_flatMap {B : Type*} (items : List B) (place : B → List ℕ) :
    count.of (.signature (items.map place)) =
      items.flatMap fun item => count.of (.signature [place item]) := by
  induction items with
  | nil => exact count.nothing
  | cons item rest ih =>
      have hjoined := count.joined [place item] (rest.map place)
      rw [List.singleton_append] at hjoined
      rw [List.map_cons, hjoined, ih, List.flatMap_cons]

variable (options : RenderOptions)

/-- What the annotation lines of a declaration count for. -/
def annotated (declaration : Declaration) : List A :=
  if options.includeAnnotations then
    declaration.annotations.flatMap fun _ => count.of .annotations
  else []

mutual

/-- The count over the tree: its annotations and its signature, for each declaration
that is admitted. -/
def tally : Declaration → List ℕ → List A
  | declaration@{ children, .. }, place =>
      if options.admits declaration then
        count.annotated options declaration ++ count.of (.signature [place]) ++
          tallyEach children place 0
      else []

def tallyEach : List Declaration → List ℕ → ℕ → List A
  | [], _, _ => []
  | declaration :: rest, above, index =>
      tally declaration (above ++ [index]) ++ tallyEach rest above (index + 1)

end

end LineCount

namespace SkeletonWriter

variable {A : Type*} (count : LineCount A) (options : RenderOptions)

/-- A member that writes nothing but its signature when it is written on its own. -/
def Bare (member : MarkedMember) : Prop :=
  count.total member.lines = count.of (.signature [member.place])

theorem total_markedMembers {members : List MarkedMember} (depth : ℕ)
    (hentries : ∀ member ∈ members, member.declaration.kind = .enumEntry →
      Bare count member) :
    count.total (markedMembers members depth) =
      members.flatMap fun member => count.total member.lines := by
  let isEntry := fun member : MarkedMember => decide (member.declaration.kind = .enumEntry)
  have happend := List.takeWhile_append_dropWhile (p := isEntry) (l := members)
  have hdrop : members.drop (members.takeWhile isEntry).length = members.dropWhile isEntry := by
    calc
      _ = (members.takeWhile isEntry ++ members.dropWhile isEntry).drop
            (members.takeWhile isEntry).length := by rw [happend]
      _ = _ := List.drop_left
  have hbare : (members.takeWhile isEntry).flatMap
      (fun member => count.of (.signature [member.place])) =
        (members.takeWhile isEntry).flatMap fun member => count.total member.lines := by
    apply List.flatMap_congr
    intro member hmember
    have hkind : isEntry member = true := List.mem_takeWhile_imp hmember
    exact (hentries member ((List.takeWhile_prefix _).subset hmember)
      (of_decide_eq_true hkind)).symm
  have hlead (text : String) : count.total
      (if (members.takeWhile isEntry).isEmpty then []
        else [⟨text, .signature ((members.takeWhile isEntry).map (·.place))⟩]) =
        (members.takeWhile isEntry).flatMap fun member => count.total member.lines := by
    rw [← hbare, ← count.joined_flatMap]
    split_ifs with hempty
    · rw [List.isEmpty_iff.1 hempty]
      exact count.nothing.symm
    · simp
  have hlines : markedMembers members depth =
      (if (members.takeWhile isEntry).isEmpty then []
        else [⟨padding depth ++ joinNames ((members.takeWhile isEntry).map (·.declaration)) ++
            (if (members.takeWhile isEntry).length < members.length then ";" else ""),
          .signature ((members.takeWhile isEntry).map (·.place))⟩]) ++
        (members.drop (members.takeWhile isEntry).length).flatMap (·.lines) := rfl
  rw [hlines, count.total_append, hlead, count.total_flatMap, hdrop, ← List.flatMap_append,
    happend]

/-- Only a leaf whose doc and annotations are not asked for goes on the line of its
container. -/
theorem only_of_inlineForm {header inlined : String} {members : List Declaration}
    {indentWidth : ℕ} (hinline : inlineForm options header members indentWidth = some inlined) :
    ∃ only, members = [only] ∧ only.children = [] ∧
      (options.includeAnnotations = true → only.annotations = []) := by
  unfold inlineForm at hinline
  split at hinline
  · rename_i only
    dsimp only at hinline
    split_ifs at hinline with hcarries
    simp only [Bool.or_eq_true, Bool.and_eq_true, Bool.not_eq_true', not_or, not_and,
      Bool.not_eq_false, List.isEmpty_iff] at hcarries
    exact ⟨only, rfl, hcarries.1.1, hcarries.2⟩
  · cases hinline

/-- All four forms of a container count for its signature and what its members count
for. -/
theorem total_markedContainer {declaration : Declaration} {members : List MarkedMember}
    {depth : ℕ} (place : List ℕ)
    (hcontainer : members ≠ [] → declaration.isContainer = true ∧ depth < maxNestingDepth)
    (hentries : ∀ member ∈ members, member.declaration.kind = .enumEntry →
      Bare count member)
    (hleaves : ∀ member ∈ members, member.declaration.children = [] →
      (options.includeAnnotations = true → member.declaration.annotations = []) →
        Bare count member) :
    count.total (markedContainer options declaration place members depth) =
      count.of (.signature [place]) ++
        members.flatMap fun member => count.total member.lines := by
  rw [markedContainer]
  by_cases hmembers : members = []
  · subst hmembers
    simp
  obtain ⟨hkind, hdepth⟩ := hcontainer hmembers
  have hplain : (!declaration.isContainer || members.isEmpty) = false := by
    rw [hkind, List.isEmpty_eq_false_iff.2 hmembers]
    rfl
  simp only [hplain, Bool.false_eq_true, if_false, if_neg (Nat.not_le.2 hdepth)]
  cases hinline : inlineForm options (headerOf declaration options)
      (members.map (·.declaration)) (byteLength (padding depth)) with
  | none => simp [total_markedMembers count (depth + 1) hentries, count.closing]
  | some inlined =>
      obtain ⟨only, honly, hleaf, hannotations⟩ := only_of_inlineForm options hinline
      obtain ⟨member, rfl, rfl⟩ := List.map_eq_singleton_iff.1 honly
      have hbare := hleaves member List.mem_cons_self hleaf hannotations
      have hjoined := count.joined [place] [member.place]
      simp only [List.map_cons, List.map_nil, LineCount.total_cons, LineCount.total_nil,
        List.append_nil, List.flatMap_cons, List.flatMap_nil]
      rw [hbare, ← hjoined]
      rfl

theorem total_docLines (declaration : Declaration) (depth : ℕ) :
    count.total ((docLines options declaration depth).map (⟨·, .doc⟩)) = [] := by
  rw [LineCount.total, List.flatMap_map]
  exact List.flatMap_eq_nil_iff.2 fun _ _ => count.doc

theorem total_annotationLines (declaration : Declaration) (depth : ℕ) :
    count.total ((annotationLines options declaration depth).map (⟨·, .annotations⟩)) =
      count.annotated options declaration := by
  rw [LineCount.total, List.flatMap_map, annotationLines, LineCount.annotated]
  split_ifs
  · rw [List.flatMap_map]
  · rfl

/-- A leaf writes its annotations and its signature. -/
theorem total_mark_of_leaf {declaration : Declaration} (hleaf : declaration.children = [])
    (hadmits : options.admits declaration = true) (place : List ℕ) (depth : ℕ) :
    count.total (mark options declaration place depth) =
      count.annotated options declaration ++ count.of (.signature [place]) := by
  obtain ⟨⟩ := declaration
  subst hleaf
  rw [mark, if_pos hadmits, markEach, count.total_append, count.total_append, total_docLines,
    total_annotationLines, markedContainer]
  simp

/-- A leaf with no annotation to show is bare. -/
theorem bare_of_leaf {declaration : Declaration} (hleaf : declaration.children = [])
    (hadmits : options.admits declaration = true)
    (hannotations : options.includeAnnotations = true → declaration.annotations = [])
    (place : List ℕ) (depth : ℕ) :
    Bare count ⟨place, declaration, mark options declaration place depth⟩ := by
  have hnone : count.annotated options declaration = [] := by
    rw [LineCount.annotated]
    split_ifs with hshown
    · rw [hannotations hshown]
      rfl
    · rfl
  rw [Bare, total_mark_of_leaf count options hleaf hadmits, hnone, List.nil_append]

theorem mem_markEach {declarations : List Declaration} {above : List ℕ} {index depth : ℕ}
    {member : MarkedMember} (hmember : member ∈ markEach options declarations above index depth) :
    member.declaration ∈ declarations ∧
      member.lines = mark options member.declaration member.place depth := by
  induction declarations generalizing index with
  | nil => cases hmember
  | cons first rest ih =>
      rw [markEach, List.mem_cons] at hmember
      rcases hmember with rfl | hrest
      · exact ⟨List.mem_cons_self, rfl⟩
      · exact ⟨List.mem_cons_of_mem _ (ih hrest).1, (ih hrest).2⟩

/-- A member that is not admitted has no lines. -/
theorem mark_of_not_admits {declaration : Declaration}
    (hadmits : options.admits declaration = false) (place : List ℕ) (depth : ℕ) :
    mark options declaration place depth = [] := by
  obtain ⟨⟩ := declaration
  rw [mark, if_neg (Bool.eq_false_iff.1 hadmits)]

theorem flatMap_filter_of_nil {B C : Type*} {kept : B → Bool} {values : B → List C}
    {items : List B} (hnil : ∀ item ∈ items, kept item = false → values item = []) :
    (items.filter kept).flatMap values = items.flatMap values := by
  induction items with
  | nil => rfl
  | cons first rest ih =>
      rw [List.forall_mem_cons] at hnil
      rw [List.filter_cons, List.flatMap_cons, ← ih hnil.2]
      split_ifs with hkept
      · rw [List.flatMap_cons]
      · rw [hnil.1 (Bool.eq_false_iff.2 hkept), List.nil_append]

theorem flatMap_admitted (declarations : List Declaration) (above : List ℕ)
    (index depth : ℕ) :
    ((markEach options declarations above index depth).filter fun member =>
        options.admits member.declaration).flatMap (fun member => count.total member.lines) =
      (markEach options declarations above index depth).flatMap
        fun member => count.total member.lines := by
  apply flatMap_filter_of_nil
  intro member hmember hadmits
  rw [(mem_markEach options hmember).2, mark_of_not_admits options hadmits]
  rfl

mutual

/-- The lines of a shaped declaration count for what the tree counts for. -/
theorem total_mark : (declaration : Declaration) → (place : List ℕ) → (depth : ℕ) →
    extractorShaped declaration depth = true →
      count.total (mark options declaration place depth) =
        count.tally options declaration place
  | declaration@{ children, .. }, place, depth, hshape => by
      have hshaped := extractorShaped.shaped hshape
      have heach := extractorShaped_of_mem hshaped.children
      have hmembers := total_markEach children place 0 (depth + 1) hshaped.children
      rw [mark, LineCount.tally]
      split_ifs
      · rw [count.total_append, count.total_append, total_docLines, total_annotationLines,
          List.nil_append, total_markedContainer, flatMap_admitted, hmembers, List.append_assoc]
        · intro hne
          have hchildren : children ≠ [] := by
            rintro rfl
            exact hne rfl
          exact ⟨hshaped.container hchildren, hshaped.depth_lt hchildren⟩
        · intro member hmember hentry
          obtain ⟨hmem, hadmits⟩ := List.mem_filter.1 hmember
          obtain ⟨hchild, hlines⟩ := mem_markEach options hmem
          have hentryShaped := extractorShaped.shaped (heach _ hchild)
          rw [Bare, hlines]
          exact bare_of_leaf count options (hentryShaped.leaf_of_entry hentry) hadmits
            (fun _ => hentryShaped.entry hentry) member.place (depth + 1)
        · intro member hmember hleaf hannotations
          obtain ⟨hmem, hadmits⟩ := List.mem_filter.1 hmember
          rw [Bare, (mem_markEach options hmem).2]
          exact bare_of_leaf count options hleaf hadmits hannotations member.place (depth + 1)
      · rfl

theorem total_markEach : (declarations : List Declaration) → (above : List ℕ) →
    (index depth : ℕ) → eachExtractorShaped declarations depth = true →
      ((markEach options declarations above index depth).flatMap
        fun member => count.total member.lines) = count.tallyEach options declarations above index
  | [], _, _, _, _ => rfl
  | declaration :: rest, above, index, depth, hshape => by
      rw [eachExtractorShaped, Bool.and_eq_true] at hshape
      rw [markEach, List.flatMap_cons, LineCount.tallyEach, total_mark declaration _ _ hshape.1,
        total_markEach rest above (index + 1) depth hshape.2]

end

theorem total_markAll {declarations : List Declaration}
    (hshape : eachExtractorShaped declarations 0 = true) :
    count.total (markAll options declarations) = count.tallyEach options declarations [] 0 := by
  rw [markAll, count.total_flatMap]
  exact total_markEach count options declarations [] 0 0 hshape

end SkeletonWriter

/-! ## Three counts -/

/-- The places written. -/
def writtenCount : LineCount (List ℕ) where
  of
    | .signature written => written
    | _ => []
  doc := rfl
  closing := rfl
  nothing := rfl
  joined _ _ := rfl

/-- The lines of one role, when it is no signature. -/
def annotationCount : LineCount Unit where
  of
    | .annotations => [()]
    | _ => []
  doc := rfl
  closing := rfl
  nothing := rfl
  joined _ _ := rfl

def truncationCount : LineCount Unit where
  of
    | .truncation => [()]
    | _ => []
  doc := rfl
  closing := rfl
  nothing := rfl
  joined _ _ := rfl

def writtenPlaces (lines : List MarkedLine) : List (List ℕ) := writtenCount.total lines

theorem perm_append_middle {A : Type*} (first second third fourth : List A) :
    ((first ++ second) ++ (third ++ fourth)).Perm
      ((first ++ third) ++ (second ++ fourth)) := by
  rw [List.append_assoc, List.append_assoc]
  exact List.perm_append_comm_assoc second third fourth |>.append_left first

theorem annotated_writtenCount (options : RenderOptions) (declaration : Declaration) :
    writtenCount.annotated options declaration = [] := by
  rw [LineCount.annotated]
  split_ifs
  · exact List.flatMap_eq_nil_iff.2 fun _ _ => rfl
  · rfl

mutual

/-- What is written and what is hidden are all declarations. -/
theorem tally_perm (options : RenderOptions) : (declaration : Declaration) →
    (place : List ℕ) → (writtenCount.tally options declaration place ++
      hiddenPlaces options declaration place).Perm (allPlaces declaration place)
  | declaration@{ children, .. }, place => by
      have hchildren := tallyEach_perm options children place 0
      rw [LineCount.tally, hiddenPlaces]
      split_ifs
      · rw [annotated_writtenCount, List.nil_append, allPlaces]
        exact hchildren.cons place
      · exact List.Perm.refl _

theorem tallyEach_perm (options : RenderOptions) : (declarations : List Declaration) →
    (above : List ℕ) → (index : ℕ) → (writtenCount.tallyEach options declarations above index ++
      hiddenPlacesAmong options declarations above index).Perm
        (allPlacesAmong declarations above index)
  | [], _, _ => List.Perm.refl _
  | declaration :: rest, above, index => by
      have hfirst := tally_perm options declaration (above ++ [index])
      have hrest := tallyEach_perm options rest above (index + 1)
      rw [LineCount.tallyEach, hiddenPlacesAmong, allPlacesAmong]
      exact (perm_append_middle _ _ _ _).trans (hfirst.append hrest)

end

theorem admits_eq (options : RenderOptions) (declaration : Declaration) :
    options.admits declaration =
      !(!isVisibleApi declaration.visibility && !options.includePrivate) := by
  rw [RenderOptions.admits, Bool.not_and, Bool.not_not, Bool.not_not, Bool.or_comm]

theorem length_annotated {options : RenderOptions} (hshown : options.includeAnnotations = true)
    (declaration : Declaration) :
    (annotationCount.annotated options declaration).length =
      declaration.annotations.length := by
  rw [LineCount.annotated, if_pos hshown, List.length_flatMap]
  simp [annotationCount]

mutual

theorem length_annotationTally (options : RenderOptions)
    (hshown : options.includeAnnotations = true) : (declaration : Declaration) →
      (place : List ℕ) → (annotationCount.tally options declaration place).length =
        annotationsWithin options declaration
  | declaration@{ children, .. }, place => by
      rw [LineCount.tally, annotationsWithin, admits_eq]
      split_ifs with hadmitted hhidden hhidden
      · rw [hhidden] at hadmitted
        cases hadmitted
      · rw [List.length_append, List.length_append, length_annotated hshown,
          length_annotationTallyEach options hshown children]
        rfl
      · rfl
      · rw [Bool.not_eq_true', Bool.not_eq_false] at hadmitted
        exact absurd hadmitted hhidden

theorem length_annotationTallyEach (options : RenderOptions)
    (hshown : options.includeAnnotations = true) : (declarations : List Declaration) →
      (above : List ℕ) → (index : ℕ) →
        (annotationCount.tallyEach options declarations above index).length =
          annotationsAmong options declarations
  | [], _, _ => rfl
  | declaration :: rest, above, index => by
      rw [LineCount.tallyEach, annotationsAmong, List.length_append,
        length_annotationTally options hshown declaration,
        length_annotationTallyEach options hshown rest]

end

mutual

theorem tally_truncationCount (options : RenderOptions) : (declaration : Declaration) →
    (place : List ℕ) → truncationCount.tally options declaration place = []
  | declaration@{ children, .. }, place => by
      have hannotated (declaration : Declaration) :
          truncationCount.annotated options declaration = [] := by
        rw [LineCount.annotated]
        split_ifs
        · exact List.flatMap_eq_nil_iff.2 fun _ _ => rfl
        · rfl
      rw [LineCount.tally, hannotated, tallyEach_truncationCount options children]
      split_ifs <;> rfl

theorem tallyEach_truncationCount (options : RenderOptions) :
    (declarations : List Declaration) → (above : List ℕ) → (index : ℕ) →
      truncationCount.tallyEach options declarations above index = []
  | [], _, _ => rfl
  | declaration :: rest, above, index => by
      rw [LineCount.tallyEach, tally_truncationCount options declaration,
        tallyEach_truncationCount options rest, List.nil_append]

end

theorem truncation_notMem {lines : List MarkedLine} (hnone : truncationCount.total lines = []) :
    ∀ line ∈ lines, line.role ≠ .truncation := by
  intro line hline hrole
  have hempty := List.flatMap_eq_nil_iff.1 hnone line hline
  rw [hrole] at hempty
  cases hempty

theorem countP_annotations (lines : List MarkedLine) :
    lines.countP (·.role = .annotations) = (annotationCount.total lines).length := by
  induction lines with
  | nil => rfl
  | cons line rest ih =>
      obtain ⟨text, role⟩ := line
      rw [List.countP_cons, ih, LineCount.total_cons, List.length_append, Nat.add_comm]
      cases role <;> rfl

mutual

/-- The count of annotations minds only whether private declarations are shown. -/
theorem annotationsWithin_congr {left right : RenderOptions}
    (hprivate : left.includePrivate = right.includePrivate) : (declaration : Declaration) →
      annotationsWithin left declaration = annotationsWithin right declaration
  | { children, .. } => by
      rw [annotationsWithin, annotationsWithin, hprivate, annotationsAmong_congr hprivate children]

theorem annotationsAmong_congr {left right : RenderOptions}
    (hprivate : left.includePrivate = right.includePrivate) :
    (declarations : List Declaration) →
      annotationsAmong left declarations = annotationsAmong right declarations
  | [] => rfl
  | declaration :: rest => by
      rw [annotationsAmong, annotationsAmong, annotationsWithin_congr hprivate declaration,
        annotationsAmong_congr hprivate rest]

end

/-! ## The accounting -/

open SkeletonWriter in
/-- The marked lines of an outline are its lines.  Every declaration is on exactly one
signature line or one of those counted as hidden, no line says that nesting was cut
short, and the annotations counted as hidden are the lines that asking for them adds. -/
theorem outline_accounts_for_declarations (declarations : List Declaration)
    (options : RenderOptions) (hshape : eachExtractorShaped declarations 0 = true) :
    (markAll options declarations).map (·.text) = writeAll options declarations 0 ∧
      (allPlacesAmong declarations [] 0).Nodup ∧
      (writtenPlaces (markAll options declarations) ++
        hiddenPlacesAmong options declarations [] 0).Perm
          (allPlacesAmong declarations [] 0) ∧
      (writtenPlaces (markAll options declarations)).length +
        hiddenDeclarationCount declarations options = subtreeSizes declarations ∧
      (∀ line ∈ markAll options declarations, line.role ≠ .truncation) ∧
      hiddenAnnotationCount declarations { options with includeAnnotations := false } =
        (markAll { options with includeAnnotations := true } declarations).countP
          (·.role = .annotations) := by
  have hwritten := total_markAll writtenCount options hshape
  have hperm : (writtenPlaces (markAll options declarations) ++
      hiddenPlacesAmong options declarations [] 0).Perm
        (allPlacesAmong declarations [] 0) := by
    rw [writtenPlaces, hwritten]
    exact tallyEach_perm options declarations [] 0
  refine ⟨text_markAll options declarations, nodup_allPlacesAmong declarations [] 0, hperm,
    ?_, ?_, ?_⟩
  · rw [← length_hiddenPlaces_eq, ← List.length_append, hperm.length_eq,
      length_allPlacesAmong]
  · apply truncation_notMem
    rw [total_markAll truncationCount options hshape, tallyEach_truncationCount]
  · rw [countP_annotations, total_markAll annotationCount _ hshape,
      length_annotationTallyEach _ rfl, hiddenAnnotationCount, if_neg Bool.false_ne_true]
    apply annotationsAmong_congr
    rfl

/-- An enum with two entries, an annotated function and a companion with one constant. -/
def roleOutline : List Declaration :=
  [(Declaration.new .classKind "Role" 1).containing
    [Declaration.new .enumEntry "VIEWER" 2, Declaration.new .enumEntry "ADMIN" 3,
      { Declaration.new .function "label" 4 with annotations := ["@JvmStatic"] },
      (Declaration.new .object "" 5).containing
        [{ Declaration.new .val "LIMIT" 6 with visibility := .privateScope }]]]

/-- Its constant is hidden, and its one annotation. -/
theorem roleOutline_accounted :
    (writtenPlaces (SkeletonWriter.markAll .default roleOutline)).length + 1 =
        subtreeSizes roleOutline ∧
      hiddenAnnotationCount roleOutline .default =
        (SkeletonWriter.markAll { RenderOptions.default with includeAnnotations := true }
          roleOutline).countP (·.role = .annotations) := by
  have haccounts := outline_accounts_for_declarations roleOutline .default (by decide)
  exact ⟨haccounts.2.2.2.1, haccounts.2.2.2.2.2⟩

end Ktsense.Core
