import Ktsense.Core.JavaBlocks
import Ktsense.Core.JavaInsertion
import Ktsense.Core.JavaScopes

/-!
# Declarations under annotations

What an annotation inserted before a declaration or a modifier changes: lines and
offsets behind the place, and the signature of a declaration whose header had begun,
since a signature is the text of the header.
-/

namespace Ktsense.Core

open Ktsense.Foundation

/-- Where an offset goes when so many bytes are inserted at a place. -/
def movedOffset (place bytes offset : ℕ) : ℕ :=
  if offset < place then offset else offset + bytes

/-- The same line, or so many further down at most. -/
def Shifted (breaks line other : ℕ) : Prop := line ≤ other ∧ other ≤ line + breaks

/-- A scope and what becomes of it. -/
structure SameScope (place bytes breaks : ℕ) (scope other : BraceScope) : Prop where
  opens : other.opens = movedOffset place bytes scope.opens
  closes : other.closes = movedOffset place bytes scope.closes
  openLine : Shifted breaks scope.openLine other.openLine
  closeLine : Shifted breaks scope.closeLine other.closeLine
  names : other.names = scope.names

/-- A word, the keyword of an annotation type, or a list of type parameters. -/
def Seen.startsHeader (item : Seen) : Bool :=
  item.word?.isSome || item.token? = some .lAngle

/-- Where the header begins that these items end in. -/
def headerStart (items : List Seen) : Option ℕ :=
  ((sinceBoundary items).find? Seen.startsHeader).map (·.spanned.offset)

/-- Where the header begins that a place of a source stands in. -/
def headerStartAt (letters : Letters) (source : String) (place : ℕ) : Option ℕ :=
  headerStart ((seen (tokenize letters source)).filter (·.spanned.offset < place))

/-- A signature and what becomes of it when a text is inserted behind another: it is the
same, or its header is the one that had begun, and the text stands in it. -/
def SameSignature (before inserted after : String) (start : Option ℕ)
    (signature other : String) : Prop :=
  other = signature ∨ ∃ first ∈ start, ∃ last ≥ before.utf8ByteSize,
    signature = foldWhitespace (headerSlice (before ++ after) (some first) last) ∧
      other = foldWhitespace
        (headerSlice (before ++ after) (some first) before.utf8ByteSize ++ inserted ++
          headerSlice (before ++ after) (some before.utf8ByteSize) last)

structure SameDeclaration (before inserted after : String) (start : Option ℕ)
    (declaration other : JavaDeclaration) : Prop where
  kind : other.kind = declaration.kind
  name : other.name = declaration.name
  line : Shifted (inserted.toList.count '\n') declaration.line other.line
  enclosing : other.enclosing = declaration.enclosing
  signature : SameSignature before inserted after start declaration.signature other.signature

/-! ## Places -/

theorem Shifted.refl (breaks line : ℕ) : Shifted breaks line line :=
  ⟨le_rfl, Nat.le_add_right _ _⟩

theorem Shifted.weaken {lines breaks line other : ℕ} (hshifted : Shifted lines line other)
    (hle : lines ≤ breaks) : Shifted breaks line other :=
  ⟨hshifted.1, hshifted.2.trans (Nat.add_le_add_left hle _)⟩

theorem Shifted.or_some {breaks line moved : ℕ} (hline : Shifted breaks line moved)
    {first second : Option ℕ} (hfirst : Option.Rel (Shifted breaks) first second) :
    Option.Rel (Shifted breaks) (first.or (some line)) (second.or (some moved)) := by
  cases hfirst with
  | some hshifted => exact .some hshifted
  | none => exact .some hline

theorem Shifted.getD {breaks line moved : ℕ} (hline : Shifted breaks line moved)
    {first second : Option ℕ} (hfirst : Option.Rel (Shifted breaks) first second) :
    Shifted breaks (first.getD line) (second.getD moved) := by
  cases hfirst with
  | some hshifted => exact hshifted
  | none => exact hline

theorem movedOffset_strictMono (place bytes : ℕ) : StrictMono (movedOffset place bytes) := by
  intro first second hlt
  rw [movedOffset, movedOffset]
  split_ifs <;> omega

theorem movedOffset_of_le {place offset : ℕ} (hle : place ≤ offset) (bytes : ℕ) :
    movedOffset place bytes offset = offset + bytes :=
  if_neg (Nat.not_lt.mpr hle)

/-- Scopes stay inside one another or apart. -/
theorem SameScope.inside_iff {place bytes breaks : ℕ} {inner inner' outer outer' : BraceScope}
    (hinner : SameScope place bytes breaks inner inner')
    (houter : SameScope place bytes breaks outer outer') :
    inner'.Inside outer' ↔ inner.Inside outer := by
  rw [BraceScope.Inside, BraceScope.Inside, hinner.opens, hinner.closes, houter.opens,
    houter.closes, (movedOffset_strictMono place bytes).lt_iff_lt,
    (movedOffset_strictMono place bytes).le_iff_le]

/-! ## Items with a place -/

def Spanned.displace (place lines bytes : ℕ) (here : Spanned) : Spanned :=
  if here.offset < place then here else here.shift lines bytes

def Seen.displace (place lines bytes : ℕ) : Seen → Seen
  | .token here => .token (here.displace place lines bytes)
  | .annotationType here => .annotationType (here.displace place lines bytes)

theorem Spanned.displace_eq (place lines bytes : ℕ) (token : Token) (line offset : ℕ) :
    ∃ other, (⟨token, line, offset⟩ : Spanned).displace place lines bytes =
        ⟨token, other, movedOffset place bytes offset⟩ ∧ Shifted lines line other := by
  rw [Spanned.displace, movedOffset]
  split_ifs
  · exact ⟨line, rfl, Shifted.refl _ _⟩
  · exact ⟨line + lines, rfl, Nat.le_add_right _ _, le_rfl⟩

/-- What is seen with an annotation inserted is what is seen without, moved on behind
the place. -/
theorem Insertion.seen_displaced {letters : Letters} {before inserted after : String}
    (hinsert : Insertion letters before inserted after) :
    ∃ lines ≤ inserted.toList.count '\n',
      seen (tokenize letters (before ++ inserted ++ after)) =
        (seen (tokenize letters (before ++ after))).map
          (Seen.displace before.utf8ByteSize lines inserted.utf8ByteSize) := by
  obtain ⟨lines, hlines, front, back, hplain, hsource, hfront, hback⟩ := hinsert.seen_eq
  refine ⟨lines, hlines, ?_⟩
  have hstays : ∀ item ∈ front,
      item.displace before.utf8ByteSize lines inserted.utf8ByteSize = id item := by
    intro item hitem
    have hbefore := hfront item hitem
    cases item <;> exact congrArg _ (if_pos hbefore)
  have hmoves : ∀ item ∈ back,
      item.displace before.utf8ByteSize lines inserted.utf8ByteSize =
        item.shift lines inserted.utf8ByteSize := by
    intro item hitem
    have hbehind := Nat.not_lt.mpr (hback item hitem)
    cases item <;> exact congrArg _ (if_neg hbehind)
  rw [hsource, hplain, List.map_append, List.map_congr_left hstays, List.map_id,
    List.map_congr_left hmoves]

/-! ## Scopes -/

section Scopes

variable {place bytes breaks : ℕ}

/-- Units that differ in the line they start on. -/
def ScanUnit.Follows (breaks : ℕ) (unit other : ScanUnit) : Prop :=
  ∃ startLine, other = { unit with startLine } ∧
    Option.Rel (Shifted breaks) unit.startLine startLine

theorem ScanUnit.follows_default : ScanUnit.Follows breaks .default .default :=
  ⟨none, rfl, .none⟩

theorem ScanUnit.Follows.observeIdent {unit other : ScanUnit}
    (hfollows : ScanUnit.Follows breaks unit other) (name : String) {line moved : ℕ}
    (hline : Shifted breaks line moved) :
    ScanUnit.Follows breaks (unit.observeIdent name line) (other.observeIdent name moved) := by
  obtain ⟨startLine, rfl, hstart⟩ := hfollows
  refine ⟨startLine.or (some moved), ?_, ?_⟩
  · simp only [ScanUnit.observeIdent]
    split_ifs <;> rfl
  · rw [ScanUnit.startLine_observeIdent]
    exact hline.or_some hstart

theorem ScanUnit.Follows.observeParamListOpen {unit other : ScanUnit}
    (hfollows : ScanUnit.Follows breaks unit other) :
    ScanUnit.Follows breaks unit.observeParamListOpen other.observeParamListOpen := by
  obtain ⟨startLine, rfl, hstart⟩ := hfollows
  refine ⟨startLine, ?_, ?_⟩
  · obtain ⟨className, methodName, prevIdent, expectClassName, sawNew, sawArrow, first⟩ := unit
    simp only [ScanUnit.observeParamListOpen]
    split_ifs
    · rfl
    · cases prevIdent with
      | none => rfl
      | some ident => dsimp only; split_ifs <;> rfl
  · rw [ScanUnit.startLine_observeParamListOpen]
    exact hstart

structure OpenBrace.Follows (place bytes breaks : ℕ) (brace other : OpenBrace) : Prop where
  opens : other.opens = movedOffset place bytes brace.opens
  openLine : Shifted breaks brace.openLine other.openLine
  names : other.names = brace.names

/-- A walk and the one over what has been moved on. -/
structure ScopeWalk.Follows (place bytes breaks : ℕ) (walk other : ScopeWalk) : Prop where
  parenDepth : other.scan.parenDepth = walk.scan.parenDepth
  namedStack : other.scan.namedStack = walk.scan.namedStack
  unit : ScanUnit.Follows breaks walk.scan.unit other.scan.unit
  opened : List.Forall₂ (fun scope moved : OpenScope => moved.named = scope.named ∧
    Shifted breaks scope.openLine moved.openLine) walk.scan.opened other.scan.opened
  around : List.Forall₂ (OpenBrace.Follows place bytes breaks) walk.around other.around
  closed : List.Forall₂ (SameScope place bytes breaks) walk.closed other.closed

theorem ScopeWalk.follows_start :
    ScopeWalk.Follows place bytes breaks .start .start :=
  ⟨rfl, rfl, ScanUnit.follows_default, .nil, .nil, .nil⟩

variable {walk other : ScopeWalk}

/-- An item that neither opens nor closes. -/
theorem ScopeWalk.Follows.pass (hfollows : ScopeWalk.Follows place bytes breaks walk other)
    {unit moved : ScanUnit} (hunit : ScanUnit.Follows breaks unit moved)
    {parenDepth movedDepth : UInt32} (hdepth : movedDepth = parenDepth) :
    ScopeWalk.Follows place bytes breaks
      { walk with scan := { walk.scan with unit, parenDepth } }
      { other with scan := { other.scan with unit := moved, parenDepth := movedDepth } } :=
  ⟨hdepth, hfollows.namedStack, hunit, hfollows.opened, hfollows.around, hfollows.closed⟩

theorem ScopeWalk.Follows.open (hfollows : ScopeWalk.Follows place bytes breaks walk other)
    (offset : ℕ) {line moved : ℕ} (hline : Shifted breaks line moved) :
    ScopeWalk.Follows place bytes breaks (walk.see (.token ⟨.lBrace, line, offset⟩))
      (other.see (.token ⟨.lBrace, moved, movedOffset place bytes offset⟩)) := by
  obtain ⟨startLine, hunit, hstart⟩ := hfollows.unit
  have hname : other.scan.unit.scopeName other.scan.parenDepth =
      walk.scan.unit.scopeName walk.scan.parenDepth := by
    rw [hunit, hfollows.parenDepth]
    rfl
  have hstack : (other.scan.openScope ⟨.lBrace, moved, movedOffset place bytes offset⟩).namedStack =
      (walk.scan.openScope ⟨.lBrace, line, offset⟩).namedStack := by
    simp only [EnclosingScan.openScope, hname, hfollows.namedStack]
  have hopened : List.Forall₂ (fun scope moved : OpenScope => moved.named = scope.named ∧
      Shifted breaks scope.openLine moved.openLine)
      (walk.scan.openScope ⟨.lBrace, line, offset⟩).opened
      (other.scan.openScope ⟨.lBrace, moved, movedOffset place bytes offset⟩).opened := by
    refine .cons ⟨?_, ?_⟩ hfollows.opened
    · simp only [hname]
    · simp only [hname]
      split
      · rw [hunit]
        exact hline.getD hstart
      · exact hline
  obtain ⟨⟨-, hopenLine⟩, -⟩ := List.forall₂_cons.mp hopened
  exact ⟨hfollows.parenDepth, hstack, ScanUnit.follows_default, hopened,
    .cons ⟨rfl, hopenLine, hstack⟩ hfollows.around, hfollows.closed⟩

theorem ScopeWalk.Follows.close (hfollows : ScopeWalk.Follows place bytes breaks walk other)
    (offset : ℕ) {line moved : ℕ} (hline : Shifted breaks line moved) :
    ScopeWalk.Follows place bytes breaks (walk.see (.token ⟨.rBrace, line, offset⟩))
      (other.see (.token ⟨.rBrace, moved, movedOffset place bytes offset⟩)) := by
  obtain ⟨⟨_, _, opened, _, _, _, _⟩, around, closed⟩ := walk
  obtain ⟨⟨_, _, opened', _, _, _, _⟩, around', closed'⟩ := other
  obtain ⟨rfl, rfl, -, hopened, haround, hclosed⟩ := hfollows
  dsimp only at hopened haround hclosed
  have hfinished : List.Forall₂ (SameScope place bytes breaks)
      (closed ++ (around.head?.map (·.close offset line)).toList)
      (closed' ++
        (around'.head?.map (·.close (movedOffset place bytes offset) moved)).toList) := by
    refine List.rel_append hclosed ?_
    cases haround with
    | nil => exact .nil
    | cons hbrace _ => exact .cons ⟨hbrace.opens, rfl, hbrace.openLine, hline, hbrace.names⟩ .nil
  have htail : List.Forall₂ (OpenBrace.Follows place bytes breaks) around.tail around'.tail := by
    cases haround with
    | nil => exact .nil
    | cons _ hrest => exact hrest
  cases hopened with
  | nil => exact ⟨rfl, rfl, ScanUnit.follows_default, .nil, htail, hfinished⟩
  | cons hscope hrest =>
      refine ⟨rfl, ?_, ScanUnit.follows_default, hrest, htail, hfinished⟩
      exact if_congr (by rw [hscope.1]) rfl rfl

theorem ScopeWalk.Follows.see (hfollows : ScopeWalk.Follows place bytes breaks walk other)
    {lines : ℕ} (hlines : lines ≤ breaks) (item : Seen) :
    ScopeWalk.Follows place bytes breaks (walk.see item)
      (other.see (item.displace place lines bytes)) := by
  have hdepth := hfollows.parenDepth
  obtain ⟨startLine, hunit, hstart⟩ := hfollows.unit
  cases item with
  | annotationType here =>
      have hexpects : ScanUnit.Follows breaks { walk.scan.unit with expectClassName := true }
          { other.scan.unit with expectClassName := true } := ⟨startLine, by rw [hunit], hstart⟩
      exact hfollows.pass hexpects hdepth
  | token here =>
      obtain ⟨token, line, offset⟩ := here
      obtain ⟨moved, hmoved, hshifted⟩ := Spanned.displace_eq place lines bytes token line offset
      have hline := hshifted.weaken hlines
      rw [Seen.displace, hmoved]
      cases token with
      | lBrace => exact hfollows.open offset hline
      | rBrace => exact hfollows.close offset hline
      | semi => exact hfollows.pass ScanUnit.follows_default hdepth
      | ident name => exact hfollows.pass (hfollows.unit.observeIdent name hline) hdepth
      | lParen =>
          refine hfollows.pass ?_ (congrArg deeper hdepth)
          simp only [hdepth]
          split_ifs
          · exact hfollows.unit.observeParamListOpen
          · exact hfollows.unit
      | rParen => exact hfollows.pass hfollows.unit (congrArg shallower hdepth)
      | arrow =>
          have hpointed : ScanUnit.Follows breaks { walk.scan.unit with sawArrow := true }
              { other.scan.unit with sawArrow := true } := ⟨startLine, by rw [hunit], hstart⟩
          exact hfollows.pass hpointed hdepth
      | «at» | eq | lAngle | rAngle => exact hfollows

theorem ScopeWalk.Follows.foldl (hfollows : ScopeWalk.Follows place bytes breaks walk other)
    {lines : ℕ} (hlines : lines ≤ breaks) (items : List Seen) :
    ScopeWalk.Follows place bytes breaks (items.foldl ScopeWalk.see walk)
      ((items.map (Seen.displace place lines bytes)).foldl ScopeWalk.see other) := by
  induction items generalizing walk other with
  | nil => exact hfollows
  | cons item rest ih => exact ih (hfollows.see hlines item)

end Scopes

/-! ## Signatures -/

theorem headerSlice_eq (source : String) (first last : ℕ) :
    headerSlice source (some first) last =
      String.ofList (((charIndices 0 source.toList).filter fun here =>
        first ≤ here.1 && here.1 < last).map Prod.snd) := rfl

theorem headerSlice_append (before after : String) (first last : ℕ) :
    headerSlice (before ++ after) (some first) last = headerSlice before (some first) last ++
      headerSlice after (some (first - before.utf8ByteSize)) (last - before.utf8ByteSize) := by
  have hmoved : charIndices before.utf8ByteSize after.toList =
      (charIndices 0 after.toList).map fun here => (here.1 + before.utf8ByteSize, here.2) := by
    rw [← charIndices_add, Nat.zero_add]
  rw [headerSlice_eq, headerSlice_eq, headerSlice_eq, String.toList_append, charIndices_append,
    utf8ByteSize_toList, Nat.zero_add, List.filter_append, List.map_append, hmoved,
    List.filter_map, List.map_map, String.ofList_append]
  congr 3
  refine List.filter_congr fun here _ => ?_
  rw [Bool.eq_iff_iff]
  simp only [Function.comp_apply, Bool.and_eq_true, decide_eq_true_eq]
  omega

theorem offset_lt_of_mem_charIndices {text : String} {here : ℕ × Char}
    (hhere : here ∈ charIndices 0 text.toList) : here.1 < text.utf8ByteSize := by
  have hbound := (charIndices_bounds 0 text.toList here hhere).2
  rwa [utf8ByteSize_toList, Nat.zero_add] at hbound

theorem headerSlice_whole (text : String) {first last : ℕ} (hlast : text.utf8ByteSize ≤ last) :
    headerSlice text (some first) last = headerSlice text (some first) text.utf8ByteSize := by
  rw [headerSlice_eq, headerSlice_eq]
  congr 2
  refine List.filter_congr fun here hhere => ?_
  have hbound := offset_lt_of_mem_charIndices hhere
  simp [hbound, hbound.trans_le hlast]

theorem headerSlice_all (text : String) :
    headerSlice text (some 0) text.utf8ByteSize = text := by
  have hall : (charIndices 0 text.toList).filter (fun here =>
      0 ≤ here.1 && here.1 < text.utf8ByteSize) = charIndices 0 text.toList := by
    rw [List.filter_eq_self]
    intro here hhere
    simp [offset_lt_of_mem_charIndices hhere]
  rw [headerSlice_eq, hall, letters_charIndices, String.ofList_toList]

theorem headerSlice_empty (text : String) {first last : ℕ}
    (hempty : last ≤ first ∨ text.utf8ByteSize ≤ first) :
    headerSlice text (some first) last = "" := by
  have hnone : (charIndices 0 text.toList).filter (fun here =>
      first ≤ here.1 && here.1 < last) = [] := by
    rw [List.filter_eq_nil_iff]
    intro here hhere
    have hbound := offset_lt_of_mem_charIndices hhere
    simp only [Bool.and_eq_true, decide_eq_true_eq]
    omega
  rw [headerSlice_eq, hnone]
  rfl

/-- Behind the place a header has the same text, or it had begun before. -/
theorem headerSlice_insert (before inserted after : String) (start : Option ℕ) {last : ℕ}
    (hlast : before.utf8ByteSize ≤ last) :
    headerSlice (before ++ inserted ++ after)
        (start.map (movedOffset before.utf8ByteSize inserted.utf8ByteSize))
        (last + inserted.utf8ByteSize) = headerSlice (before ++ after) start last ∨
      ∃ first ∈ start, first < before.utf8ByteSize ∧
        headerSlice (before ++ inserted ++ after)
            (start.map (movedOffset before.utf8ByteSize inserted.utf8ByteSize))
            (last + inserted.utf8ByteSize) =
          headerSlice (before ++ after) (some first) before.utf8ByteSize ++ inserted ++
            headerSlice (before ++ after) (some before.utf8ByteSize) last := by
  cases start with
  | none => exact .inl rfl
  | some first =>
      have hbehind : last + inserted.utf8ByteSize - (before.utf8ByteSize +
          inserted.utf8ByteSize) = last - before.utf8ByteSize := Nat.add_sub_add_right ..
      rw [Option.map_some, headerSlice_append (before ++ inserted), headerSlice_append before,
        String.utf8ByteSize_append, hbehind]
      rcases Nat.lt_or_ge first before.utf8ByteSize with hbegun | hlater
      · refine .inr ⟨first, rfl, hbegun, ?_⟩
        have hfront : headerSlice (before ++ after) (some first) before.utf8ByteSize =
            headerSlice before (some first) before.utf8ByteSize := by
          rw [headerSlice_append, headerSlice_empty after (.inl (by omega)), String.append_empty]
        have hback : headerSlice (before ++ after) (some before.utf8ByteSize) last =
            headerSlice after (some 0) (last - before.utf8ByteSize) := by
          rw [headerSlice_append, headerSlice_empty before (.inr le_rfl), String.empty_append,
            Nat.sub_self]
        have hstart : movedOffset before.utf8ByteSize inserted.utf8ByteSize first = first :=
          if_pos hbegun
        rw [hfront, hback, hstart, headerSlice_whole before (by omega),
          Nat.sub_eq_zero_of_le hbegun.le, headerSlice_whole inserted (by omega),
          headerSlice_all, Nat.sub_eq_zero_of_le (by omega)]
      · refine .inl ?_
        have hfirst : first + inserted.utf8ByteSize - (before.utf8ByteSize +
            inserted.utf8ByteSize) = first - before.utf8ByteSize := Nat.add_sub_add_right ..
        rw [movedOffset_of_le hlater, headerSlice_append before after,
          headerSlice_empty before (.inr (by omega)), headerSlice_empty inserted (.inr (by omega)),
          headerSlice_empty before (.inr hlater), hfirst, String.empty_append]

/-! ## Declarations -/

/-- Units that differ in the lines they note and in where they start. -/
def PendingUnit.Follows (place bytes breaks : ℕ) (pending other : PendingUnit) : Prop :=
  ∃ nameLine prevIdentLine methodNameLine fieldNameLine,
    other = { pending with
      startOffset := pending.startOffset.map (movedOffset place bytes)
      nameLine
      prevIdentLine
      methodNameLine
      fieldNameLine } ∧
    Shifted breaks pending.nameLine nameLine ∧
    Shifted breaks pending.prevIdentLine prevIdentLine ∧
    Shifted breaks pending.methodNameLine methodNameLine ∧
    Shifted breaks pending.fieldNameLine fieldNameLine

section Pending

variable {place bytes breaks : ℕ} {pending other : PendingUnit}

theorem PendingUnit.follows_default : PendingUnit.Follows place bytes breaks .default .default :=
  ⟨0, 0, 0, 0, rfl, .refl _ _, .refl _ _, .refl _ _, .refl _ _⟩

theorem PendingUnit.startOffset_observeIdent (pending : PendingUnit) (name : String)
    (offset line : ℕ) : (pending.observeIdent name offset line).startOffset =
      pending.startOffset.or (some offset) := by
  rw [PendingUnit.observeIdent]
  split_ifs <;> rfl

theorem PendingUnit.startOffset_observeParamListOpen (pending : PendingUnit) :
    pending.observeParamListOpen.startOffset = pending.startOffset := by
  rw [PendingUnit.observeParamListOpen]
  split_ifs
  · rfl
  · dsimp only
    split
    · split_ifs <;> rfl
    · rfl

theorem PendingUnit.startOffset_observeAssignment (pending : PendingUnit) :
    pending.observeAssignment.startOffset = pending.startOffset := by
  simp only [PendingUnit.observeAssignment]
  split_ifs
  · split <;> rfl
  · rfl

/-- What a unit begins with once something at an offset is seen. -/
theorem map_or_movedOffset (start : Option ℕ) (offset : ℕ) :
    (start.or (some offset)).map (movedOffset place bytes) =
      (start.map (movedOffset place bytes)).or (some (movedOffset place bytes offset)) := by
  cases start <;> rfl

theorem PendingUnit.Follows.begin
    (hfollows : PendingUnit.Follows place bytes breaks pending other) (offset : ℕ) :
    PendingUnit.Follows place bytes breaks
      { pending with startOffset := pending.startOffset.or (some offset) }
      { other with
        startOffset := other.startOffset.or (some (movedOffset place bytes offset)) } := by
  obtain ⟨nameLine, prevLine, methodNameLine, fieldNameLine, rfl, hlines⟩ := hfollows
  exact ⟨nameLine, prevLine, methodNameLine, fieldNameLine, by rw [map_or_movedOffset], hlines⟩

theorem PendingUnit.Follows.markAnnotationType
    (hfollows : PendingUnit.Follows place bytes breaks pending other) :
    PendingUnit.Follows place bytes breaks
      { pending with kind := some .annotationType, expectTypeName := true }
      { other with kind := some .annotationType, expectTypeName := true } := by
  obtain ⟨nameLine, prevLine, methodNameLine, fieldNameLine, rfl, hlines⟩ := hfollows
  exact ⟨nameLine, prevLine, methodNameLine, fieldNameLine, rfl, hlines⟩

theorem PendingUnit.Follows.observeArrow
    (hfollows : PendingUnit.Follows place bytes breaks pending other) :
    PendingUnit.Follows place bytes breaks { pending with sawArrow := true }
      { other with sawArrow := true } := by
  obtain ⟨nameLine, prevLine, methodNameLine, fieldNameLine, rfl, hlines⟩ := hfollows
  exact ⟨nameLine, prevLine, methodNameLine, fieldNameLine, rfl, hlines⟩

theorem PendingUnit.Follows.atAngles
    (hfollows : PendingUnit.Follows place bytes breaks pending other) (change : UInt32 → UInt32) :
    PendingUnit.Follows place bytes breaks
      { pending with angleDepth := change pending.angleDepth }
      { other with angleDepth := change other.angleDepth } := by
  obtain ⟨nameLine, prevLine, methodNameLine, fieldNameLine, rfl, hlines⟩ := hfollows
  exact ⟨nameLine, prevLine, methodNameLine, fieldNameLine, rfl, hlines⟩

theorem PendingUnit.Follows.observeIdent
    (hfollows : PendingUnit.Follows place bytes breaks pending other) (name : String)
    (offset : ℕ) {line moved : ℕ} (hline : Shifted breaks line moved) :
    PendingUnit.Follows place bytes breaks (pending.observeIdent name offset line)
      (other.observeIdent name (movedOffset place bytes offset) moved) := by
  obtain ⟨nameLine, _, methodNameLine, fieldNameLine, rfl, hname, -, hmethod, hfield⟩ := hfollows
  have hstart := @map_or_movedOffset place bytes pending.startOffset offset
  simp only [PendingUnit.Follows, PendingUnit.observeIdent]
  split_ifs
  · exact ⟨nameLine, moved, methodNameLine, fieldNameLine, by rw [hstart],
      hname, hline, hmethod, hfield⟩
  · exact ⟨moved, moved, methodNameLine, fieldNameLine, by rw [hstart],
      hline, hline, hmethod, hfield⟩
  · exact ⟨nameLine, moved, methodNameLine, fieldNameLine, by rw [hstart],
      hname, hline, hmethod, hfield⟩
  · exact ⟨nameLine, moved, methodNameLine, fieldNameLine, by rw [hstart],
      hname, hline, hmethod, hfield⟩
  · exact ⟨nameLine, moved, methodNameLine, fieldNameLine, by rw [hstart],
      hname, hline, hmethod, hfield⟩

theorem PendingUnit.Follows.observeParamListOpen
    (hfollows : PendingUnit.Follows place bytes breaks pending other) :
    PendingUnit.Follows place bytes breaks pending.observeParamListOpen
      other.observeParamListOpen := by
  obtain ⟨nameLine, prevLine, methodNameLine, fieldNameLine, rfl, hname, hprev, hmethod,
    hfield⟩ := hfollows
  simp only [PendingUnit.Follows, PendingUnit.observeParamListOpen]
  split_ifs
  · exact ⟨nameLine, prevLine, methodNameLine, fieldNameLine, rfl, hname, hprev, hmethod, hfield⟩
  · split
    · split_ifs
      · exact ⟨nameLine, prevLine, prevLine, fieldNameLine, rfl, hname, hprev, hprev, hfield⟩
      · exact ⟨nameLine, prevLine, methodNameLine, fieldNameLine, rfl, hname, hprev, hmethod,
          hfield⟩
    · exact ⟨nameLine, prevLine, methodNameLine, fieldNameLine, rfl, hname, hprev, hmethod, hfield⟩

theorem PendingUnit.Follows.observeAssignment
    (hfollows : PendingUnit.Follows place bytes breaks pending other) :
    PendingUnit.Follows place bytes breaks pending.observeAssignment
      other.observeAssignment := by
  obtain ⟨nameLine, prevLine, methodNameLine, fieldNameLine, rfl, hname, hprev, hmethod,
    hfield⟩ := hfollows
  simp only [PendingUnit.Follows, PendingUnit.observeAssignment]
  split_ifs
  · split
    · exact ⟨nameLine, prevLine, methodNameLine, prevLine, rfl, hname, hprev, hmethod, hprev⟩
    · exact ⟨nameLine, prevLine, methodNameLine, fieldNameLine, rfl, hname, hprev, hmethod, hfield⟩
  · exact ⟨nameLine, prevLine, methodNameLine, fieldNameLine, rfl, hname, hprev, hmethod, hfield⟩

end Pending

/-- Before the place a header has the text it has there. -/
theorem headerSlice_within (before after : String) (start : Option ℕ) {last : ℕ}
    (hlast : last ≤ before.utf8ByteSize) :
    headerSlice (before ++ after) start last = headerSlice before start last := by
  cases start with
  | none => rfl
  | some first =>
      rw [headerSlice_append, headerSlice_empty after (.inl (by omega)), String.append_empty]

theorem DeclarationScan.see_within (letters : Letters) (before after : String)
    (declared : DeclarationScan) {item : Seen}
    (hitem : item.spanned.offset ≤ before.utf8ByteSize) :
    declared.see letters (before ++ after) item = declared.see letters before item := by
  cases item with
  | annotationType here => rfl
  | token here =>
      obtain ⟨token, line, offset⟩ := here
      have hslice (start : Option ℕ) :
          headerSlice (before ++ after) start offset = headerSlice before start offset :=
        headerSlice_within before after start hitem
      cases token with
      | lBrace =>
          change DeclarationScan.openBlock _ _ _ _ = DeclarationScan.openBlock _ _ _ _
          simp only [DeclarationScan.openBlock, hslice]
      | semi =>
          change DeclarationScan.closeStatement _ _ _ = DeclarationScan.closeStatement _ _ _
          simp only [DeclarationScan.closeStatement, PendingUnit.classifyStatement, hslice]
      | ident _ | rBrace | lParen | rParen | «at» | arrow | eq | lAngle | rAngle => rfl

section Declarations

variable {before inserted after : String} {start : Option ℕ}

/-- A scan behind the place and the one over what has been moved on, when a header that
had begun started there. -/
structure DeclarationScan.Follows (before inserted after : String) (start : Option ℕ)
    (declared other : DeclarationScan) : Prop where
  typeStack : other.typeStack = declared.typeStack
  scopes : other.scopes = declared.scopes
  parenDepth : other.parenDepth = declared.parenDepth
  pending : PendingUnit.Follows before.utf8ByteSize inserted.utf8ByteSize
    (inserted.toList.count '\n') declared.pending other.pending
  begun : ∀ first ∈ declared.pending.startOffset, first < before.utf8ByteSize → first ∈ start
  declarations : List.Forall₂ (SameDeclaration before inserted after start)
    declared.declarations other.declarations

theorem map_eq_of_forall₂ {α β γ : Type*} {relation : α → β → Prop} {items : List α}
    {others : List β} {first : α → γ} {second : β → γ} (hrel : List.Forall₂ relation items others)
    (hsame : ∀ item other, relation item other → second other = first item) :
    others.map second = items.map first := by
  induction hrel with
  | nil => rfl
  | cons hhead _ ih => rw [List.map_cons, List.map_cons, hsame _ _ hhead, ih]

theorem forall₂_toList {α β : Type*} {relation : α → β → Prop} {first : Option α}
    {second : Option β} (hrel : Option.Rel relation first second) :
    List.Forall₂ relation first.toList second.toList := by
  cases hrel with
  | none => exact .nil
  | some hsame => exact .cons hsame .nil

theorem sameSignature_headerSlice (inserted after : String) {pending : Option ℕ} {last : ℕ}
    (hbegun : ∀ first ∈ pending, first < before.utf8ByteSize → first ∈ start)
    (hlast : before.utf8ByteSize ≤ last) :
    SameSignature before inserted after start
      (foldWhitespace (headerSlice (before ++ after) pending last))
      (foldWhitespace (headerSlice (before ++ inserted ++ after)
        (pending.map (movedOffset before.utf8ByteSize inserted.utf8ByteSize))
        (last + inserted.utf8ByteSize))) := by
  rcases headerSlice_insert before inserted after pending hlast with hsame |
    ⟨first, hfirst, hbefore, htext⟩
  · exact .inl (congrArg foldWhitespace hsame)
  · refine .inr ⟨first, hbegun first hfirst hbefore, last, hlast, ?_, congrArg _ htext⟩
    rw [Option.mem_def.mp hfirst]

theorem PendingUnit.Follows.classifyStatement {pending other : PendingUnit}
    (hfollows : PendingUnit.Follows before.utf8ByteSize inserted.utf8ByteSize
      (inserted.toList.count '\n') pending other)
    (hbegun : ∀ first ∈ pending.startOffset, first < before.utf8ByteSize → first ∈ start)
    (after : String) {last : ℕ} (hlast : before.utf8ByteSize ≤ last) (typeStack : List String) :
    Option.Rel (SameDeclaration before inserted after start)
      (pending.classifyStatement typeStack (before ++ after) last)
      (other.classifyStatement typeStack (before ++ inserted ++ after)
        (last + inserted.utf8ByteSize)) := by
  have hsignature := sameSignature_headerSlice inserted after hbegun hlast
  obtain ⟨nameLine, prevLine, methodNameLine, fieldNameLine, rfl, -, hprev, hmethod,
    hfield⟩ := hfollows
  simp only [PendingUnit.classifyStatement]
  cases hfirst : pending.startOffset with
  | none => exact .none
  | some first =>
      rw [hfirst, Option.map_some] at hsignature
      simp only [Option.map_some, Option.bind_some]
      generalize foldWhitespace (headerSlice (before ++ after) (some first) last) = header
        at hsignature ⊢
      generalize foldWhitespace (headerSlice (before ++ inserted ++ after) _ _) = moved
        at hsignature ⊢
      split_ifs
      · cases pending.methodName with
        | none => exact .none
        | some name => exact .some ⟨rfl, rfl, hmethod, rfl, hsignature⟩
      · have hlast : Option.Rel (SameDeclaration before inserted after start)
            ((pending.prevIdent.map fun name => (name, pending.prevIdentLine)).map fun found =>
              ⟨.field, found.1, found.2, typeStack, header, []⟩)
            ((pending.prevIdent.map fun name => (name, prevLine)).map fun found =>
              ⟨.field, found.1, found.2, typeStack, moved, []⟩) := by
          cases pending.prevIdent with
          | none => exact .none
          | some name => exact .some ⟨rfl, rfl, hprev, rfl, hsignature⟩
        cases pending.fieldName with
        | none => exact hlast
        | some name =>
            cases pending.sawAssignment with
            | false => exact hlast
            | true => exact .some ⟨rfl, rfl, hfield, rfl, hsignature⟩

variable {declared other : DeclarationScan}

theorem DeclarationScan.Follows.openBlock
    (hfollows : DeclarationScan.Follows before inserted after start declared other)
    (letters : Letters) {line moved offset : ℕ} (hoffset : before.utf8ByteSize ≤ offset) :
    DeclarationScan.Follows before inserted after start
      (declared.openBlock letters (before ++ after) ⟨.lBrace, line, offset⟩)
      (other.openBlock letters (before ++ inserted ++ after)
        ⟨.lBrace, moved, offset + inserted.utf8ByteSize⟩) := by
  have hsignature := sameSignature_headerSlice inserted after hfollows.begun hoffset
  obtain ⟨nameLine, prevLine, methodNameLine, fieldNameLine, hpending, hname, -, hmethod, -⟩ :=
    hfollows.pending
  have hclass : other.pending.classifyBlock declared.typeStack =
      declared.pending.classifyBlock declared.typeStack := by
    rw [hpending]
    rfl
  have hstart : other.pending.startOffset = declared.pending.startOffset.map
      (movedOffset before.utf8ByteSize inserted.utf8ByteSize) := by rw [hpending]
  have htypeName : other.pending.typeName = declared.pending.typeName := by rw [hpending]
  have hmethodName : other.pending.methodName = declared.pending.methodName := by rw [hpending]
  have hnameLine : other.pending.nameLine = nameLine := by rw [hpending]
  have hmethodLine : other.pending.methodNameLine = methodNameLine := by rw [hpending]
  have hdone (first : ℕ) (hfirst : first ∈ PendingUnit.default.startOffset)
      (_ : first < before.utf8ByteSize) : first ∈ start := by cases hfirst
  simp only [DeclarationScan.openBlock, hclass, hstart, htypeName, hmethodName, hnameLine,
    hmethodLine, hfollows.typeStack, hfollows.scopes]
  cases declared.pending.classifyBlock declared.typeStack with
  | type kind =>
      exact ⟨rfl, rfl, hfollows.parenDepth, PendingUnit.follows_default, hdone,
        List.rel_append hfollows.declarations (.cons ⟨rfl, rfl, hname, rfl, hsignature⟩ .nil)⟩
  | member kind =>
      exact ⟨rfl, rfl, hfollows.parenDepth, PendingUnit.follows_default, hdone,
        List.rel_append hfollows.declarations (.cons ⟨rfl, rfl, hmethod, rfl, hsignature⟩ .nil)⟩
  | anonymous =>
      exact ⟨rfl, rfl, hfollows.parenDepth, PendingUnit.follows_default, hdone,
        hfollows.declarations⟩

theorem DeclarationScan.Follows.closeStatement
    (hfollows : DeclarationScan.Follows before inserted after start declared other)
    {line moved offset : ℕ} (hoffset : before.utf8ByteSize ≤ offset) :
    DeclarationScan.Follows before inserted after start
      (declared.closeStatement (before ++ after) ⟨.semi, line, offset⟩)
      (other.closeStatement (before ++ inserted ++ after)
        ⟨.semi, moved, offset + inserted.utf8ByteSize⟩) := by
  have hfound := hfollows.pending.classifyStatement hfollows.begun after hoffset declared.typeStack
  rw [DeclarationScan.closeStatement, DeclarationScan.closeStatement, hfollows.scopes,
    hfollows.typeStack]
  refine ⟨rfl, rfl, hfollows.parenDepth, PendingUnit.follows_default,
    by simp [PendingUnit.default], ?_⟩
  dsimp only
  split_ifs
  · exact List.rel_append hfollows.declarations (forall₂_toList hfound)
  · exact hfollows.declarations

/-- An item that only the unit or the depth of parentheses notes. -/
theorem DeclarationScan.Follows.pass
    (hfollows : DeclarationScan.Follows before inserted after start declared other)
    {pending moved : PendingUnit}
    (hpending : PendingUnit.Follows before.utf8ByteSize inserted.utf8ByteSize
      (inserted.toList.count '\n') pending moved)
    (hbegun : ∀ first ∈ pending.startOffset, first < before.utf8ByteSize → first ∈ start)
    {parenDepth movedDepth : UInt32} (hdepth : movedDepth = parenDepth) :
    DeclarationScan.Follows before inserted after start { declared with pending, parenDepth }
      { other with pending := moved, parenDepth := movedDepth } :=
  ⟨hfollows.typeStack, hfollows.scopes, hdepth, hpending, hbegun, hfollows.declarations⟩

/-- A header begins behind the place, or it had begun. -/
theorem DeclarationScan.Follows.begun_or
    (hfollows : DeclarationScan.Follows before inserted after start declared other) {offset : ℕ}
    (hoffset : before.utf8ByteSize ≤ offset) :
    ∀ first ∈ declared.pending.startOffset.or (some offset),
      first < before.utf8ByteSize → first ∈ start := by
  intro first hfirst hbefore
  rcases Option.or_eq_some_iff.mp hfirst with hold | ⟨-, hnew⟩
  · exact hfollows.begun first hold hbefore
  · rw [← Option.some.inj hnew] at hbefore
    exact absurd hbefore (Nat.not_lt.mpr hoffset)

/-- A token that opens a header where none has begun. -/
theorem DeclarationScan.Follows.begin
    (hfollows : DeclarationScan.Follows before inserted after start declared other) {offset : ℕ}
    (hoffset : before.utf8ByteSize ≤ offset) :
    PendingUnit.Follows before.utf8ByteSize inserted.utf8ByteSize
      (inserted.toList.count '\n')
      { declared.pending with
        startOffset := declared.pending.startOffset.or (some offset) }
      { other.pending with
        startOffset := other.pending.startOffset.or
          (some (offset + inserted.utf8ByteSize)) } := by
  have hbegins := hfollows.pending.begin offset
  rwa [movedOffset_of_le hoffset] at hbegins

theorem DeclarationScan.Follows.closeBlock
    (hfollows : DeclarationScan.Follows before inserted after start declared other)
    (letters : Letters) (line moved offset later : ℕ) :
    DeclarationScan.Follows before inserted after start
      (declared.see letters (before ++ after) (.token ⟨.rBrace, line, offset⟩))
      (other.see letters (before ++ inserted ++ after) (.token ⟨.rBrace, moved, later⟩)) := by
  refine ⟨?_, congrArg List.tail hfollows.scopes, hfollows.parenDepth,
    PendingUnit.follows_default, fun _ hfirst => (nomatch hfirst), hfollows.declarations⟩
  exact if_congr (by rw [hfollows.scopes]) (by rw [hfollows.typeStack]) hfollows.typeStack

theorem DeclarationScan.Follows.openParen
    (hfollows : DeclarationScan.Follows before inserted after start declared other)
    (letters : Letters) (line moved offset later : ℕ) :
    DeclarationScan.Follows before inserted after start
      (declared.see letters (before ++ after) (.token ⟨.lParen, line, offset⟩))
      (other.see letters (before ++ inserted ++ after) (.token ⟨.lParen, moved, later⟩)) := by
  refine hfollows.pass ?_ ?_ (congrArg deeper hfollows.parenDepth)
  · simp only [hfollows.parenDepth]
    split_ifs
    · exact hfollows.pending.observeParamListOpen
    · exact hfollows.pending
  · split_ifs
    · rw [PendingUnit.startOffset_observeParamListOpen]
      exact hfollows.begun
    · exact hfollows.begun

theorem DeclarationScan.Follows.see
    (hfollows : DeclarationScan.Follows before inserted after start declared other)
    (letters : Letters) {lines : ℕ} (hlines : lines ≤ inserted.toList.count '\n') {item : Seen}
    (hitem : before.utf8ByteSize ≤ item.spanned.offset) :
    DeclarationScan.Follows before inserted after start
      (declared.see letters (before ++ after) item)
      (other.see letters (before ++ inserted ++ after)
        (item.shift lines inserted.utf8ByteSize)) := by
  have hdepth := hfollows.parenDepth
  have hbegun := hfollows.begun
  cases item with
  | annotationType here =>
      have hbehind : before.utf8ByteSize ≤ here.offset := hitem
      exact hfollows.pass (hfollows.begin hbehind).markAnnotationType
        (hfollows.begun_or hbehind) hdepth
  | token here =>
      obtain ⟨token, line, offset⟩ := here
      have hbehind : before.utf8ByteSize ≤ offset := hitem
      cases token with
      | lBrace => exact hfollows.openBlock letters hbehind
      | rBrace => exact hfollows.closeBlock letters ..
      | semi => exact hfollows.closeStatement hbehind
      | ident name =>
          have hline : Shifted (inserted.toList.count '\n') line (line + lines) :=
            ⟨Nat.le_add_right _ _, Nat.add_le_add_left hlines _⟩
          have hnamed := hfollows.pending.observeIdent name offset hline
          rw [movedOffset_of_le hbehind] at hnamed
          refine hfollows.pass hnamed ?_ hdepth
          rw [PendingUnit.startOffset_observeIdent]
          exact hfollows.begun_or hbehind
      | lParen => exact hfollows.openParen letters ..
      | rParen => exact hfollows.pass hfollows.pending hbegun (congrArg shallower hdepth)
      | arrow => exact hfollows.pass hfollows.pending.observeArrow hbegun hdepth
      | eq =>
          refine hfollows.pass hfollows.pending.observeAssignment ?_ hdepth
          rw [PendingUnit.startOffset_observeAssignment]
          exact hbegun
      | lAngle =>
          exact hfollows.pass ((hfollows.begin hbehind).atAngles deeper)
            (hfollows.begun_or hbehind) hdepth
      | rAngle => exact hfollows.pass (hfollows.pending.atAngles shallower) hbegun hdepth
      | «at» => exact hfollows

theorem DeclarationScan.Follows.foldl
    (hfollows : DeclarationScan.Follows before inserted after start declared other)
    (letters : Letters) {lines : ℕ} (hlines : lines ≤ inserted.toList.count '\n')
    {items : List Seen} (hitems : ∀ item ∈ items, before.utf8ByteSize ≤ item.spanned.offset) :
    DeclarationScan.Follows before inserted after start
      (items.foldl (DeclarationScan.see letters (before ++ after)) declared)
      ((items.map (Seen.shift lines inserted.utf8ByteSize)).foldl
        (DeclarationScan.see letters (before ++ inserted ++ after)) other) := by
  induction items generalizing declared other with
  | nil => exact hfollows
  | cons item rest ih =>
      exact ih (hfollows.see letters hlines (hitems item List.mem_cons_self))
        fun next hnext => hitems next (List.mem_cons_of_mem _ hnext)

end Declarations

/-! ## Before the place -/

theorem foldl_within (letters : Letters) (before after : String) (declared : DeclarationScan)
    {items : List Seen} (hitems : ∀ item ∈ items, item.spanned.offset ≤ before.utf8ByteSize) :
    items.foldl (DeclarationScan.see letters (before ++ after)) declared =
      items.foldl (DeclarationScan.see letters before) declared := by
  induction items generalizing declared with
  | nil => rfl
  | cons item rest ih =>
      rw [List.foldl_cons, List.foldl_cons,
        declared.see_within letters before after (hitems item List.mem_cons_self)]
      exact ih _ fun next hnext => hitems next (List.mem_cons_of_mem _ hnext)

theorem headerStart_concat (items : List Seen) (item : Seen) :
    headerStart (items ++ [item]) =
      if item.isBoundary then none
      else (headerStart items).or
        (if item.startsHeader then some item.spanned.offset else none) := by
  rw [headerStart, headerStart, sinceBoundary_concat]
  split_ifs with hboundary hstarts
  · rfl
  · rw [List.find?_append, Option.map_or, List.find?_cons_of_pos hstarts, Option.map_some]
  · rw [List.find?_append, Option.map_or, List.find?_cons_of_neg hstarts, List.find?_nil,
      Option.map_none]

theorem headerStart_lt {items : List Seen} {place first : ℕ}
    (hitems : ∀ item ∈ items, item.spanned.offset < place)
    (hfirst : headerStart items = some first) : first < place := by
  obtain ⟨item, hitem, rfl⟩ := Option.map_eq_some_iff.mp hfirst
  exact hitems item ((List.rtakeWhile_suffix _ _).subset (List.mem_of_find?_eq_some hitem))

theorem DeclarationScan.startOffset_see (letters : Letters) (source : String)
    (declared : DeclarationScan) (item : Seen) :
    (declared.see letters source item).pending.startOffset =
      if item.isBoundary then none
      else declared.pending.startOffset.or
        (if item.startsHeader then some item.spanned.offset else none) := by
  cases item with
  | annotationType here => rfl
  | token here =>
      obtain ⟨token, line, offset⟩ := here
      cases token with
      | lBrace =>
          change (declared.openBlock letters source _).pending.startOffset = none
          rw [(pending_openBlock letters source declared _).1]
          rfl
      | ident name =>
          exact PendingUnit.startOffset_observeIdent _ _ _ _
      | lParen =>
          change (if declared.parenDepth = 0 then declared.pending.observeParamListOpen
            else declared.pending).startOffset = declared.pending.startOffset.or none
          rw [apply_ite PendingUnit.startOffset, PendingUnit.startOffset_observeParamListOpen,
            ite_self, Option.or_none]
      | eq =>
          change declared.pending.observeAssignment.startOffset =
            declared.pending.startOffset.or none
          rw [PendingUnit.startOffset_observeAssignment, Option.or_none]
      | rBrace | semi | lAngle => rfl
      | rParen | arrow | rAngle | «at» =>
          exact (Option.or_none).symm

/-- The unit starts where the header does that is read. -/
theorem startOffset_foldl (letters : Letters) (source : String) (items : List Seen) :
    (items.foldl (DeclarationScan.see letters source) .start).pending.startOffset =
      headerStart items := by
  induction items using List.reverseRecOn with
  | nil => rfl
  | append_singleton items item ih =>
      rw [List.foldl_append, List.foldl_cons, List.foldl_nil, DeclarationScan.startOffset_see,
        headerStart_concat, ih]

theorem lastLine_insert (before inserted : String) {after : String} (hafter : after ≠ "") :
    Shifted (inserted.toList.count '\n') (lastLine (before ++ after))
      (lastLine (before ++ inserted ++ after)) := by
  have hends (front : String) :
      lastLine (front ++ after) = max (front.toList.count '\n' + after.toList.count '\n' +
        if after.toList.getLast? = some '\n' then 0 else 1) 1 := by
    have hletters : after.toList ≠ [] := fun hnil => hafter (String.toList_eq_nil_iff.mp hnil)
    have hsource : front ++ after ≠ "" := by
      intro hempty
      rw [← String.toList_eq_nil_iff, String.toList_append, List.append_eq_nil_iff] at hempty
      exact hletters hempty.2
    have hlast : (front.toList ++ after.toList).getLast? = after.toList.getLast? :=
      List.getLast?_append_of_ne_nil _ hletters
    simp only [lastLine, hsource, false_or, String.toList_append, hlast, List.count_append]
    split_ifs <;> rfl
  rw [hends, hends, String.toList_append, List.count_append]
  constructor
  · omega
  · omega

/-! ## An annotation inserted -/

section Inserted

variable {letters : Letters} {before inserted after : String}

theorem Insertion.after_ne_empty (hinsert : Insertion letters before inserted after) :
    after ≠ "" := by
  rintro rfl
  obtain ⟨next, hnext, -⟩ := hinsert.declaration
  have hmem := List.mem_of_head? hnext
  rw [tokensBehind, List.mem_filter, String.append_empty] at hmem
  have hbound := offset_lt_of_mem_tokenize hmem.1
  have hplace := of_decide_eq_true hmem.2
  omega

theorem Insertion.sameScope (hinsert : Insertion letters before inserted after) :
    List.Forall₂ (SameScope before.utf8ByteSize inserted.utf8ByteSize
        (inserted.toList.count '\n'))
      (braceScopes letters (before ++ after))
      (braceScopes letters (before ++ inserted ++ after)) := by
  obtain ⟨lines, hlines, hseen⟩ := hinsert.seen_displaced
  have hstart : ScopeWalk.Follows before.utf8ByteSize inserted.utf8ByteSize
      (inserted.toList.count '\n') .start .start := ScopeWalk.follows_start
  have hfollows := hstart.foldl hlines (seen (tokenize letters (before ++ after)))
  rw [← hseen] at hfollows
  have hsize : (before ++ inserted ++ after).utf8ByteSize = movedOffset before.utf8ByteSize
      inserted.utf8ByteSize (before ++ after).utf8ByteSize := by
    rw [movedOffset_of_le (by rw [String.utf8ByteSize_append]; exact Nat.le_add_right _ _),
      String.utf8ByteSize_append, String.utf8ByteSize_append, String.utf8ByteSize_append,
      Nat.add_right_comm]
  have hlast := lastLine_insert before inserted hinsert.after_ne_empty
  refine List.rel_append hfollows.closed ?_
  rw [List.forall₂_map_left_iff, List.forall₂_map_right_iff]
  exact hfollows.around.imp fun brace moved hbrace =>
    ⟨hbrace.opens, hsize, hbrace.openLine, hlast, hbrace.names⟩

theorem Insertion.sameDeclaration (hinsert : Insertion letters before inserted after) :
    List.Forall₂ (SameDeclaration before inserted after
        (headerStartAt letters (before ++ after) before.utf8ByteSize))
      (javaDeclarations letters (before ++ after))
      (javaDeclarations letters (before ++ inserted ++ after)) := by
  obtain ⟨lines, hlines, front, back, hplain, hsource, hfront, hback⟩ := hinsert.seen_eq
  have hbefore : (seen (tokenize letters (before ++ after))).filter
      (·.spanned.offset < before.utf8ByteSize) = front := by
    have hnone : back.filter (·.spanned.offset < before.utf8ByteSize) = [] := by
      rw [List.filter_eq_nil_iff]
      intro item hitem
      simpa using hback item hitem
    have hall : front.filter (·.spanned.offset < before.utf8ByteSize) = front := by
      rw [List.filter_eq_self]
      intro item hitem
      simpa using hfront item hitem
    rw [hplain, List.filter_append, hall, hnone, List.append_nil]
  have hwithin : ∀ item ∈ front, item.spanned.offset ≤ before.utf8ByteSize :=
    fun item hitem => (hfront item hitem).le
  have hprior (more : String) : front.foldl (DeclarationScan.see letters (before ++ more)) .start =
      front.foldl (DeclarationScan.see letters before) .start :=
    foldl_within letters before more .start hwithin
  rw [javaDeclarations, javaDeclarations, declarationScan_eq_foldl, declarationScan_eq_foldl,
    hplain, hsource, List.foldl_append, List.foldl_append, hprior, String.append_assoc, hprior,
    ← String.append_assoc, headerStartAt, hbefore]
  have hstart := startOffset_foldl letters before front
  generalize front.foldl (DeclarationScan.see letters before) .start = declared at hstart ⊢
  -- up to the place nothing has moved
  have hstays : declared.pending.startOffset.map
      (movedOffset before.utf8ByteSize inserted.utf8ByteSize) = declared.pending.startOffset := by
    cases hfirst : declared.pending.startOffset with
    | none => rfl
    | some first =>
        have hbegan := headerStart_lt hfront (hstart.symm.trans hfirst)
        exact congrArg some (if_pos hbegan)
  have hfollows : DeclarationScan.Follows before inserted after (headerStart front) declared
      declared := {
    typeStack := rfl
    scopes := rfl
    parenDepth := rfl
    pending := ⟨_, _, _, _, by rw [hstays], .refl _ _, .refl _ _, .refl _ _, .refl _ _⟩
    begun := fun first hfirst _ => hstart ▸ hfirst
    declarations := List.forall₂_same.mpr fun declaration _ =>
      ⟨rfl, rfl, .refl _ _, rfl, .inl rfl⟩ }
  exact (hfollows.foldl letters hlines hback).declarations

/-- A simply named annotation inserted before a declaration or a modifier. -/
theorem annotation_use_passed_over (letters : Letters) (before inserted after : String)
    (hinsert : Insertion letters before inserted after) :
    List.Forall₂ (SameScope before.utf8ByteSize inserted.utf8ByteSize
        (inserted.toList.count '\n'))
      (braceScopes letters (before ++ after))
      (braceScopes letters (before ++ inserted ++ after)) ∧
    (∀ inner ∈ (braceScopes letters (before ++ after)).zip
        (braceScopes letters (before ++ inserted ++ after)),
      ∀ outer ∈ (braceScopes letters (before ++ after)).zip
          (braceScopes letters (before ++ inserted ++ after)),
        (inner.2.Inside outer.2 ↔ inner.1.Inside outer.1)) ∧
    (enclosingIntervals letters (before ++ inserted ++ after)).map (·.path) =
      (enclosingIntervals letters (before ++ after)).map (·.path) ∧
    List.Forall₂ (SameDeclaration before inserted after
        (headerStartAt letters (before ++ after) before.utf8ByteSize))
      (javaDeclarations letters (before ++ after))
      (javaDeclarations letters (before ++ inserted ++ after)) ∧
    (headerStartAt letters (before ++ after) before.utf8ByteSize = none →
      (javaDeclarations letters (before ++ inserted ++ after)).map (·.signature) =
        (javaDeclarations letters (before ++ after)).map (·.signature)) := by
  have hscopes := hinsert.sameScope
  have hdeclarations := hinsert.sameDeclaration
  refine ⟨hscopes, ?_, ?_, hdeclarations, fun hnone => ?_⟩
  · intro inner hinner outer houter
    exact (List.forall₂_zip hscopes hinner).inside_iff (List.forall₂_zip hscopes houter)
  · rw [← interval_braceScopes, ← interval_braceScopes, List.map_map, List.map_map]
    exact map_eq_of_forall₂ hscopes fun scope moved hsame => congrArg dotted hsame.names
  · rw [hnone] at hdeclarations
    refine map_eq_of_forall₂ hdeclarations fun declaration moved hsame => ?_
    rcases hsame.signature with heq | ⟨first, hfirst, -⟩
    · exact heq
    · cases hfirst

end Inserted

theorem insertion_called_use :
    Insertion .ascii "class A \x7b " "@Foo(x = \x7b1\x7d) " "void f() \x7b \x7d \x7d" where
  place := .of_letters ' ' 'v' (by decide +kernel) (by decide +kernel) (by decide +kernel)
    (by decide)
  front := .of_letters ' ' '@' (by decide +kernel) (by decide +kernel) (by decide +kernel)
    (by decide)
  back := .of_letters ' ' 'v' (by decide +kernel) (by decide +kernel) (by decide +kernel)
    (by decide)
  use := by
    refine ⟨"Foo", [.lParen, .ident "x", .eq, .lBrace, .rBrace, .rParen], by decide +kernel,
      by decide, .inr ⟨[.ident "x", .eq, .lBrace, .rBrace], rfl, rfl, fun front hfront => ?_⟩⟩
    have hnone := hfront.sublist.count_le .rParen
    exact hnone.trans (Nat.zero_le _)
  reached := by
    have htokens : tokenize .ascii ("class A \x7b " ++ "void f() \x7b \x7d \x7d") =
        ⟨.ident "class", 1, 0⟩ :: ⟨.ident "A", 1, 6⟩ :: ⟨.lBrace, 1, 8⟩ ::
          tokensBehind "class A \x7b ".utf8ByteSize
            (tokenize .ascii ("class A \x7b " ++ "void f() \x7b \x7d \x7d")) := by
      decide +kernel
    generalize tokensBehind _ _ = behind at htokens ⊢
    rw [htokens]
    exact ⟨_, .token (by decide) (.token (by decide) (.token (by decide) (.here behind)))⟩
  declaration := ⟨⟨.ident "void", 1, 10⟩, by decide +kernel, .inl ⟨"void", rfl⟩⟩

theorem called_annotation_passed_over :
    (enclosingIntervals .ascii
        ("class A \x7b " ++ "@Foo(x = \x7b1\x7d) " ++ "void f() \x7b \x7d \x7d")).map (·.path) =
      (enclosingIntervals .ascii ("class A \x7b " ++ "void f() \x7b \x7d \x7d")).map (·.path) ∧
    List.Forall₂ (SameDeclaration "class A \x7b " "@Foo(x = \x7b1\x7d) "
        "void f() \x7b \x7d \x7d" none)
      (javaDeclarations .ascii ("class A \x7b " ++ "void f() \x7b \x7d \x7d"))
      (javaDeclarations .ascii
        ("class A \x7b " ++ "@Foo(x = \x7b1\x7d) " ++ "void f() \x7b \x7d \x7d")) := by
  have hstart : headerStartAt .ascii ("class A \x7b " ++ "void f() \x7b \x7d \x7d")
      "class A \x7b ".utf8ByteSize = none := by decide +kernel
  obtain ⟨-, -, hpaths, hdeclarations, -⟩ :=
    annotation_use_passed_over .ascii _ _ _ insertion_called_use
  rw [hstart] at hdeclarations
  exact ⟨hpaths, hdeclarations⟩

/-- With a qualified name a constructor is a method, and behind a modifier the
annotation stands in the signature. -/
theorem annotation_not_invisible :
    (javaDeclarations .ascii ("class A \x7b " ++ "A() \x7b \x7d \x7d")).map
        (fun declaration => (declaration.kind, declaration.signature)) =
      [(.classKind, "class A"), (.constructor, "A()")] ∧
    (javaDeclarations .ascii ("class A \x7b " ++ "@a.b.Foo(x) " ++ "A() \x7b \x7d \x7d")).map
        (fun declaration => (declaration.kind, declaration.signature)) =
      [(.classKind, "class A"), (.method, "b.Foo(x) A()")] ∧
    (javaDeclarations .ascii ("class A \x7b public " ++ "void f() \x7b \x7d \x7d")).map
        (·.signature) = ["class A", "public void f()"] ∧
    (javaDeclarations .ascii
        ("class A \x7b public " ++ "@Foo " ++ "void f() \x7b \x7d \x7d")).map (·.signature) =
      ["class A", "public @Foo void f()"] := by
  decide +kernel

end Ktsense.Core
