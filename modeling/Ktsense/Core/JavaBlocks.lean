import Ktsense.Core.JavaTokens

/-!
# What a brace opens

A brace is judged by what both scans have seen since the last boundary.  It opens a
type once a class keyword is followed by another identifier, also where the keyword
belongs to an expression, and a member once a name is called outside parentheses
with no `new` before it and no arrow behind it.
-/

namespace Ktsense.Core

open Ktsense.Foundation

namespace Seen

def token? : Seen → Option Token
  | .token here => some here.token
  | .annotationType _ => none

def ident? (item : Seen) : Option String :=
  match item.token? with
  | some (.ident name) => some name
  | _ => none

/-- The keyword of an annotation type is a word that is not walked by itself. -/
def word? : Seen → Option String
  | .annotationType _ => some "interface"
  | .token here => (Seen.token here).ident?

def isBoundary (item : Seen) : Bool :=
  item.token? = some .lBrace || item.token? = some .rBrace || item.token? = some .semi

end Seen

def idents (items : List Seen) : List String := items.filterMap Seen.ident?

def words (items : List Seen) : List String := items.filterMap Seen.word?

def sinceBoundary (stream : List Seen) : List Seen := stream.rtakeWhile (!·.isBoundary)

def upToBoundary (stream : List Seen) : List Seen := stream.rdropWhile (!·.isBoundary)

/-- The depth of parentheses as the scans count it. -/
def depthAfter (depth : UInt32) (items : List Seen) : UInt32 :=
  items.foldl (fun depth item =>
    match item.token? with
    | some .lParen => deeper depth
    | some .rParen => shallower depth
    | _ => depth) depth

/-- Some class keyword is followed by a word that is none. -/
def NamesType (items : List Seen) : Prop :=
  ∃ before keyword name after, words items = before ++ keyword :: name :: after ∧
    isClassKeyword keyword = true ∧ isClassKeyword name = false

/-- At depth zero a name that is no control keyword stands before a parenthesis, with
no `new` before it. -/
def CallsByName (depth : UInt32) (items : List Seen) : Prop :=
  ∃ before paren after name, items = before ++ paren :: after ∧
    paren.token? = some .lParen ∧ depthAfter depth before = 0 ∧
    (idents before).getLast? = some name ∧ isControlKeyword name = false ∧
    "new" ∉ idents before

def HasArrow (items : List Seen) : Prop := ∃ item ∈ items, item.token? = some .arrow

/-- Of a brace behind this stream: no type is named, and no call stands outside
parentheses unless an arrow does too. -/
def Plain (stream : List Seen) : Prop :=
  ¬NamesType (sinceBoundary stream) ∧
    (HasArrow (sinceBoundary stream) ∨
      ¬CallsByName (depthAfter 0 (upToBoundary stream)) (sinceBoundary stream))

/-! ## One item more -/

theorem sinceBoundary_concat (stream : List Seen) (item : Seen) :
    sinceBoundary (stream ++ [item]) =
      if item.isBoundary then [] else sinceBoundary stream ++ [item] := by
  rw [sinceBoundary, List.rtakeWhile_concat, sinceBoundary]
  cases item.isBoundary <;> rfl

theorem upToBoundary_concat (stream : List Seen) (item : Seen) :
    upToBoundary (stream ++ [item]) =
      if item.isBoundary then stream ++ [item] else upToBoundary stream := by
  rw [upToBoundary, List.rdropWhile_concat, upToBoundary]
  cases item.isBoundary <;> rfl

theorem upToBoundary_append_sinceBoundary (stream : List Seen) :
    upToBoundary stream ++ sinceBoundary stream = stream :=
  List.rdropWhile_append_rtakeWhile ..

theorem depthAfter_append (depth : UInt32) (items more : List Seen) :
    depthAfter depth (items ++ more) = depthAfter (depthAfter depth items) more :=
  List.foldl_append ..

/-- A last word names a type behind a class keyword. -/
theorem namesType_concat_word (items : List Seen) {item : Seen} {word : String}
    (hword : item.word? = some word) :
    NamesType (items ++ [item]) ↔ NamesType items ∨
      isClassKeyword word = false ∧
        ∃ keyword, (words items).getLast? = some keyword ∧ isClassKeyword keyword = true := by
  have hwords : words (items ++ [item]) = words items ++ [word] := by
    simp [words, hword]
  rw [NamesType, NamesType, hwords]
  constructor
  · rintro ⟨before, keyword, name, after, hsplit, hkeyword, hname⟩
    cases after using List.reverseRecOn with
    | nil =>
        have hsame : words items ++ [word] = (before ++ [keyword]) ++ [name] := by
          rw [hsplit]
          simp
        obtain ⟨hitems, hlast⟩ := List.append_inj' hsame rfl
        cases hlast
        exact .inr ⟨hname, keyword, by rw [hitems]; simp, hkeyword⟩
    | append_singleton after last =>
        have hsame : words items ++ [word] =
            (before ++ keyword :: name :: after) ++ [last] := by
          rw [hsplit]
          simp
        exact .inl ⟨before, keyword, name, after, (List.append_inj' hsame rfl).1, hkeyword,
          hname⟩
  · rintro (⟨before, keyword, name, after, hsplit, hkeyword, hname⟩ |
      ⟨hname, keyword, hlast, hkeyword⟩)
    · exact ⟨before, keyword, name, after ++ [word], by rw [hsplit]; simp, hkeyword, hname⟩
    · obtain ⟨before, hbefore⟩ := List.getLast?_eq_some_iff.mp hlast
      exact ⟨before, keyword, word, [], by rw [hbefore]; simp, hkeyword, hname⟩

theorem namesType_concat_of_no_word {items : List Seen} {item : Seen}
    (hword : item.word? = none) : NamesType (items ++ [item]) ↔ NamesType items := by
  have hwords : words (items ++ [item]) = words items := by simp [words, hword]
  rw [NamesType, NamesType, hwords]

/-- A last parenthesis is a call or changes nothing. -/
theorem callsByName_concat {depth : UInt32} {items : List Seen} {item : Seen} :
    CallsByName depth (items ++ [item]) ↔ CallsByName depth items ∨
      item.token? = some .lParen ∧ depthAfter depth items = 0 ∧
        ∃ name, (idents items).getLast? = some name ∧ isControlKeyword name = false ∧
          "new" ∉ idents items := by
  constructor
  · rintro ⟨before, paren, after, name, hsplit, hparen, hdepth, hlast, hname, hnew⟩
    cases after using List.reverseRecOn with
    | nil =>
        obtain ⟨rfl, hitem⟩ := List.append_inj' hsplit rfl
        cases hitem
        exact .inr ⟨hparen, hdepth, name, hlast, hname, hnew⟩
    | append_singleton after last =>
        have hsame : items ++ [item] = (before ++ paren :: after) ++ [last] := by
          rw [hsplit]
          simp
        exact .inl ⟨before, paren, after, name, (List.append_inj' hsame rfl).1, hparen,
          hdepth, hlast, hname, hnew⟩
  · rintro (⟨before, paren, after, name, rfl, hrest⟩ | ⟨hparen, hdepth, name, hrest⟩)
    · exact ⟨before, paren, after ++ [item], name, by simp, hrest⟩
    · exact ⟨items, item, [], name, rfl, hparen, hdepth, hrest⟩

/-! ## What the enclosing scan has read -/

/-- The unit in terms of the items since the boundary. -/
structure ScanUnit.Reads (unit : ScanUnit) (depth : UInt32) (items : List Seen) : Prop where
  expect : unit.expectClassName = true ↔
    ∃ keyword, (words items).getLast? = some keyword ∧ isClassKeyword keyword = true
  named : unit.className.isSome = true ↔ NamesType items
  prevIdent : unit.prevIdent = (idents items).getLast?
  arrow : unit.sawArrow = true ↔ HasArrow items
  new : ¬NamesType items → (unit.sawNew = true ↔ "new" ∈ idents items)
  method : ¬NamesType items → (unit.methodName.isSome = true ↔ CallsByName depth items)

theorem ScanUnit.reads_default (depth : UInt32) : ScanUnit.default.Reads depth [] := by
  constructor <;>
    simp [ScanUnit.default, words, idents, NamesType, HasArrow, CallsByName]

theorem idents_concat (items : List Seen) (item : Seen) :
    idents (items ++ [item]) = idents items ++ item.ident?.toList := by
  rw [idents, List.filterMap_append]
  cases hident : item.ident? <;> simp [idents, hident]

theorem words_concat (items : List Seen) (item : Seen) :
    words (items ++ [item]) = words items ++ item.word?.toList := by
  rw [words, List.filterMap_append]
  cases hword : item.word? <;> simp [words, hword]

theorem hasArrow_concat {items : List Seen} {item : Seen} :
    HasArrow (items ++ [item]) ↔ HasArrow items ∨ item.token? = some .arrow := by
  simp [HasArrow, or_and_right, exists_or]

section Reading

variable {unit : ScanUnit} {depth : UInt32} {items : List Seen}

/-- An item that is no word can bring an arrow or a call. -/
theorem ScanUnit.Reads.wordless (hreads : unit.Reads depth items) {item : Seen}
    (hword : item.word? = none) (hident : item.ident? = none) {sawArrow : Bool}
    {methodName : Option String}
    (harrow : sawArrow = true ↔ unit.sawArrow = true ∨ item.token? = some .arrow)
    (hmethod : ¬NamesType items →
      (methodName.isSome = true ↔ CallsByName depth (items ++ [item]))) :
    ScanUnit.Reads { unit with sawArrow, methodName } depth (items ++ [item]) where
  expect := by
    rw [words_concat, hword, Option.toList_none, List.append_nil]
    exact hreads.expect
  named := by
    rw [namesType_concat_of_no_word hword]
    exact hreads.named
  prevIdent := by
    rw [idents_concat, hident, Option.toList_none, List.append_nil]
    exact hreads.prevIdent
  arrow := by rw [harrow, hasArrow_concat, hreads.arrow]
  new := by
    rw [namesType_concat_of_no_word hword, idents_concat, hident, Option.toList_none,
      List.append_nil]
    exact hreads.new
  method := by
    rw [namesType_concat_of_no_word hword]
    exact hmethod

/-- An item that is neither a word nor a parenthesis is no call. -/
theorem ScanUnit.Reads.silent (hreads : unit.Reads depth items) {item : Seen}
    (hword : item.word? = none) (hident : item.ident? = none)
    (hparen : item.token? ≠ some .lParen) (sawArrow : Bool)
    (harrow : sawArrow = true ↔ unit.sawArrow = true ∨ item.token? = some .arrow) :
    ScanUnit.Reads { unit with sawArrow } depth (items ++ [item]) := by
  refine hreads.wordless hword hident harrow ?_
  rw [callsByName_concat]
  simp only [hparen, false_and, or_false]
  exact hreads.method

theorem ScanUnit.Reads.ident (hreads : unit.Reads depth items) (name : String)
    (line offset : ℕ) :
    (unit.observeIdent name line).Reads depth (items ++ [.token ⟨.ident name, line, offset⟩]) := by
  have hword : (Seen.token ⟨.ident name, line, offset⟩).word? = some name := rfl
  have hident : (Seen.token ⟨.ident name, line, offset⟩).ident? = some name := rfl
  have hnames := namesType_concat_word items hword
  rw [← hreads.expect] at hnames
  have hcalls : CallsByName depth (items ++ [.token ⟨.ident name, line, offset⟩]) ↔
      CallsByName depth items := by
    rw [callsByName_concat]
    simp [Seen.token?]
  have harrow : HasArrow (items ++ [.token ⟨.ident name, line, offset⟩]) ↔ HasArrow items := by
    rw [hasArrow_concat]
    simp [Seen.token?]
  have hexpect : (∃ keyword, (words (items ++ [.token ⟨.ident name, line, offset⟩])).getLast? =
      some keyword ∧ isClassKeyword keyword = true) ↔ isClassKeyword name = true := by
    rw [words_concat, hword]
    simp
  have hlast : (idents (items ++ [.token ⟨.ident name, line, offset⟩])).getLast? = some name := by
    rw [idents_concat, hident]
    simp
  have hnewIdent : "new" ∈ idents (items ++ [.token ⟨.ident name, line, offset⟩]) ↔
      "new" ∈ idents items ∨ name = "new" := by
    rw [idents_concat, hident]
    simp [eq_comm]
  rw [ScanUnit.observeIdent]
  split_ifs with hkeyword hexpected hnew
  · have hne : name ≠ "new" := by
      rintro rfl
      exact absurd hkeyword (by decide)
    simp only [hkeyword, Bool.true_eq_false, false_and, or_false] at hnames
    exact {
      expect := by simp [hexpect, hkeyword]
      named := by rw [hnames]; exact hreads.named
      prevIdent := hlast.symm
      arrow := by rw [harrow]; exact hreads.arrow
      new := by
        rw [hnames, hnewIdent, or_iff_left hne]
        exact hreads.new
      method := by rw [hnames, hcalls]; exact hreads.method }
  · rw [Bool.not_eq_true] at hkeyword
    have hnamed : NamesType (items ++ [.token ⟨.ident name, line, offset⟩]) :=
      hnames.mpr (.inr ⟨hkeyword, hexpected⟩)
    exact {
      expect := by simp [hexpect, hkeyword]
      named := by simp [hnamed]
      prevIdent := hlast.symm
      arrow := by rw [harrow]; exact hreads.arrow
      new := fun hnot => absurd hnamed hnot
      method := fun hnot => absurd hnamed hnot }
  · have hopen : ¬unit.expectClassName = true := hexpected
    have hnames := hnames.trans (or_iff_left fun h => hopen h.2)
    exact {
      expect := iff_of_false hopen fun h => hkeyword (hexpect.mp h)
      named := by rw [hnames]; exact hreads.named
      prevIdent := hlast.symm
      arrow := by rw [harrow]; exact hreads.arrow
      new := fun _ => iff_of_true rfl (hnewIdent.mpr (.inr hnew))
      method := by rw [hnames, hcalls]; exact hreads.method }
  · have hopen : ¬unit.expectClassName = true := hexpected
    have hnames := hnames.trans (or_iff_left fun h => hopen h.2)
    exact {
      expect := iff_of_false hopen fun h => hkeyword (hexpect.mp h)
      named := by rw [hnames]; exact hreads.named
      prevIdent := hlast.symm
      arrow := by rw [harrow]; exact hreads.arrow
      new := by
        rw [hnames, hnewIdent, or_iff_left hnew]
        exact hreads.new
      method := by rw [hnames, hcalls]; exact hreads.method }

theorem ScanUnit.Reads.annotationType (hreads : unit.Reads depth items) (here : Spanned) :
    ScanUnit.Reads { unit with expectClassName := true } depth
      (items ++ [.annotationType here]) := by
  have hword : (Seen.annotationType here).word? = some "interface" := rfl
  have hident : (Seen.annotationType here).ident? = none := rfl
  have hnames : NamesType (items ++ [.annotationType here]) ↔ NamesType items := by
    rw [namesType_concat_word items hword]
    simp [isClassKeyword]
  exact {
    expect := by
      rw [words_concat, hword]
      simp [isClassKeyword]
    named := by rw [hnames]; exact hreads.named
    prevIdent := by
      rw [idents_concat, hident, Option.toList_none, List.append_nil]
      exact hreads.prevIdent
    arrow := by
      rw [hasArrow_concat]
      simpa [Seen.token?] using hreads.arrow
    new := by
      rw [hnames, idents_concat, hident, Option.toList_none, List.append_nil]
      exact hreads.new
    method := by
      rw [hnames, callsByName_concat]
      simpa [Seen.token?] using hreads.method }

/-- A parenthesis at depth zero behind a name is a call of it. -/
theorem ScanUnit.Reads.paren (hreads : unit.Reads depth items) (line offset : ℕ) :
    ScanUnit.Reads
      (if depthAfter depth items = 0 then unit.observeParamListOpen else unit) depth
      (items ++ [.token ⟨.lParen, line, offset⟩]) := by
  have hword : (Seen.token ⟨.lParen, line, offset⟩).word? = none := rfl
  have hident : (Seen.token ⟨.lParen, line, offset⟩).ident? = none := rfl
  have hparen : (Seen.token ⟨.lParen, line, offset⟩).token? = some .lParen := rfl
  have harrow : unit.sawArrow = true ↔
      unit.sawArrow = true ∨ (Seen.token ⟨.lParen, line, offset⟩).token? = some .arrow := by
    simp [Seen.token?]
  by_cases hdepth : depthAfter depth items = 0
  · rw [if_pos hdepth, ScanUnit.observeParamListOpen]
    have hopens : ∀ held : Option String,
        (¬NamesType items → (held.isSome = true ↔ unit.methodName.isSome = true ∨
          ∃ name, unit.prevIdent = some name ∧ isControlKeyword name = false ∧
            unit.sawNew = false)) →
        ScanUnit.Reads { unit with methodName := held } depth
          (items ++ [.token ⟨.lParen, line, offset⟩]) := by
      intro held hheld
      refine hreads.wordless hword hident harrow fun hnames => ?_
      rw [hheld hnames, callsByName_concat, hreads.method hnames, hreads.prevIdent]
      have hnew : unit.sawNew = false ↔ "new" ∉ idents items := by
        rw [← hreads.new hnames, Bool.not_eq_true]
      simp only [hparen, hdepth, hnew, true_and]
    split_ifs with hclass
    · exact hopens unit.methodName fun hnames => absurd (hreads.named.mp hclass) hnames
    · split
      · rename_i name hprev
        split_ifs with hcalled
        · refine hopens (some name) fun _ => ?_
          simp only [Bool.and_eq_true, Bool.not_eq_true'] at hcalled
          simp [hprev, hcalled]
        · refine hopens unit.methodName fun _ => (or_iff_left ?_).symm
          rintro ⟨other, hother, hname, hnew⟩
          rw [hprev, Option.some.injEq] at hother
          subst hother
          simp [hname, hnew] at hcalled
      · rename_i hprev
        exact hopens unit.methodName fun _ => by simp [hprev]
  · rw [if_neg hdepth]
    refine hreads.wordless hword hident harrow fun hnames => ?_
    rw [callsByName_concat, hreads.method hnames]
    simp [hdepth]

end Reading

/-- The enclosing scan at any place of a stream. -/
theorem reads_foldl (stream : List Seen) :
    (stream.foldl EnclosingScan.see .start).parenDepth = depthAfter 0 stream ∧
      (stream.foldl EnclosingScan.see .start).unit.Reads
        (depthAfter 0 (upToBoundary stream)) (sinceBoundary stream) := by
  induction stream using List.reverseRecOn with
  | nil => exact ⟨rfl, ScanUnit.reads_default _⟩
  | append_singleton stream item ih =>
      obtain ⟨hdepth, hreads⟩ := ih
      have hsplit := upToBoundary_append_sinceBoundary stream
      have hparen : (stream.foldl EnclosingScan.see .start).parenDepth =
          depthAfter (depthAfter 0 (upToBoundary stream)) (sinceBoundary stream) := by
        rw [hdepth, ← depthAfter_append, hsplit]
      rw [List.foldl_append, List.foldl_cons, List.foldl_nil, depthAfter_append, ← hdepth,
        sinceBoundary_concat, upToBoundary_concat]
      generalize stream.foldl EnclosingScan.see .start = scan at hdepth hreads hparen ⊢
      cases item with
      | annotationType here => exact ⟨rfl, hreads.annotationType here⟩
      | token here =>
          obtain ⟨token, line, offset⟩ := here
          cases token with
          | ident name => exact ⟨rfl, hreads.ident name line offset⟩
          | lBrace => exact ⟨rfl, ScanUnit.reads_default _⟩
          | rBrace =>
              refine ⟨?_, ScanUnit.reads_default _⟩
              exact (WalksInStep.closeScope scan line).1
          | semi => exact ⟨rfl, ScanUnit.reads_default _⟩
          | lParen =>
              refine ⟨rfl, ?_⟩
              have hcalled := hreads.paren line offset
              rw [← hparen] at hcalled
              exact hcalled
          | arrow =>
              refine ⟨rfl, ?_⟩
              exact hreads.silent rfl rfl (by simp [Seen.token?]) true (by simp [Seen.token?])
          | rParen | «at» | eq | lAngle | rAngle =>
              refine ⟨rfl, ?_⟩
              exact hreads.silent rfl rfl (by simp [Seen.token?]) scan.unit.sawArrow
                (by simp [Seen.token?])

/-! ## What the brace opens -/

/-- The two scans at any place of a stream. -/
theorem walksInStep_foldl (letters : Letters) (source : String) (stream : List Seen) :
    WalksInStep (stream.foldl EnclosingScan.see .start)
      (stream.foldl (DeclarationScan.see letters source) .start) := by
  induction stream using List.reverseRecOn with
  | nil => exact ⟨InStep.default, rfl, rfl, rfl⟩
  | append_singleton stream item ih =>
      rw [List.foldl_append, List.foldl_append]
      cases item with
      | token here => exact (ih.step letters source here []).1
      | annotationType here =>
          obtain ⟨hunit, hdepth, hnamed, hblocks⟩ := ih
          exact ⟨{ hunit with expectClassName := rfl, kind := fun _ => rfl }, hdepth, hnamed,
            hblocks⟩

/-- A brace behind a stream opens an unnamed scope, and no declaration is recorded
for it. -/
def OpensUnnamed (letters : Letters) (source : String) (stream : List Seen)
    (brace : Spanned) : Prop :=
  let scan := stream.foldl EnclosingScan.see .start
  let declared := stream.foldl (DeclarationScan.see letters source) .start
  (scan.see (.token brace)).opened.head?.map (·.named) = some false ∧
    (declared.see letters source (.token brace)).declarations = declared.declarations

theorem scopeName_zero_eq_none (unit : ScanUnit) :
    unit.scopeName 0 = none ↔
      unit.className = none ∧ (unit.sawArrow = true ∨ unit.methodName = none) := by
  rw [ScanUnit.scopeName]
  cases unit.className with
  | some name => simp
  | none => cases unit.sawArrow <;> simp

/-- Of a brace anywhere in a source. -/
theorem opensUnnamed_iff (letters : Letters) (source : String) (stream : List Seen)
    (line offset : ℕ) :
    OpensUnnamed letters source stream ⟨.lBrace, line, offset⟩ ↔ Plain stream := by
  obtain ⟨hdepth, hreads⟩ := reads_foldl stream
  have hwalks := walksInStep_foldl letters source stream
  rw [OpensUnnamed]
  generalize stream.foldl EnclosingScan.see .start = scan at hdepth hreads hwalks
  generalize stream.foldl (DeclarationScan.see letters source) .start = declared at hwalks
  have hopened : ((scan.see (.token ⟨.lBrace, line, offset⟩)).opened.head?.map (·.named) =
      some false) ↔ scan.unit.scopeName scan.parenDepth = none := by
    simp [EnclosingScan.see, EnclosingScan.step, EnclosingScan.openScope]
  have hdeclared : (declared.see letters source (.token ⟨.lBrace, line, offset⟩)).declarations =
      declared.declarations ↔ scan.unit.scopeName 0 = none := by
    rw [← hwalks.unit.blockName declared.typeStack, PendingUnit.blockName]
    change (declared.openBlock letters source _).declarations = _ ↔ _
    rw [DeclarationScan.openBlock]
    cases declared.pending.classifyBlock declared.typeStack <;> simp
  have hboth : scan.unit.scopeName scan.parenDepth = none ∧ scan.unit.scopeName 0 = none ↔
      scan.unit.scopeName 0 = none := by
    refine and_iff_right_of_imp fun hnone => ?_
    rcases scopeName_eq_or_none ⟨offset, scan.unit, scan.parenDepth⟩ with hsame | hunnamed
    · exact hsame.trans hnone
    · exact hunnamed
  rw [hopened, hdeclared, hboth, scopeName_zero_eq_none, Plain, ← hreads.named,
    Bool.not_eq_true, Option.isSome_eq_false_iff, Option.isNone_iff_eq_none, ← hreads.arrow]
  refine and_congr_right fun hclass => or_congr_right ?_
  have hnames : ¬NamesType (sinceBoundary stream) := by
    rw [← hreads.named, hclass]
    simp
  rw [← hreads.method hnames, Bool.not_eq_true, Option.isSome_eq_false_iff,
    Option.isNone_iff_eq_none]

/-! ## Where the scans part -/

/-- A brace behind this stream stands inside parentheses, behind a call and neither a type
name nor an arrow. -/
structure InsideCall (stream : List Seen) : Prop where
  inside : depthAfter 0 stream ≠ 0
  untyped : ¬NamesType (sinceBoundary stream)
  unarrowed : ¬HasArrow (sinceBoundary stream)
  called : CallsByName (depthAfter 0 (upToBoundary stream)) (sinceBoundary stream)

/-- What the enclosing scan has come to at each brace of a stream. -/
theorem mem_braces_foldl (stream : List Seen) (brace : Brace) :
    brace ∈ (stream.foldl EnclosingScan.see .start).braces ↔
      ∃ front line offset rest, stream = front ++ .token ⟨.lBrace, line, offset⟩ :: rest ∧
        brace = ⟨offset, (front.foldl EnclosingScan.see .start).unit,
          (front.foldl EnclosingScan.see .start).parenDepth⟩ := by
  induction stream using List.reverseRecOn with
  | nil => simp [EnclosingScan.start]
  | append_singleton stream item ih =>
      have hlast : (∃ front line offset rest,
            stream ++ [item] = front ++ .token ⟨.lBrace, line, offset⟩ :: rest ∧
              brace = ⟨offset, (front.foldl EnclosingScan.see .start).unit,
                (front.foldl EnclosingScan.see .start).parenDepth⟩) ↔
          brace ∈ (stream.foldl EnclosingScan.see .start).braces ∨
            ∃ line offset, item = .token ⟨.lBrace, line, offset⟩ ∧
              brace = ⟨offset, (stream.foldl EnclosingScan.see .start).unit,
                (stream.foldl EnclosingScan.see .start).parenDepth⟩ := by
        rw [ih]
        constructor
        · rintro ⟨front, line, offset, rest, hsplit, hbrace⟩
          cases rest using List.reverseRecOn with
          | nil =>
              obtain ⟨rfl, hitem⟩ := List.append_inj' hsplit rfl
              exact .inr ⟨line, offset, List.singleton_inj.mp hitem, hbrace⟩
          | append_singleton rest last =>
              rw [← List.cons_append, ← List.append_assoc] at hsplit
              exact .inl ⟨front, line, offset, rest, (List.append_inj' hsplit rfl).1, hbrace⟩
        · rintro (⟨front, line, offset, rest, rfl, hbrace⟩ | ⟨line, offset, rfl, hbrace⟩)
          · exact ⟨front, line, offset, rest ++ [item], by simp, hbrace⟩
          · exact ⟨stream, line, offset, [], rfl, hbrace⟩
      rw [hlast, List.foldl_append, List.foldl_cons, List.foldl_nil]
      generalize stream.foldl EnclosingScan.see .start = scan
      have hkept (hsame : (scan.see item).braces = scan.braces)
          (hother : ∀ line offset, item ≠ .token ⟨.lBrace, line, offset⟩) :
          brace ∈ (scan.see item).braces ↔ brace ∈ scan.braces ∨
            ∃ line offset, item = .token ⟨.lBrace, line, offset⟩ ∧
              brace = ⟨offset, scan.unit, scan.parenDepth⟩ := by
        rw [hsame, or_iff_left]
        rintro ⟨line, offset, hitem, -⟩
        exact hother line offset hitem
      cases item with
      | annotationType here => exact hkept rfl fun _ _ heq => by cases heq
      | token here =>
          obtain ⟨token, line, offset⟩ := here
          cases token with
          | lBrace =>
              simp [EnclosingScan.see, EnclosingScan.step, EnclosingScan.openScope]
          | rBrace =>
              exact hkept (WalksInStep.closeScope scan line).2.2 fun _ _ heq => by cases heq
          | ident | lParen | rParen | arrow | semi | «at» | eq | lAngle | rAngle =>
              exact hkept rfl fun _ _ heq => by cases heq

theorem inArguments_iff_insideCall (stream : List Seen) (offset : ℕ) :
    Brace.inArguments ⟨offset, (stream.foldl EnclosingScan.see .start).unit,
      (stream.foldl EnclosingScan.see .start).parenDepth⟩ ↔ InsideCall stream := by
  obtain ⟨hdepth, hreads⟩ := reads_foldl stream
  rw [Brace.inArguments]
  dsimp only
  generalize stream.foldl EnclosingScan.see .start = scan at hdepth hreads
  have hnamed : scan.unit.className = none ↔ ¬NamesType (sinceBoundary stream) := by
    rw [← hreads.named, Bool.not_eq_true, Option.isSome_eq_false_iff,
      Option.isNone_iff_eq_none]
  have harrow : scan.unit.sawArrow = false ↔ ¬HasArrow (sinceBoundary stream) := by
    rw [← hreads.arrow, Bool.not_eq_true]
  rw [hdepth, hnamed, harrow]
  constructor
  · rintro ⟨hinside, hnames, harrow, hmethod⟩
    exact ⟨hinside, hnames, harrow, (hreads.method hnames).mp hmethod⟩
  · rintro ⟨hinside, hnames, harrow, hcalled⟩
    exact ⟨hinside, hnames, harrow, (hreads.method hnames).mpr hcalled⟩

/-- The braces that open a named scope for the enclosing scan are those that the declaration
scan classifies as types or members, with the same names, if and only if no brace of the
source stands inside the parentheses of a call, or of a condition or list behind one. -/
theorem java_scans_agree_iff (letters : Letters) (source : String) :
    (enclosingScan (tokenize letters source)).named =
        (declarationScan letters source (tokenize letters source)).blocks ↔
      ∀ stream line offset rest,
        seen (tokenize letters source) = stream ++ .token ⟨.lBrace, line, offset⟩ :: rest →
          ¬InsideCall stream := by
  rw [named_eq_blocks_iff, enclosingScan_eq_foldl]
  constructor
  · intro hbraces stream line offset rest hseen
    rw [← inArguments_iff_insideCall stream offset]
    exact hbraces _ ((mem_braces_foldl _ _).mpr ⟨stream, line, offset, rest, hseen, rfl⟩)
  · intro hstreams brace hbrace
    obtain ⟨stream, line, offset, rest, hseen, rfl⟩ := (mem_braces_foldl _ _).mp hbrace
    rw [inArguments_iff_insideCall]
    exact hstreams stream line offset rest hseen

def anonymousClassSource : String :=
  "class A \x7b void f() \x7b run(new B() \x7b \x7d); \x7d \x7d"

/-- An anonymous class as an argument: `run` names a member for the declaration
scan only. -/
theorem anonymous_class_named_as_call :
    (enclosingScan (tokenize .ascii anonymousClassSource)).named =
        [(8, "A"), (19, "f")] ∧
      (declarationScan .ascii anonymousClassSource
        (tokenize .ascii anonymousClassSource)).blocks =
          [(8, "A"), (19, "f"), (33, "run")] ∧
      (enclosingScan (tokenize .ascii anonymousClassSource)).named ≠
        (declarationScan .ascii anonymousClassSource
          (tokenize .ascii anonymousClassSource)).blocks := by
  decide

/-- Behind a control keyword the name of an inner call is not taken, and the scans agree. -/
example :
    let source := "class A \x7b void f() \x7b if (run(new B() \x7b \x7d)) \x7b \x7d \x7d \x7d"
    (enclosingScan (tokenize .ascii source)).named =
      (declarationScan .ascii source (tokenize .ascii source)).blocks := by
  decide

/-! ## Control blocks, lambda bodies and anonymous classes -/

theorem sinceBoundary_append (items more : List Seen) :
    sinceBoundary (items ++ more) =
      if more.any Seen.isBoundary then sinceBoundary more else sinceBoundary items ++ more := by
  induction more using List.reverseRecOn with
  | nil => simp
  | append_singleton more last ih =>
      rw [← List.append_assoc, sinceBoundary_concat, sinceBoundary_concat, ih]
      cases hlast : last.isBoundary <;> cases hmore : more.any Seen.isBoundary <;>
        simp [hlast, hmore]

def opens (items : List Seen) : ℕ := items.countP (·.token? = some .lParen)

def closes (items : List Seen) : ℕ := items.countP (·.token? = some .rParen)

/-- As many parentheses close as open, and none before it opens. -/
structure Balanced (items : List Seen) : Prop where
  total : closes items = opens items
  front : ∀ front, front <+: items → closes front ≤ opens front

theorem balanced_of_no_parens {items : List Seen} (hopens : opens items = 0)
    (hcloses : closes items = 0) : Balanced items where
  total := hcloses.trans hopens.symm
  front := by
    intro front hfront
    have hfewer : closes front ≤ closes items := hfront.sublist.countP_le
    omega

/-- Below the range of `u32` the depth is the number of open parentheses. -/
theorem toNat_depthAfter {depth : UInt32} {items : List Seen}
    (hfront : ∀ front, front <+: items → closes front ≤ depth.toNat + opens front)
    (hrange : depth.toNat + opens items < 2 ^ 32) :
    (depthAfter depth items).toNat + closes items = depth.toNat + opens items := by
  induction items using List.reverseRecOn with
  | nil => rfl
  | append_singleton items last ih =>
      have hall := hfront _ (List.prefix_refl _)
      have hcloses : closes (items ++ [last]) =
          closes items + if last.token? = some .rParen then 1 else 0 := by
        simp [closes, List.countP_append, List.countP_singleton]
      have hopens : opens (items ++ [last]) =
          opens items + if last.token? = some .lParen then 1 else 0 := by
        simp [opens, List.countP_append, List.countP_singleton]
      rw [hcloses, hopens] at hall
      rw [hopens] at hrange
      have hitems := ih (fun front hpart => hfront front (hpart.trans (List.prefix_append _ _)))
        (by omega)
      rw [hcloses, hopens, depthAfter_append]
      generalize depthAfter depth items = held at hitems
      change (match last.token? with
        | some .lParen => deeper held
        | some .rParen => shallower held
        | _ => held).toNat + _ = _
      split
      · rename_i hparen
        have hadd : (deeper held).toNat = held.toNat + 1 := by
          rw [deeper, UInt32.toNat_add]
          simp only [hparen, if_true] at hrange
          exact Nat.mod_eq_of_lt (by simpa using (by omega : held.toNat + 1 < 2 ^ 32))
        simp only [hparen, if_true, hadd, reduceCtorEq, Option.some.injEq, if_false]
        omega
      · rename_i hparen
        simp only [hparen, if_true, reduceCtorEq, Option.some.injEq, if_false] at hall ⊢
        have hpositive : 1 ≤ held.toNat := by omega
        have hne : held ≠ 0 := by
          rintro rfl
          exact absurd hpositive (by decide)
        have hsub : (shallower held).toNat = held.toNat - 1 := by
          rw [shallower, if_neg hne]
          exact UInt32.toNat_sub_of_le _ _ (UInt32.le_iff_toNat_le.mpr hpositive)
        omega
      · rename_i hleft hright
        rw [if_neg hright, if_neg hleft]
        exact hitems

/-- A control keyword with its parentheses and what they hold. -/
def IsControlHeader (header body : List Seen) : Prop :=
  ∃ keyword lparen rparen name, header = keyword :: lparen :: (body ++ [rparen]) ∧
    keyword.token? = some (.ident name) ∧ isControlKeyword name = true ∧
    lparen.token? = some .lParen ∧ rparen.token? = some .rParen

theorem isClassKeyword_of_isControlKeyword {name : String}
    (hname : isControlKeyword name = true) : isClassKeyword name = false := by
  have hmem := List.contains_iff_mem.mp hname
  fin_cases hmem <;> rfl

/-- A word that is no class keyword names nothing with what follows it. -/
theorem namesType_cons {item : Seen} (hitem : ∀ word, item.word? = some word →
      isClassKeyword word = false) (items : List Seen) :
    NamesType (item :: items) ↔ NamesType items := by
  have hwords : words (item :: items) = item.word?.toList ++ words items := by
    rw [words, List.filterMap_cons]
    cases item.word? <;> rfl
  rw [NamesType, NamesType, hwords]
  cases hword : item.word? with
  | none => rfl
  | some word =>
      constructor
      · rintro ⟨before, keyword, name, after, hsplit, hkeyword, hname⟩
        cases before with
        | nil =>
            rw [List.nil_append, Option.toList_some, List.singleton_append] at hsplit
            obtain ⟨rfl, -⟩ := List.cons.inj hsplit
            exact absurd hkeyword (by rw [hitem _ hword]; decide)
        | cons first before =>
            exact ⟨before, keyword, name, after, (List.cons.inj hsplit).2, hkeyword, hname⟩
      · rintro ⟨before, keyword, name, after, hsplit, hrest⟩
        exact ⟨word :: before, keyword, name, after, by rw [hsplit]; rfl, hrest⟩

section Kinds

variable {before header body : List Seen}

theorem prefix_upToBoundary (hstart : sinceBoundary before = []) (header : List Seen) :
    before <+: upToBoundary (before ++ header) := by
  have hwhole := upToBoundary_append_sinceBoundary (before ++ header)
  have hsince : (sinceBoundary (before ++ header)).length ≤ header.length := by
    rw [sinceBoundary_append, hstart, List.nil_append]
    split_ifs
    · exact (List.rtakeWhile_suffix _ _).length_le
    · exact le_rfl
  have hsum := congrArg List.length hwhole
  rw [List.length_append, List.length_append] at hsum
  exact List.prefix_of_prefix_length_le (List.prefix_append _ _) ⟨_, hwhole⟩ (by omega)

/-- Behind the parenthesis of a control header the depth is not zero before it is closed. -/
theorem depthAfter_control_ne_zero {keyword lparen : Seen} {name : String} {depth : UInt32}
    {inner : List Seen} (hkeyword : keyword.token? = some (.ident name))
    (hlparen : lparen.token? = some .lParen) (hbalanced : Balanced body)
    (hinner : inner <+: body) (hrange : depth.toNat + (opens body + 1) < 2 ^ 32) :
    depthAfter depth (keyword :: lparen :: inner) ≠ 0 := by
  intro hzero
  have hopens : opens inner ≤ opens body := hinner.sublist.countP_le
  have hdeeper : (deeper depth).toNat = depth.toNat + 1 := by
    rw [deeper, UInt32.toNat_add]
    exact Nat.mod_eq_of_lt (by simpa using (by omega : depth.toNat + 1 < 2 ^ 32))
  have hstep : depthAfter depth (keyword :: lparen :: inner) =
      depthAfter (deeper depth) inner := by
    simp [depthAfter, hkeyword, hlparen]
  have hfront : ∀ front, front <+: inner →
      closes front ≤ (deeper depth).toNat + opens front := by
    intro front hfront
    have hclosed := hbalanced.front front (hfront.trans hinner)
    omega
  have hcount := toNat_depthAfter hfront (by omega)
  have hclosed := hbalanced.front inner hinner
  rw [← hstep, hzero, hdeeper] at hcount
  have hnone : (0 : UInt32).toNat = 0 := rfl
  omega

/-- In a control header nothing is called at depth zero: its parenthesis stands
behind the keyword, and all others inside it. -/
theorem not_callsByName_of_control (hstart : sinceBoundary before = [])
    (hheader : IsControlHeader header body) (hbalanced : Balanced body)
    (hrange : (depthAfter 0 before).toNat + opens header < 2 ^ 32) :
    ¬CallsByName (depthAfter 0 (upToBoundary (before ++ header)))
      (sinceBoundary (before ++ header)) := by
  rintro ⟨prior, paren, after, called, hsplit, hparen, hdepth, hlast, hcalled, -⟩
  have hwhole := upToBoundary_append_sinceBoundary (before ++ header)
  rw [hsplit, ← List.append_assoc] at hwhole
  obtain ⟨inner, hinner⟩ : before <+: upToBoundary (before ++ header) ++ prior :=
    (prefix_upToBoundary hstart header).trans (List.prefix_append _ _)
  -- the last word before the parenthesis is also the last of the whole stream there
  have hlastWord : (idents (before ++ inner)).getLast? = some called := by
    rw [hinner, idents, List.filterMap_append, List.getLast?_append, ← idents, hlast]
    rfl
  have hzero : depthAfter (depthAfter 0 before) inner = 0 := by
    rw [← depthAfter_append, hinner, depthAfter_append]
    exact hdepth
  rw [← hinner, List.append_assoc] at hwhole
  have hrest := List.append_cancel_left hwhole
  obtain ⟨keyword, lparen, rparen, name, rfl, hkeyword, hname, hlparen, hrparen⟩ := hheader
  cases inner with
  | nil =>
      obtain ⟨rfl, -⟩ := List.cons.inj hrest
      rw [hkeyword] at hparen
      cases hparen
  | cons first inner =>
      obtain ⟨rfl, htail⟩ := List.cons.inj hrest
      clear hrest
      cases inner with
      | nil =>
          have hident : first.ident? = some name := by simp [Seen.ident?, hkeyword]
          rw [idents_concat, hident] at hlastWord
          simp only [Option.toList_some, List.getLast?_concat, Option.some.injEq] at hlastWord
          rw [← hlastWord, hname] at hcalled
          cases hcalled
      | cons second inner =>
          obtain ⟨rfl, hinside⟩ := List.cons.inj htail
          have hbody : inner <+: body := by
            cases after using List.reverseRecOn with
            | nil =>
                have hends := List.append_inj' hinside rfl
                rw [List.singleton_inj.mp hends.2, hrparen] at hparen
                cases hparen
            | append_singleton after last =>
                have hsame : (inner ++ paren :: after) ++ [last] = body ++ [rparen] := by
                  rw [← hinside]
                  simp
                exact ⟨_, (List.append_inj' hsame rfl).1⟩
          have hheader : opens (first :: second :: (body ++ [rparen])) = opens body + 1 := by
            simp [opens, hkeyword, hlparen, hrparen]
          rw [hheader] at hrange
          exact depthAfter_control_ne_zero hkeyword hlparen hbalanced hbody hrange hzero

theorem namesType_control (hstart : sinceBoundary before = [])
    (hheader : IsControlHeader header body) :
    NamesType (sinceBoundary (before ++ header)) ↔ NamesType (sinceBoundary body) := by
  obtain ⟨keyword, lparen, rparen, name, rfl, hkeyword, hname, hlparen, hrparen⟩ := hheader
  have hopen : lparen.isBoundary = false := by simp [Seen.isBoundary, hlparen]
  have hclose : rparen.isBoundary = false := by simp [Seen.isBoundary, hrparen]
  have hword : keyword.isBoundary = false := by simp [Seen.isBoundary, hkeyword]
  have hparen : ∀ paren : Seen, paren.token? = some .lParen ∨ paren.token? = some .rParen →
      paren.word? = none := by
    intro paren hparen
    cases paren with
    | annotationType here => simp [Seen.token?] at hparen
    | token here =>
        simp only [Seen.token?, Option.some.injEq] at hparen
        rcases hparen with htoken | htoken <;> simp [Seen.word?, Seen.ident?, Seen.token?, htoken]
  have hlast : NamesType (sinceBoundary (body ++ [rparen])) ↔
      NamesType (sinceBoundary body) := by
    rw [sinceBoundary_concat, hclose, if_neg Bool.false_ne_true,
      namesType_concat_of_no_word (hparen rparen (.inr hrparen))]
  rw [sinceBoundary_append, hstart, List.nil_append]
  cases hany : (body ++ [rparen]).any Seen.isBoundary with
  | true =>
      rw [if_pos (by simp [List.any_cons, hany]), ← hlast]
      have hmore := sinceBoundary_append [keyword, lparen] (body ++ [rparen])
      rw [if_pos hany] at hmore
      exact iff_of_eq (congrArg NamesType hmore)
  | false =>
      have hfree : ∀ item ∈ body ++ [rparen], item.isBoundary = false := by
        intro item hitem
        simpa using List.any_eq_false.mp hany item hitem
      have hself : sinceBoundary (body ++ [rparen]) = body ++ [rparen] := by
        rw [sinceBoundary, List.rtakeWhile_eq_self_iff]
        intro item hitem
        simp [hfree item hitem]
      rw [if_neg (by simp [List.any_cons, hany, hopen, hword]), ← hlast, hself,
        namesType_cons, namesType_cons]
      · simp [hparen lparen (.inl hlparen)]
      · intro word hkeywordWord
        have hsome : keyword.word? = some name := by
          cases keyword with
          | annotationType here => simp [Seen.token?] at hkeyword
          | token here => simp [Seen.word?, Seen.ident?, hkeyword]
        rw [hsome, Option.some.injEq] at hkeywordWord
        exact hkeywordWord ▸ isClassKeyword_of_isControlKeyword hname

/-- The brace of a control block: only a type named in its condition matters. -/
theorem plain_control (hstart : sinceBoundary before = [])
    (hheader : IsControlHeader header body) (hbalanced : Balanced body)
    (hrange : (depthAfter 0 before).toNat + opens header < 2 ^ 32) :
    Plain (before ++ header) ↔ ¬NamesType (sinceBoundary body) := by
  rw [Plain, namesType_control hstart hheader]
  exact and_iff_left (.inr (not_callsByName_of_control hstart hheader hbalanced hrange))

/-- The brace of a lambda body: the arrow stands before it. -/
theorem plain_lambda (stream : List Seen) {arrow : Seen} (harrow : arrow.token? = some .arrow) :
    Plain (stream ++ [arrow]) ↔ ¬NamesType (sinceBoundary stream) := by
  have hword : arrow.word? = none := by
    cases arrow with
    | annotationType here => simp [Seen.token?] at harrow
    | token here => simp [Seen.word?, Seen.ident?, harrow]
  have hboundary : arrow.isBoundary = false := by simp [Seen.isBoundary, harrow]
  rw [Plain, sinceBoundary_concat, hboundary, if_neg Bool.false_ne_true,
    namesType_concat_of_no_word hword, hasArrow_concat]
  exact and_iff_left (.inl (.inr harrow))

/-- The brace of an anonymous class: a call before its `new` matters. -/
theorem plain_anonymous (stream : List Seen) {new : Seen} {creation : List Seen}
    (hnew : new.ident? = some "new")
    (hcreation : ∀ item ∈ creation, item.isBoundary = false) :
    Plain (stream ++ new :: creation) ↔
      ¬NamesType (sinceBoundary stream ++ new :: creation) ∧
        (HasArrow (sinceBoundary stream ++ new :: creation) ∨
          ¬CallsByName (depthAfter 0 (upToBoundary stream)) (sinceBoundary stream)) := by
  have htoken : new.token? = some (.ident "new") := by
    rw [Seen.ident?] at hnew
    split at hnew
    · rename_i name hname
      rw [Option.some.inj hnew] at hname
      exact hname
    · cases hnew
  have hfree : (new :: creation).any Seen.isBoundary = false := by
    have hself : new.isBoundary = false := by simp [Seen.isBoundary, htoken]
    rw [List.any_cons, hself, Bool.false_or, List.any_eq_false]
    intro item hitem
    simp [hcreation item hitem]
  have hup : upToBoundary (stream ++ new :: creation) = upToBoundary stream := by
    have hwhole := upToBoundary_append_sinceBoundary (stream ++ new :: creation)
    rw [sinceBoundary_append, hfree, if_neg Bool.false_ne_true, ← List.append_assoc,
      List.append_left_inj] at hwhole
    exact List.append_cancel_right (hwhole.trans (upToBoundary_append_sinceBoundary stream).symm)
  have hcalls : CallsByName (depthAfter 0 (upToBoundary stream))
        (sinceBoundary stream ++ new :: creation) ↔
      CallsByName (depthAfter 0 (upToBoundary stream)) (sinceBoundary stream) := by
    constructor
    · rintro ⟨prior, paren, after, name, hsplit, hparen, hdepth, hlast, hname, hfresh⟩
      rcases List.append_eq_append_iff.mp hsplit with
        ⟨extra, rfl, hrest⟩ | ⟨extra, hsince, hrest⟩
      · cases extra with
        | nil =>
            obtain ⟨rfl, -⟩ := List.cons.inj hrest
            rw [htoken] at hparen
            cases hparen
        | cons first extra =>
            -- behind `new` no call is read
            obtain ⟨rfl, -⟩ := List.cons.inj hrest
            refine absurd ?_ hfresh
            rw [idents, List.filterMap_append, List.filterMap_cons, hnew]
            simp
      · cases extra with
        | nil =>
            obtain ⟨rfl, -⟩ := List.cons.inj hrest
            rw [htoken] at hparen
            cases hparen
        | cons first extra =>
            obtain ⟨rfl, -⟩ := List.cons.inj hrest
            exact ⟨prior, paren, extra, name, hsince, hparen, hdepth, hlast, hname, hfresh⟩
    · rintro ⟨prior, paren, after, name, hsplit, hrest⟩
      exact ⟨prior, paren, after ++ new :: creation, name, by rw [hsplit]; simp, hrest⟩
  rw [Plain, sinceBoundary_append, hfree, if_neg Bool.false_ne_true, hup, hcalls]

end Kinds

/-- A brace opens an unnamed scope without a declaration, exactly when it is plain:
for a control block when its condition names no type, for a lambda body when nothing
since the boundary does, and for an anonymous class when nothing is called outside
parentheses before its `new` either, unless there is an arrow. -/
theorem anonymous_blocks_iff (letters : Letters) (source : String) :
    (∀ stream line offset, OpensUnnamed letters source stream ⟨.lBrace, line, offset⟩ ↔
        Plain stream) ∧
      (∀ before header body, sinceBoundary before = [] → IsControlHeader header body →
        Balanced body → (depthAfter 0 before).toNat + opens header < 2 ^ 32 →
          (Plain (before ++ header) ↔ ¬NamesType (sinceBoundary body))) ∧
      (∀ stream arrow, arrow.token? = some .arrow →
        (Plain (stream ++ [arrow]) ↔ ¬NamesType (sinceBoundary stream))) ∧
      ∀ stream new creation, new.ident? = some "new" →
        (∀ item ∈ creation, item.isBoundary = false) →
          (Plain (stream ++ new :: creation) ↔
            ¬NamesType (sinceBoundary stream ++ new :: creation) ∧
              (HasArrow (sinceBoundary stream ++ new :: creation) ∨
                ¬CallsByName (depthAfter 0 (upToBoundary stream)) (sinceBoundary stream))) :=
  ⟨opensUnnamed_iff letters source, fun _ _ _ => plain_control, fun stream _ => plain_lambda stream,
    fun stream _ _ => plain_anonymous stream⟩

def classLiteralSource : String :=
  "class A \x7b void f(Class t) \x7b if (String.class == t) \x7b \x7d \x7d \x7d"

/-- A class literal in a condition: the block is a class by the name of what is
compared with it. -/
theorem class_literal_names_block :
    (javaDeclarations .ascii classLiteralSource).map (fun d => (d.kind, d.name)) =
        [(.classKind, "A"), (.method, "f"), (.classKind, "t")] ∧
      ∃ before header body line offset rest,
        seen (tokenize .ascii classLiteralSource) =
          before ++ header ++ .token ⟨.lBrace, line, offset⟩ :: rest ∧
        sinceBoundary before = [] ∧ IsControlHeader header body ∧ Balanced body ∧
        ¬OpensUnnamed .ascii classLiteralSource (before ++ header) ⟨.lBrace, line, offset⟩ := by
  refine ⟨by decide +kernel, (seen (tokenize .ascii classLiteralSource)).take 10,
    ((seen (tokenize .ascii classLiteralSource)).drop 10).take 8,
    ((seen (tokenize .ascii classLiteralSource)).drop 12).take 5, 1, 51,
    (seen (tokenize .ascii classLiteralSource)).drop 19, by decide +kernel, by decide +kernel,
    ?_, ?_, ?_⟩
  · exact ⟨.token ⟨.ident "if", 1, 28⟩, .token ⟨.lParen, 1, 31⟩, .token ⟨.rParen, 1, 49⟩, "if",
      by decide +kernel, rfl, rfl, rfl, rfl⟩
  · exact balanced_of_no_parens (by decide +kernel) (by decide +kernel)
  · rw [opensUnnamed_iff]
    rintro ⟨hnames, -⟩
    refine hnames ⟨["if", "String"], "class", "t", [], by decide +kernel, by decide, by decide⟩

end Ktsense.Core
