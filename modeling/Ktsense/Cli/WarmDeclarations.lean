import Ktsense.Cli.Collect
import Ktsense.Cli.Positions
import Ktsense.Cli.WarmCommands
import Ktsense.Foundation.OrderedMap

/-!
# Declarations from a warm index

`symbols.rs` of the daemon beside `find` of the engine's command mode.  The engine answers with
every symbol whose name mentions the query, from inside the root and outside, and stops at a
cap; what it cannot answer completely is asked of `find` instead.
-/

namespace Ktsense.Cli.Warm

open Ktsense.Foundation Ktsense.Core Ktsense.Lsp

def workspaceSymbolCap : ℕ := 512

structure ReportedSymbol where
  name : String
  uri : String
  start : Position
  deriving DecidableEq, Repr

inductive Inconclusive where
  | truncated (returned : ℕ)
  | unindexed
  | failed (reason : String)
  deriving DecidableEq, Repr

inductive WarmResolution where
  | declarations (candidates : List SymbolCandidate)
  | inconclusive (reason : Inconclusive)
  deriving DecidableEq, Repr

/-- `Path::components`: a root, and what stands between slashes other than a dot. -/
def pathComponents (path : String) : List String :=
  match splitSlash path with
  | [] => []
  | [only] => if only = "" then [] else [only]
  | first :: rest =>
      (if first = "" then "/" else first) :: rest.filter fun part => part ≠ "" && part ≠ "."

/-- `Path::starts_with`. -/
def pathStartsWith (path base : String) : Bool :=
  (pathComponents base).isPrefixOf (pathComponents path)

section Resolving

variable (canonicalize : String → Option String) (isAlphanumeric : Char → Bool)
  (read : String → Option String)

def isUnder (root path : String) : Bool :=
  pathStartsWith path root || (canonicalize path).any (pathStartsWith · root)

def canonical (root : String) : String := (canonicalize root).getD root

def declarationsInRoot (name root : String) (reported : List ReportedSymbol) :
    List SymbolCandidate :=
  let root := canonical canonicalize root
  ((reported.filter fun entry => entry.name = name).filter fun entry =>
    isUnder canonicalize root (uriToPath entry.uri)).map fun entry =>
      candidateAt isAlphanumeric read name entry.start (uriToPath entry.uri)

def classify (name root : String) (reported : List ReportedSymbol) : WarmResolution :=
  if workspaceSymbolCap ≤ reported.length then .inconclusive (.truncated reported.length)
  else
    let declarations := declarationsInRoot canonicalize isAlphanumeric read name root reported
    if declarations.isEmpty then .inconclusive .unindexed else .declarations declarations

/-- What `resolve_from_warm_index` makes of an answer.  A `null` is an empty list. -/
def resolution (deserialize : Json → Except String (Option (List ReportedSymbol)))
    (name root : String) (answer : Json) : WarmResolution :=
  match deserialize answer with
  | .ok reported => classify canonicalize isAlphanumeric read name root (reported.getD [])
  | .error failure =>
      .inconclusive (.failed ("unexpected workspace/symbol response: " ++ failure))

/-- The candidates that a warm answer settles on. -/
def WarmResolution.settled : WarmResolution → Option (List SymbolCandidate)
  | .declarations candidates => some candidates
  | .inconclusive _ => none

/-- The lookup of a warm trace, with everything else as given. -/
def TraceParts.lookingUp {Target Site Caller Report : Type}
    (parts : TraceParts SymbolCandidate Target Site Caller Report)
    (deserialize : Json → Except String (Option (List ReportedSymbol))) :
    TraceParts SymbolCandidate Target Site Caller Report :=
  { parts with
    declarations := fun request answer =>
      (resolution canonicalize isAlphanumeric read deserialize (lastSegment request.symbol)
        request.root answer).settled }

end Resolving

/-! ## Command mode -/

section CommandMode

variable (isAlphanumeric : Char → Bool) (read : String → Option String)

/-- The turn of the loop of `correct_columns`, with the sources that were read. -/
def correctColumn (state : OrderedMap String (Option String) × List SymbolCandidate)
    (candidate : SymbolCandidate) :
    OrderedMap String (Option String) × List SymbolCandidate :=
  let source := (state.1.get? candidate.file).getD (read candidate.file)
  let column := source.bind fun text =>
    nameColumnInSource isAlphanumeric text
      (.fromCommandMode candidate.line candidate.col) candidate.name
  (state.1.insert candidate.file source,
    state.2 ++ [{ candidate with col := column.getD candidate.col }])

def correctColumns (candidates : List SymbolCandidate) : List SymbolCandidate :=
  (candidates.foldl (correctColumn isAlphanumeric read) (.empty, [])).2

/-- A candidate with the column of its name, as its file says. -/
def corrected (candidate : SymbolCandidate) : SymbolCandidate :=
  let column := nameColumnNear isAlphanumeric read candidate.file
    (.fromCommandMode candidate.line candidate.col) candidate.name
  { candidate with col := column.getD candidate.col }

/-- A source that was kept is the one that would be read. -/
theorem correctColumns_eq_map (candidates : List SymbolCandidate) :
    correctColumns isAlphanumeric read candidates =
      candidates.map (corrected isAlphanumeric read) := by
  have hloop (sources : OrderedMap String (Option String)) (done : List SymbolCandidate)
      (hsources : ∀ file source, sources.get? file = some source → source = read file) :
      (candidates.foldl (correctColumn isAlphanumeric read) (sources, done)).2 =
        done ++ candidates.map (corrected isAlphanumeric read) := by
    induction candidates generalizing sources done with
    | nil => exact (List.append_nil done).symm
    | cons candidate rest ih =>
        have hsource : (sources.get? candidate.file).getD (read candidate.file) =
            read candidate.file := by
          cases hheld : sources.get? candidate.file with
          | none => rfl
          | some source => exact hsources _ _ hheld
        rw [List.foldl_cons, correctColumn, hsource, ih, List.map_cons, List.append_assoc]
        · rfl
        · intro file source hget
          rw [OrderedMap.get?_insert] at hget
          split_ifs at hget with hfile
          · rw [hfile]
            exact (Option.some.inj hget).symm
          · exact hsources file source hget
  exact hloop .empty [] (by simp)

end CommandMode

/-! ## Two accounts of the same declarations -/

section Agreement

variable {isAlphanumeric : Char → Bool} {read : String → Option String}

/-- The candidate of a declaration: the column of its name, in characters. -/
def declaredAt (declared : NameOccurrence isAlphanumeric read) :
    SymbolCandidate :=
  ⟨declared.name, declared.path, declared.line + 1, declared.start + 1⟩

/-- Lines and columns are words of 32 bits. -/
def Addressable (declared : NameOccurrence isAlphanumeric read) : Prop :=
  declared.line < u32Max ∧ declared.character < u32Max

/-- The engine points at the name, in UTF-16 units. -/
def PointsAt (entry : ReportedSymbol) (declared : NameOccurrence isAlphanumeric read) : Prop :=
  uriToPath entry.uri = declared.path ∧ entry.start = ⟨declared.line, declared.character⟩

/-- `find` points so close to the name that it stands nowhere else on the line as close. -/
structure PointsNear (found : SymbolCandidate) (declared : NameOccurrence isAlphanumeric read) :
    Prop where
  name : found.name = declared.name
  file : found.file = declared.path
  line : found.line = declared.line + 1
  nearest : ∀ other, NamedAt isAlphanumeric declared.text declared.name other →
    Nat.dist (other + 1) found.col ≤ Nat.dist (declared.start + 1) found.col →
      other = declared.start

theorem candidateAt_declared {declared : NameOccurrence isAlphanumeric read}
    (hfits : Addressable declared) :
    candidateAt isAlphanumeric read declared.name ⟨declared.line, declared.character⟩
      declared.path = declaredAt declared := by
  have hcolumn := nameColumnInSource_fromLsp declared.name_ne declared.letters
    declared.line_text declared.named hfits.1 hfits.2
  rw [← nameColumnNear_of_read declared.read_path] at hcolumn
  have hnumber : saturatingAdd declared.line 1 = declared.line + 1 := min_eq_left hfits.1
  simp only [candidateAt, NameOccurrence.character] at hcolumn ⊢
  rw [hcolumn, ReportedPosition.fromLsp, hnumber]
  rfl

theorem corrected_declared {declared : NameOccurrence isAlphanumeric read}
    {found : SymbolCandidate} (hfits : Addressable declared) (hnear : PointsNear found declared) :
    corrected isAlphanumeric read found = declaredAt declared := by
  have hinside : declared.start < declared.text.toList.length :=
    declared.named.occurs.lt_length fun hnil =>
      declared.name_ne (String.toList_eq_nil_iff.mp hnil)
  have hlast : declared.start + 1 ≤ u32Max := by
    have hbound := length_le_utf16Length (declared.text.toList.take declared.start)
    rw [List.length_take, min_eq_left hinside.le] at hbound
    exact Nat.lt_of_le_of_lt hbound hfits.2
  have hline : lineAt declared.source (declared.line + 1) = some declared.text := by
    rw [lineAt, if_neg (Nat.succ_ne_zero _)]
    exact declared.line_text
  have hcolumn : nameColumnInSource isAlphanumeric declared.source
      (.fromCommandMode (declared.line + 1) found.col) declared.name =
        some (declared.start + 1) :=
    nameColumnInSource_eq_some declared.name_ne declared.letters hline declared.named hlast
      hnear.nearest
  rw [← nameColumnNear_of_read declared.read_path] at hcolumn
  rw [corrected, hnear.name, hnear.file, hnear.line, hcolumn]
  rfl

/-- Candidates of a session are those that its one answer settles on. -/
theorem settled_of_runs {Candidate Target Site Caller Report S : Type}
    {parts : TraceParts Candidate Target Site Caller Report} {request : TraceRequest}
    {completeness : IndexCompleteness}
    {answers : S → EngineRequest → Except LspError Json → S → Prop} {state last : S}
    {exchanges : List (EngineRequest × Except LspError Json)} {candidates : List Candidate}
    (hruns : Dialogue.Runs answers (declarationsFromIndex parts request completeness) state
      exchanges (some candidates) last) :
    ∃ question answer after, answers state question (.ok answer) after ∧
      parts.declarations request answer = some candidates := by
  rw [declarationsFromIndex] at hruns
  split_ifs at hruns with hcomplete
  · cases hruns
  · cases hruns with
    | @ask question answer next _ after _ _ _ hanswer hnext =>
        cases answer with
        | error failure => cases hnext
        | ok answer =>
            have hdone : Dialogue.Runs answers (.done (parts.declarations request answer)) _
                _ (some candidates) last := hnext
            generalize hlooked : parts.declarations request answer = looked at hdone
            cases hdone
            exact ⟨_, answer, _, hanswer, hlooked⟩

variable {canonicalize : String → Option String} {name root : String}

/-- What the session and the command know of a name: the same declarations under the root,
the command in an order of its own. -/
structure SameDeclarations (canonicalize : String → Option String) (name root : String)
    (index : List ReportedSymbol) (found : List SymbolCandidate)
    (declared : List (NameOccurrence isAlphanumeric read)) : Prop where
  named : ∀ one ∈ declared, one.name = name ∧ Addressable one
  session : List.Forall₂ PointsAt
    ((index.filter fun entry => entry.name = name).filter fun entry =>
      isUnder canonicalize (canonical canonicalize root) (uriToPath entry.uri)) declared
  command : ∃ order, order.Perm declared ∧ List.Forall₂ PointsNear found order

/-- The session answers with what mentions the query, as far as the cap goes. -/
def mentioned (mentions : String → String → Bool) (name : String)
    (index : List ReportedSymbol) : List ReportedSymbol :=
  index.filter fun entry => mentions name entry.name

theorem map_eq_of_forall₂ {A B C : Type*} {related : A → B → Prop} {left : A → C}
    {right : B → C} {first : List A} {second : List B}
    (hrelated : List.Forall₂ related first second)
    (hsame : ∀ one ∈ second, ∀ other, related other one → left other = right one) :
    first.map left = second.map right := by
  induction hrelated with
  | nil => rfl
  | cons hhead htail ih =>
      rw [List.map_cons, List.map_cons, hsame _ List.mem_cons_self _ hhead,
        ih fun one hone => hsame one (List.mem_cons_of_mem _ hone)]

variable {index : List ReportedSymbol} {found : List SymbolCandidate}
  {declared : List (NameOccurrence isAlphanumeric read)}
  (hsame : SameDeclarations canonicalize name root index found declared)

include hsame

/-- The whole index leads to the declarations. -/
theorem declarationsInRoot_eq :
    declarationsInRoot canonicalize isAlphanumeric read name root index =
      declared.map declaredAt := by
  apply map_eq_of_forall₂ hsame.session
  rintro one hone entry ⟨hpath, hstart⟩
  obtain ⟨hname, hfits⟩ := hsame.named one hone
  rw [hpath, hstart, ← hname]
  exact candidateAt_declared hfits

theorem correctColumns_perm :
    (correctColumns isAlphanumeric read found).Perm (declared.map declaredAt) := by
  obtain ⟨order, horder, hfound⟩ := hsame.command
  have hmap : found.map (corrected isAlphanumeric read) = order.map declaredAt := by
    apply map_eq_of_forall₂ hfound
    intro one hone other hnear
    exact corrected_declared (hsame.named one (horder.mem_iff.mp hone)).2 hnear
  rw [correctColumns_eq_map, hmap]
  exact horder.map declaredAt

variable {mentions : String → String → Bool} (hmentions : mentions name name = true)

include hmentions

/-- Narrowing what mentions the name is narrowing the index. -/
theorem declarationsInRoot_mentioned :
    declarationsInRoot canonicalize isAlphanumeric read name root
        (mentioned mentions name index) = declared.map declaredAt := by
  have hexact : (mentioned mentions name index).filter (fun entry => entry.name = name) =
      index.filter fun entry => entry.name = name := by
    rw [mentioned, List.filter_filter]
    apply List.filter_congr
    intro entry _
    by_cases hname : entry.name = name
    · rw [hname, hmentions, Bool.and_true]
    · rw [decide_eq_false hname, Bool.false_and]
  rw [← declarationsInRoot_eq hsame, declarationsInRoot, declarationsInRoot, hexact]

/-- An answer that the cap may have cut is never taken for the whole, and one that it has not
cut holds every declaration. -/
theorem classify_mentioned :
    classify canonicalize isAlphanumeric read name root
        ((mentioned mentions name index).take workspaceSymbolCap) =
      if workspaceSymbolCap ≤ (mentioned mentions name index).length then
        .inconclusive (.truncated workspaceSymbolCap)
      else if declared.isEmpty then .inconclusive .unindexed
      else .declarations (declared.map declaredAt) := by
  rw [classify, List.length_take]
  by_cases hcap : workspaceSymbolCap ≤ (mentioned mentions name index).length
  · rw [min_eq_left hcap, if_pos le_rfl, if_pos hcap]
  · rw [min_eq_right (not_le.mp hcap).le, if_neg hcap, if_neg hcap,
      List.take_of_length_le (not_le.mp hcap).le,
      declarationsInRoot_mentioned hsame hmentions]
    cases declared <;> rfl

variable {deserialize : Json → Except String (Option (List ReportedSymbol))}

/-- An answer that settles on candidates settles on the declarations. -/
theorem settled_declared {answer : Json} {candidates : List SymbolCandidate}
    (hanswer : ∀ reported, deserialize answer = .ok reported →
      reported.getD [] = (mentioned mentions name index).take workspaceSymbolCap)
    (hsettled : (resolution canonicalize isAlphanumeric read deserialize name root
      answer).settled = some candidates) : candidates = declared.map declaredAt := by
  rw [resolution] at hsettled
  cases hread : deserialize answer with
  | error failure =>
      rw [hread] at hsettled
      cases hsettled
  | ok reported =>
      rw [hread] at hsettled
      simp only at hsettled
      rw [hanswer _ hread, classify_mentioned hsame hmentions] at hsettled
      split_ifs at hsettled
      · cases hsettled
      · cases hsettled
      · exact (Option.some.inj hsettled).symm

variable {Target Site Caller Report S : Type}
  {parts : TraceParts SymbolCandidate Target Site Caller Report}
  {answers : S → EngineRequest → Except LspError Json → S → Prop}

/-- Whether the index is complete or not, the session answers or not, in full or cut short:
the candidates of a warm trace are those of `find`. -/
theorem warm_agrees_with_find {request : TraceRequest} {completeness : IndexCompleteness}
    {state last : S} {exchanges : List (EngineRequest × Except LspError Json)}
    {result : Except CommandError (List SymbolCandidate)}
    (hname : lastSegment request.symbol = name) (hroot : request.root = root)
    (hanswers : ∀ before question answer after, answers before question (.ok answer) after →
      ∀ reported, deserialize answer = .ok reported →
        reported.getD [] = (mentioned mentions name index).take workspaceSymbolCap)
    (hfind : parts.find request = .ok (correctColumns isAlphanumeric read found))
    (hruns : Dialogue.Runs answers
      (warmDeclarations (parts.lookingUp canonicalize isAlphanumeric read deserialize) request
        completeness) state exchanges result last) :
    ∃ candidates, result = .ok candidates ∧
      candidates.Perm (correctColumns isAlphanumeric read found) := by
  obtain ⟨inner, hresult, hinner⟩ := hruns.of_map
  cases inner with
  | none => exact ⟨_, hresult.trans hfind, List.Perm.rfl⟩
  | some candidates =>
      obtain ⟨question, answer, after, hanswer, hsettled⟩ := settled_of_runs hinner
      have hcandidates : candidates = declared.map declaredAt := by
        simp only [TraceParts.lookingUp, hname, hroot] at hsettled
        exact settled_declared hsame hmentions (hanswers _ _ _ _ hanswer) hsettled
      exact ⟨candidates, hresult, hcandidates ▸ (correctColumns_perm hsame).symm⟩

end Agreement

/-! A name behind a character of two code units, where `find` points at the keyword. -/

def valueRequest : TraceRequest :=
  ⟨"/work", "Main.value", none, 1, none, .capped, .md, none⟩

def valueIndex : List ReportedSymbol :=
  [⟨"valueOf", "file:///work/Other.kt", ⟨3, 4⟩⟩, ⟨"value", "file:///work/Main.kt", ⟨0, 13⟩⟩]

/-- A case-insensitive search for the query in the name. -/
def mentionsText (query name : String) : Bool :=
  (findSubslice query.toLower.toList name.toLower.toList).isSome

def readMain (_ : String) : Option String := some "/* 𝕊 */ fun value() = 1"

def valueFound : List SymbolCandidate := [⟨"value", "/work/Main.kt", 1, 9⟩]

def valueParts : TraceParts SymbolCandidate Unit Unit Unit Unit where
  awaitIndex _ := .complete
  declarations _ _ := none
  find _ := .ok (correctColumns Char.isAlphanum readMain valueFound)
  select _ _ := .ok .notFound
  positionParams _ := .null
  referenceParams _ := .null
  sites _ := .ok []
  build _ _ _ _ := ()
  directCallers _ := []
  callerParams _ := none
  callersAt _ _ := []
  sorted callers := callers
  deepen report callers := (callers, report)
  present _ _ := .error ⟨.failure, ""⟩
  textReferences _ := .error ⟨.failure, ""⟩
  durationText _ := ""

theorem value_known_to_both :
    SameDeclarations some "value" "/work" valueIndex valueFound [astralOccurrence] where
  named one hone := by
    rw [List.mem_singleton.mp hone]
    exact ⟨rfl, by decide, by decide⟩
  session := by
    have hindex : (valueIndex.filter fun entry => entry.name = "value").filter (fun entry =>
        isUnder some (canonical some "/work") (uriToPath entry.uri)) =
          [⟨"value", "file:///work/Main.kt", ⟨0, 13⟩⟩] := by decide +kernel
    rw [hindex]
    exact .cons ⟨by decide +kernel, by decide +kernel⟩ .nil
  command := by
    refine ⟨_, .rfl, .cons ⟨rfl, rfl, rfl, fun other hother _ => ?_⟩ .nil⟩
    have hmem := mem_matchIndices_of_wholeWord (by decide) astralOccurrence.letters hother
    have honly : matchIndices astralOccurrence.name.toList
        astralOccurrence.text.toList = [12] := by
      decide +kernel
    rw [honly] at hmem
    exact List.mem_singleton.mp hmem

def readIndex (_ : Json) : Except String (Option (List ReportedSymbol)) :=
  .ok (some valueIndex)

def valueLookup : TraceParts SymbolCandidate Unit Unit Unit Unit :=
  valueParts.lookingUp some Char.isAlphanum readMain readIndex

def answersNull (_ : Unit) (_ : EngineRequest) (answer : Except LspError Json) (_ : Unit) :
    Prop := answer = .ok .null

theorem warm_agrees_with_find_value :
    ∃ candidates, (.ok [⟨"value", "/work/Main.kt", 1, 13⟩] :
        Except CommandError (List SymbolCandidate)) = .ok candidates ∧
      candidates.Perm (correctColumns Char.isAlphanum readMain valueFound) := by
  have hmentions : mentionsText "value" "value" = true := by decide +kernel
  have hanswer : (mentioned mentionsText "value" valueIndex).take workspaceSymbolCap =
      valueIndex := by decide +kernel
  have hsettled : valueLookup.declarations valueRequest .null =
      some [⟨"value", "/work/Main.kt", 1, 13⟩] := by decide +kernel
  have hinner : Dialogue.Runs answersNull
      (declarationsFromIndex valueLookup valueRequest .complete) ()
      [(⟨"workspace/symbol", .obj [("query", .str "value")]⟩, .ok .null)]
      (some [⟨"value", "/work/Main.kt", 1, 13⟩]) () := by
    have hdone : Dialogue.Runs answersNull
        (.done (valueLookup.declarations valueRequest .null)) () []
        (some [⟨"value", "/work/Main.kt", 1, 13⟩]) () := by
      rw [hsettled]
      exact .done _ ()
    exact .ask rfl hdone
  apply warm_agrees_with_find value_known_to_both hmentions rfl rfl _ rfl (hinner.map _)
  rintro before question answer after - reported hreported
  cases hreported
  exact hanswer.symm

end Ktsense.Cli.Warm
