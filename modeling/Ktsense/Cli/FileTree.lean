import Ktsense.Cli.Outcome
import Ktsense.Core.Imports
import Ktsense.Foundation.Loop
import Ktsense.Foundation.LossyUtf8

/-!
# Paths and file trees

`std::path` and `std::fs` as far as `main.rs` uses them: a path is the list of
its components, and a tree is what the calls on it return, their failures
included.  A walk does not change the tree it reads.
-/

namespace Ktsense.Cli

open Ktsense.Core Ktsense.Foundation

/-! ## Paths -/

/-- A name that a directory can list: bytes, which need not be UTF-8. -/
structure FileName where
  bytes : List UInt8
  nonempty : bytes ≠ []
  noSlash : 0x2F ∉ bytes
  notDots : bytes ≠ [0x2E] ∧ bytes ≠ [0x2E, 0x2E]
  deriving DecidableEq

namespace FileName

/-- `OsStr::to_str`: nothing for a name that is not UTF-8. -/
def toStr (name : FileName) : Option String := fromUtf8 name.bytes

/-- `OsStr::to_string_lossy`. -/
def text (name : FileName) : String := fromUtf8Lossy name.bytes

end FileName

/-- `std::path::Component`, less the Windows prefixes. -/
inductive Component where
  | rootDir
  | curDir
  | parentDir
  | normal (name : FileName)
  deriving DecidableEq

abbrev Path := List Component

namespace Component

def text : Component → String
  | .rootDir => "/"
  | .curDir => "."
  | .parentDir => ".."
  | .normal name => name.text

def bytes : Component → List UInt8
  | .normal name => name.bytes
  | _ => []

/-- The derived order of `Component`: by variant, then by the bytes of the name. -/
def key (component : Component) : ℕ × List UInt8 := (component.ctorIdx, component.bytes)

end Component

namespace Path

/-- `Path::join` of a name. -/
def join (path : Path) (name : FileName) : Path := path ++ [.normal name]

/-- The path of a chain of names below another. -/
def below (path : Path) (names : List FileName) : Path :=
  path ++ names.map .normal

def fileName (path : Path) : Option FileName :=
  match path.getLast? with
  | some (.normal name) => some name
  | _ => none

/-- `Path::extension`: what stands behind the last dot, and nothing for a name whose
only dot is its first byte. -/
def extension (path : Path) : Option (List UInt8) :=
  path.fileName.bind fun name =>
    (splitOnce 0x2E name.bytes.reverse).bind fun (ending, stem) =>
      if stem = [] then none else some ending.reverse

/-- `Path::strip_prefix`. -/
def stripPrefix (path root : Path) : Option Path :=
  if root.isPrefixOf path then some (path.drop root.length) else none

def hasRoot (path : Path) : Bool := path.head? = some .rootDir

/-- The order of `PathBuf`. -/
def compare (left right : Path) : Ordering :=
  List.compareLex
    (fun first second => compareLex (compareOn Prod.fst) (compareOn Prod.snd)
      first.key second.key) left right

end Path

def joinComponents (path : Path) : String :=
  let joined := "/".intercalate
    ((path.filter (· ≠ .rootDir)).map Component.text)
  if path.hasRoot then "/" ++ joined else joined

/-- The path as it appears in output; `canonicalize` is `fs::canonicalize`, which
answers only for a path that exists. -/
def normalizedPath (canonicalize : Path → Option Path) (root path : Path) : String :=
  match path.stripPrefix root with
  | some relative => joinComponents relative
  | none =>
      let rootAnchor := (canonicalize root).getD root
      let pathAnchor := (canonicalize path).getD path
      joinComponents ((pathAnchor.stripPrefix rootAnchor).getD pathAnchor)

def hasKotlinExtension (file : Path) : Bool :=
  let ending := file.extension.bind fromUtf8
  ending = some "kt" || ending = some "kts"

/-! ## Trees -/

/-- `io::Error`: whether its kind is `NotFound`, and how it prints. -/
structure IoError where
  notFound : Bool
  text : String
  deriving DecidableEq, Repr

def notADirectory : IoError := ⟨false, "Not a directory (os error 20)"⟩

def isADirectory : IoError := ⟨false, "Is a directory (os error 21)"⟩

def CommandError.read (file : Path) (failure : IoError) : CommandError :=
  ⟨.failure,
    if failure.notFound then "ktsense: no such file: " ++ joinComponents file
    else "ktsense: cannot read " ++ joinComponents file ++ ": " ++ failure.text⟩

def CommandError.unparseable (file : Path) : CommandError :=
  ⟨.failure,
    if hasKotlinExtension file then
      "ktsense: " ++ joinComponents file ++
        " has Kotlin syntax errors and cannot be outlined"
    else
      "ktsense: " ++ joinComponents file ++
        " is not a Kotlin file (expected .kt or .kts) and could not be parsed"⟩

/-- What stands at a path.  A file holds what `read_to_string` returns, a
directory what `read_dir` fails with, if it does.  `special` is neither file,
directory nor link, and `unknown` is an entry with no metadata to read. -/
inductive Entry where
  | file (content : Except IoError String)
  | directory (failure : Option IoError) (children : List (FileName × Entry))
  | symlink (target : Entry)
  | special (content : Except IoError String)
  | unknown (failure : IoError)

mutual

def Entry.size : Entry → ℕ
  | .directory _ children => entrySizes children + 1
  | .symlink target => target.size + 1
  | _ => 1

def entrySizes : List (FileName × Entry) → ℕ
  | [] => 0
  | (_, entry) :: rest => entry.size + entrySizes rest

end

namespace Entry

/-- The entry that a call which follows links sees. -/
def behind : Entry → Entry
  | .symlink target => target.behind
  | entry => entry

/-- `FileType::is_dir` of the metadata of a link itself. -/
def isDir : Entry → Bool
  | .directory _ _ => true
  | _ => false

/-- `fs::read_dir`, all entries taken together. -/
def readDir (entry : Entry) : Except IoError (List (FileName × Entry)) :=
  match entry.behind with
  | .directory none children => .ok children
  | .directory (some failure) _ => .error failure
  | .unknown failure => .error failure
  | _ => .error notADirectory

/-- `fs::read_to_string`. -/
def readToString (entry : Entry) : Except IoError String :=
  match entry.behind with
  | .file content => content
  | .special content => content
  | .directory _ _ => .error isADirectory
  -- What stands behind links is no link.
  | .symlink _ => .error notADirectory
  | .unknown failure => .error failure

/-- The entry at the end of a chain of listed directories, none of them behind a
link. -/
def Holds (entry : Entry) : List FileName → FileName → Entry → Prop
  | [], name, found =>
      ∃ children, entry.readDir = .ok children ∧ (name, found) ∈ children
  | outer :: rest, name, found =>
      ∃ children, entry.readDir = .ok children ∧
        ∃ inner, (outer, inner) ∈ children ∧ inner.isDir = true ∧
          inner.Holds rest name found

theorem size_pos (entry : Entry) : 0 < entry.size := by
  cases entry <;> simp [size]

theorem size_behind_le (entry : Entry) : entry.behind.size ≤ entry.size := by
  fun_induction behind entry with
  | case1 target ih =>
      rw [size]
      exact ih.trans (Nat.le_succ _)
  | case2 entry hlink => exact le_refl _

/-- A directory is larger than all it lists. -/
theorem entrySizes_lt {entry : Entry} {children : List (FileName × Entry)}
    (hread : entry.readDir = .ok children) : entrySizes children < entry.size := by
  have hbehind := size_behind_le entry
  rw [readDir] at hread
  split at hread
  · rename_i listed hdirectory
    cases hread
    rw [hdirectory, size] at hbehind
    exact hbehind
  all_goals cases hread

end Entry

theorem entrySizes_perm {left right : List (FileName × Entry)}
    (hperm : left.Perm right) : entrySizes left = entrySizes right := by
  induction hperm with
  | nil => rfl
  | cons child _ ih => rw [entrySizes, entrySizes, ih]
  | swap first second rest =>
      rw [entrySizes, entrySizes, entrySizes, entrySizes]
      omega
  | trans _ _ ihleft ihright => exact ihleft.trans ihright

end Ktsense.Cli
