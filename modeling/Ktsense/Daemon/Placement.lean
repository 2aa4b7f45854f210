import Ktsense.Foundation.Fnv
import Ktsense.Foundation.LossyUtf8

/-!
# Where a daemon's socket goes

`placement.rs`, with the directory and the name of a socket from `lib.rs`.  A socket that
does not fit the budget of an address goes to a short base instead, into a directory named by
the one it was refused in.  Paths are bytes, as addresses are.
-/

namespace Ktsense.Daemon.Placement

open Ktsense.Foundation

abbrev Path := List UInt8

def maxSocketPath : ℕ := 103

def companionReserve : ℕ := 8

def socketBudget : ℕ := maxSocketPath - companionReserve

/-- `Path::join` with a name that is relative. -/
def join (base name : Path) : Path :=
  if base = [] ∨ base.getLast? = some 0x2F then base ++ name else base ++ 0x2F :: name

def pathKey (path : Path) : Path := hexText (fnv (utf8 (fromUtf8Lossy path)))

def socketDir (xdgRuntimeDir : Option Path) (home : Path) : Path :=
  match xdgRuntimeDir with
  | some runtime => join runtime (utf8 "ktsense")
  | none => join (join (join home (utf8 ".cache")) (utf8 "ktsense")) (utf8 "run")

def socketPath (dir workspaceRoot : Path) : Path :=
  join dir (pathKey workspaceRoot ++ utf8 ".sock")

inductive BaseFault where
  | foreignOwner (uid : UInt32)
  | writableByOthers (mode : UInt32)
  | symlink
  | notADirectory
  deriving DecidableEq, Repr

structure Base where
  symlink : Bool
  directory : Bool
  uid : UInt32
  mode : UInt32
  deriving DecidableEq, Repr

/-- What `symlink_metadata` says of the short base. -/
inductive Inspection where
  | found (base : Base)
  | notFound
  | unreadable (source : String)

inductive SocketPlacementError where
  | noShortPath (preferred : Path) (preferredLen : ℕ) (fallback : Path) (fallbackLen : ℕ)
  | unsafeShortBase (base : Path) (fault : BaseFault)
  | unreadableShortBase (base : Path) (source : String)

def faultIn (base : Base) (current : UInt32) : Option BaseFault :=
  if base.symlink then some .symlink
  else if !base.directory then some .notADirectory
  else if base.uid ≠ current then some (.foreignOwner base.uid)
  else if base.mode &&& 0o022 ≠ 0 then some (.writableByOthers (base.mode &&& 0o7777))
  else none

def withinBudget (path : Path) : Bool := path.length ≤ socketBudget

section Resolving

variable (inspect : Path → Inspection) (currentUid : UInt32)

def acceptShortBase (base : Path) : Except SocketPlacementError Unit :=
  match inspect base with
  | .found found =>
      match faultIn found currentUid with
      | some fault => .error (.unsafeShortBase base fault)
      | none => .ok ()
  | .notFound => .ok ()
  | .unreadable source => .error (.unreadableShortBase base source)

/-- The directory under the short base for a directory that was refused. -/
def fallbackDir (shortBase preferredDir : Path) : Path := join shortBase (pathKey preferredDir)

def resolveSocketPath (xdgRuntimeDir : Option Path) (home shortBase workspaceRoot : Path) :
    Except SocketPlacementError Path :=
  let preferredDir := socketDir xdgRuntimeDir home
  let preferred := socketPath preferredDir workspaceRoot
  if withinBudget preferred then .ok preferred
  else
    let fallback := socketPath (fallbackDir shortBase preferredDir) workspaceRoot
    if !withinBudget fallback then
      .error (.noShortPath preferred preferred.length fallback fallback.length)
    else (acceptShortBase inspect currentUid shortBase).map fun _ => fallback

end Resolving

def shortSocketBase (currentUid : UInt32) : Path :=
  utf8 "/tmp/ktsense-" ++ utf8 (toString currentUid.toNat)

/-- The claim beside a socket, `<socket>.start`. -/
def claimPath (socket : Path) : Path := socket ++ utf8 ".start"

/-! ## The shape of a socket's path -/

theorem length_pathKey (path : Path) : (pathKey path).length = 16 := length_hexDigits _ _

theorem length_join_le (base name : Path) :
    (join base name).length ≤ base.length + 1 + name.length := by
  rw [join]
  split
  · rw [List.length_append]
    omega
  · rw [List.length_append, List.length_cons]
    omega

/-- A directory that ends in a name and not in a separator. -/
def EndsInName (dir : Path) : Prop := ∃ last, dir.getLast? = some last ∧ last ≠ 0x2F

theorem join_of_endsInName {dir : Path} (hdir : EndsInName dir) (name : Path) :
    join dir name = dir ++ 0x2F :: name := by
  obtain ⟨last, hlast, hne⟩ := hdir
  rw [join, if_neg]
  rintro (rfl | hslash)
  · cases hlast
  · exact hne (Option.some.inj (hlast.symm.trans hslash))

theorem suffix_join (base name : Path) : name <:+ join base name := by
  rw [join]
  split
  · exact List.suffix_append _ _
  · exact (List.suffix_cons _ _).trans (List.suffix_append _ _)

theorem endsInName_of_suffix {dir name : Path} (hsuffix : name <:+ dir)
    (hname : EndsInName name) : EndsInName dir := by
  obtain ⟨before, rfl⟩ := hsuffix
  obtain ⟨last, hlast, hne⟩ := hname
  refine ⟨last, ?_, hne⟩
  rw [List.getLast?_append, hlast, Option.some_or]

/-- What a preferred directory ends in. -/
theorem suffix_socketDir (xdgRuntimeDir : Option Path) (home : Path) :
    ∃ name, (name = utf8 "ktsense" ∨ name = utf8 "run") ∧
      name <:+ socketDir xdgRuntimeDir home := by
  cases xdgRuntimeDir with
  | some runtime => exact ⟨_, .inl rfl, suffix_join _ _⟩
  | none => exact ⟨_, .inr rfl, suffix_join _ _⟩

theorem endsInName_socketDir (xdgRuntimeDir : Option Path) (home : Path) :
    EndsInName (socketDir xdgRuntimeDir home) := by
  obtain ⟨name, hname, hsuffix⟩ := suffix_socketDir xdgRuntimeDir home
  refine endsInName_of_suffix hsuffix ?_
  rcases hname with rfl | rfl
  · exact ⟨0x65, rfl, by decide⟩
  · exact ⟨0x6E, rfl, by decide⟩

theorem isHexDigit_of_mem_pathKey {path : Path} {byte : UInt8} (hmem : byte ∈ pathKey path) :
    isHexDigit byte = true := isHexDigit_of_mem hmem

theorem endsInName_pathKey (path : Path) : EndsInName (pathKey path) := by
  have hne : pathKey path ≠ [] := by
    intro hnil
    have hlength := length_pathKey path
    rw [hnil] at hlength
    cases hlength
  have hlast := List.getLast?_eq_some_getLast hne
  refine ⟨_, hlast, fun hslash => ?_⟩
  have hhex := isHexDigit_of_mem_pathKey (List.mem_of_getLast? hlast)
  rw [hslash] at hhex
  exact absurd hhex (by decide)

theorem endsInName_fallbackDir (shortBase preferredDir : Path) :
    EndsInName (fallbackDir shortBase preferredDir) :=
  endsInName_of_suffix (suffix_join _ _) (endsInName_pathKey _)

/-- No preferred directory is one for a fallback: its last name is no key. -/
theorem socketDir_ne_fallbackDir (xdgRuntimeDir : Option Path)
    (home shortBase preferredDir : Path) :
    socketDir xdgRuntimeDir home ≠ fallbackDir shortBase preferredDir := by
  intro heq
  obtain ⟨name, hname, hsuffix⟩ := suffix_socketDir xdgRuntimeDir home
  rw [heq] at hsuffix
  have hlength : name.length ≤ (pathKey preferredDir).length := by
    rw [length_pathKey]
    rcases hname with rfl | rfl <;> decide
  have hkey : name <:+ pathKey preferredDir :=
    List.suffix_of_suffix_length_le hsuffix (suffix_join _ _) hlength
  have hhex : ∀ byte ∈ name, isHexDigit byte = true := fun byte hbyte =>
    isHexDigit_of_mem_pathKey (hkey.subset hbyte)
  rcases hname with rfl | rfl
  · exact absurd (hhex 0x73 (by decide)) (by decide)
  · exact absurd (hhex 0x72 (by decide)) (by decide)

theorem socketPath_eq {dir : Path} (hdir : EndsInName dir) (workspaceRoot : Path) :
    socketPath dir workspaceRoot = dir ++ 0x2F :: (pathKey workspaceRoot ++ utf8 ".sock") :=
  join_of_endsInName hdir _

theorem length_socketPath {dir : Path} (hdir : EndsInName dir) (workspaceRoot : Path) :
    (socketPath dir workspaceRoot).length = dir.length + 22 := by
  rw [socketPath_eq hdir, List.length_append, List.length_cons, List.length_append,
    length_pathKey]
  rfl

theorem socketPath_inj {first second : Path} (hfirst : EndsInName first)
    (hsecond : EndsInName second) (firstRoot secondRoot : Path) :
    socketPath first firstRoot = socketPath second secondRoot ↔
      first = second ∧ pathKey firstRoot = pathKey secondRoot := by
  constructor
  · intro heq
    rw [socketPath_eq hfirst, socketPath_eq hsecond] at heq
    have hlength : (0x2F :: (pathKey firstRoot ++ utf8 ".sock")).length =
        (0x2F :: (pathKey secondRoot ++ utf8 ".sock")).length := by
      simp [length_pathKey]
    obtain ⟨hdir, hname⟩ := List.append_inj' heq hlength
    exact ⟨hdir, List.append_cancel_right (List.cons.inj hname).2⟩
  · rintro ⟨rfl, hkey⟩
    rw [socketPath, socketPath, hkey]

theorem pathKey_inj {first second : Path} : pathKey first = pathKey second ↔
    fnv (utf8 (fromUtf8Lossy first)) = fnv (utf8 (fromUtf8Lossy second)) :=
  hexText_injective.eq_iff

/-! ## What is placed -/

section Placed

variable {inspect : Path → Inspection} {currentUid : UInt32}
  {xdgRuntimeDir : Option Path} {home shortBase workspaceRoot path : Path}

/-- The preferred socket fits. -/
def Preferred (xdgRuntimeDir : Option Path) (home workspaceRoot : Path) : Prop :=
  (socketPath (socketDir xdgRuntimeDir home) workspaceRoot).length ≤ socketBudget

/-- What a placement is: the preferred socket where it fits, else the fallback where that
fits and the base is safe. -/
theorem resolveSocketPath_eq_ok :
    resolveSocketPath inspect currentUid xdgRuntimeDir home shortBase workspaceRoot =
        .ok path ↔
      (Preferred xdgRuntimeDir home workspaceRoot ∧
        path = socketPath (socketDir xdgRuntimeDir home) workspaceRoot) ∨
      (¬Preferred xdgRuntimeDir home workspaceRoot ∧ path.length ≤ socketBudget ∧
        acceptShortBase inspect currentUid shortBase = .ok () ∧
        path = socketPath (fallbackDir shortBase (socketDir xdgRuntimeDir home))
          workspaceRoot) := by
  simp only [resolveSocketPath, withinBudget, decide_eq_true_eq, Preferred,
    Bool.not_eq_true', decide_eq_false_iff_not]
  split
  · next hfits => simp [hfits, eq_comm]
  · next hlarge =>
      simp only [hlarge, not_false_eq_true, true_and, false_and, false_or]
      split
      · next hdeep =>
          refine iff_of_false nofun ?_
          rintro ⟨hlength, -, rfl⟩
          exact hdeep hlength
      · next hfits =>
          cases haccept : acceptShortBase inspect currentUid shortBase with
          | error fault => exact iff_of_false nofun fun hok => nomatch hok.2.1
          | ok _ =>
              refine ⟨fun heq => ?_, ?_⟩
              · cases heq
                exact ⟨not_not.mp hfits, rfl, rfl⟩
              · rintro ⟨-, -, rfl⟩
                rfl

/-- The short base of this user is short. -/
theorem length_shortSocketBase_le (currentUid : UInt32) :
    (shortSocketBase currentUid).length ≤ 23 := by
  have hten : decimalDigits.all (fun letter =>
      (String.utf8EncodeChar letter).length = 1) = true := by decide
  have hone : ∀ letter ∈ (toString currentUid.toNat).toList,
      (String.utf8EncodeChar letter).length = 1 :=
    fun letter hletter => by simpa using of_mem_toString hten hletter
  have hprefix : (utf8 "/tmp/ktsense-").length = 13 := by decide
  have hdigits : (utf8 (toString currentUid.toNat)).length =
      (toString currentUid.toNat).length := by
    rw [utf8, List.length_flatMap, List.map_congr_left hone, ← String.length_toList]
    simp
  have hten : (toString currentUid.toNat).length ≤ 10 := by
    rw [Nat.toString_eq_repr, Nat.length_repr_le_iff (by decide)]
    exact currentUid.toNat_lt.trans (by decide)
  rw [shortSocketBase, List.length_append, hprefix, hdigits]
  omega

/-- Under the short base of this user every fallback fits. -/
theorem length_fallback_le (currentUid : UInt32) (preferredDir workspaceRoot : Path) :
    (socketPath (fallbackDir (shortSocketBase currentUid) preferredDir) workspaceRoot).length ≤
      socketBudget := by
  have hbase := length_shortSocketBase_le currentUid
  have hdir := length_join_le (shortSocketBase currentUid) (pathKey preferredDir)
  rw [length_pathKey] at hdir
  rw [length_socketPath (endsInName_fallbackDir _ _), fallbackDir, socketBudget, maxSocketPath,
    companionReserve]
  omega

/-- Every socket that is placed can be bound, and its claim beside it; and a user is refused
one only where a runtime directory is too deep and the base under `/tmp` is not safe. -/
theorem placement_addressable (inspect : Path → Inspection) (currentUid : UInt32)
    (xdgRuntimeDir : Option Path) (home workspaceRoot : Path) :
    (∀ shortBase path, resolveSocketPath inspect currentUid xdgRuntimeDir home shortBase
        workspaceRoot = .ok path →
      path.length ≤ socketBudget ∧ (claimPath path).length ≤ maxSocketPath) ∧
    ∀ error, resolveSocketPath inspect currentUid xdgRuntimeDir home
        (shortSocketBase currentUid) workspaceRoot = .error error ↔
      ¬Preferred xdgRuntimeDir home workspaceRoot ∧
        acceptShortBase inspect currentUid (shortSocketBase currentUid) = .error error := by
  constructor
  · intro shortBase path hplaced
    have hlength : path.length ≤ socketBudget := by
      rcases resolveSocketPath_eq_ok.mp hplaced with ⟨hpreferred, rfl⟩ | ⟨_, hlength, _⟩
      · exact hpreferred
      · exact hlength
    refine ⟨hlength, ?_⟩
    have hsuffix : (utf8 ".start").length = 6 := by decide
    rw [socketBudget, companionReserve, maxSocketPath] at hlength
    rw [claimPath, List.length_append, hsuffix, maxSocketPath]
    omega
  · intro error
    have hfits := length_fallback_le currentUid (socketDir xdgRuntimeDir home) workspaceRoot
    simp only [resolveSocketPath, withinBudget, decide_eq_true_eq, Preferred, hfits,
      decide_true, Bool.not_true, Bool.false_eq_true, if_false]
    split
    · next hpreferred => exact iff_of_false nofun fun hrefused => hrefused.1 hpreferred
    · next hlarge =>
        cases haccept : acceptShortBase inspect currentUid (shortSocketBase currentUid) with
        | error fault => simp [Except.map, hlarge]
        | ok _ => simp [Except.map]

/-- Two callers under one short base meet at one socket exactly when their roots have one key
and their directories are one, or were both refused and have one key.  Roots that differ in
one byte are never served from one socket. -/
theorem sockets_agree_iff {otherRuntimeDir : Option Path}
    {otherHome otherRoot otherPath : Path}
    (hplaced : resolveSocketPath inspect currentUid xdgRuntimeDir home shortBase
      workspaceRoot = .ok path)
    (hother : resolveSocketPath inspect currentUid otherRuntimeDir otherHome shortBase
      otherRoot = .ok otherPath) :
    (path = otherPath ↔ pathKey workspaceRoot = pathKey otherRoot ∧
      (Preferred xdgRuntimeDir home workspaceRoot ∧
          Preferred otherRuntimeDir otherHome otherRoot ∧
          socketDir xdgRuntimeDir home = socketDir otherRuntimeDir otherHome ∨
        ¬Preferred xdgRuntimeDir home workspaceRoot ∧
          ¬Preferred otherRuntimeDir otherHome otherRoot ∧
          pathKey (socketDir xdgRuntimeDir home) =
            pathKey (socketDir otherRuntimeDir otherHome))) ∧
    ∀ before behind left right, left ≠ right →
      utf8 (fromUtf8Lossy workspaceRoot) = before ++ left :: behind →
      utf8 (fromUtf8Lossy otherRoot) = before ++ right :: behind → path ≠ otherPath := by
  have hagree : path = otherPath ↔ pathKey workspaceRoot = pathKey otherRoot ∧
      (Preferred xdgRuntimeDir home workspaceRoot ∧
          Preferred otherRuntimeDir otherHome otherRoot ∧
          socketDir xdgRuntimeDir home = socketDir otherRuntimeDir otherHome ∨
        ¬Preferred xdgRuntimeDir home workspaceRoot ∧
          ¬Preferred otherRuntimeDir otherHome otherRoot ∧
          pathKey (socketDir xdgRuntimeDir home) =
            pathKey (socketDir otherRuntimeDir otherHome)) := by
    have hdir := endsInName_socketDir xdgRuntimeDir home
    have hotherDir := endsInName_socketDir otherRuntimeDir otherHome
    have hfallback := endsInName_fallbackDir shortBase
    rcases resolveSocketPath_eq_ok.mp hplaced with ⟨hfirst, rfl⟩ | ⟨hfirst, _, _, rfl⟩ <;>
      rcases resolveSocketPath_eq_ok.mp hother with ⟨hsecond, rfl⟩ | ⟨hsecond, _, _, rfl⟩
    · rw [socketPath_inj hdir hotherDir]
      simp [hfirst, hsecond, and_comm]
    · rw [socketPath_inj hdir (hfallback _)]
      simp [hfirst, hsecond, socketDir_ne_fallbackDir]
    · rw [socketPath_inj (hfallback _) hotherDir]
      simp [hfirst, hsecond, Ne.symm (socketDir_ne_fallbackDir _ _ _ _)]
    · have hkeys : fallbackDir shortBase (socketDir xdgRuntimeDir home) =
          fallbackDir shortBase (socketDir otherRuntimeDir otherHome) ↔
            pathKey (socketDir xdgRuntimeDir home) =
              pathKey (socketDir otherRuntimeDir otherHome) := by
        rw [fallbackDir, fallbackDir, join, join]
        split <;> simp
      rw [socketPath_inj (hfallback _) (hfallback _), hkeys]
      simp [hfirst, hsecond, and_comm]
  refine ⟨hagree, fun before behind left right hne hroot hotherRoot hsame => ?_⟩
  have hkeys := pathKey_inj.mp (hagree.mp hsame).1
  rw [hroot, hotherRoot] at hkeys
  exact fnv_ne_of_one_byte before behind hne hkeys

end Placed

/-- Two roots under one runtime directory. -/
theorem sockets_agree_iff_siblings :
    ∃ first second : Path,
      resolveSocketPath (fun _ => .notFound) 1000 (some (utf8 "/run")) (utf8 "/home/dev")
          (shortSocketBase 1000) (utf8 "/work/a") = .ok first ∧
      resolveSocketPath (fun _ => .notFound) 1000 (some (utf8 "/run")) (utf8 "/home/dev")
          (shortSocketBase 1000) (utf8 "/work/b") = .ok second ∧ first ≠ second := by
  have hfirst : Preferred (some (utf8 "/run")) (utf8 "/home/dev") (utf8 "/work/a") := by
    rw [Preferred, length_socketPath (endsInName_socketDir _ _)]
    decide
  have hsecond : Preferred (some (utf8 "/run")) (utf8 "/home/dev") (utf8 "/work/b") := by
    rw [Preferred, length_socketPath (endsInName_socketDir _ _)]
    decide
  have hplaced : resolveSocketPath (fun _ => .notFound) 1000 (some (utf8 "/run"))
      (utf8 "/home/dev") (shortSocketBase 1000) (utf8 "/work/a") = .ok _ :=
    resolveSocketPath_eq_ok.mpr (.inl ⟨hfirst, rfl⟩)
  have hother : resolveSocketPath (fun _ => .notFound) 1000 (some (utf8 "/run"))
      (utf8 "/home/dev") (shortSocketBase 1000) (utf8 "/work/b") = .ok _ :=
    resolveSocketPath_eq_ok.mpr (.inl ⟨hsecond, rfl⟩)
  refine ⟨_, _, hplaced, hother, (sockets_agree_iff hplaced hother).2 (utf8 "/work/") [] 0x61
    0x62 (by decide) ?_ ?_⟩
  · rw [fromUtf8Lossy_utf8]
    rfl
  · rw [fromUtf8Lossy_utf8]
    rfl

end Ktsense.Daemon.Placement
