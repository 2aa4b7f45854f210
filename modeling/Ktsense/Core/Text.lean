import Ktsense.Foundation.Text

/-!
# Source text made safe to print

`text.rs`: `neutralize` replaces what could break or reorder a line by a
visible marker, and `fenceFor` finds a fence that a body cannot close.
-/

namespace Ktsense.Core

open Ktsense.Foundation

def bidirectionalOverrides : List ℕ :=
  [0x202A, 0x202B, 0x202C, 0x202D, 0x202E, 0x2066, 0x2067, 0x2068, 0x2069,
    0x200E, 0x200F, 0x061C]

/-- `char::is_control`: the general category `Cc`. -/
def isControl (letter : Char) : Bool :=
  letter.toNat ≤ 0x1F || (0x7F ≤ letter.toNat && letter.toNat ≤ 0x9F)

def isUnsafeInOutput (letter : Char) : Bool :=
  isControl letter || bidirectionalOverrides.contains letter.toNat

/-- The digits of `format!("{:04X}", code)`. -/
def hexMarker (code : ℕ) : List Char :=
  let digits := (Nat.toDigits 16 code).map Char.toUpper
  List.replicate (4 - digits.length) '0' ++ digits

/-- What one character becomes. -/
def neutralizeChar (letter : Char) : List Char :=
  if isUnsafeInOutput letter then
    "<U+".toList ++ hexMarker letter.toNat ++ ">".toList
  else [letter]

def neutralize (text : String) : String :=
  String.ofList (text.toList.flatMap neutralizeChar)

def minFenceBackticks : ℕ := 3

/-- Longest run of backticks: the run being read, and the best so far. -/
def longestBacktickRun : List Char → ℕ → ℕ → ℕ
  | [], run, longest => max run longest
  | letter :: rest, run, longest =>
      if letter = Char.ofNat 0x60 then longestBacktickRun rest (run + 1) longest
      else longestBacktickRun rest 0 (max run longest)

def fenceFor (body : String) : String :=
  String.ofList (List.replicate
    (max (longestBacktickRun body.toList 0 0 + 1) minFenceBackticks)
    (Char.ofNat 0x60))

end Ktsense.Core
