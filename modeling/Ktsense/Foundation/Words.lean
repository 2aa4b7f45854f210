import Ktsense.Foundation.Text

/-!
# Trimming and splitting

The functions of `str` that cut a text at its ends or at its blanks, on the list of its
characters.
-/

namespace Ktsense.Foundation

/-- `str::trim_start`. -/
def trimStart (text : List Char) : List Char := text.dropWhile isWhitespace

/-- What is left of the text once a prefix is taken off as often as it stands there.  The
fuel is the number of times at most. -/
def stripRepeated (pattern : List Char) : ℕ → List Char → List Char
  | 0, text => text
  | fuel + 1, text =>
      if pattern.isPrefixOf text then stripRepeated pattern fuel (text.drop pattern.length)
      else text

/-- `str::trim_start_matches` with a pattern that is not empty. -/
def trimStartMatches (pattern text : List Char) : List Char :=
  stripRepeated pattern text.length text

/-- `str::trim_end_matches` with a pattern that is not empty. -/
def trimEndMatches (pattern text : List Char) : List Char :=
  (trimStartMatches pattern.reverse text.reverse).reverse

/-- `str::split_whitespace`. -/
def splitWhitespace (text : List Char) : List (List Char) :=
  (text.splitOnP isWhitespace).filter (· ≠ [])

/-- What is behind the last place where a letter stands, `rsplit(letter).next()`. -/
def afterLast (letter : Char) (text : List Char) : List Char :=
  text.rtakeWhile (· ≠ letter)

end Ktsense.Foundation
