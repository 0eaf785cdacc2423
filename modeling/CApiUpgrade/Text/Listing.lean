import CApiUpgrade.Text.Hexadecimal
import CApiUpgrade.Text.Ranges

/-!
# Listings of characters

The larger tables of this library are kept as text: code points and ranges of code points in
hexadecimal, separated by blanks or line ends, as in `41-5a aa`.  A `NamedSet` is such a listing
under the names by which an expression may ask for it.
-/

namespace CApiUpgrade.Text

/-- The range that one entry of a listing stands for. -/
def listedRange? (entry : List Char) : Option (Nat × Nat) :=
  match (entry.splitOnP (· == '-')).mapM hexNumber? with
  | some [n] => some (n, n)
  | some [lo, hi] => some (lo, hi)
  | _ => none

/-- The table that a listing in increasing order stands for. -/
def RangeTable.ofListing (text : String) : RangeTable :=
  ((text.toList.splitOnP Char.isWhitespace).filterMap listedRange?).toArray

/-- A set of characters with names of its own. -/
structure NamedSet where
  /-- The names, in small letters and without separators. -/
  names : List String
  /-- The characters, as a listing. -/
  listing : String

namespace NamedSet

/-- The characters of the set. -/
def table (s : NamedSet) : RangeTable := .ofListing s.listing

/-- The characters of the set with the given name. -/
def find? (sets : List NamedSet) (name : String) : Option RangeTable :=
  (sets.find? (·.names.contains name)).map table

end NamedSet

end CApiUpgrade.Text
