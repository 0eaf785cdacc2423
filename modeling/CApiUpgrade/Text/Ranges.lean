/-!
# Tables of character ranges

A property of characters that a standard fixes by enumeration is kept as a table of closed
ranges of code points, in increasing order and without overlap.  `RangeTable.contains` looks a
code point up by halving the part of the table that can still hold it.

The tables form an algebra of sets: `union`, `complement` and what follows from them.  All of
these give tables whose ranges neither overlap nor touch, so two equal sets have equal tables.
-/

namespace CApiUpgrade.Text

/-- Closed ranges of code points, in increasing order and without overlap. -/
abbrev RangeTable := Array (Nat × Nat)

namespace RangeTable

/-- Looks for a range around `n` among the entries `lo, …, hi - 1`.  Each step halves the number
of entries, so `fuel` steps cover a table of fewer than `2 ^ fuel` entries. -/
def search (table : RangeTable) (n : Nat) : (fuel lo hi : Nat) → Bool
  | 0, _, _ => false
  | fuel + 1, lo, hi =>
    if lo < hi then
      let mid := (lo + hi) / 2
      match table[mid]? with
      | none => false
      | some (first, last) =>
        if n < first then search table n fuel lo mid
        else if last < n then search table n fuel (mid + 1) hi
        else true
    else false

/-- Whether some range of the table holds the code point `n`. -/
def contains (table : RangeTable) (n : Nat) : Bool :=
  search table n (table.size.log2 + 1) 0 table.size

/-! ### Sets -/

/-- The greatest code point. -/
def lastCodePoint : Nat := 0x10ffff

/-- Every code point. -/
def all : RangeTable := #[(0, lastCodePoint)]

/-- Joins the ranges that overlap or touch, in a list sorted by first code points. -/
def joined : List (Nat × Nat) → List (Nat × Nat)
  | [] => []
  | range :: rest => go range rest
where
  /-- The same, behind a range that may still grow. -/
  go (range : Nat × Nat) : List (Nat × Nat) → List (Nat × Nat)
    | [] => [range]
    | next :: rest =>
      if next.1 ≤ range.2 + 1 then go (range.1, max range.2 next.2) rest
      else range :: go next rest

/-- Puts a range in front of those of a sorted list that do not start before it. -/
def insert (range : Nat × Nat) : List (Nat × Nat) → List (Nat × Nat)
  | [] => [range]
  | next :: rest =>
    if range.1 ≤ next.1 then range :: next :: rest else next :: insert range rest

/-- The table of some ranges in any order. -/
def ofRanges (ranges : List (Nat × Nat)) : RangeTable :=
  (joined (ranges.foldr insert [])).toArray

/-- The code points of either table. -/
def union (a b : RangeTable) : RangeTable := ofRanges (a.toList ++ b.toList)

/-- The code points of any table of a list. -/
def unions (tables : List RangeTable) : RangeTable := ofRanges (tables.flatMap Array.toList)

/-- The code points from `next` on that no range of the list holds. -/
def gaps (next : Nat) : List (Nat × Nat) → List (Nat × Nat)
  | [] => if next ≤ lastCodePoint then [(next, lastCodePoint)] else []
  | (lo, hi) :: rest =>
    if next < lo then (next, lo - 1) :: gaps (hi + 1) rest else gaps (hi + 1) rest

/-- The code points that the table does not hold. -/
def complement (table : RangeTable) : RangeTable := (gaps 0 table.toList).toArray

/-- The code points of both tables. -/
def inter (a b : RangeTable) : RangeTable := (a.complement.union b.complement).complement

/-- The code points of the first table that are not in the second. -/
def diff (a b : RangeTable) : RangeTable := a.inter b.complement

/-- The code points of exactly one of the tables. -/
def symmDiff (a b : RangeTable) : RangeTable := (a.union b).diff (a.inter b)

end RangeTable

end CApiUpgrade.Text
