import CApiUpgrade.Diff.Compaction
import CApiUpgrade.Text.Lines

/-!
# Unified diffs

A unified diff shows how one text turns into another: two lines that name the file, then *hunks*,
runs of changed lines with up to three kept lines around them.  Changes that are at most six kept
lines apart share a hunk.  A hunk starts with a header that says which lines of both texts it
covers.

A line that lacks its end is followed by an empty line.
-/

namespace CApiUpgrade.Diff

/-- The number of kept lines shown around a change. -/
def context : Nat := 3

/-! ### Hunks -/

/-- The last `n` lines of a block of kept lines. -/
def Block.takeEnd (b : Block) (n : Nat) : Block :=
  { b with
    oldStart := b.oldStart + (b.oldLength - n)
    newStart := b.newStart + (b.newLength - n)
    oldLength := min b.oldLength n
    newLength := min b.newLength n }

/-- The first `n` lines of a block of kept lines. -/
def Block.takeStart (b : Block) (n : Nat) : Block :=
  { b with oldLength := min b.oldLength n, newLength := min b.newLength n }

/-- Shortens kept lines at the very start to the context. -/
def trimStart : List Block → List Block
  | b :: rest => if b.kept then b.takeEnd context :: rest else b :: rest
  | [] => []

/-- Shortens kept lines at the very end to the context. -/
def trimEnd : List Block → List Block
  | [b] => if b.kept then [b.takeStart context] else [b]
  | b :: rest => b :: trimEnd rest
  | [] => []

/-- Cuts a list of blocks into hunks, wherever more kept lines stand together than the contexts of
two changes need.  The blocks of the hunk so far are `hunk`, the latest first. -/
def cut (hunk : List Block) : List Block → List (List Block)
  | [] => [hunk.reverse]
  | b :: rest =>
    if b.kept && decide (2 * context < b.oldLength) then
      (b.takeStart context :: hunk).reverse :: cut [b.takeEnd context] rest
    else cut (b :: hunk) rest

/-- Whether a hunk shows no change. -/
def isIdle : List Block → Bool
  | [] => true
  | [b] => b.kept
  | _ => false

/-- Drops the last hunk if it shows no change. -/
def dropIdleEnd : List (List Block) → List (List Block)
  | [hunk] => if isIdle hunk then [] else [hunk]
  | hunk :: rest => hunk :: dropIdleEnd rest
  | [] => []

/-- The hunks of an edit script. -/
def hunks (blocks : List Block) : List (List Block) :=
  dropIdleEnd (cut [] (trimEnd (trimStart blocks)))

/-! ### Written form -/

/-- How a range of lines is written: the number of its first line and its length, which is left
out if it is one.  An empty range is numbered by the line above it. -/
def rangeText (start stop : Nat) : String :=
  let length := stop - start
  if length = 1 then toString (start + 1)
  else if length = 0 then toString start ++ ",0"
  else toString (start + 1) ++ "," ++ toString length

/-- The header of a hunk. -/
def hunkHeader (hunk : List Block) : String :=
  match hunk.head?, hunk.getLast? with
  | some first, some last =>
    "@@ -" ++ rangeText first.oldStart last.oldEnd ++ " +" ++
      rangeText first.newStart last.newEnd ++ " @@\n"
  | _, _ => ""

/-- A line of a hunk behind its sign. -/
def signed (sign : Char) (line : Line) : List Char :=
  sign :: line ++ if Text.hasLineEnd line then [] else ['\n', '\n']

/-- The lines from `start` on. -/
def linesFrom (lines : Array Line) (start length : Nat) : List Line :=
  (lines.extract start (start + length)).toList

/-- The lines of a block: kept lines, or deleted ones and then inserted ones. -/
def blockText (old new : Array Line) (b : Block) : List Char :=
  if b.kept then (linesFrom old b.oldStart b.oldLength).flatMap (signed ' ')
  else
    (linesFrom old b.oldStart b.oldLength).flatMap (signed '-') ++
      (linesFrom new b.newStart b.newLength).flatMap (signed '+')

/-- A hunk. -/
def hunkText (old new : Array Line) (hunk : List Block) : List Char :=
  (hunkHeader hunk).toList ++ hunk.flatMap (blockText old new)

/-- The blocks in which two lists of lines differ and agree. -/
def blocks (old new : Array Line) : List Block :=
  Block.ofEdits (compact old new (script old new))

/-- The unified diff of two texts of a file. -/
def unified (path : String) (old new : List Char) : List Char :=
  let oldLines := (Text.lines old).toArray
  let newLines := (Text.lines new).toArray
  ("--- a/" ++ path ++ "\n+++ b/" ++ path ++ "\n").toList ++
    (hunks (blocks oldLines newLines)).flatMap (hunkText oldLines newLines)

end CApiUpgrade.Diff
