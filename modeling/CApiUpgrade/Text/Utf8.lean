import CApiUpgrade.Text.Ranges

/-!
# Ranges of characters as sequences of bytes

A range of characters, written in UTF-8, is a union of *byte sequences*: lists of byte ranges such
that a character is in the range if and only if its bytes lie in the byte ranges of one of the
lists.  `Utf8.sequences` gives the shortest such union.
-/

namespace CApiUpgrade.Text.Utf8

/-- A list of byte ranges, the leading byte first. -/
abbrev Sequence := List (Nat × Nat)

/-- The sequences of `count` trailing bytes that write the numbers from `lo` to `hi`, six bits to a
byte. -/
def trailing : (count lo hi : Nat) → List Sequence
  | 0, _, _ => [[]]
  | count + 1, lo, hi => split (Nat.pow 64 count) 0x80 lo hi (trailing count)
where
  /-- Splits a range by its first byte, which counts units of the size `unit`.  A unit that is not
  covered in full stands alone, those in between go together. -/
  split (unit tag lo hi : Nat) (rest : Nat → Nat → List Sequence) : List Sequence :=
    let first := lo / unit
    let last := hi / unit
    let one (byte : Nat) (tails : List Sequence) : List Sequence :=
      tails.map ((tag + byte, tag + byte) :: ·)
    if first == last then one first (rest (lo % unit) (hi % unit))
    else
      let cutsLow := lo % unit != 0
      let cutsHigh := hi % unit != unit - 1
      let low := if cutsLow then one first (rest (lo % unit) (unit - 1)) else []
      let from_ := if cutsLow then first + 1 else first
      let until_ := if cutsHigh then last else last + 1
      let middle :=
        if from_ < until_ then
          (rest 0 (unit - 1)).map ((tag + from_, tag + until_ - 1) :: ·)
        else []
      let high := if cutsHigh then one last (rest 0 (hi % unit)) else []
      low ++ middle ++ high

/-- The blocks of characters of equal length in bytes: the first and the last character, the number
of trailing bytes, and what is added to the leading bits. -/
def blocks : List (Nat × Nat × Nat × Nat) :=
  [(0, 0x7f, 0, 0), (0x80, 0x7ff, 1, 0xc0), (0x800, 0xd7ff, 2, 0xe0), (0xe000, 0xffff, 2, 0xe0),
    (0x10000, 0x10ffff, 3, 0xf0)]

/-- The sequences of the characters from `lo` to `hi`. -/
def sequences (lo hi : Nat) : List Sequence :=
  blocks.flatMap fun (first, last, count, tag) =>
    let lo := max lo first
    let hi := min hi last
    if lo ≤ hi then trailing.split (Nat.pow 64 count) tag lo hi (trailing count) else []

/-- The number of byte ranges that two sequences have in common at their start. -/
def commonStart : Sequence → Sequence → Nat
  | a :: as, b :: bs => if a == b then commonStart as bs + 1 else 0
  | _, _ => 0

/-- The number of different beginnings of the sequences of a sorted list, behind the sequence
`last`. -/
def beginnings (last : Sequence) : List Sequence → Nat
  | [] => 0
  | s :: rest => s.length - commonStart last s + beginnings s rest

end CApiUpgrade.Text.Utf8
