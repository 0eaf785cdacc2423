import CApiUpgrade.Text.Blank
import CApiUpgrade.Text.BinaryProperty
import CApiUpgrade.Text.Digit
import CApiUpgrade.Text.Word

/-!
# Sets of characters

A regular expression asks for one character of a set at a time: of a kind with a short name of its
own (`Category`) or of a class between brackets (`CharClass`).
-/

namespace CApiUpgrade

open Text (RangeTable)

/-- A kind of character that has a short name of its own. -/
inductive Category where
  /-- Spaces, tabs, line ends and their relatives. -/
  | blank
  /-- Letters, marks, digits and connectors. -/
  | word
  /-- Decimal digits. -/
  | digit
  deriving DecidableEq, Repr

namespace Category

/-- Whether a character is of the given kind. -/
def contains : Category → Char → Bool
  | .blank => Text.isBlank
  | .word => Text.isWord
  | .digit => Text.isDigit

/-- The characters of the given kind. -/
def table : Category → RangeTable
  | .blank => (Text.NamedSet.find? Text.binaryProperties "whitespace").getD #[]
  | .word =>
    RangeTable.union #[(0x30, 0x39), (0x41, 0x5a), (0x5f, 0x5f), (0x61, 0x7a)] Text.wordRanges
  | .digit => RangeTable.union #[(0x30, 0x39)] Text.digitRanges

end Category

/-- One item between the brackets of a character class. -/
inductive ClassItem where
  /-- The character itself. -/
  | char (c : Char)
  /-- Every character from `lo` to `hi`, both included. -/
  | range (lo hi : Char)
  /-- Every character of a kind, or every other one. -/
  | category (kind : Category) (negated : Bool)
  /-- Every character of a table. -/
  | table (ranges : RangeTable)
  deriving DecidableEq, Repr

namespace ClassItem

/-- Whether an item of a class stands for the character `c`. -/
def contains : ClassItem → Char → Bool
  | .char d, c => c == d
  | .range lo hi, c => lo ≤ c && c ≤ hi
  | .category kind negated, c => kind.contains c != negated
  | .table ranges, c => ranges.contains c.toNat

/-- The characters that an item stands for. -/
def toTable : ClassItem → RangeTable
  | .char c => #[(c.toNat, c.toNat)]
  | .range lo hi => #[(lo.toNat, hi.toNat)]
  | .category kind negated => if negated then kind.table.complement else kind.table
  | .table ranges => ranges

end ClassItem

/-- A character class: the characters of some items, or all the others. -/
structure CharClass where
  /-- Whether the class holds the characters that no item stands for. -/
  negated : Bool
  /-- The items, in the order in which they are written. -/
  items : List ClassItem
  deriving DecidableEq, Repr

namespace CharClass

/-- Whether the class holds the character `c`. -/
def contains (cls : CharClass) (c : Char) : Bool :=
  cls.items.any (·.contains c) != cls.negated

/-- The characters of the class. -/
def table (cls : CharClass) : RangeTable :=
  let listed := RangeTable.unions (cls.items.map ClassItem.toTable)
  if cls.negated then listed.complement else listed

/-- The class of one character. -/
def single (c : Char) : CharClass := ⟨false, [.char c]⟩

/-- The class of a kind of character, or of all others. -/
def ofCategory (kind : Category) (negated : Bool) : CharClass := ⟨false, [.category kind negated]⟩

/-- The class of all characters, with or without the newline. -/
def any (newline : Bool) : CharClass := ⟨true, if newline then [] else [.char '\n']⟩

/-- The class of the characters of a table. -/
def ofTable (ranges : RangeTable) : CharClass := ⟨false, [.table ranges]⟩

end CharClass

end CApiUpgrade
