import CApiUpgrade.Text.Word

/-!
# Decimal numerals

A numeral is one or more of the ten ASCII digits and nothing else: no sign, no separator, no
digit of another script.  Leading zeros are allowed.
-/

namespace CApiUpgrade.Text

/-- The value of a digit `0` to `9`. -/
def digitValue (c : Char) : Nat := c.toNat - '0'.toNat

/-- The number that a list of digits writes. -/
def valueOf (digits : List Char) : Nat :=
  digits.foldl (fun n c => 10 * n + digitValue c) 0

/-- The number at the start of a text, if there is one, and the rest. -/
def leadingNumber? (cs : List Char) : Option (Nat × List Char) :=
  match cs.takeWhile isAsciiDigit with
  | [] => none
  | digits => some (valueOf digits, cs.dropWhile isAsciiDigit)

/-- The number that a whole text writes. -/
def number? (text : String) : Option Nat :=
  match leadingNumber? text.toList with
  | some (n, []) => some n
  | _ => none

end CApiUpgrade.Text
