import CApiUpgrade.Text.Decimal

/-!
# Hexadecimal numerals

Digits beyond nine are the letters `a` to `f`, in either case when they are read and small when they
are written.
-/

namespace CApiUpgrade.Text

/-- The value of a hexadecimal digit. -/
def hexValue? (c : Char) : Option Nat :=
  if isAsciiDigit c then some (digitValue c)
  else if 'a' ≤ c && c ≤ 'f' then some (c.toNat - 'a'.toNat + 10)
  else if 'A' ≤ c && c ≤ 'F' then some (c.toNat - 'A'.toNat + 10)
  else none

/-- The number that the given hexadecimal digits write. -/
def hexNumber? (digits : List Char) : Option Nat := do
  if digits.isEmpty then none
  let values ← digits.mapM hexValue?
  return values.foldl (16 * · + ·) 0

/-- The character whose code point the given hexadecimal digits write. -/
def charOfHex? (digits : List Char) : Option Char := do
  let n ← hexNumber? digits
  if h : n.isValidChar then some (Char.ofNatAux n h) else none

/-- The character whose code point is written by the first `count` characters, and the rest. -/
def leadingCodePoint? (count : Nat) (cs : List Char) : Option (Char × List Char) :=
  if cs.length < count then none
  else (charOfHex? (cs.take count)).map fun c => (c, cs.drop count)

/-- The hexadecimal digits of `n`, without leading zeros. -/
def hex (n : Nat) : String := String.ofList (Nat.toDigits 16 n)

end CApiUpgrade.Text
