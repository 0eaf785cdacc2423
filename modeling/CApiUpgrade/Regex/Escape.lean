import CApiUpgrade.Regex.Basic
import CApiUpgrade.Regex.Flags

/-!
# Reading regular expressions: escapes

A backslash and what follows it stand for a character or a set of characters.  This file reads the
escapes that mean the same inside and outside of classes.
-/

namespace CApiUpgrade

open Text (RangeTable)

/-- What an escape stands for. -/
inductive Escape where
  /-- One character. -/
  | char (c : Char)
  /-- A character of a kind, or one of any other kind. -/
  | category (kind : Category) (negated : Bool)
  /-- A character of a table. -/
  | table (ranges : RangeTable)
  /-- A digit of hexadecimal numbers, or any other character. -/
  | hexDigit (negated : Bool)

namespace Escape

/-- The escapes that name one character. -/
def namedChar? : Char → Option Char
  | 'n' => some '\n'
  | 'r' => some '\r'
  | 't' => some '\t'
  | 'f' => some '\x0c'
  | 'v' => some '\x0b'
  | 'a' => some '\x07'
  | 'e' => some '\x1b'
  | _ => none

/-- The escapes that name a kind of character. -/
def namedCategory? : Char → Option (Category × Bool)
  | 's' => some (.blank, false)
  | 'S' => some (.blank, true)
  | 'w' => some (.word, false)
  | 'W' => some (.word, true)
  | 'd' => some (.digit, false)
  | 'D' => some (.digit, true)
  | _ => none

/-- The greatest number of digits between braces. -/
def maxDigits : Nat := 8

/-- The digits up to a closing brace, with spacing left out, and the rest. -/
def bracedDigits? (flags : RegexFlags) : (fuel : Nat) → List Char → Option (List Char × List Char)
  | 0, _ => none
  | fuel + 1, cs => do
    match ← flags.skip? cs with
    | '\x7d' :: rest => return ([], rest)
    | c :: rest =>
      let (digits, rest) ← bracedDigits? flags fuel rest
      return (c :: digits, rest)
    | [] => none

/-- The character of an escape by code point: exactly `width` digits, or a few digits between
braces. -/
def codePoint? (flags : RegexFlags) (width : Nat) : List Char → Option (Char × List Char)
  | '\x7b' :: rest => do
    let (digits, rest) ← bracedDigits? flags (rest.length + 1) rest
    if maxDigits < digits.length then none
    else return (← Text.charOfHex? digits, rest)
  | cs => Text.leadingCodePoint? width cs

/-- Cuts a text at the first occurrence of `mark`. -/
def cutAt? (mark : List Char) : List Char → Option (List Char × List Char)
  | [] => none
  | c :: rest =>
    if mark.isPrefixOf (c :: rest) then some ([], (c :: rest).drop mark.length)
    else (cutAt? mark rest).map fun (before, after) => (c :: before, after)

/-- The characters with a property, as it is written between braces: by name, or as a key and a
value with a sign between them.  One sign denies the value. -/
def propertyTable? (negated : Bool) (text : List Char) : Option (Bool × RangeTable) :=
  let valued (negated : Bool) (mark : List Char) : Option (Bool × Option RangeTable) :=
    (cutAt? mark text).map fun (key, value) => (negated, Text.propertyValue? key value)
  match valued (!negated) ['!', '='] <|> valued negated [':'] <|> valued negated ['='] with
  | some (negated, ranges) => ranges.map (negated, ·)
  | none => (Text.property? text).map (negated, ·)

/-- The characters that have a property, or that do not have it.  Case is left out of account before
the characters are turned around. -/
def property (flags : RegexFlags) (negated : Bool) (cs : List Char) :
    Except RegexError (Escape × List Char) := do
  let (found, rest) ← match cs with
    | '\x7b' :: rest =>
      match cutAt? ['\x7d'] rest with
      | some (text, rest) => pure (propertyTable? negated text, rest)
      | none => .error .badEscape
    | c :: rest => pure ((Text.property? [c]).map (negated, ·), rest)
    | [] => .error .badEscape
  match found with
  | some (negated, ranges) =>
    let ranges := if flags.ignoreCase then ranges.anyCase else ranges
    return (.table (if negated then ranges.complement else ranges), rest)
  | none => .error .unknownProperty

/-- What stands behind a backslash. -/
def read (flags : RegexFlags) (cs : List Char) : Except RegexError (Escape × List Char) :=
  let character (found : Option (Char × List Char)) : Except RegexError (Escape × List Char) :=
    match found with
    | some (c, rest) => .ok (.char c, rest)
    | none => .error .badEscape
  match cs with
  | 'x' :: rest => character (codePoint? flags 2 rest)
  | 'u' :: rest => character (codePoint? flags 4 rest)
  | 'U' :: rest => character (codePoint? flags 8 rest)
  | 'p' :: rest => property flags false rest
  | 'P' :: rest => property flags true rest
  | 'h' :: rest => .ok (.hexDigit false, rest)
  | 'H' :: rest => .ok (.hexDigit true, rest)
  | c :: rest =>
    match namedChar? c, namedCategory? c with
    | some d, _ => .ok (.char d, rest)
    | none, some (kind, negated) => .ok (.category kind negated, rest)
    | none, none =>
      if Text.isAsciiLetter c || Text.isAsciiDigit c then .error .badEscape
      else .ok (.char c, rest)
  | [] => .error .badEscape

end Escape

end CApiUpgrade
