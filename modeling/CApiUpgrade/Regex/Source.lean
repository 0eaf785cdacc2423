import CApiUpgrade.Regex.Basic
import CApiUpgrade.Text.Hexadecimal

/-!
# Writing regular expressions

`Regex.source` writes an expression in the usual form, with as few groupings as its structure
needs.  An expression that asks about lines is written under the flag `(?m)`; in all others `^`
and `$` are the ends of the text.
-/

namespace CApiUpgrade

namespace ClassItem

/-- How a character is written between the brackets of a class.  A hyphen is plain only as the
`first` item. -/
def charSource (first : Bool) (c : Char) : String :=
  if c == '\n' then "\\n"
  else if c == '\r' then "\\r"
  else if c == '\t' then "\\t"
  else if c == ']' || c == '[' || c == '\\' || (c == '-' && !first) || (c == '^' && first) then
    String.ofList ['\\', c]
  else c.toString

/-- How a code point of a table is written. -/
def codePointSource (n : Nat) : String := "\\x\x7b" ++ Text.hex n ++ "\x7d"

end ClassItem

/-- The escape that names a kind of character, or its complement. -/
def Category.source (kind : Category) (negated : Bool) : String :=
  match kind, negated with
  | .blank, false => "\\s"
  | .blank, true => "\\S"
  | .word, false => "\\w"
  | .word, true => "\\W"
  | .digit, false => "\\d"
  | .digit, true => "\\D"

/-- How an item of a class is written. -/
def ClassItem.source (first : Bool) : ClassItem → String
  | .char c => charSource first c
  | .range lo hi => charSource first lo ++ "-" ++ charSource false hi
  | .category kind negated => kind.source negated
  | .table ranges => String.join (ranges.toList.map fun (lo, hi) =>
    codePointSource lo ++ "-" ++ codePointSource hi)

/-- How a character class is written. -/
def CharClass.source (cls : CharClass) : String :=
  let items := match cls.items with
    | [] => ""
    | item :: rest => item.source true ++ String.join (rest.map (·.source false))
  "[" ++ (if cls.negated then "^" else "") ++ items ++ "]"

namespace Regex

/-- The characters that have a meaning of their own in an expression. -/
def specialChars : List Char :=
  ['\\', '.', '+', '*', '?', '(', ')', '|', '[', ']', '\x7b', '\x7d', '^', '$']

/-- How a character that stands for itself is written. -/
def charSource (c : Char) : String :=
  if c == '\n' then "\\n"
  else if c == '\r' then "\\r"
  else if c == '\t' then "\\t"
  else if c ∈ specialChars then String.ofList ['\\', c]
  else c.toString

/-- How a condition on positions is written, with or without the flag for lines. -/
def anchorSource (lines : Bool) : Anchor → String
  | .textStart => if lines then "\\A" else "^"
  | .textEnd => if lines then "\\z" else "$"
  | .lineStart => "^"
  | .lineEnd => "$"
  | .wordEdge => "\\b"
  | .wordInside => "\\B"
  | .wordStart => "\\b\x7bstart\x7d"
  | .wordEnd => "\\b\x7bend\x7d"
  | .noWordBefore => "\\b\x7bstart-half\x7d"
  | .noWordAfter => "\\b\x7bend-half\x7d"

/-- How the bounds of a repetition are written. -/
def boundsSource : (least : Nat) → (most : Option Nat) → String
  | 0, none => "*"
  | 1, none => "+"
  | 0, some 1 => "?"
  | least, none => "\x7b" ++ toString least ++ ",\x7d"
  | least, some most =>
    if least == most then "\x7b" ++ toString least ++ "\x7d"
    else "\x7b" ++ toString least ++ "," ++ toString most ++ "\x7d"

/-- Where an expression stands: this decides whether it needs a grouping. -/
inductive Place where
  /-- Alone, or as an alternative. -/
  | choice
  /-- Next to another expression. -/
  | sequence
  /-- Under a repetition. -/
  | item
  deriving DecidableEq

/-- Groups a text without capturing it, if need be. -/
def grouped (needed : Bool) (text : String) : String :=
  if needed then "(?:" ++ text ++ ")" else text

/-- Whether a name stands for a group without a name of its own. -/
def isNumber (name : String) : Bool :=
  !name.isEmpty && name.toList.all Text.isAsciiDigit

/-- How a condition names a group. -/
def groupSource (name : String) : String :=
  if isNumber name then name else "<" ++ name ++ ">"

/-- How an assertion about the neighbourhood is written. -/
def lookSource (behind negated : Bool) (body : String) : String :=
  "(?" ++ (if behind then "<" else "") ++ (if negated then "!" else "=") ++ body ++ ")"

/-- How an expression is written at a place. -/
def sourceAt (lines : Bool) : Place → Regex → String
  | place, empty => grouped (place == .item) ""
  | _, char c => charSource c
  | _, oneOf cls => cls.source
  | _, category kind negated => kind.source negated
  | _, any newline => if newline then "(?s:.)" else "."
  | _, anchor a => anchorSource lines a
  | place, cat a b =>
    grouped (place == .item) (sourceAt lines .sequence a ++ sourceAt lines .sequence b)
  | place, alt a b =>
    grouped (place != .choice) (sourceAt lines .choice a ++ "|" ++ sourceAt lines .choice b)
  | _, group name body =>
    (if isNumber name then "(" else "(?P<" ++ name ++ ">") ++ sourceAt lines .choice body ++ ")"
  | place, repeated body least most greedy =>
    grouped (place == .item)
      (sourceAt lines .item body ++ boundsSource least most ++ if greedy then "" else "?")
  | _, look direction negated body =>
    lookSource (direction != .ahead) negated (sourceAt lines .choice body)
  | _, lookBack negated body _ _ => lookSource true negated (sourceAt lines .choice body)
  | _, atomic body => "(?>" ++ sourceAt lines .choice body ++ ")"
  | place, linear body _ => sourceAt lines place body
  | _, backReference name anyCase =>
    let reference := if isNumber name then "\\" ++ name else "\\k<" ++ name ++ ">"
    if anyCase then "(?i:" ++ reference ++ ")" else reference
  | _, isSet name => "(?(" ++ groupSource name ++ "))"
  | _, conditional (isSet name) yes no =>
    "(?(" ++ groupSource name ++ ")" ++ sourceAt lines .sequence yes ++ "|" ++
      sourceAt lines .choice no ++ ")"
  | _, conditional condition yes no =>
    "(?(" ++ sourceAt lines .choice condition ++ ")" ++ sourceAt lines .sequence yes ++ "|" ++
      sourceAt lines .choice no ++ ")"
  | _, keepOut => "\\K"
  | _, resume => "\\G"

/-- The written form of an expression. -/
def source (r : Regex) : String :=
  (if r.asksAboutLines then "(?m)" else "") ++ sourceAt r.asksAboutLines .choice r

end Regex

end CApiUpgrade
