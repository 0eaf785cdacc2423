import CApiUpgrade.Text.Hexadecimal
import CApiUpgrade.Text.Visible

/-!
# Quoted texts

Messages show a character between single quotes and a text between double quotes.  Inside, the
backslash and the enclosing quote are escaped by a backslash, the common controls have short
names, and every other character without a shape of its own is written by its code point, as
in `\u{301}`.
-/

namespace CApiUpgrade.Text

/-- How a character is written between two occurrences of `quote`. -/
def escaped (quote : Char) (c : Char) : String :=
  if c == '\x00' then "\\0"
  else if c == '\t' then "\\t"
  else if c == '\r' then "\\r"
  else if c == '\n' then "\\n"
  else if c == '\\' || c == quote then String.ofList ['\\', c]
  else if isVisible c then c.toString
  else "\\u\x7b" ++ hex c.toNat ++ "\x7d"

/-- A character between single quotes. -/
def quotedChar (c : Char) : String :=
  "'" ++ escaped '\'' c ++ "'"

/-- A text between double quotes. -/
def quoted (text : String) : String :=
  "\"" ++ String.join (text.toList.map (escaped '"')) ++ "\""

end CApiUpgrade.Text
