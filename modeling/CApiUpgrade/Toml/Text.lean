import CApiUpgrade.Text.Hexadecimal

/-!
# Texts in configuration files

A text stands between double quotes, where a backslash begins an escape, or between single quotes,
where nothing is special.  Between single ones it ends with the line.  Between three quotes it may
go over several lines: a newline right at its start does not count, a backslash at the end of a
line joins it to the next character that is not blank, and one or two quotes may stand at its end.

Each function here reads from the start of the given characters and returns the rest.
-/

namespace CApiUpgrade.Toml

/-- Whether a character is a space or a tab. -/
def isSpace (c : Char) : Bool := c == ' ' || c == '\t'

/-- Whether a character may stand in a comment or a text: all but the controls, and the tab. -/
def isPlain (c : Char) : Bool := c == '\t' || (' ' ≤ c && c != '\x7f')

/-- The rest behind the end of a line. -/
def newline? : List Char → Option (List Char)
  | '\n' :: rest => some rest
  | '\r' :: '\n' :: rest => some rest
  | _ => none

/-- The character of an escape, behind its backslash. -/
def escape? : List Char → Option (Char × List Char)
  | 'b' :: rest => some ('\x08', rest)
  | 't' :: rest => some ('\t', rest)
  | 'n' :: rest => some ('\n', rest)
  | 'f' :: rest => some ('\x0c', rest)
  | 'r' :: rest => some ('\r', rest)
  | '"' :: rest => some ('"', rest)
  | '\\' :: rest => some ('\\', rest)
  | 'u' :: rest => Text.leadingCodePoint? 4 rest
  | 'U' :: rest => Text.leadingCodePoint? 8 rest
  | _ => none

/-- The rest behind spaces, tabs and ends of lines. -/
def skipBlankLines : List Char → List Char
  | '\r' :: '\n' :: rest => skipBlankLines rest
  | c :: rest => if isSpace c || c == '\n' then skipBlankLines rest else c :: rest
  | [] => []

/-- The rest behind a backslash that ends a line, and behind all that is blank after it. -/
def joinedLine? (cs : List Char) : Option (List Char) :=
  (newline? (cs.dropWhile isSpace)).map skipBlankLines

/-- Reads a text of one line in double quotes, behind the opening one. -/
def escapedText? : (fuel : Nat) → List Char → Option (List Char × List Char)
  | 0, _ => none
  | _, '"' :: rest => some ([], rest)
  | fuel + 1, '\\' :: rest => do
    let (c, rest) ← escape? rest
    let (text, rest) ← escapedText? fuel rest
    return (c :: text, rest)
  | fuel + 1, c :: rest => do
    if isPlain c then
      let (text, rest) ← escapedText? fuel rest
      return (c :: text, rest)
    else none
  | _, [] => none

/-- Reads a text of one line in single quotes, behind the opening one. -/
def plainText? : List Char → Option (List Char × List Char)
  | '\'' :: rest => some ([], rest)
  | c :: rest =>
    if isPlain c then (plainText? rest).map fun (text, rest) => (c :: text, rest) else none
  | [] => none

/-- Reads a text of several lines, behind the opening quotes.  Backslashes are special if
`escapes` is set. -/
def longText? (quote : Char) (escapes : Bool) :
    (fuel : Nat) → List Char → Option (List Char × List Char)
  | 0, _ => none
  | _, [] => none
  | fuel + 1, c :: rest =>
    let go (c : Char) (rest : List Char) : Option (List Char × List Char) :=
      (longText? quote escapes fuel rest).map fun (text, rest) => (c :: text, rest)
    if c == quote then
      match rest.takeWhile (· == quote) with
      | [] | [_] => go c rest
      | [_, _] => some ([], rest.drop 2)
      | [_, _, _] => some ([c], rest.drop 3)
      | _ => some ([c, c], rest.drop 4)
    else if escapes && c == '\\' then
      match joinedLine? rest with
      | some rest => longText? quote escapes fuel rest
      | none => do
        let (c, rest) ← escape? rest
        go c rest
    else
      match newline? (c :: rest) with
      | some rest => go '\n' rest
      | none => if isPlain c then go c rest else none

/-- The rest behind a newline, if there is one. -/
def skipNewline (cs : List Char) : List Char := (newline? cs).getD cs

/-- Reads a text of one line. -/
def shortText? : List Char → Option (List Char × List Char)
  | '"' :: rest => escapedText? (rest.length + 1) rest
  | '\'' :: rest => plainText? rest
  | _ => none

/-- Reads a text. -/
def text? : List Char → Option (List Char × List Char)
  | '"' :: '"' :: '"' :: rest => longText? '"' true (rest.length + 1) (skipNewline rest)
  | '\'' :: '\'' :: '\'' :: rest => longText? '\'' false (rest.length + 1) (skipNewline rest)
  | cs => shortText? cs

end CApiUpgrade.Toml
