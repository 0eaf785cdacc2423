import CApiUpgrade.Toml.Number
import CApiUpgrade.Toml.Value

/-!
# Reading configuration files

A document is a sequence of lines, each of which is blank, a header or a field; a comment may
follow.  Fields belong to the table of the header above them.  A value in brackets or braces may
hold others, but not at any depth: `maxDepth` bounds it, and with it the recursion of the reader.

Each function here reads from the start of the given characters and returns the rest.
-/

namespace CApiUpgrade.Toml

/-- How deep values may be nested, and how many parts a key may have. -/
def maxDepth : Nat := 79

/-! ### Blanks -/

/-- The rest behind spaces and tabs. -/
def skipSpaces (cs : List Char) : List Char := cs.dropWhile isSpace

/-- The rest behind a comment, up to the end of its line. -/
def skipComment : List Char → List Char
  | '#' :: rest => rest.dropWhile isPlain
  | cs => cs

/-- The rest behind the end of a line, with the blanks and the comment in front of it.  The last
line ends with the document. -/
def lineEnd? (cs : List Char) : Option (List Char) :=
  match skipComment (skipSpaces cs) with
  | [] => some []
  | rest => newline? rest

/-- The rest behind blanks, ends of lines and comments. -/
def skipVoid : (fuel : Nat) → List Char → List Char
  | 0, cs => cs
  | fuel + 1, cs =>
    match newline? (skipComment (skipSpaces cs)) with
    | some rest => skipVoid fuel rest
    | none => skipSpaces cs

/-! ### Keys -/

/-- A key: one or more parts with dots between them. -/
structure Key where
  /-- All parts but the last one. -/
  path : List (List Char)
  /-- The last part. -/
  name : List Char

/-- All parts of a key. -/
def Key.parts (key : Key) : List (List Char) := key.path ++ [key.name]

/-- Whether a character may stand in a key without quotes. -/
def isBare (c : Char) : Bool :=
  ('a' ≤ c && c ≤ 'z') || ('A' ≤ c && c ≤ 'Z') || ('0' ≤ c && c ≤ '9') || c == '_' || c == '-'

/-- Reads a part of a key. -/
def keyPart? (cs : List Char) : Option (List Char × List Char) :=
  match cs.takeWhile isBare with
  | [] => shortText? cs
  | part => some (part, cs.dropWhile isBare)

/-- Reads a key of at most `count` parts, and the blanks around it. -/
def key? : (count : Nat) → List Char → Option (Key × List Char)
  | 0, _ => none
  | count + 1, cs => do
    let (part, rest) ← keyPart? (skipSpaces cs)
    match skipSpaces rest with
    | '.' :: rest =>
      let (key, rest) ← key? count rest
      return ({ key with path := part :: key.path }, rest)
    | rest => return (⟨[], part⟩, rest)

/-! ### Values -/

/-- What was read, if `rest` is left of `cs`. -/
def written (cs rest : List Char) : List Char := cs.take (cs.length - rest.length)

/-- Reads a value that holds no others. -/
def scalar? : List Char → Option (Value × List Char)
  | 't' :: 'r' :: 'u' :: 'e' :: rest => some (.boolean true, rest)
  | 'f' :: 'a' :: 'l' :: 's' :: 'e' :: rest => some (.boolean false, rest)
  | cs =>
    -- Dates and floats start like integers, so they are tried before them.
    match text? cs, moment? cs, float? cs, integer? cs with
    | some (text, rest), _, _, _ => some (.text text, rest)
    | none, some rest, _, _ => some (.moment (written cs rest), rest)
    | none, none, some rest, _ => some (.float (written cs rest), rest)
    | none, none, none, some (n, rest) => some (.integer n, rest)
    | none, none, none, none => none

/-- Reads the items of a list, behind its opening bracket or a comma, and the closing bracket. -/
def items? (value : List Char → Option (Value × List Char)) :
    (fuel : Nat) → List Char → Option (List Value × List Char)
  | 0, _ => none
  | fuel + 1, cs =>
    match skipVoid cs.length cs with
    -- The list is empty, or its last item was followed by a comma.
    | ']' :: rest => some ([], rest)
    | cs => do
      let (item, rest) ← value cs
      match skipVoid rest.length rest with
      | ',' :: rest =>
        let (items, rest) ← items? value fuel rest
        return (item :: items, rest)
      | ']' :: rest => return ([item], rest)
      | _ => none

/-- Reads a key and its value. -/
def field? (value : List Char → Option (Value × List Char)) (cs : List Char) :
    Option (Key × Value × List Char) := do
  let (key, rest) ← key? maxDepth cs
  let (value, rest) ← value (skipSpaces (← skip? '=' rest))
  return (key, value, rest)

/-- Reads the fields of a table in braces, behind the opening one or a comma, and the closing
brace. -/
def fields? (value : List Char → Option (Value × List Char)) :
    (fuel : Nat) → Value → List Char → Option (Value × List Char)
  | 0, _, _ => none
  | fuel + 1, table, cs => do
    let (key, value', rest) ← field? value cs
    let table ← Value.defineAt key.path key.name value' table
    match skipSpaces rest with
    | ',' :: rest => fields? value fuel table rest
    | '\x7d' :: rest => return (table, rest)
    | _ => none

/-- Reads a value that is nested at most `depth` levels deep. -/
def value? : (depth : Nat) → List Char → Option (Value × List Char)
  | depth + 1, '[' :: rest => do
    let (items, rest) ← items? (value? depth) (rest.length + 1) rest
    return (.array false items, rest)
  | depth + 1, '\x7b' :: rest =>
    match skipSpaces rest with
    | '\x7d' :: rest => some (.table .braces [], rest)
    | _ => fields? (value? depth) (rest.length + 1) (.table .braces []) rest
  | _, cs => scalar? cs

/-! ### Documents -/

/-- Reads the lines of a document.  The fields belong to the table of the keys `header`. -/
def lines? : (fuel : Nat) → (document : Value) → (header : List (List Char)) → List Char →
    Option Value
  | 0, _, _, _ => none
  | _, document, _, [] => some document
  | fuel + 1, document, header, cs =>
    match lineEnd? cs, skipSpaces cs with
    -- A line without content.
    | some rest, _ => lines? fuel document header rest
    -- One more table of an array of tables.
    | none, '[' :: '[' :: rest => do
      let (key, rest) ← key? maxDepth rest
      let rest ← lineEnd? (← skip? ']' (← skip? ']' rest))
      let document ← document.within .inner (Value.openItem key.name) key.path
      lines? fuel document key.parts rest
    -- A table.
    | none, '[' :: rest => do
      let (key, rest) ← key? maxDepth rest
      let rest ← lineEnd? (← skip? ']' rest)
      let document ← document.within .inner (Value.openTable key.name) key.path
      lines? fuel document key.parts rest
    -- A field.
    | none, cs => do
      let (key, value, rest) ← field? (value? maxDepth) cs
      let rest ← lineEnd? rest
      let document ← document.within .inner (Value.defineAt key.path key.name value) header
      lines? fuel document header rest

/-- Reads a document.  A byte order mark at its start does not count. -/
def document? (cs : List Char) : Option Value :=
  let cs := match cs with
    | '\uFEFF' :: rest => rest
    | _ => cs
  lines? (cs.length + 1) (.table .header []) [] cs

end CApiUpgrade.Toml
