import CApiUpgrade.Regex.Parser
import CApiUpgrade.Regex.Search

/-!
# Templates

A template is the text that takes the place of a match.  It mixes plain text with references to
groups, written `$name` or between braces; `$$` is a plain dollar sign, and so is a dollar sign
that starts no reference.  A reference is to the group of that name, or, failing that, to the group
of that number, zero being the whole match.  A group that does not exist or took no part leaves
nothing.  What a group leaves is never read as a template again.
-/

namespace CApiUpgrade

/-- A part of a template. -/
inductive TemplatePart where
  /-- Text that stands for itself. -/
  | plain (text : String)
  /-- A reference to a group. -/
  | group (name : String)
  deriving DecidableEq, Repr

/-- A text with references to groups. -/
abbrev Template := List TemplatePart

namespace Template

/-! ### Written form -/

/-- Writes a template, each reference between braces. -/
def source (t : Template) : String :=
  String.join (t.map fun
    | .plain text => text.replace "$" "$$"
    | .group name => "$\x7b" ++ name ++ "\x7d")

/-- Puts a character in front of a template. -/
def cons (c : Char) : Template → Template
  | .plain text :: rest => .plain (String.ofList (c :: text.toList)) :: rest
  | rest => .plain c.toString :: rest

/-- The name at the start of `cs`, between braces or bare, and the rest. -/
def reference? (cs : List Char) : Option (String × List Char) :=
  let bare (cs : List Char) : Option (String × List Char) :=
    match cs.takeWhile Text.isNameChar with
    | [] => none
    | name => some (String.ofList name, cs.dropWhile Text.isNameChar)
  match cs with
  | '\x7b' :: rest =>
    match bare rest with
    | some (name, '\x7d' :: rest) => some (name, rest)
    | _ => none
  | _ => bare cs

/-- Reads a written template of fewer than `fuel` characters. -/
def parseFrom : (fuel : Nat) → List Char → Template
  | 0, _ | _, [] => []
  | fuel + 1, '$' :: '$' :: rest => cons '$' (parseFrom fuel rest)
  | fuel + 1, '$' :: rest =>
    match reference? rest with
    | some (name, rest) => .group name :: parseFrom fuel rest
    | none => cons '$' (parseFrom fuel rest)
  | fuel + 1, c :: rest => cons c (parseFrom fuel rest)

/-- Reads a written template. -/
def parse (source : String) : Template :=
  parseFrom (source.toList.length + 1) source.toList

/-! ### Expansion -/

/-- What a reference stands for in a match of an expression with the given groups. -/
def resolve (groups : GroupTable) (hit : Hit) (name : String) : List Char :=
  let named := (groups.names.lookup name).bind hit.group?
  let numbered := match Text.number? name with
    | some 0 => some hit.text
    | some (n + 1) => groups.keys[n]?.bind hit.group?
    | none => none
  (named <|> numbered).getD []

/-- The text that takes the place of a match. -/
def expand (t : Template) (groups : GroupTable) (hit : Hit) : List Char :=
  t.flatMap fun
    | .plain text => text.toList
    | .group name => resolve groups hit name

/-- Whether the written form of the template holds a dollar sign. -/
def hasDollar (t : Template) : Bool :=
  t.any fun
    | .plain text => text.toList.contains '$'
    | .group _ => true

end Template

end CApiUpgrade
