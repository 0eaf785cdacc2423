import CApiUpgrade.Regex.Source

/-!
# Member chains

What the rules take for an expression of C: a chain of members such as `a->b.c[2]->d`.  It is a
shape of raw text and not of a parsed program, and it is the same for all rules.

A chain never ends in front of an opening parenthesis, so the result of a call is no chain: in
`func()->ob_type` nothing stands in front of the arrow that a rule would accept.
-/

namespace CApiUpgrade.Chain

open Regex

/-- The letters of the English alphabet, small ones first. -/
def letters : List ClassItem := [.range 'a' 'z', .range 'A' 'Z']

/-- The characters of an identifier. -/
def wordItems : List ClassItem := [.range 'A' 'Z', .range 'a' 'z', .range '0' '9', .char '_']

/-- An identifier: a letter, then letters, digits and underscores. -/
def identifier : Regex :=
  among letters ++ many (among (letters ++ [.range '0' '9', .char '_']))

/-- An index between brackets, on one line. -/
def index : Regex :=
  char '[' ++ many1 (except [.char ']', .char '\n']) ++ char ']'

/-- An identifier and any number of indices: `array`, `m[i][j]`. -/
def indexed : Regex :=
  identifier ++ many index

/-- The step from a member to the next one. -/
def hop : Regex :=
  blanks ++ alt (literal "->") (char '.') ++ blanks ++ indexed

/-- A chain of members that is not called: `frame`, `obj->attr`, `a->b.c[2]->d`. -/
def chain : Regex :=
  indexed ++ many hop ++ notBefore (blanks ++ char '(')

/-- A chain behind any number of dereferences: `*obj`, `**slot`. -/
def dereferenced : Regex :=
  many (char '*') ++ chain

/-- Where a chain may start: not inside of an identifier and not halfway down a chain. -/
def chainStart : Regex :=
  notAfter (among (wordItems ++ [.char '.'])) ++ notAfter (literal "->")

/-- A chain, captured as `expr`, and the arrow to one of its members. -/
def memberArrow : Regex :=
  chainStart ++ group "expr" chain ++ blanks ++ literal "->" ++ blanks

/-- The access to a member, the chain in front of it captured as `expr`. -/
def memberAccess (member : String) : Regex :=
  memberArrow ++ literal member ++ wordEdge

/-- The written form of an access to any member that the written expression `member` matches. -/
def memberAccessSource (member : String) : String :=
  memberArrow.source ++ member ++ wordEdge.source

end CApiUpgrade.Chain
