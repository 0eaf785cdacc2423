import CApiUpgrade.Regex.Automaton

/-!
# Regular expressions

The patterns of the catalog are regular expressions with named groups, back references and
assertions about the neighbourhood of a position.  This file holds their abstract form, the
small vocabulary in which the catalog writes them, and the facts about an expression that can be
read off its shape: the names of its groups, how much text it can match, and whether a search
for it is charged against a budget.

A group is known by its name.  A group without a name is known by its number, counted by opening
parentheses from one.
-/

namespace CApiUpgrade

/-- The text that an assertion looks at. -/
inductive Direction where
  /-- The text that follows. -/
  | ahead
  /-- The text of the given width that ends here. -/
  | behind (width : Nat)
  deriving DecidableEq, Repr

/-- A regular expression. -/
inductive Regex where
  /-- Matches the empty text. -/
  | empty
  /-- Matches one given character. -/
  | char (c : Char)
  /-- Matches one character of a class. -/
  | oneOf (cls : CharClass)
  /-- Matches one character of a kind, or one of any other kind. -/
  | category (kind : Category) (negated : Bool)
  /-- Matches any one character; a newline only if `newline` is set. -/
  | any (newline : Bool)
  /-- Matches the empty text where the condition holds. -/
  | anchor (a : Anchor)
  /-- Matches `first`, then `second`. -/
  | cat (first second : Regex)
  /-- Matches `first`, or, failing that, `second`. -/
  | alt (first second : Regex)
  /-- Matches `body` and remembers what it matched under `name`. -/
  | group (name : String) (body : Regex)
  /-- Matches `body` at least `least` times and at most `most` times.  A greedy repetition tries
  the larger counts first, a lazy one the smaller. -/
  | repeated (body : Regex) (least : Nat) (most : Option Nat) (greedy : Bool)
  /-- Matches the empty text where `body` matches in the given direction, or, if negated, where
  it does not. -/
  | look (direction : Direction) (negated : Bool) (body : Regex)
  /-- Matches `body` in the first way that it can and never in another. -/
  | atomic (body : Regex)
  /-- Matches once more the text that the group `name` matched last, perhaps in other letter
  case. -/
  | backReference (name : String) (anyCase : Bool := false)
  /-- Matches the empty text if the group `name` has matched. -/
  | isSet (name : String)
  /-- Matches `condition` in the first way that it can and then `yes`, or, where the condition does
  not match, `no`. -/
  | conditional (condition yes no : Regex)
  /-- Matches the empty text.  The whole match starts here, whatever was matched before. -/
  | keepOut
  /-- Matches the empty text where the search has started, or in front of it. -/
  | resume
  /-- Matches `body` in the way that the automaton for it prefers. -/
  | linear (body : Regex) (machine : Automaton)
  /-- Matches the empty text where a match of `body` ends, or, if negated, where none ends.  The
  automaton `back` finds its start from right to left, the automaton `forth` its groups. -/
  | lookBack (negated : Bool) (body : Regex) (back forth : Automaton)
  deriving DecidableEq, Repr

namespace Regex

/-! ### Facts read off the shape -/

/-- The names of the groups, in the order of their opening parentheses. -/
def groups : Regex → List String
  | cat a b | alt a b => a.groups ++ b.groups
  | group name body => name :: body.groups
  | repeated body _ _ _ | look _ _ body | atomic body => body.groups
  | linear body _ | lookBack _ body _ _ => body.groups
  | conditional c a b => c.groups ++ a.groups ++ b.groups
  | _ => []

/-- The least number of characters that a match uses up. -/
def minWidth : Regex → Nat
  | char _ | oneOf _ | category _ _ | any _ => 1
  | cat a b => a.minWidth + b.minWidth
  | alt a b => min a.minWidth b.minWidth
  | group _ body | atomic body | linear body _ => body.minWidth
  | repeated body least _ _ => least * body.minWidth
  | conditional c a b => c.minWidth + min a.minWidth b.minWidth
  | _ => 0

/-- Whether a search for the expression is charged against a budget.  Assertions about the
neighbourhood and about words, atomic parts, back references and conditions are charged; an
expression without any of them may be searched for at no charge. -/
def isCharged : Regex → Bool
  | empty | char _ | oneOf _ | category _ _ | any _ | linear _ _ => false
  | anchor a => a.isAboutWords
  | cat a b | alt a b => a.isCharged || b.isCharged
  | group _ body | repeated body _ _ _ => body.isCharged
  | look _ _ _ | atomic _ | backReference _ _ | isSet _ | conditional _ _ _ | keepOut | resume
  | lookBack _ _ _ _ => true

/-- Whether the expression asks about starts or ends of lines. -/
def asksAboutLines : Regex → Bool
  | anchor a => a.isAboutLines
  | cat a b | alt a b => a.asksAboutLines || b.asksAboutLines
  | group _ body | repeated body _ _ _ | look _ _ body | atomic body => body.asksAboutLines
  | linear body _ | lookBack _ body _ _ => body.asksAboutLines
  | conditional c a b => c.asksAboutLines || a.asksAboutLines || b.asksAboutLines
  | _ => false

/-! ### Vocabulary

The words in which the catalog writes its expressions. -/

instance : Append Regex := ⟨cat⟩

/-- The expressions of a list, one after another. -/
def seq : List Regex → Regex
  | [] => empty
  | [r] => r
  | r :: rest => r ++ seq rest

/-- The expressions of a list as alternatives, the first one preferred. -/
def choice : List Regex → Regex
  | [] => empty
  | [r] => r
  | r :: rest => alt r (choice rest)

/-- The characters of a text, one after another. -/
def literal (text : String) : Regex :=
  seq (text.toList.map char)

/-- One character of the listed items. -/
def among (items : List ClassItem) : Regex := oneOf ⟨false, items⟩

/-- One character of none of the listed items. -/
def except (items : List ClassItem) : Regex := oneOf ⟨true, items⟩

/-- Any number of times, as often as possible. -/
def many (body : Regex) : Regex := repeated body 0 none true

/-- At least once, as often as possible. -/
def many1 (body : Regex) : Regex := repeated body 1 none true

/-- Any number of times, as seldom as possible. -/
def manyLazy (body : Regex) : Regex := repeated body 0 none false

/-- At least once, as seldom as possible. -/
def many1Lazy (body : Regex) : Regex := repeated body 1 none false

/-- Once if possible, else not at all. -/
def optional (body : Regex) : Regex := repeated body 0 (some 1) true

/-- Exactly `n` times. -/
def times (n : Nat) (body : Regex) : Regex := repeated body n (some n) true

/-- Only where `body` does not match the text that follows. -/
def notBefore (body : Regex) : Regex := look .ahead true body

/-- Only where no match of `body` ends.  Every match of `body` has to use up the same number of
characters. -/
def notAfter (body : Regex) : Regex := look (.behind body.minWidth) true body

/-- Any number of blank characters. -/
def blanks : Regex := many (category .blank false)

/-- At least one blank character. -/
def blanks1 : Regex := many1 (category .blank false)

/-- Only between a word character and something else. -/
def wordEdge : Regex := anchor .wordEdge

end Regex

end CApiUpgrade
