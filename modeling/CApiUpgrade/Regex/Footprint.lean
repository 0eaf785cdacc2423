import CApiUpgrade.Regex.Basic
import CApiUpgrade.Regex.Error
import CApiUpgrade.Text.Utf8

/-!
# The space that an expression takes

An expression that is not charged is refused if an automaton over the bytes of UTF-8 would take
more than ten mebibytes for it.  `Regex.footprint` counts: 32 bytes for a state and a few more for
the transitions of a state.  A repetition counts once for every round that is laid out.
-/

namespace CApiUpgrade

/-- The space of a state. -/
def stateSize : Nat := 32

/-- The space of the states for a class.  A class of ASCII characters takes one state, any other one
a tree over the byte sequences of its characters. -/
def CharClass.footprint (cls : CharClass) : Nat :=
  let table := cls.table.toList
  if table.all fun (_, hi) => decide (hi < 128) then 2 * stateSize + 8 * table.length
  else
    let sequences := table.flatMap fun (lo, hi) => Text.Utf8.sequences lo hi
    (Text.Utf8.beginnings [] sequences + 2) * stateSize + 4 * sequences.length

namespace Regex

/-- The space of a state that branches in two. -/
def forkSize : Nat := stateSize + 8

/-- The space of an automaton for an expression, in bytes. -/
def footprint : Regex → Nat
  | char c => c.utf8Size * stateSize
  | oneOf cls => cls.footprint
  | category kind negated => (CharClass.ofCategory kind negated).footprint
  | any newline => (CharClass.any newline).footprint
  | cat a b => a.footprint + b.footprint
  | alt a b => a.footprint + b.footprint + forkSize + stateSize
  | group _ body => body.footprint + 2 * stateSize
  | repeated body least none _ =>
    if least = 0 then body.footprint + 2 * forkSize + stateSize
    else least * body.footprint + forkSize
  | repeated body least (some most) _ =>
    most * body.footprint + (most - least) * forkSize + stateSize
  | linear body _ => body.footprint
  | _ => stateSize

/-- The greatest space that an expression may take. -/
def maxFootprint : Nat := 10 * 1024 * 1024

/-- The greatest bound of a repetition that an automaton can count to. -/
def maxBound : Nat := 0xffffffff

/-- Whether the bounds of all repetitions are in order and not too large. -/
def hasSoundBounds : Regex → Bool
  | cat a b | alt a b => a.hasSoundBounds && b.hasSoundBounds
  | group _ body | linear body _ => body.hasSoundBounds
  | repeated body least most _ =>
    least ≤ maxBound && most.all (fun n => least ≤ n && n ≤ maxBound) && body.hasSoundBounds
  | _ => true

/-- Refuses an expression for which no automaton can be assembled. -/
def checkSize (r : Regex) : Except RegexError Unit :=
  if !r.hasSoundBounds then .error .badBounds
  else if maxFootprint < r.footprint then .error .tooLarge
  else .ok ()

end Regex

end CApiUpgrade
