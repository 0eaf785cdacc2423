import CApiUpgrade.Pattern

/-!
# Rules

A rule is a named upgrade of source text: an ordered list of patterns, each applied to what the
one before it left.  A rule answers for the whole text or fails as a whole.
-/

namespace CApiUpgrade

/-- A named upgrade. -/
structure Rule where
  /-- The name by which the rule is selected and reported. -/
  name : String
  /-- What the rule does, in one sentence. -/
  description : String
  /-- The patterns, in the order in which they are applied. -/
  patterns : List Pattern
  /-- Whether what the rule writes is declared by the compatibility header only. -/
  needsHeader : Bool := false
  /-- The rules that have to be applied before this one. -/
  runsAfter : List String := []

namespace Rule

/-- Applies the patterns one after another. -/
def apply (rule : Rule) (text : List Char) : Except PatternError (List Char) :=
  rule.patterns.foldlM (fun text p => do return (← p.apply text).getD text) text

/-- The patterns that match when they are applied one after another: the index of each, and the
text that it leaves.  A pattern may match and leave the text as it was. -/
def trace (rule : Rule) (text : List Char) : Except PatternError (List (Nat × List Char)) :=
  go 0 text rule.patterns
where
  /-- The patterns from the given index on. -/
  go (index : Nat) (text : List Char) : List Pattern → Except PatternError (List (Nat × List Char))
    | [] => return []
    | p :: rest => do
      match ← p.apply text with
      | some text => return (index, text) :: (← go (index + 1) text rest)
      | none => go (index + 1) text rest

end Rule

end CApiUpgrade
