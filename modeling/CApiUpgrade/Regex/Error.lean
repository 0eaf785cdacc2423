/-!
# Why an expression is refused

The causes for which a written regular expression is refused.
-/

namespace CApiUpgrade

/-- Why a written expression is refused. -/
inductive RegexError where
  /-- A group is opened and not closed. -/
  | unclosedGroup
  /-- A group is closed and was not opened. -/
  | unopenedGroup
  /-- The opening of a group is not one of the known ones. -/
  | unknownGroupKind
  /-- Too many groups are open at the same time. -/
  | tooDeep
  /-- A condition decides about nothing. -/
  | idleCondition
  /-- A class is opened and not closed. -/
  | unclosedClass
  /-- The bounds of a range of characters are not two characters in order. -/
  | badRange
  /-- The expression ends in a backslash, or an escape is not one of the known ones. -/
  | badEscape
  /-- There is no property of characters of that name. -/
  | unknownProperty
  /-- A repetition follows nothing that can be repeated. -/
  | nothingToRepeat
  /-- The upper bound of a repetition is below the lower one, or a bound is too large. -/
  | badBounds
  /-- A back reference names no group. -/
  | unknownGroup (name : String)
  /-- A back reference goes by number although groups have names. -/
  | numberBesideNames
  /-- An assertion looks back over texts of different lengths and cannot be read backwards. -/
  | unfixedLookbehind
  /-- An automaton for the expression would take too much space. -/
  | tooLarge
  deriving DecidableEq, Repr

end CApiUpgrade
