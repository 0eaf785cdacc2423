import CApiUpgrade.Regex.Cursor
import CApiUpgrade.Text.Word

/-!
# Conditions on positions

An `Anchor` is a condition that a position of the text meets or not.  It depends on no more than
the two characters next to the position.
-/

namespace CApiUpgrade

/-- A condition on a position of the text that uses up no character. -/
inductive Anchor where
  /-- The very start of the text. -/
  | textStart
  /-- The very end of the text. -/
  | textEnd
  /-- The start of the text, or right after a newline. -/
  | lineStart
  /-- The end of the text, or right before a newline. -/
  | lineEnd
  /-- Between a word character and something else. -/
  | wordEdge
  /-- Anywhere that is not a word edge. -/
  | wordInside
  /-- Right in front of a word. -/
  | wordStart
  /-- Right behind a word. -/
  | wordEnd
  /-- Not behind a word character. -/
  | noWordBefore
  /-- Not in front of a word character. -/
  | noWordAfter
  deriving DecidableEq, Repr

namespace Anchor

/-- Whether the condition holds. -/
def holds (a : Anchor) (cur : Cursor) : Bool :=
  let left := cur.before.head?
  let right := cur.after.head?
  let wordLeft := left.any Text.isWord
  let wordRight := right.any Text.isWord
  match a with
  | textStart => left.isNone
  | textEnd => right.isNone
  | lineStart => left.all (· == '\n')
  | lineEnd => right.all (· == '\n')
  | wordEdge => wordLeft != wordRight
  | wordInside => wordLeft == wordRight
  | wordStart => !wordLeft && wordRight
  | wordEnd => wordLeft && !wordRight
  | noWordBefore => !wordLeft
  | noWordAfter => !wordRight

/-- Whether the condition is about starts or ends of lines. -/
def isAboutLines : Anchor → Bool
  | lineStart | lineEnd => true
  | _ => false

/-- Whether the condition is about the edges of words. -/
def isAboutWords : Anchor → Bool
  | textStart | textEnd | lineStart | lineEnd => false
  | _ => true

end Anchor

end CApiUpgrade
