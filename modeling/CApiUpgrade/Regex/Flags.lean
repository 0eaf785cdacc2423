import CApiUpgrade.Regex.Error
import CApiUpgrade.Text.Property

/-!
# Reading regular expressions: flags, spacing and names

Flags change how the text behind them is read.  Comments between the tokens of an expression are
left out, and so are blanks where the flags say so.
-/

namespace CApiUpgrade

/-- The flags that change how an expression is read. -/
structure RegexFlags where
  /-- Letters stand for all of their cases. -/
  ignoreCase : Bool := false
  /-- `^` and `$` are about lines. -/
  lines : Bool := false
  /-- `.` stands for a newline, too. -/
  dotAll : Bool := false
  /-- Blanks between tokens do not count, and `#` starts a comment. -/
  spaced : Bool := false
  /-- Repetitions are lazy, and those with a question mark are greedy. -/
  lazy : Bool := false
  deriving DecidableEq, Repr

namespace RegexFlags

/-- Turns the flag with the given letter on or off.  Patterns are always about characters, so that
flag can only be turned on. -/
def set? (f : RegexFlags) (letter : Char) (on : Bool) : Option RegexFlags :=
  match letter with
  | 'i' => some { f with ignoreCase := on }
  | 'm' => some { f with lines := on }
  | 's' => some { f with dotAll := on }
  | 'x' => some { f with spaced := on }
  | 'U' => some { f with lazy := on }
  | 'u' => if on then some f else none
  | _ => none

/-! ### Spacing -/

/-- Whether a character is left out between tokens where blanks do not count. -/
def isSpacing (c : Char) : Bool := c == ' ' || c == '\n' || c == '\r' || c == '\t'

/-- What stands behind a comment in parentheses, in which a backslash hides the next character. -/
def afterComment? : List Char → Option (List Char)
  | [] => none
  | ')' :: rest => some rest
  | '\\' :: _ :: rest => afterComment? rest
  | _ :: rest => afterComment? rest

/-- What stands behind the spacing at the start of a text shorter than `fuel`. -/
def skipFrom (f : RegexFlags) : (fuel : Nat) → List Char → Except RegexError (List Char)
  | 0, cs => .ok cs
  | _, [] => .ok []
  | fuel + 1, '(' :: '?' :: '#' :: rest =>
    match afterComment? rest with
    | some rest => f.skipFrom fuel rest
    | none => .error .unclosedGroup
  | fuel + 1, c :: rest =>
    if f.spaced && c == '#' then f.skipFrom fuel ((rest.dropWhile (· != '\n')).drop 1)
    else if f.spaced && isSpacing c then f.skipFrom fuel rest
    else .ok (c :: rest)

/-- What stands behind comments and, where they do not count, blanks. -/
def skip (f : RegexFlags) (cs : List Char) : Except RegexError (List Char) :=
  f.skipFrom (cs.length + 1) cs

/-- The same, or nothing at all behind a comment that does not end. -/
def skip? (f : RegexFlags) (cs : List Char) : Option (List Char) := (f.skip cs).toOption

end RegexFlags

/-! ### Names -/

/-- A name that ends at `stop`, and the rest behind it. -/
def nameUpTo? (stop : Char) (cs : List Char) : Option (String × List Char) :=
  match cs.takeWhile Text.isNameChar, cs.dropWhile Text.isNameChar with
  | c :: name, d :: rest => if d == stop then some (String.ofList (c :: name), rest) else none
  | _, _ => none

end CApiUpgrade
