/-!
# Lines

A line ends at a newline, at a carriage return, or at a carriage return and a newline together.
The end belongs to the line.  Only the last line may go without one.
-/

namespace CApiUpgrade.Text

/-- Puts a character in front of the first line. -/
def addToFirst (c : Char) : List (List Char) → List (List Char)
  | [] => [[c]]
  | line :: rest => (c :: line) :: rest

/-- The lines of a text, each with its end. -/
def lines : List Char → List (List Char)
  | [] => []
  | '\r' :: '\n' :: rest => ['\r', '\n'] :: lines rest
  | c :: rest => if c == '\n' || c == '\r' then [c] :: lines rest else addToFirst c (lines rest)

theorem flatten_addToFirst (c : Char) (ls : List (List Char)) :
    (addToFirst c ls).flatten = c :: ls.flatten := by
  cases ls <;> simp [addToFirst]

/-- **Nothing is lost.** The lines of a text make up the text. -/
theorem flatten_lines (text : List Char) : (lines text).flatten = text := by
  fun_induction lines text <;> simp_all [flatten_addToFirst]

/-- Whether a line has its end. -/
def hasLineEnd (line : List Char) : Bool :=
  line.getLast?.any fun c => c == '\n' || c == '\r'

end CApiUpgrade.Text
