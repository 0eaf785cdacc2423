import CApiUpgrade.Catalog.Allocation
import CApiUpgrade.Catalog.Field

/-!
# Reference counts

The rules of this file fold runs of statements that maintain reference counts into one call.

A fold works on *adjacent* statements.  They either share a line, the first one standing at the
start of the line or behind `;` or an opening brace, or they stand on consecutive lines with the
same indentation.  A statement with another indentation belongs to another block and is never
folded.  Nor is a run that starts right behind a line with the header of a control statement:
its first statement is the body of that header, even where the indentation does not show it.
-/

namespace CApiUpgrade.Catalog

open Regex

/-! ### Adjacent statements -/

/-- How a line ends whose next line is the body of a control statement: with a closing
parenthesis, `else` or `do`, then up to two blanks and the end of the line. -/
def controlEnds : List Regex :=
  let word := Chain.wordItems
  [char ')', except word ++ literal "else", except word ++ literal "do"].flatMap fun header =>
    [[], [gap], [times 2 gap]].flatMap fun trailing =>
      [literal "\n", literal "\r\n"].map fun lineEnd =>
        seq (header :: trailing ++ [lineEnd])

/-- Not right behind the header of a control statement. -/
def notControlled : Regex :=
  seq (controlEnds.map notAfter)

/-- The statements of a list with a separator between them. -/
def joined (separator : Regex) : List Regex → Regex
  | [] => empty
  | [r] => r
  | r :: rest => r ++ separator ++ joined separator rest

/-- A run of statements on consecutive lines, their indentation captured as `indent`. -/
def onLines (statements : List Regex) : Regex :=
  anchor .lineStart ++ notControlled ++ group "indent" (many gap) ++
    joined (many gap ++ optional (char '\r') ++ char '\n' ++ backReference "indent") statements

/-- A run of statements on one line, what stands in front of it captured as `lead`. -/
def onOneLine (statements : List Regex) : Regex :=
  group "lead"
      (alt (anchor .lineStart ++ notControlled ++ many gap)
        (among [.char '\x7b', .char ';'] ++ many gap)) ++
    joined (many gap) statements

/-- The two patterns that replace a run of adjacent statements.  What stands in front of the run
is kept. -/
def adjacent (statements : List Regex) (replacement : Template) : List Pattern :=
  [.ofRegex (onLines statements) (.group "indent" :: replacement),
    .ofRegex (onOneLine statements) (.group "lead" :: replacement)]

/-! ### Statements -/

/-- A call statement with one argument, captured under a name. -/
def callStatement (function name : String) (argument : Regex) : Regex :=
  wordEdge ++ literal function ++ char '(' ++ blanks ++ group name argument ++ blanks ++
    literal ");"

/-- The cast `(PyObject *)`.  It is dropped where a call already returns that type. -/
def objectCast : Regex :=
  char '(' ++ blanks ++ literal "PyObject" ++ blanks ++ char '*' ++ blanks ++ char ')' ++ blanks

/-- A cast to some pointer type. -/
def pointerCast : Regex :=
  char '(' ++ blanks ++ optional (literal "struct" ++ blanks1) ++ Chain.identifier ++ blanks ++
    char '*' ++ blanks ++ char ')' ++ blanks

/-- A cast that may stand in front of a stored variable.  Any cast but `(PyObject *)` is captured
as `cast`. -/
def valueCast : Regex :=
  optional (alt objectCast (group "cast" pointerCast))

/-- A type name and stars, as in front of a declared variable. -/
def declaredPointer : Regex :=
  optional (Chain.identifier ++ blanks ++ many1 (char '*') ++ blanks)

/-- The left side of an assignment, captured as `target`; without the type that it may declare
it is captured as `lvalue`. -/
def assignTarget : Regex :=
  group "target" (declaredPointer ++ group "lvalue" Chain.dereferenced)

/-- An equals sign, captured with the blanks around it as `eq`. -/
def equals : Regex :=
  group "eq" (blanks ++ char '=' ++ blanks)

/-- The end of a statement. -/
def endOfStatement : Regex :=
  blanks ++ char ';'

/-- The group `slot` and an equals sign. -/
def slotEquals : Regex :=
  backReference "slot" ++ blanks ++ char '=' ++ blanks

/-- A value other than `NULL` stored in the slot. -/
def slotStore : Regex :=
  slotEquals ++
    group "value" (notBefore (literal "NULL" ++ blanks ++ char ';') ++ assignedValue) ++
    endOfStatement

/-! ### Rules -/

/-- `Py_XDECREF(slot); slot = NULL;` becomes `Py_CLEAR(slot);`.  After a plain `Py_DECREF` the
slot is known not to be null and `Py_CLEAR` would hide that, so there is no such fold. -/
def clear : Rule where
  name := "Py_CLEAR"
  description := "replace \"Py_XDECREF(var); var = NULL;\" with \"Py_CLEAR(var);\""
  patterns :=
    adjacent
      [callStatement "Py_XDECREF" "slot" Chain.dereferenced,
        slotEquals ++ literal "NULL" ++ endOfStatement]
      [.plain "Py_CLEAR(", .group "slot", .plain ");"]

/-- A macro that adds a reference, and the function that returns a new one. -/
def increments : List (String × String) :=
  [("Py_INCREF", "Py_NewRef"), ("Py_XINCREF", "Py_XNewRef")]

/-- A macro that drops a reference, and the macro that replaces the value of a slot. -/
def decrements : List (String × String) :=
  [("Py_DECREF", "Py_SETREF"), ("Py_XDECREF", "Py_XSETREF"), ("Py_CLEAR", "Py_XSETREF")]

/-- The folds of one macro that adds a reference: in front of a return, in front of an assignment
and behind an assignment, in this order.  Behind an assignment the macro may name either side. -/
def newRefFolds (increment newRef : String) : List Pattern :=
  let added := callStatement increment "var" Chain.identifier
  let result : Template :=
    [.group "cast", .plain (newRef ++ "("), .group "var", .plain ");"]
  let stored : Template := [.group "target", .group "eq"] ++ result
  adjacent
      [added, literal "return" ++ blanks1 ++ valueCast ++ backReference "var" ++ endOfStatement]
      (.plain "return " :: result) ++
    adjacent
      [added, assignTarget ++ equals ++ valueCast ++ backReference "var" ++ endOfStatement]
      stored ++
    adjacent
      [assignTarget ++ equals ++ valueCast ++
          group "var" (notBefore (literal "NULL" ++ wordEdge) ++ Chain.identifier) ++
          endOfStatement,
        wordEdge ++ literal increment ++ char '(' ++ blanks ++
          alt (backReference "var") (backReference "lvalue") ++ blanks ++ literal ");"]
      stored

/-- Folds the increment of a count into the statement that returns or stores the object. -/
def newRef : Rule where
  name := "Py_NewRef"
  description :=
    "replace \"Py_INCREF(obj); return obj;\" with \"return Py_NewRef(obj);\", " ++
    "and \"Py_INCREF(obj); var = obj;\" with \"var = Py_NewRef(obj);\""
  patterns := increments.flatMap fun (increment, newRef) => newRefFolds increment newRef
  needsHeader := true

/-- A call that replaces the value of the slot. -/
def replaceSlot (setRef : String) (value : Template) : Template :=
  [.plain (setRef ++ "("), .group "slot", .plain ", "] ++ value ++ [.plain ");"]

/-- The folds that replace the value of a slot by a variable with a new reference: the increment
and the decrement stand in front of the store in either order. -/
def setNewRefFolds (decrement setRef increment newRef : String) : List Pattern :=
  let added := callStatement increment "var" Chain.identifier
  let dropped := callStatement decrement "slot" Chain.dereferenced
  let store := slotEquals ++ optional objectCast ++ backReference "var" ++ endOfStatement
  let result := replaceSlot setRef [.plain (newRef ++ "("), .group "var", .plain ")"]
  adjacent [added, dropped, store] result ++ adjacent [dropped, added, store] result

/-- The fold that replaces the value of a slot whose old value is dropped first. -/
def setRefFolds (decrement setRef : String) : List Pattern :=
  adjacent [callStatement decrement "slot" Chain.dereferenced, slotStore]
    (replaceSlot setRef [.group "value"])

/-- The fold that replaces the value of a slot whose old value is kept in a variable and dropped
last. -/
def keptRefFolds (decrement setRef : String) : List Pattern :=
  adjacent
    [declaredPointer ++ group "old" Chain.identifier ++ blanks ++ char '=' ++ blanks ++
        optional pointerCast ++ group "slot" Chain.dereferenced ++ endOfStatement,
      slotStore,
      wordEdge ++ literal decrement ++ char '(' ++ blanks ++ backReference "old" ++ blanks ++
        literal ");"]
    (replaceSlot setRef [.group "value"])

/-- Folds the release of the old value of a slot and the store of a new one.  A store of `NULL` is
left to `clear`. -/
def setRef : Rule where
  name := "Py_SETREF"
  description :=
    "replace \"Py_DECREF(obj); obj = new;\" with \"Py_SETREF(obj, new);\", " ++
    "and \"Py_XDECREF(obj); obj = new;\" with \"Py_XSETREF(obj, new);\""
  patterns :=
    (decrements.flatMap fun (decrement, setRef) =>
      increments.flatMap fun (increment, newRef) =>
        setNewRefFolds decrement setRef increment newRef) ++
    (decrements.flatMap fun (decrement, setRef) => setRefFolds decrement setRef) ++
    ((decrements.take 2).flatMap fun (decrement, setRef) => keptRefFolds decrement setRef)
  needsHeader := true
  runsAfter := ["Py_CLEAR", "Py_NewRef"]

end CApiUpgrade.Catalog
