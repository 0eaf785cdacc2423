import CApiUpgrade.Catalog.Chain
import CApiUpgrade.Rule

/-!
# Comparisons with singletons

`x == Py_None` becomes `Py_IsNone(x)` and `x != Py_None` becomes `!Py_IsNone(x)`, and likewise for
`Py_True` and `Py_False`.
-/

namespace CApiUpgrade.Catalog

open Regex

/-- The singletons and the functions that test for them. -/
def singletons : List (String × String) :=
  [("Py_None", "Py_IsNone"), ("Py_True", "Py_IsTrue"), ("Py_False", "Py_IsFalse")]

/-- Where an operand may start: not inside of an identifier or a chain, and not right behind a
cast, an index or a negation. -/
def operandStart : Regex :=
  notAfter (among (Chain.wordItems ++ [.char '.', .char ')', .char ']', .char '!'])) ++
    notAfter (literal "->")

/-- A comparison of an operand, captured as `expr`, with a singleton. -/
def comparison (operator singleton : String) : Regex :=
  operandStart ++ group "expr" Chain.dereferenced ++ blanks ++ literal operator ++ blanks ++
    literal singleton ++ wordEdge

/-- The patterns for the two comparisons with a singleton. -/
def singletonTests (singleton test : String) : List Pattern :=
  [.ofRegex (comparison "==" singleton) [.plain (test ++ "("), .group "expr", .plain ")"],
    .ofRegex (comparison "!=" singleton)
      [.plain ("!" ++ test ++ "("), .group "expr", .plain ")"]]

/-- Replaces comparisons with singletons by calls of the functions that test for them. -/
def isSingleton : Rule where
  name := "Py_Is"
  description :=
    "replace \"x == Py_None\" with \"Py_IsNone(x)\", and similar for Py_True and Py_False"
  patterns := singletons.flatMap fun (singleton, test) => singletonTests singleton test
  needsHeader := true

end CApiUpgrade.Catalog
