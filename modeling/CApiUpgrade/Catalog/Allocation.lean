import CApiUpgrade.Regex.Source
import CApiUpgrade.Rule

/-!
# Names of allocation functions

The allocation functions used to have aliases in capitals.  The rules of this file rename calls
of the aliases: the old name has to be a whole word, followed by an opening parenthesis on the
same line.
-/

namespace CApiUpgrade.Catalog

open Regex

/-- A space or a tab. -/
def gap : Regex := among [.char ' ', .char '\t']

/-- Renames the calls of a function. -/
def renameCall (old new : String) : Pattern :=
  .ofRegex (wordEdge ++ literal old ++ wordEdge ++ group "call" (many gap ++ char '('))
    [.plain new, .group "call"]

/-- The old and the new names that both families of functions share. -/
def familyNames : List (String × String) :=
  [("MALLOC", "Malloc"), ("REALLOC", "Realloc"), ("FREE", "Free"), ("Del", "Free"),
    ("DEL", "Free")]

/-- Renames the calls of the functions of a family. -/
def renameFamily (family : String) : List Pattern :=
  familyNames.map fun (old, new) => renameCall (family ++ "_" ++ old) (family ++ "_" ++ new)

/-- The functions that allocate an object. -/
def objectNew : Rule where
  name := "PyObject_NEW"
  description :=
    "replace \"PyObject_NEW(...)\" with \"PyObject_New(...)\", and " ++
    "\"PyObject_NEW_VAR(...)\" with \"PyObject_NewVar(...)\""
  patterns :=
    [renameCall "PyObject_NEW" "PyObject_New", renameCall "PyObject_NEW_VAR" "PyObject_NewVar"]

/-- The functions that allocate memory of any use. -/
def memoryFamily : Rule where
  name := "PyMem_MALLOC"
  description :=
    "replace \"PyMem_MALLOC\" with \"PyMem_Malloc\", \"PyMem_REALLOC\" with " ++
    "\"PyMem_Realloc\", and \"PyMem_FREE\", \"PyMem_Del\" and \"PyMem_DEL\" " ++
    "with \"PyMem_Free\""
  patterns := renameFamily "PyMem"

/-- The functions that allocate memory for objects. -/
def objectFamily : Rule where
  name := "PyObject_MALLOC"
  description :=
    "replace \"PyObject_MALLOC\" with \"PyObject_Malloc\", \"PyObject_REALLOC\" " ++
    "with \"PyObject_Realloc\", and \"PyObject_FREE\", \"PyObject_Del\" and " ++
    "\"PyObject_DEL\" with \"PyObject_Free\""
  patterns := renameFamily "PyObject"

end CApiUpgrade.Catalog
