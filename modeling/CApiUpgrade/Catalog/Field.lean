import CApiUpgrade.Catalog.Chain
import CApiUpgrade.Rule

/-!
# Fields of objects, frames and threads

Extension modules used to read and write the fields of object headers, frames and thread states
directly.  The rules of this file put function calls in their place.

* A *store* such as `Py_TYPE(obj) = type;` or `obj->ob_type = type;` becomes
  `Py_SET_TYPE(obj, type);`.
* A *read* such as `obj->ob_type` becomes `Py_TYPE(obj)`.

The reads of a field come after its stores.  Otherwise the left side of a store could be wrapped
as a read before it is recognised.
-/

namespace CApiUpgrade.Catalog

open Regex

/-! ### Stores -/

/-- The value of an assignment statement.  It does not start with an equals sign, or the
statement would be a comparison. -/
def assignedValue : Regex :=
  except [.char '=', .char ';', .category .blank false] ++ manyLazy (except [.char ';'])

/-- An equals sign, a value captured as `value`, and the end of the statement. -/
def storedValue : Regex :=
  blanks ++ char '=' ++ blanks ++ group "value" assignedValue ++ blanks ++ char ';'

/-- A store through the macro that reads the field: `Py_TYPE(expr) = value;`. -/
def callStore (getter : String) : Regex :=
  wordEdge ++ literal getter ++ blanks ++ char '(' ++ blanks ++
    group "expr" (many1Lazy (except [.char ';', .char '='])) ++ blanks ++ char ')' ++ storedValue

/-- A store to the field itself: `expr->member = value;`. -/
def memberStore (member : String) : Regex :=
  Chain.memberAccess member ++ storedValue

/-- A rule that replaces the stores to a field by calls of the function it is named for. -/
def storeRule (name description getter member : String) : Rule where
  name := name
  description := description
  patterns :=
    let call : Template :=
      [.plain (name ++ "("), .group "expr", .plain ", ", .group "value", .plain ");"]
    [.ofRegex (callStore getter) call, .ofRegex (memberStore member) call]
  needsHeader := true

/-- Stores to the type of an object. -/
def setType : Rule :=
  storeRule "Py_SET_TYPE" "replace \"Py_TYPE(obj) = type;\" with \"Py_SET_TYPE(obj, type);\""
    "Py_TYPE" "ob_type"

/-- Stores to the size of an object. -/
def setSize : Rule :=
  storeRule "Py_SET_SIZE" "replace \"Py_SIZE(obj) = size;\" with \"Py_SET_SIZE(obj, size);\""
    "Py_SIZE" "ob_size"

/-- Stores to the reference count of an object. -/
def setRefCount : Rule :=
  storeRule "Py_SET_REFCNT"
    "replace \"Py_REFCNT(obj) = refcnt;\" with \"Py_SET_REFCNT(obj, refcnt);\""
    "Py_REFCNT" "ob_refcnt"

/-! ### Reads -/

/-- The member is not written: by `=`, by a compound assignment, by `++` or by `--`.  A comparison
is no assignment. -/
def notWritten : Regex :=
  notBefore
      (blanks ++
        optional (choice
          [among ("-+*/%&|^".toList.map .char), literal "<<", literal ">>"]) ++
        char '=' ++ notBefore (char '=')) ++
    notBefore (blanks ++ alt (literal "++") (literal "--"))

/-- The access is not the slot that a macro takes over. -/
def notSlot : Regex :=
  notAfter (literal "Py_CLEAR(") ++ notAfter (literal "Py_SETREF(") ++
    notAfter (literal "Py_XSETREF(")

/-- A read of a member. -/
def memberRead (member : String) : Regex :=
  notSlot ++ Chain.memberAccess member ++ notWritten

/-- A rule that replaces the reads of a member by calls of a function. -/
def readRule (name description member function : String) (needsHeader : Bool)
    (runsAfter : List String) : Rule where
  name := name
  description := description
  patterns :=
    [.ofRegex (memberRead member) [.plain (function ++ "("), .group "expr", .plain ")"]]
  needsHeader := needsHeader
  runsAfter := runsAfter

/-- Reads of the type of an object. -/
def readType : Rule :=
  readRule "Py_TYPE" "replace \"op->ob_type\" with \"Py_TYPE(op)\"" "ob_type" "Py_TYPE"
    false ["Py_SET_TYPE"]

/-- Reads of the size of an object. -/
def readSize : Rule :=
  readRule "Py_SIZE" "replace \"op->ob_size\" with \"Py_SIZE(op)\"" "ob_size" "Py_SIZE"
    false ["Py_SET_SIZE"]

/-- Reads of the reference count of an object. -/
def readRefCount : Rule :=
  readRule "Py_REFCNT" "replace \"op->ob_refcnt\" with \"Py_REFCNT(op)\"" "ob_refcnt" "Py_REFCNT"
    false ["Py_SET_REFCNT"]

/-- Reads of the frame below a frame. -/
def readFrameBack : Rule :=
  readRule "PyFrame_GetBack" "replace \"frame->f_back\" with \"_PyFrame_GetBackBorrow(frame)\""
    "f_back" "_PyFrame_GetBackBorrow" true []

/-- Reads of the code of a frame. -/
def readFrameCode : Rule :=
  readRule "PyFrame_GetCode" "replace \"frame->f_code\" with \"_PyFrame_GetCodeBorrow(frame)\""
    "f_code" "_PyFrame_GetCodeBorrow" true []

/-- Reads of the interpreter of a thread. -/
def readInterpreter : Rule :=
  readRule "PyThreadState_GetInterpreter"
    "replace \"tstate->interp\" with \"PyThreadState_GetInterpreter(tstate)\""
    "interp" "PyThreadState_GetInterpreter" true []

/-- Reads of the frame of a thread. -/
def readThreadFrame : Rule :=
  readRule "PyThreadState_GetFrame"
    "replace \"tstate->frame\" with \"_PyThreadState_GetFrameBorrow(tstate)\""
    "frame" "_PyThreadState_GetFrameBorrow" true []

end CApiUpgrade.Catalog
