import CApiUpgrade.Text.Occurrence

/-!
# The compatibility header

The header `pythoncapi_compat.h` declares newer functions for older versions of Python.  A file
that uses them has to include it.  The header itself is never written: a patched file only gains
the line that includes it.
-/

namespace CApiUpgrade.Header

/-- The file name of the header. -/
def fileName : String := "pythoncapi_compat.h"

/-- Where the header can be copied from. -/
def url : String :=
  "https://raw.githubusercontent.com/pythoncapi/pythoncapi_compat/master/pythoncapi_compat.h"

/-- The line that includes the header. -/
def quotedInclude : String := "#include \"pythoncapi_compat.h\""

/-- Another spelling of it. -/
def angledInclude : String := "#include <pythoncapi_compat.h>"

/-- Whether a text includes the header, in either spelling. -/
def isIncluded (text : List Char) : Bool :=
  Text.occursIn quotedInclude.toList text || Text.occursIn angledInclude.toList text

/-- What is put in front of a text that has to include the header: the line and an empty one. -/
def lines : List Char := (quotedInclude ++ "\n\n").toList

/-- Includes the header at the top of a text. -/
def insert (text : List Char) : List Char := lines ++ text

end CApiUpgrade.Header
