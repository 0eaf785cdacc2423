import CApiUpgrade.Header

/-!
# Reports

A run counts what it does and tells it line by line.  Warnings are always told and make the run
fail in the end; the rest is told unless the run is quiet.
-/

namespace CApiUpgrade

/-- What a run has done. -/
structure Summary where
  /-- The files that were read and patched. -/
  processed : Nat := 0
  /-- Those of them to which a rule applied. -/
  patched : Nat := 0
  /-- Those of them that now include the compatibility header and did not before. -/
  headersAdded : Nat := 0
  /-- The path names that stand for no source file. -/
  warnings : Nat := 0
  deriving DecidableEq, Repr

namespace Summary

/-- Counts a file. -/
def addFile (s : Summary) (applied : List String) (headerAdded : Bool) : Summary :=
  { s with
    processed := s.processed + 1
    patched := if applied.isEmpty then s.patched else s.patched + 1
    headersAdded := if headerAdded then s.headersAdded + 1 else s.headersAdded }

/-- Counts a warning. -/
def addWarning (s : Summary) : Summary := { s with warnings := s.warnings + 1 }

end Summary

namespace Report

/-- A warning. -/
def warning (text : String) : String := "Warning: " ++ text ++ "\n"

/-- The warning about a path name that stands for nothing. -/
def missingPath (path : String) : String := warning ("Path " ++ path ++ " does not exist")

/-- The warning about a directory without source files. -/
def noSources (path : String) : String :=
  warning ("Directory " ++ path ++ " doesn't contain any C file")

/-- The line about a file that was patched. -/
def patchedFile (path : String) (applied : List String) : String :=
  "Patched file: " ++ path ++ " (" ++ ", ".intercalate applied ++ ")\n"

/-- The closing notice about the compatibility header. -/
def headerNotice : String :=
  "\n" ++ Header.quotedInclude ++ " added: you may have to copy " ++ Header.fileName ++
    " to your project\nIt can be copied from:\n" ++ Header.url ++ "\n"

/-- The line about the error that ends a run. -/
def failure (message : String) : String := "Error: " ++ message ++ "\n"

/-- A line of the detailed account. -/
def debug (text : String) : String := "DEBUG " ++ text ++ "\n"

end Report

end CApiUpgrade
