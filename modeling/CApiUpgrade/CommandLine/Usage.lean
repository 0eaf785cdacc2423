import CApiUpgrade.CommandLine.Switch
import CApiUpgrade.RuleSet

/-!
# Usage texts

What the program prints about itself: its version, the help text, and the rules that it knows.
-/

namespace CApiUpgrade.Usage

/-- The name of the program. -/
def program : String := "upgrade-pythoncapi"

/-- What is printed for the version. -/
def version : String := program ++ " 0.1.0\n"

/-- What stands for the path names in texts. -/
def pathsName : String := "[FILE_OR_DIRECTORY]..."

/-- A text with spaces behind it, up to a width. -/
def padded (width : Nat) (text : String) : String :=
  text ++ String.ofList (List.replicate (width - text.length) ' ')

/-- A table of two columns, two spaces apart. -/
def table (rows : List (String × String)) : String :=
  let width := rows.foldl (fun width (row : String × String) => max width row.1.length) 0
  String.join (rows.map fun (left, right) => "  " ++ padded width left ++ "  " ++ right ++ "\n")

/-- The help text. -/
def help : String :=
  "Upgrade C extension modules to newer Python C API\n\n" ++
    "Usage: " ++ program ++ " [OPTIONS] " ++ pathsName ++ "\n\n" ++
    "Arguments:\n" ++ table [(pathsName, "Files or directories to process")] ++ "\n" ++
    "Options:\n" ++ table (Switch.all.map fun s => (s.form, s.description))

/-- The rules of a set, sorted by name. -/
def operations (set : RuleSet) : String :=
  "Operations:\n\n" ++
    String.join (set.listing.map fun (name, description) =>
      "- " ++ name ++ ": " ++ description ++ "\n") ++
    "\nIf a directory is passed, search for .c and .h files in subdirectories.\n"

/-- The help text and the rules of a set. -/
def full (set : RuleSet) : String := help ++ "\n" ++ operations set

end CApiUpgrade.Usage
