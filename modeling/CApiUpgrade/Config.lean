import CApiUpgrade.Store.Access
import CApiUpgrade.Toml.Document

/-!
# Configuration

A configuration file can set what the command line leaves open.  It has three sections: `rules`,
`paths` and `output`.  Everything in it is optional and unknown keys are passed over, but a known
key has to have a value of the right kind.

The file is the nearest `.pythoncapi.toml`, in the working directory or above it.
-/

namespace CApiUpgrade

/-- What a configuration file sets. -/
structure Config where
  /-- The rules to apply, as on the command line. -/
  operations : Option String := none
  /-- The exclusion patterns of a search. -/
  exclude : List String := []
  /-- Whether to be quiet. -/
  quiet : Option Bool := none
  /-- Whether to keep the old files. -/
  backup : Option Bool := none
  /-- Whether to include the compatibility header. -/
  header : Option Bool := none
  deriving DecidableEq, Repr

/-- Why a configuration file cannot be used. -/
inductive ConfigError where
  /-- The file cannot be read. -/
  | unreadable (path : String) (cause : OsError)
  /-- The file is no text. -/
  | notText (path : String)
  /-- The text is no document, or a value is of the wrong kind. -/
  | invalid (path : String)
  deriving DecidableEq, Repr

/-- What a configuration error says. -/
def ConfigError.message : ConfigError → String
  | .unreadable path cause => "Failed to read " ++ path ++ ": " ++ cause.message
  | .notText path => "Failed to read " ++ path ++ ": stream did not contain valid UTF-8"
  | .invalid path => "Failed to parse " ++ path ++ ": TOML parse error"

namespace Config

/-- The name of a configuration file. -/
def fileName : String := ".pythoncapi.toml"

/-! ### Documents -/

/-- A text, if the value is one. -/
def textOf? : Toml.Value → Option String
  | .text content => some (String.ofList content)
  | _ => none

/-- A truth value, if the value is one. -/
def booleanOf? : Toml.Value → Option Bool
  | .boolean b => some b
  | _ => none

/-- A list of texts, if the value is one. -/
def textsOf? : Toml.Value → Option (List String)
  | .array _ items => items.mapM textOf?
  | _ => none

/-- Reads a value that may be absent.  Fails if it is there and of the wrong kind. -/
def optional {α : Type} (read? : Toml.Value → Option α) : Option Toml.Value → Option (Option α)
  | none => some none
  | some value => (read? value).map some

/-- The values of a section for the given keys.  A section is a table; a list is taken for the
values of the keys in their order, and a date or time for a section without any. -/
def sectionValues (keys : List String) : Option Toml.Value → Option (List (Option Toml.Value))
  | none | some (.moment _) => some (keys.map fun _ => none)
  | some (.table _ fields) => some (keys.map fun key => fields.lookup key.toList)
  | some (.array _ items) => some (keys.mapIdx fun i _ => items[i]?)
  | some _ => none

/-- The configuration that a document describes. -/
def ofDocument? (document : Toml.Value) : Option Config := do
  let rules ← sectionValues ["operations"] (document.get? "rules".toList)
  let paths ← sectionValues ["exclude"] (document.get? "paths".toList)
  let output ← sectionValues ["quiet", "backup", "compat"] (document.get? "output".toList)
  match rules, paths, output with
  | [operations], [exclude], [quiet, backup, header] =>
    return {
      operations := ← optional textOf? operations
      exclude := (← optional textsOf? exclude).getD []
      quiet := ← optional booleanOf? quiet
      backup := ← optional booleanOf? backup
      header := ← optional booleanOf? header }
  | _, _, _ => none

/-! ### Files -/

/-- Reads a configuration file. -/
def load (store : Store) (path : String) : Except ConfigError Config :=
  match store.read path with
  | .error cause => .error (.unreadable path cause)
  | .ok bytes =>
    match String.fromUTF8? bytes with
    | none => .error (.notText path)
    | some text =>
      match (Toml.document? text.toList).bind ofDocument? with
      | some config => .ok config
      | none => .error (.invalid path)

/-- The nearest configuration file, in a directory or above it. -/
def find? (store : Store) (directory : String) : Option String :=
  ((Path.ancestors directory).map (Path.join · fileName)).find? store.isPresent

/-! ### Settings

What the command line says wins over the file.  Its flags can only be switched on. -/

/-- The selection of rules. -/
def selection (config : Config) (given : Option String) : String :=
  (given.or config.operations).getD "all"

/-- Whether to be quiet. -/
def isQuiet (config : Config) (quiet : Bool) : Bool := quiet || config.quiet.getD false

/-- Whether to keep the old files. -/
def keepsBackups (config : Config) (noBackup : Bool) : Bool :=
  !noBackup && config.backup.getD true

/-- Whether to include the compatibility header. -/
def insertsHeader (config : Config) (noHeader : Bool) : Bool :=
  !noHeader && config.header.getD true

end Config

end CApiUpgrade
