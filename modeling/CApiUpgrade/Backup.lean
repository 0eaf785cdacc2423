import CApiUpgrade.Store.Access

/-!
# Backups

A file is given new content in steps (`Backup.steps`): its permission bits are looked up, the file
is renamed to `<file>.old`, the new content is written, and the new file gets the old bits.  The old
file is renamed and never copied, so as to be safe before the first byte of the new one is written.
An old backup is replaced.  Whether the backup is another name of the file is not looked at.

Without backups the file is just written.
-/

namespace CApiUpgrade

/-- Why a file could not be replaced. -/
inductive BackupError where
  /-- The permission bits cannot be looked up. -/
  | noMetadata (path : String) (cause : OsError)
  /-- The file cannot be renamed. -/
  | notSaved (path backup : String) (cause : OsError)
  /-- The new content cannot be written. -/
  | notWritten (path : String) (cause : OsError)
  /-- The permission bits cannot be set. -/
  | noPermissions (path : String) (cause : OsError)
  deriving DecidableEq, Repr

/-- What a backup error says. -/
def BackupError.message : BackupError → String
  | .noMetadata path cause => "Failed to read metadata: " ++ path ++ ": " ++ cause.message
  | .notSaved path backup cause =>
    "Failed to backup file: " ++ path ++ " -> " ++ backup ++ ": " ++ cause.message
  | .notWritten path cause => "Failed to write file: " ++ path ++ ": " ++ cause.message
  | .noPermissions path cause => "Failed to set permissions: " ++ path ++ ": " ++ cause.message

/-- Where the old file goes. -/
def Backup.pathOf (path : String) : String := path ++ ".old"

/-- Where the backup of what stands at a location goes. -/
def Store.backupOf (loc : Location) : Location :=
  loc.dropLast ++ [Backup.pathOf (loc.getLastD "")]

namespace Backup

/-- Writes a file and keeps no backup.  Returns the store and what went wrong, if anything did. -/
def overwrite (store : Store) (path : String) (content : ByteArray) :
    Store × Option BackupError :=
  let (written, cause) := store.write path content
  (written, cause.map (.notWritten path))

/-! ### With a backup -/

/-- A step of a replacement. -/
inductive Step where
  /-- The permission bits are looked up. -/
  | lookUp
  /-- The file is renamed to its backup. -/
  | save
  /-- The new content is written. -/
  | write
  /-- The new file gets the permission bits that were looked up. -/
  | restore
  deriving DecidableEq, Repr

/-- The steps of a replacement, in their order. -/
def steps : List Step := [.lookUp, .save, .write, .restore]

/-- What there is between two steps. -/
structure Stage where
  /-- The files. -/
  store : Store
  /-- The permission bits, once they have been looked up. -/
  mode : Nat := 0

/-- Takes a step.  Returns what it leaves, and what went wrong, if anything did. -/
def Step.take (path : String) (content : ByteArray) :
    Step → Stage → Stage × Option BackupError
  | .lookUp, stage =>
    match stage.store.mode path with
    | .error cause => (stage, some (.noMetadata path cause))
    | .ok mode => ({ stage with mode }, none)
  | .save, stage =>
    match stage.store.rename path (pathOf path) with
    | .error cause => (stage, some (.notSaved path (pathOf path) cause))
    | .ok store => ({ stage with store }, none)
  | .write, stage =>
    let (store, cause) := stage.store.write path content
    ({ stage with store }, cause.map (.notWritten path))
  | .restore, stage =>
    match stage.store.setMode path stage.mode with
    | .error cause => (stage, some (.noPermissions path cause))
    | .ok store => ({ stage with store }, none)

/-- Takes steps one after another, up to the first that fails. -/
def takeSteps (path : String) (content : ByteArray) :
    List Step → Stage → Stage × Option BackupError
  | [], stage => (stage, none)
  | step :: rest, stage =>
    match step.take path content stage with
    | (stage, none) => takeSteps path content rest stage
    | (stage, some e) => (stage, some e)

/-- Replaces a file and keeps the old one.  Returns the store as the last step that was tried left
it, and what went wrong, if anything did. -/
def replace (store : Store) (path : String) (content : ByteArray) : Store × Option BackupError :=
  let (stage, e) := takeSteps path content steps { store }
  (stage.store, e)

/-- Gives a file new content, with a backup if `keep` is set. -/
def writeFile (keep : Bool) (store : Store) (path : String) (content : ByteArray) :
    Store × Option BackupError :=
  if keep then replace store path content else overwrite store path content

end Backup

end CApiUpgrade
