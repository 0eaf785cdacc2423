import CApiUpgrade.Store.Resolution

/-!
# Reading and changing files

The operations that a run performs on path names: reading, writing, renaming, and the permission
bits.  An operation that fails says why and leaves the store as it was, save for a file that could
not be written to its end: `write` empties it first.
-/

namespace CApiUpgrade

namespace Path

/-- Whether a path name ends in a slash. -/
def endsInSlash (path : String) : Bool := path.toList.getLast? == some '/'

/-- Whether the last name of a path name is `.` or `..`, so that it is no name of its own. -/
def endsInDots (path : String) : Bool :=
  match ((path.toList.splitOnP (· == '/')).filter (!·.isEmpty)).getLast? with
  | some name => name == ['.'] || name == ['.', '.']
  | none => true

end Path

namespace Store

/-- The content of a file. -/
def read (s : Store) (path : String) : Except OsError ByteArray := do
  match ← s.stat path with
  | (_, .file content mode) =>
    if (Node.file content mode).isReadable then return content else throw .permissionDenied
  | _ => throw .isADirectory

/-! ### Writing -/

/-- Opens a file for writing and empties it.  A file that is missing is made, if entries of the
directory above may be. -/
def openEmpty (s : Store) (path : String) : Except OsError (Location × Store) :=
  if Path.endsInSlash path then do
    let _ ← s.resolveParent path
    throw .isADirectory
  else do
    let loc ← s.resolve true path
    let opened ← match s.node? loc with
      | some (.file old mode) =>
        if (Node.file old mode).isWritable then .ok (s.amend loc (.withContent .empty))
        else .error .permissionDenied
      | some _ => .error .isADirectory
      | none =>
        if s.isOpen loc.dropLast then .ok (s.insert loc (.file .empty Node.newFileMode))
        else .error .permissionDenied
    match s.faults.opening loc with
    | some cause => throw cause
    | none => return (loc, opened)

/-- Writes to a file that is open, as much as can be written. -/
def fill (s : Store) (loc : Location) (content : ByteArray) : Store × Option OsError :=
  match s.faults.writing loc with
  | some (size, cause) => (s.amend loc (.withContent (content.extract 0 size)), some cause)
  | none => (s.amend loc (.withContent content), none)

/-- Gives a file new content.  The old content is gone even if not all of the new can be written. -/
def write (s : Store) (path : String) (content : ByteArray) : Store × Option OsError :=
  match s.openEmpty path with
  | .error cause => (s, some cause)
  | .ok (loc, opened) => opened.fill loc content

/-! ### Permission bits -/

/-- The permission bits of what stands at a path name. -/
def mode (s : Store) (path : String) : Except OsError Nat := do
  let (loc, node) ← s.stat path
  match s.faults.lookUp loc with
  | some cause => throw cause
  | none => return if node.isDirectory then s.directoryMode loc else node.mode

/-- Gives what stands at a path name other permission bits. -/
def setMode (s : Store) (path : String) (mode : Nat) : Except OsError Store := do
  let (loc, node) ← s.stat path
  match s.faults.setting loc with
  | some cause => throw cause
  | none =>
    if node.isDirectory then return { s with directoryModes := (loc, mode) :: s.directoryModes }
    else return s.amend loc (.withMode mode)

/-! ### Renaming -/

/-- Whether an entry may be given another location: those of its directory and of the one where it
goes may be changed, and a directory that goes to another one may be changed itself. -/
def mayRelocate (s : Store) (source target : Location) (node : Node) : Bool :=
  s.isOpen source.dropLast && s.isOpen target.dropLast &&
    (!node.isDirectory || source.dropLast == target.dropLast || s.isOpen source)

/-- Puts a node at another location.  What may stand there already depends on the node: a directory
replaces an empty one, and everything else replaces all but directories. -/
def settle (s : Store) (source target : Location) (node : Node) : Except OsError Store :=
  if node.isDirectory then
    match s.node? target with
    | none => .ok (s.move source target)
    | some .directory =>
      if s.hasEntries target then .error .notEmpty
      else .ok ((s.erase target).move source target)
    | some _ => .error .notADirectory
  else match s.node? target with
    | some .directory => .error .isADirectory
    | _ => .ok (s.transfer source target node)

/-- Gives a node another location, if that is another one and nothing forbids it.  Two names of one
file are left as they are. -/
def relocate (s : Store) (source target : Location) (node : Node) : Except OsError Store :=
  if s.isSame source target then .ok s
  else if node.isDirectory && source.isPrefixOf target then .error .invalidArgument
  else if target.isPrefixOf source then .error .notEmpty
  else if s.mayRelocate source target node then
    match s.faults.rename source target with
    | some cause => .error cause
    | none => s.settle source target node
  else .error .permissionDenied

/-- Gives an entry another name.  A link is renamed itself, not what it leads to. -/
def rename (s : Store) (source target : String) : Except OsError Store := do
  -- The last names are taken as they stand: a link there is not followed.
  let sourceDir ← s.resolveParent source
  let targetDir ← s.resolveParent target
  if Path.endsInDots source || Path.endsInDots target then throw .busy
  match (Path.components source).getLast?, (Path.components target).getLast? with
  | some sourceName, some targetName =>
    match s.node? (sourceDir ++ [sourceName]) with
    | none => throw .notFound
    | some node =>
      if !node.isDirectory && (Path.endsInSlash source || Path.endsInSlash target) then
        throw .notADirectory
      s.relocate (sourceDir ++ [sourceName]) (targetDir ++ [targetName]) node
  | _, _ => throw .busy

end Store

end CApiUpgrade
