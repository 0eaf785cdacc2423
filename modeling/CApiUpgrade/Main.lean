import CApiUpgrade.Run

/-!
# The program

`main` takes the part of the disk that a command line can reach into a store, runs on it, and
writes back the files that the run has changed.  Everything else is decided by `CApiUpgrade.run`.
Permission bits are not looked at, and neither are other names of a file: a new file has the usual
bits, and each name counts as a file of its own.
-/

namespace CApiUpgrade.Disk

/-- The name of a location. -/
def nameOf (loc : Location) : String := "/" ++ "/".intercalate loc

/-- The entry of a directory at a location. -/
def entryOf (loc : Location) : IO.FS.DirEntry :=
  { root := nameOf loc.dropLast, fileName := loc.getLast?.getD "" }

/-- The location of what a path name leads to, behind all links. -/
def realLocation? (path : String) : IO (Option Location) := do
  try return some (Path.components (← IO.FS.realPath path).toString)
  catch _ => return none

/-- Takes what stands at a location into a store, with all that stands below it if `deep` is set.
The content of a file is taken if the file is asked for or may be patched. -/
partial def load (deep : Bool) (store : Store) (loc : Location) : IO Store := do
  if loc.isEmpty then return store
  let path := (entryOf loc).path
  let kind ← try pure (some (← path.symlinkMetadata).type) catch _ => pure none
  match kind with
  | some .file =>
    let wanted := deep || Discovery.isSourceName path.toString
    try
      let content ← if wanted then IO.FS.readBinFile path else pure .empty
      return store.insert loc (.file content Node.newFileMode)
    catch _ => return store.insert loc (.file .empty 0)
  | some .symlink =>
    match ← realLocation? path.toString with
    | some target => load (!(← path.isDir)) (store.insert loc (.link (nameOf target))) target
    | none => return store.insert loc (.link "")
  | some .dir =>
    let store := store.insert loc .directory
    if deep then
      (← path.readDir).foldlM (fun store child => do
        load ((← child.path.symlinkMetadata).type == .dir) store (loc ++ [child.fileName])) store
    else return store
  | _ => return store

/-- Takes the directories on the way to a location into a store, and what stands there. -/
def loadWay (store : Store) (loc : Location) : IO Store := do
  let store ← (List.range loc.length).foldlM (fun store n => load false store (loc.take n)) store
  load true store loc

/-- Takes what a path name leads to into a store. -/
def loadPath (store : Store) (path : String) : IO Store := do
  let start := store.base path
  let lexical := (Path.components path).foldl
    (fun loc name => if name == ".." then loc.dropLast else loc ++ [name]) start
  let store ← loadWay store lexical
  match ← realLocation? path with
  | some loc => loadWay store loc
  | none => return store

/-- Takes the part of the disk that a command line can reach into a store. -/
def snapshot (arguments : List String) : IO Store := do
  let workDir := Path.components (← IO.currentDir).toString
  let configs := (Path.ancestors (nameOf workDir)).map (Path.join · Config.fileName)
  let named := match CommandLine.parse arguments with
    | .ok line => line.paths ++ line.paths.map Backup.pathOf ++ line.config.toList
    | .error _ => []
  (configs ++ named).foldlM loadPath { workDir }

/-- Whether the same stands at two locations. -/
def sameNode : Option Node → Option Node → Bool
  | some (.file a _), some (.file b _) => a == b
  | some (.link a), some (.link b) => a == b
  | _, _ => false

/-- Writes the files that differ between two stores.  A file that became a backup is renamed before
its place is taken. -/
def save (before after : Store) : IO Unit := do
  let changed := after.entries.filter fun (loc, node) =>
    node.isFile && !sameNode (before.node? loc) (some node)
  for (loc, node) in changed.mergeSort (fun a b => (nameOf a.1).length ≤ (nameOf b.1).length) do
    if let .file content _ := node then
      if sameNode (before.node? loc) (after.node? (Store.backupOf loc)) then
        IO.FS.rename (nameOf loc) (nameOf (Store.backupOf loc))
      IO.FS.writeBinFile (nameOf loc) content

end CApiUpgrade.Disk

/-- Runs the program on the disk. -/
def main (arguments : List String) : IO UInt32 := do
  let store ← CApiUpgrade.Disk.snapshot arguments
  let result := CApiUpgrade.run store arguments
  CApiUpgrade.Disk.save store result.store
  (← IO.getStdout).write result.out
  (← IO.getStderr).putStr result.err
  return result.status.code.toUInt32
