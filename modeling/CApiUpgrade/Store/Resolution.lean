import CApiUpgrade.Store.Basic

/-!
# From path names to locations

A path name is resolved name by name.  `..` leads to the directory above, a link leads to its
target and on from there, and every name but the last has to be that of a directory.  A path name
that ends in a slash is resolved as if a `.` followed, so that it has to be that of a directory
and a link at its end is followed.

Links that lead in a circle are found by counting: at most `maxLinks` are followed.
-/

namespace CApiUpgrade

namespace Path

/-- The names of a path name, with a `.` at the end if it can only be that of a directory. -/
def steps (path : String) : List String :=
  components path ++ if isDirectoryName path then ["."] else []

end Path

namespace Store

/-- How many links are followed at most. -/
def maxLinks : Nat := 40

/-- Resolves names from a directory on.  At a link that has to be followed, `onLink` goes on from
the directory and with the names that it is given.  A link at the very end is followed only if
`follow` is set. -/
def walk (s : Store) (follow : Bool)
    (onLink : Location → List String → Except OsError Location) :
    Location → List String → Except OsError Location
  | here, [] => .ok here
  | here, name :: rest =>
    if name = "." then walk s follow onLink here rest
    else if name = ".." then walk s follow onLink here.dropLast rest
    else
      let next := here ++ [name]
      match s.node? next with
      | some .directory => walk s follow onLink next rest
      | some (.file ..) => if rest.isEmpty then .ok next else .error .notADirectory
      | some (.link target) =>
        if rest.isEmpty && !follow then .ok next
        else onLink (if Path.isAbsolute target then [] else here) (Path.steps target ++ rest)
      -- What the last name stands for may be about to be made.
      | none => if rest.isEmpty then .ok next else .error .notFound

/-- Resolves names from a directory on and follows at most `links` links. -/
def walkLinks (s : Store) (follow : Bool) :
    (links : Nat) → Location → List String → Except OsError Location
  | 0 => walk s follow fun _ _ => .error .tooManyLinks
  | links + 1 => walk s follow (walkLinks s follow links)

/-- The directory from which a path name is resolved. -/
def base (s : Store) (path : String) : Location :=
  if Path.isAbsolute path then [] else s.workDir

/-- The location of a path name.  Nothing needs to stand there, but the directory above has to be
one. -/
def resolve (s : Store) (follow : Bool) (path : String) : Except OsError Location :=
  if path = "" then .error .notFound
  else walkLinks s follow maxLinks (s.base path) (Path.steps path)

/-- The location of the directory above the last name of a path name. -/
def resolveParent (s : Store) (path : String) : Except OsError Location :=
  if path = "" then .error .notFound
  else walkLinks s true maxLinks (s.base path) ((Path.components path).dropLast ++ ["."])

/-- What stands at a path name, behind all links. -/
def stat (s : Store) (path : String) : Except OsError (Location × Node) := do
  let loc ← s.resolve true path
  match s.node? loc with
  | some node => return (loc, node)
  | none => throw .notFound

/-- What stands at a path name itself. -/
def linkStat (s : Store) (path : String) : Except OsError (Location × Node) := do
  let loc ← s.resolve false path
  match s.node? loc with
  | some node => return (loc, node)
  | none => throw .notFound

/-- Whether something stands at a path name. -/
def isPresent (s : Store) (path : String) : Bool := (s.stat path).isOk

/-- Whether a directory stands at a path name. -/
def isDirectory (s : Store) (path : String) : Bool :=
  match s.stat path with
  | .ok (_, node) => node.isDirectory
  | .error _ => false

/-- Whether a regular file stands at a path name. -/
def isFile (s : Store) (path : String) : Bool :=
  match s.stat path with
  | .ok (_, node) => node.isFile
  | .error _ => false

end Store

end CApiUpgrade
