/-!
# Path names

Path names are texts.  This file takes them apart without looking at any file: components, the
file name, its extension, the directory above.  Repeated slashes, a trailing slash and components
`.` do not count, except that a name may start with `.` as a component.
-/

namespace CApiUpgrade.Path

/-- The parts of a path name between its slashes, without empty ones and without `.`. -/
def components (path : String) : List String :=
  ((path.toList.splitOnP (· == '/')).map String.ofList).filter fun part =>
    part != "" && part != "."

/-- Whether a path name starts at the root. -/
def isAbsolute (path : String) : Bool := path.toList.head? == some '/'

/-- Whether a path name can only be that of a directory, by the way it ends. -/
def isDirectoryName (path : String) : Bool :=
  match (path.toList.splitOnP (· == '/')).reverse with
  | [] :: _ :: _ => true
  | ['.'] :: _ => true
  | _ => false

/-- The last component, unless it leads upwards. -/
def fileName? (path : String) : Option String :=
  match (components path).getLast? with
  | some ".." | none => none
  | some name => some name

/-- What stands behind the last dot of the file name.  A dot at its start begins no extension. -/
def extension? (path : String) : Option String := do
  let name ← fileName? path
  let parts := name.toList.splitOnP (· == '.')
  match parts.reverse with
  | _ :: [] :: [] => none
  | ext :: _ :: _ => some (String.ofList ext)
  | _ => none

/-- The name of an entry of a directory. -/
def join (directory name : String) : String :=
  if isAbsolute name || directory == "" then name
  else if directory.toList.getLast? == some '/' then directory ++ name
  else directory ++ "/" ++ name

/-- Drops empty segments and `.` at the end, but for the very first segment. -/
def trimSegments : List (List Char) → List (List Char)
  | [] => []
  | segment :: rest =>
    segment :: (rest.reverse.dropWhile fun seg => seg == [] || seg == ['.']).reverse

/-- The path name above, if there is one. -/
def parent? (path : String) : Option String :=
  match trimSegments (path.toList.splitOnP (· == '/')) with
  | [] | [[]] => none
  | segments =>
    match trimSegments segments.dropLast with
    | [[]] => some "/"
    | above => some (String.ofList (['/'].intercalate above))

/-- A path name and all those above it, the nearest first. -/
def ancestors (path : String) : List String :=
  go (path.length + 1) path
where
  /-- The first `fuel` of them. -/
  go : (fuel : Nat) → String → List String
    | 0, _ => []
    | fuel + 1, path => path :: ((parent? path).map (go fuel)).getD []

end CApiUpgrade.Path
