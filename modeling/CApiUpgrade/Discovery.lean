import CApiUpgrade.Exclusion
import CApiUpgrade.Store.Resolution

/-!
# Discovering source files

What a path name on the command line stands for: a file stands for itself, whatever its name, and a
directory for all source files in it and in its subdirectories, save those in a directory of a
skipped name.  Links to files count; links to directories are not entered, unless the search
starts there.

The files come in the order of the names on the way to them, compared one by one.

All entries are listed: that a directory cannot be read, so that the search passes by what is in it,
is left out.
-/

namespace CApiUpgrade

/-- What a path name stands for. -/
inductive Discovered where
  /-- Source files to be patched; `excluded` are those that a pattern keeps out. -/
  | sources (files excluded : List String)
  /-- A directory without source files. -/
  | noSources
  /-- Nothing. -/
  | missing
  deriving DecidableEq, Repr

namespace Discovery

/-- The extensions of source files. -/
def extensions : List String := ["c", "h", "cc", "cpp", "cxx", "hh", "hpp", "hxx"]

/-- Whether a path name is that of a source file, by its extension. -/
def isSourceName (path : String) : Bool := (Path.extension? path).any (· ∈ extensions)

/-- The name of the directories that are not searched. -/
def skippedName : String := ".tox"

/-- Whether the way to an entry leads through a directory that is not searched. -/
def isSkipped (names : List String) : Bool := skippedName ∈ names.dropLast

/-- Whether a list of names does not come after another one: the first names that differ decide,
and a directory comes before what is in it. -/
def notAfter : List String → List String → Bool
  | [], _ => true
  | _ :: _, [] => false
  | a :: as, b :: bs => if a = b then notAfter as bs else decide (a < b)

/-- The names on the way from a directory to each entry below it, in order. -/
def below (store : Store) (start : Location) : List (List String) :=
  (store.entries.filterMap fun (loc, _) =>
    if start.isPrefixOf loc && loc != start then some (loc.drop start.length) else none).mergeSort
      notAfter

/-- Whether the directory where a search starts is one that is not searched.  A link to one is. -/
def isSkippedStart (store : Store) (path : String) : Bool :=
  Path.fileName? path == some skippedName &&
    match store.linkStat path with
    | .ok (_, node) => node.isDirectory
    | .error _ => false

/-- The path names of the source files below a directory, in order. -/
def sourceFiles (store : Store) (path : String) (start : Location) : List String :=
  if isSkippedStart store path then []
  else
    (((below store start).filter (!isSkipped ·)).map (·.foldl Path.join path)).filter fun file =>
      store.isFile file && isSourceName file

end Discovery

/-- What a path name stands for, under exclusion patterns. -/
def discover (store : Store) (exclude : List String) (path : String) : Discovered :=
  match store.stat path with
  | .ok (start, .directory) =>
    match Discovery.sourceFiles store path start with
    | [] => .noSources
    | files =>
      .sources (files.filter (!Exclusion.anyExcludes exclude ·))
        (files.filter (Exclusion.anyExcludes exclude ·))
  | .ok _ => .sources [path] []
  | .error _ => .missing

end CApiUpgrade
