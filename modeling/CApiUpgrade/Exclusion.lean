import CApiUpgrade.Glob
import CApiUpgrade.Path
import CApiUpgrade.Text.Occurrence

/-!
# Exclusion patterns

An exclusion pattern keeps files out of a search.  Read as a glob pattern, it excludes the path
names and the file names that it matches; a pattern that is no valid glob matches none.  If it ends
in a slash, it also excludes everything in the directories of that name.

Path names are texts here.  File names that are no texts, which would be compared with U+FFFD in
place of what cannot be decoded, are left out.
-/

namespace CApiUpgrade.Exclusion

/-- A pattern without the slashes at its end. -/
def directoryPart (pattern : List Char) : List Char :=
  (pattern.reverse.dropWhile (· == '/')).reverse

/-- Whether a pattern is for directories. -/
def isForDirectories (pattern : List Char) : Bool := pattern.getLast? == some '/'

/-- Whether a path name leads through a directory of the given name. -/
def leadsThrough (directory path : List Char) : Bool :=
  Text.occursIn ('/' :: directory ++ ['/']) path || (directory ++ ['/']).isPrefixOf path

/-- Whether a glob pattern matches a path name or the file name at its end. -/
def matchesName (glob : Glob) (path : String) : Bool :=
  glob.accepts path.toList || (Path.fileName? path).any fun name => glob.accepts name.toList

/-- Whether a pattern excludes a path name. -/
def excludes (pattern path : String) : Bool :=
  (Glob.parse? pattern).any (matchesName · path) ||
    (isForDirectories pattern.toList && leadsThrough (directoryPart pattern.toList) path.toList)

/-- Whether one of several patterns excludes a path name. -/
def anyExcludes (patterns : List String) (path : String) : Bool :=
  patterns.any (excludes · path)

end CApiUpgrade.Exclusion
