import CApiUpgrade.Backup
import CApiUpgrade.Encoding
import CApiUpgrade.Patch

/-!
# Source files

A source file is read, decoded and patched, and what becomes of its text is encoded as the file
was.
-/

namespace CApiUpgrade

/-- Why a source file could not be dealt with. -/
inductive FileError where
  /-- The file cannot be read. -/
  | unreadable (path : String) (cause : OsError)
  /-- A rule cannot be applied to the text. -/
  | notPatched (path : String) (cause : RuleError)
  /-- The patched text has no form in the encoding of the file. -/
  | notEncoded (path : String) (cause : EncodeError)
  /-- The file cannot be replaced. -/
  | notReplaced (cause : BackupError)
  deriving DecidableEq, Repr

/-- What a rule error says, with the cause that it may have. -/
def RuleError.fullMessage : RuleError → String
  | .notApplied rule cause => (RuleError.notApplied rule cause).message ++ ": " ++ cause.message
  | e => e.message

/-- What a file error says. -/
def FileError.message : FileError → String
  | .unreadable path cause => "Failed to read file: " ++ path ++ ": " ++ cause.message
  | .notPatched path cause => "Failed to patch file: " ++ path ++ ": " ++ cause.fullMessage
  | .notEncoded path cause => "Failed to encode " ++ path ++ ": " ++ cause.message
  | .notReplaced cause => cause.message

/-- The text of a source file. -/
structure SourceFile where
  /-- The path name. -/
  path : String
  /-- The text. -/
  text : List Char
  /-- How the bytes of the file were read. -/
  encoding : Encoding

/-- A source file and what has become of its text. -/
structure PatchedFile extends SourceFile where
  /-- What has become of the text. -/
  outcome : PatchOutcome

namespace SourceFile

/-- Reads a source file. -/
def read (store : Store) (path : String) : Except FileError SourceFile :=
  match store.read path with
  | .error cause => .error (.unreadable path cause)
  | .ok bytes =>
    let (text, encoding) := Encoding.decode bytes
    .ok ⟨path, text, encoding⟩

/-- Applies rules to a source file. -/
def patch (rules : List Rule) (insertHeader : Bool) (file : SourceFile) :
    Except FileError PatchedFile :=
  match CApiUpgrade.patch rules insertHeader file.text with
  | .error cause => .error (.notPatched file.path cause)
  | .ok outcome => .ok { file with outcome }

end SourceFile

namespace PatchedFile

/-- Whether the text has changed. -/
def isChanged (file : PatchedFile) : Bool := file.outcome.text != file.text

/-- The patched text in the encoding of the file. -/
def newBytes (file : PatchedFile) : Except EncodeError ByteArray :=
  Encoding.encode file.outcome.text file.encoding

end PatchedFile

end CApiUpgrade
