import CApiUpgrade.Diff.Unified
import CApiUpgrade.Discovery
import CApiUpgrade.Report
import CApiUpgrade.SourceFile

/-!
# Jobs

A job says what to do with source files: which rules to apply, and where the patched texts go.
`Job.patchPaths` does it for the path names of a command line, one after another.  Each of them is
looked up in the store as the files before it left it.  The first error ends the work, and what
has been written by then stays.
-/

namespace CApiUpgrade

/-- Where patched texts go. -/
inductive OutputMode where
  /-- Into the files. -/
  | inPlace
  /-- To the standard output. -/
  | stdout
  /-- Nowhere: the differences go to the standard output. -/
  | diff
  deriving DecidableEq, Repr

/-- How a mode is named in the detailed account. -/
def OutputMode.name : OutputMode → String
  | .inPlace => "InPlace"
  | .stdout => "Stdout"
  | .diff => "Diff"

/-- The settings of a run. -/
structure Job where
  /-- The rules to apply. -/
  rules : List Rule
  /-- Whether to include the compatibility header. -/
  insertHeader : Bool := true
  /-- Where patched texts go. -/
  mode : OutputMode := .inPlace
  /-- Whether to keep the old files. -/
  keepBackups : Bool := true
  /-- Whether to be quiet. -/
  quiet : Bool := false
  /-- Whether to tell every step. -/
  verbose : Bool := false
  /-- The exclusion patterns. -/
  exclude : List String := []

/-- How far a run has come. -/
structure Progress where
  /-- The files. -/
  store : Store
  /-- What has been written to the standard output. -/
  out : ByteArray := .empty
  /-- What has been written to the standard error output. -/
  err : String := ""
  /-- What has been counted. -/
  summary : Summary := {}

namespace Progress

/-- Writes bytes to the standard output. -/
def write (p : Progress) (bytes : ByteArray) : Progress := { p with out := p.out ++ bytes }

/-- Writes a text to the standard output. -/
def print (p : Progress) (text : String) : Progress := p.write text.toUTF8

/-- Writes to the standard error output. -/
def tell (p : Progress) (text : String) : Progress := { p with err := p.err ++ text }

/-- Writes to the standard error output under a condition. -/
def tellIf (p : Progress) (condition : Bool) (text : String) : Progress :=
  if condition then p.tell text else p

/-- Writes a line of the detailed account. -/
def debugIf (p : Progress) (verbose : Bool) (text : String) : Progress :=
  p.tellIf verbose (Report.debug text)

/-- Counts a warning and tells it. -/
def warn (p : Progress) (text : String) : Progress :=
  { p.tell text with summary := p.summary.addWarning }

end Progress

namespace Job

/-! ### One file -/

/-- Counts a patched file and tells which rules fired. -/
def account (job : Job) (p : Progress) (file : PatchedFile) : Progress :=
  let outcome := file.outcome
  let p := outcome.applied.foldl
    (fun p name => p.debugIf job.verbose ("rule fired rule=" ++ Text.quoted name)) p
  let p := { p with summary := p.summary.addFile outcome.applied outcome.headerAdded }
  p.debugIf (job.verbose && outcome.applied.isEmpty) ("no changes path=" ++ file.path)

/-- Writes the patched text of a file back. -/
def replaceFile (job : Job) (p : Progress) (file : PatchedFile) :
    Progress × Option FileError :=
  match file.newBytes with
  | .error cause => (p, some (.notEncoded file.path cause))
  | .ok bytes =>
    match Backup.writeFile job.keepBackups p.store file.path bytes with
    | (store, some cause) => ({ p with store }, some (.notReplaced cause))
    | (store, none) =>
      let p := { p with store }
      let p := p.debugIf (job.verbose && job.keepBackups)
        ("original saved backup=" ++ Backup.pathOf file.path)
      (p.tellIf (!job.quiet) (Report.patchedFile file.path file.outcome.applied), none)

/-- Sends the patched text of a file where the mode says. -/
def deliver (job : Job) (p : Progress) (file : PatchedFile) : Progress × Option FileError :=
  match job.mode with
  | .stdout =>
    match file.newBytes with
    | .error cause => (p, some (.notEncoded file.path cause))
    | .ok bytes => (p.write bytes, none)
  | .diff =>
    if file.isChanged then
      (p.print (String.ofList (Diff.unified file.path file.text file.outcome.text)), none)
    else (p, none)
  -- A file without changes is left alone, and so is its backup.
  | .inPlace => if file.isChanged then replaceFile job p file else (p, none)

/-- Patches a file. -/
def patchFile (job : Job) (p : Progress) (path : String) : Progress × Option FileError :=
  match SourceFile.read p.store path with
  | .error e => (p, some e)
  | .ok source =>
    let p := p.debugIf (job.verbose && source.encoding == .latin1)
      ("not valid UTF-8, reading as Latin-1 path=" ++ path)
    match source.patch job.rules job.insertHeader with
    | .error e => (p, some e)
    | .ok file => deliver job (account job p file) file

/-! ### Many files -/

/-- Patches files one after another, up to the first error. -/
def patchFiles (job : Job) : Progress → List String → Progress × Option FileError
  | p, [] => (p, none)
  | p, path :: rest =>
    match patchFile job p path with
    | (p, none) => patchFiles job p rest
    | (p, some e) => (p, some e)

/-- Patches what a path name stands for. -/
def patchPath (job : Job) (p : Progress) (path : String) : Progress × Option FileError :=
  match discover p.store job.exclude path with
  | .sources files excluded =>
    let p := excluded.foldl
      (fun p file => p.debugIf job.verbose ("excluded by config path=" ++ file)) p
    patchFiles job p files
  | .noSources => (p.warn (Report.noSources path), none)
  | .missing => (p.warn (Report.missingPath path), none)

/-- Patches what path names stand for, up to the first error. -/
def patchPaths (job : Job) : Progress → List String → Progress × Option FileError
  | p, [] => (p, none)
  | p, path :: rest =>
    match patchPath job p path with
    | (p, none) => patchPaths job p rest
    | (p, some e) => (p, some e)

end Job

end CApiUpgrade
