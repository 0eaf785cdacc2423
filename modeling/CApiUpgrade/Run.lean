import CApiUpgrade.Catalog
import CApiUpgrade.CommandLine.Parser
import CApiUpgrade.Config
import CApiUpgrade.Job

/-!
# Runs

A run takes a file store and a command line to a file store, two output texts and an exit status.
The configuration and the command line together make a job; the status says whether all its path
names stood for source files and no file failed.
-/

namespace CApiUpgrade

/-- How a run ends. -/
inductive ExitStatus where
  /-- All went well. -/
  | success
  /-- There was a warning, an error, or nothing to do. -/
  | failure
  /-- The command line was refused. -/
  | misuse
  deriving DecidableEq, Repr

/-- The number of an exit status. -/
def ExitStatus.code : ExitStatus → UInt8
  | .success => 0
  | .failure => 1
  | .misuse => 2

/-- What a run leaves. -/
structure RunResult where
  /-- How it ends. -/
  status : ExitStatus
  /-- What it has written to the standard output. -/
  out : ByteArray
  /-- What it has written to the standard error output. -/
  err : String
  /-- The files. -/
  store : Store

namespace Progress

/-- Ends a run. -/
def finish (p : Progress) (status : ExitStatus) : RunResult := ⟨status, p.out, p.err, p.store⟩

/-- Ends a run with an error. -/
def fail (p : Progress) (message : String) : RunResult :=
  (p.tell (Report.failure message)).finish .failure

end Progress

namespace CommandLine

/-- Where patched texts go. -/
def mode (line : CommandLine) : OutputMode :=
  if line.has .toStdout then .stdout else if line.has .diff then .diff else .inPlace

/-- The settings of a run, once the rules are selected. -/
def job (line : CommandLine) (config : Config) (rules : List Rule) : Job where
  rules
  insertHeader := config.insertsHeader (line.has .noHeader)
  mode := line.mode
  keepBackups := config.keepsBackups (line.has .noBackup)
  quiet := config.isQuiet (line.has .quiet || line.mode != .inPlace)
  verbose := line.has .verbose
  exclude := config.exclude

/-- The name of the working directory. -/
def workDirName (store : Store) : String := "/" ++ "/".intercalate store.workDir

/-- Loads the configuration: the file that is given, or the nearest one, or none. -/
def loadConfig (line : CommandLine) (p : Progress) : Progress × Except ConfigError Config :=
  let announce (p : Progress) (path : String) :=
    p.debugIf (line.has .verbose) ("using config path=" ++ path)
  if line.has .noConfig then (p, .ok {})
  else match line.config with
    | some path => (announce p path, Config.load p.store path)
    | none =>
      match Config.find? p.store (workDirName p.store) with
      | none => (p, .ok {})
      | some path =>
        match Config.load p.store path with
        -- A configuration that was found by itself is announced once it has been read.
        | .ok config => (announce p path, .ok config)
        | .error e => (p, .error e)

end CommandLine

namespace Job

/-- The end of a run that met no error. -/
def conclude (job : Job) (p : Progress) : RunResult :=
  let p := p.tellIf (p.summary.headersAdded != 0 && !job.quiet) Report.headerNotice
  let p := p.debugIf job.verbose
    ("done processed=" ++ toString p.summary.processed ++ " patched=" ++
      toString p.summary.patched)
  p.finish (if p.summary.warnings = 0 then .success else .failure)

/-- Does the work that a command line asks for. -/
def perform (job : Job) (p : Progress) (paths : List String) : RunResult :=
  let p := p.debugIf job.verbose
    ("operations: " ++ ", ".intercalate (job.rules.map Rule.name))
  let p := p.debugIf job.verbose
    ("starting mode=" ++ job.mode.name ++ " backups=" ++ toString job.keepBackups)
  match job.patchPaths p paths with
  | (p, some e) => p.fail e.message
  | (p, none) => job.conclude p

end Job

/-- Runs the program on a command line that was accepted, with the rules of a set. -/
def CommandLine.run (line : CommandLine) (set : RuleSet) (store : Store) : RunResult :=
  let p : Progress := { store }
  if line.paths.isEmpty then (p.print (Usage.full set)).finish .failure
  else match line.loadConfig p with
    | (p, .error e) => p.fail e.message
    | (p, .ok config) =>
      match set.select (config.selection line.operations) with
      | .ok rules => (line.job config rules).perform p line.paths
      | .error e => (p.print (e.message ++ "\n\n" ++ Usage.full set)).finish .failure

/-- Runs the program. -/
def run (store : Store) (arguments : List String) : RunResult :=
  match CommandLine.parse arguments with
  | .error .help => (Progress.print { store } Usage.help).finish .success
  | .error .version => (Progress.print { store } Usage.version).finish .success
  | .error (.invalid e) => (Progress.tell { store } ("error: " ++ e.message ++ "\n")).finish .misuse
  | .ok line => line.run Catalog.all store

end CApiUpgrade
