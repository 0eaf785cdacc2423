/-!
# Switches of the command line

A switch is an option that the command line knows: a flag, which is given or not, or a setting,
which takes a value.  A switch has a long name and may have a letter.  The table of help texts is
made from the switches.
-/

namespace CApiUpgrade

/-- A switch without a value. -/
inductive Flag where
  /-- Say nothing about what is done. -/
  | quiet
  /-- Print the patched texts and change no file. -/
  | toStdout
  /-- Print the differences and change no file. -/
  | diff
  /-- Keep no old files. -/
  | noBackup
  /-- Do not include the compatibility header. -/
  | noHeader
  /-- Use no configuration file. -/
  | noConfig
  /-- Tell every step. -/
  | verbose
  /-- Print the help text and do nothing. -/
  | help
  /-- Print the version and do nothing. -/
  | version
  deriving DecidableEq, Repr

/-- A switch with a value. -/
inductive Setting where
  /-- The rules to apply. -/
  | operations
  /-- The configuration file. -/
  | config
  deriving DecidableEq, Repr

/-- A switch. -/
inductive Switch where
  /-- One without a value. -/
  | flag (f : Flag)
  /-- One with a value. -/
  | setting (s : Setting)
  deriving DecidableEq, Repr

namespace Switch

/-- All switches, in the order of the help text. -/
def all : List Switch :=
  [.setting .operations, .flag .quiet, .flag .toStdout, .flag .diff, .flag .noBackup,
    .flag .noHeader, .setting .config, .flag .noConfig, .flag .verbose, .flag .help, .flag .version]

/-- The long name. -/
def longName : Switch → String
  | setting .operations => "operations"
  | flag .quiet => "quiet"
  | flag .toStdout => "to-stdout"
  | flag .diff => "diff"
  | flag .noBackup => "no-backup"
  | flag .noHeader => "no-compat"
  | setting .config => "config"
  | flag .noConfig => "no-config"
  | flag .verbose => "verbose"
  | flag .help => "help"
  | flag .version => "version"

/-- The letter. -/
def letter? : Switch → Option Char
  | setting .operations => some 'o'
  | flag .quiet => some 'q'
  | flag .toStdout => some 'c'
  | flag .noBackup => some 'B'
  | flag .noHeader => some 'C'
  | flag .verbose => some 'v'
  | flag .help => some 'h'
  | flag .version => some 'V'
  | flag .diff | setting .config | flag .noConfig => none

/-- What stands for the value in texts. -/
def valueName? : Switch → Option String
  | setting .operations => some "OPERATIONS"
  | setting .config => some "PATH"
  | flag _ => none

/-- What the switch does, in the help text. -/
def description : Switch → String
  | setting .operations =>
    "Operations to apply, separated by commas or spaces (default: all). " ++
      "Prefix a name with '-' to exclude it"
  | flag .quiet => "Quiet mode"
  | flag .toStdout =>
    "Write output into stdout instead of modifying files in-place (implies quiet mode)"
  | flag .diff => "Print a unified diff instead of modifying files (implies quiet mode)"
  | flag .noBackup => "Don't create .old backup files"
  | flag .noHeader => "Don't add: #include \"pythoncapi_compat.h\""
  | setting .config => "Path to config file (default: auto-detect .pythoncapi.toml)"
  | flag .noConfig => "Ignore config files"
  | flag .verbose => "Show debug logging"
  | flag .help => "Print help"
  | flag .version => "Print version"

/-- The switch of a long name. -/
def ofLongName? (name : String) : Option Switch := all.find? (·.longName == name)

/-- The switch of a letter. -/
def ofLetter? (c : Char) : Option Switch := all.find? (·.letter? == some c)

/-- How a switch is named in messages: by its long name and what stands for its value. -/
def label (s : Switch) : String :=
  "--" ++ s.longName ++ (s.valueName?.map fun name => " <" ++ name ++ ">").getD ""

/-- How a switch is given, in the help text. -/
def form (s : Switch) : String :=
  (s.letter?.map fun c => String.ofList ['-', c, ',', ' ']).getD "    " ++ s.label

end Switch

end CApiUpgrade
