import CApiUpgrade.CommandLine.Usage

/-!
# Reading the command line

Arguments are read from left to right.  An argument that starts with two hyphens is a long name,
perhaps with a value behind `=`.  One that starts with one hyphen is a run of letters, of which the
first that takes a value takes the rest.  `--` ends the switches, and everything else is the value
that the switch before it waits for, or a path name.  A lone `-` is no switch.

What an argument means is settled when the next one has been looked at: only then is a value
found to be missing.  An unknown switch is reported before that.
-/

namespace CApiUpgrade

/-- Why a command line is refused. -/
inductive ArgumentError where
  /-- No switch is called so. -/
  | unexpected (argument : String)
  /-- A flag is given a value. -/
  | unexpectedValue (value label : String)
  /-- A switch or the path names lack a value. -/
  | missingValue (label : String)
  /-- A switch is given twice. -/
  | repeated (label : String)
  /-- Two switches that exclude each other are given. -/
  | conflict (first second : String)
  deriving DecidableEq, Repr

/-- What an argument error says. -/
def ArgumentError.message : ArgumentError → String
  | .unexpected argument => "unexpected argument '" ++ argument ++ "' found"
  | .unexpectedValue value label =>
    "unexpected value '" ++ value ++ "' for '" ++ label ++ "' found; no more were expected"
  | .missingValue label => "a value is required for '" ++ label ++ "' but none was supplied"
  | .repeated label => "the argument '" ++ label ++ "' cannot be used multiple times"
  | .conflict first second =>
    "the argument '" ++ first ++ "' cannot be used with '" ++ second ++ "'"

/-- Why the program does not go on to its work. -/
inductive Interruption where
  /-- The help text is asked for. -/
  | help
  /-- The version is asked for. -/
  | version
  /-- The command line is refused. -/
  | invalid (error : ArgumentError)
  deriving DecidableEq, Repr

/-- What the command line asks for. -/
structure CommandLine where
  /-- The files and directories to patch. -/
  paths : List String := []
  /-- The rules to apply. -/
  operations : Option String := none
  /-- The configuration file. -/
  config : Option String := none
  /-- The flags, in the order in which they are given. -/
  flags : List Flag := []
  deriving DecidableEq, Repr

namespace CommandLine

/-- What has been read and not been settled. -/
inductive Pending where
  /-- Nothing. -/
  | nothing
  /-- A setting, with its value once that is there. -/
  | setting (s : Setting) (value : Option String)
  /-- Path names. -/
  | paths (ps : List String)

/-- How far the reading has come. -/
structure Reading where
  /-- What is settled. -/
  line : CommandLine := {}
  /-- What is not. -/
  pending : Pending := .nothing

/-- Ends with an error. -/
def refuse {α : Type} (error : ArgumentError) : Except Interruption α := .error (.invalid error)

/-- Gives a setting its value.  A path name is not empty. -/
def setValue (line : CommandLine) (s : Setting) (value : String) :
    Except Interruption CommandLine :=
  match s with
  | .operations =>
    if line.operations.isSome then refuse (.repeated (Switch.setting s).label)
    else .ok { line with operations := some value }
  | .config =>
    if line.config.isSome then refuse (.repeated (Switch.setting s).label)
    else if value = "" then refuse (.missingValue (Switch.setting s).label)
    else .ok { line with config := some value }

/-- Settles what is pending. -/
def settle (r : Reading) : Except Interruption CommandLine :=
  match r.pending with
  | .nothing => .ok r.line
  | .setting s none => refuse (.missingValue (Switch.setting s).label)
  | .setting s (some value) => setValue r.line s value
  | .paths ps =>
    if "" ∈ ps then refuse (.missingValue Usage.pathsName)
    else .ok { r.line with paths := r.line.paths ++ ps }

/-- Takes a flag. -/
def takeFlag (r : Reading) (f : Flag) : Except Interruption Reading := do
  let line ← settle r
  match f with
  | .help => throw .help
  | .version => throw .version
  | f =>
    if f ∈ line.flags then refuse (.repeated (Switch.flag f).label)
    else return ⟨{ line with flags := line.flags ++ [f] }, .nothing⟩

/-- Takes a setting, whose value may stand in the same argument. -/
def takeSetting (r : Reading) (s : Setting) : (value : Option String) → Except Interruption Reading
  | some value => do return ⟨← setValue (← settle r) s value, .nothing⟩
  | none => do return ⟨← settle r, .setting s none⟩

/-- Takes a path name. -/
def takePath (r : Reading) (path : String) : Except Interruption Reading :=
  match r.pending with
  | .paths ps => .ok { r with pending := .paths (ps ++ [path]) }
  | _ => do return ⟨← settle r, .paths [path]⟩

/-- Takes the long name of a switch, with what stands behind `=`. -/
def takeLong (r : Reading) (name : String) (value : Option String) :
    Except Interruption Reading :=
  match Switch.ofLongName? name, value with
  | none, _ => refuse (.unexpected ("--" ++ name))
  | some (.setting s), value => takeSetting r s value
  | some (.flag f), some value => refuse (.unexpectedValue value (Switch.flag f).label)
  | some (.flag f), none => takeFlag r f

/-- The value behind a letter in the same argument: all that follows, without an `=` in front. -/
def attachedValue : List Char → Option String
  | [] => none
  | '=' :: rest => some (String.ofList rest)
  | rest => some (String.ofList rest)

/-- Takes the letters of switches. -/
def takeLetters (r : Reading) : List Char → Except Interruption Reading
  | [] => .ok r
  | c :: rest =>
    match Switch.ofLetter? c with
    | none => refuse (.unexpected (String.ofList ['-', c]))
    | some (.setting s) => takeSetting r s (attachedValue rest)
    | some (.flag f) => do takeLetters (← takeFlag r f) rest

/-- Takes an argument that is no switch: the value that a setting waits for, or a path name. -/
def takePlain (r : Reading) (argument : String) : Except Interruption Reading :=
  match r.pending with
  | .setting s none => .ok { r with pending := .setting s (some argument) }
  | _ => takePath r argument

/-- Takes the arguments in turn. -/
def takeAll (r : Reading) : List String → Except Interruption Reading
  | [] => .ok r
  | argument :: rest =>
    match argument.toList with
    -- Whatever follows is a path name.
    | ['-', '-'] => rest.foldlM takePath r
    | '-' :: '-' :: long => do
      let name := String.ofList (long.takeWhile (· != '='))
      let value := match long.dropWhile (· != '=') with
        | [] => none
        | _ :: value => some (String.ofList value)
      takeAll (← takeLong r name value) rest
    | '-' :: c :: letters => do takeAll (← takeLetters r (c :: letters)) rest
    | _ => do takeAll (← takePlain r argument) rest

/-- Refuses flags that exclude each other.  The one that is given first is named first. -/
def checkConflicts (line : CommandLine) : Except Interruption CommandLine :=
  match line.flags.filter fun f => f == .diff || f == .toStdout with
  | first :: second :: _ =>
    refuse (.conflict (Switch.flag first).label (Switch.flag second).label)
  | _ => .ok line

/-- Reads the arguments of the program. -/
def parse (arguments : List String) : Except Interruption CommandLine := do
  checkConflicts (← settle (← takeAll {} arguments))

/-- Whether a flag is given. -/
def has (line : CommandLine) (f : Flag) : Bool := f ∈ line.flags

end CommandLine

end CApiUpgrade
