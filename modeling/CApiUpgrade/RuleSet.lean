import CApiUpgrade.Rule
import CApiUpgrade.Text.Blank

/-!
# Sets of rules

A set of rules is a list in the order of application.  No two of its rules have one name, and no
rule comes before one that it names as its predecessor.  `RuleSet.ofRules` checks this.

A *selection* picks rules by their names: the words of a text, separated by commas and blanks,
add a rule, add all of them (`all`) or take one back (`-name`).  Whatever the order of the words,
the rules keep the order of the set.
-/

namespace CApiUpgrade

/-- Why a set of rules cannot be built, selected from or applied. -/
inductive RuleError where
  /-- Two rules have one name. -/
  | duplicateName (name : String)
  /-- A rule names a predecessor that is not in the set. -/
  | unknownDependency (rule dependency : String)
  /-- A rule comes before one of its predecessors. -/
  | outOfOrder (rule dependency : String)
  /-- A selection asks for rules that are not in the set. -/
  | unknownOperations (names : List String)
  /-- A rule cannot be applied to a text. -/
  | notApplied (rule : String) (cause : PatternError)
  deriving DecidableEq, Repr

/-- What a rule error says. -/
def RuleError.message : RuleError → String
  | .duplicateName name => "Duplicate rule name: " ++ name
  | .unknownDependency rule dependency =>
    "Rule " ++ rule ++ " runs after unknown rule " ++ dependency
  | .outOfOrder rule dependency =>
    "Rule " ++ rule ++ " must come after " ++ dependency ++ " in the catalog"
  | .unknownOperations names => "invalid operations: " ++ ",".intercalate names
  | .notApplied rule _ => "Rule " ++ rule ++ " could not be applied"

/-- Rules in the order of application. -/
structure RuleSet where
  /-- The rules. -/
  rules : List Rule

namespace RuleSet

/-- The first name that occurs a second time. -/
def firstDuplicate? : (seen : List String) → List String → Option String
  | _, [] => none
  | seen, name :: rest =>
    if name ∈ seen then some name else firstDuplicate? (name :: seen) rest

/-- The first predecessor that does not come before its rule.  The rules up to and with `rule`
have the names `earlier`, those of the whole set have the names `all`. -/
def misplaced? (all earlier : List String) (rule : Rule) : Option RuleError :=
  rule.runsAfter.findSome? fun dependency =>
    if dependency ∈ earlier then none
    else if dependency ∈ all then some (.outOfOrder rule.name dependency)
    else some (.unknownDependency rule.name dependency)

/-- The first rule that comes before one of its predecessors. -/
def firstMisplaced? (all : List String) : (earlier : List String) → List Rule → Option RuleError
  | _, [] => none
  | earlier, rule :: rest =>
    let earlier := rule.name :: earlier
    (misplaced? all earlier rule).or (firstMisplaced? all earlier rest)

/-- A set of rules, if no name occurs twice and no rule comes before one of its predecessors. -/
def ofRules (rules : List Rule) : Except RuleError RuleSet :=
  let names := rules.map Rule.name
  match firstDuplicate? [] names, firstMisplaced? names [] rules with
  | some name, _ => .error (.duplicateName name)
  | none, some fault => .error fault
  | none, none => .ok ⟨rules⟩

/-- The names of the rules, in the order of application. -/
def names (set : RuleSet) : List String := set.rules.map Rule.name

/-- The rule of a name. -/
def find? (set : RuleSet) (name : String) : Option Rule :=
  set.rules.find? (·.name == name)

/-- The names and descriptions of the rules, sorted by name. -/
def listing (set : RuleSet) : List (String × String) :=
  (set.rules.map fun rule => (rule.name, rule.description)).mergeSort fun a b => a.1 ≤ b.1

/-! ### Selections -/

/-- A word of a selection. -/
inductive SelectionWord where
  /-- Adds all rules. -/
  | all
  /-- Adds a rule. -/
  | add (name : String)
  /-- Takes a rule back. -/
  | remove (name : String)
  deriving DecidableEq, Repr

/-- Reads a word of a selection. -/
def SelectionWord.ofList (word : List Char) : SelectionWord :=
  if word == "all".toList then .all
  else match word with
    | '-' :: name => .remove (String.ofList name)
    | _ => .add (String.ofList word)

/-- Whether a character separates the words of a selection. -/
def isSeparator (c : Char) : Bool := c == ',' || Text.isBlank c

/-- The words of a selection. -/
def selectionWords (selection : String) : List SelectionWord :=
  ((selection.toList.splitOnP isSeparator).filter (!·.isEmpty)).map SelectionWord.ofList

/-- Adds a name to a list of names, once. -/
def addName (wanted : List String) (name : String) : List String :=
  if name ∈ wanted then wanted else wanted ++ [name]

/-- What is wanted after one more word. -/
def want (set : RuleSet) (wanted : List String) : SelectionWord → List String
  | .all => set.names.foldl addName wanted
  | .add name => addName wanted name
  | .remove name => wanted.filter (· != name)

/-- The rules that a selection asks for, in the order of the set. -/
def select (set : RuleSet) (selection : String) : Except RuleError (List Rule) :=
  let wanted := (selectionWords selection).foldl set.want []
  match wanted.filter (· ∉ set.names) with
  | [] => .ok (set.rules.filter (·.name ∈ wanted))
  | unknown => .error (.unknownOperations (unknown.mergeSort (· ≤ ·)))

end RuleSet

end CApiUpgrade
