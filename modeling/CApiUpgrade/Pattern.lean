import CApiUpgrade.Regex.Parser
import CApiUpgrade.Regex.Search
import CApiUpgrade.Regex.Source
import CApiUpgrade.Template
import CApiUpgrade.Text.Quoted

/-!
# Patterns

A pattern is a regular expression together with the template that replaces its matches.
`Pattern.apply` replaces all of them in one pass over the text.  It either answers for the whole
text or, when a search runs out of its budget, not at all: no text is ever changed in part.

A written expression is made ready to run when it is read (`Regex.prepared`): parts of it go to
automata, which take no steps back.  An expression that is given as such (`Pattern.ofRegex`) is run
by backtracking throughout.  So the two count steps back differently, and what is said about the
budget of one says nothing about the other.
-/

namespace CApiUpgrade

/-- Why a pattern cannot be built or applied.  Both causes keep the written expression. -/
inductive PatternError where
  /-- The expression is not well formed. -/
  | invalid (source : String) (cause : RegexError)
  /-- A search ran out of its budget. -/
  | unmatchable (source : String) (cause : SearchError)
  deriving DecidableEq, Repr

/-- What a pattern error says.  The cause is left to whoever shows the message. -/
def PatternError.message : PatternError → String
  | .invalid source _ => "Invalid pattern " ++ Text.quoted source ++ ": "
  | .unmatchable source _ => "Pattern " ++ Text.quoted source ++ " failed while matching: "

/-- A regular expression and the template that replaces its matches. -/
structure Pattern where
  /-- The expression, as it is written. -/
  source : String
  /-- The expression. -/
  regex : Regex
  /-- The groups of the expression. -/
  groups : GroupTable
  /-- What replaces a match. -/
  template : Template
  /-- How many steps back one search may take. -/
  budget : Nat
  deriving DecidableEq

namespace Pattern

/-- The budget of a search unless another is given.  The steps back of a search grow with the
text in front of the match, so the budget has to be far above the size of a source file. -/
def defaultBudget : Nat := 1000000000

/-- A pattern from an expression, which is run as it stands, and a template. -/
def ofRegex (regex : Regex) (template : Template) : Pattern :=
  ⟨regex.source, regex, .of regex, template, defaultBudget⟩

/-- A pattern from a written expression and a written template. -/
def parse (source template : String) (budget : Nat := defaultBudget) :
    Except PatternError Pattern :=
  match Regex.parse source with
  | .ok (regex, groups) => .ok ⟨source, regex, groups, Template.parse template, budget⟩
  | .error cause => .error (.invalid source cause)

/-- How a pattern is shown to a developer. -/
def description (p : Pattern) : String :=
  "Pattern \x7b regex: " ++ Text.quoted p.source ++ ", template: " ++
    Text.quoted p.template.source ++ " \x7d"

/-- The limit on the steps back of one search, if it is charged. -/
def limit (p : Pattern) : Option Nat :=
  if p.regex.isCharged then some p.budget else none

/-- The matches of a pattern in a text.  Only a template with a dollar sign lets a search resume one
character behind an empty match. -/
def hits (p : Pattern) (text : List Char) : Except PatternError (List Hit) :=
  match p.regex.findAll p.limit p.template.hasDollar text with
  | .ok hits => .ok hits
  | .error cause => .error (.unmatchable p.source cause)

/-- The text from `cur` on, with each of the matches replaced. -/
def splice (p : Pattern) (cur : Cursor) : List Hit → List Char
  | [] => cur.after
  | hit :: rest =>
    cur.upTo hit.start ++ p.template.expand p.groups hit ++ p.splice hit.stop rest

/-- The text with every match replaced, or `none` if there is no match. -/
def apply (p : Pattern) (text : List Char) : Except PatternError (Option (List Char)) := do
  match ← p.hits text with
  | [] => return none
  | hits => return some (p.splice (Cursor.ofText text) hits)

end Pattern

end CApiUpgrade
