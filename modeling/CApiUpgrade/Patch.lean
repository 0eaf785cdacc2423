import CApiUpgrade.Header
import CApiUpgrade.RuleSet

/-!
# Patching a text

To patch a text is to apply rules to it one after another.  A rule *fires* if it changes the
text.  The first rule that fires and needs the compatibility header has it included, unless the
text includes it already or the caller does not want it.  A rule that cannot be applied fails
the whole text.
-/

namespace CApiUpgrade

/-- What has become of a text. -/
structure PatchOutcome where
  /-- The text. -/
  text : List Char
  /-- The names of the rules that fired, in the order of application. -/
  applied : List String
  /-- Whether the header was included. -/
  headerAdded : Bool
  deriving DecidableEq

namespace PatchOutcome

/-- Whether a rule fired. -/
def isChanged (o : PatchOutcome) : Bool := !o.applied.isEmpty

end PatchOutcome

namespace Patch

/-- How far the patching of a text has come. -/
structure Session where
  /-- The text so far. -/
  text : List Char
  /-- Whether the header still has to be included for a rule that needs it. -/
  headerMissing : Bool
  /-- Whether the header was included. -/
  headerAdded : Bool := false
  /-- The names of the rules that fired, in the order of application. -/
  applied : List String := []

namespace Session

/-- The start of patching a text. -/
def start (text : List Char) (insertHeader : Bool) : Session :=
  { text, headerMissing := insertHeader && !Header.isIncluded text }

/-- Takes the text that a rule leaves when it fires. -/
def fire (s : Session) (rule : Rule) (changed : List Char) : Session :=
  -- The header comes on top of the new text, so later rules see it.
  let s := { s with text := changed, applied := s.applied ++ [rule.name] }
  if rule.needsHeader && s.headerMissing then
    { s with text := Header.insert s.text, headerMissing := false, headerAdded := true }
  else s

/-- Applies one rule. -/
def step (s : Session) (rule : Rule) : Except RuleError Session :=
  match rule.apply s.text with
  | .error cause => .error (.notApplied rule.name cause)
  | .ok changed => .ok (if changed = s.text then s else s.fire rule changed)

/-- What has become of the text. -/
def outcome (s : Session) : PatchOutcome := ⟨s.text, s.applied, s.headerAdded⟩

end Session

end Patch

/-- Applies rules to a text.  The rules have to be in the order of application, as a selection
gives them. -/
def patch (rules : List Rule) (insertHeader : Bool) (text : List Char) :
    Except RuleError PatchOutcome :=
  Patch.Session.outcome <$> rules.foldlM Patch.Session.step (.start text insertHeader)

end CApiUpgrade
