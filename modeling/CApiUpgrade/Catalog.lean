import CApiUpgrade.Catalog.Allocation
import CApiUpgrade.Catalog.Field
import CApiUpgrade.Catalog.Reference
import CApiUpgrade.Catalog.Singleton
import CApiUpgrade.RuleSet

/-!
# The catalog

All rules, in the order of application.  The stores to a field come before its reads, and the
folds of reference counts come after both: they build on each other and on what the other rules
leave.
-/

namespace CApiUpgrade.Catalog

/-- All rules, in the order of application. -/
def rules : List Rule :=
  [setType, setSize, setRefCount, readType, readSize, readRefCount, objectNew, memoryFamily,
    objectFamily, readFrameBack, readFrameCode, readInterpreter, readThreadFrame, clear, newRef,
    setRef, isSingleton]

/-- The catalog as a set of rules. -/
def all : RuleSet := ⟨rules⟩

/-- The names of the rules are distinct, and no rule comes before one of its predecessors. -/
theorem ofRules_rules : RuleSet.ofRules rules = .ok all := by
  have distinct : RuleSet.firstDuplicate? [] (rules.map Rule.name) = none := by decide
  have placed : RuleSet.firstMisplaced? (rules.map Rule.name) [] rules = none := by decide
  simp only [RuleSet.ofRules, distinct, placed, all]

end CApiUpgrade.Catalog
