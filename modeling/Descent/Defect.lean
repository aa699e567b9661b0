import Descent.Location

/-!
Defects of a grammar, which end a parse at once, and the other way a parse can be halted.
-/

namespace Descent

/-- Identity of a rule or of a reference; numbers are given out in order of creation. -/
structure RuleId where
  number : Nat
deriving DecidableEq

namespace RuleId

def display (rule : RuleId) : String := "rule #" ++ toString rule.number

end RuleId

/-- A fault of the grammar rather than of the input. -/
inductive Defect
  /-- A rule is entered again where it is still being parsed. -/
  | leftRecursion (rule : RuleId) (location : Location)
  /-- A rule without a definition is parsed or, after its last owner is gone, defined. -/
  | undefinedRule (rule : RuleId)
  /-- A rule is given a second definition. -/
  | ruleRedefined (rule : RuleId)
deriving DecidableEq

namespace Defect

def rule : Defect → RuleId
  | leftRecursion rule _ => rule
  | undefinedRule rule => rule
  | ruleRedefined rule => rule

def location? : Defect → Option Location
  | leftRecursion _ location => some location
  | undefinedRule _ => none
  | ruleRedefined _ => none

def message : Defect → String
  | leftRecursion rule location =>
    "left recursion in the grammar at " ++ location.display ++ " (" ++ rule.display ++ ")"
  | undefinedRule rule => rule.display ++ " was invoked before it was defined"
  | ruleRedefined rule => rule.display ++ " is already defined"

end Defect

/-- Why a parse ended without an outcome. -/
inductive Halt
  | defect (d : Defect)
  /-- The allowance of nested calls and repetitions is used up. -/
  | outOfFuel
deriving DecidableEq

end Descent
