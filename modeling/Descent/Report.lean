import Descent.Defect
import Descent.Value.Shown

/-!
Reports of a parse that gave no value, for the reader of the text.
-/

namespace Descent

/-- A failure as reported: where, why, what was expected, and the text around the place. -/
structure Mismatch where
  location : Location
  message : String
  expectations : List String
  excerpt : String
deriving DecidableEq

def Failure.report (f : Failure) : Mismatch where
  location := f.failedAt.location
  message := f.message.render
  expectations := f.expectations.toList
  excerpt := f.failedAt.excerpt

namespace Mismatch

def display (m : Mismatch) : String :=
  "syntax error at " ++ m.location.display ++ ": " ++ m.message ++
    Failure.describeLabels m.expectations

def shown (m : Mismatch) : String :=
  Shown.record "Syntax"
    [("location", m.location.shown), ("message", Text.quoted m.message),
      ("expectations", Shown.list (m.expectations.map Text.quoted)),
      ("excerpt", Text.quoted m.excerpt)] false

end Mismatch

def Defect.shown : Defect → String
  | leftRecursion rule location =>
    Shown.record "LeftRecursion" [("rule", rule.shown), ("location", location.shown)] false
  | undefinedRule rule => Shown.record "UndefinedRule" [("rule", rule.shown)] false
  | ruleRedefined rule => Shown.record "RuleRedefined" [("rule", rule.shown)] false

def Halt.shown : Halt → String
  | defect d => "Grammar(" ++ d.shown ++ ")"
  | outOfFuel => "OutOfFuel"

/-- Why a text has no value: it does not match, or the parse was halted. -/
inductive ParseError
  | mismatch (m : Mismatch)
  | halted (h : Halt)
deriving DecidableEq

def ParseError.shown : ParseError → String
  | mismatch m => m.shown
  | halted h => h.shown

/-- The value of an outcome, or the report of why there is none. -/
def Outcome.result {α : Type} : Except Halt (Outcome α) → Except ParseError α
  | .ok (success v _) => .ok v
  | .ok (failure f) => .error (.mismatch f.report)
  | .error h => .error (.halted h)

end Descent
