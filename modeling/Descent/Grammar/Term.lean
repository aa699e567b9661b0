import Descent.Grammar.Node

/-!
Built grammars: every name is resolved, rules are handles into a store, and choosers and references
carry the scope that they were built in.
-/

namespace Descent

/-- A handle of a rule. Only owning handles keep the rule alive. -/
structure Handle where
  rule : RuleId
  owning : Bool
deriving DecidableEq

/-- What names stand for; the innermost binding of a name comes first. -/
structure Scope where
  rules : List (String × Handle)
  values : List (String × Value)

namespace Scope

def empty : Scope := ⟨[], []⟩

def vars (scope : Scope) : Variables := fun x => (scope.values.lookup x).getD .unit

def handle? (scope : Scope) (name : String) : Option Handle := scope.rules.lookup name

def bindRule (scope : Scope) (name : String) (h : Handle) : Scope :=
  { scope with rules := (name, h) :: scope.rules }

/-- The scope with a name that owns nothing. -/
def hideRule (scope : Scope) (name : String) : Scope := scope.bindRule name ⟨⟨0⟩, false⟩

def bindValue (scope : Scope) (x : String) (v : Value) : Scope :=
  { scope with values := (x, v) :: scope.values }

end Scope

inductive Term
  | leaf (a : Atom)
  | unary (op : Unary) (p : Term)
  | binary (op : Binary) (p q : Term)
  | between (first inner last : Term)
  | bind (p : Term) (next : Chooser) (scope : Scope)
  | rule (h : Handle)
  | reference (rule : RuleId) (body : Node) (scope : Scope)

/-- `p` a number of times in a row, as a list. -/
def Term.replicate (p : Term) : Nat → Term
  | 0 => leaf (.value (.list []))
  | n + 1 => binary .concat (replicate p n) (unary .once p)

end Descent
