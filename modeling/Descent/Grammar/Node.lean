import Descent.Grammar.Operation

/-!
Grammars as they are written down: rules and variables are referred to by name.
-/

namespace Descent

/-- The values that variables stand for; a variable without a value stands for the unit. -/
abbrev Variables := String → Value

mutual

/-- A grammar whose leaves and operations may depend on the variables in scope. -/
inductive Node
  | leaf (a : Variables → Atom)
  | unary (op : Variables → Unary) (p : Node)
  | binary (op : Binary) (p q : Node)
  | between (first inner last : Node)
  | bind (p : Node) (next : Chooser)
  | rule (name : String)
  /-- A rule that its own body may refer to by name. -/
  | recursive (name : String) (body : Node)
  /-- A parser that is built when it is first run. -/
  | reference (body : Node)
  /-- A rule that is declared and never defined. -/
  | undefined

inductive Chooser
  /-- Exactly the text of the value. -/
  | same
  /-- As many matches as the value says, as a list. -/
  | times (p : Node)
  | always (p : Node)
  | onValue (v : Value) (p : Node) (otherwise : Chooser)
  /-- A parser in which a variable stands for the value. -/
  | bindTo (x : String) (p : Node)

end

namespace Node

def atom (a : Atom) : Node := leaf fun _ => a

/-- An operation that no variable has a part in. -/
def apply (op : Unary) (p : Node) : Node := unary (fun _ => op) p

def satisfy (k : CharClass) : Node := atom (.satisfy k)

def char (x : Char) : Node := satisfy (.exactly x)

def literal (s : String) : Node := atom (.literal s)

def value (v : Value) : Node := atom (.value v)

def description? : Node → Option String
  | leaf a => match a (fun _ => .unit) with
    | .satisfy k => some k.description
    | .literal s => some s
    | _ => none
  | _ => none

end Node
end Descent
