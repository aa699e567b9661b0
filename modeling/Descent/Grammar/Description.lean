import Descent.Grammar.Node

/-!
Closures and descriptions of character tests, mappings, value tests and applications, from which a
grammar that is given as data chooses its functions.
-/

namespace Descent

namespace Custom

/-- Fails `n` characters further on, or at the end of the input if that is nearer. -/
def failAhead (n : Nat) (message : String) (labels : List String) : Closure where
  run c := .failure ((Failure.plain (c.skip n) (.custom message)).expecting (.ofList labels))
  blind k c := by
    rw [Cursor.skip_raise]
    rfl

/-- The next `n` characters as a string. If there are fewer, it fails at the end. -/
def take (n : Nat) : Closure where
  run c := match c.forward n with
    | .ok d => .success (.str (.ofList (c.rest.take n))) d
    | .error e => .failure (.plain (c.skip n) (.custom e.message))
  blind k c := by
    rw [Cursor.forward_raise, Cursor.skip_raise]
    cases c.forward n <;> rfl

/-- All of the unread text, which stays unread. -/
def rest : Closure where
  run c := .success (.str (.ofList c.rest)) c
  blind _ _ := rfl

def position : Closure where
  run c := .success (.int (.ofNat c.position)) c
  blind _ _ := rfl

/-- Goes on in another text, after its first `n` characters. The cursor is a new one, with a table
of its own. -/
def jump (text : String) (n : Nat) : Closure where
  run c := .success .unit (((Cursor.start text.toList).raise (c.table + 1)).skip n)
  blind k c := by
    have next : (c.raise k).table + 1 = c.table + 1 + k := Nat.add_right_comm ..
    rw [next, ← Cursor.raise_raise, Cursor.skip_raise]
    rfl

end Custom

/-- A set of characters. -/
inductive CharTest
  | isIn (s : String)
  | notIn (s : String)
  | range (low high : Char)
  | always
  | never

def CharTest.run : CharTest → Char → Bool
  | isIn s, c => s.toList.contains c
  | notIn s, c => !s.toList.contains c
  | range low high, c => low ≤ c && c ≤ high
  | always, _ => true
  | never, _ => false

/-- A function from values to values. -/
inductive Mapping
  | flat
  | integer
  | digit
  | size
  | shown
  | first
  | second
  | swapped
  | cons
  | snoc
  | unwrapOr (default : Value)
  | constant (w : Value)
  | tagged (name : String)
  | withVariable (x : String)

def Mapping.run (vars : Variables) : Mapping → Value → Value
  | flat, v => .str v.flatText
  | integer, v => .int v.toInteger
  | digit, v => .ofOption (v.leadingDigit.map .int)
  | size, v => .int (.ofNat v.size)
  | shown, v => .str v.shown
  | first, v => v.first
  | second, v => v.second
  | swapped, v => v.swapped
  | cons, v => v.cons
  | snoc, v => v.snoc
  | unwrapOr default, v => v.unwrapOr default
  | constant w, _ => w
  | tagged name, v => .tagged name v
  | withVariable x, v => .pair (vars x) v

/-- A test of values. -/
inductive Test
  | always
  | never
  | equals (w : Value)
  | equalsVariable (x : String)
  | occursIn (s : String)
  | lengthAtMost (n : Nat)
  | lessThan (n : Int64)
  | negated (t : Test)

def Test.run (vars : Variables) : Test → Value → Bool
  | always, _ => true
  | never, _ => false
  | equals w, v => v = w
  | equalsVariable x, v => v = vars x
  | occursIn s, v => Value.occursIn v.flat s.toList
  | lengthAtMost n, v => v.flat.length ≤ n
  | lessThan n, v => match v with
    | .int m => m < n
    | _ => false
  | negated t, v => !t.run vars v

/-- What a chain makes of an operator and its two operands. -/
inductive Application
  | shown
  | list
  | left
  | right
  | arithmetic

def Application.run : Application → Value → Value → Value → Value
  | shown, o, l, r => .str (.ofList ('(' :: l.flat ++ o.flat ++ r.flat ++ [')']))
  | list, o, l, r => .list [o, l, r]
  | left, _, l, _ => l
  | right, _, _, r => r
  | arithmetic, o, l, r =>
    .int (Value.arithmetic (Value.trimmed o.flat) l.intValue r.intValue)

namespace Node

def endOfInput : Node := atom .endOfInput

def custom (f : Closure) : Node := atom (.custom f)

/-- The value of a variable. -/
def variableValue (x : String) : Node := leaf fun vars => .value (vars x)

/-- Exactly the text of the value of a variable. -/
def variableText (x : String) : Node := leaf fun vars => .literal (vars x).flatText

def map (m : Mapping) (p : Node) : Node := unary (fun vars => .map (m.run vars)) p

def filter (t : Test) (p : Node) : Node := unary (fun vars => .filter (t.run vars)) p

def chainLeft (operator operand : Node) (a : Application) : Node :=
  binary (.chainLeft a.run) operator operand

def chainRight (operator operand : Node) (a : Application) : Node :=
  binary (.chainRight a.run) operator operand

end Node
end Descent
