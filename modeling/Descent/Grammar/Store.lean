import Descent.Grammar.Term

/-!
Stores: the definitions of rules, the references already resolved, and the rules being parsed.
-/

namespace Descent

/-- A rule or reference being parsed, with the cursor where it was entered. The position stands
before the cursor, so that entries at different places are told apart by a number. -/
structure Entry where
  rule : RuleId
  position : Nat
  cursor : Cursor
deriving DecidableEq

/-- The state of a grammar. A rule that is alive has a cell, which is empty until the rule is
defined. The entries of all guard tables are kept together, each with its table in its cursor. -/
structure Store where
  nextRule : Nat
  cells : List (RuleId × Option Term)
  resolved : List (RuleId × Term)
  active : List Entry

namespace Store

def empty : Store := ⟨0, [], [], []⟩

def fresh : StateM Store RuleId := fun s =>
  (⟨s.nextRule⟩, { s with nextRule := s.nextRule + 1 })

def declare : StateM Store RuleId := do
  let rule ← fresh
  modify fun s => { s with cells := (rule, none) :: s.cells }
  return rule

def definition? (s : Store) (rule : RuleId) : Option Term := (s.cells.lookup rule).join

def isDefined (s : Store) (rule : RuleId) : Bool := (s.definition? rule).isSome

def setCell (s : Store) (rule : RuleId) (body : Term) : Store :=
  { s with cells := s.cells.map fun (r, cell) => if r = rule then (r, some body) else (r, cell) }

def define (s : Store) (rule : RuleId) (body : Term) : Except Defect Store :=
  match s.cells.lookup rule with
  | none => .error (.undefinedRule rule)
  | some (some _) => .error (.ruleRedefined rule)
  | some none => .ok (s.setCell rule body)

def keep (s : Store) (rule : RuleId) (t : Term) : Store :=
  { s with resolved := (rule, t) :: s.resolved }

def entry (rule : RuleId) (c : Cursor) : Entry := ⟨rule, c.position, c⟩

def enter (s : Store) (e : Entry) : Store := { s with active := e :: s.active }

def leave (s : Store) (e : Entry) : Store := { s with active := s.active.erase e }

end Store

open Store in
/-- Builds a grammar from left to right. A recursive rule takes its identity before its body is
built, and the body of a reference is left unbuilt. A name that stands for no rule becomes a rule
without a definition. -/
def Node.build (scope : Scope) : Node → StateM Store Term
  | leaf a => return .leaf (a scope.vars)
  | unary op p => return .unary (op scope.vars) (← p.build scope)
  | binary op p q => do
    let p ← p.build scope
    let q ← q.build scope
    return .binary op p q
  | between first inner last => do
    let first ← first.build scope
    let inner ← inner.build scope
    let last ← last.build scope
    return .between first inner last
  | bind p next => return .bind (← p.build scope) next scope
  | rule name => match scope.handle? name with
    | some h => return .rule h
    | none => return .rule ⟨← declare, true⟩
  | recursive name body => do
    let rule ← declare
    let body ← body.build (scope.bindRule name ⟨rule, false⟩)
    modify (·.setCell rule body)
    return .rule ⟨rule, true⟩
  | reference body => return .reference (← fresh) body scope
  | undefined => return .rule ⟨← declare, true⟩

/-- Builds the parser chosen by a value. A parser that is to be repeated is built once, whatever
the number of repetitions. -/
def Chooser.build (scope : Scope) (v : Value) : Chooser → StateM Store Term
  | same => match v with
    | .char c => return .leaf (.satisfy (.exactly c))
    | _ => return .leaf (.literal v.flatText)
  | times p => return (← p.build scope).replicate v.toCount
  | always p => p.build scope
  | onValue w p otherwise => if w = v then p.build scope else otherwise.build scope v
  | bindTo x p => p.build (scope.bindValue x v)

end Descent
