import Descent.Report
import Descent.Session.Registry

/-!
Sessions: cursors, failures, outcomes, parsers and rules under names, and what a step of a session
answers.
-/

namespace Descent

structure Session where
  cursors : Register Cursor
  failures : Register Failure
  outcomes : Register (Outcome Value)
  registry : Registry

/-- A name that a step refers to and that stands for nothing. -/
structure UnknownName where
  name : String
deriving DecidableEq

abbrev Action := ExceptT UnknownName (StateM Session)

inductive Reply
  | nothing
  | cursor (c : Cursor)
  | atEnd (e : AtEnd)
  | char (x : Char)
  | next (x : Char) (c : Cursor)
  | text (s : String)
  | location (l : Location)
  /-- A cursor in its short form and in its diagnostic form. -/
  | cursorText (c : Cursor)
  | agreement (equal sameHash : Bool)
  | span (s : Span)
  | flag (b : Bool)
  | failure (f : Failure)
  | mismatch (m : Mismatch)
  | outcome (o : Outcome Value)
  /-- An outcome with its parts and its diagnostic form. -/
  | outcomeText (o : Outcome Value)
  | result (r : Except ParseError Value)
  | halted (h : Halt)
  | rule (id : RuleId)
  /-- An identity with its forms. -/
  | ruleText (id : RuleId)
  | ordering (o : Ordering)
  | defined

namespace Session

def empty : Session := ⟨[], [], [], .empty⟩

def find {α : Type} (register : Session → Register α) (name : String) : Action α := do
  match (register (← get)).lookup name with
  | some a => return a
  | none => throw ⟨name⟩

def cursor : String → Action Cursor := find Session.cursors

def failure : String → Action Failure := find Session.failures

def outcome : String → Action (Outcome Value) := find Session.outcomes

def handle : String → Action Handle := find (·.registry.rules)

def parser : String → Action Term := find (·.registry.parsers)

def setCursor (name : String) (c : Cursor) : Action Reply := do
  modify fun s => { s with cursors := Register.put s.cursors name c }
  return .cursor c

def setFailure (name : String) (f : Failure) : Action Reply := do
  modify fun s => { s with failures := Register.put s.failures name f }
  return .failure f

def setOutcome (name : String) (o : Outcome Value) : Action Reply := do
  modify fun s => { s with outcomes := Register.put s.outcomes name o }
  return .outcome o

/-- Keeps an outcome under a name; a halt is only answered. -/
def settleOutcome (name : String) : Except Halt (Outcome Value) → Action Reply
  | .ok o => setOutcome name o
  | .error h => return .halted h

def withRegistry {α : Type} (action : StateM Registry α) : Action α := fun s =>
  let (a, registry) := action s.registry
  (.ok a, { s with registry })

/-- Builds a grammar and hands the parser to an action; after it the parser is let go. -/
def withParser {α : Type} (node : Node) (action : Term → Action α) : Action α := do
  let t ← withRegistry do Registry.withStore (node.build (← get).scope)
  let a ← action t
  withRegistry (modify Registry.settle)
  return a

def parseFrom (t : Term) (c : Cursor) : Action (Except Halt (Outcome Value)) :=
  withRegistry (Registry.withStore (t.parseFrom c))

end Session
end Descent
