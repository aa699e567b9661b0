import Descent.Grammar.Parse
import Descent.Report

/-!
Whole grammars: named rules that may refer to each other, and a root.
-/

namespace Descent

/-- Rules by name, and the parser to start with. -/
structure Grammar where
  rules : List (String × Node)
  root : Node

namespace Grammar

/-- Declares the rules in order, each name standing for an owning handle. -/
def declareRules (scope : Scope) : List String → StateM Store Scope
  | [] => return scope
  | name :: more => do
    let rule ← Store.declare
    declareRules (scope.bindRule name ⟨rule, true⟩) more

def defineRules (scope : Scope) : List (String × Node) → StateM Store Unit
  | [] => return
  | (name, node) :: more => do
    let body ← node.build scope
    if let some h := scope.handle? name then modify (·.setCell h.rule body)
    defineRules scope more

/-- All rules are declared before the first of them is built, and the root is built last. -/
def build (g : Grammar) : StateM Store Term := do
  let scope ← declareRules .empty (g.rules.map (·.1))
  defineRules scope g.rules
  g.root.build scope

theorem declareRules_cons (scope : Scope) (name : String) (more : List String) (s : Store) :
    declareRules scope (name :: more) s =
      declareRules (scope.bindRule name ⟨⟨s.nextRule⟩, true⟩) more (Store.declare s).2 := rfl

theorem defineRules_cons (scope : Scope) (name : String) (node : Node)
    (more : List (String × Node)) (s : Store) :
    defineRules scope ((name, node) :: more) s = defineRules scope more
      (match scope.handle? name with
        | some h => (node.build scope s).2.setCell h.rule (node.build scope s).1
        | none => (node.build scope s).2) := by
  cases found : scope.handle? name <;> simp only [defineRules, found] <;> rfl

theorem build_apply (g : Grammar) (s : Store) :
    g.build s =
      let declared := declareRules .empty (g.rules.map (·.1)) s
      g.root.build declared.1 (defineRules declared.1 g.rules declared.2).2 := rfl

/-- Parses texts one after the other, each from its beginning. -/
def parseTexts (t : Term) : List String → StateM Store (List (Except Halt (Outcome Value)))
  | [] => return []
  | text :: more => do
    let outcome ← t.parseText text
    return outcome :: (← parseTexts t more)

def outcomes (g : Grammar) (texts : List String) : List (Except Halt (Outcome Value)) :=
  ((do parseTexts (← g.build) texts : StateM Store _).run .empty).1

/-- The values of the texts, or the reports of why they have none. -/
def results (g : Grammar) (texts : List String) : List (Except ParseError Value) :=
  (g.outcomes texts).map Outcome.result

end Grammar
end Descent
