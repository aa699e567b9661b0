import Descent.Grammar.Ownership
import Descent.Grammar.Parse

/-!
Registries: rules and parsers under names. A name that is given anew lets go of what it stood for,
and rules that lose their last owner are released at once.
-/

namespace Descent

/-- Names with what they stand for. -/
abbrev Register (α : Type) := List (String × α)

namespace Register

variable {α : Type}

def drop (r : Register α) (name : String) : Register α := r.filter (·.1 ≠ name)

def put (r : Register α) (name : String) (a : α) : Register α := (name, a) :: drop r name

end Register

/-- Rules and parsers by name, over the store that their handles point into. -/
structure Registry where
  store : Store
  rules : Register Handle
  parsers : Register Term

namespace Registry

def empty : Registry := ⟨.empty, [], []⟩

/-- The names that a grammar may refer to. -/
def scope (r : Registry) : Scope := ⟨r.rules, []⟩

def owned (r : Registry) : List RuleId :=
  r.rules.flatMap (fun (_, h) => if h.owning then [h.rule] else []) ++
    r.parsers.flatMap fun (_, t) => t.owned

/-- Releases the rules that nothing owns any more. -/
def settle (r : Registry) : Registry := { r with store := r.store.release r.owned }

def withStore {α : Type} (action : StateM Store α) : StateM Registry α := fun r =>
  let (a, store) := action r.store
  (a, { r with store })

def declare (name : String) : StateM Registry RuleId := do
  let rule ← withStore Store.declare
  modify fun r => settle { r with rules := Register.put r.rules name ⟨rule, true⟩ }
  return rule

/-- Builds a grammar and makes it the definition of a rule. -/
def define (h : Handle) (node : Node) : StateM Registry (Except Defect Unit) := do
  let body ← withStore (node.build (← get).scope)
  let r ← get
  match r.store.define h.rule body with
  | .ok store =>
    set (settle { r with store })
    return .ok ()
  | .error d =>
    set (settle r)
    return .error d

section Define

variable {h : Handle} {node : Node} {r : Registry}

theorem define_of_ok {s : Store} (accepted :
    (node.build r.scope r.store).2.define h.rule (node.build r.scope r.store).1 = .ok s) :
    define h node r = (.ok (), settle { r with store := s }) := by
  change (match (node.build r.scope r.store).2.define h.rule (node.build r.scope r.store).1 with
    | .ok store => (do
      set (settle { r with store })
      return .ok () : StateM Registry (Except Defect Unit))
    | .error d => do
      set (settle { r with store := (node.build r.scope r.store).2 })
      return .error d) { r with store := (node.build r.scope r.store).2 } = _
  rw [accepted]
  rfl

theorem define_of_error {d : Defect} (refused :
    (node.build r.scope r.store).2.define h.rule (node.build r.scope r.store).1 = .error d) :
    define h node r = (.error d, settle { r with store := (node.build r.scope r.store).2 }) := by
  change (match (node.build r.scope r.store).2.define h.rule (node.build r.scope r.store).1 with
    | .ok store => (do
      set (settle { r with store })
      return .ok () : StateM Registry (Except Defect Unit))
    | .error d => do
      set (settle { r with store := (node.build r.scope r.store).2 })
      return .error d) { r with store := (node.build r.scope r.store).2 } = _
  rw [refused]
  rfl

end Define

/-- A rule with a definition that refers to it by its own name, through a handle that does not own
it. That handle is kept under a second name if one is given. -/
def recursive (name : String) (node : Node) (weak : Option String) : StateM Registry RuleId := do
  let rule ← withStore Store.declare
  let body ← withStore (node.build ((← get).scope.bindRule name ⟨rule, false⟩))
  modify fun r =>
    let rules := Register.put r.rules name ⟨rule, true⟩
    settle { r with
      store := r.store.setCell rule body
      rules := match weak with
        | some other => Register.put rules other ⟨rule, false⟩
        | none => rules }
  return rule

def clone (name : String) (h : Handle) : StateM Registry Unit :=
  modify fun r => settle { r with rules := Register.put r.rules name h }

def drop (name : String) : StateM Registry Unit :=
  modify fun r => settle { r with rules := Register.drop r.rules name }

/-- Builds a grammar and keeps it under a name. -/
def parser (name : String) (node : Node) : StateM Registry Unit := do
  let t ← withStore (node.build (← get).scope)
  modify fun r => settle { r with parsers := Register.put r.parsers name t }

/-- The identity of a reference that is made and thrown away. -/
def freshReference : StateM Registry RuleId := withStore Store.fresh

end Registry
end Descent
