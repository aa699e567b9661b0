import Descent.Grammar.Store

/-!
Ownership of rules. A rule stays alive while something that is alive holds an owning handle of it;
definitions that own each other keep each other alive.
Main statement: a rule survives exactly if it is held from outside or by a survivor of the round
before.
-/

namespace Descent

mutual

/-- Rules that an unbuilt grammar owns through the names of its scope. -/
def Node.owned (scope : Scope) : Node → List RuleId
  | .leaf _ => []
  | .unary _ p => p.owned scope
  | .binary _ p q => p.owned scope ++ q.owned scope
  | .between first inner last => first.owned scope ++ inner.owned scope ++ last.owned scope
  | .bind p next => p.owned scope ++ next.owned scope
  | .rule name => match scope.handle? name with
    | some h => if h.owning then [h.rule] else []
    | none => []
  | .recursive name body => body.owned (scope.hideRule name)
  | .reference body => body.owned scope
  | .undefined => []

def Chooser.owned (scope : Scope) : Chooser → List RuleId
  | .same => []
  | .times p => p.owned scope
  | .always p => p.owned scope
  | .onValue _ p otherwise => p.owned scope ++ otherwise.owned scope
  | .bindTo _ p => p.owned scope

end

/-- Rules and references that a built grammar owns. What a reference resolves to belongs to the
reference. -/
def Term.owned : Term → List RuleId
  | leaf _ => []
  | unary _ p => p.owned
  | binary _ p q => p.owned ++ q.owned
  | between first inner last => first.owned ++ inner.owned ++ last.owned
  | bind p next scope => p.owned ++ next.owned scope
  | rule h => if h.owning then [h.rule] else []
  | reference id body scope => id :: body.owned scope

namespace Store

/-- What a rule owns through its definition, or a reference through what it resolved to. -/
def ownedBy (s : Store) (id : RuleId) : List RuleId :=
  ((s.definition? id).map Term.owned).getD [] ++
    ((s.resolved.lookup id).map Term.owned).getD []

/-- Those of `ids` that have an owner outside or among themselves. -/
def survivors (s : Store) (outside ids : List RuleId) : List RuleId :=
  let held := outside ++ ids.flatMap s.ownedBy
  ids.filter (· ∈ held)

/-- Rounds of removal, until one removes nothing. -/
def settle (s : Store) (outside : List RuleId) : Nat → List RuleId → List RuleId
  | 0, ids => ids
  | rounds + 1, ids =>
    let kept := s.survivors outside ids
    if kept.length = ids.length then ids else settle s outside rounds kept

/-- Rules and references that have not been released. -/
def identities (s : Store) : List RuleId := s.cells.map (·.1) ++ s.resolved.map (·.1)

/-- Releases every rule and reference without an owner. -/
def release (s : Store) (outside : List RuleId) : Store :=
  let ids := s.identities
  let alive := s.settle outside ids.length ids
  { s with
    cells := s.cells.filter (·.1 ∈ alive)
    resolved := s.resolved.filter (·.1 ∈ alive) }

theorem mem_survivors {s : Store} {outside ids : List RuleId} {id : RuleId} :
    id ∈ s.survivors outside ids ↔
      id ∈ ids ∧ (id ∈ outside ∨ ∃ owner ∈ ids, id ∈ s.ownedBy owner) := by
  simp [survivors]

end Store
end Descent
