import Descent.Grammar.RuleSet
import Descent.Proofs.Building

/-!
Fragments of the language of grammars, given by the leaves and operations that may occur.
Main statement: whatever is built from a grammar of a fragment belongs to the fragment.
-/

namespace Descent

/-- The leaves and operations that a grammar may be made of. -/
structure Fragment where
  atom : Atom → Prop
  unary : Unary → Prop
  binary : Binary → Prop

/-- The whole language. -/
def Fragment.all : Fragment := ⟨fun _ => True, fun _ => True, fun _ => True⟩

mutual

def Node.Within (F : Fragment) : Node → Prop
  | .leaf a => ∀ vars, F.atom (a vars)
  | .unary op p => (∀ vars, F.unary (op vars)) ∧ p.Within F
  | .binary op p q => F.binary op ∧ p.Within F ∧ q.Within F
  | .between first inner last => first.Within F ∧ inner.Within F ∧ last.Within F
  | .bind p next => p.Within F ∧ next.Within F
  | .rule _ => True
  | .recursive _ body => body.Within F
  | .reference body => body.Within F
  | .undefined => True

/-- A chooser belongs to a fragment if all that it may build does. -/
def Chooser.Within (F : Fragment) : Chooser → Prop
  | .same => (∀ x, F.atom (.satisfy (.exactly x))) ∧ ∀ s, F.atom (.literal s)
  | .times p => F.atom (.value (.list [])) ∧ F.binary .concat ∧ F.unary .once ∧ p.Within F
  | .always p => p.Within F
  | .onValue _ p otherwise => p.Within F ∧ otherwise.Within F
  | .bindTo _ p => p.Within F

end

def Term.Within (F : Fragment) : Term → Prop
  | leaf a => F.atom a
  | unary op p => F.unary op ∧ p.Within F
  | binary op p q => F.binary op ∧ p.Within F ∧ q.Within F
  | between first inner last => first.Within F ∧ inner.Within F ∧ last.Within F
  | bind p next _ => p.Within F ∧ next.Within F
  | rule _ => True
  | reference _ body _ => body.Within F

/-- All rules and resolved references of a store belong to a fragment. -/
structure Store.Within (F : Fragment) (s : Store) : Prop where
  cells : ∀ id q, s.definition? id = some q → q.Within F
  resolved : ∀ id q, s.resolved.lookup id = some q → q.Within F

mutual

theorem Node.within_all : (node : Node) → node.Within .all
  | .leaf _ => fun _ => trivial
  | .unary _ p => ⟨fun _ => trivial, p.within_all⟩
  | .binary _ p q => ⟨trivial, p.within_all, q.within_all⟩
  | .between first inner last => ⟨first.within_all, inner.within_all, last.within_all⟩
  | .bind p next => ⟨p.within_all, next.within_all⟩
  | .rule _ => trivial
  | .recursive _ body => body.within_all
  | .reference body => body.within_all
  | .undefined => trivial

theorem Chooser.within_all : (next : Chooser) → next.Within .all
  | .same => ⟨fun _ => trivial, fun _ => trivial⟩
  | .times p => ⟨trivial, trivial, trivial, p.within_all⟩
  | .always p => p.within_all
  | .onValue _ p otherwise => ⟨p.within_all, otherwise.within_all⟩
  | .bindTo _ p => p.within_all

end

theorem Term.within_all (t : Term) : t.Within .all := by
  induction t with
  | leaf a => trivial
  | unary op p ih => exact ⟨trivial, ih⟩
  | binary op p q ihp ihq => exact ⟨trivial, ihp, ihq⟩
  | between first inner last ih₁ ih₂ ih₃ => exact ⟨ih₁, ih₂, ih₃⟩
  | bind p next scope ih => exact ⟨ih, next.within_all⟩
  | rule h => trivial
  | reference id body scope => exact body.within_all

theorem Store.within_all (s : Store) : s.Within .all :=
  ⟨fun _ q _ => q.within_all, fun _ q _ => q.within_all⟩

variable {F : Fragment}

theorem Term.Within.replicate {t : Term} (h : t.Within F) (empty : F.atom (.value (.list [])))
    (concat : F.binary .concat) (once : F.unary .once) (n : Nat) : (t.replicate n).Within F := by
  induction n with
  | zero => exact empty
  | succ n ih => exact ⟨concat, ih, once, h⟩

theorem Store.empty_within (F : Fragment) : Store.empty.Within F := by
  constructor <;> intro id q found <;> cases found

namespace Store.Within

variable {s : Store}

theorem declare (h : s.Within F) : (Store.declare s).2.Within F :=
  ⟨fun id q found => h.cells id q (definition?_declare_eq_some found), h.resolved⟩

theorem setCell (h : s.Within F) (rule : RuleId) {body : Term} (inside : body.Within F) :
    (s.setCell rule body).Within F := by
  constructor
  · intro id q found
    rcases definition?_setCell_eq_some found with ⟨rfl, rfl⟩ | before
    · exact inside
    · exact h.cells id q before
  · exact h.resolved

theorem keep (h : s.Within F) (id : RuleId) {q : Term} (inside : q.Within F) :
    (s.keep id q).Within F := by
  refine ⟨h.cells, fun other q' found => ?_⟩
  rcases lookup_keep_eq_some found with ⟨rfl, rfl⟩ | before
  · exact inside
  · exact h.resolved other q' before

end Store.Within

theorem Node.build_within (scope : Scope) {s : Store} (h : s.Within F) :
    (node : Node) → node.Within F →
      (node.build scope s).1.Within F ∧ (node.build scope s).2.Within F
  | .leaf a, inside => ⟨inside scope.vars, h⟩
  | .unary op p, inside => by
    obtain ⟨within, store⟩ := p.build_within scope h inside.2
    exact ⟨⟨inside.1 scope.vars, within⟩, store⟩
  | .binary op p q, inside => by
    obtain ⟨withinP, storeP⟩ := p.build_within scope h inside.2.1
    obtain ⟨withinQ, storeQ⟩ := q.build_within scope storeP inside.2.2
    exact ⟨⟨inside.1, withinP, withinQ⟩, storeQ⟩
  | .between first inner last, inside => by
    obtain ⟨within₁, store₁⟩ := first.build_within scope h inside.1
    obtain ⟨within₂, store₂⟩ := inner.build_within scope store₁ inside.2.1
    obtain ⟨within₃, store₃⟩ := last.build_within scope store₂ inside.2.2
    exact ⟨⟨within₁, within₂, within₃⟩, store₃⟩
  | .bind p next, inside => by
    obtain ⟨within, store⟩ := p.build_within scope h inside.1
    exact ⟨⟨within, inside.2⟩, store⟩
  | .rule name, _ => by
    simp only [Node.build]
    cases scope.handle? name with
    | some handle => exact ⟨trivial, h⟩
    | none => exact ⟨trivial, h.declare⟩
  | .recursive name body, inside => by
    obtain ⟨within, store⟩ :=
      body.build_within (scope.bindRule name ⟨⟨s.nextRule⟩, false⟩) h.declare inside
    exact ⟨trivial, store.setCell _ within⟩
  | .reference body, inside => ⟨inside, h.cells, h.resolved⟩
  | .undefined, _ => ⟨trivial, h.declare⟩

theorem Chooser.build_within (scope : Scope) (v : Value) {s : Store} (h : s.Within F) :
    (next : Chooser) → next.Within F →
      (next.build scope v s).1.Within F ∧ (next.build scope v s).2.Within F
  | .same, inside => by
    cases v <;> first | exact ⟨inside.1 _, h⟩ | exact ⟨inside.2 _, h⟩
  | .times p, inside => by
    obtain ⟨within, store⟩ := p.build_within scope h inside.2.2.2
    exact ⟨within.replicate inside.1 inside.2.1 inside.2.2.1 _, store⟩
  | .always p, inside => p.build_within scope h inside
  | .onValue w p otherwise, inside => by
    simp only [Chooser.build]
    by_cases same : w = v
    · simp only [same, if_true]
      exact p.build_within scope h inside.1
    · simp only [same, if_false]
      exact otherwise.build_within scope v h inside.2
  | .bindTo x p, inside => p.build_within (scope.bindValue x v) h inside

/-- What a reference of a fragment is resolved to belongs to the fragment. -/
theorem Store.Within.resolve {s : Store} (h : s.Within F) (id : RuleId) {body : Node}
    (scope : Scope) (inside : body.Within F) :
    ∃ q, (Store.resolve id body scope s).1 = .ok q ∧ q.Within F ∧
      (Store.resolve id body scope s).2.Within F := by
  cases found : s.resolved.lookup id with
  | some q =>
    rw [resolve_of_some found]
    exact ⟨q, rfl, h.resolved id q found, h⟩
  | none =>
    obtain ⟨within, kept⟩ := body.build_within scope h inside
    rw [resolve_of_none found]
    exact ⟨_, rfl, within, kept.keep id within⟩

/-- A grammar belongs to a fragment if its rules and its root do. -/
def Grammar.Within (F : Fragment) (g : Grammar) : Prop :=
  (∀ rule ∈ g.rules, rule.2.Within F) ∧ g.root.Within F

namespace Grammar

theorem declareRules_within (scope : Scope) (names : List String) {s : Store} (h : s.Within F) :
    (declareRules scope names s).2.Within F := by
  induction names generalizing scope s with
  | nil => exact h
  | cons name more ih =>
    rw [declareRules_cons]
    exact ih _ h.declare

theorem defineRules_within (scope : Scope) {rules : List (String × Node)}
    (inside : ∀ rule ∈ rules, rule.2.Within F) {s : Store} (h : s.Within F) :
    (defineRules scope rules s).2.Within F := by
  induction rules generalizing s with
  | nil => exact h
  | cons rule more ih =>
    obtain ⟨name, node⟩ := rule
    obtain ⟨within, store⟩ := node.build_within scope h (inside _ (List.mem_cons_self ..))
    have rest := fun rule mem => inside rule (List.mem_cons_of_mem _ mem)
    rw [defineRules_cons]
    cases scope.handle? name with
    | none => exact ih rest store
    | some handle => exact ih rest (store.setCell _ within)

theorem build_within {g : Grammar} (inside : g.Within F) :
    (g.build .empty).1.Within F ∧ (g.build .empty).2.Within F := by
  have declared := declareRules_within .empty (g.rules.map (·.1)) (Store.empty_within F)
  rw [build_apply]
  exact g.root.build_within _ (defineRules_within _ inside.1 declared) inside.2

end Grammar
end Descent
