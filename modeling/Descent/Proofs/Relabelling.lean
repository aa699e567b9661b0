import Descent.Grammar.Description
import Descent.Proofs.Comparison
import Descent.Proofs.Evaluation
import Descent.Proofs.Fuel
import Mathlib.Data.List.Forall2

/-!
Grammars that differ in their labels, descriptions and messages.
Main statement: such grammars come to the same values, remainders, places of failure and halts.
-/

namespace Descent

/-- The outcome without what it says: all failures at one place are the same. -/
def Outcome.wordless {α : Type} : Outcome α → Outcome α
  | success v r => success v r
  | failure e => failure (.plain e.failedAt (.custom ""))

/-- The same leaf, but for the description of a class of characters and for the failures that a
closure words. -/
inductive Atom.Relabelled : Atom → Atom → Prop
  | same (a : Atom) : Relabelled a a
  | satisfy {k k' : CharClass} (test : k'.test = k.test) : Relabelled (.satisfy k) (.satisfy k')
  | custom {f f' : Closure} (alike : ∀ c, (f' c).wordless = (f c).wordless) :
    Relabelled (.custom f) (.custom f')

/-- The same operation, but for the label. -/
inductive Unary.Relabelled : Unary → Unary → Prop
  | same (op : Unary) : Relabelled op op
  | named (label label' : String) : Relabelled (.named label) (.named label')

mutual

/-- The same grammar, but for labels, also those that only one of the two has. -/
inductive Node.Relabelled : Node → Node → Prop
  | leaf {a a' : Variables → Atom} (same : ∀ vars, (a vars).Relabelled (a' vars)) :
    Node.Relabelled (.leaf a) (.leaf a')
  | unary {op op' : Variables → Unary} {p p' : Node}
    (same : ∀ vars, (op vars).Relabelled (op' vars)) (part : p.Relabelled p') :
    Node.Relabelled (.unary op p) (.unary op' p')
  | binary (op : Binary) {p p' q q' : Node} (left : p.Relabelled p') (right : q.Relabelled q') :
    Node.Relabelled (.binary op p q) (.binary op p' q')
  | between {p p' q q' r r' : Node} (first : p.Relabelled p') (inner : q.Relabelled q')
    (last : r.Relabelled r') : Node.Relabelled (.between p q r) (.between p' q' r')
  | bind {p p' : Node} {next next' : Chooser} (part : p.Relabelled p')
    (choice : next.Relabelled next') : Node.Relabelled (.bind p next) (.bind p' next')
  | rule (name : String) : Node.Relabelled (.rule name) (.rule name)
  | recursive (name : String) {p p' : Node} (body : p.Relabelled p') :
    Node.Relabelled (.recursive name p) (.recursive name p')
  | reference {p p' : Node} (body : p.Relabelled p') :
    Node.Relabelled (.reference p) (.reference p')
  | undefined : Node.Relabelled .undefined .undefined
  | adds {op : Variables → Unary} (label : ∀ vars, ∃ label, op vars = .named label) {p p' : Node}
    (part : p.Relabelled p') : Node.Relabelled p (.unary op p')
  | drops {op : Variables → Unary} (label : ∀ vars, ∃ label, op vars = .named label) {p p' : Node}
    (part : p.Relabelled p') : Node.Relabelled (.unary op p) p'

inductive Chooser.Relabelled : Chooser → Chooser → Prop
  | same : Chooser.Relabelled .same .same
  | times {p p' : Node} (part : p.Relabelled p') : Chooser.Relabelled (.times p) (.times p')
  | always {p p' : Node} (part : p.Relabelled p') : Chooser.Relabelled (.always p) (.always p')
  | onValue (v : Value) {p p' : Node} {next next' : Chooser} (part : p.Relabelled p')
    (otherwise : next.Relabelled next') :
    Chooser.Relabelled (.onValue v p next) (.onValue v p' next')
  | bindTo (x : String) {p p' : Node} (part : p.Relabelled p') :
    Chooser.Relabelled (.bindTo x p) (.bindTo x p')

end

/-- Built grammars that are the same but for labels. -/
inductive Term.Relabelled : Term → Term → Prop
  | leaf {a a' : Atom} (same : a.Relabelled a') : Relabelled (.leaf a) (.leaf a')
  | unary {op op' : Unary} {p p' : Term} (same : op.Relabelled op') (part : Relabelled p p') :
    Relabelled (.unary op p) (.unary op' p')
  | binary (op : Binary) {p p' q q' : Term} (left : Relabelled p p') (right : Relabelled q q') :
    Relabelled (.binary op p q) (.binary op p' q')
  | between {p p' q q' r r' : Term} (first : Relabelled p p') (inner : Relabelled q q')
    (last : Relabelled r r') : Relabelled (.between p q r) (.between p' q' r')
  | bind {p p' : Term} {next next' : Chooser} (scope : Scope) (part : Relabelled p p')
    (choice : next.Relabelled next') : Relabelled (.bind p next scope) (.bind p' next' scope)
  | rule (h : Handle) : Relabelled (.rule h) (.rule h)
  | reference (id : RuleId) (scope : Scope) {p p' : Node} (body : p.Relabelled p') :
    Relabelled (.reference id p scope) (.reference id p' scope)
  | adds (label : String) {p p' : Term} (part : Relabelled p p') :
    Relabelled p (.unary (.named label) p')
  | drops (label : String) {p p' : Term} (part : Relabelled p p') :
    Relabelled (.unary (.named label) p) p'

/-- Stores with the same rules and references, whose definitions are the same but for labels. -/
structure Store.Relabelled (s s' : Store) : Prop where
  nextRule : s'.nextRule = s.nextRule
  active : s'.active = s.active
  cells : ∀ id, Option.Rel (Option.Rel Term.Relabelled) (s.cells.lookup id) (s'.cells.lookup id)
  resolved : ∀ id, Option.Rel Term.Relabelled (s.resolved.lookup id) (s'.resolved.lookup id)

section Symmetry

theorem Atom.Relabelled.symm {a a' : Atom} (h : a.Relabelled a') : a'.Relabelled a := by
  cases h with
  | same a => exact .same a
  | satisfy test => exact .satisfy test.symm
  | custom alike => exact .custom fun c => (alike c).symm

theorem Unary.Relabelled.symm {op op' : Unary} (h : op.Relabelled op') : op'.Relabelled op := by
  cases h with
  | same op => exact .same op
  | named label label' => exact .named label' label

mutual

theorem Node.Relabelled.symm : {p p' : Node} → p.Relabelled p' → p'.Relabelled p
  | _, _, .leaf same => .leaf fun vars => (same vars).symm
  | _, _, .unary same part => .unary (fun vars => (same vars).symm) part.symm
  | _, _, .binary op left right => .binary op left.symm right.symm
  | _, _, .between first inner last => .between first.symm inner.symm last.symm
  | _, _, .bind part choice => .bind part.symm choice.symm
  | _, _, .rule name => .rule name
  | _, _, .recursive name body => .recursive name body.symm
  | _, _, .reference body => .reference body.symm
  | _, _, .undefined => .undefined
  | _, _, .adds label part => .drops label part.symm
  | _, _, .drops label part => .adds label part.symm

theorem Chooser.Relabelled.symm : {p p' : Chooser} → p.Relabelled p' → p'.Relabelled p
  | _, _, .same => .same
  | _, _, .times part => .times part.symm
  | _, _, .always part => .always part.symm
  | _, _, .onValue v part otherwise => .onValue v part.symm otherwise.symm
  | _, _, .bindTo x part => .bindTo x part.symm

end

theorem Term.Relabelled.symm {t t' : Term} (h : t.Relabelled t') : t'.Relabelled t := by
  induction h with
  | leaf same => exact .leaf same.symm
  | unary same part ih => exact .unary same.symm ih
  | binary op left right ihl ihr => exact .binary op ihl ihr
  | between first inner last ih₁ ih₂ ih₃ => exact .between ih₁ ih₂ ih₃
  | bind scope part choice ih => exact .bind scope ih choice.symm
  | rule h => exact .rule h
  | reference id scope body => exact .reference id scope body.symm
  | adds label part ih => exact .drops label ih
  | drops label part ih => exact .adds label ih

theorem relOption_swap {α β : Type} {R : α → β → Prop} {S : β → α → Prop}
    (swap : ∀ a b, R a b → S b a) {o : Option α} {o' : Option β} (h : Option.Rel R o o') :
    Option.Rel S o' o := by
  cases h with
  | none => exact .none
  | some related => exact .some (swap _ _ related)

theorem Store.Relabelled.symm {s s' : Store} (h : s.Relabelled s') : s'.Relabelled s where
  nextRule := h.nextRule.symm
  active := h.active.symm
  cells id :=
    relOption_swap (fun _ _ => relOption_swap fun _ _ => Term.Relabelled.symm) (h.cells id)
  resolved id := relOption_swap (fun _ _ => Term.Relabelled.symm) (h.resolved id)

end Symmetry

section Building

theorem Term.Relabelled.replicate {t t' : Term} (h : t.Relabelled t') (n : Nat) :
    (t.replicate n).Relabelled (t'.replicate n) := by
  induction n with
  | zero => exact .leaf (.same _)
  | succ n ih => exact .binary .concat ih (.unary (.same .once) h)

theorem Term.Relabelled.adds_label {op : Unary} (label : ∃ label, op = .named label) {t t' : Term}
    (h : t.Relabelled t') : t.Relabelled (.unary op t') := by
  obtain ⟨text, rfl⟩ := label
  exact .adds text h

theorem Term.Relabelled.drops_label {op : Unary} (label : ∃ label, op = .named label) {t t' : Term}
    (h : t.Relabelled t') : Term.Relabelled (.unary op t) t' := by
  obtain ⟨text, rfl⟩ := label
  exact .drops text h

namespace Store.Relabelled

variable {s s' : Store}

theorem fresh (h : s.Relabelled s') : (Store.fresh s).2.Relabelled (Store.fresh s').2 :=
  ⟨congrArg (· + 1) h.nextRule, h.active, h.cells, h.resolved⟩

theorem declare (h : s.Relabelled s') : (Store.declare s).2.Relabelled (Store.declare s').2 := by
  refine ⟨congrArg (· + 1) h.nextRule, h.active, fun id => ?_, h.resolved⟩
  change Option.Rel _ (List.lookup id ((⟨s.nextRule⟩, none) :: s.cells))
    (List.lookup id ((⟨s'.nextRule⟩, none) :: s'.cells))
  rw [h.nextRule, List.lookup_cons, List.lookup_cons]
  cases id == (⟨s.nextRule⟩ : RuleId) with
  | true => exact .some .none
  | false => exact h.cells id

theorem setCell (h : s.Relabelled s') (rule : RuleId) {body body' : Term}
    (alike : body.Relabelled body') : (s.setCell rule body).Relabelled (s'.setCell rule body') := by
  refine ⟨h.nextRule, h.active, fun id => ?_, h.resolved⟩
  have before := h.cells id
  rw [lookup_setCell, lookup_setCell]
  generalize s.cells.lookup id = cell, s'.cells.lookup id = cell' at before
  cases before with
  | none => exact .none
  | some before =>
    refine .some ?_
    dsimp only
    by_cases same : id = rule
    · rw [if_pos same, if_pos same]
      exact .some alike
    · rw [if_neg same, if_neg same]
      exact before

theorem keep (h : s.Relabelled s') (id : RuleId) {t t' : Term} (alike : t.Relabelled t') :
    (s.keep id t).Relabelled (s'.keep id t') := by
  refine ⟨h.nextRule, h.active, h.cells, fun other => ?_⟩
  by_cases same : other = id
  · rw [same, lookup_keep_self, lookup_keep_self]
    exact .some alike
  · rw [lookup_keep_of_ne _ _ same, lookup_keep_of_ne _ _ same]
    exact h.resolved other

theorem definition? (h : s.Relabelled s') (id : RuleId) :
    Option.Rel Term.Relabelled (s.definition? id) (s'.definition? id) := by
  have cell := h.cells id
  rw [Store.definition?, Store.definition?]
  generalize s.cells.lookup id = content, s'.cells.lookup id = content' at cell
  cases cell with
  | none => exact .none
  | some defined => exact defined

end Store.Relabelled

/-- What is built by one of two grammars is the same but for labels as what is built by the other,
and so is what it is built in. -/
def Built.Relabelled (x x' : Term × Store) : Prop := x.1.Relabelled x'.1 ∧ x.2.Relabelled x'.2

theorem Store.Relabelled.undefined {s s' : Store} (h : s.Relabelled s') :
    Built.Relabelled (.rule ⟨⟨s.nextRule⟩, true⟩, (Store.declare s).2)
      (.rule ⟨⟨s'.nextRule⟩, true⟩, (Store.declare s').2) := by
  rw [h.nextRule]
  exact ⟨.rule _, h.declare⟩

theorem Store.Relabelled.reference {s s' : Store} (h : s.Relabelled s') (scope : Scope)
    {p p' : Node} (body : p.Relabelled p') :
    Built.Relabelled (.reference ⟨s.nextRule⟩ p scope, (Store.fresh s).2)
      (.reference ⟨s'.nextRule⟩ p' scope, (Store.fresh s').2) := by
  rw [h.nextRule]
  exact ⟨.reference _ scope body, h.fresh⟩

theorem Node.build_recursive (scope : Scope) (name : String) (body : Node) (s : Store) :
    (Node.recursive name body).build scope s =
      let r := body.build (scope.bindRule name ⟨⟨s.nextRule⟩, false⟩) (Store.declare s).2
      (.rule ⟨⟨s.nextRule⟩, true⟩, r.2.setCell ⟨s.nextRule⟩ r.1) := rfl

mutual

theorem Node.Relabelled.build (scope : Scope) {s s' : Store} (h : s.Relabelled s') :
    {p p' : Node} → p.Relabelled p' → Built.Relabelled (p.build scope s) (p'.build scope s')
  | _, _, .leaf same => ⟨.leaf (same scope.vars), h⟩
  | _, _, .unary same part => by
    obtain ⟨alike, store⟩ := part.build scope h
    exact ⟨.unary (same scope.vars) alike, store⟩
  | _, _, .binary op left right => by
    obtain ⟨alike₁, store₁⟩ := left.build scope h
    obtain ⟨alike₂, store₂⟩ := right.build scope store₁
    exact ⟨.binary op alike₁ alike₂, store₂⟩
  | _, _, .between first inner last => by
    obtain ⟨alike₁, store₁⟩ := first.build scope h
    obtain ⟨alike₂, store₂⟩ := inner.build scope store₁
    obtain ⟨alike₃, store₃⟩ := last.build scope store₂
    exact ⟨.between alike₁ alike₂ alike₃, store₃⟩
  | _, _, .bind part choice => by
    obtain ⟨alike, store⟩ := part.build scope h
    exact ⟨.bind scope alike choice, store⟩
  | _, _, .rule name => by
    simp only [Node.build]
    cases scope.handle? name with
    | some handle => exact ⟨.rule handle, h⟩
    | none => exact h.undefined
  | _, _, .recursive name body => by
    obtain ⟨alike, store⟩ := body.build (scope.bindRule name ⟨⟨s.nextRule⟩, false⟩) h.declare
    rw [Node.build_recursive, Node.build_recursive, h.nextRule]
    exact ⟨.rule _, store.setCell _ alike⟩
  | _, _, .reference body => h.reference scope body
  | _, _, .undefined => h.undefined
  | _, _, .adds label part => by
    obtain ⟨alike, store⟩ := part.build scope h
    exact ⟨.adds_label (label scope.vars) alike, store⟩
  | _, _, .drops label part => by
    obtain ⟨alike, store⟩ := part.build scope h
    exact ⟨.drops_label (label scope.vars) alike, store⟩

theorem Chooser.Relabelled.build (scope : Scope) (v : Value) {s s' : Store}
    (h : s.Relabelled s') : {next next' : Chooser} → next.Relabelled next' →
      Built.Relabelled (next.build scope v s) (next'.build scope v s')
  | _, _, .same => by
    cases v <;> exact ⟨.leaf (.same _), h⟩
  | _, _, .times part => by
    obtain ⟨alike, store⟩ := part.build scope h
    exact ⟨alike.replicate _, store⟩
  | _, _, .always part => part.build scope h
  | _, _, .onValue w part otherwise => by
    simp only [Chooser.build]
    by_cases same : w = v
    · simp only [same, if_true]
      exact part.build scope h
    · simp only [same, if_false]
      exact otherwise.build scope v h
  | _, _, .bindTo x part => part.build (scope.bindValue x v) h

end

/-- Whole grammars that are the same but for labels. -/
structure Grammar.Relabelled (g g' : Grammar) : Prop where
  rules : List.Forall₂ (fun rule rule' => rule'.1 = rule.1 ∧ rule.2.Relabelled rule'.2)
    g.rules g'.rules
  root : g.root.Relabelled g'.root

namespace Grammar

theorem declareRules_relabelled (scope : Scope) (names : List String) {s s' : Store}
    (h : s.Relabelled s') : (declareRules scope names s').1 = (declareRules scope names s).1 ∧
      (declareRules scope names s).2.Relabelled (declareRules scope names s').2 := by
  induction names generalizing scope s s' with
  | nil => exact ⟨rfl, h⟩
  | cons name more ih =>
    rw [declareRules_cons, declareRules_cons, h.nextRule]
    exact ih _ h.declare

theorem defineRules_relabelled (scope : Scope) {rules rules' : List (String × Node)}
    (alike : List.Forall₂ (fun rule rule' => rule'.1 = rule.1 ∧ rule.2.Relabelled rule'.2)
      rules rules') {s s' : Store} (h : s.Relabelled s') :
    (defineRules scope rules s).2.Relabelled (defineRules scope rules' s').2 := by
  induction alike generalizing s s' with
  | nil => exact h
  | @cons rule rule' _ _ same _ ih =>
    obtain ⟨name, node⟩ := rule
    obtain ⟨name', node'⟩ := rule'
    obtain ⟨rfl, relabelled⟩ := same
    obtain ⟨body, store⟩ := relabelled.build scope h
    rw [defineRules_cons, defineRules_cons]
    cases scope.handle? name' with
    | none => exact ih store
    | some handle => exact ih (store.setCell _ body)

theorem Relabelled.build {g g' : Grammar} (h : g.Relabelled g') :
    Built.Relabelled (g.build .empty) (g'.build .empty) := by
  have empty : Store.empty.Relabelled .empty := ⟨rfl, rfl, fun _ => .none, fun _ => .none⟩
  have names : g'.rules.map (·.1) = g.rules.map (·.1) := by
    have alike := h.rules
    generalize g.rules = rules, g'.rules = rules' at alike
    induction alike with
    | nil => rfl
    | cons same _ ih => exact congrArg₂ List.cons same.1 ih
  obtain ⟨scope, declared⟩ := declareRules_relabelled .empty (g.rules.map (·.1)) empty
  rw [build_apply, build_apply, names]
  dsimp only
  rw [scope]
  exact h.root.build _ (defineRules_relabelled _ h.rules declared)

end Grammar
end Building

/-- What two runs come to: what is good of both, or the same halt. -/
inductive relabelling.Results {α : Type} (good : α → α → Prop) :
    Except Halt α → Except Halt α → Prop
  | ok {a b : α} (alike : good a b) : Results good (.ok a) (.ok b)
  | halt (e : Halt) : Results good (.error e) (.error e)

/-- A run that ends is met by the other grammar, whatever fuel it has from some amount on. Failures
may stand for each other if they are at the same place. -/
def relabelling : Comparison Store Store where
  failures e e' := e'.failedAt = e.failedAt
  holds x Y good := ∀ s s', s.Relabelled s' → (x s).1 ≠ .error .outOfFuel →
    ∃ N y, (∀ n, N ≤ n → Y n s' = y) ∧ relabelling.Results good (x s).1 y.1 ∧
      (x s).2.Relabelled y.2
  pure h s s' store _ := ⟨0, _, fun _ _ => rfl, .ok h, store⟩
  bind {α β x Y f G mid good} hx hf s s' store ended := by
    obtain ⟨N, ⟨b, t'⟩, later, results, store'⟩ := hx s s' store (Step.ended_of_bind ended)
    rcases run : x s with ⟨a, t⟩
    rw [run] at results store'
    cases results with
    | halt e =>
      rw [Step.bind_of_error run]
      exact ⟨N, _, fun n le => Step.bind_of_error (later n le) (G n), .halt e, store'⟩
    | ok alike =>
      rw [Step.bind_of_ok run] at ended ⊢
      obtain ⟨M, y, later', rest⟩ := hf _ _ alike t t' store' ended
      refine ⟨max N M, y, fun n le => ?_, rest⟩
      have first := later n (Nat.le_trans (Nat.le_max_left ..) le)
      exact (Step.bind_of_ok first (G n)).trans (later' n (Nat.le_trans (Nat.le_max_right ..) le))
  spent _ _ _ _ _ ended := absurd rfl ended
  eventually {α x Y Z good} N i h same s s' store ended := by
    obtain ⟨M, y, later, rest⟩ := h s s' store ended
    refine ⟨max N M + i, y, fun n le => ?_, rest⟩
    obtain ⟨k, rfl⟩ : ∃ k, n = k + i := ⟨n - i, by omega⟩
    rw [same k (by omega)]
    exact later k (by omega)
  place h := h
  expecting _ _ h := h
  merge h _ := h
  missed _ _ := rfl
  leftOver _ := rfl
  unexpected _ _ := rfl
  excluded _ _ := rfl

namespace relabelling

variable {p : Parser Store Value} {P : Nat → Parser Store Value}

theorem relocates : relabelling.Relocates where
  relocate _ _ _ _ := rfl
  rejected _ _ := rfl

/-- Outcomes without their words are the same exactly if the outcomes may stand for each other. -/
theorem outcomes_iff {α : Type} {o o' : Outcome α} :
    relabelling.Outcomes o o' ↔ o'.wordless = o.wordless := by
  constructor
  · rintro (⟨v, r⟩ | ⟨place⟩)
    · rfl
    · exact congrArg (fun d => Outcome.failure (.plain d (.custom ""))) place
  · intro same
    cases o with
    | success v r =>
      cases o' with
      | success v' r' => cases same; exact .success v r
      | failure e' => cases same
    | failure e =>
      cases o' with
      | success v' r' => cases same
      | failure e' => exact .failure (congrArg Outcome.cursor same)

theorem satisfy {k k' : CharClass} (test : k'.test = k.test) :
    relabelling.Parsers (Parser.satisfy k) fun _ => Parser.satisfy k' :=
  Comparison.satisfy test fun _ => rfl

theorem custom {f f' : Closure} (alike : ∀ c, (f' c).wordless = (f c).wordless) :
    relabelling.Parsers (Parser.ofFunction f) fun _ => Parser.ofFunction f' :=
  fun c => relabelling.pure (outcomes_iff.mpr (alike c))

/-- A label that only the first grammar has. -/
theorem named_left (label : String) (hp : relabelling.Parsers p P) :
    relabelling.Parsers (p.named label) P := by
  intro c
  have same : (fun n => P n c) = fun n => P n c >>= Pure.pure := by
    simp only [bind_pure]
  rw [same]
  refine Comparison.of_outcome (hp c) (fun v d => Comparison.succeeds v d) fun e e' alike => ?_
  dsimp only
  by_cases here : e.position = c.position
  · rw [if_pos here]
    exact Comparison.fails alike
  · rw [if_neg here]
    exact Comparison.fails alike

/-- A label that only the second grammar has. -/
theorem named_right (label : String) (hp : relabelling.Parsers p P) :
    relabelling.Parsers p fun n => (P n).named label := by
  intro c
  rw [← bind_pure (p c)]
  refine Comparison.of_outcome (hp c) (fun v d => Comparison.succeeds v d) fun e e' alike => ?_
  dsimp only
  by_cases here : e'.position = c.position
  · simp only [here, if_true]
    exact Comparison.fails alike
  · simp only [here, if_false]
    exact Comparison.fails alike

theorem atom {a a' : Atom} (same : a.Relabelled a') :
    relabelling.Parsers a.run fun _ => a'.run := by
  cases same with
  | satisfy test => exact Comparison.map Value.char (satisfy test)
  | custom alike => exact custom alike
  | same a =>
    cases a with
    | custom f => exact custom fun _ => rfl
    | _ => exact Comparison.atom _ nofun

theorem unary {op op' : Unary} (same : op.Relabelled op') (hp : relabelling.Parsers p P) (n : Nat) :
    relabelling.Parsers (op.run n p) fun k => op'.run k (P k) := by
  cases same with
  | same op => exact Comparison.unary hp n op (.inr relocates)
  | named label label' => exact Comparison.named label label' hp

/-- Runs that do not depend on fuel and always end. -/
theorem of_apply {α : Type} {x y : Step Store α} {good : α → α → Prop}
    (h : ∀ s s', s.Relabelled s' →
      Results good (x s).1 (y s').1 ∧ (x s).2.Relabelled (y s').2) :
    relabelling.holds x (fun _ => y) good :=
  fun s s' store _ => ⟨0, y s', fun _ _ => rfl, h s s' store⟩

theorem build (scope : Scope) (v : Value) {next next' : Chooser} (alike : next.Relabelled next') :
    relabelling.holds (next.build scope v : Step Store Term)
      (fun _ => (next'.build scope v : Step Store Term)) Term.Relabelled := by
  refine of_apply fun s s' store => ?_
  obtain ⟨term, store'⟩ := alike.build scope v store
  exact ⟨.ok term, store'⟩

theorem definition (rule : RuleId) : relabelling.holds (Store.definition rule)
    (fun _ => Store.definition rule) Term.Relabelled := by
  refine of_apply fun s s' store => ?_
  have defined := store.definition? rule
  rw [Store.definition_apply, Store.definition_apply]
  generalize s.definition? rule = q, s'.definition? rule = q' at defined
  cases defined with
  | some same => exact ⟨.ok same, store⟩
  | none => exact ⟨.halt _, store⟩

theorem resolve (id : RuleId) (scope : Scope) {body body' : Node} (alike : body.Relabelled body') :
    relabelling.holds (Store.resolve id body scope) (fun _ => Store.resolve id body' scope)
      Term.Relabelled := by
  refine of_apply fun s s' store => ?_
  have known := store.resolved id
  rw [Store.resolve_apply, Store.resolve_apply]
  generalize s.resolved.lookup id = q, s'.resolved.lookup id = q' at known
  cases known with
  | some same => exact ⟨.ok same, store⟩
  | none =>
    obtain ⟨term, store'⟩ := alike.build scope store
    exact ⟨.ok term, store'.keep id term⟩

theorem guarded (rule : RuleId) (hp : relabelling.Parsers p P) :
    relabelling.Parsers (Descent.guarded rule p) fun n => Descent.guarded rule (P n) := by
  intro c s s' store ended
  by_cases entered : Store.entry rule c ∈ s.active
  · have entered' : Store.entry rule c ∈ s'.active := by rwa [store.active]
    rw [guarded_of_mem entered]
    exact ⟨0, _, fun _ _ => guarded_of_mem entered', .halt _, store⟩
  · have entered' : Store.entry rule c ∉ s'.active := by rwa [store.active]
    rw [guarded_of_notMem entered] at ended ⊢
    have inside : (s.enter (Store.entry rule c)).Relabelled (s'.enter (Store.entry rule c)) :=
      ⟨store.nextRule, congrArg (Store.entry rule c :: ·) store.active, store.cells, store.resolved⟩
    obtain ⟨N, y, later, results, kept⟩ := hp c _ _ inside ended
    refine ⟨N, (y.1, y.2.leave (Store.entry rule c)), fun n le => ?_, results, ?_⟩
    · dsimp only
      rw [guarded_of_notMem entered', ← later n le]
    · exact ⟨kept.nextRule, congrArg (List.erase · (Store.entry rule c)) kept.active, kept.cells,
        kept.resolved⟩

end relabelling

/-- Whenever a parse ends, the parse of a grammar that is the same but for labels ends as well, and
they come to the same but for what failures say. -/
theorem Term.parse_relabelling (n : Nat) {t t' : Term} (h : t.Relabelled t') :
    relabelling.Parsers (t.parse n) fun k => t'.parse k := by
  induction n generalizing t t' with
  | zero => exact fun c => relabelling.spent _ _
  | succ n ih =>
    -- a label that only the second grammar has takes none of the fuel of the first
    induction h with
    | adds label part inner =>
      have labelled := relabelling.named_right label inner
      exact fun c => relabelling.eventually 0 1 (labelled c) fun _ _ => rfl
    | drops label part => exact relabelling.named_left label (ih part)
    | leaf same =>
      exact fun c => relabelling.eventually 0 1 (relabelling.atom same c) fun _ _ => rfl
    | unary same part =>
      have whole := relabelling.unary same (ih part) n
      exact fun c => relabelling.eventually 0 1 (whole c) fun _ _ => rfl
    | binary op left right =>
      have whole := Comparison.binary (ih left) (ih right) n op (.inr relabelling.relocates)
      exact fun c => relabelling.eventually 0 1 (whole c) fun _ _ => rfl
    | between first inner last =>
      have whole := Comparison.between (ih first) (ih inner) (ih last)
      exact fun c => relabelling.eventually 0 1 (whole c) fun _ _ => rfl
    | bind scope part choice =>
      have whole := Comparison.andThen (ih part) fun v c => relabelling.bind
        (relabelling.build scope v choice) fun q q' alike => ih alike c
      exact fun c => relabelling.eventually 0 1 (whole c) fun _ _ => rfl
    | rule h =>
      intro c
      have whole := relabelling.bind (relabelling.definition h.rule) fun q q' alike =>
        relabelling.guarded h.rule (ih alike) c
      exact relabelling.eventually 0 1 whole fun _ _ => rfl
    | reference id scope body =>
      intro c
      have whole := relabelling.bind (relabelling.resolve id scope body) fun q q' alike =>
        relabelling.guarded id (ih alike) c
      exact relabelling.eventually 0 1 whole fun _ _ => rfl

theorem Term.ends_of_relabelled {t t' : Term} {s s' : Store} (h : t.Relabelled t')
    (store : s.Relabelled s') {c : Cursor} {n : Nat}
    (ended : (t.parse n c s).1 ≠ .error .outOfFuel) :
    ∃ k, (t'.parse k c s').1 ≠ .error .outOfFuel := by
  obtain ⟨N, y, later, results, -⟩ := Term.parse_relabelling n h c s s' store ended
  have run : t'.parse N c s' = y := later N (Nat.le_refl N)
  refine ⟨N, fun spent => ended ?_⟩
  rw [run] at spent
  rw [spent] at results
  generalize (t.parse n c s).1 = x at results
  cases results
  rfl

/-- Labels, descriptions of characters and messages have no part in what is parsed. Of two grammars
that differ in nothing else, and of which each may have labels that the other has not, one comes to
an end exactly if the other does. Both then come to the same value and remainder, to failures at the
same place or to the same halt, and leave stores that again differ in nothing else. -/
theorem labels_inert :
    (∀ (t t' : Term) (s s' : Store), t.Relabelled t' → s.Relabelled s' → ∀ c : Cursor,
      ((∃ n, (t.parse n c s).1 ≠ .error .outOfFuel) ↔
        ∃ k, (t'.parse k c s').1 ≠ .error .outOfFuel) ∧
      ∀ n k, (t.parse n c s).1 ≠ .error .outOfFuel → (t'.parse k c s').1 ≠ .error .outOfFuel →
        (t'.parse k c s').1.map Outcome.wordless = (t.parse n c s).1.map Outcome.wordless ∧
        (t.parse n c s).2.Relabelled (t'.parse k c s').2) ∧
    ∀ g g' : Grammar, g.Relabelled g' → (g.build .empty).1.Relabelled (g'.build .empty).1 ∧
      (g.build .empty).2.Relabelled (g'.build .empty).2 := by
  refine ⟨fun t t' s s' h store c => ⟨⟨?_, ?_⟩, fun n k ended ended' => ?_⟩, fun g g' h => h.build⟩
  · rintro ⟨n, ended⟩
    exact Term.ends_of_relabelled h store ended
  · rintro ⟨k, ended⟩
    exact Term.ends_of_relabelled h.symm store.symm ended
  · obtain ⟨N, y, later, results, kept⟩ := Term.parse_relabelling n h c s s' store ended
    have more : t'.parse (max k N) c s' = t'.parse k c s' :=
      Term.evaluate_mono Machine.guarding_steady (Nat.le_max_left k N) t' c s' ended'
    rw [more.symm.trans (later _ (Nat.le_max_right k N))]
    refine ⟨?_, kept⟩
    revert results
    generalize (t.parse n c s).1 = x, y.1 = y
    rintro (⟨alike⟩ | e)
    · exact congrArg Except.ok (relabelling.outcomes_iff.mp alike)
    · rfl

/-- Two grammars of a letter, one with labels and with another description and message, fail at the
same place. -/
theorem labels_of_letter_inert :
    let alternative (message : String) :=
      Node.binary .xor (.custom (Custom.failAhead 0 message [message])) (.rule "letter")
    let g : Grammar := ⟨[("letter", .char 'a')], alternative "odd"⟩
    let g' : Grammar :=
      ⟨[("letter", .apply (.named "vowel") (.satisfy ⟨(CharClass.exactly 'a').test, "a vowel"⟩))],
        .apply (.named "text") (alternative "strange")⟩
    let run (g : Grammar) := ((g.build .empty).1.parse 9 (.start ['b']) (g.build .empty).2).1
    g.Relabelled g' ∧ ∃ e e', run g = .ok (.failure e) ∧ run g' = .ok (.failure e') ∧
      (run g').map Outcome.wordless = (run g).map Outcome.wordless := by
  intro alternative g g' run
  have alike : g.Relabelled g' := by
    constructor
    · refine .cons ⟨rfl, .adds (fun _ => ⟨_, rfl⟩) (.leaf fun _ => .satisfy rfl)⟩ .nil
    · exact .adds (fun _ => ⟨_, rfl⟩)
        (.binary .xor (.leaf fun _ => .custom fun _ => rfl) (.rule "letter"))
  obtain ⟨e, failed⟩ : ∃ e, run g = .ok (.failure e) := ⟨_, rfl⟩
  obtain ⟨e', failed'⟩ : ∃ e', run g' = .ok (.failure e') := ⟨_, rfl⟩
  obtain ⟨term, store⟩ := labels_inert.2 g g' alike
  have same := (labels_inert.1 _ _ _ _ term store (.start ['b'])).2 9 9
    (fun spent => nomatch failed.symm.trans spent) (fun spent => nomatch failed'.symm.trans spent)
  exact ⟨alike, e, e', failed, failed', same.1⟩

end Descent
