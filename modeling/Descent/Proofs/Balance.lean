import Descent.Grammar.RuleSet
import Descent.Proofs.Building
import Descent.Proofs.Evaluation

/-!
The entries of active rules.
Main statement: a parse leaves the active entries exactly as it found them, however it ends, and a
rule that is refused leaves the entry of the invocation that is still running.
-/

namespace Descent

/-- A run that leaves the active entries as it found them. -/
def balanced : Judgement Store Store :=
  Judgement.ofRelation (fun x _ => ∀ s, (x s).2.active = s.active) (fun _ _ => rfl) <| by
    intro α β x y f g first rest s
    have kept : (x s).2.active = s.active := first s
    rcases run : x s with ⟨e | a, t⟩
    · rw [run] at kept
      rw [Step.bind_of_error run]
      exact kept
    · rw [run] at kept
      rw [Step.bind_of_ok run]
      exact (rest a s t run t).trans kept

theorem balanced_of_active {α : Type} {x : Step Store α} {good : α → Prop}
    (kept : ∀ s, (x s).2.active = s.active) (all : ∀ a, good a) :
    balanced.holds (fun _ => x) (fun _ => x) good :=
  fun _ => ⟨kept, fun a _ _ _ => all a⟩

theorem Store.definition_active (rule : RuleId) (s : Store) :
    (Store.definition rule s).2.active = s.active := by
  rw [definition_apply]
  cases s.definition? rule <;> rfl

theorem Store.resolve_active (rule : RuleId) (body : Node) (scope : Scope) (s : Store) :
    (Store.resolve rule body scope s).2.active = s.active := by
  rw [resolve_apply]
  cases s.resolved.lookup rule with
  | some q => rfl
  | none => exact (body.build_grows scope s).active

theorem Machine.guarding_balanced : balanced.Machines .all .guarding .guarding where
  call _ _ _ _ h := h
  guard _ _ _ h c hc n :=
    ⟨fun _ => guarded_active fun t => (h c hc n).1 t, fun _ _ _ _ => trivial⟩
  build next scope v _ :=
    balanced_of_active (fun s => (next.build_grows scope v s).active) Term.within_all
  definition rule := balanced_of_active (Store.definition_active rule) Term.within_all
  resolve rule body scope _ :=
    balanced_of_active (Store.resolve_active rule body scope) Term.within_all

theorem Machine.trusting_balanced : balanced.Machines .all .trusting .trusting where
  call _ _ _ _ h := h
  guard _ _ _ h := h
  build := Machine.guarding_balanced.build
  definition := Machine.guarding_balanced.definition
  resolve := Machine.guarding_balanced.resolve

theorem Term.active_of_evaluate {m : Machine Store} (kept : balanced.Machines .all m m) (n : Nat)
    (t : Term) (c : Cursor) (s : Store) : (t.evaluate m n c s).2.active = s.active := by
  have spent : balanced.Partial := fun _ _ _ _ => ⟨fun _ => rfl, fun _ _ _ eq => nomatch eq⟩
  have judged := Judgement.evaluate_all (fun _ _ => trivial) kept
    (spent.fuels (Nat.le_refl n)) t
  exact (judged c trivial 0).1 s

/-- No parse changes the active entries. -/
theorem Term.active_of_parse (n : Nat) (t : Term) (c : Cursor) (s : Store) :
    (t.parse n c s).2.active = s.active :=
  t.active_of_evaluate Machine.guarding_balanced n c s

namespace Grammar

/-- Building neither resolves references nor enters rules. -/
theorem kept_of_declareRules (scope : Scope) (names : List String) (s : Store) :
    (declareRules scope names s).2.resolved = s.resolved ∧
      (declareRules scope names s).2.active = s.active := by
  induction names generalizing scope s with
  | nil => exact ⟨rfl, rfl⟩
  | cons name more ih =>
    have declared := Store.declare_grows s
    rw [declareRules_cons]
    exact ⟨(ih _ _).1.trans declared.resolved, (ih _ _).2.trans declared.active⟩

theorem kept_of_defineRules (scope : Scope) (rules : List (String × Node)) (s : Store) :
    (defineRules scope rules s).2.resolved = s.resolved ∧
      (defineRules scope rules s).2.active = s.active := by
  induction rules generalizing s with
  | nil => exact ⟨rfl, rfl⟩
  | cons rule more ih =>
    obtain ⟨name, node⟩ := rule
    have built := node.build_grows scope s
    rw [defineRules_cons]
    cases scope.handle? name with
    | none => exact ⟨(ih _).1.trans built.resolved, (ih _).2.trans built.active⟩
    | some h => exact ⟨(ih _).1.trans built.resolved, (ih _).2.trans built.active⟩

theorem kept_of_build (g : Grammar) (s : Store) :
    (g.build s).2.resolved = s.resolved ∧ (g.build s).2.active = s.active := by
  have declared := kept_of_declareRules .empty (g.rules.map (·.1)) s
  have defined := kept_of_defineRules (declareRules .empty (g.rules.map (·.1)) s).1 g.rules
    (declareRules .empty (g.rules.map (·.1)) s).2
  have root := g.root.build_grows (declareRules .empty (g.rules.map (·.1)) s).1
    (defineRules (declareRules .empty (g.rules.map (·.1)) s).1 g.rules
      (declareRules .empty (g.rules.map (·.1)) s).2).2
  rw [build_apply]
  exact ⟨root.resolved.trans (defined.1.trans declared.1),
    root.active.trans (defined.2.trans declared.2)⟩

theorem active_of_build (g : Grammar) (s : Store) : (g.build s).2.active = s.active :=
  (g.kept_of_build s).2

theorem active_of_parseTexts (t : Term) (texts : List String) (s : Store) :
    (parseTexts t texts s).2.active = s.active := by
  induction texts generalizing s with
  | nil => rfl
  | cons text more ih =>
    exact (ih _).trans (t.active_of_parse ampleFuel (.start text.toList) s)

end Grammar

/-- A parse leaves exactly the active entries that it found, whatever it ends with. In particular a
rule that is entered again where it is active is refused without a change to the entries, and when
all texts have been parsed no rule is active. -/
theorem active_entries_balanced :
    (∀ (n : Nat) (t : Term) (c : Cursor) (s : Store), (t.parse n c s).2.active = s.active) ∧
    (∀ (rule : RuleId) (body : Parser Store Value) (c : Cursor) (s : Store),
      Store.entry rule c ∈ s.active →
        guarded rule body c s = (.error (.defect (.leftRecursion rule c.location)), s)) ∧
    ∀ (g : Grammar) (texts : List String),
      (Grammar.parseTexts (g.build .empty).1 texts (g.build .empty).2).2.active = [] := by
  refine ⟨fun n t c s => t.active_of_parse n c s, fun _ _ _ _ => guarded_of_mem, ?_⟩
  intro g texts
  rw [Grammar.active_of_parseTexts, Grammar.active_of_build]
  rfl

end Descent
