import Descent.Grammar.RuleSet
import Descent.Proofs.Evolution

/-!
Stores and the grammars built in them.
Main statements: what a grammar is built to is coherent with the store that it is built in, and a
parse keeps it so.
-/

namespace Descent

/-- The grammar `t` belongs to the store `s`: every identity in either has been given out, and
stands for one rule or for one reference wherever it occurs. -/
def Store.Coherent (s : Store) (t : Term) : Prop :=
  ∃ w : World, w.store = s ∧ t.Known w.catalog w.store.nextRule

/-- The world before any grammar is built. -/
def World.empty : World where
  catalog _ := none
  store := .empty
  cells _ _ := nofun
  resolved _ _ := nofun

/-- Giving a rule a definition. -/
theorem World.exists_setCell (w : World) {rule : RuleId} {body : Term}
    (kind : w.catalog.Rule w.store.nextRule rule)
    (known : body.Known w.catalog w.store.nextRule) :
    ∃ w' : World, w'.catalog = w.catalog ∧ w'.store = w.store.setCell rule body := by
  refine ⟨⟨w.catalog, w.store.setCell rule body, fun id q found => ?_, w.resolved⟩, rfl, rfl⟩
  rcases Store.definition?_setCell_eq_some found with ⟨rfl, rfl⟩ | before
  · exact ⟨kind, known⟩
  · exact w.cells id q before

namespace Grammar

theorem exists_declareRules (names : List String) {scope : Scope} {w : World}
    (known : scope.Known w.catalog w.store.nextRule) :
    ∃ w' : World, w'.store = (declareRules scope names w.store).2 ∧
      (declareRules scope names w.store).1.Known w'.catalog w'.store.nextRule := by
  induction names generalizing scope w with
  | nil => exact ⟨w, rfl, known⟩
  | cons name more ih =>
    obtain ⟨w₁, later, store, rule, -⟩ := w.exists_build .undefined known
    have bound : (scope.bindRule name ⟨⟨w.store.nextRule⟩, true⟩).Known w₁.catalog
        w₁.store.nextRule :=
      Scope.Refers.bindRule (World.scope_later later known) rule
    rw [declareRules_cons]
    obtain ⟨w₂, store₂, known₂⟩ := ih bound
    rw [store] at store₂ known₂
    exact ⟨w₂, store₂, known₂⟩

theorem exists_defineRules (rules : List (String × Node)) {scope : Scope} {w : World}
    (known : scope.Known w.catalog w.store.nextRule) :
    ∃ w' : World, w'.store = (defineRules scope rules w.store).2 ∧
      scope.Known w'.catalog w'.store.nextRule := by
  induction rules generalizing w with
  | nil => exact ⟨w, rfl, known⟩
  | cons rule more ih =>
    obtain ⟨name, node⟩ := rule
    obtain ⟨w₁, later, store, body, -⟩ := w.exists_build node known
    have known₁ := World.scope_later later known
    rw [defineRules_cons]
    cases found : scope.handle? name with
    | none =>
      obtain ⟨w₂, store₂, known₂⟩ := ih known₁
      rw [store] at store₂
      exact ⟨w₂, store₂, known₂⟩
    | some h =>
      obtain ⟨w₂, catalog, store₂⟩ := w₁.exists_setCell (known₁.of_handle? found) body
      have known₂ : scope.Known w₂.catalog w₂.store.nextRule := by
        rw [catalog, store₂]
        exact known₁
      obtain ⟨w₃, store₃, known₃⟩ := ih known₂
      rw [store₂, store] at store₃
      exact ⟨w₃, store₃, known₃⟩

/-- Building a grammar leads to a world that knows the root and the names of all rules. -/
theorem exists_world (g : Grammar) :
    ∃ w : World, w.store = (g.build .empty).2 ∧
      (g.build .empty).1.Known w.catalog w.store.nextRule ∧
      (declareRules .empty (g.rules.map (·.1)) .empty).1.Known w.catalog w.store.nextRule := by
  have nothing : Scope.Known World.empty.catalog World.empty.store.nextRule .empty :=
    fun _ mem => nomatch mem
  obtain ⟨w₁, store₁, known₁⟩ := exists_declareRules (g.rules.map (·.1)) nothing
  obtain ⟨w₂, store₂, known₂⟩ := exists_defineRules g.rules known₁
  obtain ⟨w₃, later, store₃, known₃, -⟩ := w₂.exists_build g.root known₂
  have names := World.scope_later later known₂
  rw [store₂, store₁] at store₃ known₃
  exact ⟨w₃, store₃, known₃, names⟩

/-- A grammar is coherent with the store that it was built in. -/
theorem build_coherent (g : Grammar) : (g.build .empty).2.Coherent (g.build .empty).1 := by
  obtain ⟨w, store, known, -⟩ := g.exists_world
  exact ⟨w, store, known⟩

end Grammar

/-- A parse leaves the store coherent with the grammar. -/
theorem Term.parse_coherent (n : Nat) (t : Term) (c : Cursor) {s : Store} (h : s.Coherent t) :
    (t.parse n c s).2.Coherent t := by
  obtain ⟨w, rfl, known⟩ := h
  obtain ⟨w', leads, store, -⟩ := Term.parse_evolves n known c trivial 0 w w.le_refl
  exact ⟨w', store.symm, World.known_later leads.later known⟩

end Descent
