import Descent.Proofs.Matching

/-!
Runs of one grammar from an earlier world and from a later one, with every rule run at once.
Main statement: a run that comes to its end from the later world does so from the earlier one.
-/

namespace Descent

/-- The first run has come to its end, and the second one to the same: the same result, or a halt
that is not for want of fuel. -/
def Alike {α : Type} (good : α → Prop) : Except Halt α → Except Halt α → Prop
  | .ok a, .ok b => a = b ∧ good a
  | .error _, .error e => e ≠ .outOfFuel
  | _, _ => False

theorem Alike.ended {α : Type} {good : α → Prop} {x y : Except Halt α} (h : Alike good x y) :
    y ≠ .error .outOfFuel := by
  rintro rfl
  cases x with
  | ok a => exact h
  | error e => exact h rfl

/-- The first run, on the right of a matching, comes to the same end as the second one on its left,
unless it runs out of fuel. -/
def replaying {base : World} (m₀ : Matching base) : Judgement Store Store where
  region _ := True
  moves _ _ := True
  holds X Y good := ∀ n (m : Matching base), m₀ ≤ m →
    (X n m.right.store).1 ≠ .error .outOfFuel → ∃ (m' : Matching base) (x y : Except Halt _),
      m ≤ m' ∧ X n m.right.store = (x, m'.right.store) ∧ Y n m.left.store = (y, m'.left.store) ∧
        Alike good x y
  moves_refl _ := trivial
  moves_trans _ _ := trivial
  moves_next _ := trivial
  region_moves _ _ := trivial
  pure {α a good} h _ m _ _ := ⟨m, .ok a, .ok a, m.le_refl, rfl, rfl, rfl, h⟩
  bind {α β X Y F G mid good} hx hf n m from₀ ended := by
    dsimp only at ended ⊢
    obtain ⟨m₁, x, y, later, right, left, alike⟩ := hx n m from₀ (Step.ended_of_bind ended)
    cases x with
    | error e =>
      cases y with
      | ok b => exact alike.elim
      | error e' =>
        exact ⟨m₁, .error e, .error e', later, Step.bind_of_error right _,
          Step.bind_of_error left _, alike⟩
    | ok a =>
      cases y with
      | error e' => exact alike.elim
      | ok b =>
        obtain ⟨rfl, good⟩ := alike
        rw [Step.bind_of_ok right] at ended ⊢
        rw [Step.bind_of_ok left]
        obtain ⟨m₂, x, y, later₂, rest⟩ := hf a good n m₁ (Matching.le_trans from₀ later) ended
        exact ⟨m₂, x, y, Matching.le_trans later later₂, rest⟩

namespace replaying

variable {base : World}

theorem spent (m₀ : Matching base) : (replaying m₀).Partial :=
  fun _ _ _ _ _ _ ended => absurd rfl ended

/-- With fuel `n`, grammars are run alike under their new names on the right of a matching, and as
they are on the left. -/
def Holds (base : World) (n : Nat) : Prop :=
  ∀ {m₀ : Matching base} {t : Term}, m₀.Knows t →
    (replaying m₀).Parsers (fun _ => (t.rename m₀.rename).evaluate .trusting n)
      fun _ => t.evaluate .trusting n

variable {n : Nat} {m₀ : Matching base} {scope : Scope}

theorem bind (ih : Holds base n) {p : Term} {next : Chooser}
    (knows : m₀.Knows (.bind p next scope)) :
    (replaying m₀).Parsers
      (fun _ => ((Term.bind p next scope).rename m₀.rename).evaluate .trusting (n + 1))
      fun _ => (Term.bind p next scope).evaluate .trusting (n + 1) := by
  have first : m₀.Knows p := ⟨knows.1.1, knows.2.1⟩
  refine Judgement.andThen (ih first) fun v c hc k m from₀ ended => ?_
  have names : scope.rename m.rename = scope.rename m₀.rename :=
    Scope.Known.rename_congr knows.1.2 from₀.rename
  have known := World.scope_later from₀.left knows.1.2
  have known' := World.scope_later from₀.right knows.2.2
  rw [← names] at known'
  obtain ⟨m₁, later, storeLeft, storeRight, term, knowsQ, -⟩ :=
    m.exists_choice next v known known'
  rw [names] at storeRight term
  dsimp only [Machine.trusting, id] at ended ⊢
  rw [Step.bind_of_ok (Store.build_apply next _ v m.right.store), ← storeRight, term] at ended ⊢
  rw [Step.bind_of_ok (Store.build_apply next scope v m.left.store), ← storeLeft]
  obtain ⟨m₂, x, y, later₂, rest⟩ := ih knowsQ c hc k m₁ m₁.le_refl ended
  exact ⟨m₂, x, y, Matching.le_trans later later₂, rest⟩

theorem rule (ih : Holds base n) {h : Handle} (knows : m₀.Knows (.rule h)) :
    (replaying m₀).Parsers (fun _ => ((Term.rule h).rename m₀.rename).evaluate .trusting (n + 1))
      fun _ => (Term.rule h).evaluate .trusting (n + 1) := by
  intro c hc k m from₀ ended
  have old : h.rule.number < m₀.left.store.nextRule := knows.1.1
  have name : m.rename h.rule = m₀.rename h.rule := from₀.rename _ old
  have same := m.definition h.rule (Nat.lt_of_lt_of_le old from₀.left.nextRule)
  rw [name] at same
  dsimp only [Term.rename, Handle.rename] at ended ⊢
  rw [Term.trusting_rule] at ended ⊢
  rw [Term.trusting_rule]
  cases onLeft : m.left.store.definition? h.rule with
  | none =>
    rw [onLeft] at same
    exact ⟨m, _, _, m.le_refl, Step.bind_of_error (Store.definition_of_none same) _,
      Step.bind_of_error (Store.definition_of_none onLeft) _, nofun⟩
  | some q =>
    rw [onLeft] at same
    have knowsQ : m.Knows q := ⟨(m.left.cells _ q onLeft).2, (m.right.cells _ _ same).2⟩
    rw [Step.bind_of_ok (Store.definition_of_some same)] at ended ⊢
    rw [Step.bind_of_ok (Store.definition_of_some onLeft)]
    exact ih knowsQ c hc k m m.le_refl ended

theorem reference (ih : Holds base n) {id : RuleId} {body : Node}
    (knows : m₀.Knows (.reference id body scope)) :
    (replaying m₀).Parsers
      (fun _ => ((Term.reference id body scope).rename m₀.rename).evaluate .trusting (n + 1))
      fun _ => (Term.reference id body scope).evaluate .trusting (n + 1) := by
  intro c hc k m from₀ ended
  obtain ⟨knowsM, names⟩ := knows.later from₀
  obtain ⟨m₁, q, later, left, right, knowsQ⟩ := m.exists_resolve knowsM
  rw [← names] at ended ⊢
  dsimp only [Term.rename] at ended ⊢
  rw [Term.trusting_reference, Step.bind_of_ok right] at ended ⊢
  rw [Term.trusting_reference, Step.bind_of_ok left]
  obtain ⟨m₂, x, y, later₂, rest⟩ := ih knowsQ c hc k m₁ m₁.le_refl ended
  exact ⟨m₂, x, y, Matching.le_trans later later₂, rest⟩

theorem evaluate (n : Nat) : Holds base n := by
  induction n with
  | zero => exact fun _ c _ => spent _ _ _
  | succ n ih =>
    intro m₀ t knows
    have fuel := (spent m₀).fuels (Nat.le_refl n)
    cases t with
    | leaf a => exact Judgement.atom a fun _ _ _ _ => trivial
    | unary op p => exact Judgement.unary (ih (t := p) knows) fuel op
    | binary op p q =>
      exact Judgement.binary (ih (t := p) ⟨knows.1.1, knows.2.1⟩)
        (ih (t := q) ⟨knows.1.2, knows.2.2⟩) fuel op
    | between first inner last =>
      exact Judgement.between (ih (t := first) ⟨knows.1.1, knows.2.1⟩)
        (ih (t := inner) ⟨knows.1.2.1, knows.2.2.1⟩) (ih (t := last) ⟨knows.1.2.2, knows.2.2.2⟩)
    | bind p next scope => exact bind ih knows
    | rule h => exact rule ih knows
    | reference id body scope => exact reference ih knows

end replaying

/-- A grammar that comes to its end from a later world does so from the earlier one. -/
theorem Term.ended_earlier {w w' : World} (later : w ≤ w') {t : Term}
    (known : t.Known w.catalog w.store.nextRule) (n : Nat) (c : Cursor)
    (ended : (t.evaluate .trusting n c w'.store).1 ≠ .error .outOfFuel) :
    (t.evaluate .trusting n c w.store).1 ≠ .error .outOfFuel := by
  have same : t.rename (Matching.start later).rename = t := t.rename_id
  have knows : (Matching.start later).Knows t := by
    refine ⟨known, ?_⟩
    rw [same]
    exact World.known_later later known
  have judged := replaying.evaluate n knows c trivial 0 _ (Matching.le_refl _)
  rw [same] at judged
  obtain ⟨m, x, y, -, -, left, alike⟩ := judged ended
  have result : t.evaluate .trusting n c w.store = (y, m.left.store) := left
  rw [result]
  exact alike.ended

end Descent
