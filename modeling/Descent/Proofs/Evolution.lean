import Descent.Proofs.Judgement
import Descent.Proofs.World
import Mathlib.Logic.Relation

/-!
How the store evolves while a grammar is parsed.
Main statement: every parse with a known grammar leads from a world to a later one, in single acts
that each resolve one reference at most.
-/

namespace Descent

namespace World

/-- What is done to a store at one go: identities are given out, or a reference is resolved. -/
inductive Act : World → World → Prop
  | grow {w w' : World} (later : w ≤ w') (resolved : w'.store.resolved = w.store.resolved) :
    Act w w'
  | resolve {w w' : World} {id : RuleId} {body : Node} {scope : Scope} {q : Term} (later : w ≤ w')
    (known : (Term.reference id body scope).Known w.catalog w.store.nextRule)
    (run : Store.resolve id body scope w.store = (.ok q, w'.store)) : Act w w'

/-- One act after the other leads from a world to another. -/
def History : World → World → Prop := Relation.ReflTransGen Act

variable {w w' w'' : World}

theorem Act.later (act : w.Act w') : w ≤ w' := by
  cases act with
  | grow later _ => exact later
  | resolve later _ _ => exact later

theorem Act.withActive (w : World) (active : List Entry) : w.Act (w.withActive active) :=
  .grow (w.le_withActive active) rfl

namespace History

theorem refl (w : World) : w.History w := Relation.ReflTransGen.refl

theorem trans (h : w.History w') (k : w'.History w'') : w.History w'' :=
  Relation.ReflTransGen.trans h k

theorem single (act : w.Act w') : w.History w' := Relation.ReflTransGen.single act

theorem later (h : w.History w') : w ≤ w' := by
  induction h with
  | refl => exact w.le_refl
  | tail _ act ih => exact World.le_trans ih act.later

end History
end World

/-- A run from a world later than `w₀` leads on from that world. -/
def evolving (w₀ : World) : Judgement Store Store where
  region _ := True
  moves _ _ := True
  holds X _ good := ∀ n (w : World), w₀ ≤ w →
    ∃ w' : World, w.History w' ∧ (X n w.store).2 = w'.store ∧
      ∀ a s, X n w.store = (.ok a, s) → good a
  moves_refl _ := trivial
  moves_trans _ _ := trivial
  moves_next _ := trivial
  region_moves _ _ := trivial
  pure h _ w _ := ⟨w, .refl w, rfl, fun _ _ eq => by cases eq; exact h⟩
  bind {α β X Y F G mid good} hx hf n w from₀ := by
    obtain ⟨w₁, leads, store, yields⟩ := hx n w from₀
    change ∃ w', w.History w' ∧ ((X n >>= F n) w.store).2 = w'.store ∧
      ∀ b t, (X n >>= F n) w.store = (.ok b, t) → good b
    rcases run : X n w.store with ⟨e | a, s⟩
    · obtain rfl : s = w₁.store := by rw [← store, run]
      rw [Step.bind_of_error run]
      exact ⟨w₁, leads, rfl, fun b t eq => nomatch eq⟩
    · obtain rfl : s = w₁.store := by rw [← store, run]
      rw [Step.bind_of_ok run]
      obtain ⟨w₂, leads₂, store₂, yields₂⟩ :=
        hf a (yields a _ run) n w₁ (World.le_trans from₀ leads.later)
      exact ⟨w₂, leads.trans leads₂, store₂, yields₂⟩

theorem evolving_guard (w₀ : World) (rule : RuleId) {p p' : Parser Store Value}
    (h : (evolving w₀).Parsers (fun _ => p) fun _ => p') :
    (evolving w₀).Parsers (fun _ => guarded rule p) fun _ => guarded rule p' := by
  intro c hc n w from₀
  dsimp only
  by_cases entered : Store.entry rule c ∈ w.store.active
  · rw [guarded_of_mem entered]
    exact ⟨w, .refl w, rfl, fun _ _ _ => trivial⟩
  · rw [guarded_of_notMem entered]
    have inside := World.Act.withActive w (Store.entry rule c :: w.store.active)
    obtain ⟨w', leads, store, -⟩ := h c hc n _ (World.le_trans from₀ inside.later)
    refine ⟨w'.withActive (w'.store.active.erase (Store.entry rule c)), ?_, ?_,
      fun _ _ _ => trivial⟩
    · exact (World.History.single inside).trans (leads.trans (.single (.withActive w' _)))
    · exact congrArg (Store.leave · (Store.entry rule c)) store

theorem evolving_partial (w₀ : World) : (evolving w₀).Partial :=
  fun _ _ _ _ w _ => ⟨w, .refl w, rfl, fun _ _ eq => nomatch eq⟩

/-- Every parse with a known grammar leads on. -/
theorem Term.parse_evolves (n : Nat) {w₀ : World} {t : Term}
    (known : t.Known w₀.catalog w₀.store.nextRule) :
    (evolving w₀).Parsers (fun _ => t.parse n) fun _ => t.parse n := by
  induction n generalizing w₀ t with
  | zero => exact fun c _ => evolving_partial w₀ _ _
  | succ n ih =>
    have fuel := (evolving_partial w₀).fuels (Nat.le_refl n)
    cases t with
    | leaf a => exact Judgement.atom a fun _ _ _ _ => trivial
    | unary op p => exact Judgement.unary (ih (t := p) known) fuel op
    | binary op p q => exact Judgement.binary (ih known.1) (ih known.2) fuel op
    | between first inner last =>
      exact Judgement.between (ih known.1) (ih known.2.1) (ih known.2.2)
    | bind p next scope =>
      refine Judgement.andThen (ih known.1) fun v c hc k w from₀ => ?_
      obtain ⟨w₁, later, store, knownQ, -⟩ :=
        w.exists_choice next v (World.scope_later from₀ known.2)
      have act := World.Act.grow later <|
        (congrArg Store.resolved store).trans (next.build_grows scope v w.store).resolved
      obtain ⟨w₂, leads, store₂, yields⟩ := ih knownQ c hc k w₁ w₁.le_refl
      dsimp only [Machine.guarding, id]
      rw [Step.bind_of_ok (Store.build_apply next scope v w.store), ← store]
      exact ⟨w₂, (World.History.single act).trans leads, store₂, yields⟩
    | rule h =>
      intro c hc k w from₀
      dsimp only
      rw [parse_rule, Step.bind_apply, Store.definition_apply]
      cases found : w.store.definition? h.rule with
      | none => exact ⟨w, .refl w, rfl, fun _ _ _ => trivial⟩
      | some q =>
        have knownQ := (w.cells _ q found).2
        exact evolving_guard w h.rule (ih knownQ) c hc k w w.le_refl
    | reference id body scope =>
      intro c hc k w from₀
      have knownR := World.known_later from₀ known
      obtain ⟨w₁, q, later, -, run, found⟩ := w.exists_resolve knownR
      have act := World.Act.resolve later knownR run
      have knownQ := (w₁.resolved id q found).2.2
      obtain ⟨w₂, leads, store₂, yields⟩ := evolving_guard w₁ id (ih knownQ) c hc k w₁ w₁.le_refl
      dsimp only
      rw [parse_reference, Step.bind_of_ok run]
      exact ⟨w₂, (World.History.single act).trans leads, store₂, yields⟩

end Descent
