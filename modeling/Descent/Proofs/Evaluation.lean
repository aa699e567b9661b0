import Descent.Proofs.Fragment
import Descent.Proofs.Judgement

/-!
Evaluation under judgements of partial correctness.
Main statement: if two machines do alike under such a judgement, so do the evaluations by them of
every grammar whose closures move as the judgement asks, the second with no less fuel.
-/

namespace Descent

namespace Judgement

variable {σ τ : Type}

/-- The machines `m` and `m'` do alike under the judgement, on grammars of a fragment. -/
structure Machines (J : Judgement σ τ) (F : Fragment) (m : Machine σ) (m' : Machine τ) : Prop where
  call : ∀ t : Term, t.Within F → ∀ {p : Parser σ Value} {p' : Parser τ Value},
    J.Parsers (fun _ => p) (fun _ => p') → J.Parsers (fun _ => m.call t p) fun _ => m'.call t p'
  guard : ∀ (rule : RuleId) {p : Parser σ Value} {p' : Parser τ Value},
    J.Parsers (fun _ => p) (fun _ => p') →
      J.Parsers (fun _ => m.guard rule p) fun _ => m'.guard rule p'
  build : ∀ (next : Chooser) (scope : Scope) (v : Value), next.Within F →
    J.holds (fun _ => m.lift (next.build scope v)) (fun _ => m'.lift (next.build scope v))
      fun q => q.Within F
  definition : ∀ rule : RuleId,
    J.holds (fun _ => m.lift (Store.definition rule)) (fun _ => m'.lift (Store.definition rule))
      fun q => q.Within F
  resolve : ∀ (rule : RuleId) (body : Node) (scope : Scope), body.Within F →
    J.holds (fun _ => m.lift (Store.resolve rule body scope))
      (fun _ => m'.lift (Store.resolve rule body scope)) fun q => q.Within F

variable {J : Judgement σ τ} {F : Fragment} {m : Machine σ} {m' : Machine τ}

theorem evaluate
    (stays : ∀ f, F.atom (.custom f) → ∀ c, J.region c → J.moves c (f c).cursor)
    (alike : J.Machines F m m') {n k : Nat} (fuel : J.Fuels n k) {t : Term} (inside : t.Within F) :
    J.Parsers (fun _ => t.evaluate m n) fun _ => t.evaluate m' k := by
  induction n generalizing k t with
  | zero => exact fun c _ => fuel.zero fun eq => by subst eq; rfl
  | succ n ih =>
    obtain ⟨k, rfl, less⟩ := fuel.pred
    have parts {t : Term} (inside : t.Within F) := ih less inside
    refine alike.call t inside ?_
    cases t with
    | leaf a => exact atom a fun f eq => stays f (eq ▸ inside)
    | unary op p => exact unary (parts inside.2) less op
    | binary op p q => exact binary (parts inside.2.1) (parts inside.2.2) less op
    | between first inner last =>
      exact between (parts inside.1) (parts inside.2.1) (parts inside.2.2)
    | bind p next scope =>
      refine andThen (parts inside.1) fun v c hc => ?_
      exact J.bind (alike.build next scope v inside.2) fun q hq => parts hq c hc
    | rule h =>
      intro c hc
      exact J.bind (alike.definition h.rule) fun q hq => alike.guard h.rule (parts hq) c hc
    | reference rule body scope =>
      intro c hc
      exact J.bind (alike.resolve rule body scope inside) fun q hq =>
        alike.guard rule (parts hq) c hc

/-- Under a judgement that lets cursors move anywhere, every grammar may be evaluated. -/
theorem evaluate_all (free : ∀ c d, J.moves c d) (alike : J.Machines .all m m') {n k : Nat}
    (fuel : J.Fuels n k) (t : Term) :
    J.Parsers (fun _ => t.evaluate m n) fun _ => t.evaluate m' k :=
  evaluate (fun _ _ _ _ => free _ _) alike fuel t.within_all

/-- The judgement made of a relation between single runs that goes through sequencing. -/
def ofRelation (rel : {α : Type} → Step σ α → Step τ α → Prop)
    (result : ∀ {α : Type} (a : α), rel (Pure.pure a) (Pure.pure a))
    (sequence : ∀ {α β : Type} {x : Step σ α} {y : Step τ α} {f : α → Step σ β}
      {g : α → Step τ β}, rel x y → (∀ a s t, x s = (.ok a, t) → rel (f a) (g a)) →
      rel (x >>= f) (y >>= g)) : Judgement σ τ where
  region _ := True
  moves _ _ := True
  holds X Y good := ∀ n, rel (X n) (Y n) ∧ ∀ a s t, X n s = (.ok a, t) → good a
  moves_refl _ := trivial
  moves_trans _ _ := trivial
  moves_next _ := trivial
  region_moves _ _ := trivial
  pure h _ := ⟨result _, fun _ _ _ eq => by cases eq; exact h⟩
  bind {α β X Y F G mid good} hx hf n := by
    have next (a : α) (s t : σ) (yields : X n s = (.ok a, t)) := hf a ((hx n).2 a s t yields) n
    refine ⟨sequence (hx n).1 fun a s t yields => (next a s t yields).1, ?_⟩
    intro b s u yields
    obtain ⟨a, t, first, rest⟩ := Step.bind_eq_ok_iff.mp yields
    exact (next a s t first).2 b t u rest

end Judgement
end Descent
