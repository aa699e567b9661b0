import Descent.Proofs.Evaluation

/-!
More fuel does not change an evaluation that has come to its end.
-/

namespace Descent

/-- The second run does what the first one does, unless the first one runs out of fuel. -/
def steady (σ : Type) : Judgement σ σ :=
  Judgement.ofRelation (fun x y => ∀ s, (x s).1 ≠ .error .outOfFuel → y s = x s)
    (fun _ _ _ => rfl) <| by
      intro α β x y f g first rest s ended
      have same : y s = x s := first s (Step.ended_of_bind ended)
      rcases run : x s with ⟨e | a, t⟩
      · rw [run] at same
        rw [Step.bind_of_error run, Step.bind_of_error same]
      · rw [run] at same
        rw [Step.bind_of_ok run] at ended ⊢
        rw [Step.bind_of_ok same]
        exact rest a s t run t ended

theorem steady_partial (σ : Type) : (steady σ).Partial :=
  fun _ _ _ _ => ⟨fun _ ended => absurd rfl ended, fun _ _ _ eq => nomatch eq⟩

variable {σ : Type}

theorem steady_refl {α : Type} (x : Step σ α) {good : α → Prop} (all : ∀ a, good a) :
    (steady σ).holds (fun _ => x) (fun _ => x) good :=
  fun _ => ⟨fun _ _ => rfl, fun a _ _ _ => all a⟩

theorem Term.evaluate_mono {m : Machine σ} (alike : (steady σ).Machines .all m m) {n k : Nat}
    (fuel : n ≤ k) (t : Term) (c : Cursor) (s : σ)
    (ended : (t.evaluate m n c s).1 ≠ .error .outOfFuel) :
    t.evaluate m k c s = t.evaluate m n c s := by
  have judged := Judgement.evaluate_all (fun _ _ => trivial) alike
    ((steady_partial σ).fuels fuel) t
  exact (judged c trivial 0).1 s ended

theorem Machine.trusting_steady : (steady Store).Machines .all .trusting .trusting where
  call _ _ _ _ h := h
  guard _ _ _ h := h
  build _ _ _ _ := steady_refl _ Term.within_all
  definition _ := steady_refl _ Term.within_all
  resolve _ _ _ _ := steady_refl _ Term.within_all

theorem guarded_steady (rule : RuleId) {p p' : Parser Store Value}
    (h : (steady Store).Parsers (fun _ => p) fun _ => p') :
    (steady Store).Parsers (fun _ => guarded rule p) fun _ => guarded rule p' := by
  intro c hc n
  constructor
  · intro s ended
    by_cases entered : Store.entry rule c ∈ s.active
    · exact (guarded_of_mem entered).trans (guarded_of_mem entered).symm
    · dsimp only at ended ⊢
      rw [guarded_of_notMem entered] at ended ⊢
      have body : p' c _ = p c _ := (h c hc n).1 _ ended
      rw [guarded_of_notMem entered, body]
  · exact fun _ _ _ _ => trivial

theorem Machine.guarding_steady : (steady Store).Machines .all .guarding .guarding where
  call _ _ _ _ h := h
  guard rule _ _ h := guarded_steady rule h
  build _ _ _ _ := steady_refl _ Term.within_all
  definition _ := steady_refl _ Term.within_all
  resolve _ _ _ _ := steady_refl _ Term.within_all

theorem guarded_mono (rule : RuleId) {n k : Nat} (fuel : n ≤ k) (t : Term) (c : Cursor) (s : Store)
    (ended : (guarded rule (t.parse n) c s).1 ≠ .error .outOfFuel) :
    guarded rule (t.parse k) c s = guarded rule (t.parse n) c s := by
  have body := Judgement.evaluate_all (fun _ _ => trivial) Machine.guarding_steady
    ((steady_partial Store).fuels fuel) t
  exact (guarded_steady rule body c trivial 0).1 s ended

end Descent
