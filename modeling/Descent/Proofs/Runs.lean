import Descent.Parser.Choice
import Descent.Parser.Sequence

/-!
Runs of combinators, given the runs of their parts, and what parsers may be known to do in every
run: they go on, and they do the same again.
-/

namespace Descent

/-- What an alternation makes of the outcomes of its two parts at `c`, of which the first has
consumed nothing. -/
def Outcome.alternative {α : Type} (c : Cursor) : Outcome α → Outcome α → Outcome α
  | _, success w r => success w r
  | success v r, failure _ => success v r
  | failure e, failure e' => failure (if e'.position = c.position then e'.merge e else e')

namespace Outcome

variable {α : Type} {c : Cursor} {o : Outcome α}

theorem alternative_match (o : Outcome α) (v : α) (r : Cursor) :
    o.alternative c (success v r) = success v r := by
  cases o <;> rfl

theorem alternative_here (e : Failure) {e' : Failure} (here : e'.position = c.position) :
    (failure e : Outcome α).alternative c (failure e') = failure (e'.merge e) :=
  congrArg failure (if_pos here)

/-- Behind a failure, an alternative that has consumed input stands for itself. -/
theorem alternative_moved (e : Failure) (moved : o.cursor.position ≠ c.position) :
    (failure e).alternative c o = o := by
  cases o with
  | success w r => rfl
  | failure e' => exact congrArg failure (if_neg moved)

end Outcome

namespace Parser

variable {σ α β : Type} {p q : Parser σ α} {f : α → Parser σ β} {c : Cursor} {s t u : σ}

theorem andThen_of_error {e : Halt} (run : p c s = (.error e, t)) :
    p.andThen f c s = (.error e, t) :=
  Step.bind_of_error run _

theorem andThen_of_failure {e : Failure} (run : p c s = (.ok (.failure e), t)) :
    p.andThen f c s = (.ok (.failure e), t) :=
  Step.bind_of_ok run _

theorem andThen_of_success {v : α} {r : Cursor} (run : p c s = (.ok (.success v r), t)) :
    p.andThen f c s = f v r t :=
  Step.bind_of_ok run _

theorem ignoreThen_of_error {p' : Parser σ β} {e : Halt} (run : p c s = (.error e, t)) :
    p.ignoreThen p' c s = (.error e, t) :=
  Step.bind_of_error run _

theorem ignoreThen_of_failure {p' : Parser σ β} {e : Failure}
    (run : p c s = (.ok (.failure e), t)) : p.ignoreThen p' c s = (.ok (.failure e), t) :=
  Step.bind_of_ok run _

theorem ignoreThen_of_success {p' : Parser σ β} {v : α} {r : Cursor}
    (run : p c s = (.ok (.success v r), t)) : p.ignoreThen p' c s = p' r t :=
  Step.bind_of_ok run _

theorem map_of_ok {g : α → β} {o : Outcome α} (run : p c s = (.ok o, t)) :
    p.map g c s = (.ok (o.map g), t) :=
  Step.bind_of_ok run _

theorem map_of_error {g : α → β} {e : Halt} (run : p c s = (.error e, t)) :
    p.map g c s = (.error e, t) :=
  Step.bind_of_error run _

theorem andThen_eq_success_iff {w : β} {r : Cursor} :
    p.andThen f c s = (.ok (.success w r), u) ↔
      ∃ v d t, p c s = (.ok (.success v d), t) ∧ f v d t = (.ok (.success w r), u) := by
  constructor
  · intro matched
    rcases run : p c s with ⟨e | ⟨v, d⟩ | e, t⟩
    · cases (andThen_of_error run).symm.trans matched
    · exact ⟨v, d, t, rfl, (andThen_of_success run).symm.trans matched⟩
    · cases (andThen_of_failure run).symm.trans matched
  · rintro ⟨v, d, t, run, rest⟩
    exact (andThen_of_success run).trans rest

theorem andThen_eq_failure_iff {e : Failure} :
    p.andThen f c s = (.ok (.failure e), u) ↔ p c s = (.ok (.failure e), u) ∨
      ∃ v d t, p c s = (.ok (.success v d), t) ∧ f v d t = (.ok (.failure e), u) := by
  constructor
  · intro failed
    rcases run : p c s with ⟨e | ⟨v, d⟩ | e, t⟩
    · cases (andThen_of_error run).symm.trans failed
    · exact .inr ⟨v, d, t, rfl, (andThen_of_success run).symm.trans failed⟩
    · cases (andThen_of_failure run).symm.trans failed
      exact .inl rfl
  · rintro (run | ⟨v, d, t, run, rest⟩)
    · exact andThen_of_failure run
    · exact (andThen_of_success run).trans rest

theorem andThen_eq_error_iff {e : Halt} :
    p.andThen f c s = (.error e, u) ↔ p c s = (.error e, u) ∨
      ∃ v d t, p c s = (.ok (.success v d), t) ∧ f v d t = (.error e, u) := by
  constructor
  · intro halted
    rcases run : p c s with ⟨e | ⟨v, d⟩ | e, t⟩
    · cases (andThen_of_error run).symm.trans halted
      exact .inl rfl
    · exact .inr ⟨v, d, t, rfl, (andThen_of_success run).symm.trans halted⟩
    · cases (andThen_of_failure run).symm.trans halted
  · rintro (run | ⟨v, d, t, run, rest⟩)
    · exact andThen_of_error run
    · exact (andThen_of_success run).trans rest

theorem map_eq_success_iff {g : α → β} {w : β} {r : Cursor} :
    p.map g c s = (.ok (.success w r), u) ↔
      ∃ v, p c s = (.ok (.success v r), u) ∧ w = g v := by
  constructor
  · intro matched
    rcases run : p c s with ⟨e | ⟨v, d⟩ | e, t⟩
    · cases (map_of_error run).symm.trans matched
    · cases (map_of_ok run).symm.trans matched
      exact ⟨v, rfl, rfl⟩
    · cases (map_of_ok run).symm.trans matched
  · rintro ⟨v, run, rfl⟩
    exact map_of_ok run

theorem map_eq_failure_iff {g : α → β} {e : Failure} :
    p.map g c s = (.ok (.failure e), u) ↔ p c s = (.ok (.failure e), u) := by
  refine ⟨fun failed => ?_, map_of_ok⟩
  rcases run : p c s with ⟨e | ⟨v, d⟩ | e, t⟩
  · cases (map_of_error run).symm.trans failed
  · cases (map_of_ok run).symm.trans failed
  · cases (map_of_ok run).symm.trans failed
    rfl

theorem map_eq_error_iff {g : α → β} {e : Halt} :
    p.map g c s = (.error e, u) ↔ p c s = (.error e, u) := by
  refine ⟨fun halted => ?_, map_of_error⟩
  rcases run : p c s with ⟨e | o, t⟩
  · cases (map_of_error run).symm.trans halted
    rfl
  · cases (map_of_ok run).symm.trans halted

theorem map_map {γ : Type} (g : α → β) (h : β → γ) : (p.map g).map h = p.map fun v => h (g v) := by
  funext c
  simp only [map, bind_assoc, pure_bind]
  congr 1
  funext o
  cases o <;> rfl

theorem map_congr {q : Parser σ α} {d : Cursor} (g : α → β) (same : p c s = q d t) :
    p.map g c s = q.map g d t := by
  rw [map, map, Step.bind_apply, Step.bind_apply, same]

theorem xor_of_error {e : Halt} (run : p c s = (.error e, t)) : p.xor q c s = (.error e, t) :=
  Step.bind_of_error run _

/-- An alternative that has consumed input stands. -/
theorem xor_of_moved {o : Outcome α} (run : p c s = (.ok o, t))
    (moved : o.cursor.position ≠ c.position) : p.xor q c s = (.ok o, t) := by
  rw [xor, Step.bind_of_ok run]
  cases o with
  | success v r => exact congrFun (if_neg moved) t
  | failure e => exact congrFun (if_neg moved) t

/-- Behind an alternative that has consumed nothing the second one is run. -/
theorem xor_of_stayed {o : Outcome α} (run : p c s = (.ok o, t))
    (stayed : o.cursor.position = c.position) :
    p.xor q c s = (q c >>= fun o' => pure (o.alternative c o')) t := by
  rw [xor, Step.bind_of_ok run]
  cases o with
  | success v r =>
    refine (congrFun (if_pos stayed) t).trans (congrArg (fun g => (q c >>= g) t) ?_)
    funext o'
    cases o' <;> rfl
  | failure e =>
    refine (congrFun (if_pos stayed) t).trans (congrArg (fun g => (q c >>= g) t) ?_)
    funext o'
    cases o' with
    | success w r => rfl
    | failure e' =>
      by_cases here : e'.position = c.position <;>
        simp only [here, Outcome.alternative, if_true, if_false]

theorem xor_of_both {o o' : Outcome α} (run : p c s = (.ok o, t))
    (stayed : o.cursor.position = c.position) (next : q c t = (.ok o', u)) :
    p.xor q c s = (.ok (o.alternative c o'), u) :=
  (xor_of_stayed run stayed).trans (Step.bind_of_ok next _)

theorem xor_of_both_error {o : Outcome α} {e : Halt} (run : p c s = (.ok o, t))
    (stayed : o.cursor.position = c.position) (next : q c t = (.error e, u)) :
    p.xor q c s = (.error e, u) :=
  (xor_of_stayed run stayed).trans (Step.bind_of_error next _)

theorem attempt_of_error {e : Halt} (run : p c s = (.error e, t)) :
    p.attempt c s = (.error e, t) :=
  Step.bind_of_error run _

theorem attempt_of_success {v : α} {r : Cursor} (run : p c s = (.ok (.success v r), t)) :
    p.attempt c s = (.ok (.success v r), t) :=
  Step.bind_of_ok run _

theorem attempt_of_failure {e : Failure} (run : p c s = (.ok (.failure e), t)) :
    p.attempt c s = (.ok (.failure (e.relocate c)), t) :=
  Step.bind_of_ok run _

/-- A parser that from the states of `I` does not go back, whether it matches or fails. -/
structure Advances (I : σ → Prop) (p : Parser σ α) : Prop where
  keeps : ∀ c s, I s → I (p c s).2
  onward : ∀ c s o, I s → (p c s).1 = .ok o → c.position ≤ o.cursor.position

/-- A parser that also comes to the same whenever it is run again at a cursor, as `view` sees
halts. -/
structure Replays (view : Halt → Halt) (I : σ → Prop) (p : Parser σ α) : Prop
    extends p.Advances I where
  repeats : ∀ c s t, I s → I t → (p c t).1.mapError view = (p c s).1.mapError view

variable {I : σ → Prop} {view : Halt → Halt} {o : Outcome α}

theorem Advances.kept (h : p.Advances I) (hs : I s) {x : Except Halt (Outcome α)}
    (run : p c s = (x, t)) : I t := by
  have kept := h.keeps c s hs
  rwa [run] at kept

theorem Advances.position_le (h : p.Advances I) (hs : I s) (run : p c s = (.ok o, t)) :
    c.position ≤ o.cursor.position :=
  h.onward c s o hs (congrArg Prod.fst run)

/-- A parser that has come to an outcome comes to it again. -/
theorem Replays.again (h : p.Replays view I) (hs : I s) (run : p c s = (.ok o, t)) (hu : I u) :
    ∃ x, p c u = (.ok o, x) ∧ I x := by
  have same := h.repeats c s u hs hu
  rw [run] at same
  rcases rerun : p c u with ⟨e | o', x⟩
  · rw [rerun] at same
    cases same
  · rw [rerun] at same
    obtain rfl : o' = o := Except.ok.inj same
    exact ⟨x, rfl, h.kept hu rerun⟩

end Parser
end Descent
