import Descent.Defect
import Descent.Outcome

/-!
Parsers as functions of a cursor. A parser may read and change a state, which also survives a
halt; a parser that leaves its state alone is a function of the cursor.
Main statements: `succeed` and `andThen` satisfy the laws of a monad, and `map` is the mapping
that they determine.
-/

namespace Descent

/-- One run over a state: a result or a halt, with the state that it leaves. -/
abbrev Step (σ : Type) := ExceptT Halt (StateM σ)

abbrev Parser (σ α : Type) := Cursor → Step σ (Outcome α)

namespace Step

variable {σ α β : Type}

theorem bind_apply (x : Step σ α) (f : α → Step σ β) (s : σ) :
    (x >>= f) s = match x s with
      | (.ok a, t) => f a t
      | (.error e, t) => (.error e, t) := by
  simp only [bind, ExceptT.bind, ExceptT.mk, StateT.bind]
  rcases x s with ⟨result, t⟩
  cases result <;> rfl

theorem bind_of_ok {x : Step σ α} {s t : σ} {a : α} (h : x s = (.ok a, t))
    (f : α → Step σ β) : (x >>= f) s = f a t := by
  rw [bind_apply, h]

theorem bind_of_error {x : Step σ α} {s t : σ} {e : Halt} (h : x s = (.error e, t))
    (f : α → Step σ β) : (x >>= f) s = (.error e, t) := by
  rw [bind_apply, h]

/-- If a sequence does not run out of fuel, its first part does not. -/
theorem ended_of_bind {x : Step σ α} {f : α → Step σ β} {s : σ}
    (ended : ((x >>= f) s).1 ≠ .error .outOfFuel) : (x s).1 ≠ .error .outOfFuel := by
  rcases run : x s with ⟨e | a, t⟩
  · rw [bind_of_error run] at ended
    exact fun eq => ended (by cases eq; rfl)
  · exact nofun

/-- A sequence yields a result exactly if its first part does and the rest does from there. -/
theorem bind_eq_ok_iff {x : Step σ α} {f : α → Step σ β} {s u : σ} {b : β} :
    (x >>= f) s = (.ok b, u) ↔ ∃ a t, x s = (.ok a, t) ∧ f a t = (.ok b, u) := by
  constructor
  · intro h
    rcases first : x s with ⟨e | a, t⟩
    · rw [bind_of_error first] at h
      cases h
    · exact ⟨a, t, rfl, (bind_of_ok first f).symm.trans h⟩
  · rintro ⟨a, t, first, rest⟩
    exact (bind_of_ok first f).trans rest

end Step

namespace Parser

variable {σ α β γ : Type}

/-- Succeeds with a value and consumes nothing. -/
def succeed (v : α) : Parser σ α := fun c => pure (.success v c)

/-- A parser that is given as a function of the cursor. -/
def ofFunction (f : Cursor → Outcome α) : Parser σ α := fun c => pure (f c)

/-- Runs `p`, and on success the parser chosen by its value, at the remainder. -/
def andThen (p : Parser σ α) (f : α → Parser σ β) : Parser σ β := fun c => do
  match ← p c with
  | .success v r => f v r
  | .failure e => return .failure e

def map (f : α → β) (p : Parser σ α) : Parser σ β := fun c => do
  return (← p c).map f

/-- Succeeds with `w` where `p` succeeds. -/
def giving (w : β) (p : Parser σ α) : Parser σ β := map (fun _ => w) p

theorem succeed_andThen (v : α) (f : α → Parser σ β) : (succeed v).andThen f = f v := by
  funext c
  simp [andThen, succeed]

theorem andThen_succeed (p : Parser σ α) : p.andThen succeed = p := by
  funext c
  have same : ∀ o : Outcome α, (match o with
      | .success v r => succeed v r
      | .failure e => pure (.failure e) : Step σ (Outcome α)) = pure o := by
    intro o; cases o <;> rfl
  simp only [andThen, same, bind_pure]

theorem andThen_andThen (p : Parser σ α) (f : α → Parser σ β) (g : β → Parser σ γ) :
    (p.andThen f).andThen g = p.andThen fun v => (f v).andThen g := by
  funext c
  simp only [andThen, bind_assoc]
  congr 1
  funext o
  cases o <;> simp

theorem map_eq_andThen (f : α → β) (p : Parser σ α) :
    p.map f = p.andThen fun v => succeed (f v) := by
  funext c
  simp only [map, andThen]
  congr 1
  funext o
  cases o <;> rfl

end Parser
end Descent
