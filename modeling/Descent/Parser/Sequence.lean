import Descent.Parser.Character
import Descent.Span

/-!
Parsers in sequence, each named for the value that it has, and views of what one parser matched.
-/

namespace Descent.Parser

variable {σ α β γ : Type}

def both (p : Parser σ α) (q : Parser σ β) : Parser σ (α × β) := fun c => do
  match ← p c with
  | .success v r => return (← q r).map (v, ·)
  | .failure e => return .failure e

def ignoreThen (p : Parser σ α) (q : Parser σ β) : Parser σ β := fun c => do
  match ← p c with
  | .success _ r => q r
  | .failure e => return .failure e

def thenIgnore (p : Parser σ α) (q : Parser σ β) : Parser σ α := fun c => do
  match ← p c with
  | .success v r => return (← q r).map fun _ => v
  | .failure e => return .failure e

def between (first : Parser σ α) (inner : Parser σ β) (last : Parser σ γ) : Parser σ β :=
  fun c => do
    match ← first c with
    | .success _ d =>
      match ← inner d with
      | .success v r => return (← last r).map fun _ => v
      | .failure e => return .failure e
    | .failure e => return .failure e

def concat (p q : Parser σ (List α)) : Parser σ (List α) := fun c => do
  match ← p c with
  | .success xs r => return (← q r).map (xs ++ ·)
  | .failure e => return .failure e

def complete (p : Parser σ α) : Parser σ α := fun c => do
  match ← p c with
  | .success v r => return (← endOfInput r).map fun _ => v
  | .failure e => return .failure e

def once (p : Parser σ α) : Parser σ (List α) := map ([·]) p

def text (p : Parser σ (List Char)) : Parser σ String := map String.ofList p

def withSpan (p : Parser σ α) : Parser σ (α × Span) := fun c => do
  match ← p c with
  | .success v r => return .success (v, Span.between c r) r
  | .failure e => return .failure e

/-- Rejects values that fail the test, at the place where `p` began; `shown` words a value. -/
def filter (shown : α → String) (test : α → Bool) (p : Parser σ α) : Parser σ α := fun c => do
  match ← p c with
  | .success v r =>
    if test v then return .success v r
    else return .failure (.plain c (.rejected ⟨fun _ => shown v⟩))
  | .failure e => return .failure e

def peek (p : Parser σ α) : Parser σ α := fun c => do
  match ← p c with
  | .success v _ => return .success v c
  | .failure e => return .failure e

end Descent.Parser
