import Descent.Parser.Sequence

/-!
Repetitions. An element may succeed without consuming input for ever, so every loop is given fuel,
and running out of it is a halt of its own.
-/

namespace Descent.Parser

variable {σ α β : Type}

/-- Matches of `p` from `c` on until it fails, after those already found, the last one first. -/
def collect (p : Parser σ α) : Nat → List α → Parser σ (List α)
  | 0, _, _ => throw .outOfFuel
  | fuel + 1, found, c => do
    match ← p c with
    | .success v r => collect p fuel (v :: found) r
    | .failure _ => return .success found.reverse c

def many (fuel : Nat) (p : Parser σ α) : Parser σ (List α) := collect p fuel []

def atLeastOnce (fuel : Nat) (p : Parser σ α) : Parser σ (List α) := fun c => do
  match ← p c with
  | .success v r => collect p fuel [v] r
  | .failure e => return .failure e

/-- Further items, each after a separator, behind those already found. A separator that fails
without consuming input ends the list; after a separator an item is required. -/
def collectSeparated (p : Parser σ α) (separator : Parser σ β) :
    Nat → List α → Parser σ (List α)
  | 0, _, _ => throw .outOfFuel
  | fuel + 1, found, c => do
    match ← separator c with
    | .failure e =>
      if e.position = c.position then return .success found.reverse c else return .failure e
    | .success _ d =>
      match ← p d with
      | .success v r => collectSeparated p separator fuel (v :: found) r
      | .failure e => return .failure e

def separatedBy (fuel : Nat) (p : Parser σ α) (separator : Parser σ β) : Parser σ (List α) :=
  fun c => do
    match ← p c with
    | .success v r => collectSeparated p separator fuel [v] r
    | .failure e => return .failure e

def token (fuel : Nat) (p : Parser σ α) : Parser σ α :=
  thenIgnore (ignoreThen (many fuel whitespace) p) (many fuel whitespace)

end Descent.Parser
