import Descent.Parser.Basic

/-!
Chains of operands joined by operators. One loop reads the chain, and two folds group it from the
left or from the right.
-/

namespace Descent.Parser

variable {σ α β : Type}

/-- Further pairs of operator and operand, behind those already found. The loop stops before a pair
that consumes nothing or that fails without consuming input; any other failure is that of the
chain. -/
def links (operator : Parser σ β) (operand : Parser σ α) :
    Nat → List (β × α) → Parser σ (List (β × α))
  | 0, _, _ => throw .outOfFuel
  | fuel + 1, found, c => do
    match ← operator c with
    | .failure e =>
      if e.position = c.position then return .success found.reverse c else return .failure e
    | .success o d =>
      match ← operand d with
      | .success v r =>
        if c.position < r.position then links operator operand fuel ((o, v) :: found) r
        else return .success found.reverse c
      | .failure e =>
        if e.position = c.position then return .success found.reverse c else return .failure e

/-- A first operand and the links behind it. -/
def chain (fuel : Nat) (operator : Parser σ β) (operand : Parser σ α) :
    Parser σ (α × List (β × α)) := fun c => do
  match ← operand c with
  | .success v r => return (← links operator operand fuel [] r).map (v, ·)
  | .failure e => return .failure e

/-- `a - b - c` as `(a - b) - c`. -/
def groupLeft (apply : β → α → α → α) (first : α) (pairs : List (β × α)) : α :=
  pairs.foldl (fun left pair => apply pair.1 left pair.2) first

/-- `a ^ b ^ c` as `a ^ (b ^ c)`. -/
def groupRight (apply : β → α → α → α) (first : α) : List (β × α) → α
  | [] => first
  | (o, next) :: pairs => apply o first (groupRight apply next pairs)

def chainLeft (fuel : Nat) (operator : Parser σ β) (operand : Parser σ α)
    (apply : β → α → α → α) : Parser σ α :=
  map (fun (first, pairs) => groupLeft apply first pairs) (chain fuel operator operand)

def chainRight (fuel : Nat) (operator : Parser σ β) (operand : Parser σ α)
    (apply : β → α → α → α) : Parser σ α :=
  map (fun (first, pairs) => groupRight apply first pairs) (chain fuel operator operand)

end Descent.Parser
