import Descent.Parser.Basic

/-!
Alternatives and lookahead. Whether a branch has consumed input is read off positions alone: a
failure at the starting position leaves the way open for the next alternative, a later one does not.
-/

namespace Descent.Parser

variable {σ α : Type}

/-- `p`, or `q` if `p` fails without consuming input. Where both fail so, what they expected is
joined. A match of `p` that consumes nothing only stands if `q` does not match. -/
def xor (p q : Parser σ α) : Parser σ α := fun c => do
  match ← p c with
  | .failure e =>
    if e.position = c.position then
      match ← q c with
      | .failure e' =>
        if e'.position = c.position then return .failure (e'.merge e) else return .failure e'
      | .success w r => return .success w r
    else return .failure e
  | .success v r =>
    if r.position = c.position then
      match ← q c with
      | .success w r' => return .success w r'
      | .failure _ => return .success v r
    else return .success v r

/-- Reports every failure of `p` at the starting cursor. -/
def attempt (p : Parser σ α) : Parser σ α := fun c => do
  match ← p c with
  | .success v r => return .success v r
  | .failure e => return .failure (e.relocate c)

def or (p q : Parser σ α) : Parser σ α := xor (attempt p) q

def optional (p : Parser σ α) : Parser σ (Option α) := fun c => do
  match ← p c with
  | .success v r => return .success (some v) r
  | .failure e =>
    if e.position = c.position then return .success none c else return .failure e

/-- A failure that consumed nothing expects `label` and nothing else. -/
def named (label : String) (p : Parser σ α) : Parser σ α := fun c => do
  match ← p c with
  | .success v r => return .success v r
  | .failure e =>
    if e.position = c.position then return .failure (e.expecting {label}) else return .failure e

def not (p : Parser σ α) : Parser σ Unit := fun c => do
  match ← p c with
  | .success _ r => return .failure (.plain c (.unexpectedText (c.textTo r)))
  | .failure _ => return .success () c

def except {β : Type} (p : Parser σ α) (excluded : Parser σ β) : Parser σ α := fun c => do
  match ← excluded c with
  | .success _ r => return .failure (.plain c (.excludedText (c.textTo r)))
  | .failure _ => p c

def recover (p q : Parser σ α) : Parser σ α := fun c => do
  match ← p c with
  | .success v r => return .success v r
  | .failure e => q e.failedAt

end Descent.Parser
