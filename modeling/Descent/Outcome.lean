import Descent.Labels
import Descent.Location

/-!
Outcomes of a parse that came to its end: a value with the cursor after it, or a failure with the
place and the reason.
-/

namespace Descent

/-- A text that is worked out when it is asked for; such texts are equal when they read the same. -/
instance decidableEqThunk : DecidableEq (Thunk String) := fun s t =>
  decidable_of_iff (s.get = t.get) ⟨fun same => by
    obtain ⟨f⟩ := s
    obtain ⟨g⟩ := t
    exact congrArg Thunk.mk (funext fun _ => same), congrArg Thunk.get⟩

/-- What a failure says about the place where it happened. -/
inductive Message
  /-- A character of some description was expected; at the end of the input nothing is found. -/
  | expected (description : String) (found : Option Char)
  /-- Text that has to be absent is present. -/
  | unexpectedText (text : List Char)
  /-- Text that an exception rules out is present. -/
  | excludedText (text : List Char)
  /-- A parsed value, as shown, is not acceptable. -/
  | rejected (shown : Thunk String)
  | custom (text : String)
deriving DecidableEq

namespace Message

def render : Message → String
  | expected description (some found) =>
    "expected " ++ description ++ ", found '" ++ String.ofList [found] ++ "'"
  | expected description none => "unexpected end of input, expected " ++ description
  | unexpectedText text => "unexpected '" ++ String.ofList text ++ "'"
  | excludedText text => "excluded '" ++ String.ofList text ++ "' found"
  | rejected shown => "unexpected " ++ shown.get
  | custom text => text

end Message

/-- Where matching stopped, why, and what would have been accepted there. -/
structure Failure where
  failedAt : Cursor
  message : Message
  expectations : Labels
deriving DecidableEq

namespace Failure

/-- A failure that expects nothing in particular. -/
def plain (failedAt : Cursor) (message : Message) : Failure := ⟨failedAt, message, ∅⟩

def position (f : Failure) : Nat := f.failedAt.position

def withExpectation (f : Failure) (label : String) : Failure :=
  { f with expectations := f.expectations.insert label }

def expecting (f : Failure) (labels : Labels) : Failure := { f with expectations := labels }

def relocate (f : Failure) (c : Cursor) : Failure := { f with failedAt := c }

def moved (g : Cursor → Cursor) (f : Failure) : Failure := f.relocate (g f.failedAt)

/-- Adds what another alternative at the same place would have accepted. -/
def merge (f other : Failure) : Failure :=
  { f with expectations := f.expectations ∪ other.expectations }

/-- The list of labels as it follows a message. -/
def describeLabels (labels : List String) : String :=
  if labels.isEmpty then "" else "; expected " ++ " or ".intercalate labels

def display (f : Failure) : String :=
  f.message.render ++ describeLabels f.expectations.toList ++
    " (position " ++ toString f.position ++ ")"

end Failure

inductive Outcome (α : Type)
  | success (value : α) (remainder : Cursor)
  | failure (f : Failure)
deriving DecidableEq

namespace Outcome

variable {α β : Type}

def isSuccess : Outcome α → Bool
  | success _ _ => true
  | failure _ => false

def value? : Outcome α → Option α
  | success v _ => some v
  | failure _ => none

/-- The remainder of a success, or the place of a failure. -/
def cursor : Outcome α → Cursor
  | success _ remainder => remainder
  | failure f => f.failedAt

/-- The outcome at another cursor. -/
def moved (g : Cursor → Cursor) : Outcome α → Outcome α
  | success v remainder => success v (g remainder)
  | failure f => failure (f.moved g)

def map (g : α → β) : Outcome α → Outcome β
  | success v remainder => success (g v) remainder
  | failure f => failure f

@[simp] theorem map_success (g : α → β) (v : α) (r : Cursor) :
    (success v r).map g = success (g v) r := rfl

@[simp] theorem map_failure (g : α → β) (f : Failure) : (failure f).map g = failure f := rfl

end Outcome
end Descent
