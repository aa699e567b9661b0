import Descent.CharSet.Classes
import Descent.Parser.Basic

/-!
Parsers of single characters, of fixed strings and of the end of the input.
-/

namespace Descent

/-- A set of characters with the words that failures name it by. -/
structure CharClass where
  test : Char → Bool
  description : String

/-- A text between apostrophes, as labels show it. -/
def enquote (text : String) : String := "'" ++ text ++ "'"

namespace CharClass

def exactly (x : Char) : CharClass := ⟨(· == x), enquote (.ofList [x])⟩

def any : CharClass := ⟨fun _ => true, "any character"⟩

def whitespace : CharClass := ⟨CharSet.isWhitespace, "whitespace"⟩

def digit : CharClass := ⟨CharSet.isDigit, "digit"⟩

def letter : CharClass := ⟨CharSet.isLetter, "letter"⟩

def letterOrDigit : CharClass := ⟨CharSet.isLetterOrDigit, "letter or digit"⟩

def lower : CharClass := ⟨CharSet.isLower, "lowercase letter"⟩

def upper : CharClass := ⟨CharSet.isUpper, "uppercase letter"⟩

def numeric : CharClass := ⟨CharSet.isNumeric, "numeric character"⟩

end CharClass

namespace Parser

variable {σ : Type}

/-- Consumes one character of the class. -/
def satisfy (k : CharClass) : Parser σ Char := fun c =>
  let failed found := .failure
    ((Failure.plain c (.expected k.description found)).withExpectation k.description)
  match c.next? with
  | some (x, d) => if k.test x then return .success x d else return failed (some x)
  | none => return failed none

def char (x : Char) : Parser σ Char := satisfy (.exactly x)

def whitespace : Parser σ Char := satisfy .whitespace

/-- The given characters, one after the other. -/
def chars : List Char → Parser σ Unit
  | [] => succeed ()
  | x :: rest => (char x).andThen fun _ => chars rest

/-- Exactly the text `s`. A mismatch at its first character expects the whole of `s`; a later one
expects the character that is missing. -/
def literal (s : String) : Parser σ String := fun c => do
  match ← chars s.toList c with
  | .success _ r => return .success s r
  | .failure e =>
    if e.position = c.position then return .failure (e.expecting {enquote s})
    else return .failure e

/-- Succeeds only where no input is left. -/
def endOfInput : Parser σ Unit := fun c =>
  match c.next? with
  | none => return .success () c
  | some (x, _) =>
    return .failure ((Failure.plain c (.unexpectedText [x])).withExpectation "end of input")

end Parser
end Descent
