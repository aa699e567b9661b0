import Descent.CharSet.Classes
import Descent.Value.Basic

/-!
Operations on dynamic values. All are total: a value of another kind than an operation is meant for
is read as the nearest one of that kind, for instance a value without items as the empty list.
-/

namespace Descent.Value

def ofOption : Option Value → Value
  | .none => none
  | .some v => some v

def ofPair (p : Value × Value) : Value := pair p.1 p.2

def flatText (v : Value) : String := .ofList v.flat

def items : Value → List Value
  | list xs => xs
  | _ => []

def intValue : Value → Int64
  | int n => n
  | _ => 0

def first : Value → Value
  | pair left _ => left
  | _ => unit

def second : Value → Value
  | pair _ right => right
  | _ => unit

def swapped (v : Value) : Value := pair v.second v.first

def cons (v : Value) : Value := list (v.first :: v.second.items)

def snoc (v : Value) : Value := list (v.first.items ++ [v.second])

def unwrapOr (v default : Value) : Value :=
  match v with
  | some content => content
  | none => default
  | _ => v

/-- Number of items of a list, or else of characters in the text of the value. -/
def size : Value → Nat
  | list xs => xs.length
  | v => v.flat.length

def naturalOf? (digits : List Char) : Option Nat :=
  if digits.isEmpty || !digits.all CharSet.isDigit then .none
  else .some (digits.foldl (fun n d => n * 10 + (d.toNat - '0'.toNat)) 0)

/-- The number that decimal digits stand for, with an optional plus sign before them. -/
def unsignedOf? : List Char → Option Nat
  | '+' :: digits => naturalOf? digits
  | digits => naturalOf? digits

/-- The integer that a text stands for, with an optional sign, if 64 bits can hold it. -/
def integerOf? (text : List Char) : Option Int64 := do
  let n : Int ← match text with
    | '-' :: digits => (naturalOf? digits).map fun n => -(n : Int)
    | text => (unsignedOf? text).map fun n => (n : Int)
  if Int64.minValue.toInt ≤ n ∧ n ≤ Int64.maxValue.toInt then .some (Int64.ofInt n) else .none

def toInteger (v : Value) : Int64 := (integerOf? v.flat).getD 0

/-- The number of repetitions that the text of the value asks for, or zero if the text is no number
or one that 64 bits cannot hold. -/
def toCount (v : Value) : Nat :=
  match unsignedOf? v.flat with
  | .some n => if n < UInt64.size then n else 0
  | .none => 0

def leadingDigit (v : Value) : Option Int64 :=
  match v.flat with
  | d :: _ => if CharSet.isDigit d then .some (.ofNat (d.toNat - '0'.toNat)) else .none
  | [] => .none

def occursIn (part : List Char) : List Char → Bool
  | [] => part.isEmpty
  | c :: rest => part.isPrefixOf (c :: rest) || occursIn part rest

/-- The product of `n` factors, modulo two to the power of 64. -/
def power (base : Int64) : Nat → Int64
  | 0 => 1
  | n + 1 => power base n * base

def largestExponent : Int64 := 64

/-- Arithmetic modulo two to the power of 64. Division drops the fraction and gives zero if the
divisor is zero; exponents are brought into the range from zero to `largestExponent`. -/
def arithmetic (operator : List Char) (l r : Int64) : Int64 :=
  match operator with
  | ['+'] => l + r
  | ['-'] => l - r
  | ['*'] => l * r
  | ['/'] => l / r
  | ['^'] => power l (min (max r 0) largestExponent).toNatClampNeg
  | _ => 0

def trimmed (text : List Char) : List Char :=
  ((text.dropWhile CharSet.isWhitespace).reverse.dropWhile CharSet.isWhitespace).reverse

end Descent.Value
