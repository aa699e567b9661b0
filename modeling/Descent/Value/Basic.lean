import Descent.Span

/-!
Values of parsers over one dynamic type, and the text inside a value.
Main statements: equality of values is decidable, and the text of a list or a pair is that of its
parts in order.
-/

namespace Descent

inductive Value
  | unit
  | bool (b : Bool)
  | int (n : Int64)
  | char (c : Char)
  | str (s : String)
  | list (items : List Value)
  | pair (left right : Value)
  | none
  | some (content : Value)
  /-- A value marked with a name, as a node of a tree. -/
  | tagged (name : String) (content : Value)
  | span (s : Span)

namespace Value

mutual

/-- Equality of kind and content. -/
def same : Value → Value → Bool
  | unit, unit => true
  | bool a, bool b => a == b
  | int m, int n => m == n
  | char c, char d => c == d
  | str s, str t => s == t
  | list xs, list ys => sameAll xs ys
  | pair a b, pair c d => same a c && same b d
  | none, none => true
  | some a, some b => same a b
  | tagged m a, tagged n b => m == n && same a b
  | span s, span t => s == t
  | _, _ => false

def sameAll : List Value → List Value → Bool
  | [], [] => true
  | a :: xs, b :: ys => same a b && sameAll xs ys
  | _, _ => false

end

mutual

theorem same_iff : ∀ a b : Value, same a b = true ↔ a = b
  | unit, b => by cases b <;> simp [same]
  | bool _, b => by cases b <;> simp [same]
  | int _, b => by cases b <;> simp [same]
  | char _, b => by cases b <;> simp [same]
  | str _, b => by cases b <;> simp [same]
  | list xs, b => by cases b <;> simp [same, sameAll_iff xs]
  | pair x y, b => by cases b <;> simp [same, same_iff x, same_iff y]
  | none, b => by cases b <;> simp [same]
  | some x, b => by cases b <;> simp [same, same_iff x]
  | tagged _ x, b => by cases b <;> simp [same, same_iff x]
  | span _, b => by cases b <;> simp [same]

theorem sameAll_iff : ∀ xs ys : List Value, sameAll xs ys = true ↔ xs = ys
  | [], ys => by cases ys <;> simp [sameAll]
  | x :: xs, ys => by cases ys <;> simp [sameAll, same_iff x, sameAll_iff xs]

end

instance : DecidableEq Value := fun a b => decidable_of_iff _ (same_iff a b)

mutual

/-- The text inside a value: nothing for the unit and for an absent value, and for the others the
text of their parts in order, without names and brackets. -/
def flat : Value → List Char
  | unit => []
  | bool b => (if b then "true" else "false").toList
  | int n => (toString n.toInt).toList
  | char c => [c]
  | str s => s.toList
  | list items => flatAll items
  | pair left right => flat left ++ flat right
  | none => []
  | some content => flat content
  | tagged _ content => flat content
  | span s => s.text

def flatAll : List Value → List Char
  | [] => []
  | v :: rest => flat v ++ flatAll rest

end

theorem flatAll_append (xs ys : List Value) : flatAll (xs ++ ys) = flatAll xs ++ flatAll ys := by
  induction xs with
  | nil => rfl
  | cons v rest ih => simp [flatAll, ih]

theorem flat_list (items : List Value) : flat (list items) = items.flatMap flat := by
  rw [flat]
  induction items with
  | nil => rfl
  | cons v rest ih => simp [flatAll, ih]

end Value
end Descent
