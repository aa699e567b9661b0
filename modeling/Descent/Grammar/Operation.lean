import Descent.Parser.Chain
import Descent.Parser.Choice
import Descent.Parser.Repetition
import Descent.Value.Operations
import Descent.Value.Shown

/-!
Operations of grammars over dynamic values: what stands at a leaf, and what is done to one parser
or to two. Each operation is a combinator of typed parsers with its values wrapped and unwrapped.
-/

namespace Descent

/-- A parser that is given as a function of the cursor. The table of a cursor is kept from such a
function: what it comes to is over the table that it was given, or over tables that are numbered
after it, in any numbering. -/
structure Closure where
  run : Cursor → Outcome Value
  blind : ∀ (k : Nat) (c : Cursor), run (c.raise k) = (run c).moved (Cursor.raise k)

instance : CoeFun Closure fun _ => Cursor → Outcome Value := ⟨Closure.run⟩

/-- A parser without parts. -/
inductive Atom
  | satisfy (k : CharClass)
  | literal (s : String)
  | endOfInput
  | value (v : Value)
  | custom (f : Closure)

/-- What is done to one parser. -/
inductive Unary
  | many
  | atLeastOnce
  | once
  | text
  | attempt
  | not
  | optional
  | named (label : String)
  | token
  | complete
  | withSpan
  | giving (w : Value)
  | map (f : Value → Value)
  | filter (test : Value → Bool)
  | peek

/-- What is done to two parsers. A chain has its operator first and its operand second, and an
exception has the excluded parser second. -/
inductive Binary
  | both
  | ignoreThen
  | thenIgnore
  | concat
  | or
  | xor
  | except
  | separatedBy
  | chainLeft (apply : Value → Value → Value → Value)
  | chainRight (apply : Value → Value → Value → Value)
  | recover

variable {σ : Type}

def Atom.run : Atom → Parser σ Value
  | satisfy k => (Parser.satisfy k).map .char
  | literal s => (Parser.literal s).map .str
  | endOfInput => Parser.endOfInput.map fun _ => .unit
  | value v => Parser.succeed v
  | custom f => Parser.ofFunction f

def Unary.run (fuel : Nat) (p : Parser σ Value) : Unary → Parser σ Value
  | many => (Parser.many fuel p).map .list
  | atLeastOnce => (Parser.atLeastOnce fuel p).map .list
  | once => p.once.map .list
  | text => (Parser.text (p.map Value.flat)).map .str
  | attempt => p.attempt
  | not => p.not.map fun _ => .unit
  | optional => p.optional.map .ofOption
  | named label => p.named label
  | token => p.token fuel
  | complete => p.complete
  | withSpan => p.withSpan.map fun (v, s) => .pair v (.span s)
  | giving w => p.giving w
  | map f => p.map f
  | filter test => p.filter Value.shown test
  | peek => p.peek

def Binary.run (fuel : Nat) (p q : Parser σ Value) : Binary → Parser σ Value
  | both => (p.both q).map .ofPair
  | ignoreThen => p.ignoreThen q
  | thenIgnore => p.thenIgnore q
  | concat => (Parser.concat (p.map Value.items) (q.map Value.items)).map .list
  | or => p.or q
  | xor => p.xor q
  | except => p.except q
  | separatedBy => (p.separatedBy fuel q).map .list
  | chainLeft apply => p.chainLeft fuel q apply
  | chainRight apply => p.chainRight fuel q apply
  | recover => p.recover q

end Descent
