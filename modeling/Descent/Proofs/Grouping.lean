import Descent.Proofs.Forward
import Descent.Proofs.Fuel
import Descent.Proofs.Pairs
import Descent.Proofs.Repeatability

/-!
Chains and recursive definitions of them. A recursive definition tries an operator, an operand and
itself, and falls back to what it has where this fails without consuming input.
Main statements: where the recursive definition comes to its end, the loop of the chain comes to the
same; where a pair of operator and operand consumes nothing, the recursive definition does not come
to its end, and the loop stops before the pair.
-/

namespace Descent

open Cursor (Reaches)

namespace Parser

variable {σ α β : Type}

/-- How the value that a recursive definition has got and the value of the rest go together. -/
structure Grouping (α β : Type) where
  /-- What the rest begins with, after an operator and an operand. -/
  begins : β → α → α → α
  /-- What is made of the value of the rest. -/
  ends : β → α → α → α

namespace Grouping

def left (apply : β → α → α → α) : Grouping α β := ⟨apply, fun _ _ y => y⟩

def right (apply : β → α → α → α) : Grouping α β := ⟨fun _ _ x => x, apply⟩

end Grouping

section Recursion

variable (operator : Parser σ β) (operand : Parser σ α)

end Recursion

/-- A parser that also stays in the text and over its table. -/
structure Regular (view : Halt → Halt) (I : σ → Prop) (p : Parser σ α) : Prop
    extends p.Replays view I where
  stays : ∀ c s o, I s → (p c s).1 = .ok o → o.cursor.source = c.source ∧ o.cursor.table = c.table

variable {operator : Parser σ β} {operand : Parser σ α} {view : Halt → Halt} {I : σ → Prop}
  {c r : Cursor} {s t u v : σ}

section Pair

variable {o : β} {x : α} (run : operator.both operand c s = (.ok (.success (o, x) r), t))
  (G : Grouping α β) (n : Nat) (a : α)
include run

end Pair

section Regular

variable (hop : operator.Regular view I) (hx : operand.Regular view I)
include hop hx

end Regular

end Parser

/-- What becomes of a forward store while the parsers of a world are used. -/
def World.Onward (w : World) (s : Store) : Prop :=
  s.Within .forward ∧ s.active = w.store.active ∧ ∃ w' : World, w.History w' ∧ w'.store = s

theorem World.Hosts.agrees_onward {w : World} {ts : List Term} (hosts : w.Hosts ts) {t : Term}
    (mem : t ∈ ts) (n : Nat) (c : Cursor) {s u : Store} (before : w.Onward s) (after : w.Onward u) :
    (t.parse n c u).1.mapError Halt.unnumbered = (t.parse n c s).1.mapError Halt.unnumbered := by
  have first (v : Store) (onward : w.Onward v) : (t.parse n c v).1.mapError Halt.unnumbered =
      (t.parse n c w.store).1.mapError Halt.unnumbered := by
    obtain ⟨-, active, w', history, rfl⟩ := onward
    exact hosts.parse_agrees mem history active n c
  exact (first u after).trans (first s before).symm

/-- A forward parser of a world comes to the same again whatever has been done with it, up to the
numbering of rules. -/
theorem World.Hosts.regular {w : World} {ts : List Term} (hosts : w.Hosts ts) {t : Term}
    (mem : t ∈ ts) (inside : t.Within .forward) (n : Nat) :
    (t.parse n).Regular Halt.unnumbered w.Onward where
  keeps c s onward := by
    obtain ⟨within, active, w₁, history, rfl⟩ := onward
    have known := World.known_later history.later (hosts.known t mem)
    obtain ⟨w₂, history₂, store, -⟩ := Term.parse_evolves n known c trivial 0 w₁ w₁.le_refl
    exact ⟨(t.parse_ranges n inside c within).1, (t.active_of_parse n c _).trans active, w₂,
      history.trans history₂, store.symm⟩
  onward c s o onward run := ((t.parse_ranges n inside c onward.1).2.1 o run).onward
  repeats c _ _ before after := hosts.agrees_onward mem n c before after
  stays c s o onward run := by
    have reached := (t.parse_ranges n inside c onward.1).2.1 o run
    exact ⟨reached.source, reached.table⟩

end Descent
