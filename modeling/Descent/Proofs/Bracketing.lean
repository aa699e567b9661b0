import Descent.Proofs.Pairs

/-!
What chains read, and how they bracket it.
Main statement: chains that group from the left and from the right read the same operands and
operators, each of them once and in the order of the input. The values of the two are those of the
brackets that lean to the left and of the brackets that lean to the right, or both chains come to
the same failure or to the same halt.
-/

namespace Descent

/-- Operands joined by operators, with brackets. -/
inductive Bracketing (α β : Type)
  | operand (x : α)
  | joined (o : β) (left right : Bracketing α β)

namespace Bracketing

variable {α β : Type}

def value (apply : β → α → α → α) : Bracketing α β → α
  | operand x => x
  | joined o left right => apply o (left.value apply) (right.value apply)

/-- What is read when the brackets are left out: a first operand, and the operators behind it in
order, each with the operand that follows it. -/
def fringe : Bracketing α β → α × List (β × α)
  | operand x => (x, [])
  | joined o left right => (left.fringe.1, left.fringe.2 ++ (o, right.fringe.1) :: right.fringe.2)

/-- The operands from left to right. -/
def operands (e : Bracketing α β) : List α := e.fringe.1 :: e.fringe.2.map Prod.snd

/-- On the right of every operator there is a single operand. -/
inductive LeansLeft : Bracketing α β → Prop
  | operand (x : α) : LeansLeft (operand x)
  | joined {left : Bracketing α β} (o : β) (leans : LeansLeft left) (x : α) :
    LeansLeft (joined o left (operand x))

/-- On the left of every operator there is a single operand. -/
inductive LeansRight : Bracketing α β → Prop
  | operand (x : α) : LeansRight (operand x)
  | joined {right : Bracketing α β} (o : β) (x : α) (leans : LeansRight right) :
    LeansRight (joined o (operand x) right)

variable (apply : β → α → α → α)

/-- Pairs behind brackets that lean to the left are taken in one after the other. -/
theorem exists_leansLeft_append {e : Bracketing α β} (leans : e.LeansLeft)
    (pairs : List (β × α)) :
    ∃ e' : Bracketing α β, e'.LeansLeft ∧ e'.fringe = (e.fringe.1, e.fringe.2 ++ pairs) ∧
      e'.value apply = Parser.groupLeft apply (e.value apply) pairs := by
  induction pairs generalizing e with
  | nil => exact ⟨e, leans, by rw [List.append_nil], rfl⟩
  | cons pair pairs ih =>
    obtain ⟨o, x⟩ := pair
    obtain ⟨e', leans', fringe, value⟩ := ih (leans.joined o x)
    refine ⟨e', leans', ?_, value⟩
    rw [fringe]
    simp only [Bracketing.fringe, List.append_assoc, List.cons_append, List.nil_append]

theorem exists_leansLeft (x : α) (pairs : List (β × α)) :
    ∃ e : Bracketing α β, e.LeansLeft ∧ e.fringe = (x, pairs) ∧
      e.value apply = Parser.groupLeft apply x pairs :=
  exists_leansLeft_append apply (.operand x) pairs

theorem exists_leansRight (x : α) (pairs : List (β × α)) :
    ∃ e : Bracketing α β, e.LeansRight ∧ e.fringe = (x, pairs) ∧
      e.value apply = Parser.groupRight apply x pairs := by
  induction pairs generalizing x with
  | nil => exact ⟨operand x, .operand x, rfl, rfl⟩
  | cons pair pairs ih =>
    obtain ⟨o, y⟩ := pair
    obtain ⟨e, leans, fringe, value⟩ := ih y
    refine ⟨joined o (operand x) e, .joined o x leans, ?_, ?_⟩
    · rw [Bracketing.fringe, fringe]
      rfl
    · exact congrArg (apply o x) value

end Bracketing

namespace Parser

variable {σ α β γ δ : Type}

section Carrying

variable (apply : β → α → α → α)

/-- Brings the pair before in: its operand becomes the left one of the operator that waits, and its
operator waits for the operand before it. -/
def carry (waiting before : β × α) : β × α := (before.1, apply waiting.1 before.2 waiting.2)

/-- Grouping from the right, begun at the last pair, whose operator is carried to the operand before
it. -/
def groupBack (first : α) (pairs : List (β × α)) : α :=
  match pairs.reverse with
  | [] => first
  | last :: before =>
    let waiting := before.foldl (carry apply) last
    apply waiting.1 first waiting.2

/-- When all pairs have been brought in, the first operator waits, and all behind it is grouped. -/
theorem foldl_carry (pair : β × α) (pairs : List (β × α)) {last : β × α} {before : List (β × α)}
    (backward : (pair :: pairs).reverse = last :: before) :
    before.foldl (carry apply) last = (pair.1, groupRight apply pair.2 pairs) := by
  induction pairs generalizing pair before with
  | nil =>
    cases backward
    rfl
  | cons next pairs ih =>
    obtain ⟨last', before', rest⟩ : ∃ last' before', (next :: pairs).reverse = last' :: before' :=
      List.exists_cons_of_ne_nil (by simp)
    rw [List.reverse_cons, rest, List.cons_append] at backward
    obtain ⟨rfl, rfl⟩ := List.cons.inj backward
    rw [List.foldl_append, ih next rest]
    rfl

theorem groupBack_eq (first : α) (pairs : List (β × α)) :
    groupBack apply first pairs = groupRight apply first pairs := by
  cases pairs with
  | nil => rfl
  | cons pair pairs =>
    obtain ⟨last, before, backward⟩ : ∃ last before, (pair :: pairs).reverse = last :: before :=
      List.exists_cons_of_ne_nil (by simp)
    simp only [groupBack, backward, foldl_carry apply pair pairs backward]
    rfl

end Carrying

/-- Two results that are the same halt, the same failure, or matches with the same remainder and
with values that belong together. -/
inductive Coincide (related : α → β → Cursor → σ → Prop) :
    Except Halt (Outcome α) × σ → Except Halt (Outcome β) × σ → Prop
  | halted (e : Halt) (u : σ) : Coincide related (.error e, u) (.error e, u)
  | failed (f : Failure) (u : σ) : Coincide related (.ok (.failure f), u) (.ok (.failure f), u)
  | matched {v : α} {w : β} {r : Cursor} {u : σ} (belong : related v w r u) :
    Coincide related (.ok (.success v r), u) (.ok (.success w r), u)

/-- Two mappings of one run. -/
theorem coincide_map {p : Parser σ γ} {c : Cursor} {s : σ} {f : γ → α} {g : γ → β}
    {related : α → β → Cursor → σ → Prop}
    (belong : ∀ v r u, p c s = (.ok (.success v r), u) → related (f v) (g v) r u) :
    Coincide related (p.map f c s) (p.map g c s) := by
  rcases run : p c s with ⟨e | ⟨v, r⟩ | e, u⟩
  · rw [map_of_error run, map_of_error run]
    exact .halted e u
  · rw [map_of_ok run, map_of_ok run]
    exact .matched (belong v r u run)
  · rw [map_of_ok run, map_of_ok run]
    exact .failed e u

/-- Chains that group from the left and from the right read alike. They come to the same halt, to
the same failure, or to matches with the same remainder. In a match, both have read the same
operands and operators in order, up to where no further pair follows. The value of the first chain
is that of brackets around them that lean to the left. The value of the second is that of brackets
that lean to the right, and grouping that goes back from the last pair has it as well. They match
exactly where there are operands and operators to read, with fuel for as many rounds. -/
theorem chains_read_alike (operator : Parser σ β) (operand : Parser σ α) (apply : β → α → α → α)
    (n : Nat) (c : Cursor) (s : σ) :
    Coincide
        (fun v w r u => ∃ left right : Bracketing α β,
          ReadsChain operator operand c s left.fringe r u ∧ right.fringe = left.fringe ∧
            left.LeansLeft ∧ right.LeansRight ∧ v = left.value apply ∧ w = right.value apply ∧
            w = groupBack apply right.fringe.1 right.fringe.2)
        (chainLeft n operator operand apply c s) (chainRight n operator operand apply c s) ∧
      ∀ r u, (∃ v, chainLeft n operator operand apply c s = (.ok (.success v r), u)) ↔
        ∃ e, e.2.length < n ∧ ReadsChain operator operand c s e r u := by
  constructor
  · refine coincide_map fun (x, pairs) r u matched => ?_
    obtain ⟨left, leansLeft, fringeLeft, valueLeft⟩ := Bracketing.exists_leansLeft apply x pairs
    obtain ⟨right, leansRight, fringeRight, valueRight⟩ :=
      Bracketing.exists_leansRight apply x pairs
    obtain ⟨-, reads⟩ := chain_eq_success_iff.mp matched
    rw [← fringeLeft] at reads
    refine ⟨left, right, reads, fringeRight.trans fringeLeft.symm, leansLeft, leansRight,
      valueLeft.symm, valueRight.symm, ?_⟩
    rw [fringeRight, groupBack_eq]
  · intro r u
    constructor
    · rintro ⟨v, matched⟩
      obtain ⟨e, read, -⟩ := map_eq_success_iff.mp matched
      exact ⟨e, chain_eq_success_iff.mp read⟩
    · rintro ⟨e, read⟩
      exact ⟨_, map_of_ok (chain_eq_success_iff.mpr read)⟩

/-- The same digits and signs, with brackets on either side. -/
example :
    let digit : Parser Unit (Bracketing Char Char) := (satisfy .digit).map .operand
    let sign : Parser Unit Char := char '-'
    let c := Cursor.start ['8', '-', '3', '-', '2']
    let r : Cursor := ⟨['2', '-', '3', '-', '8'], [], 0⟩
    chainLeft 3 sign digit .joined c () =
        (.ok (.success (.joined '-' (.joined '-' (.operand '8') (.operand '3')) (.operand '2')) r),
          ()) ∧
      chainRight 3 sign digit .joined c () =
        (.ok (.success (.joined '-' (.operand '8') (.joined '-' (.operand '3') (.operand '2'))) r),
          ()) :=
  ⟨rfl, rfl⟩

end Parser
end Descent
