import Descent.Parser.Choice
import Descent.Parser.Repetition

/-!
Parsers whose values account for the text that was consumed, in any logic of single runs that goes
through sequencing.
Main statements: one rule for each combinator, among them that of a repetition, whose text falls
into pieces.
-/

namespace Descent

/-- What may be known of what a run yields. A sequence is judged by the judgements of its parts,
where what is known of the first one is a premise of what is known in the end. -/
structure RunLogic (σ : Type) where
  Holds : {α : Type} → Step σ α → (α → Prop) → Prop
  weaken : ∀ {α : Type} {x : Step σ α} {P Q : α → Prop}, Holds x P → (∀ a, P a → Q a) → Holds x Q
  pure : ∀ {α : Type} {a : α} {P : α → Prop}, P a → Holds (Pure.pure a) P
  halt : ∀ {α : Type} (e : Halt) {P : α → Prop}, Holds (throw e) P
  bind : ∀ {α β : Type} {x : Step σ α} {f : α → Step σ β} {P : α → Prop} {Q : β → Prop},
    Holds x P → (∀ a, Holds (f a) fun b => P a → Q b) → Holds (x >>= f) Q

namespace RunLogic

variable {σ α β : Type} (L : RunLogic σ)

/-- A run that goes on by the outcome of a parser. -/
theorem of_outcome {x : Step σ (Outcome α)} {f : Outcome α → Step σ β} {P : Outcome α → Prop}
    {Q : β → Prop} (hx : L.Holds x P)
    (success : ∀ v r, L.Holds (f (.success v r)) fun b => P (.success v r) → Q b)
    (failure : ∀ e, L.Holds (f (.failure e)) fun b => P (.failure e) → Q b) :
    L.Holds (x >>= f) Q := by
  refine L.bind hx ?_
  rintro (⟨v, r⟩ | e)
  · exact success v r
  · exact failure e

theorem of_test {p : Prop} [Decidable p] {x y : Step σ α} {P : α → Prop}
    (yes : p → L.Holds x P) (no : ¬ p → L.Holds y P) : L.Holds (if p then x else y) P := by
  by_cases h : p
  · rw [if_pos h]
    exact yes h
  · rw [if_neg h]
    exact no h

end RunLogic

/-- What a value may be said to stand for: the text that was consumed, before the text behind it. -/
abbrev Standing (α : Type) := α → List Char → List Char → Prop

/-- A value that is had stands for the text up to the remainder. -/
inductive Accounts {α : Type} (stands : Standing α) (c : Cursor) : Outcome α → Prop
  | success {v : α} {text : List Char} {r : Cursor} (whole : c.rest = text ++ r.rest)
    (value : stands v text r.rest) : Accounts stands c (.success v r)
  | failure (f : Failure) : Accounts stands c (.failure f)

/-- In a sequence the texts of both parts stand one after the other. -/
theorem Accounts.sequence {α β : Type} {stands : Standing α} {stands' : Standing β} {c d : Cursor}
    {v : α} {o : Outcome β} (first : Accounts stands c (.success v d))
    (second : Accounts (fun w text rest => ∀ before, stands v before (text ++ rest) →
      stands' w (before ++ text) rest) d o) : Accounts stands' c o := by
  cases first with
  | success whole value =>
    cases second with
    | failure f => exact .failure f
    | success whole' value' =>
      rw [whole'] at whole value
      exact .success (by rw [whole, List.append_assoc]) (value' _ value)

/-- A parser whose values stand for the texts that it consumes. -/
def Accounted {σ α : Type} (L : RunLogic σ) (stands : Standing α) (p : Parser σ α) : Prop :=
  ∀ c, L.Holds (p c) (Accounts stands c)

/-- A text in pieces, each with its value. -/
inductive Pieces {α : Type} (stands : Standing α) : List α → List Char → List Char → Prop
  | nil {rest : List Char} : Pieces stands [] [] rest
  | cons {v : α} {vs : List α} {text more rest : List Char} (first : stands v text (more ++ rest))
    (others : Pieces stands vs more rest) : Pieces stands (v :: vs) (text ++ more) rest

namespace Accounted

variable {σ α β : Type} {L : RunLogic σ} {stands : Standing α} {stands' : Standing β}
  {p : Parser σ α} {q : Parser σ β}

theorem of_value {P : Standing α} (hp : Accounted L stands p)
    (imp : ∀ v text rest, stands v text rest → P v text rest) : Accounted L P p := by
  refine fun c => L.weaken (hp c) fun o accounts => ?_
  cases accounts with
  | success whole value => exact .success whole (imp _ _ _ value)
  | failure f => exact .failure f

theorem succeed {v : α} (h : ∀ rest, stands v [] rest) : Accounted L stands (Parser.succeed v) :=
  fun _ => L.pure (.success rfl (h _))

theorem map (g : α → β) (hp : Accounted L stands p)
    (imp : ∀ v text rest, stands v text rest → stands' (g v) text rest) :
    Accounted L stands' (p.map g) := by
  refine fun c => L.of_outcome (hp c) (fun v d => L.pure fun first => ?_)
    fun x => L.pure fun _ => .failure x
  cases first with
  | success whole value => exact .success whole (imp _ _ _ value)

/-- What is known of a value before it is mapped. -/
theorem image (g : α → β) (hp : Accounted L stands p) :
    Accounted L (fun w text rest => ∃ v, w = g v ∧ stands v text rest) (p.map g) :=
  hp.map g fun v _ _ value => ⟨v, rfl, value⟩

theorem andThen {next : α → Parser σ β} (hp : Accounted L stands p)
    (hnext : ∀ v, Accounted L (fun w text rest => ∀ before, stands v before (text ++ rest) →
      stands' w (before ++ text) rest) (next v)) : Accounted L stands' (p.andThen next) :=
  fun c => L.of_outcome (hp c) (fun v d => L.weaken (hnext v d) fun _ second first =>
    first.sequence second) fun x => L.pure fun _ => .failure x

theorem satisfy (k : CharClass) :
    Accounted L (fun x text _ => text = [x] ∧ k.test x = true) (Parser.satisfy k) := by
  intro c
  cases found : c.next? with
  | none =>
    simp only [Parser.satisfy, found]
    exact L.pure (.failure _)
  | some next =>
    simp only [Parser.satisfy, found]
    exact L.of_test (fun matched => L.pure (.success (Cursor.rest_of_next? found) ⟨rfl, matched⟩))
      fun _ => L.pure (.failure _)

theorem chars (xs : List Char) : Accounted L (fun _ text _ => text = xs) (Parser.chars xs) := by
  induction xs with
  | nil => exact succeed fun _ => rfl
  | cons x rest ih =>
    refine andThen (satisfy (.exactly x)) fun y => ih.of_value ?_
    rintro _ _ _ rfl _ ⟨rfl, same⟩
    rw [beq_iff_eq.mp same]
    rfl

theorem literal (s : String) :
    Accounted L (fun v text _ => text = v.toList) (Parser.literal s) := by
  refine fun c => L.of_outcome (chars s.toList c) (fun _ d => L.pure fun first => ?_)
    fun x => L.of_test (fun _ => L.pure fun _ => .failure _) fun _ => L.pure fun _ => .failure _
  cases first with
  | success whole value =>
    cases value
    exact .success whole rfl

theorem endOfInput :
    Accounted L (fun _ text rest => text = [] ∧ rest = []) (Parser.endOfInput (σ := σ)) := by
  intro c
  cases found : c.next? with
  | none =>
    simp only [Parser.endOfInput, found]
    exact L.pure (.success (List.nil_append c.rest).symm ⟨rfl, Cursor.rest_of_next?_none found⟩)
  | some next =>
    simp only [Parser.endOfInput, found]
    exact L.pure (.failure _)

theorem complete (hp : Accounted L stands p) :
    Accounted L (fun v text rest => rest = [] ∧ stands v text []) p.complete := by
  refine andThen hp fun v => endOfInput.map (fun _ => v) ?_
  rintro _ _ _ ⟨rfl, rfl⟩ before value
  rw [List.append_nil]
  exact ⟨rfl, value⟩

theorem both (hp : Accounted L stands p) (hq : Accounted L stands' q) :
    Accounted L (fun v text rest => ∃ first second, text = first ++ second ∧
      stands v.1 first (second ++ rest) ∧ stands' v.2 second rest) (p.both q) := by
  refine andThen hp fun v => hq.map (v, ·) ?_
  exact fun w second rest value first value' => ⟨first, second, rfl, value', value⟩

theorem ignoreThen (hp : Accounted L stands p) (hq : Accounted L stands' q) :
    Accounted L (fun w text rest => ∃ v first second, text = first ++ second ∧
      stands v first (second ++ rest) ∧ stands' w second rest) (p.ignoreThen q) :=
  andThen hp fun v => hq.of_value fun _ second _ value first value' =>
    ⟨v, first, second, rfl, value', value⟩

theorem thenIgnore (hp : Accounted L stands p) (hq : Accounted L stands' q) :
    Accounted L (fun v text rest => ∃ w first second, text = first ++ second ∧
      stands v first (second ++ rest) ∧ stands' w second rest) (p.thenIgnore q) := by
  refine andThen hp fun v => hq.map (fun _ => v) ?_
  exact fun w second rest value first value' => ⟨w, first, second, rfl, value', value⟩

theorem concat {p q : Parser σ (List α)} {stands stands' : Standing (List α)}
    (hp : Accounted L stands p) (hq : Accounted L stands' q) :
    Accounted L (fun vs text rest => ∃ xs ys first second, vs = xs ++ ys ∧ text = first ++ second ∧
      stands xs first (second ++ rest) ∧ stands' ys second rest) (p.concat q) := by
  refine fun c => L.of_outcome (hp c)
    (fun xs d => L.weaken (hq.map (xs ++ ·) ?_ d) fun _ second first => first.sequence second)
    fun x => L.pure fun _ => .failure x
  exact fun ys second rest value first value' => ⟨xs, ys, first, second, rfl, rfl, value', value⟩

theorem attempt (hp : Accounted L stands p) : Accounted L stands p.attempt :=
  fun c => L.of_outcome (hp c) (fun _ _ => L.pure fun accounts => accounts)
    fun _ => L.pure fun _ => .failure _

theorem named (label : String) (hp : Accounted L stands p) : Accounted L stands (p.named label) :=
  fun c => L.of_outcome (hp c) (fun _ _ => L.pure fun accounts => accounts)
    fun _ => L.of_test (fun _ => L.pure fun _ => .failure _) fun _ => L.pure fun _ => .failure _

theorem filter (shown : α → String) (test : α → Bool) (hp : Accounted L stands p) :
    Accounted L (fun v text rest => test v = true ∧ stands v text rest) (p.filter shown test) := by
  refine fun c => L.of_outcome (hp c)
    (fun v d => L.of_test (fun accepted => L.pure fun accounts => ?_)
      fun _ => L.pure fun _ => .failure _)
    fun _ => L.pure fun _ => .failure _
  cases accounts with
  | success whole value => exact .success whole ⟨accepted, value⟩

theorem not (hp : Accounted L stands p) : Accounted L (fun _ text _ => text = []) p.not :=
  fun c => L.of_outcome (hp c) (fun _ _ => L.pure fun _ => .failure _)
    fun _ => L.pure fun _ => .success rfl rfl

theorem except (hp : Accounted L stands p) (hq : Accounted L stands' q) :
    Accounted L stands (p.except q) :=
  fun c => L.of_outcome (hq c) (fun _ _ => L.pure fun _ => .failure _)
    fun _ => L.weaken (hp c) fun _ accounts _ => accounts

theorem optional (hp : Accounted L stands p) :
    Accounted L (fun o text rest => match o with
      | some v => stands v text rest
      | none => text = []) p.optional := by
  refine fun c => L.of_outcome (hp c) (fun v d => L.pure fun first => ?_)
    fun _ => L.of_test (fun _ => L.pure fun _ => .success rfl rfl)
      fun _ => L.pure fun _ => .failure _
  cases first with
  | success whole value => exact .success whole value

/-- Whichever of the two yields a value, it stands for the text from the beginning on. -/
theorem xor {q : Parser σ α} (hp : Accounted L stands p) (hq : Accounted L stands q) :
    Accounted L stands (p.xor q) := by
  refine fun c => L.of_outcome (hp c) (fun v d => ?_) fun x => ?_
  · refine L.of_test (fun _ => ?_) fun _ => L.pure fun first => first
    exact L.of_outcome (hq c) (fun _ _ => L.pure fun second _ => second)
      fun _ => L.pure fun _ first => first
  · refine L.of_test (fun _ => ?_) fun _ => L.pure fun _ => .failure _
    exact L.of_outcome (hq c) (fun _ _ => L.pure fun second _ => second)
      fun _ => L.of_test (fun _ => L.pure fun _ _ => .failure _)
        fun _ => L.pure fun _ _ => .failure _

theorem or {q : Parser σ α} (hp : Accounted L stands p) (hq : Accounted L stands q) :
    Accounted L stands (p.or q) := xor (attempt hp) hq

section Repetition

/-- The items found come behind those found before, each with its text. -/
theorem collect (hp : Accounted L stands p) (n : Nat) (found : List α) :
    Accounted L (fun vs text rest => ∃ more, vs = found.reverse ++ more ∧
      Pieces stands more text rest) (p.collect n found) := by
  induction n generalizing found with
  | zero => exact fun c => L.halt _
  | succ n ih =>
    refine fun c => L.of_outcome (hp c) (fun v d => L.weaken (ih (v :: found) d) fun o rest first =>
      first.sequence ?_) fun x => L.pure fun _ => .success rfl ⟨[], (List.append_nil _).symm, .nil⟩
    cases rest with
    | failure f => exact .failure f
    | success whole value =>
      obtain ⟨more, rfl, pieces⟩ := value
      refine .success whole fun before value => ⟨v :: more, ?_, .cons value pieces⟩
      rw [List.reverse_cons, List.append_assoc]
      rfl

theorem many (hp : Accounted L stands p) (n : Nat) :
    Accounted L (Pieces stands) (p.many n) := by
  refine (collect hp n []).of_value ?_
  rintro _ _ _ ⟨more, rfl, pieces⟩
  exact pieces

theorem atLeastOnce (hp : Accounted L stands p) (n : Nat) :
    Accounted L (fun vs text rest => vs ≠ [] ∧ Pieces stands vs text rest) (p.atLeastOnce n) := by
  refine andThen hp fun v => (collect hp n [v]).of_value ?_
  rintro _ text rest ⟨more, rfl, pieces⟩ before value
  exact ⟨nofun, .cons value pieces⟩

theorem once (hp : Accounted L stands p) :
    Accounted L (fun vs text rest => ∃ v, vs = [v] ∧ stands v text rest) p.once :=
  hp.image ([·])

end Repetition
end Accounted
end Descent
