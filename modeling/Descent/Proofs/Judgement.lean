import Descent.Grammar.Operation

/-!
Judgements on two runs side by side. A judgement that holds of immediate results and goes through
sequencing holds of every combinator whose parts it holds of; the combinators are gone through
here once, and each property of parses is one judgement.
Runs are given for every amount of fuel. A property of single runs is a judgement on runs that do
not depend on it.
-/

namespace Descent

/-- The operations that run a parser over and over. -/
def Unary.repeats : Unary → Bool
  | many => true
  | atLeastOnce => true
  | token => true
  | _ => false

def Binary.repeats : Binary → Bool
  | separatedBy => true
  | chainLeft _ => true
  | chainRight _ => true
  | _ => false

/-- `holds X Y good` judges the runs `X` and `Y` and says that what they yield is good. Parsers are
run in a region of cursors, which they may only leave by moves that the judgement does not allow. -/
structure Judgement (σ τ : Type) where
  region : Cursor → Prop
  moves : Cursor → Cursor → Prop
  holds : {α : Type} → (Nat → Step σ α) → (Nat → Step τ α) → (α → Prop) → Prop
  moves_refl : ∀ c, moves c c
  moves_trans : ∀ {c d e}, moves c d → moves d e → moves c e
  moves_next : ∀ {c d x}, c.next? = some (x, d) → moves c d
  region_moves : ∀ {c d}, region c → moves c d → region d
  pure : ∀ {α : Type} {a : α} {good : α → Prop}, good a →
    holds (fun _ => pure a) (fun _ => pure a) good
  bind : ∀ {α β : Type} {X : Nat → Step σ α} {Y : Nat → Step τ α} {F : Nat → α → Step σ β}
    {G : Nat → α → Step τ β} {mid : α → Prop} {good : β → Prop}, holds X Y mid →
    (∀ a, mid a → holds (fun n => F n a) (fun n => G n a) good) →
    holds (fun n => X n >>= F n) (fun n => Y n >>= G n) good

namespace Judgement

variable {σ τ α β γ : Type} (J : Judgement σ τ)

/-- The judgement on parsers: it holds of their runs in the region, and outcomes are moves away. -/
def Parsers (P : Nat → Parser σ α) (Q : Nat → Parser τ α) : Prop :=
  ∀ c, J.region c → J.holds (fun n => P n c) (fun n => Q n c) fun o => J.moves c o.cursor

/-- What a judgement of partial correctness satisfies: a run out of fuel is not judged. -/
def Partial : Prop :=
  ∀ ⦃α : Type⦄ (Y : Nat → Step τ α) (good : α → Prop),
    J.holds (fun _ => throw .outOfFuel) Y good

/-- Runs with `n` units of fuel may be judged beside runs with `m` units: either both run out of
fuel at once, or the judgement is partial and the second runs have no less. -/
def Fuels (n m : Nat) : Prop :=
  (n = m ∧ ∀ {α : Type} (good : α → Prop),
    J.holds (fun _ => throw .outOfFuel) (fun _ => throw .outOfFuel) good) ∨ n ≤ m ∧ J.Partial

variable {J}

theorem Partial.fuels (spent : J.Partial) {n m : Nat} (le : n ≤ m) : J.Fuels n m :=
  Or.inr ⟨le, spent⟩

theorem Fuels.zero {m : Nat} (fuel : J.Fuels 0 m) {Y : Nat → Step τ α} {good : α → Prop}
    (same : m = 0 → Y = fun _ => throw .outOfFuel) :
    J.holds (fun _ => throw .outOfFuel) Y good := by
  rcases fuel with ⟨rfl, both⟩ | ⟨-, spent⟩
  · rw [same rfl]
    exact both good
  · exact spent Y good

theorem Fuels.pred {n m : Nat} (fuel : J.Fuels (n + 1) m) : ∃ k, m = k + 1 ∧ J.Fuels n k := by
  rcases fuel with ⟨rfl, both⟩ | ⟨le, spent⟩
  · exact ⟨n, rfl, Or.inl ⟨rfl, both⟩⟩
  · obtain ⟨k, rfl⟩ : ∃ k, m = k + 1 := ⟨m - 1, by omega⟩
    exact ⟨k, rfl, spent.fuels (by omega)⟩

variable {P : Nat → Parser σ α} {P' : Nat → Parser τ α} {Q : Nat → Parser σ β}
  {Q' : Nat → Parser τ β} {R : Nat → Parser σ γ} {R' : Nat → Parser τ γ}

theorem of_outcome {X : Nat → Step σ (Outcome α)} {Y : Nat → Step τ (Outcome α)}
    {F : Nat → Outcome α → Step σ β} {G : Nat → Outcome α → Step τ β} {c : Cursor}
    {good : β → Prop} (h : J.holds X Y fun o => J.moves c o.cursor)
    (success : ∀ v r, J.moves c r →
      J.holds (fun n => F n (.success v r)) (fun n => G n (.success v r)) good)
    (failure : ∀ e : Failure, J.moves c e.failedAt →
      J.holds (fun n => F n (.failure e)) (fun n => G n (.failure e)) good) :
    J.holds (fun n => X n >>= F n) (fun n => Y n >>= G n) good := by
  refine J.bind h ?_
  rintro (⟨v, r⟩ | e) moved
  · exact success v r moved
  · exact failure e moved

theorem weaken {X : Nat → Step σ α} {Y : Nat → Step τ α} {mid good : α → Prop}
    (h : J.holds X Y mid) (weaker : ∀ a, mid a → good a) : J.holds X Y good := by
  have bound : J.holds (fun n => X n >>= Pure.pure) (fun n => Y n >>= Pure.pure) good :=
    J.bind h fun a ha => J.pure (weaker a ha)
  simpa only [bind_pure] using bound

theorem of_test {b : Prop} [Decidable b] {X X' : Nat → Step σ α} {Y Y' : Nat → Step τ α}
    {good : α → Prop} (yes : b → J.holds X Y good) (no : ¬ b → J.holds X' Y' good) :
    J.holds (fun n => if b then X n else X' n) (fun n => if b then Y n else Y' n) good := by
  by_cases h : b
  · simpa only [h, if_true] using yes h
  · simpa only [h, if_false] using no h

/-- A parser that is run where another one ended. -/
theorem later {c d : Cursor} (hq : J.Parsers Q Q') (hc : J.region c) (moved : J.moves c d) :
    J.holds (fun n => Q n d) (fun n => Q' n d) fun o => J.moves c o.cursor :=
  weaken (hq d (J.region_moves hc moved)) fun _ => J.moves_trans moved

theorem succeed (v : α) : J.Parsers (fun _ => Parser.succeed v) (fun _ => Parser.succeed v) :=
  fun c _ => J.pure (J.moves_refl c)

theorem ofFunction {f : Cursor → Outcome α} (stays : ∀ c, J.region c → J.moves c (f c).cursor) :
    J.Parsers (fun _ => Parser.ofFunction f) (fun _ => Parser.ofFunction f) :=
  fun c hc => J.pure (stays c hc)

section Sequence

theorem andThen {F : Nat → α → Parser σ β} {F' : Nat → α → Parser τ β} (hp : J.Parsers P P')
    (hf : ∀ v, J.Parsers (fun n => F n v) fun n => F' n v) :
    J.Parsers (fun n => (P n).andThen (F n)) fun n => (P' n).andThen (F' n) := by
  intro c hc
  refine of_outcome (hp c hc) (fun v r moved => ?_) fun e moved => J.pure moved
  exact later (hf v) hc moved

theorem map (f : α → β) (hp : J.Parsers P P') :
    J.Parsers (fun n => (P n).map f) fun n => (P' n).map f := by
  intro c hc
  exact of_outcome (hp c hc) (fun _ _ moved => J.pure moved) fun _ moved => J.pure moved

theorem ignoreThen (hp : J.Parsers P P') (hq : J.Parsers Q Q') :
    J.Parsers (fun n => (P n).ignoreThen (Q n)) fun n => (P' n).ignoreThen (Q' n) :=
  andThen hp fun _ => hq

theorem thenIgnore (hp : J.Parsers P P') (hq : J.Parsers Q Q') :
    J.Parsers (fun n => (P n).thenIgnore (Q n)) fun n => (P' n).thenIgnore (Q' n) :=
  andThen hp fun v => map (fun _ => v) hq

theorem both (hp : J.Parsers P P') (hq : J.Parsers Q Q') :
    J.Parsers (fun n => (P n).both (Q n)) fun n => (P' n).both (Q' n) :=
  andThen hp fun v => map (v, ·) hq

theorem between (hp : J.Parsers P P') (hq : J.Parsers Q Q') (hr : J.Parsers R R') :
    J.Parsers (fun n => Parser.between (P n) (Q n) (R n))
      fun n => Parser.between (P' n) (Q' n) (R' n) :=
  ignoreThen hp (thenIgnore hq hr)

theorem concat {P Q : Nat → Parser σ (List α)} {P' Q' : Nat → Parser τ (List α)}
    (hp : J.Parsers P P') (hq : J.Parsers Q Q') :
    J.Parsers (fun n => (P n).concat (Q n)) fun n => (P' n).concat (Q' n) := by
  intro c hc
  refine of_outcome (hp c hc) (fun xs r moved => ?_) fun e moved => J.pure moved
  exact later (map (xs ++ ·) hq) hc moved

theorem withSpan (hp : J.Parsers P P') :
    J.Parsers (fun n => (P n).withSpan) fun n => (P' n).withSpan := by
  intro c hc
  exact of_outcome (hp c hc) (fun _ _ moved => J.pure moved) fun _ moved => J.pure moved

theorem filter (shown : α → String) (test : α → Bool) (hp : J.Parsers P P') :
    J.Parsers (fun n => (P n).filter shown test) fun n => (P' n).filter shown test := by
  intro c hc
  refine of_outcome (hp c hc) (fun v r moved => ?_) fun e moved => J.pure moved
  exact of_test (fun _ => J.pure moved) fun _ => J.pure (J.moves_refl c)

theorem peek (hp : J.Parsers P P') : J.Parsers (fun n => (P n).peek) fun n => (P' n).peek := by
  intro c hc
  exact of_outcome (hp c hc) (fun _ _ _ => J.pure (J.moves_refl c)) fun _ moved => J.pure moved

theorem once (hp : J.Parsers P P') : J.Parsers (fun n => (P n).once) fun n => (P' n).once :=
  map ([·]) hp

theorem giving (w : β) (hp : J.Parsers P P') :
    J.Parsers (fun n => (P n).giving w) fun n => (P' n).giving w :=
  map (fun _ => w) hp

end Sequence

section Character

theorem satisfy (k : CharClass) :
    J.Parsers (fun _ => Parser.satisfy k) fun _ => Parser.satisfy k := by
  intro c _
  cases found : c.next? with
  | none =>
    simp only [Parser.satisfy, found]
    exact J.pure (J.moves_refl c)
  | some next =>
    obtain ⟨x, d⟩ := next
    simp only [Parser.satisfy, found]
    exact of_test (fun _ => J.pure (J.moves_next found)) fun _ => J.pure (J.moves_refl c)

theorem chars (xs : List Char) : J.Parsers (fun _ => Parser.chars xs) fun _ => Parser.chars xs := by
  induction xs with
  | nil => exact succeed ()
  | cons x rest ih => exact andThen (satisfy _) fun _ => ih

theorem literal (s : String) : J.Parsers (fun _ => Parser.literal s) fun _ => Parser.literal s := by
  intro c hc
  refine of_outcome (chars s.toList c hc) (fun v r moved => J.pure moved) fun e moved => ?_
  exact of_test (fun _ => J.pure moved) fun _ => J.pure moved

theorem endOfInput :
    J.Parsers (fun _ => Parser.endOfInput) fun _ => Parser.endOfInput := by
  intro c _
  cases found : c.next? with
  | none =>
    simp only [Parser.endOfInput, found]
    exact J.pure (J.moves_refl c)
  | some next =>
    simp only [Parser.endOfInput, found]
    exact J.pure (J.moves_refl c)

theorem complete (hp : J.Parsers P P') :
    J.Parsers (fun n => (P n).complete) fun n => (P' n).complete :=
  thenIgnore hp endOfInput

end Character

section Choice

theorem xor {Q : Nat → Parser σ α} {Q' : Nat → Parser τ α} (hp : J.Parsers P P')
    (hq : J.Parsers Q Q') : J.Parsers (fun n => (P n).xor (Q n)) fun n => (P' n).xor (Q' n) := by
  intro c hc
  refine of_outcome (hp c hc) (fun v r moved => ?_) fun e moved => ?_
  · refine of_test (fun _ => ?_) fun _ => J.pure moved
    exact of_outcome (hq c hc) (fun _ _ moved' => J.pure moved') fun _ _ => J.pure moved
  · refine of_test (fun _ => ?_) fun _ => J.pure moved
    refine of_outcome (hq c hc) (fun _ _ moved' => J.pure moved') fun e' moved' => ?_
    exact of_test (fun _ => J.pure moved') fun _ => J.pure moved'

theorem attempt (hp : J.Parsers P P') :
    J.Parsers (fun n => (P n).attempt) fun n => (P' n).attempt := by
  intro c hc
  exact of_outcome (hp c hc) (fun _ _ moved => J.pure moved) fun _ _ => J.pure (J.moves_refl c)

theorem or {Q : Nat → Parser σ α} {Q' : Nat → Parser τ α} (hp : J.Parsers P P')
    (hq : J.Parsers Q Q') : J.Parsers (fun n => (P n).or (Q n)) fun n => (P' n).or (Q' n) :=
  xor (attempt hp) hq

theorem optional (hp : J.Parsers P P') :
    J.Parsers (fun n => (P n).optional) fun n => (P' n).optional := by
  intro c hc
  refine of_outcome (hp c hc) (fun v r moved => J.pure moved) fun e moved => ?_
  exact of_test (fun _ => J.pure (J.moves_refl c)) fun _ => J.pure moved

theorem named (label : String) (hp : J.Parsers P P') :
    J.Parsers (fun n => (P n).named label) fun n => (P' n).named label := by
  intro c hc
  refine of_outcome (hp c hc) (fun v r moved => J.pure moved) fun e moved => ?_
  exact of_test (fun _ => J.pure moved) fun _ => J.pure moved

theorem not (hp : J.Parsers P P') : J.Parsers (fun n => (P n).not) fun n => (P' n).not := by
  intro c hc
  exact of_outcome (hp c hc) (fun _ _ _ => J.pure (J.moves_refl c))
    fun _ _ => J.pure (J.moves_refl c)

theorem except (hp : J.Parsers P P') (hq : J.Parsers Q Q') :
    J.Parsers (fun n => (P n).except (Q n)) fun n => (P' n).except (Q' n) := by
  intro c hc
  exact of_outcome (hq c hc) (fun _ _ _ => J.pure (J.moves_refl c)) fun _ _ => hp c hc

theorem recover {Q : Nat → Parser σ α} {Q' : Nat → Parser τ α} (hp : J.Parsers P P')
    (hq : J.Parsers Q Q') :
    J.Parsers (fun n => (P n).recover (Q n)) fun n => (P' n).recover (Q' n) := by
  intro c hc
  exact of_outcome (hp c hc) (fun _ _ moved => J.pure moved) fun _ moved => later hq hc moved

end Choice

section Repetition

/-! Repetitions take as many rounds as there is fuel. -/

variable {p : Parser σ α} {p' : Parser τ α} {q : Parser σ β} {q' : Parser τ β}

theorem collect (hp : J.Parsers (fun _ => p) fun _ => p') {n m : Nat}
    (fuel : J.Fuels n m) (found : List α) :
    J.Parsers (fun _ => Parser.collect p n found) fun _ => Parser.collect p' m found := by
  induction n generalizing m found with
  | zero => exact fun c _ => fuel.zero fun eq => by subst eq; rfl
  | succ n ih =>
    obtain ⟨k, rfl, less⟩ := fuel.pred
    intro c hc
    refine of_outcome (hp c hc) (fun v r moved => ?_) fun e _ => J.pure (J.moves_refl c)
    exact later (ih less (v :: found)) hc moved

theorem collectSeparated (hp : J.Parsers (fun _ => p) fun _ => p')
    (hq : J.Parsers (fun _ => q) fun _ => q') {n m : Nat} (fuel : J.Fuels n m) (found : List α) :
    J.Parsers (fun _ => Parser.collectSeparated p q n found)
      fun _ => Parser.collectSeparated p' q' m found := by
  induction n generalizing m found with
  | zero => exact fun c _ => fuel.zero fun eq => by subst eq; rfl
  | succ n ih =>
    obtain ⟨k, rfl, less⟩ := fuel.pred
    intro c hc
    refine of_outcome (hq c hc) (fun o d moved => ?_) fun e moved => ?_
    · refine of_outcome (later hp hc moved) (fun v r moved' => ?_) fun e moved' => J.pure moved'
      exact later (ih less (v :: found)) hc moved'
    · exact of_test (fun _ => J.pure (J.moves_refl c)) fun _ => J.pure moved

theorem links (hq : J.Parsers (fun _ => q) fun _ => q')
    (hp : J.Parsers (fun _ => p) fun _ => p') {n m : Nat} (fuel : J.Fuels n m)
    (found : List (β × α)) :
    J.Parsers (fun _ => Parser.links q p n found) fun _ => Parser.links q' p' m found := by
  induction n generalizing m found with
  | zero => exact fun c _ => fuel.zero fun eq => by subst eq; rfl
  | succ n ih =>
    obtain ⟨k, rfl, less⟩ := fuel.pred
    intro c hc
    refine of_outcome (hq c hc) (fun o d moved => ?_) fun e moved => ?_
    · refine of_outcome (later hp hc moved) (fun v r moved' => ?_) fun e moved' => ?_
      · refine of_test (fun _ => ?_) fun _ => J.pure (J.moves_refl c)
        exact later (ih less ((o, v) :: found)) hc moved'
      · exact of_test (fun _ => J.pure (J.moves_refl c)) fun _ => J.pure moved'
    · exact of_test (fun _ => J.pure (J.moves_refl c)) fun _ => J.pure moved

theorem atLeastOnce (hp : J.Parsers (fun _ => p) fun _ => p') {n m : Nat}
    (fuel : J.Fuels n m) : J.Parsers (fun _ => p.atLeastOnce n) fun _ => p'.atLeastOnce m :=
  andThen hp fun v => collect hp fuel [v]

theorem separatedBy (hp : J.Parsers (fun _ => p) fun _ => p')
    (hq : J.Parsers (fun _ => q) fun _ => q') {n m : Nat} (fuel : J.Fuels n m) :
    J.Parsers (fun _ => p.separatedBy n q) fun _ => p'.separatedBy m q' :=
  andThen hp fun v => collectSeparated hp hq fuel [v]

theorem token (hp : J.Parsers (fun _ => p) fun _ => p') {n m : Nat}
    (fuel : J.Fuels n m) : J.Parsers (fun _ => p.token n) fun _ => p'.token m := by
  have blanks := collect (satisfy (J := J) .whitespace) fuel []
  exact thenIgnore (ignoreThen blanks hp) blanks

theorem chain (hq : J.Parsers (fun _ => q) fun _ => q')
    (hp : J.Parsers (fun _ => p) fun _ => p') {n m : Nat} (fuel : J.Fuels n m) :
    J.Parsers (fun _ => Parser.chain n q p) fun _ => Parser.chain m q' p' :=
  andThen hp fun v => map (v, ·) (links hq hp fuel [])

end Repetition

section Operations

variable {p q : Parser σ Value} {p' q' : Parser τ Value}

theorem atom (a : Atom)
    (stays : ∀ f, a = .custom f → ∀ c, J.region c → J.moves c (f c).cursor) :
    J.Parsers (fun _ => a.run) fun _ => a.run := by
  cases a with
  | satisfy k => exact map Value.char (satisfy k)
  | literal s => exact map Value.str (literal s)
  | endOfInput => exact map (fun _ => Value.unit) endOfInput
  | value v => exact succeed v
  | custom f => exact ofFunction (stays f rfl)

/-- An operation on one parser that is not a repetition. -/
theorem unary_once {P : Nat → Parser σ Value} {P' : Nat → Parser τ Value} (hp : J.Parsers P P')
    (op : Unary) (once : op.repeats = false) (n m : Nat → Nat) :
    J.Parsers (fun i => op.run (n i) (P i)) fun i => op.run (m i) (P' i) := by
  cases op with
  | many => cases once
  | atLeastOnce => cases once
  | once => exact map Value.list (Judgement.once hp)
  | text => exact map Value.str (map String.ofList (map Value.flat hp))
  | attempt => exact attempt hp
  | not => exact map (fun _ => Value.unit) (not hp)
  | optional => exact map Value.ofOption (optional hp)
  | named label => exact named label hp
  | token => cases once
  | complete => exact complete hp
  | withSpan => exact map _ (withSpan hp)
  | giving w => exact giving w hp
  | map f => exact map f hp
  | filter test => exact filter Value.shown test hp
  | peek => exact peek hp

/-- An operation on two parsers that is not a repetition. -/
theorem binary_once {P Q : Nat → Parser σ Value} {P' Q' : Nat → Parser τ Value}
    (hp : J.Parsers P P') (hq : J.Parsers Q Q') (op : Binary) (once : op.repeats = false)
    (n m : Nat → Nat) :
    J.Parsers (fun i => op.run (n i) (P i) (Q i)) fun i => op.run (m i) (P' i) (Q' i) := by
  cases op with
  | both => exact map Value.ofPair (both hp hq)
  | ignoreThen => exact ignoreThen hp hq
  | thenIgnore => exact thenIgnore hp hq
  | concat => exact map Value.list (concat (map Value.items hp) (map Value.items hq))
  | or => exact or hp hq
  | xor => exact xor hp hq
  | except => exact except hp hq
  | separatedBy => cases once
  | chainLeft apply => cases once
  | chainRight apply => cases once
  | recover => exact recover hp hq

theorem unary (hp : J.Parsers (fun _ => p) fun _ => p') {n m : Nat} (fuel : J.Fuels n m)
    (op : Unary) : J.Parsers (fun _ => op.run n p) fun _ => op.run m p' := by
  cases op with
  | many => exact map Value.list (collect hp fuel [])
  | atLeastOnce => exact map Value.list (atLeastOnce hp fuel)
  | token => exact token hp fuel
  | _ => exact unary_once hp _ rfl (fun _ => n) fun _ => m

theorem binary (hp : J.Parsers (fun _ => p) fun _ => p') (hq : J.Parsers (fun _ => q) fun _ => q')
    {n m : Nat} (fuel : J.Fuels n m) (op : Binary) :
    J.Parsers (fun _ => op.run n p q) fun _ => op.run m p' q' := by
  cases op with
  | separatedBy => exact map Value.list (separatedBy hp hq fuel)
  | chainLeft apply => exact map _ (chain hp hq fuel)
  | chainRight apply => exact map _ (chain hp hq fuel)
  | _ => exact binary_once hp hq _ rfl (fun _ => n) fun _ => m

end Operations
end Judgement
end Descent
