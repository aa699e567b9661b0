import Descent.Grammar.Operation

/-!
Comparisons of two runs whose failures may differ. The first run has a fixed amount of fuel and the
second one is given for every amount, so that the second may need more. A comparison that holds of
immediate results and goes through sequencing holds of every combinator whose parts it holds of, and
the combinators are gone through here once. A property of single runs is a comparison that takes no
notice of the second run.
-/

namespace Descent

/-- `holds x Y good` compares the run `x` with the runs `Y` and says that what they yield is good.
The fields about failures say which of them may stand for each other. -/
structure Comparison (σ τ : Type) where
  failures : Failure → Failure → Prop
  holds : {α : Type} → Step σ α → (Nat → Step τ α) → (α → α → Prop) → Prop
  pure : ∀ {α : Type} {a b : α} {good : α → α → Prop}, good a b →
    holds (pure a) (fun _ => pure b) good
  bind : ∀ {α β : Type} {x : Step σ α} {Y : Nat → Step τ α} {f : α → Step σ β}
    {G : Nat → α → Step τ β} {mid : α → α → Prop} {good : β → β → Prop}, holds x Y mid →
    (∀ a b, mid a b → holds (f a) (fun n => G n b) good) →
    holds (x >>= f) (fun n => Y n >>= G n) good
  /-- Of a first run that is out of fuel nothing is asked. -/
  spent : ∀ {α : Type} (Y : Nat → Step τ α) (good : α → α → Prop),
    holds (throw .outOfFuel) Y good
  /-- Only large amounts of fuel count, and `i` more may be asked for. -/
  eventually : ∀ {α : Type} {x : Step σ α} {Y Z : Nat → Step τ α} {good : α → α → Prop}
    (N i : Nat), holds x Y good → (∀ n, N ≤ n → Z (n + i) = Y n) → holds x Z good
  place : ∀ {e e' : Failure}, failures e e' → e'.failedAt = e.failedAt
  expecting : ∀ {e e' : Failure} (labels labels' : Labels), failures e e' →
    failures (e.expecting labels) (e'.expecting labels')
  merge : ∀ {e e' f f' : Failure}, failures e e' → failures f f' →
    failures (e.merge f) (e'.merge f')
  missed : ∀ (c : Cursor) (description : String), failures
    (.plain c (.expected description (c.next?.map (·.1))))
    (.plain c (.expected description (c.next?.map (·.1))))
  leftOver : ∀ {c d : Cursor} {x : Char}, c.next? = some (x, d) →
    failures (.plain c (.unexpectedText [x])) (.plain c (.unexpectedText [x]))
  unexpected : ∀ c d : Cursor, failures (.plain c (.unexpectedText (c.textTo d)))
    (.plain c (.unexpectedText (c.textTo d)))
  excluded : ∀ c d : Cursor, failures (.plain c (.excludedText (c.textTo d)))
    (.plain c (.excludedText (c.textTo d)))

namespace Comparison

variable {σ τ α β γ : Type} (J : Comparison σ τ)

/-- Outcomes that may stand for each other. -/
inductive Outcomes : Outcome α → Outcome α → Prop
  | success (v : α) (r : Cursor) : Outcomes (.success v r) (.success v r)
  | failure {e e' : Failure} (alike : J.failures e e') : Outcomes (.failure e) (.failure e')

/-- The comparison on parsers: it holds of their runs from every cursor. -/
def Parsers (p : Parser σ α) (P : Nat → Parser τ α) : Prop :=
  ∀ c, J.holds (p c) (fun n => P n c) J.Outcomes

/-- Failures may be given the place where a parser began, and values may be rejected there. -/
structure Relocates : Prop where
  relocate : ∀ (c : Cursor) {e e' : Failure}, J.failures e e' →
    J.failures (e.relocate c) (e'.relocate c)
  rejected : ∀ (c : Cursor) (shown : Thunk String),
    J.failures (.plain c (.rejected shown)) (.plain c (.rejected shown))

variable {J} {p : Parser σ α} {P : Nat → Parser τ α} {q : Parser σ β} {Q : Nat → Parser τ β}
  {r : Parser σ γ} {R : Nat → Parser τ γ}

theorem of_outcome {x : Step σ (Outcome α)} {Y : Nat → Step τ (Outcome α)}
    {f : Outcome α → Step σ β} {G : Nat → Outcome α → Step τ β} {good : β → β → Prop}
    (h : J.holds x Y J.Outcomes)
    (success : ∀ v d, J.holds (f (.success v d)) (fun n => G n (.success v d)) good)
    (failure : ∀ e e', J.failures e e' →
      J.holds (f (.failure e)) (fun n => G n (.failure e')) good) :
    J.holds (x >>= f) (fun n => Y n >>= G n) good := by
  refine J.bind h ?_
  rintro _ _ (⟨v, d⟩ | ⟨alike⟩)
  · exact success v d
  · exact failure _ _ alike

theorem of_test {a b : Prop} [Decidable a] [Decidable b] {x x' : Step σ α}
    {Y Y' : Nat → Step τ α} {good : α → α → Prop} (same : b ↔ a) (yes : J.holds x Y good)
    (no : J.holds x' Y' good) :
    J.holds (if a then x else x') (fun n => if b then Y n else Y' n) good := by
  by_cases h : a
  · simpa only [h, same.mpr h, if_true] using yes
  · simpa only [h, mt same.mp h, if_false] using no

/-- Whether a failure has consumed input is the same of both. -/
theorem position_eq_iff {e e' : Failure} (alike : J.failures e e') (c : Cursor) :
    e'.position = c.position ↔ e.position = c.position := by
  rw [Failure.position, Failure.position, J.place alike]

theorem succeeds (v : α) (d : Cursor) :
    J.holds (Pure.pure (.success v d)) (fun _ => Pure.pure (.success v d)) J.Outcomes :=
  J.pure (.success v d)

theorem fails {e e' : Failure} (alike : J.failures e e') :
    J.holds (Pure.pure (.failure e : Outcome α)) (fun _ => Pure.pure (.failure e')) J.Outcomes :=
  J.pure (.failure alike)

theorem succeed (v : α) : J.Parsers (Parser.succeed v) fun _ => Parser.succeed v :=
  fun c => succeeds v c

section Sequence

theorem andThen {f : α → Parser σ β} {F : Nat → α → Parser τ β} (hp : J.Parsers p P)
    (hf : ∀ v, J.Parsers (f v) fun n => F n v) :
    J.Parsers (p.andThen f) fun n => (P n).andThen (F n) :=
  fun c => of_outcome (hp c) (fun v d => hf v d) fun _ _ alike => fails alike

theorem map (f : α → β) (hp : J.Parsers p P) : J.Parsers (p.map f) fun n => (P n).map f :=
  fun c => of_outcome (hp c) (fun v d => succeeds (f v) d) fun _ _ alike => fails alike

theorem ignoreThen (hp : J.Parsers p P) (hq : J.Parsers q Q) :
    J.Parsers (p.ignoreThen q) fun n => (P n).ignoreThen (Q n) :=
  andThen hp fun _ => hq

theorem thenIgnore (hp : J.Parsers p P) (hq : J.Parsers q Q) :
    J.Parsers (p.thenIgnore q) fun n => (P n).thenIgnore (Q n) :=
  andThen hp fun v => map (fun _ => v) hq

theorem both (hp : J.Parsers p P) (hq : J.Parsers q Q) :
    J.Parsers (p.both q) fun n => (P n).both (Q n) :=
  andThen hp fun v => map (v, ·) hq

theorem between (hp : J.Parsers p P) (hq : J.Parsers q Q) (hr : J.Parsers r R) :
    J.Parsers (Parser.between p q r) fun n => Parser.between (P n) (Q n) (R n) :=
  ignoreThen hp (thenIgnore hq hr)

theorem concat {p q : Parser σ (List α)} {P Q : Nat → Parser τ (List α)} (hp : J.Parsers p P)
    (hq : J.Parsers q Q) : J.Parsers (p.concat q) fun n => (P n).concat (Q n) :=
  fun c => of_outcome (hp c) (fun xs d => map (xs ++ ·) hq d) fun _ _ alike => fails alike

theorem withSpan (hp : J.Parsers p P) : J.Parsers p.withSpan fun n => (P n).withSpan :=
  fun c => of_outcome (hp c) (fun _ d => succeeds _ d) fun _ _ alike => fails alike

theorem filter (relocates : J.Relocates) (shown : α → String) (test : α → Bool)
    (hp : J.Parsers p P) : J.Parsers (p.filter shown test) fun n => (P n).filter shown test := by
  refine fun c => of_outcome (hp c) (fun v d => ?_) fun _ _ alike => fails alike
  exact of_test Iff.rfl (succeeds v d) (fails (relocates.rejected c _))

theorem peek (hp : J.Parsers p P) : J.Parsers p.peek fun n => (P n).peek :=
  fun c => of_outcome (hp c) (fun v _ => succeeds v c) fun _ _ alike => fails alike

end Sequence

section Character

/-- Two classes of the same characters. -/
theorem satisfy {k k' : CharClass} (same : k'.test = k.test)
    (missed : ∀ c : Cursor, J.failures (.plain c (.expected k.description (c.next?.map (·.1))))
      (.plain c (.expected k'.description (c.next?.map (·.1))))) :
    J.Parsers (Parser.satisfy k) fun _ => Parser.satisfy k' := by
  intro c
  have failed := J.expecting ((∅ : Labels).insert k.description)
    ((∅ : Labels).insert k'.description) (missed c)
  cases found : c.next? with
  | none =>
    rw [found] at failed
    simp only [Parser.satisfy, found]
    exact fails failed
  | some next =>
    rw [found] at failed
    simp only [Parser.satisfy, found, same]
    exact of_test Iff.rfl (succeeds next.1 next.2) (fails failed)

theorem chars (xs : List Char) : J.Parsers (Parser.chars xs) fun _ => Parser.chars xs := by
  induction xs with
  | nil => exact succeed ()
  | cons x rest ih => exact andThen (satisfy rfl fun c => J.missed c _) fun _ => ih

theorem literal (s : String) : J.Parsers (Parser.literal s) fun _ => Parser.literal s := by
  refine fun c => of_outcome (chars s.toList c) (fun _ d => succeeds s d) fun e e' alike => ?_
  exact of_test (position_eq_iff alike c) (fails (J.expecting _ _ alike)) (fails alike)

theorem endOfInput : J.Parsers Parser.endOfInput fun _ => Parser.endOfInput := by
  intro c
  cases found : c.next? with
  | none =>
    simp only [Parser.endOfInput, found]
    exact succeeds () c
  | some next =>
    simp only [Parser.endOfInput, found]
    exact fails (J.expecting _ _ (J.leftOver found))

theorem complete (hp : J.Parsers p P) : J.Parsers p.complete fun n => (P n).complete :=
  thenIgnore hp endOfInput

end Character

section Choice

variable {q : Parser σ α} {Q : Nat → Parser τ α}

theorem xor (hp : J.Parsers p P) (hq : J.Parsers q Q) :
    J.Parsers (p.xor q) fun n => (P n).xor (Q n) := by
  refine fun c => of_outcome (hp c) (fun v d => ?_) fun e e' alike => ?_
  · refine of_test Iff.rfl ?_ (succeeds v d)
    exact of_outcome (hq c) (fun w d' => succeeds w d') fun _ _ _ => succeeds v d
  · refine of_test (position_eq_iff alike c) ?_ (fails alike)
    refine of_outcome (hq c) (fun w d => succeeds w d) fun f f' alike' => ?_
    exact of_test (position_eq_iff alike' c) (fails (J.merge alike' alike)) (fails alike')

theorem attempt (relocates : J.Relocates) (hp : J.Parsers p P) :
    J.Parsers p.attempt fun n => (P n).attempt :=
  fun c => of_outcome (hp c) (fun v d => succeeds v d)
    fun _ _ alike => fails (relocates.relocate c alike)

theorem or (relocates : J.Relocates) (hp : J.Parsers p P) (hq : J.Parsers q Q) :
    J.Parsers (p.or q) fun n => (P n).or (Q n) :=
  xor (attempt relocates hp) hq

theorem optional (hp : J.Parsers p P) : J.Parsers p.optional fun n => (P n).optional := by
  refine fun c => of_outcome (hp c) (fun v d => succeeds (some v) d) fun e e' alike => ?_
  exact of_test (position_eq_iff alike c) (succeeds none c) (fails alike)

/-- A label is put in or left out, or is another one. -/
theorem named (label label' : String) (hp : J.Parsers p P) :
    J.Parsers (p.named label) fun n => (P n).named label' := by
  refine fun c => of_outcome (hp c) (fun v d => succeeds v d) fun e e' alike => ?_
  exact of_test (position_eq_iff alike c) (fails (J.expecting _ _ alike)) (fails alike)

theorem not (hp : J.Parsers p P) : J.Parsers p.not fun n => (P n).not :=
  fun c => of_outcome (hp c) (fun _ d => fails (J.unexpected c d)) fun _ _ _ => succeeds () c

theorem except {q : Parser σ β} {Q : Nat → Parser τ β} (hp : J.Parsers p P)
    (hq : J.Parsers q Q) : J.Parsers (p.except q) fun n => (P n).except (Q n) :=
  fun c => of_outcome (hq c) (fun _ d => fails (J.excluded c d)) fun _ _ _ => hp c

theorem recover (hp : J.Parsers p P) (hq : J.Parsers q Q) :
    J.Parsers (p.recover q) fun n => (P n).recover (Q n) := by
  refine fun c => of_outcome (hp c) (fun v d => succeeds v d) fun e e' alike => ?_
  dsimp only
  rw [J.place alike]
  exact hq e.failedAt

end Choice

section Repetition

/-! The loop of the second run has as many rounds as there is fuel, but for the first `i`. -/

/-- A loop with fuel for a round begins with that round. -/
theorem of_round {x : Step σ α} {F : Nat → Nat → Step τ α} {good : α → α → Prop} (i : Nat)
    (h : J.holds x (fun n => F n (n - (i + 1) + 1)) good) :
    J.holds x (fun n => F n (n - i)) good := by
  refine J.eventually (i + 1) 0 h fun n le => ?_
  have fuel : n - i = n - (i + 1) + 1 := by omega
  exact congrArg (F n) fuel

theorem collect (hp : J.Parsers p P) (n i : Nat) (found : List α) :
    J.Parsers (p.collect n found) fun k => (P k).collect (k - i) found := by
  induction n generalizing i found with
  | zero => exact fun c => J.spent _ _
  | succ n ih =>
    refine fun c => of_round (F := fun k m => (P k).collect m found c) i ?_
    exact of_outcome (hp c) (fun v d => ih (i + 1) (v :: found) d) fun _ _ _ => succeeds _ c

theorem collectSeparated (hp : J.Parsers p P) (hq : J.Parsers q Q) (n i : Nat)
    (found : List α) : J.Parsers (p.collectSeparated q n found)
      fun k => (P k).collectSeparated (Q k) (k - i) found := by
  induction n generalizing i found with
  | zero => exact fun c => J.spent _ _
  | succ n ih =>
    refine fun c => of_round (F := fun k m => (P k).collectSeparated (Q k) m found c) i ?_
    refine of_outcome (hq c) (fun _ d => ?_) fun e e' alike => ?_
    · exact of_outcome (hp d) (fun v d' => ih (i + 1) (v :: found) d')
        fun _ _ alike => fails alike
    · exact of_test (position_eq_iff alike c) (succeeds _ c) (fails alike)

theorem links (hq : J.Parsers q Q) (hp : J.Parsers p P) (n i : Nat) (found : List (β × α)) :
    J.Parsers (Parser.links q p n found) fun k => Parser.links (Q k) (P k) (k - i) found := by
  induction n generalizing i found with
  | zero => exact fun c => J.spent _ _
  | succ n ih =>
    refine fun c => of_round (F := fun k m => Parser.links (Q k) (P k) m found c) i ?_
    refine of_outcome (hq c) (fun o d => ?_) fun e e' alike => ?_
    · refine of_outcome (hp d) (fun v d' => ?_) fun e e' alike => ?_
      · exact of_test Iff.rfl (ih (i + 1) ((o, v) :: found) d') (succeeds _ c)
      · exact of_test (position_eq_iff alike c) (succeeds _ c) (fails alike)
    · exact of_test (position_eq_iff alike c) (succeeds _ c) (fails alike)

theorem chain (hq : J.Parsers q Q) (hp : J.Parsers p P) (n : Nat) :
    J.Parsers (Parser.chain n q p) fun k => Parser.chain k (Q k) (P k) :=
  andThen hp fun v => map (v, ·) (links hq hp n 0 [])

theorem token (hp : J.Parsers p P) (n : Nat) :
    J.Parsers (p.token n) fun k => (P k).token k := by
  have blanks := collect (J := J) (satisfy (k := .whitespace) rfl fun c => J.missed c _) n 0 []
  exact thenIgnore (ignoreThen blanks hp) blanks

end Repetition

section Operations

variable {p q : Parser σ Value} {P Q : Nat → Parser τ Value}

theorem atom (a : Atom) (fixed : ∀ f, a ≠ .custom f) : J.Parsers a.run fun _ => a.run := by
  cases a with
  | satisfy k => exact map Value.char (satisfy rfl fun c => J.missed c _)
  | literal s => exact map Value.str (literal s)
  | endOfInput => exact map (fun _ => Value.unit) endOfInput
  | value v => exact succeed v
  | custom f => exact absurd rfl (fixed f)

/-- An operation on one parser that leaves failures where they are, or a comparison that lets them
be relocated. -/
theorem unary (hp : J.Parsers p P) (n : Nat) (op : Unary)
    (stays : (op ≠ .attempt ∧ ∀ test, op ≠ .filter test) ∨ J.Relocates) :
    J.Parsers (op.run n p) fun k => op.run k (P k) := by
  cases op with
  | many => exact map Value.list (collect hp n 0 [])
  | atLeastOnce => exact map Value.list (andThen hp fun v => collect hp n 0 [v])
  | once => exact map Value.list (map ([·]) hp)
  | text => exact map Value.str (map String.ofList (map Value.flat hp))
  | attempt => exact attempt (stays.resolve_left fun h => h.1 rfl) hp
  | not => exact map (fun _ => Value.unit) (not hp)
  | optional => exact map Value.ofOption (optional hp)
  | named label => exact named label label hp
  | token => exact token hp n
  | complete => exact complete hp
  | withSpan => exact map _ (withSpan hp)
  | giving w => exact map (fun _ => w) hp
  | map f => exact map f hp
  | filter test => exact filter (stays.resolve_left fun h => h.2 test rfl) Value.shown test hp
  | peek => exact peek hp

theorem binary (hp : J.Parsers p P) (hq : J.Parsers q Q) (n : Nat) (op : Binary)
    (stays : op ≠ .or ∨ J.Relocates) :
    J.Parsers (op.run n p q) fun k => op.run k (P k) (Q k) := by
  cases op with
  | both => exact map Value.ofPair (both hp hq)
  | ignoreThen => exact ignoreThen hp hq
  | thenIgnore => exact thenIgnore hp hq
  | concat => exact map Value.list (concat (map Value.items hp) (map Value.items hq))
  | or => exact or (stays.resolve_left fun h => h rfl) hp hq
  | xor => exact xor hp hq
  | except => exact except hp hq
  | separatedBy => exact map Value.list (andThen hp fun v => collectSeparated hp hq n 0 [v])
  | chainLeft apply => exact map _ (chain hp hq n)
  | chainRight apply => exact map _ (chain hp hq n)
  | recover => exact recover hp hq

end Operations
end Comparison
end Descent
