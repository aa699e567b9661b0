import Descent.Parser.Chain
import Descent.Proofs.Iteration

/-!
Pairs of operator and operand, which are what the loop of a chain goes round for.
Main statements: the loop of a chain finds pairs one after the other as long as they consume input,
and it stops where there is no further pair.
-/

namespace Descent.Parser

variable {σ α β : Type}

/-- An operator and an operand are read one after the other. -/
def ReadsPair (operator : Parser σ β) (operand : Parser σ α) (c : Cursor) (s : σ) (o : β) (x : α)
    (r : Cursor) (u : σ) : Prop :=
  ∃ d t, operator c s = (.ok (.success o d), t) ∧ operand d t = (.ok (.success x r), u)

/-- Pairs of operator and operand are read one after the other, each of which consumes input. -/
def ReadsPairs (operator : Parser σ β) (operand : Parser σ α) :
    Cursor → σ → List (β × α) → Cursor → σ → Prop :=
  Walk fun c s pair d t =>
    ReadsPair operator operand c s pair.1 pair.2 d t ∧ c.position < d.position

/-- The pair that comes next is read and consumes nothing. -/
def Idles (operator : Parser σ β) (operand : Parser σ α) (c : Cursor) (s : σ) (u : σ) : Prop :=
  ∃ o x, ReadsPair operator operand c s o x c u

/-- The pair that comes next is missing or incomplete: an operator fails, or the operand behind an
operator does. -/
inductive FailsPair (operator : Parser σ β) (operand : Parser σ α) (c : Cursor) (s : σ)
    (e : Failure) : σ → Prop
  | operator {u : σ} (fails : operator c s = (.ok (.failure e), u)) :
    FailsPair operator operand c s e u
  | operand {o : β} {d : Cursor} {t u : σ} (first : operator.Matches c s o d t)
    (fails : operand d t = (.ok (.failure e), u)) : FailsPair operator operand c s e u

/-- There is no further pair: the next one fails where it would begin, or consumes nothing. -/
def Stops (operator : Parser σ β) (operand : Parser σ α) (c : Cursor) (s u : σ) : Prop :=
  (∃ e, FailsPair operator operand c s e u ∧ e.position = c.position) ∨
    ∃ o x r, ReadsPair operator operand c s o x r u ∧ ¬ c.position < r.position

/-- An operand is read and then pairs, each of which consumes input, up to where there is no further
one. -/
inductive ReadsChain (operator : Parser σ β) (operand : Parser σ α) (c : Cursor) (s : σ) :
    α × List (β × α) → Cursor → σ → Prop
  | read {x : α} {d r : Cursor} {t u v : σ} {pairs : List (β × α)}
    (first : operand.Matches c s x d t) (rest : ReadsPairs operator operand d t pairs r u)
    (stops : Stops operator operand r u v) : ReadsChain operator operand c s (x, pairs) r v

/-- The round of a chain. What comes of the pair decides it, and not which part of it fails. -/
def pairRound (operator : Parser σ β) (operand : Parser σ α) : Cursor → Step σ (Round (β × α)) :=
  fun c => do
    match ← operator.both operand c with
    | .success pair r => return if c.position < r.position then .more pair r else .stop
    | .failure e => return if e.position = c.position then .stop else .fail e

section Loop

variable (operator : Parser σ β) (operand : Parser σ α)

theorem links_eq_gather (n : Nat) (found : List (β × α)) :
    links operator operand n found = gather (pairRound operator operand) n found := by
  induction n generalizing found with
  | zero => rfl
  | succ n ih =>
    funext c
    simp only [links, gather, pairRound, both, bind_assoc]
    congr 1
    funext first
    cases first with
    | failure e =>
      simp only [pure_bind]
      split <;> rfl
    | success o d =>
      simp only [bind_assoc]
      congr 1
      funext second
      cases second with
      | failure e =>
        simp only [pure_bind, Outcome.map_failure]
        split <;> rfl
      | success x r =>
        simp only [pure_bind, Outcome.map_success, ← ih]
        split <;> rfl

/-- A chain is a first operand before the loop. -/
theorem chain_eq_andThen (n : Nat) :
    chain n operator operand =
      operand.andThen fun x => (links operator operand n []).map (x, ·) := rfl

theorem chain_map {γ : Type} (g : α × List (β × α) → γ) (n : Nat) :
    (chain n operator operand).map g =
      operand.andThen fun x => (links operator operand n []).map fun pairs => g (x, pairs) := by
  rw [chain_eq_andThen, map_eq_andThen, andThen_andThen]
  congr 1
  funext x
  rw [← map_eq_andThen, map_map]

end Loop

variable {operator : Parser σ β} {operand : Parser σ α} {c d r : Cursor} {s t u v : σ} {n : Nat}

theorem both_eq_success_iff {o : β} {x : α} :
    operator.both operand c s = (.ok (.success (o, x) r), u) ↔
      ReadsPair operator operand c s o x r u := by
  refine andThen_eq_success_iff.trans ⟨?_, ?_⟩
  · rintro ⟨o, d, t, first, rest⟩
    obtain ⟨x, second, eq⟩ := map_eq_success_iff.mp rest
    cases eq
    exact ⟨d, t, first, second⟩
  · rintro ⟨d, t, first, second⟩
    exact ⟨_, d, t, first, map_of_ok second⟩

theorem both_eq_failure_iff {e : Failure} :
    operator.both operand c s = (.ok (.failure e), u) ↔ FailsPair operator operand c s e u := by
  refine andThen_eq_failure_iff.trans ⟨?_, ?_⟩
  · rintro (fails | ⟨o, d, t, first, rest⟩)
    · exact .operator fails
    · exact .operand first (map_eq_failure_iff.mp rest)
  · rintro (fails | ⟨first, fails⟩)
    · exact .inl fails
    · exact .inr ⟨_, _, _, first, map_of_ok fails⟩

theorem pairRound_of_error {e : Halt} (run : operator.both operand c s = (.error e, u)) :
    pairRound operator operand c s = (.error e, u) :=
  Step.bind_of_error run _

theorem pairRound_of_success {pair : β × α}
    (run : operator.both operand c s = (.ok (.success pair r), u)) :
    pairRound operator operand c s =
      (.ok (if c.position < r.position then .more pair r else .stop), u) :=
  Step.bind_of_ok run _

theorem pairRound_of_failure {e : Failure}
    (run : operator.both operand c s = (.ok (.failure e), u)) :
    pairRound operator operand c s =
      (.ok (if e.position = c.position then .stop else .fail e), u) :=
  Step.bind_of_ok run _

/-- What a round of a chain finds is a pair that consumes input. -/
theorem finds_pairRound_iff {pair : β × α} : Finds (pairRound operator operand) c s pair d t ↔
    ReadsPair operator operand c s pair.1 pair.2 d t ∧ c.position < d.position := by
  rw [← both_eq_success_iff, Finds]
  constructor
  · intro found
    rcases run : operator.both operand c s with ⟨e | ⟨pair', r⟩ | e, u⟩
    · cases (pairRound_of_error run).symm.trans found
    · rw [pairRound_of_success run] at found
      split at found
      · cases found
        exact ⟨rfl, ‹_›⟩
      · cases found
    · rw [pairRound_of_failure run] at found
      split at found <;> cases found
  · rintro ⟨run, moved⟩
    rw [pairRound_of_success run, if_pos moved]

/-- The loop of a chain stops where there is no further pair. -/
theorem pairRound_eq_stop_iff : pairRound operator operand c s = (.ok .stop, u) ↔
    Stops operator operand c s u := by
  constructor
  · intro stopped
    rcases run : operator.both operand c s with ⟨e | ⟨⟨o, x⟩, r⟩ | e, t⟩
    · cases (pairRound_of_error run).symm.trans stopped
    · rw [pairRound_of_success run] at stopped
      split at stopped
      · cases stopped
      · cases stopped
        exact .inr ⟨o, x, r, both_eq_success_iff.mp run, ‹_›⟩
    · rw [pairRound_of_failure run] at stopped
      split at stopped
      · cases stopped
        exact .inl ⟨e, both_eq_failure_iff.mp run, ‹_›⟩
      · cases stopped
  · rintro (⟨e, fails, here⟩ | ⟨o, x, r, reads, stays⟩)
    · rw [pairRound_of_failure (both_eq_failure_iff.mpr fails), if_pos here]
    · rw [pairRound_of_success (both_eq_success_iff.mpr reads), if_neg stays]

theorem walk_iff_readsPairs {pairs : List (β × α)} :
    Walk (Finds (pairRound operator operand)) c s pairs r t ↔
      ReadsPairs operator operand c s pairs r t := by
  have same : Finds (pairRound operator operand) = fun c s pair d t =>
      ReadsPair operator operand c s pair.1 pair.2 d t ∧ c.position < d.position := by
    funext c s pair d t
    exact propext finds_pairRound_iff
  rw [same]
  rfl

theorem links_eq_success_iff {pairs : List (β × α)} :
    links operator operand n [] c s = (.ok (.success pairs r), v) ↔
      pairs.length < n ∧ ∃ u, ReadsPairs operator operand c s pairs r u ∧
        Stops operator operand r u v := by
  simp only [links_eq_gather, gather_eq_success_iff, walk_iff_readsPairs, pairRound_eq_stop_iff]

/-- A chain comes to a match exactly with what there is to read, if there is fuel for it. -/
theorem chain_eq_success_iff {e : α × List (β × α)} :
    chain n operator operand c s = (.ok (.success e r), v) ↔
      e.2.length < n ∧ ReadsChain operator operand c s e r v := by
  rw [chain_eq_andThen, andThen_eq_success_iff]
  constructor
  · rintro ⟨x, d, t, first, rest⟩
    obtain ⟨pairs, behind, rfl⟩ := map_eq_success_iff.mp rest
    obtain ⟨fuel, u, reads, stops⟩ := links_eq_success_iff.mp behind
    exact ⟨fuel, .read first reads stops⟩
  · rintro ⟨fuel, first, reads, stops⟩
    exact ⟨_, _, _, first, map_of_ok (links_eq_success_iff.mpr ⟨fuel, _, reads, stops⟩)⟩

end Descent.Parser
