import Descent.Parser.Character
import Descent.Parser.Repetition
import Descent.Proofs.Runs

/-!
Loops, which go round until a round finds nothing more. Each of the repetitions, and the loop of a
chain, is such a loop with a round of its own.
Main statements: a loop comes to what the first round makes of it that finds nothing more; and a
repetition is maximal, so that it matches as often as its element does, one time after the other,
and fails only if a first match is required and missing.
-/

namespace Descent

/-- What one round of a loop comes to. -/
inductive Round (γ : Type)
  /-- There is nothing more, and the loop ends with what it has. -/
  | stop
  | fail (e : Failure)
  | more (v : γ) (r : Cursor)

def Round.map {γ δ : Type} (g : γ → δ) : Round γ → Round δ
  | stop => stop
  | fail e => fail e
  | more v r => more (g v) r

/-- Steps from one cursor and state to the next, each of which yields a value. -/
inductive Walk {σ γ : Type} (next : Cursor → σ → γ → Cursor → σ → Prop) :
    Cursor → σ → List γ → Cursor → σ → Prop
  | none {c : Cursor} {s : σ} : Walk next c s [] c s
  | more {c d r : Cursor} {s t u : σ} {v : γ} {vs : List γ} (step : next c s v d t)
    (rest : Walk next d t vs r u) : Walk next c s (v :: vs) r u

namespace Walk

variable {σ γ : Type} {next : Cursor → σ → γ → Cursor → σ → Prop} {c d r : Cursor} {s t u : σ}
  {vs ws : List γ}

theorem append (walk : Walk next c s vs d t)
    (onward : Walk next d t ws r u) : Walk next c s (vs ++ ws) r u := by
  induction walk with
  | none => exact onward
  | more step _ ih => exact .more step (ih onward)

theorem kept {I : σ → Prop} (walk : Walk next c s vs r t)
    (keeps : ∀ {c s v d t}, next c s v d t → I s → I t) (hs : I s) : I t := by
  induction walk with
  | none => exact hs
  | more step _ ih => exact ih (keeps step hs)

/-- From everywhere one can go on to where no step is left, or for any number of steps. -/
theorem exists_longest (next : Cursor → σ → γ → Cursor → σ → Prop) (n : Nat) (c : Cursor) (s : σ) :
    ∃ vs r t, Walk next c s vs r t ∧
      (vs.length = n ∨ vs.length < n ∧ ∀ v d u, ¬ next r t v d u) := by
  induction n generalizing c s with
  | zero => exact ⟨[], c, s, .none, .inl rfl⟩
  | succ n ih =>
    by_cases step : ∃ v d t, next c s v d t
    · obtain ⟨v, d, t, step⟩ := step
      obtain ⟨vs, r, u, walk, longest⟩ := ih d t
      refine ⟨v :: vs, r, u, .more step walk, ?_⟩
      rcases longest with full | ⟨short, last⟩
      · exact .inl (congrArg (· + 1) full)
      · exact .inr ⟨Nat.succ_lt_succ short, last⟩
    · exact ⟨[], c, s, .none, .inr ⟨n.succ_pos, fun v d t h => step ⟨v, d, t, h⟩⟩⟩

end Walk

namespace Parser

variable {σ α β γ δ : Type}

/-- Goes round until a round finds nothing more; `found` holds what earlier rounds have found, the
last one first. -/
def gather (round : Cursor → Step σ (Round γ)) : Nat → List γ → Parser σ (List γ)
  | 0, _, _ => throw .outOfFuel
  | fuel + 1, found, c => do
    match ← round c with
    | .stop => return .success found.reverse c
    | .fail e => return .failure e
    | .more v r => gather round fuel (v :: found) r

/-- A round finds `v` and leads from one cursor and state to the next. -/
def Finds (round : Cursor → Step σ (Round γ)) (c : Cursor) (s : σ) (v : γ) (d : Cursor) (t : σ) :
    Prop :=
  round c s = (.ok (.more v d), t)

/-- What a loop with fuel for `n` rounds comes to: the round behind all those that find something
decides. -/
inductive Gathered (round : Cursor → Step σ (Round γ)) (n : Nat) (c : Cursor) (s : σ) :
    Except Halt (Outcome (List γ)) × σ → Prop
  | stopped {vs : List γ} {r : Cursor} {t u : σ} (short : vs.length < n)
    (walk : Walk (Finds round) c s vs r t) (last : round r t = (.ok .stop, u)) :
    Gathered round n c s (.ok (.success vs r), u)
  | failed {vs : List γ} {r : Cursor} {t u : σ} {e : Failure} (short : vs.length < n)
    (walk : Walk (Finds round) c s vs r t) (last : round r t = (.ok (.fail e), u)) :
    Gathered round n c s (.ok (.failure e), u)
  | halted {vs : List γ} {r : Cursor} {t u : σ} {e : Halt} (short : vs.length < n)
    (walk : Walk (Finds round) c s vs r t) (last : round r t = (.error e, u)) :
    Gathered round n c s (.error e, u)
  | spent {vs : List γ} {r : Cursor} {u : σ} (full : vs.length = n)
    (walk : Walk (Finds round) c s vs r u) : Gathered round n c s (.error .outOfFuel, u)

section Gather

variable {round : Cursor → Step σ (Round γ)} {c r : Cursor} {s t u : σ} {vs : List γ} {n : Nat}
  {result : Except Halt (Outcome (List γ)) × σ}

/-- What has been found already only stands before what is found. -/
theorem gather_found (round : Cursor → Step σ (Round γ)) (n : Nat) (found : List γ) :
    gather round n found = (gather round n []).map (found.reverse ++ ·) := by
  induction n generalizing found with
  | zero => rfl
  | succ n ih =>
    funext c
    simp only [gather, map, bind_assoc]
    congr 1
    funext o
    cases o with
    | stop => simp
    | fail e => rfl
    | more v r =>
      -- Both go on with `v` found, which the induction takes out on either side.
      have before := congrFun (ih (v :: found)) r
      have alone := congrFun (ih [v]) r
      dsimp only
      rw [before, alone]
      change _ = ((gather round n []).map _).map _ r
      rw [map_map]
      simp only [List.reverse_cons, List.append_assoc, List.reverse_nil, List.nil_append]

/-- Behind rounds that find something, the loop goes on with what they have found. -/
theorem gather_of_walk (walk : Walk (Finds round) c s vs r t) (n : Nat) (found : List γ) :
    gather round (n + vs.length) found c s = gather round n (vs.reverse ++ found) r t := by
  induction walk generalizing found with
  | none => rfl
  | @more c d _ s t _ v vs step _ ih =>
    have first : gather round (n + vs.length + 1) found c s =
        gather round (n + vs.length) (v :: found) d t :=
      Step.bind_of_ok step _
    rw [List.length_cons, ← Nat.add_assoc, first, ih, List.reverse_cons, List.append_assoc]
    rfl

/-- With fuel left behind a walk, the loop runs one more round. -/
theorem gather_of_short (walk : Walk (Finds round) c s vs r t) (short : vs.length < n)
    (found : List γ) :
    ∃ k, gather round n found c s = gather round (k + 1) (vs.reverse ++ found) r t := by
  obtain ⟨k, rfl⟩ : ∃ k, n = k + 1 + vs.length := ⟨n - vs.length - 1, by omega⟩
  exact ⟨k, gather_of_walk walk (k + 1) found⟩

section Last

variable (walk : Walk (Finds round) c s vs r t) (short : vs.length < n) (found : List γ)
include walk short

theorem gather_of_stop (last : round r t = (.ok .stop, u)) :
    gather round n found c s = (.ok (.success (found.reverse ++ vs) r), u) := by
  obtain ⟨k, rest⟩ := gather_of_short walk short found
  rw [rest, gather, Step.bind_of_ok last, List.reverse_append, List.reverse_reverse]
  rfl

theorem gather_of_fail {e : Failure} (last : round r t = (.ok (.fail e), u)) :
    gather round n found c s = (.ok (.failure e), u) := by
  obtain ⟨k, rest⟩ := gather_of_short walk short found
  rw [rest, gather, Step.bind_of_ok last]
  rfl

theorem gather_of_halt {e : Halt} (last : round r t = (.error e, u)) :
    gather round n found c s = (.error e, u) := by
  obtain ⟨k, rest⟩ := gather_of_short walk short found
  rw [rest, gather, Step.bind_of_error last]

end Last

theorem gather_of_full (walk : Walk (Finds round) c s vs r t) (full : vs.length = n)
    (found : List γ) : gather round n found c s = (.error .outOfFuel, t) := by
  have rest := gather_of_walk walk 0 found
  rw [Nat.zero_add, full] at rest
  exact rest

theorem Gathered.gather_eq (h : Gathered round n c s result) : gather round n [] c s = result := by
  cases h with
  | stopped short walk last => exact gather_of_stop walk short [] last
  | failed short walk last => exact gather_of_fail walk short [] last
  | halted short walk last => exact gather_of_halt walk short [] last
  | spent full walk => exact gather_of_full walk full []

theorem exists_gathered (round : Cursor → Step σ (Round γ)) (n : Nat) (c : Cursor) (s : σ) :
    ∃ result, Gathered round n c s result := by
  obtain ⟨vs, r, t, walk, full | ⟨short, last⟩⟩ := Walk.exists_longest (Finds round) n c s
  · exact ⟨_, .spent full walk⟩
  rcases run : round r t with ⟨e | _ | e | ⟨v, d⟩, u⟩
  · exact ⟨_, .halted short walk run⟩
  · exact ⟨_, .stopped short walk run⟩
  · exact ⟨_, .failed short walk run⟩
  · exact absurd run (last v d u)

theorem gather_eq_iff : gather round n [] c s = result ↔ Gathered round n c s result := by
  constructor
  · rintro rfl
    obtain ⟨result, gathered⟩ := exists_gathered round n c s
    rwa [gathered.gather_eq]
  · exact Gathered.gather_eq

theorem gather_eq_success_iff : gather round n [] c s = (.ok (.success vs r), u) ↔
    vs.length < n ∧ ∃ t, Walk (Finds round) c s vs r t ∧ round r t = (.ok .stop, u) := by
  rw [gather_eq_iff]
  constructor
  · rintro (⟨short, walk, last⟩ | _ | _ | _)
    exact ⟨short, _, walk, last⟩
  · rintro ⟨short, t, walk, last⟩
    exact .stopped short walk last

theorem gather_eq_failure_iff {f : Failure} : gather round n [] c s = (.ok (.failure f), u) ↔
    ∃ vs r t, vs.length < n ∧ Walk (Finds round) c s vs r t ∧ round r t = (.ok (.fail f), u) := by
  rw [gather_eq_iff]
  constructor
  · rintro (_ | ⟨short, walk, last⟩ | _ | _)
    exact ⟨_, _, _, short, walk, last⟩
  · rintro ⟨vs, r, t, short, walk, last⟩
    exact .failed short walk last

theorem gather_eq_error_iff {e : Halt} : gather round n [] c s = (.error e, u) ↔
    (∃ vs r t, vs.length < n ∧ Walk (Finds round) c s vs r t ∧ round r t = (.error e, u)) ∨
      e = .outOfFuel ∧ ∃ vs r, vs.length = n ∧ Walk (Finds round) c s vs r u := by
  rw [gather_eq_iff]
  constructor
  · rintro (_ | _ | ⟨short, walk, last⟩ | ⟨full, walk⟩)
    · exact .inl ⟨_, _, _, short, walk, last⟩
    · exact .inr ⟨rfl, _, _, full, walk⟩
  · rintro (⟨vs, r, t, short, walk, last⟩ | ⟨rfl, vs, r, full, walk⟩)
    · exact .halted short walk last
    · exact .spent full walk

/-- If, from the states of `I`, the rounds of two loops come to the same up to a mapping of what
they find, the loops do. -/
theorem gather_map {I : σ → Prop} {round' : Cursor → Step σ (Round δ)} (g : γ → δ)
    (alike : ∀ c s, I s → I (round c s).2 ∧
      round' c s = ((round c s).1.map (Round.map g), (round c s).2))
    (n : Nat) (found : List γ) (c : Cursor) (hs : I s) :
    gather round' n (found.map g) c s = (gather round n found).map (List.map g) c s := by
  induction n generalizing found c s with
  | zero => rfl
  | succ n ih =>
    obtain ⟨kept, same⟩ := alike c s hs
    rcases run : round c s with ⟨e | _ | e | ⟨v, r⟩, t⟩ <;> rw [run] at same kept
    · have plain : gather round (n + 1) found c s = (.error e, t) := Step.bind_of_error run _
      exact (Step.bind_of_error same _).trans (map_of_error plain).symm
    · have plain : gather round (n + 1) found c s = (.ok (.success found.reverse c), t) :=
        Step.bind_of_ok run _
      rw [map_of_ok plain, Outcome.map_success, List.map_reverse]
      exact Step.bind_of_ok same _
    · have plain : gather round (n + 1) found c s = (.ok (.failure e), t) := Step.bind_of_ok run _
      rw [map_of_ok plain]
      exact Step.bind_of_ok same _
    · have plain : gather round (n + 1) found c s = gather round n (v :: found) r t :=
        Step.bind_of_ok run _
      rw [map_congr _ plain, ← ih (v :: found) r kept]
      exact Step.bind_of_ok same _

end Gather

section Separated

variable (p : Parser σ α) (separator : Parser σ β)

/-- The round of a separated list. -/
def separatedRound : Cursor → Step σ (Round α) := fun c => do
  match ← separator c with
  | .failure e => return if e.position = c.position then .stop else .fail e
  | .success _ d =>
    match ← p d with
    | .failure e => return .fail e
    | .success v r => return .more v r

theorem collectSeparated_eq_gather (n : Nat) (found : List α) :
    collectSeparated p separator n found = gather (p.separatedRound separator) n found := by
  induction n generalizing found with
  | zero => rfl
  | succ n ih =>
    funext c
    simp only [collectSeparated, gather, separatedRound, bind_assoc]
    congr 1
    funext o
    cases o with
    | failure e =>
      simp only [pure_bind]
      split <;> rfl
    | success w d =>
      simp only [bind_assoc]
      congr 1
      funext o'
      cases o' with
      | failure e => simp only [pure_bind]
      | success v r => simp only [pure_bind, ih]

end Separated

section Repetition

variable {p : Parser σ α} {c d r : Cursor} {s t u : σ} {v : α} {vs : List α} {n : Nat}

/-- `p` matches with the value `v` and leads from one cursor and state to the next. -/
def Matches (p : Parser σ α) (c : Cursor) (s : σ) (v : α) (d : Cursor) (t : σ) : Prop :=
  p c s = (.ok (.success v d), t)

/-- The round of a repetition. However its element fails, there is nothing more. -/
def element (p : Parser σ α) : Cursor → Step σ (Round α) := fun c => do
  match ← p c with
  | .success v r => return .more v r
  | .failure _ => return .stop

theorem collect_eq_gather (p : Parser σ α) (n : Nat) (found : List α) :
    collect p n found = gather p.element n found := by
  induction n generalizing found with
  | zero => rfl
  | succ n ih =>
    funext c
    simp only [collect, gather, element, bind_assoc]
    congr 1
    funext o
    cases o with
    | success v r => simp only [pure_bind, ih]
    | failure e => simp only [pure_bind]

theorem element_of_success (run : p c s = (.ok (.success v d), t)) :
    p.element c s = (.ok (.more v d), t) :=
  Step.bind_of_ok run _

theorem element_of_failure {f : Failure} (run : p c s = (.ok (.failure f), t)) :
    p.element c s = (.ok .stop, t) :=
  Step.bind_of_ok run _

theorem element_of_error {e : Halt} (run : p c s = (.error e, t)) :
    p.element c s = (.error e, t) :=
  Step.bind_of_error run _

theorem finds_element (p : Parser σ α) : Finds p.element = p.Matches := by
  funext c s v d t
  refine propext ⟨fun found => ?_, element_of_success⟩
  rcases run : p c s with ⟨e | ⟨w, r⟩ | f, u⟩
  · cases (element_of_error run).symm.trans found
  · cases (element_of_success run).symm.trans found
    exact run
  · cases (element_of_failure run).symm.trans found

theorem element_eq_stop_iff :
    p.element c s = (.ok .stop, u) ↔ ∃ f, p c s = (.ok (.failure f), u) := by
  refine ⟨fun stopped => ?_, fun ⟨f, run⟩ => element_of_failure run⟩
  rcases run : p c s with ⟨e | ⟨w, r⟩ | f, t⟩
  · cases (element_of_error run).symm.trans stopped
  · cases (element_of_success run).symm.trans stopped
  · cases (element_of_failure run).symm.trans stopped
    exact ⟨f, rfl⟩

theorem element_eq_error_iff {e : Halt} :
    p.element c s = (.error e, u) ↔ p c s = (.error e, u) := by
  refine ⟨fun halted => ?_, element_of_error⟩
  rcases run : p c s with ⟨e' | ⟨w, r⟩ | f, t⟩
  · cases (element_of_error run).symm.trans halted
    rfl
  · cases (element_of_success run).symm.trans halted
  · cases (element_of_failure run).symm.trans halted

theorem element_ne_fail (p : Parser σ α) (c : Cursor) (s u : σ) (f : Failure) :
    p.element c s ≠ (.ok (.fail f), u) := by
  intro failed
  rcases run : p c s with ⟨e | ⟨w, r⟩ | f, t⟩
  · cases (element_of_error run).symm.trans failed
  · cases (element_of_success run).symm.trans failed
  · cases (element_of_failure run).symm.trans failed

theorem many_eq_gather (p : Parser σ α) (n : Nat) : p.many n = gather p.element n [] :=
  collect_eq_gather p n []

theorem many_ne_failure (p : Parser σ α) (n : Nat) (c : Cursor) (s u : σ) (f : Failure) :
    p.many n c s ≠ (.ok (.failure f), u) := by
  rw [many_eq_gather, Ne, gather_eq_failure_iff]
  rintro ⟨vs, r, t, -, -, last⟩
  exact element_ne_fail p r t u f last

theorem many_eq_success_iff : p.many n c s = (.ok (.success vs r), u) ↔
    vs.length < n ∧ ∃ t f, Walk p.Matches c s vs r t ∧ p r t = (.ok (.failure f), u) := by
  simp only [many_eq_gather, gather_eq_success_iff, finds_element, element_eq_stop_iff,
    exists_and_left]

theorem many_eq_error_iff {e : Halt} : p.many n c s = (.error e, u) ↔
    (∃ vs r t, vs.length < n ∧ Walk p.Matches c s vs r t ∧ p r t = (.error e, u)) ∨
      e = .outOfFuel ∧ ∃ vs r, vs.length = n ∧ Walk p.Matches c s vs r u := by
  simp only [many_eq_gather, gather_eq_error_iff, finds_element, element_eq_error_iff]

theorem atLeastOnce_of_failure {f : Failure} (run : p c s = (.ok (.failure f), t)) (n : Nat) :
    p.atLeastOnce n c s = (.ok (.failure f), t) :=
  Step.bind_of_ok run _

/-- Where the first match is not missing, it makes no difference that it is required. -/
theorem atLeastOnce_of_not_failure (n : Nat) (matched : ∀ f t, p c s ≠ (.ok (.failure f), t)) :
    p.atLeastOnce n c s = p.many (n + 1) c s := by
  rw [atLeastOnce, many, collect, Step.bind_apply, Step.bind_apply]
  rcases run : p c s with ⟨e | ⟨v, r⟩ | f, t⟩
  · rfl
  · rfl
  · exact absurd run (matched f t)

theorem atLeastOnce_eq_failure_iff {f : Failure} :
    p.atLeastOnce n c s = (.ok (.failure f), u) ↔ p c s = (.ok (.failure f), u) := by
  refine ⟨fun failed => ?_, fun first => atLeastOnce_of_failure first n⟩
  by_cases first : ∃ f' t, p c s = (.ok (.failure f'), t)
  · obtain ⟨f', t, first⟩ := first
    cases (atLeastOnce_of_failure first n).symm.trans failed
    exact first
  · have same := atLeastOnce_of_not_failure n fun f t run => first ⟨f, t, run⟩
    exact absurd (same.symm.trans failed) (many_ne_failure p (n + 1) c s u f)

end Repetition

/-- A repetition is maximal, whatever its element does and in every state that the element may read.
It never fails. It matches exactly where its element matches one time after the other and then
fails, wherever it does, and it has the values of these matches and the last of their remainders.
It halts exactly where this leads to where the element halts, or where there are as many matches as
there is fuel for rounds. A repetition that requires its first match fails exactly as its element
does at the beginning; where this does not fail, it is the other one, with fuel for one round
more. -/
theorem repetition_is_maximal (p : Parser σ α) (n : Nat) (c : Cursor) (s u : σ) :
    (∀ f, p.many n c s ≠ (.ok (.failure f), u)) ∧
    (∀ vs r, p.many n c s = (.ok (.success vs r), u) ↔
      vs.length < n ∧ ∃ t f, Walk p.Matches c s vs r t ∧ p r t = (.ok (.failure f), u)) ∧
    (∀ e, p.many n c s = (.error e, u) ↔
      (∃ vs r t, vs.length < n ∧ Walk p.Matches c s vs r t ∧ p r t = (.error e, u)) ∨
        e = .outOfFuel ∧ ∃ vs r, vs.length = n ∧ Walk p.Matches c s vs r u) ∧
    (∀ f, p.atLeastOnce n c s = (.ok (.failure f), u) ↔ p c s = (.ok (.failure f), u)) ∧
    ((∃ f t, p c s = (.ok (.failure f), t)) ∨ p.atLeastOnce n c s = p.many (n + 1) c s) := by
  refine ⟨many_ne_failure p n c s u, fun vs r => many_eq_success_iff, fun e => many_eq_error_iff,
    fun f => atLeastOnce_eq_failure_iff, ?_⟩
  by_cases missing : ∃ f t, p c s = (.ok (.failure f), t)
  · exact .inl missing
  · exact .inr (atLeastOnce_of_not_failure n fun f t run => missing ⟨f, t, run⟩)

/-- The third text is cut short, and the repetition has the first two. -/
example : (many 3 (literal "ab") (.start ['a', 'b', 'a', 'b', 'a']) ()).1 =
    .ok (.success ["ab", "ab"] ⟨['b', 'a', 'b', 'a'], ['a'], 0⟩) := by
  rfl

end Parser
end Descent
