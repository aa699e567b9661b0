import Descent.Parser.Character
import Descent.Proofs.Runs
import Mathlib.Data.List.Induction

/-!
Chains of alternatives joined by `or`.
Main statement: a chain runs its alternatives in order, each from where the chain began, up to the
first that matches and consumes input or that halts, and this is what the chain comes to. Where
there is none it comes to the last match, and where nothing matches to the last failure, with the
labels of all failures since the last one that consumed input.
-/

namespace Descent

/-- A match that ends at another position than `c`. -/
def Outcome.Settles {α : Type} (c : Cursor) : Outcome α → Prop
  | success _ r => r.position ≠ c.position
  | failure _ => False

/-- What is selected from the outcomes of alternatives at `c` none of which settles the choice. -/
inductive Outcome.Selects {α : Type} (c : Cursor) : List (Outcome α) → Outcome α → Prop
  /-- Only failures come behind the last match. -/
  | lastMatch (os : List (Outcome α)) (v : α) (r : Cursor) (es : List Failure) :
    Selects c (os ++ success v r :: es.map failure) (success v r)
  /-- All have failed, and behind `e` none has consumed input. Either `e` has, or it is the first
  one; the labels are those of `e` and of all behind it. -/
  | failed {dropped kept : List Failure} {e last : Failure} {labels : Labels}
    (cut : dropped = [] ∨ e.position ≠ c.position) (shallow : ∀ d ∈ kept, d.position = c.position)
    (ends : (e :: kept).getLast? = some last)
    (joined : ∀ label, label ∈ labels ↔ ∃ d ∈ e :: kept, label ∈ d.expectations) :
    Selects c ((dropped ++ e :: kept).map failure) (failure ⟨last.failedAt, last.message, labels⟩)

namespace Outcome

variable {α : Type} {c : Cursor} {o o' w : Outcome α} {os : List (Outcome α)}

theorem alternative_unsettled (unsettled : ¬ o.Settles c) (unsettled' : ¬ o'.Settles c) :
    ¬ (o.alternative c o').Settles c := by
  cases o' with
  | success w r => cases o <;> exact unsettled'
  | failure e' =>
    cases o with
    | success v r => exact unsettled
    | failure e => exact id

/-- Failures behind a match change nothing. -/
theorem foldl_alternative_match (v : α) (r : Cursor) (es : List Failure) :
    (es.map failure).foldl (alternative c) (success v r) = success v r := by
  induction es with
  | nil => rfl
  | cons e es ih => exact ih

theorem foldl_alternative_failures (e : Failure) (es : List Failure) :
    ∃ f, (es.map (failure (α := α))).foldl (alternative c) (failure e) = failure f := by
  induction es generalizing e with
  | nil => exact ⟨e, rfl⟩
  | cons d es ih => exact ih _

/-- Behind a failure, those that have consumed nothing leave the place and the message of the last
one, with the labels of all. -/
theorem foldl_alternative_shallow {e : Failure} {kept : List Failure} {place : Cursor}
    {message : Message} {labels : Labels} (shallow : ∀ d ∈ kept, d.position = c.position)
    (ends : ((e :: kept).map fun d => (d.failedAt, d.message)).getLast? = some (place, message))
    (joined : ∀ label, label ∈ labels ↔ ∃ d ∈ e :: kept, label ∈ d.expectations) :
    (kept.map (failure (α := α))).foldl (alternative c) (failure e) =
      failure ⟨place, message, labels⟩ := by
  induction kept generalizing e with
  | nil =>
    obtain ⟨rfl, rfl⟩ := Prod.mk.inj (Option.some.inj ends)
    have same : e.expectations = labels := Labels.ext fun label => by simp [joined]
    exact congrArg (fun l => failure ⟨e.failedAt, e.message, l⟩) same
  | cons d kept ih =>
    rw [List.map_cons, List.foldl_cons, alternative_here e (shallow d List.mem_cons_self)]
    refine ih (fun x hx => shallow x (List.mem_cons_of_mem d hx)) ?_ fun label => ?_
    · -- Merging keeps the place and the message, which count if `d` is the last one.
      rwa [List.map_cons, List.map_cons, List.getLast?_cons_cons] at ends
    · simp only [joined, List.mem_cons, exists_eq_or_imp, Failure.merge, Labels.mem_union]
      exact or_left_comm.trans or_assoc.symm

/-- What is selected is what alternation makes of the outcomes, from the left. -/
theorem Selects.foldl_eq (h : Selects c (o :: os) w) : os.foldl (alternative c) o = w := by
  generalize all : o :: os = outcomes at h
  cases h with
  | lastMatch before v r es =>
    cases before with
    | nil =>
      obtain ⟨rfl, rfl⟩ := List.cons.inj all
      exact foldl_alternative_match v r es
    | cons first before =>
      rw [List.cons_append] at all
      obtain ⟨rfl, rfl⟩ := List.cons.inj all
      rw [List.foldl_append, List.foldl_cons, alternative_match, foldl_alternative_match]
  | @failed dropped kept e last labels cut shallow ends joined =>
    have place : ((e :: kept).map fun d => (d.failedAt, d.message)).getLast? =
        some (last.failedAt, last.message) := by
      rw [List.getLast?_map, ends]
      rfl
    have rest := foldl_alternative_shallow (α := α) shallow place joined
    cases dropped with
    | nil =>
      obtain ⟨rfl, rfl⟩ := List.cons.inj all
      exact rest
    | cons first dropped =>
      rw [List.cons_append, List.map_cons] at all
      obtain ⟨rfl, rfl⟩ := List.cons.inj all
      have deep : e.position ≠ c.position := cut.resolve_left (List.cons_ne_nil first dropped)
      obtain ⟨f, before⟩ := foldl_alternative_failures (α := α) (c := c) first dropped
      have replaced : alternative (α := α) c (failure f) (failure e) = failure e :=
        alternative_moved f deep
      rw [List.map_append, List.foldl_append, before, List.map_cons, List.foldl_cons, replaced,
        rest]

theorem Selects.single (o : Outcome α) : Selects c [o] o := by
  cases o with
  | success v r => exact .lastMatch [] v r []
  | failure e =>
    have alone : Selects (α := α) c (([] ++ [e]).map failure)
        (failure ⟨e.failedAt, e.message, e.expectations⟩) :=
      .failed (.inl rfl) (List.forall_mem_nil _) rfl fun label => by simp
    exact alone

theorem Selects.append (h : Selects c os o) (o' : Outcome α) :
    Selects c (os ++ [o']) (o.alternative c o') := by
  cases o' with
  | success v r =>
    rw [alternative_match]
    exact .lastMatch os v r []
  | failure e' =>
    cases h with
    | lastMatch before v r es =>
      have longer := Selects.lastMatch (c := c) before v r (es ++ [e'])
      rwa [List.map_append, ← List.cons_append, ← List.append_assoc] at longer
    | @failed dropped kept e last labels cut shallow ends joined =>
      by_cases here : e'.position = c.position
      · have merged : alternative (α := α) c (failure ⟨last.failedAt, last.message, labels⟩)
            (failure e') = failure ⟨e'.failedAt, e'.message, e'.expectations ∪ labels⟩ :=
          alternative_here _ here
        have shallow' : ∀ d ∈ kept ++ [e'], d.position = c.position := by
          intro d hd
          rcases List.mem_append.mp hd with hd | hd
          · exact shallow d hd
          · rwa [List.mem_singleton.mp hd]
        have ends' : (e :: (kept ++ [e'])).getLast? = some e' := by
          rw [← List.cons_append, List.getLast?_concat]
        have joined' (label : String) : label ∈ e'.expectations ∪ labels ↔
            ∃ d ∈ e :: (kept ++ [e']), label ∈ d.expectations := by
          rw [← List.cons_append]
          simp only [Labels.mem_union, joined, List.mem_append, List.mem_singleton, or_and_right,
            exists_or, exists_eq_left, or_comm]
        have longer := Selects.failed (α := α) cut shallow' ends' joined'
        rw [merged]
        rwa [← List.cons_append, ← List.append_assoc, List.map_append] at longer
      · have replaced : alternative (α := α) c (failure ⟨last.failedAt, last.message, labels⟩)
            (failure e') = failure e' :=
          alternative_moved _ here
        have cutHere : Selects (α := α) c ((dropped ++ e :: kept ++ [e']).map failure)
            (failure ⟨e'.failedAt, e'.message, e'.expectations⟩) :=
          .failed (.inr here) (List.forall_mem_nil _) rfl fun label => by simp
        rw [replaced]
        rwa [List.map_append] at cutHere

theorem selects_foldl (o : Outcome α) (os : List (Outcome α)) :
    Selects c (o :: os) (os.foldl (alternative c) o) := by
  induction os using List.reverseRecOn with
  | nil => exact .single o
  | append_singleton os last ih =>
    rw [List.foldl_append]
    exact ih.append last

/-- From outcomes that do not settle a choice exactly one is selected. -/
theorem selects_iff : Selects c (o :: os) w ↔ os.foldl (alternative c) o = w :=
  ⟨Selects.foldl_eq, fun eq => eq ▸ selects_foldl o os⟩

end Outcome

namespace Parser

variable {σ α : Type}

/-- An alternative and more of them, joined from the left. -/
def orChain (p : Parser σ α) (others : List (Parser σ α)) : Parser σ α := others.foldl or p

/-- All alternatives are run in order at `c`, and none of them settles the choice. -/
inductive Tried (c : Cursor) : List (Parser σ α) → σ → List (Outcome α) → σ → Prop
  | none (s : σ) : Tried c [] s [] s
  | more {p : Parser σ α} {ps : List (Parser σ α)} {s t u : σ} {o : Outcome α}
    {os : List (Outcome α)} (run : p c s = (.ok o, t)) (unsettled : ¬ o.Settles c)
    (rest : Tried c ps t os u) : Tried c (p :: ps) s (o :: os) u

/-- The alternatives are run in order at `c` up to one that settles the choice or halts; those
behind it are not run. -/
inductive Settled (c : Cursor) : List (Parser σ α) → σ → Except Halt (Outcome α) × σ → Prop
  | matched {p : Parser σ α} {ps : List (Parser σ α)} {s t : σ} {v : α} {r : Cursor}
    (run : p c s = (.ok (.success v r), t)) (moved : r.position ≠ c.position) :
    Settled c (p :: ps) s (.ok (.success v r), t)
  | halted {p : Parser σ α} {ps : List (Parser σ α)} {s t : σ} {e : Halt}
    (run : p c s = (.error e, t)) : Settled c (p :: ps) s (.error e, t)
  | later {p : Parser σ α} {ps : List (Parser σ α)} {s t : σ} {o : Outcome α}
    {result : Except Halt (Outcome α) × σ} (run : p c s = (.ok o, t)) (unsettled : ¬ o.Settles c)
    (rest : Settled c ps t result) : Settled c (p :: ps) s result

/-- What alternatives come to at `c`. -/
inductive Chosen (c : Cursor) (ps : List (Parser σ α)) (s : σ) :
    Except Halt (Outcome α) × σ → Prop
  | settled {result : Except Halt (Outcome α) × σ} (h : Settled c ps s result) :
    Chosen c ps s result
  | selected {os : List (Outcome α)} {o : Outcome α} {t : σ} (h : Tried c ps s os t)
    (pick : Outcome.Selects c os o) : Chosen c ps s (.ok o, t)

section Pairs

/-! Two alternatives as one. -/

variable {p q : Parser σ α} {ps : List (Parser σ α)} {c : Cursor} {s t u : σ} {o o' : Outcome α}
  {os : List (Outcome α)} {result : Except Halt (Outcome α) × σ}

theorem or_of_error {e : Halt} (run : p c s = (.error e, t)) : p.or q c s = (.error e, t) :=
  xor_of_error (attempt_of_error run)

theorem or_of_moved {v : α} {r : Cursor} (run : p c s = (.ok (.success v r), t))
    (moved : r.position ≠ c.position) : p.or q c s = (.ok (.success v r), t) :=
  xor_of_moved (attempt_of_success run) moved

theorem or_of_unsettled (run : p c s = (.ok o, t)) (unsettled : ¬ o.Settles c) :
    p.or q c s = (q c >>= fun o' => pure (o.alternative c o')) t := by
  cases o with
  | success v r => exact xor_of_stayed (attempt_of_success run) (not_not.mp unsettled)
  | failure e =>
    refine (xor_of_stayed (attempt_of_failure run) rfl).trans ?_
    refine congrArg (fun g => (q c >>= g) t) (funext fun o' => ?_)
    -- Only the labels of the first failure count, and these it keeps where it is moved to.
    cases o' <;> rfl

theorem or_of_both (run : p c s = (.ok o, t)) (unsettled : ¬ o.Settles c)
    (next : q c t = (.ok o', u)) : p.or q c s = (.ok (o.alternative c o'), u) :=
  (or_of_unsettled run unsettled).trans (Step.bind_of_ok next _)

theorem or_of_both_error {e : Halt} (run : p c s = (.ok o, t)) (unsettled : ¬ o.Settles c)
    (next : q c t = (.error e, u)) : p.or q c s = (.error e, u) :=
  (or_of_unsettled run unsettled).trans (Step.bind_of_error next _)

theorem Tried.join (h : Tried c (p :: q :: ps) s (o :: o' :: os) t) :
    Tried c (p.or q :: ps) s (o.alternative c o' :: os) t := by
  cases h with
  | more run unsettled rest =>
    cases rest with
    | more run' unsettled' rest =>
      exact .more (or_of_both run unsettled run')
        (Outcome.alternative_unsettled unsettled unsettled') rest

theorem Settled.join (h : Settled c (p :: q :: ps) s result) :
    Settled c (p.or q :: ps) s result := by
  cases h with
  | matched run moved => exact .matched (or_of_moved run moved) moved
  | halted run => exact .halted (or_of_error run)
  | later run unsettled rest =>
    cases rest with
    | matched run' moved => exact .matched (or_of_both run unsettled run') moved
    | halted run' => exact .halted (or_of_both_error run unsettled run')
    | later run' unsettled' rest =>
      exact .later (or_of_both run unsettled run')
        (Outcome.alternative_unsettled unsettled unsettled') rest

end Pairs

variable {p : Parser σ α} {others : List (Parser σ α)} {c : Cursor} {s t : σ} {o : Outcome α}
  {os : List (Outcome α)} {result : Except Halt (Outcome α) × σ}

-- The chain takes its first two alternatives as one, so the induction on the others goes on with
-- the joined run of these two.
theorem orChain_of_tried (h : Tried c (p :: others) s (o :: os) t) :
    orChain p others c s = (.ok (os.foldl (Outcome.alternative c) o), t) := by
  induction others generalizing p s o os with
  | nil =>
    cases h with
    | more run unsettled rest =>
      cases rest
      exact run
  | cons q others ih =>
    cases h with
    | more run unsettled rest =>
      cases rest with
      | more run' unsettled' rest =>
        have joined := (Tried.more run unsettled (.more run' unsettled' rest)).join
        exact (ih joined :)

theorem orChain_of_settled (h : Settled c (p :: others) s result) :
    orChain p others c s = result := by
  induction others generalizing p with
  | nil =>
    cases h with
    | matched run moved => exact run
    | halted run => exact run
    | later run unsettled rest => nomatch rest
  | cons q others ih => exact ih h.join

/-- Alternatives come to an end, or all of them have been run. -/
theorem settled_or_tried (c : Cursor) (ps : List (Parser σ α)) (s : σ) :
    (∃ result, Settled c ps s result) ∨ ∃ os t, Tried c ps s os t := by
  induction ps generalizing s with
  | nil => exact .inr ⟨[], s, .none s⟩
  | cons p ps ih =>
    rcases run : p c s with ⟨e | o, t⟩
    · exact .inl ⟨_, .halted run⟩
    by_cases settles : o.Settles c
    · cases o with
      | success v r => exact .inl ⟨_, .matched run settles⟩
      | failure e => exact settles.elim
    rcases ih t with ⟨result, rest⟩ | ⟨os, u, rest⟩
    · exact .inl ⟨result, .later run settles rest⟩
    · exact .inr ⟨o :: os, u, .more run settles rest⟩

/-- A chain of alternatives comes to what is chosen from them, and to nothing else. -/
theorem or_chain_selects (p : Parser σ α) (others : List (Parser σ α)) (c : Cursor) (s : σ)
    (result : Except Halt (Outcome α) × σ) :
    orChain p others c s = result ↔ Chosen c (p :: others) s result := by
  constructor
  · rintro rfl
    rcases settled_or_tried c (p :: others) s with ⟨result, settled⟩ | ⟨_ | ⟨o, os⟩, t, tried⟩
    · rw [orChain_of_settled settled]
      exact .settled settled
    · nomatch tried
    · rw [orChain_of_tried tried]
      exact .selected tried (Outcome.selects_iff.mpr rfl)
  · intro chosen
    cases chosen with
    | settled settled => exact orChain_of_settled settled
    | @selected os o t tried pick =>
      cases tried with
      | more run unsettled rest =>
        rw [orChain_of_tried (.more run unsettled rest), Outcome.selects_iff.mp pick]

/-- Behind `bc`, which has read its first character, the label of `a` is dropped. -/
example : (orChain (literal "a") [literal "bc", literal "d"] (Cursor.start ['b', 'x']) ()).1 =
    .ok (.failure ⟨.start ['b', 'x'], .expected "'d'" (some 'b'), .ofList ["'c'", "'d'"]⟩) := by
  rfl

end Parser
end Descent
