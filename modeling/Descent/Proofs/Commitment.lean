import Descent.Proofs.Alternatives
import Descent.Proofs.Sequencing

/-!
Alternatives joined by `xor`, which commits itself to one that has consumed input.
Main statements: a choice may be regrouped unless its first alternative matches without consuming
input and its second fails further on; and where no alternative matches without consuming input, the
first one that does not fail at once decides, however the alternatives are nested.
-/

namespace Descent

/-- The labels of three failures may be joined in any grouping. -/
theorem Failure.merge_merge (e e' e'' : Failure) :
    (e''.merge e').merge e = e''.merge (e'.merge e) := by
  have joined : (e''.expectations ∪ e'.expectations) ∪ e.expectations =
      e''.expectations ∪ (e'.expectations ∪ e.expectations) :=
    Labels.ext fun label => by simp only [Labels.mem_union, or_assoc]
  exact congrArg e''.expecting joined

/-- `f` is the joined failure of `es`: it is where the last of them is and says the same, and it has
the labels of all. -/
structure Failure.Joins (f : Failure) (es : List Failure) : Prop where
  last : ∃ e, es.getLast? = some e ∧ f.failedAt = e.failedAt ∧ f.message = e.message
  labels : ∀ label, label ∈ f.expectations ↔ ∃ e ∈ es, label ∈ e.expectations

namespace Failure.Joins

variable {f g : Failure} {es ds : List Failure}

theorem single (e : Failure) : e.Joins [e] where
  last := ⟨e, rfl, rfl, rfl⟩
  labels label := by simp

theorem merge (hf : f.Joins es) (hg : g.Joins ds) : (g.merge f).Joins (es ++ ds) where
  last := by
    obtain ⟨e, last, place, message⟩ := hg.last
    exact ⟨e, by rw [List.getLast?_append, last]; rfl, place, message⟩
  labels label := by
    simp only [Failure.merge, Labels.mem_union, hf.labels, hg.labels, List.mem_append, or_and_right,
      exists_or]
    exact or_comm

theorem unique (hf : f.Joins es) (hg : g.Joins es) : f = g := by
  obtain ⟨e, last, place, message⟩ := hf.last
  obtain ⟨d, last', place', message'⟩ := hg.last
  obtain rfl : e = d := Option.some.inj (last.symm.trans last')
  have labels : f.expectations = g.expectations :=
    Labels.ext fun label => (hf.labels label).trans (hg.labels label).symm
  obtain ⟨_, _, _⟩ := f
  obtain ⟨_, _, _⟩ := g
  simp only at place place' message message' labels
  rw [place, place', message, message', labels]

end Failure.Joins

namespace Outcome

variable {α : Type} {c : Cursor} {o o' : Outcome α}

theorem alternative_stayed (stayed : o.cursor.position = c.position)
    (stayed' : o'.cursor.position = c.position) :
    (o.alternative c o').cursor.position = c.position := by
  cases o' with
  | success w r =>
    rw [alternative_match]
    exact stayed'
  | failure e' =>
    cases o with
    | success v r => exact stayed
    | failure e =>
      rw [alternative_here e stayed']
      exact stayed'

theorem alternative_assoc (o o'' : Outcome α) (stayed : o'.cursor.position = c.position) :
    (o.alternative c o').alternative c o'' = o.alternative c (o'.alternative c o'') := by
  cases o'' with
  | success w r => simp only [alternative_match]
  | failure e'' =>
    cases o' with
    | success w r =>
      rw [alternative_match]
      exact (alternative_match o w r).symm
    | failure e' =>
      cases o with
      | success v r => rfl
      | failure e =>
        rw [alternative_here e stayed]
        by_cases here : e''.position = c.position
        · have outer : (e''.merge e').position = c.position := here
          rw [alternative_here _ here, alternative_here e' here, alternative_here e outer,
            Failure.merge_merge]
        · have last (f : Failure) :
              alternative (α := α) c (failure f) (failure e'') = failure e'' :=
            alternative_moved f here
          rw [last, last, last]

end Outcome

namespace Parser

variable {σ α : Type}

section Regrouping

/-- From the state `s` on, `p` matches at `c` without consuming input, and `q` fails further on: the
choice of both falls back to the match. -/
def FallsBack (p q : Parser σ α) (c : Cursor) (s : σ) : Prop :=
  ∃ v d t e u, p c s = (.ok (.success v d), t) ∧ d.position = c.position ∧
    q c t = (.ok (.failure e), u) ∧ e.position ≠ c.position

variable {p q r : Parser σ α} {c : Cursor} {s t u : σ}

theorem xor_assoc_of_not_fallsBack (regular : ¬ p.FallsBack q c s) :
    (p.xor q).xor r c s = p.xor (q.xor r) c s := by
  rcases first : p c s with ⟨e | o, t⟩
  · rw [xor_of_error (xor_of_error first), xor_of_error first]
  by_cases stayed : o.cursor.position = c.position
  · rcases second : q c t with ⟨e | o', u⟩
    · rw [xor_of_error (xor_of_both_error first stayed second),
        xor_of_both_error first stayed (xor_of_error second)]
    by_cases stayed' : o'.cursor.position = c.position
    · have both := xor_of_both first stayed second
      have here := Outcome.alternative_stayed stayed stayed'
      rcases third : r c u with ⟨e | o'', x⟩
      · rw [xor_of_both_error both here third,
          xor_of_both_error first stayed (xor_of_both_error second stayed' third)]
      · rw [xor_of_both both here third,
          xor_of_both first stayed (xor_of_both second stayed' third),
          Outcome.alternative_assoc o o'' stayed']
    · -- The second one stands, in whichever choice it is.
      have stands : o.alternative c o' = o' := by
        cases o with
        | failure e => exact Outcome.alternative_moved e stayed'
        | success v d =>
          cases o' with
          | success w r => rfl
          | failure e => exact absurd ⟨v, d, t, e, u, first, stayed, second, stayed'⟩ regular
      have both := xor_of_both first stayed second
      rw [stands] at both
      rw [xor_of_moved both stayed', xor_of_both first stayed (xor_of_moved second stayed'), stands]
  · rw [xor_of_moved (xor_of_moved first stayed) stayed, xor_of_moved first stayed]

/-- Choices regroup, in value and remainder, failure or halt, unless the first alternative matches
without consuming input and the second fails further on. Then the grouping to the right yields the
match and does not run the third alternative; the grouping to the left runs it, and yields the match
only if it fails. -/
theorem xor_regroups (p q r : Parser σ α) (c : Cursor) (s : σ) :
    (¬ p.FallsBack q c s → (p.xor q).xor r c s = p.xor (q.xor r) c s) ∧
    ∀ v d t e u, p c s = (.ok (.success v d), t) → d.position = c.position →
      q c t = (.ok (.failure e), u) → e.position ≠ c.position →
      p.xor (q.xor r) c s = (.ok (.success v d), u) ∧
      (p.xor q).xor r c s = match r c u with
        | (.ok (.success w d'), x) => (.ok (.success w d'), x)
        | (.ok (.failure _), x) => (.ok (.success v d), x)
        | (.error h, x) => (.error h, x) := by
  refine ⟨xor_assoc_of_not_fallsBack, fun v d t e u first stayed second moved => ⟨?_, ?_⟩⟩
  · exact xor_of_both first stayed (xor_of_moved second moved)
  · have both : p.xor q c s = (.ok (.success v d), u) := xor_of_both first stayed second
    rcases third : r c u with ⟨h | ⟨w, d'⟩ | f, x⟩
    · exact xor_of_both_error both stayed third
    · exact xor_of_both both stayed third
    · exact xor_of_both both stayed third

/-- Behind empty text and a text that is there only in part, a third alternative counts in one
grouping and not in the other. With the first two exchanged it never counts. -/
theorem empty_text_regrouped :
    let c := Cursor.start ['a', 'c']
    let nothing : Parser Unit String := literal ""
    let part : Parser Unit String := literal "ab"
    let there : Parser Unit String := literal "ac"
    ¬ part.FallsBack nothing c () ∧
      (part.xor nothing).xor there c () = part.xor (nothing.xor there) c () ∧
      nothing.xor (part.xor there) c () = (.ok (.success "" c), ()) ∧
      (nothing.xor part).xor there c () = (.ok (.success "ac" ⟨['c', 'a'], [], 0⟩), ()) := by
  intro c nothing part there
  have regular : ¬ part.FallsBack nothing c () := by
    rintro ⟨v, d, t, e, u, first, -⟩
    cases first
  obtain ⟨right, left⟩ :=
    (xor_regroups nothing part there c ()).2 "" c () _ () rfl rfl rfl (by decide)
  exact ⟨regular, (xor_regroups part nothing there c ()).1 regular, right, left⟩

end Regrouping

section Nestings

variable {p q : Parser σ α} {ps qs before after : List (Parser σ α)} {c : Cursor} {s t u : σ}
  {es : List Failure}

/-- All alternatives are run in order at `c`, and each of them fails at once. -/
inductive Declined (c : Cursor) : List (Parser σ α) → σ → List Failure → σ → Prop
  | none (s : σ) : Declined c [] s [] s
  | more {p : Parser σ α} {ps : List (Parser σ α)} {s t u : σ} {e : Failure} {es : List Failure}
    (run : p c s = (.ok (.failure e), t)) (here : e.position = c.position)
    (rest : Declined c ps t es u) : Declined c (p :: ps) s (e :: es) u

/-- A result that commits a choice at `c`: a halt, or an outcome that has consumed input. -/
def Commits (c : Cursor) : Except Halt (Outcome α) → Prop
  | .ok o => o.cursor.position ≠ c.position
  | .error _ => True

/-- What alternatives predict at `c`: the result of the first one that does not fail at once, which
those behind it do not change, or the joined failure of all. -/
inductive Predicts (c : Cursor) : List (Parser σ α) → σ → Except Halt (Outcome α) × σ → Prop
  | committed {before after : List (Parser σ α)} {p : Parser σ α} {s t : σ} {es : List Failure}
    (declined : Declined c before s es t) (commits : Commits c (p c t).1) :
    Predicts c (before ++ p :: after) s (p c t)
  | failed {ps : List (Parser σ α)} {s t : σ} {es : List Failure} {f : Failure}
    (declined : Declined c ps s es t) (joined : f.Joins es) (here : f.position = c.position) :
    Predicts c ps s (.ok (.failure f), t)

/-- From the state `s` on, no alternative that is reached matches at `c` without consuming input. -/
def AllMoveOn (c : Cursor) (ps : List (Parser σ α)) (s : σ) : Prop :=
  ∀ before p after es t, ps = before ++ p :: after → Declined c before s es t → p.MovesOn c t

theorem Declined.append (h : Declined c (ps ++ qs) s es u) :
    ∃ es₁ es₂ t, es = es₁ ++ es₂ ∧ Declined c ps s es₁ t ∧ Declined c qs t es₂ u := by
  induction ps generalizing s es with
  | nil => exact ⟨[], es, s, rfl, .none s, h⟩
  | cons p ps ih =>
    cases h with
    | @more _ _ _ _ _ e es run here rest =>
      obtain ⟨es₁, es₂, t, rfl, first, second⟩ := ih rest
      exact ⟨e :: es₁, es₂, t, rfl, .more run here first, second⟩

/-- A member of a joined list stands in the second part, behind all of the first, or in the first
one. -/
theorem exists_part {β : Type} {xs ys before after : List β} {x : β}
    (parts : xs ++ ys = before ++ x :: after) :
    (∃ others, before = xs ++ others ∧ ys = others ++ x :: after) ∨
      ∃ others, xs = before ++ x :: others := by
  rcases List.append_eq_append_iff.mp parts with ⟨others, split, rest⟩ | ⟨others, split, rest⟩
  · exact .inl ⟨others, split, rest⟩
  · cases others with
    | nil => exact .inl ⟨[], by simpa using split.symm, rest.symm⟩
    | cons y others =>
      obtain ⟨rfl, -⟩ := List.cons.inj rest
      exact .inr ⟨others, split⟩

theorem xor_of_commits (commits : Commits c (p c s).1) : p.xor q c s = p c s := by
  rcases run : p c s with ⟨e | o, t⟩
  · exact xor_of_error run
  · rw [run] at commits
    exact xor_of_moved run commits

/-- Behind a failure at once, what commits the choice is its result. -/
theorem xor_of_failure {e : Failure} (run : p c s = (.ok (.failure e), t))
    (here : e.position = c.position) (commits : Commits c (q c t).1) : p.xor q c s = q c t := by
  rcases next : q c t with ⟨h | o, u⟩
  · exact xor_of_both_error run here next
  · rw [next] at commits
    rw [xor_of_both run here next, Outcome.alternative_moved e commits]

/-- Alternatives in order, joined two at a time in some way. -/
inductive Nesting (σ α : Type)
  | single (p : Parser σ α)
  | pair (first second : Nesting σ α)

namespace Nesting

def alternatives : Nesting σ α → List (Parser σ α)
  | single p => [p]
  | pair first second => first.alternatives ++ second.alternatives

def choice : Nesting σ α → Parser σ α
  | single p => p
  | pair first second => first.choice.xor second.choice

-- Both lemmas go by induction on the nesting: in a pair, all of the first part has to decline
-- before the second part is run.
theorem choice_of_declined (tree : Nesting σ α) (declined : Declined c tree.alternatives s es t) :
    ∃ f, tree.choice c s = (.ok (.failure f), t) ∧ f.position = c.position ∧ f.Joins es := by
  induction tree generalizing s es t with
  | single p =>
    cases declined with
    | @more _ _ _ _ _ e _ run here rest =>
      cases rest
      exact ⟨e, run, here, .single e⟩
  | pair first second ihFirst ihSecond =>
    obtain ⟨es₁, es₂, t', rfl, declined₁, declined₂⟩ := Declined.append declined
    obtain ⟨f₁, run₁, here₁, joins₁⟩ := ihFirst declined₁
    obtain ⟨f₂, run₂, here₂, joins₂⟩ := ihSecond declined₂
    have both := xor_of_both run₁ here₁ run₂
    rw [Outcome.alternative_here f₁ here₂] at both
    exact ⟨f₂.merge f₁, both, here₂, joins₁.merge joins₂⟩

theorem choice_of_commits (tree : Nesting σ α) (parts : tree.alternatives = before ++ p :: after)
    (declined : Declined c before s es t) (commits : Commits c (p c t).1) :
    tree.choice c s = p c t := by
  induction tree generalizing before after s es with
  | single q =>
    have alone : before = [] := by
      cases before with
      | nil => rfl
      | cons x before => simp [alternatives] at parts
    subst alone
    cases parts
    cases declined
    rfl
  | pair first second ihFirst ihSecond =>
    rcases exists_part parts with ⟨others, rfl, rest⟩ | ⟨others, part⟩
    · obtain ⟨es₁, es₂, t', rfl, declined₁, declined₂⟩ := Declined.append declined
      obtain ⟨f, run, here, -⟩ := choice_of_declined first declined₁
      have found := ihSecond rest declined₂
      rw [← found] at commits
      exact (xor_of_failure run here commits).trans found
    · have found := ihFirst part declined
      rw [← found] at commits
      exact (xor_of_commits commits).trans found

end Nesting

/-- Some alternative commits the choice, or all of them decline. -/
theorem commits_or_declined (moves : AllMoveOn c ps s) :
    (∃ before p after es t, ps = before ++ p :: after ∧ Declined c before s es t ∧
      Commits c (p c t).1) ∨ ∃ es t, Declined c ps s es t := by
  induction ps generalizing s with
  | nil => exact .inr ⟨[], s, .none s⟩
  | cons p ps ih =>
    rcases run : p c s with ⟨e | o, t⟩
    · have commits : Commits c (p c s).1 := by rw [run]; trivial
      exact .inl ⟨[], p, ps, [], s, rfl, .none s, commits⟩
    by_cases stayed : o.cursor.position = c.position
    · cases o with
      | success v r => exact absurd stayed (moves [] p ps [] s rfl (.none s) v r t run)
      | failure e =>
        have moves' : AllMoveOn c ps t := fun before q after es u parts declined =>
          moves (p :: before) q after (e :: es) u (congrArg (p :: ·) parts)
            (.more run stayed declined)
        rcases ih moves' with ⟨before, q, after, es, u, rfl, declined, commits⟩ | ⟨es, u, declined⟩
        · exact .inl ⟨p :: before, q, after, e :: es, u, rfl, .more run stayed declined, commits⟩
        · exact .inr ⟨e :: es, u, .more run stayed declined⟩
    · have commits : Commits c (p c s).1 := by rw [run]; exact stayed
      exact .inl ⟨[], p, ps, [], s, rfl, .none s, commits⟩

theorem allMoveOn_of_forall (moves : ∀ p ∈ ps, ∀ t, p.MovesOn c t) : AllMoveOn c ps s := by
  rintro before p after es t rfl -
  exact moves p (List.mem_append_right before (List.mem_cons_self ..)) t

/-- However alternatives are nested, at a cursor where none that is reached matches without
consuming input they come to what they predict, and to nothing else. -/
theorem nested_choice_predicts (tree : Nesting σ α) (c : Cursor) (s : σ)
    (moves : AllMoveOn c tree.alternatives s) (result : Except Halt (Outcome α) × σ) :
    tree.choice c s = result ↔ Predicts c tree.alternatives s result := by
  constructor
  · rintro rfl
    rcases commits_or_declined moves with
      ⟨before, p, after, es, t, parts, declined, commits⟩ | ⟨es, t, declined⟩
    · rw [tree.choice_of_commits parts declined commits, parts]
      exact .committed declined commits
    · obtain ⟨f, run, here, joins⟩ := tree.choice_of_declined declined
      rw [run]
      exact .failed declined joins here
  · intro predicts
    generalize parts : tree.alternatives = ps at predicts
    cases predicts with
    | committed declined commits => exact tree.choice_of_commits parts declined commits
    | failed declined joined here =>
      subst parts
      obtain ⟨f, run, -, joins⟩ := tree.choice_of_declined declined
      rw [run, joins.unique joined]

/-- Two nestings of three texts: the second text has read a letter and decides, or all fail at
once. -/
theorem nested_texts_predicted :
    let a : Parser Unit String := literal "a"
    let bc : Parser Unit String := literal "bc"
    let d : Parser Unit String := literal "d"
    let left : Nesting Unit String := .pair (.pair (.single a) (.single bc)) (.single d)
    let right : Nesting Unit String := .pair (.single a) (.pair (.single bc) (.single d))
    let c := Cursor.start ['b', 'x']
    let e := Cursor.start ['x']
    AllMoveOn c left.alternatives () ∧ AllMoveOn e right.alternatives () ∧
      left.choice c () = bc c () ∧
      Predicts e right.alternatives () (.ok (.failure
        ⟨e, .expected "'d'" (some 'x'), .ofList ["'a'", "'bc'", "'d'"]⟩), ()) := by
  intro a bc d left right c e
  have moves (k : Cursor) (run₁ : ∃ f, a k () = (.ok (.failure f), ()))
      (run₂ : ∃ f, bc k () = (.ok (.failure f), ())) (run₃ : ∃ f, d k () = (.ok (.failure f), ())) :
      AllMoveOn k [a, bc, d] () := by
    refine allMoveOn_of_forall fun p mem t v r u matched => ?_
    have run : ∃ f, p k () = (.ok (.failure f), ()) := by
      simp only [List.mem_cons, List.not_mem_nil, or_false] at mem
      rcases mem with rfl | rfl | rfl <;> assumption
    obtain ⟨f, run⟩ := run
    cases run.symm.trans matched
  have movesC : AllMoveOn c left.alternatives () := moves c ⟨_, rfl⟩ ⟨_, rfl⟩ ⟨_, rfl⟩
  have movesE : AllMoveOn e right.alternatives () := moves e ⟨_, rfl⟩ ⟨_, rfl⟩ ⟨_, rfl⟩
  have commits : Commits c (bc c ()).1 := Nat.one_ne_zero
  have first : Declined c [a] () _ () := .more rfl rfl (.none ())
  exact ⟨movesC, movesE, (nested_choice_predicts left c () movesC _).mpr (.committed first commits),
    (nested_choice_predicts right e () movesE _).mp rfl⟩

end Nestings

end Parser
end Descent
