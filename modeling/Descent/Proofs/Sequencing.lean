import Descent.Proofs.Iteration

/-!
Sequences of parsers in terms of `andThen`. The combinators of sequence and repetition have code of
their own, and so has `optional`.
Main statements: on every path each of them does what its definition by `andThen` does, and
`optional` is a choice before an empty match unless its parser matches without consuming input;
sequences, mappings and tests regroup as lists, pairs, functions and conditions do.
-/

namespace Descent.Parser

variable {σ α β γ : Type}

section Definitions

theorem giving_eq_andThen (w : β) (p : Parser σ α) :
    p.giving w = p.andThen fun _ => succeed w :=
  map_eq_andThen _ p

theorem ignoreThen_eq_andThen (p : Parser σ α) (q : Parser σ β) :
    p.ignoreThen q = p.andThen fun _ => q := rfl

theorem thenIgnore_eq_andThen (p : Parser σ α) (q : Parser σ β) :
    p.thenIgnore q = p.andThen fun v => q.map fun _ => v := rfl

theorem both_eq_andThen (p : Parser σ α) (q : Parser σ β) :
    p.both q = p.andThen fun v => q.map (v, ·) := rfl

theorem concat_eq_andThen (p q : Parser σ (List α)) :
    p.concat q = p.andThen fun xs => q.map (xs ++ ·) := by
  funext c
  simp only [concat, andThen]
  congr 1
  funext o
  cases o <;> rfl

theorem between_eq_sequence (p : Parser σ α) (q : Parser σ β) (r : Parser σ γ) :
    between p q r = p.ignoreThen (q.thenIgnore r) := rfl

theorem complete_eq_thenIgnore (p : Parser σ α) : p.complete = p.thenIgnore endOfInput := rfl

/-- What a repetition has found already only stands before what it finds. -/
theorem collect_found (p : Parser σ α) (n : Nat) (found : List α) :
    collect p n found = (collect p n []).map (found.reverse ++ ·) := by
  rw [collect_eq_gather, collect_eq_gather, gather_found]

theorem once_concat (p : Parser σ α) (q : Parser σ (List α)) :
    p.once.concat q = p.andThen fun v => q.map (v :: ·) := by
  rw [concat_eq_andThen, once, map_eq_andThen, andThen_andThen]
  simp only [succeed_andThen, List.singleton_append]

theorem atLeastOnce_eq_concat (p : Parser σ α) (n : Nat) :
    p.atLeastOnce n = p.once.concat (p.many n) := by
  have rest (v : α) : collect p n [v] = (p.many n).map (v :: ·) := collect_found p n [v]
  have unfolded : p.atLeastOnce n = p.andThen fun v => collect p n [v] := rfl
  rw [unfolded, once_concat]
  simp only [rest]

end Definitions

section Optional

variable {p : Parser σ α} {c : Cursor} {s t : σ}

theorem optional_of_error {e : Halt} (run : p c s = (.error e, t)) :
    p.optional c s = (.error e, t) :=
  Step.bind_of_error run _

theorem optional_of_success {v : α} {r : Cursor} (run : p c s = (.ok (.success v r), t)) :
    p.optional c s = (.ok (.success (some v) r), t) :=
  Step.bind_of_ok run _

theorem optional_of_moved {e : Failure} (run : p c s = (.ok (.failure e), t))
    (moved : e.position ≠ c.position) : p.optional c s = (.ok (.failure e), t) :=
  (Step.bind_of_ok run _).trans (congrFun (if_neg moved) t)

theorem optional_of_stayed {e : Failure} (run : p c s = (.ok (.failure e), t))
    (stayed : e.position = c.position) : p.optional c s = (.ok (.success none c), t) :=
  (Step.bind_of_ok run _).trans (congrFun (if_pos stayed) t)

/-- Before an empty match, what has consumed nothing does not count. -/
theorem xor_succeed_of_stayed {o : Outcome α} {w : α} (run : p c s = (.ok o, t))
    (stayed : o.cursor.position = c.position) :
    p.xor (succeed w) c s = (.ok (.success w c), t) := by
  rw [xor_of_stayed run stayed]
  cases o <;> rfl

/-- From the state `s` on, `p` does not match at `c` without consuming input. -/
def MovesOn (p : Parser σ α) (c : Cursor) (s : σ) : Prop :=
  ∀ v r t, p c s = (.ok (.success v r), t) → r.position ≠ c.position

theorem optional_eq_xor (moves : p.MovesOn c s) :
    p.optional c s = (p.map some).xor (succeed none) c s := by
  rcases run : p c s with ⟨e | o, t⟩
  · rw [optional_of_error run, xor_of_error (map_of_error run)]
  cases o with
  | success v r =>
    rw [optional_of_success run, xor_of_moved (map_of_ok run) (moves v r t run)]
    rfl
  | failure e =>
    by_cases stayed : e.position = c.position
    · rw [optional_of_stayed run stayed, xor_succeed_of_stayed (map_of_ok run) stayed]
    · rw [optional_of_moved run stayed, xor_of_moved (map_of_ok run) stayed]
      rfl

/-- A match that consumes nothing stands in `optional`, and not before an empty match. -/
theorem optional_and_xor_of_empty {v : α} {r : Cursor} (run : p c s = (.ok (.success v r), t))
    (empty : r.position = c.position) :
    p.optional c s = (.ok (.success (some v) r), t) ∧
      (p.map some).xor (succeed none) c s = (.ok (.success none c), t) :=
  ⟨optional_of_success run, xor_succeed_of_stayed (map_of_ok run) empty⟩

end Optional

/-- What has code of its own is determined by `andThen`: mapping and sequences for all parsers, on
every path and in every state that they may read; a repetition that requires its first match, for
every amount of fuel; and `optional`, as a choice before an empty match, at every cursor where its
parser does not match without consuming input. There `optional` has the match and the choice has
none. -/
theorem derived_from_andThen (p : Parser σ α) (q : Parser σ β) (r : Parser σ γ)
    (xs ys : Parser σ (List α)) (f : α → β) (w : β) :
    p.map f = (p.andThen fun v => succeed (f v)) ∧
    p.giving w = (p.andThen fun _ => succeed w) ∧
    p.ignoreThen q = (p.andThen fun _ => q) ∧
    p.thenIgnore q = (p.andThen fun v => q.map fun _ => v) ∧
    p.both q = (p.andThen fun v => q.map fun w => (v, w)) ∧
    xs.concat ys = (xs.andThen fun v => ys.map fun w => v ++ w) ∧
    between p q r = p.ignoreThen (q.thenIgnore r) ∧
    p.complete = p.thenIgnore endOfInput ∧
    (∀ n, p.atLeastOnce n = p.once.concat (p.many n)) ∧
    ∀ c s,
      (p.MovesOn c s → p.optional c s = (p.map some).xor (succeed none) c s) ∧
      ∀ v d t, p c s = (.ok (.success v d), t) → d.position = c.position →
        p.optional c s = (.ok (.success (some v) d), t) ∧
          (p.map some).xor (succeed none) c s = (.ok (.success none c), t) :=
  ⟨map_eq_andThen f p, giving_eq_andThen w p, ignoreThen_eq_andThen p q, thenIgnore_eq_andThen p q,
    both_eq_andThen p q, concat_eq_andThen xs ys, between_eq_sequence p q r,
    complete_eq_thenIgnore p, atLeastOnce_eq_concat p, fun _ _ =>
      ⟨optional_eq_xor, fun _ _ _ run empty => optional_and_xor_of_empty run empty⟩⟩

/-- An optional letter is a choice where another letter stands, and optional empty text is not. -/
theorem optional_letter_derived :
    let c := Cursor.start ['b']
    let letter : Parser Unit Char := char 'a'
    let nothing : Parser Unit String := literal ""
    letter.MovesOn c () ∧ nothing c () = (.ok (.success "" c), ()) ∧
      letter.optional c () = (letter.map some).xor (succeed none) c () ∧
      nothing.optional c () = (.ok (.success (some "") c), ()) ∧
      (nothing.map some).xor (succeed none) c () = (.ok (.success none c), ()) := by
  intro c letter nothing
  have moves : letter.MovesOn c () := fun _ _ _ run => nomatch run
  have empty : nothing c () = (.ok (.success "" c), ()) := rfl
  obtain ⟨-, -, -, -, -, -, -, -, -, choice⟩ :=
    derived_from_andThen letter letter letter letter.once letter.once id 'a'
  obtain ⟨-, -, -, -, -, -, -, -, -, exception⟩ :=
    derived_from_andThen nothing nothing nothing nothing.once nothing.once id ""
  exact ⟨moves, empty, (choice c ()).1 moves, (exception c ()).2 "" c () empty rfl⟩

section Regrouping

theorem concat_assoc (p q r : Parser σ (List α)) :
    (p.concat q).concat r = p.concat (q.concat r) := by
  simp only [concat_eq_andThen, map_eq_andThen, andThen_andThen, succeed_andThen,
    List.append_assoc]

theorem succeed_concat (p : Parser σ (List α)) : (succeed []).concat p = p := by
  simp only [concat_eq_andThen, map_eq_andThen, succeed_andThen, List.nil_append, andThen_succeed]

theorem concat_succeed (p : Parser σ (List α)) : p.concat (succeed []) = p := by
  simp only [concat_eq_andThen, map_eq_andThen, succeed_andThen, List.append_nil, andThen_succeed]

theorem both_assoc (p : Parser σ α) (q : Parser σ β) (r : Parser σ γ) :
    ((p.both q).both r).map (fun ((v, w), x) => (v, (w, x))) = p.both (q.both r) := by
  simp only [both_eq_andThen, map_eq_andThen, andThen_andThen, succeed_andThen]

theorem filter_filter (shown : α → String) (a b : α → Bool) (p : Parser σ α) :
    filter shown b (filter shown a p) = filter shown (fun v => a v && b v) p := by
  funext c
  simp only [filter, bind_assoc]
  congr 1
  funext o
  cases o with
  | failure e => rfl
  | success v r =>
    cases accepted : a v with
    | false => simp [accepted]
    | true => simp [accepted]

end Regrouping

/-- Sequences regroup: `succeed` and `andThen` as a monad, lists as a monoid, pairs up to the place
of their brackets, mappings as functions and tests as a conjunction. -/
theorem sequencing_laws (p : Parser σ α) (q : Parser σ β) (r : Parser σ γ)
    (f : α → Parser σ β) (g : β → Parser σ γ) (xs ys zs : Parser σ (List α)) (h : α → β)
    (k : β → γ) (shown : α → String) (a b : α → Bool) (v : α) :
    (succeed v).andThen f = f v ∧
    p.andThen succeed = p ∧
    (p.andThen f).andThen g = (p.andThen fun v => (f v).andThen g) ∧
    (xs.concat ys).concat zs = xs.concat (ys.concat zs) ∧
    (succeed []).concat xs = xs ∧
    xs.concat (succeed []) = xs ∧
    ((p.both q).both r).map (fun ((v, w), x) => (v, (w, x))) = p.both (q.both r) ∧
    (p.map h).map k = p.map (k ∘ h) ∧
    filter shown b (filter shown a p) = filter shown (fun v => a v && b v) p :=
  ⟨succeed_andThen v f, andThen_succeed p, andThen_andThen p f g, concat_assoc xs ys zs,
    succeed_concat xs, concat_succeed xs, both_assoc p q r, map_map h k,
    filter_filter shown a b p⟩

end Descent.Parser
