import Descent.Proofs.Commitment
import Descent.Proofs.Grouping

/-!
Alternatives joined by `or`, which goes back to where it began.
Main statements: a choice may be regrouped, but for labels of its first alternative that may be lost
in one of the groupings; and two alternatives may share what they begin with, but for labels, unless
that consumes input and what follows in the first alternative then matches without consuming more.
-/

namespace Descent

theorem Labels.ne_union_iff {s t : Labels} : s ≠ s ∪ t ↔ ∃ label ∈ t, ¬ label ∈ s := by
  constructor
  · intro differ
    by_contra none
    refine differ (Labels.ext fun label => ?_)
    constructor
    · exact fun left => mem_union.mpr (.inl left)
    · intro either
      rcases mem_union.mp either with left | right
      · exact left
      · exact by_contra fun missing => none ⟨label, right, missing⟩
  · rintro ⟨label, inside, missing⟩ same
    rw [same] at missing
    exact missing (mem_union.mpr (.inr inside))

namespace Outcome

variable {α : Type} {c : Cursor} {o o' o'' : Outcome α}

/-- The outcome with no labels. -/
def unlabelled : Outcome α → Outcome α
  | success v r => success v r
  | failure e => failure (e.expecting ∅)

/-- What a failure expects. -/
def labels : Outcome α → Labels
  | success _ _ => ∅
  | failure e => e.expectations

/-- Of three failures of alternatives at `c`, the second has consumed input and the third has not,
and the first has a label that neither of them has. -/
inductive LosesLabel (c : Cursor) : Outcome α → Outcome α → Outcome α → Prop
  | late {e e' e'' : Failure} {label : String} (moved : e'.position ≠ c.position)
    (here : e''.position = c.position) (first : label ∈ e.expectations)
    (second : ¬ label ∈ e'.expectations) (third : ¬ label ∈ e''.expectations) :
    LosesLabel c (failure e) (failure e') (failure e'')

/-- Behind a failure only the labels of an outcome change. -/
theorem unlabelled_behind (e : Failure) (o : Outcome α) (c : Cursor) :
    ((failure e).alternative c o).unlabelled = o.unlabelled := by
  cases o with
  | success w r => rfl
  | failure e' =>
    by_cases here : e'.position = c.position
    · rw [alternative_here e here]
      rfl
    · rw [alternative_moved (o := failure e') e here]

theorem unlabelled_alternative (o o' : Outcome α) (c d : Cursor) :
    (o.alternative c o').unlabelled = (o.alternative d o').unlabelled := by
  cases o with
  | success v r => cases o' <;> rfl
  | failure e => rw [unlabelled_behind, unlabelled_behind]

end Outcome

/-- How two results compare of which the first may have lost labels: they are the same halt, or
outcomes that are the same but for labels. -/
inductive Regroups {σ α : Type} (lost : Prop) :
    Except Halt (Outcome α) × σ → Except Halt (Outcome α) × σ → Prop
  | halt (e : Halt) (t : σ) : Regroups lost (.error e, t) (.error e, t)
  | outcome {o o' : Outcome α} (t : σ) (same : o.unlabelled = o'.unlabelled)
    (within : ∀ label ∈ o.labels, label ∈ o'.labels) (differ : o.labels ≠ o'.labels ↔ lost) :
    Regroups lost (.ok o, t) (.ok o', t)

theorem Regroups.refl {σ α : Type} {lost : Prop} (kept : ¬ lost) (o : Outcome α) (t : σ) :
    Regroups lost (.ok o, t) (.ok o, t) :=
  .outcome t rfl (fun _ => id) ⟨fun differ => absurd rfl differ, fun lost => absurd lost kept⟩

namespace Outcome

variable {σ α : Type} {c : Cursor} {o' : Outcome α}

/-- Where the second alternative fails further on and the third does not, what the first one expects
is joined only in the grouping to the right. -/
theorem merge_regroups {e e' e'' : Failure} (moved : e'.position ≠ c.position)
    (here : e''.position = c.position) (t : σ) :
    Regroups (α := α) (LosesLabel c (failure e : Outcome α) (failure e') (failure e''))
      (.ok (failure (e''.merge e')), t) (.ok (failure ((e''.merge e').merge e)), t) := by
  have missing (label : String) : ¬ label ∈ (e''.merge e').expectations ↔
      ¬ label ∈ e''.expectations ∧ ¬ label ∈ e'.expectations := by
    simp only [Failure.merge, Labels.mem_union, not_or]
  refine .outcome t rfl (fun label inside => Labels.mem_union.mpr (.inl inside)) ?_
  constructor
  · intro differ
    obtain ⟨label, first, neither⟩ := Labels.ne_union_iff.mp differ
    obtain ⟨third, second⟩ := (missing label).mp neither
    exact .late moved here first second third
  · rintro ⟨-, -, first, second, third⟩
    exact Labels.ne_union_iff.mpr ⟨_, first, (missing _).mpr ⟨third, second⟩⟩

theorem alternative_regroups (o o'' : Outcome α) (unsettled : ¬ o'.Settles c) (t : σ) :
    Regroups (LosesLabel c o o' o'') (.ok ((o.alternative c o').alternative c o''), t)
      (.ok (o.alternative c (o'.alternative c o'')), t) := by
  by_cases stayed : o'.cursor.position = c.position
  · rw [alternative_assoc o o'' stayed]
    refine .refl ?_ _ t
    rintro ⟨moved, -⟩
    exact moved stayed
  cases o' with
  | success w r => exact absurd stayed unsettled
  | failure e' =>
    cases o'' with
    | success w r =>
      simp only [alternative_match]
      exact .refl nofun _ t
    | failure e'' =>
      cases o with
      | success v r => exact .refl nofun _ t
      | failure e =>
        rw [alternative_moved (o := failure e') e stayed]
        by_cases here : e''.position = c.position
        · have outer : (e''.merge e').position = c.position := here
          rw [alternative_here e' here, alternative_here e outer]
          exact merge_regroups stayed here t
        · rw [alternative_moved (o := failure e'') e' here,
            alternative_moved (o := failure e'') e here]
          refine .refl ?_ _ t
          rintro ⟨-, shallow⟩
          exact here shallow

end Outcome

namespace Parser

variable {σ α β : Type}

section Regrouping

variable {p q r : Parser σ α} {c : Cursor} {s t u x : σ} {o o' o'' : Outcome α}

/-- From the state `s` on, all three fail at `c`: `q` further on, `r` at once, and `p` with a label
that neither of them has. -/
def LosesLabel (p q r : Parser σ α) (c : Cursor) (s : σ) : Prop :=
  ∃ o t o' u o'' x, p c s = (.ok o, t) ∧ q c t = (.ok o', u) ∧ r c u = (.ok o'', x) ∧
    Outcome.LosesLabel c o o' o''

theorem losesLabel_iff (first : p c s = (.ok o, t)) (second : q c t = (.ok o', u))
    (third : r c u = (.ok o'', x)) : p.LosesLabel q r c s ↔ Outcome.LosesLabel c o o' o'' := by
  constructor
  · rintro ⟨_, _, _, _, _, _, first', second', third', lost⟩
    cases first.symm.trans first'
    cases second.symm.trans second'
    cases third.symm.trans third'
    exact lost
  · intro lost
    exact ⟨o, t, o', u, o'', x, first, second, third, lost⟩

theorem not_losesLabel_of_first {v : α} {d : Cursor} (first : p c s = (.ok (.success v d), t)) :
    ¬ p.LosesLabel q r c s := by
  rintro ⟨_, _, _, _, _, _, first', -, -, lost⟩
  cases first.symm.trans first'
  nomatch lost

theorem not_losesLabel_of_second (first : p c s = (.ok o, t)) {v : α} {d : Cursor}
    (second : q c t = (.ok (.success v d), u)) : ¬ p.LosesLabel q r c s := by
  rintro ⟨_, _, _, _, _, _, first', second', -, lost⟩
  cases first.symm.trans first'
  cases second.symm.trans second'
  nomatch lost

/-- Choices that go back regroup: they come to the same halt, to the same value and remainder, or to
a failure at the same place with the same message. Grouping to the left has no labels that grouping
to the right has not, and it has all of them unless the second alternative fails further on, the
third at once, and the first with a label that neither of them has. -/
theorem or_regroups (p q r : Parser σ α) (c : Cursor) (s : σ) :
    Regroups (p.LosesLabel q r c s) ((p.or q).or r c s) (p.or (q.or r) c s) := by
  rcases first : p c s with ⟨e | o, t⟩
  · rw [or_of_error (or_of_error first), or_of_error first]
    exact .halt e t
  by_cases settles : o.Settles c
  · cases o with
    | failure e => exact settles.elim
    | success v d =>
      rw [or_of_moved (or_of_moved first settles) settles, or_of_moved first settles]
      exact .refl (not_losesLabel_of_first first) _ t
  rcases second : q c t with ⟨e | o', u⟩
  · rw [or_of_error (or_of_both_error first settles second),
      or_of_both_error first settles (or_of_error second)]
    exact .halt e u
  by_cases settles' : o'.Settles c
  · cases o' with
    | failure e => exact settles'.elim
    | success w d =>
      have both := or_of_both first settles second
      have later := or_of_both first settles (or_of_moved (q := r) second settles')
      rw [Outcome.alternative_match] at both later
      rw [or_of_moved both settles', later]
      exact .refl (not_losesLabel_of_second first second) _ u
  have both := or_of_both first settles second
  have unsettled := Outcome.alternative_unsettled settles settles'
  rcases third : r c u with ⟨e | o'', x⟩
  · rw [or_of_both_error both unsettled third,
      or_of_both_error first settles (or_of_both_error second settles' third)]
    exact .halt e x
  · rw [or_of_both both unsettled third,
      or_of_both first settles (or_of_both second settles' third),
      losesLabel_iff first second third]
    exact Outcome.alternative_regroups o o'' settles' x

/-- Grouping to the right keeps the label of `a` behind `bc`, which has read its first letter. -/
example : ((literal "a").or ((literal "bc").or (literal "d")) (Cursor.start ['b', 'x']) ()).1 =
    .ok (.failure ⟨.start ['b', 'x'], .expected "'d'" (some 'b'),
      .ofList ["'a'", "'c'", "'d'"]⟩) := by
  rfl

end Regrouping

section Prefixes

/-- A parser that is a function of the cursor, also where it halts. -/
def ofResult (f : Cursor → Except Halt (Outcome α)) : Parser σ α := fun c s => (f c, s)

/-- What a run comes to, without labels and as `view` sees halts. -/
def bare (view : Halt → Halt) (x : Except Halt (Outcome α) × σ) : Except Halt (Outcome α) :=
  (x.1.mapError view).map Outcome.unlabelled

/-- From the state `s` on, `a` consumes input at `c`, and `b` then matches without consuming
more. -/
def EndsEmpty (a : Parser σ α) (b : Parser σ β) (c : Cursor) (s : σ) : Prop :=
  ∃ v d t w r u, a c s = (.ok (.success v d), t) ∧ d.position ≠ c.position ∧
    b d t = (.ok (.success w r), u) ∧ r.position = d.position

/-- How two alternatives that both begin with `a` do beside one `a` with the alternatives behind
it. -/
structure FactorsLeft (view : Halt → Halt) (a : Parser σ α) (b b' : Parser σ β) (c : Cursor)
    (s : σ) : Prop where
  same : ¬ a.EndsEmpty b c s →
    bare view ((a.ignoreThen b).or (a.ignoreThen b') c s) =
      bare view (a.ignoreThen (b.or b') c s)
  /-- Behind what `a` consumes, an empty match of `b` stands in one of them; in the other one it
  only stands if the second alternative fails. -/
  apart : ∀ v d t w r u, a c s = (.ok (.success v d), t) → d.position ≠ c.position →
    b d t = (.ok (.success w r), u) → r.position = d.position →
    (a.ignoreThen b).or (a.ignoreThen b') c s = (.ok (.success w r), u) ∧
    a.ignoreThen (b.or b') c s = match b' d u with
      | (.ok (.success w' r'), x) => (.ok (.success w' r'), x)
      | (.ok (.failure _), x) => (.ok (.success w r), x)
      | (.error e, x) => (.error e, x)

variable {view : Halt → Halt} {I : σ → Prop} {a : Parser σ α} {b b' : Parser σ β} {c d : Cursor}
  {s t u : σ} {v : α} {w : β} {r : Cursor} {o : Outcome β}

/-- Where `b` does not settle the choice, with `a` or without, the second alternative decides. -/
theorem bare_of_unsettled (ha : a.Replays view I) (hb : b.Replays view I) (hb' : b'.Replays view I)
    (hs : I s) (first : a c s = (.ok (.success v d), t)) (second : b d t = (.ok o, u))
    (unsettled : ¬ o.Settles c) (unsettled' : ¬ o.Settles d) :
    bare view ((a.ignoreThen b).or (a.ignoreThen b') c s) =
      bare view (a.ignoreThen (b.or b') c s) := by
  have keptU : I u := hb.kept (ha.kept hs first) second
  obtain ⟨x, again, keptX⟩ := ha.again hs first keptU
  have both : a.ignoreThen b c s = (.ok o, u) := (ignoreThen_of_success first).trans second
  have other : a.ignoreThen b' c u = b' d x := ignoreThen_of_success again
  have same := hb'.repeats d u x keptU keptX
  rw [or_of_unsettled both unsettled, ignoreThen_of_success first,
    or_of_unsettled second unsettled', Step.bind_apply, Step.bind_apply, other]
  rcases left : b' d x with ⟨e | o', y⟩ <;> rcases right : b' d u with ⟨e' | o'', z⟩ <;>
    rw [left, right] at same
  · exact congrArg (·.map Outcome.unlabelled) same
  · cases same
  · cases same
  · obtain rfl : o' = o'' := Except.ok.inj same
    exact congrArg Except.ok (Outcome.unlabelled_alternative o o' c d)

theorem bare_factored (ha : a.Replays view I) (hb : b.Replays view I) (hb' : b'.Replays view I)
    (hs : I s) (regular : ¬ a.EndsEmpty b c s) :
    bare view ((a.ignoreThen b).or (a.ignoreThen b') c s) =
      bare view (a.ignoreThen (b.or b') c s) := by
  rcases first : a c s with ⟨e | ⟨v, d⟩ | f, t⟩
  · rw [or_of_error (ignoreThen_of_error first), ignoreThen_of_error first]
  · rcases second : b d t with ⟨e | ⟨w, r⟩ | f, u⟩
    · have both : a.ignoreThen b c s = (.error e, u) := (ignoreThen_of_success first).trans second
      rw [or_of_error both, ignoreThen_of_success first, or_of_error second]
    · have onward : c.position ≤ d.position := ha.position_le hs first
      have onward' : d.position ≤ r.position :=
        hb.position_le (ha.kept hs first) second
      have kept : d.position ≠ c.position → r.position ≠ d.position := fun moved empty =>
        regular ⟨v, d, t, w, r, u, first, moved, second, empty⟩
      by_cases moved : r.position = c.position
      · have stayed : r.position = d.position := by omega
        exact bare_of_unsettled ha hb hb' hs first second (not_not.mpr moved) (not_not.mpr stayed)
      · -- An empty match of `b` would leave to `a` all that has been consumed.
        have moved' : r.position ≠ d.position := by omega
        have both : a.ignoreThen b c s = (.ok (.success w r), u) :=
          (ignoreThen_of_success first).trans second
        rw [or_of_moved both moved, ignoreThen_of_success first, or_of_moved second moved']
    · exact bare_of_unsettled ha hb hb' hs first second id id
  · obtain ⟨x, again, -⟩ := ha.again hs first (ha.kept hs first)
    have both : a.ignoreThen b c s = (.ok (.failure f), t) := ignoreThen_of_failure first
    have other : a.ignoreThen b' c t = (.ok (.failure f), x) := ignoreThen_of_failure again
    rw [or_of_both both id other, ignoreThen_of_failure first]
    exact congrArg Except.ok (Outcome.unlabelled_behind f (.failure f) c)

theorem factorsLeft (ha : a.Replays view I) (hb : b.Replays view I) (hb' : b'.Replays view I)
    (hs : I s) : FactorsLeft view a b b' c s where
  same := bare_factored ha hb hb' hs
  apart v d t w r u first moved second empty := by
    have both : a.ignoreThen b c s = (.ok (.success w r), u) :=
      (ignoreThen_of_success first).trans second
    refine ⟨or_of_moved both (by omega), ?_⟩
    have stayed : ¬ (Outcome.success w r).Settles d := not_not.mpr empty
    rw [ignoreThen_of_success first]
    rcases third : b' d u with ⟨e | ⟨w', r'⟩ | f, x⟩
    · exact or_of_both_error second stayed third
    · exact or_of_both second stayed third
    · exact or_of_both second stayed third

theorem ofResult_replays (f : Cursor → Except Halt (Outcome α))
    (advances : ∀ c o, f c = .ok o → c.position ≤ o.cursor.position) :
    (ofResult f : Parser σ α).Replays id fun _ => True where
  keeps _ _ _ := trivial
  onward c _ o _ run := advances c o run
  repeats _ _ _ _ _ := rfl

end Prefixes

end Parser

/-- Two alternatives that begin alike come to the same as if they shared what they begin with: the
same halt, the same value and remainder, or a failure at the same place with the same message. Only
where that consumes input and the first alternative then matches without consuming more, its match
stands on one side, and on the other side only if the second alternative fails. This holds of all
parsers that do not go back and come to the same when they are run again: of functions of the
cursor, and of the parsers of a forward grammar, whose halts have no numbers of rules here, since
rules that a chooser creates are numbered anew in every run. -/
theorem left_factoring_preserves :
    (∀ (σ α β : Type) (view : Halt → Halt) (I : σ → Prop) (a : Parser σ α) (b b' : Parser σ β),
      a.Replays view I → b.Replays view I → b'.Replays view I → ∀ (c : Cursor) (s : σ), I s →
        Parser.FactorsLeft view a b b' c s) ∧
    (∀ (σ α β : Type) (f : Cursor → Except Halt (Outcome α))
      (g g' : Cursor → Except Halt (Outcome β)),
      (∀ c o, f c = .ok o → c.position ≤ o.cursor.position) →
      (∀ c o, g c = .ok o → c.position ≤ o.cursor.position) →
      (∀ c o, g' c = .ok o → c.position ≤ o.cursor.position) → ∀ (c : Cursor) (s : σ),
        Parser.FactorsLeft id (.ofResult f) (.ofResult g) (.ofResult g') c s) ∧
    ∀ (s : Store) (a b b' : Term), s.Hosts [a, b, b'] → s.Within .forward → a.Within .forward →
      b.Within .forward → b'.Within .forward → ∀ (n : Nat) (c : Cursor),
        Parser.FactorsLeft Halt.unnumbered (a.parse n) (b.parse n) (b'.parse n) c s := by
  refine ⟨?_, ?_, ?_⟩
  · intro σ α β view I a b b' ha hb hb' c s hs
    exact Parser.factorsLeft ha hb hb' hs
  · intro σ α β f g g' hf hg hg' c s
    exact Parser.factorsLeft (Parser.ofResult_replays f hf) (Parser.ofResult_replays g hg)
      (Parser.ofResult_replays g' hg') trivial
  · rintro s a b b' ⟨w, rfl, hosts⟩ store insideA insideB insideB' n c
    have ha := hosts.regular (t := a) (by simp) insideA n
    have hb := hosts.regular (t := b) (by simp) insideB n
    have hb' := hosts.regular (t := b') (by simp) insideB' n
    exact Parser.factorsLeft ha.toReplays hb.toReplays hb'.toReplays ⟨store, rfl, w, .refl w, rfl⟩

/-- A text whose first letter is shared; behind it, empty text is what one side takes and the other
does not. A defect behind a shared character is the same defect. -/
theorem first_letter_factored :
    let x := (Term.leaf (.literal "x")).parse 1
    let ya := (Term.leaf (.literal "ya")).parse 1
    let yb := (Term.leaf (.literal "yb")).parse 1
    let nothing := (Term.leaf (.literal "")).parse 1
    let c := Cursor.start ['x', 'y', 'b']
    let behind : Cursor := ⟨['x'], ['y', 'b'], 0⟩
    let one : Cursor → Except Halt (Outcome Value) := fun c => .ok (Custom.take 1 c)
    let lost : Cursor → Except Halt (Outcome Value) := fun _ =>
      .error (.defect (.undefinedRule ⟨0⟩))
    Parser.bare Halt.unnumbered ((x.ignoreThen ya).or (x.ignoreThen yb) c .empty) =
        Parser.bare Halt.unnumbered (x.ignoreThen (ya.or yb) c .empty) ∧
      (x.ignoreThen nothing).or (x.ignoreThen yb) c .empty =
        (.ok (.success (.str "") behind), .empty) ∧
      x.ignoreThen (nothing.or yb) c .empty =
        (.ok (.success (.str "yb") ⟨['b', 'y', 'x'], [], 0⟩), .empty) ∧
      Parser.bare id (((Parser.ofResult one).ignoreThen (.ofResult lost)).or
          ((Parser.ofResult one).ignoreThen (.ofResult one)) c ()) =
        Parser.bare id ((Parser.ofResult one).ignoreThen
          ((Parser.ofResult lost).or (.ofResult one)) c ()) := by
  intro x ya yb nothing c behind one lost
  have store := Store.empty_within .forward
  obtain ⟨replaying, -, grammars⟩ := left_factoring_preserves
  have texts := grammars .empty _ _ _
    (Store.empty_hosts [.literal "x", .literal "ya", .literal "yb"]) store nofun nofun nofun 1 c
  have empties := grammars .empty _ _ _
    (Store.empty_hosts [.literal "x", .literal "", .literal "yb"]) store nofun nofun nofun 1 c
  have takes : (Parser.ofResult one : Parser Unit Value).Replays id fun _ => True := by
    refine Parser.ofResult_replays one fun c o run => ?_
    cases run
    exact (Custom.take_forward 1 c).onward
  have halts : (Parser.ofResult lost : Parser Unit Value).Replays id fun _ => True :=
    Parser.ofResult_replays lost nofun
  have defects := replaying Unit Value Value id _ _ _ _ takes halts takes c () trivial
  obtain ⟨left, right⟩ := empties.apart (.str "x") behind .empty (.str "") behind .empty rfl nofun
    rfl rfl
  refine ⟨texts.same ?_, left, right, defects.same ?_⟩
  · rintro ⟨v, d, t, w, r, u, first, -, second, -⟩
    cases first
    cases second
  · rintro ⟨v, d, t, w, r, u, first, -, second, -⟩
    cases second

end Descent
