import Descent.Proofs.Bracketing
import Descent.Proofs.Forward
import Descent.Proofs.Sequencing

/-!
Separated lists beside other ways to read them. A separated list requires an item after every
separator; a repetition of a separator with its item drops what is incomplete; a chain drops it if
it consumes nothing.
Main statements: a separated list and a first item before a repetition come to the same unless
something incomplete follows, and then the list fails as that does; and where separators consume
input, the list is that of the operands which chains fold.
-/

namespace Descent.Parser

variable {σ α β : Type} {I : σ → Prop}

section Advances

variable {p : Parser σ α} {separator : Parser σ β} {c : Cursor} {s t u : σ} {o : Outcome α}

/-- A separator with its item comes to the failure of the separator, or to what the item does. -/
theorem ignoreThen_cases (run : separator.ignoreThen p c s = (.ok o, u)) :
    (∃ f, separator c s = (.ok (.failure f), u) ∧ o = .failure f) ∨
      ∃ w d t, separator.Matches c s w d t ∧ p d t = (.ok o, u) := by
  obtain ⟨outcome, t, first, rest⟩ := Step.bind_eq_ok_iff.mp run
  cases outcome with
  | failure f =>
    cases rest
    exact .inl ⟨f, first, rfl⟩
  | success w d => exact .inr ⟨w, d, t, first, rest⟩

theorem Advances.ignoreThen (hsep : separator.Advances I) (hp : p.Advances I) :
    (separator.ignoreThen p).Advances I where
  keeps c s hs := by
    rcases first : separator c s with ⟨e | ⟨w, d⟩ | f, t⟩
    · rw [ignoreThen_of_error first]
      exact hsep.kept hs first
    · rw [ignoreThen_of_success first]
      exact hp.keeps d t (hsep.kept hs first)
    · rw [ignoreThen_of_failure first]
      exact hsep.kept hs first
  onward c s o hs eq := by
    rcases ignoreThen_cases (Prod.ext eq rfl) with ⟨f, first, rfl⟩ | ⟨w, d, t, first, second⟩
    · exact hsep.position_le hs first
    · exact Nat.le_trans (hsep.position_le hs first)
        (hp.position_le (hsep.kept hs first) second)

end Advances

/-- The parsers of a forward grammar do not go back. -/
theorem advances_parse (n : Nat) {t : Term} (inside : t.Within .forward) :
    (t.parse n).Advances (Store.Within .forward) where
  keeps c _ store := (t.parse_ranges n inside c store).1
  onward c _ o store run := ((t.parse_ranges n inside c store).2.1 o run).onward

section Round

variable (p : Parser σ α) (separator : Parser σ β)

/-- A separated list is a first item before the loop. -/
theorem separatedBy_eq_andThen (n : Nat) :
    p.separatedBy n separator = p.andThen fun v => gather (p.separatedRound separator) n [v] := by
  simp only [← collectSeparated_eq_gather]
  rfl

/-- The repetition form of a separated list: a first item, and as many separators with an item as
there are. -/
def repeatedItems (n : Nat) : Parser σ (List α) :=
  p.once.concat ((separator.ignoreThen p).many n)

/-- The repetition form is a first item before the loop of the repetition. -/
theorem repeatedItems_eq_andThen (n : Nat) :
    p.repeatedItems separator n =
      p.andThen fun v => gather (separator.ignoreThen p).element n [v] := by
  rw [repeatedItems, once_concat]
  simp only [many_eq_gather, gather_found _ _ [_]]
  rfl

end Round

section Rounds

variable {p : Parser σ α} {separator : Parser σ β} {c r : Cursor} {s t u : σ} {f : Failure}

/-- Something incomplete follows: a separator fails further on, or no item follows a separator. -/
inductive Dangles (p : Parser σ α) (separator : Parser σ β) (c : Cursor) (s : σ) (f : Failure) :
    σ → Prop
  | separator {u : σ} (fails : separator c s = (.ok (.failure f), u))
    (moved : f.position ≠ c.position) : Dangles p separator c s f u
  | item {o : β} {d : Cursor} {t u : σ} (first : separator.Matches c s o d t)
    (fails : p d t = (.ok (.failure f), u)) : Dangles p separator c s f u

/-- No separator follows: it fails where it would begin. -/
structure NoneFollows (separator : Parser σ β) (c : Cursor) (s : σ) (f : Failure) (u : σ) :
    Prop where
  fails : separator c s = (.ok (.failure f), u)
  here : f.position = c.position

theorem separatedRound_of_success {v : α}
    (run : separator.ignoreThen p c s = (.ok (.success v r), u)) :
    p.separatedRound separator c s = (.ok (.more v r), u) := by
  rcases ignoreThen_cases run with ⟨f, -, eq⟩ | ⟨w, d, t, first, second⟩
  · cases eq
  · exact (Step.bind_of_ok first _).trans (Step.bind_of_ok second _)

theorem separatedRound_of_none (first : separator c s = (.ok (.failure f), u)) :
    p.separatedRound separator c s =
      (.ok (if f.position = c.position then .stop else .fail f), u) :=
  Step.bind_of_ok first _

/-- Where a separator with its item fails, the list ends if no separator follows, and fails as what
follows does if that is incomplete. -/
theorem separatedRound_of_failure (run : separator.ignoreThen p c s = (.ok (.failure f), u)) :
    (NoneFollows separator c s f u ∧ p.separatedRound separator c s = (.ok .stop, u)) ∨
      Dangles p separator c s f u ∧ p.separatedRound separator c s = (.ok (.fail f), u) := by
  rcases ignoreThen_cases run with ⟨f, first, eq⟩ | ⟨w, d, t, first, second⟩
  · cases eq
    rw [separatedRound_of_none first]
    by_cases here : f.position = c.position
    · exact .inl ⟨⟨first, here⟩, by rw [if_pos here]⟩
    · exact .inr ⟨.separator first here, by rw [if_neg here]⟩
  · exact .inr ⟨.item first second, (Step.bind_of_ok first _).trans (Step.bind_of_ok second _)⟩

theorem separatedRound_of_error {e : Halt} (run : separator.ignoreThen p c s = (.error e, u)) :
    p.separatedRound separator c s = (.error e, u) := by
  rcases first : separator c s with ⟨e' | ⟨o, d⟩ | f, t⟩
  · cases (ignoreThen_of_error first).symm.trans run
    exact Step.bind_of_error first _
  · rw [ignoreThen_of_success first] at run
    exact (Step.bind_of_ok first _).trans (Step.bind_of_error run _)
  · cases (ignoreThen_of_failure first).symm.trans run

/-- The rounds of a separated list find what a separator with its item yields. -/
theorem finds_separatedRound (p : Parser σ α) (separator : Parser σ β) :
    Finds (p.separatedRound separator) = (separator.ignoreThen p).Matches := by
  funext c s v d u
  refine propext ⟨fun found => ?_, separatedRound_of_success⟩
  rcases run : separator.ignoreThen p c s with ⟨e | ⟨w, r⟩ | f, t⟩
  · cases (separatedRound_of_error run).symm.trans found
  · cases (separatedRound_of_success run).symm.trans found
    exact run
  · rcases separatedRound_of_failure run with ⟨-, ends⟩ | ⟨-, ends⟩
    · cases ends.symm.trans found
    · cases ends.symm.trans found

/-- Items are read one after the other, all but the first behind a separator. -/
inductive ReadsItems (p : Parser σ α) (separator : Parser σ β) (c : Cursor) (s : σ) :
    List α → Cursor → σ → Prop
  | read {v : α} {vs : List α} {d r : Cursor} {t u : σ} (first : p.Matches c s v d t)
    (rest : Walk (separator.ignoreThen p).Matches d t vs r u) :
    ReadsItems p separator c s (v :: vs) r u

/-- What a separated list and its repetition form come to side by side. -/
inductive SideBySide (p : Parser σ α) (separator : Parser σ β) (c : Cursor) (s : σ) :
    Except Halt (Outcome (List α)) × σ → Except Halt (Outcome (List α)) × σ → Prop
  | halted (e : Halt) (u : σ) : SideBySide p separator c s (.error e, u) (.error e, u)
  | missing {f : Failure} {u : σ} (first : p c s = (.ok (.failure f), u)) :
    SideBySide p separator c s (.ok (.failure f), u) (.ok (.failure f), u)
  | ended {vs : List α} {r : Cursor} {t u : σ} {f : Failure}
    (items : ReadsItems p separator c s vs r t) (none : NoneFollows separator r t f u) :
    SideBySide p separator c s (.ok (.success vs r), u) (.ok (.success vs r), u)
  | parted {vs : List α} {r : Cursor} {t u : σ} {f : Failure}
    (items : ReadsItems p separator c s vs r t) (dangles : Dangles p separator r t f u) :
    SideBySide p separator c s (.ok (.failure f), u) (.ok (.success vs r), u)

theorem separatedBy_sideBySide (p : Parser σ α) (separator : Parser σ β) (n : Nat) (c : Cursor)
    (s : σ) :
    SideBySide p separator c s (p.separatedBy n separator c s)
      (p.repeatedItems separator n c s) := by
  rw [separatedBy_eq_andThen, repeatedItems_eq_andThen]
  rcases first : p c s with ⟨e | ⟨v, d⟩ | f, t⟩
  · rw [andThen_of_error first, andThen_of_error first]
    exact .halted e t
  · rw [andThen_of_success first, andThen_of_success first]
    -- Both loops walk through the same items, and part at most in the round behind them.
    obtain ⟨vs, r, u, walk, longest⟩ :=
      Walk.exists_longest (separator.ignoreThen p).Matches n d t
    have items : ReadsItems p separator c s (v :: vs) r u := .read first walk
    have listed := finds_separatedRound p separator ▸ walk
    have repeated := finds_element (separator.ignoreThen p) ▸ walk
    rcases longest with full | ⟨short, last⟩
    · rw [gather_of_full listed full, gather_of_full repeated full]
      exact .halted .outOfFuel u
    rcases run : separator.ignoreThen p r u with ⟨e | ⟨w, r'⟩ | f, u'⟩
    · rw [gather_of_halt listed short [v] (separatedRound_of_error run),
        gather_of_halt repeated short [v] (element_of_error run)]
      exact .halted e u'
    · exact absurd run (last w r' u')
    · rw [gather_of_stop repeated short [v] (element_of_failure run)]
      rcases separatedRound_of_failure run with ⟨none, ends⟩ | ⟨dangles, ends⟩
      · rw [gather_of_stop listed short [v] ends]
        exact .ended items none
      · rw [gather_of_fail listed short [v] ends]
        exact .parted items dangles
  · rw [andThen_of_failure first, andThen_of_failure first]
    exact .missing first

section SideBySide

variable {vs : List α} {x y : Except Halt (Outcome (List α)) × σ}

theorem SideBySide.of_matched (sides : SideBySide p separator c s (.ok (.success vs r), u) y) :
    y = (.ok (.success vs r), u) ∧
      ∃ t e, ReadsItems p separator c s vs r t ∧ NoneFollows separator r t e u := by
  cases sides with
  | ended items none => exact ⟨rfl, _, _, items, none⟩

theorem SideBySide.of_failed (sides : SideBySide p separator c s x (.ok (.failure f), u)) :
    p c s = (.ok (.failure f), u) := by
  cases sides with
  | missing first => exact first

theorem SideBySide.of_parted
    (sides : SideBySide p separator c s (.ok (.failure f), u) (.ok (.success vs r), t)) :
    t = u ∧ ∃ t', ReadsItems p separator c s vs r t' ∧ Dangles p separator r t' f u := by
  cases sides with
  | parted items dangles => exact ⟨rfl, _, items, dangles⟩

theorem SideBySide.halted_iff (sides : SideBySide p separator c s x y) {e : Halt} :
    x = (.error e, u) ↔ y = (.error e, u) := by
  cases sides with
  | halted => exact Iff.rfl
  | missing | ended | parted => constructor <;> nofun

end SideBySide

end Rounds

section Strictness

variable {p : Parser σ α} {separator : Parser σ β} {c r : Cursor} {s t u : σ} {f : Failure}
  {vs : List α}

theorem ReadsItems.kept (items : ReadsItems p separator c s vs r t) (hp : p.Advances I)
    (hsep : separator.Advances I) (hs : I s) : I t := by
  obtain ⟨first, rest⟩ := items
  exact rest.kept (fun step kept => (hsep.ignoreThen hp).kept kept step) (hp.kept hs first)

theorem Dangles.position_le (dangles : Dangles p separator c s f u) (hp : p.Advances I)
    (hsep : separator.Advances I) (hs : I s) : c.position ≤ f.position := by
  cases dangles with
  | separator fails => exact hsep.position_le hs fails
  | item first fails =>
    have before := hsep.position_le hs first
    have behind := hp.position_le (hsep.kept hs first) fails
    exact Nat.le_trans before behind

/-- How a separated list does beside its repetition form. -/
structure StricterThanRepetition (n : Nat) (p : Parser σ α) (separator : Parser σ β) (c : Cursor)
    (s : σ) : Prop where
  /-- Where the list matches, the repetition has the same items and the same remainder. -/
  matched : ∀ vs r u, p.separatedBy n separator c s = (.ok (.success vs r), u) →
    p.repeatedItems separator n c s = (.ok (.success vs r), u)
  /-- The repetition fails exactly where the first item does, and as it does. -/
  failed : ∀ f u, p.repeatedItems separator n c s = (.ok (.failure f), u) ↔
    p c s = (.ok (.failure f), u)
  /-- There the list fails in the same way. -/
  first : ∀ f u, p c s = (.ok (.failure f), u) →
    p.separatedBy n separator c s = (.ok (.failure f), u)
  halted : ∀ e u, p.separatedBy n separator c s = (.error e, u) ↔
    p.repeatedItems separator n c s = (.error e, u)
  /-- Where the list fails and the repetition matches, the failure is that of what is incomplete
  behind the items, and lies there or further on. -/
  parted : ∀ f vs r u u', p.separatedBy n separator c s = (.ok (.failure f), u) →
    p.repeatedItems separator n c s = (.ok (.success vs r), u') →
      u' = u ∧ r.position ≤ f.position ∧
        ∃ t, ReadsItems p separator c s vs r t ∧ Dangles p separator r t f u
  /-- A list that matches ends behind an item, where no separator follows. -/
  whole : ∀ vs r u, p.separatedBy n separator c s = (.ok (.success vs r), u) →
    ∃ t e, ReadsItems p separator c s vs r t ∧ NoneFollows separator r t e u

/-- A separated list is its repetition form but for what follows it: it requires an item behind
every separator, where the repetition drops a separator that is incomplete or has no item behind
it. This holds of all parsers that do not go back, with the same fuel for the rounds of both. -/
theorem separated_list_is_strict (hp : p.Advances I) (hsep : separator.Advances I) (n : Nat)
    (c : Cursor) (hs : I s) : StricterThanRepetition n p separator c s := by
  have sides := separatedBy_sideBySide p separator n c s
  refine ⟨fun vs r u matched => ?matched, fun f u => ⟨fun failed => ?failed, fun alone => ?missing⟩,
    fun f u alone => ?first, fun e u => sides.halted_iff,
    fun f vs r u u' failed matched => ?parted, fun vs r u matched => ?whole⟩
  case matched =>
    rw [matched] at sides
    exact sides.of_matched.1
  case failed =>
    rw [failed] at sides
    exact sides.of_failed
  case missing => rw [repeatedItems_eq_andThen, andThen_of_failure alone]
  case first => rw [separatedBy_eq_andThen, andThen_of_failure alone]
  case parted =>
    rw [failed, matched] at sides
    obtain ⟨same, t, items, dangles⟩ := sides.of_parted
    exact ⟨same, dangles.position_le hp hsep (items.kept hp hsep hs), t, items, dangles⟩
  case whole =>
    rw [matched] at sides
    exact sides.of_matched.2

/-- A digit stands behind the first separator and half a separator behind the second digit. -/
theorem half_separator_strict :
    let digit := (Term.leaf (.satisfy .digit)).parse 1
    let colons := (Term.leaf (.literal "::")).parse 1
    let c := Cursor.start ['1', ':', ':', '2', ':', '3']
    digit.Advances (Store.Within .forward) ∧ colons.Advances (Store.Within .forward) ∧
      Store.empty.Within .forward ∧ StricterThanRepetition 3 digit colons c .empty ∧
      (∃ f, digit.separatedBy 3 colons c .empty = (.ok (.failure f), .empty) ∧ f.position = 5) ∧
      digit.repeatedItems colons 3 c .empty =
        (.ok (.success [.char '1', .char '2'] ⟨['2', ':', ':', '1'], [':', '3'], 0⟩), .empty) := by
  intro digit colons c
  have store := Store.empty_within .forward
  have digits : digit.Advances (Store.Within .forward) := advances_parse 1 nofun
  have separators : colons.Advances (Store.Within .forward) := advances_parse 1 nofun
  exact ⟨digits, separators, store, separated_list_is_strict digits separators 3 c store,
    ⟨_, rfl, rfl⟩, rfl⟩

end Strictness

section Chains

variable {operator : Parser σ β} {operand : Parser σ α} {c d r : Cursor} {s t u : σ} {f : Failure}

theorem ignoreThen_eq_both (p : Parser σ α) (separator : Parser σ β) :
    separator.ignoreThen p = (separator.both p).map Prod.snd := by
  rw [ignoreThen_eq_andThen, both_eq_andThen, map_eq_andThen, andThen_andThen]
  simp only [map_eq_andThen, andThen_andThen, succeed_andThen]
  congr 1
  funext w
  exact (andThen_succeed p).symm

theorem satisfy_movesOn (k : CharClass) (c : Cursor) (s : σ) : (satisfy k).MovesOn c s := by
  intro x r t run
  rcases found : c.next? with _ | ⟨y, d⟩
  · simp only [satisfy, found] at run
    cases run
  · simp only [satisfy, found] at run
    split at run
    · cases run
      have := Cursor.position_of_next? found
      omega
    · cases run

theorem MovesOn.map {p : Parser σ α} (moves : p.MovesOn c s) (g : α → β) :
    (p.map g).MovesOn c s := by
  intro v r t run
  obtain ⟨w, alone, -⟩ := map_eq_success_iff.mp run
  exact moves w r t alone

section Moving

variable (hop : operator.Advances I) (hx : operand.Advances I)
  (moves : ∀ c s, I s → operator.MovesOn c s)
include hop hx moves

/-- Where operators consume input, an operator and what follows it lie further on. -/
theorem position_lt_of_matches (hs : I s) {o : β} (first : operator.Matches c s o d t)
    {y : Outcome α} (second : operand d t = (.ok y, u)) : c.position < y.cursor.position := by
  have before := hop.position_le hs first
  have moved := moves c s hs o d t first
  have behind := hx.position_le (hop.kept hs first) second
  exact Nat.lt_of_lt_of_le (Nat.lt_of_le_of_ne before (Ne.symm moved)) behind

theorem Dangles.moved (hs : I s) (dangles : Dangles operand operator c s f u) :
    f.position ≠ c.position := by
  cases dangles with
  | separator _ moved => exact moved
  | item first fails => exact Nat.ne_of_gt (position_lt_of_matches hop hx moves hs first fails)

/-- Where operators consume input, the round of a chain is that of a separated list, which only
leaves the operator out. -/
theorem separatedRound_of_pairRound (hs : I s) :
    I (pairRound operator operand c s).2 ∧ operand.separatedRound operator c s =
      ((pairRound operator operand c s).1.map (Round.map Prod.snd),
        (pairRound operator operand c s).2) := by
  rcases both : operator.both operand c s with ⟨e | ⟨⟨o, x⟩, r⟩ | f, u⟩
  · have alone : operator.ignoreThen operand c s = (.error e, u) := by
      rw [ignoreThen_eq_both]
      exact map_of_error both
    rw [pairRound_of_error both, separatedRound_of_error alone]
    exact ⟨(hop.ignoreThen hx).kept hs alone, rfl⟩
  · have alone : operator.ignoreThen operand c s = (.ok (.success x r), u) := by
      rw [ignoreThen_eq_both]
      exact map_of_ok both
    have moved : c.position < r.position := by
      rcases ignoreThen_cases alone with ⟨f, -, eq⟩ | ⟨w, d, t, first, second⟩
      · cases eq
      · exact position_lt_of_matches hop hx moves hs first second
    rw [pairRound_of_success both, separatedRound_of_success alone, if_pos moved]
    exact ⟨(hop.ignoreThen hx).kept hs alone, rfl⟩
  · have alone : operator.ignoreThen operand c s = (.ok (.failure f), u) := by
      rw [ignoreThen_eq_both]
      exact map_of_ok both
    have kept := (hop.ignoreThen hx).kept hs alone
    rw [pairRound_of_failure both]
    rcases separatedRound_of_failure alone with ⟨none, ends⟩ | ⟨dangles, ends⟩
    · rw [ends, if_pos none.here]
      exact ⟨kept, rfl⟩
    · rw [ends, if_neg (dangles.moved hop hx moves hs)]
      exact ⟨kept, rfl⟩

/-- Where operators consume input, a separated list has the operands of a chain. -/
theorem separatedBy_eq_chain (n : Nat) (c : Cursor) (hs : I s) :
    operand.separatedBy n operator c s =
      (chain n operator operand).map (fun (x, pairs) => x :: pairs.map Prod.snd) c s := by
  rw [separatedBy_eq_andThen, chain_map]
  rcases first : operand c s with ⟨e | ⟨x, d⟩ | f, t⟩
  · rw [andThen_of_error first, andThen_of_error first]
  · rw [andThen_of_success first, andThen_of_success first]
    have rounds (c : Cursor) (s : σ) (hs : I s) :=
      separatedRound_of_pairRound (c := c) hop hx moves hs
    have loops := gather_map Prod.snd rounds n [] d (hx.kept hs first)
    calc gather (operand.separatedRound operator) n [x] d t
        = (gather (operand.separatedRound operator) n []).map ([x] ++ ·) d t :=
          congrFun (congrFun (gather_found _ n [x]) d) t
      _ = ((gather (pairRound operator operand) n []).map (List.map Prod.snd)).map ([x] ++ ·) d t :=
          map_congr _ loops
      _ = (links operator operand n []).map (fun pairs => x :: pairs.map Prod.snd) d t := by
          rw [map_map, links_eq_gather]
          rfl
  · rw [andThen_of_failure first, andThen_of_failure first]

/-- Chains and separated lists agree where operators consume input. They come to the same halt, to
the same failure, or to matches with the same remainder, and then the list holds exactly the
operands that the chain has read, in order: those of the brackets whose value it has, which lean to
the left or to the right. -/
theorem chains_fold_separated_lists (apply : β → α → α → α) (n : Nat) (c : Cursor) (hs : I s) :
    Coincide
        (fun v vs r u => ∃ e : Bracketing α β, e.LeansLeft ∧ v = e.value apply ∧
          ReadsChain operator operand c s e.fringe r u ∧ vs = e.operands)
        (chainLeft n operator operand apply c s) (operand.separatedBy n operator c s) ∧
      Coincide
        (fun v vs r u => ∃ e : Bracketing α β, e.LeansRight ∧ v = e.value apply ∧
          ReadsChain operator operand c s e.fringe r u ∧ vs = e.operands)
        (chainRight n operator operand apply c s) (operand.separatedBy n operator c s) := by
  rw [separatedBy_eq_chain hop hx moves n c hs]
  constructor
  · refine coincide_map fun (x, pairs) r u matched => ?_
    obtain ⟨e, leans, fringe, value⟩ := Bracketing.exists_leansLeft apply x pairs
    refine ⟨e, leans, value.symm, ?_⟩
    rw [Bracketing.operands, fringe]
    exact ⟨(chain_eq_success_iff.mp matched).2, rfl⟩
  · refine coincide_map fun (x, pairs) r u matched => ?_
    obtain ⟨e, leans, fringe, value⟩ := Bracketing.exists_leansRight apply x pairs
    refine ⟨e, leans, value.symm, ?_⟩
    rw [Bracketing.operands, fringe]
    exact ⟨(chain_eq_success_iff.mp matched).2, rfl⟩

end Moving

/-- Digits behind commas, as a list and as a chain. -/
theorem digits_behind_commas_folded :
    let digit := (Term.leaf (.satisfy .digit)).parse 1
    let comma := (Term.leaf (.satisfy (.exactly ','))).parse 1
    let apply (o l r : Value) := Value.list [l, o, r]
    let c := Cursor.start ['1', ',', '2', ',', '3', ';']
    comma.Advances (Store.Within .forward) ∧ digit.Advances (Store.Within .forward) ∧
      (∀ d s, s.Within .forward → comma.MovesOn d s) ∧ Store.empty.Within .forward ∧
      Coincide
        (fun v vs r u => ∃ e : Bracketing Value Value, e.LeansLeft ∧ v = e.value apply ∧
          ReadsChain comma digit c .empty e.fringe r u ∧ vs = e.operands)
        (chainLeft 3 comma digit apply c .empty) (digit.separatedBy 3 comma c .empty) ∧
      digit.separatedBy 3 comma c .empty =
        (.ok (.success [.char '1', .char '2', .char '3'] ⟨['3', ',', '2', ',', '1'], [';'], 0⟩),
          .empty) := by
  intro digit comma apply c
  have store := Store.empty_within .forward
  have digits : digit.Advances (Store.Within .forward) := advances_parse 1 nofun
  have commas : comma.Advances (Store.Within .forward) := advances_parse 1 nofun
  have moves (d : Cursor) (s : Store) (_ : s.Within .forward) : comma.MovesOn d s :=
    (satisfy_movesOn (.exactly ',') d s).map Value.char
  exact ⟨commas, digits, moves, store,
    (chains_fold_separated_lists commas digits moves apply 3 c store).1, rfl⟩

end Chains

end Descent.Parser
