import Descent.Proofs.Forward
import Descent.Proofs.Peg
import Descent.Proofs.TypedRuns

/-!
Grammars with ordered choice as parsing expression grammars.
Main statement: as long as no first alternative succeeds without consuming input, a parse succeeds
with the text that the expression of the grammar consumes, and fails where the expression fails.
-/

namespace Descent

namespace Call

/-- The call of the first alternative of a choice. -/
def firstBranch? (d : Call) : Option Call :=
  match d.term with
  | .binary .or _ _ => d.inner.head?
  | _ => none

/-- The first alternative of a choice has succeeded without consuming input. -/
def OpensEmpty (d : Call) : Prop :=
  ∃ first ∈ d.firstBranch?, first.SucceedsAt d.start.position

instance (d : Call) : Decidable d.OpensEmpty :=
  inferInstanceAs (Decidable (∃ first ∈ d.firstBranch?, first.SucceedsAt d.start.position))

end Call

/-- What an expression says of an outcome from a cursor. How far a failed parse got is left open. -/
inductive Expression.Matches {ν α : Type} (rules : ν → Option (Expression ν)) (e : Expression ν)
    (c : Cursor) : Outcome α → Prop
  | success (v : α) {r : Cursor} (reaches : c.Reaches r)
    (reads : e.Parses rules c.rest (some r.rest)) : Matches rules e c (.success v r)
  | failure (f : Failure) (fails : e.Parses rules c.rest none) : Matches rules e c (.failure f)

namespace Expression.Matches

variable {ν α β : Type} {rules : ν → Option (Expression ν)} {e f : Expression ν} {c d : Cursor}
  {o : Outcome α}

theorem map (h : e.Matches rules c o) (g : α → β) : e.Matches rules c (o.map g) := by
  cases h with
  | success v reaches reads => exact .success (g v) reaches reads
  | failure f fails => exact .failure f fails

theorem seq {v : β} (first : e.Matches rules c (.success v d)) (second : f.Matches rules d o) :
    (Expression.seq e f).Matches rules c o := by
  cases first with
  | success v reaches reads =>
    cases second with
    | success w reaches' reads' => exact .success w (reaches.trans reaches') (.seq reads reads')
    | failure f fails => exact .failure f (.seq reads fails)

theorem seq_fails {x y : Failure} (first : e.Matches rules c (.failure x : Outcome β)) :
    (Expression.seq e f).Matches rules c (.failure y : Outcome α) := by
  cases first with
  | failure _ fails => exact .failure y (.seq_fails fails)

theorem star {v : β} (element : e.Matches rules c (.success v d))
    (more : (Expression.star e).Matches rules d o) : (Expression.star e).Matches rules c o := by
  cases element with
  | success v reaches reads =>
    cases more with
    | success w reaches' reads' => exact .success w (reaches.trans reaches') (.star reads reads')
    | failure f fails => exact .failure f (.star reads fails)

theorem choice_other {x : Failure} (first : e.Matches rules c (.failure x : Outcome β))
    (second : f.Matches rules c o) : (Expression.choice e f).Matches rules c o := by
  cases first with
  | failure _ fails =>
    cases second with
    | success w reaches reads => exact .success w reaches (.choice_other fails reads)
    | failure f fails' => exact .failure f (.choice_other fails fails')

/-- A failure may be at another place and with another message. -/
theorem of_failure {x y : Failure} (h : e.Matches rules c (.failure x : Outcome β)) :
    e.Matches rules c (.failure y : Outcome α) := by
  cases h with
  | failure _ fails => exact .failure y fails

end Expression.Matches

section Operations

open Expression (Matches ending)

variable {rules : Nonterminal → Option (Expression Nonterminal)}
  {μ : Annotation (Expression Nonterminal)} {α β γ : Type} {e f g : Expression Nonterminal}

/-- A parser that reads what an expression says, unless a choice opens with an empty match. -/
def Reads (rules : Nonterminal → Option (Expression Nonterminal))
    (μ : Annotation (Expression Nonterminal)) (e : Expression Nonterminal)
    (p : Parser (Store × List Call) α) : Prop :=
  ∀ c, Yields (expressing rules) (fun d => ¬ d.OpensEmpty) μ (p c) fun _ => e.Matches rules c

namespace Reads

variable {p : Parser (Store × List Call) α} {q : Parser (Store × List Call) β}
  {r : Parser (Store × List Call) γ}

theorem succeed (v : α) : Reads rules μ .empty (Parser.succeed v) :=
  fun c => .pure (.success v (.refl c) (.empty c.rest))

theorem map (g : α → β) (hp : Reads rules μ e p) : Reads rules μ e (p.map g) :=
  fun c => .of_outcome (hp c) (fun _ _ => .pure fun _ matched => matched.map g)
    fun _ => .pure fun _ failed => failed.map g

theorem andThen {next : α → Parser (Store × List Call) β} (hp : Reads rules μ e p)
    (hnext : ∀ v, Reads rules μ f (next v)) : Reads rules μ (.seq e f) (p.andThen next) :=
  fun c => .of_outcome (hp c)
    (fun v d => (hnext v d).weaken fun _ _ second _ first => first.seq second)
    fun _ => .pure fun _ failed => failed.seq_fails

theorem both (hp : Reads rules μ e p) (hq : Reads rules μ f q) :
    Reads rules μ (.seq e f) (p.both q) := andThen hp fun v => map (v, ·) hq

theorem ignoreThen (hp : Reads rules μ e p) (hq : Reads rules μ f q) :
    Reads rules μ (.seq e f) (p.ignoreThen q) := andThen hp fun _ => hq

theorem thenIgnore (hp : Reads rules μ e p) (hq : Reads rules μ f q) :
    Reads rules μ (.seq e f) (p.thenIgnore q) := andThen hp fun v => map (fun _ => v) hq

theorem between (hp : Reads rules μ e p) (hq : Reads rules μ f q) (hr : Reads rules μ g r) :
    Reads rules μ (.seq e (.seq f g)) (Parser.between p q r) := ignoreThen hp (thenIgnore hq hr)

theorem concat {p q : Parser (Store × List Call) (List α)} (hp : Reads rules μ e p)
    (hq : Reads rules μ f q) : Reads rules μ (.seq e f) (p.concat q) :=
  fun c => .of_outcome (hp c)
    (fun xs d => (map (xs ++ ·) hq d).weaken fun _ _ second _ first => first.seq second)
    fun _ => .pure fun _ failed => failed.seq_fails

theorem satisfy (k : CharClass) : Reads rules μ (.char k.test) (Parser.satisfy k) := by
  intro c
  cases found : c.next? with
  | none =>
    have rest := Cursor.rest_of_next?_none found
    simp only [Parser.satisfy, found]
    refine .pure (.failure _ ?_)
    rw [rest]
    exact .char_end
  | some next =>
    have rest := Cursor.rest_of_next? found
    simp only [Parser.satisfy, found]
    refine .of_test (fun matched => .pure ?_) fun missed => .pure ?_
    · refine .success _ (.next found) ?_
      rw [rest]
      exact .char matched
    · refine .failure _ ?_
      rw [rest]
      exact .char_other (Bool.eq_false_iff.mpr missed)

theorem chars (xs : List Char) : Reads rules μ (.text xs) (Parser.chars xs) := by
  induction xs with
  | nil => exact succeed ()
  | cons x rest ih => exact andThen (satisfy (.exactly x)) fun _ => ih

theorem literal (s : String) : Reads rules μ (.text s.toList) (Parser.literal s) :=
  fun c => .of_outcome (chars s.toList c) (fun _ _ => .pure fun _ matched => matched.map fun _ => s)
    fun _ => .of_test (fun _ => .pure fun _ failed => failed.of_failure)
      fun _ => .pure fun _ failed => failed.of_failure

theorem endOfInput : Reads rules μ ending Parser.endOfInput := by
  intro c
  cases found : c.next? with
  | none =>
    have rest := Cursor.rest_of_next?_none found
    simp only [Parser.endOfInput, found]
    refine .pure (.success () (.refl c) ?_)
    rw [rest]
    exact .not .char_end
  | some next =>
    have rest := Cursor.rest_of_next? found
    simp only [Parser.endOfInput, found]
    refine .pure (.failure _ ?_)
    rw [rest]
    exact .not_fails (.char rfl)

theorem complete (hp : Reads rules μ e p) : Reads rules μ (.seq e ending) p.complete :=
  thenIgnore hp endOfInput

theorem attempt (hp : Reads rules μ e p) : Reads rules μ e p.attempt :=
  fun c => .of_outcome (hp c) (fun _ _ => .pure fun _ matched => matched)
    fun _ => .pure fun _ failed => failed.of_failure

theorem named (label : String) (hp : Reads rules μ e p) : Reads rules μ e (p.named label) :=
  fun c => .of_outcome (hp c) (fun _ _ => .pure fun _ matched => matched)
    fun _ => .of_test (fun _ => .pure fun _ failed => failed.of_failure)
      fun _ => .pure fun _ failed => failed

theorem not (hp : Reads rules μ e p) : Reads rules μ (.not e) p.not := by
  refine fun c => .of_outcome (hp c) (fun v d => .pure fun _ matched => ?_)
    fun x => .pure fun _ failed => ?_
  · cases matched with
    | success v reaches reads => exact .failure _ (.not_fails reads)
  · cases failed with
    | failure x fails => exact .success () (.refl c) (.not fails)

/-- The excluded parser is looked ahead for first. -/
theorem except (hp : Reads rules μ e p) (hq : Reads rules μ f q) :
    Reads rules μ (.seq (.not f) e) (p.except q) := by
  refine fun c => .of_outcome (hq c) (fun v d => .pure fun _ matched => ?_)
    fun x => (hp c).weaken fun _ o second _ failed => ?_
  · cases matched with
    | success v reaches reads => exact .failure _ (.seq_fails (.not_fails reads))
  · cases failed with
    | failure x fails =>
      have ahead : (Expression.not f).Matches rules c (.success () c) :=
        .success () (.refl c) (.not fails)
      exact ahead.seq second

theorem collect (hp : Reads rules μ e p) (n : Nat) (found : List α) :
    Reads rules μ (.star e) (p.collect n found) := by
  induction n generalizing found with
  | zero => exact fun c => .halt _
  | succ n ih =>
    refine fun c => .of_outcome (hp c)
      (fun v d => (ih (v :: found) d).weaken fun _ _ more _ element => element.star more)
      fun x => .pure fun _ failed => ?_
    cases failed with
    | failure x fails => exact .success _ (.refl c) (.star_stops fails)

theorem atLeastOnce (hp : Reads rules μ e p) (n : Nat) :
    Reads rules μ (.seq e (.star e)) (p.atLeastOnce n) := andThen hp fun v => collect hp n [v]

/-- The first alternative has been tried: it stands for itself if it succeeds, and then its call is
on record, and fails at the beginning if it fails. -/
theorem attempted {p : Parser (Store × List Call) Value} {t : Term} {c : Cursor}
    (hp : Yields (expressing rules) (fun d => ¬ d.OpensEmpty) μ (p c) fun new o =>
      e.Matches rules c o ∧ ∃ inner, new = [⟨t, c, .ok o, inner⟩]) :
    Yields (expressing rules) (fun d => ¬ d.OpensEmpty) μ (p.attempt c) fun new o =>
      e.Matches rules c o ∧ (∀ x, o = .failure x → x.position = c.position) ∧
        ∀ v r, o = .success v r → ∃ inner, new = [⟨t, c, .ok (.success v r), inner⟩] := by
  refine .of_outcome hp (fun v r => .pure ?_) fun x => .pure ?_
  · rintro before ⟨matched, inner, rfl⟩
    refine ⟨matched, nofun, fun v r eq => ?_⟩
    cases eq
    exact ⟨inner, rfl⟩
  · rintro before ⟨failed, -⟩
    refine ⟨failed.of_failure, fun y eq => ?_, nofun⟩
    cases eq
    rfl

/-- A choice is ordered unless its first alternative succeeds without consuming input: for then the
second one is tried as well. -/
theorem or {p q : Parser (Store × List Call) Value} {t u : Term} {c : Cursor}
    (hp : Yields (expressing rules) (fun d => ¬ d.OpensEmpty) μ (p c) fun new o =>
      e.Matches rules c o ∧ ∃ inner, new = [⟨t, c, .ok o, inner⟩])
    (hq : Reads rules μ f q) :
    Yields (expressing rules) (fun d => ¬ d.OpensEmpty) μ (p.or q c) fun new o =>
      ¬ Call.OpensEmpty ⟨.binary .or t u, c, .ok o, new⟩ →
        (Expression.choice e f).Matches rules c o := by
  refine .of_outcome (attempted hp) (fun v r => ?_) fun x => ?_
  · refine .of_test (fun here => ?_) fun _ => .pure ?_
    -- the second alternative runs after an empty match of the first, which is on record
    · refine .of_outcome (hq c) (fun w r' => .pure ?_) fun y => .pure ?_
      · rintro _ _ before ⟨-, -, recorded⟩ consumes
        obtain ⟨inner, rfl⟩ := recorded v r rfl
        exact absurd ⟨_, rfl, here⟩ consumes
      · rintro _ _ before ⟨-, -, recorded⟩ consumes
        obtain ⟨inner, rfl⟩ := recorded v r rfl
        exact absurd ⟨_, rfl, here⟩ consumes
    · rintro before ⟨matched, -, -⟩ -
      cases matched with
      | success v reaches reads => exact .success v reaches (.choice reads)
  · refine .of_test (fun _ => ?_) fun moved => .pure ?_
    · refine .of_outcome (hq c) (fun w r => .pure ?_) fun y => .of_test (fun _ => .pure ?_)
        fun _ => .pure ?_
      · rintro _ second before ⟨first, -, -⟩ -
        exact first.choice_other second
      · rintro _ second before ⟨first, -, -⟩ -
        exact first.choice_other second.of_failure
      · rintro _ second before ⟨first, -, -⟩ -
        exact first.choice_other second
    · rintro before ⟨-, stays, -⟩ -
      exact absurd (stays x rfl) moved

section Operation

variable {d e f : Expression Nonterminal} {p q : Parser (Store × List Call) Value}

theorem atom {a : Atom} (known : (expressing rules).atom a e) : Reads rules μ e a.run := by
  cases a with
  | satisfy k => cases known; exact map Value.char (satisfy k)
  | literal s => cases known; exact map Value.str (literal s)
  | endOfInput => cases known; exact map (fun _ => Value.unit) endOfInput
  | value v => cases known; exact succeed v
  | custom f => cases known

theorem unary {op : Unary} (known : (expressing rules).unary op d e) (hp : Reads rules μ d p)
    (n : Nat) : Reads rules μ e (op.run n p) := by
  cases op with
  | many => cases known; exact map Value.list (collect hp n [])
  | atLeastOnce => cases known; exact map Value.list (atLeastOnce hp n)
  | once => cases known; exact map Value.list (map ([·]) hp)
  | text => cases known; exact map Value.str (map String.ofList (map Value.flat hp))
  | attempt => cases known; exact attempt hp
  | not => cases known; exact map (fun _ => Value.unit) (not hp)
  | named label => cases known; exact named label hp
  | complete => cases known; exact complete hp
  | giving w => cases known; exact map (fun _ => w) hp
  | map f => cases known; exact map f hp
  | _ => cases known

theorem binary {op : Binary} (known : (expressing rules).binary op d e f) {t u : Term}
    (hp : ∀ c, Yields (expressing rules) (fun d => ¬ d.OpensEmpty) μ (p c) fun new o =>
      d.Matches rules c o ∧ ∃ inner, new = [⟨t, c, .ok o, inner⟩])
    (hq : Reads rules μ e q) (n : Nat) (c : Cursor) :
    Yields (expressing rules) (fun d => ¬ d.OpensEmpty) μ (op.run n p q c) fun new o =>
      ¬ Call.OpensEmpty ⟨.binary op t u, c, .ok o, new⟩ → f.Matches rules c o := by
  have hp' : Reads rules μ d p := fun c => (hp c).weaken fun _ _ both => both.1
  have whole {x : Parser (Store × List Call) Value} {k : Expression Nonterminal}
      (h : Reads rules μ k x) : Yields (expressing rules) (fun d => ¬ d.OpensEmpty) μ (x c)
        fun new o => ¬ Call.OpensEmpty ⟨.binary op t u, c, .ok o, new⟩ → k.Matches rules c o :=
    (h c).weaken fun _ _ good _ => good
  cases op with
  | both => cases known; exact whole (map Value.ofPair (both hp' hq))
  | ignoreThen => cases known; exact whole (ignoreThen hp' hq)
  | thenIgnore => cases known; exact whole (thenIgnore hp' hq)
  | concat =>
    cases known
    exact whole (map Value.list (concat (map Value.items hp') (map Value.items hq)))
  | or => cases known; exact or (hp c) hq
  | except => cases known; exact whole (except hp' hq)
  | _ => cases known

end Operation
end Reads

/-- The operations of the fragment read what their expressions say. -/
theorem expressing_sound (rules : Nonterminal → Option (Expression Nonterminal)) :
    (expressing rules).Sound (fun d => ¬ d.OpensEmpty) fun e => e.Matches rules where
  atom known _ c := Reads.atom known c
  unary known _ _ hp n c := Reads.unary known hp n c
  binary known _ _ _ _ _ hp hq n c := Reads.binary known hp hq n c
  between known _ _ _ _ hp hq hr c := by
    cases known
    exact Reads.between hp hq hr c
  rule {e d} known c o matched := by
    obtain ⟨name, rfl, production⟩ := known
    cases matched with
    | success v reaches reads => exact .success v reaches (.call production reads)
    | failure f fails => exact .failure f (.call production fails)

end Operations

/-- Where no first alternative succeeds without consuming input, grammars of sequences, repetitions,
lookahead and ordered choices are parsing expression grammars. A parse that comes to an outcome
succeeds, having read a text, exactly if the expression of the grammar consumes that text, and fails
exactly if the expression fails. A grammar that stands for an expression is built into a term that
is typed by it, and stays so through every parse. -/
theorem parses_as_expression :
    (∀ (rules : Nonterminal → Option (Expression Nonterminal)) (t : Term) (s : Store)
      (e : Expression Nonterminal), t.TypedIn (expressing rules) s e → ∀ (n : Nat) (c : Cursor),
        t.TypedIn (expressing rules) (t.parse n c s).2 e ∧
        ((∀ call ∈ t.allCalls n c s, ¬ call.OpensEmpty) → ∀ o, (t.parse n c s).1 = .ok o →
          (∀ text, (∃ v r, o = .success v r ∧ c.textTo r = text ∧ c.rest = text ++ r.rest) ↔
            e.Consumes rules c.rest text) ∧
          ((∃ f, o = .failure f) ↔ e.Parses rules c.rest none))) ∧
    ∀ (g : Grammar) (e : Expression Nonterminal), g.Expresses e →
      (g.build .empty).1.TypedIn (expressing g.productions) (g.build .empty).2 e := by
  refine ⟨fun rules t s e typed n c => ?_, fun g e h => h.hasType.typedIn⟩
  obtain ⟨stays, matched⟩ := typed.parse (expressing_sound rules) n c
  refine ⟨stays, fun consumes o outcome => ?_⟩
  cases matched consumes o outcome with
  | @success v r reaches reads =>
    have whole := Cursor.rest_eq_textTo_append reaches.source.symm reaches.onward
    refine ⟨fun text => ⟨?_, ?_⟩, ⟨?_, fun fails => ?_⟩⟩
    · rintro ⟨v', r', same, -, rest⟩
      cases same
      exact ⟨r.rest, rest, reads⟩
    · rintro ⟨rest, split, reads'⟩
      cases reads.unique reads'
      have part : c.textTo r = text := List.append_cancel_right (whole.symm.trans split)
      exact ⟨v, r, rfl, part, split⟩
    · rintro ⟨f, same⟩
      cases same
    · cases reads.unique fails
  | failure f fails =>
    refine ⟨fun text => ⟨?_, ?_⟩, ⟨fun _ => fails, fun _ => ⟨f, rfl⟩⟩⟩
    · rintro ⟨v, r, same, -⟩
      cases same
    · rintro ⟨rest, -, reads⟩
      cases reads.unique fails

/-- A rule that takes as many letters as there are before another one. -/
theorem letters_parse_as_expression :
    let letters := Node.binary .or (.binary .both (.char 'a') (.rule "letters")) (.char 'b')
    let g : Grammar := ⟨[("letters", letters)], .rule "letters"⟩
    let e := Expression.call (.rule "letters")
    let c := Cursor.start ['a', 'a', 'b', 'c']
    g.Expresses e ∧
      (∀ call ∈ (g.build .empty).1.allCalls 12 c (g.build .empty).2, ¬ call.OpensEmpty) ∧
      (∃ v r, ((g.build .empty).1.parse 12 c (g.build .empty).2).1 = .ok (.success v r)) ∧
      e.Consumes g.productions c.rest ['a', 'a', 'b'] := by
  intro letters g e c
  have expresses : g.Expresses e := ⟨by decide, by decide, rfl⟩
  have consumes : ∀ call ∈ (g.build .empty).1.allCalls 12 c (g.build .empty).2,
      ¬ call.OpensEmpty := by decide
  obtain ⟨v, r, outcome, read⟩ : ∃ v r, ((g.build .empty).1.parse 12 c (g.build .empty).2).1 =
      .ok (.success v r) ∧ c.textTo r = ['a', 'a', 'b'] ∧ c.rest = ['a', 'a', 'b'] ++ r.rest :=
    ⟨_, _, rfl, by decide⟩
  have typed := parses_as_expression.2 g e expresses
  have same := ((parses_as_expression.1 _ _ _ e typed 12 c).2 consumes _ outcome).1 ['a', 'a', 'b']
  exact ⟨expresses, consumes, ⟨v, r, outcome⟩, same.mp ⟨v, r, rfl, read⟩⟩

end Descent
