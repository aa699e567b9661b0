import Descent.Proofs.Comparison
import Descent.Proofs.Evaluation
import Descent.Proofs.Fragment

/-!
Messages of failures and the places that they are reported at.
Main statement: where no parser moves a failure back to where it began and no closure words one,
every failure describes the text at its own place.
-/

namespace Descent

/-- What a message says holds of a place with the given unread text. -/
inductive Message.Describes : Message → List Char → Prop
  | found (description : String) (x : Char) (rest : List Char) :
    Describes (.expected description (some x)) (x :: rest)
  | ended (description : String) : Describes (.expected description none) []
  | unexpected (text rest : List Char) : Describes (.unexpectedText text) (text ++ rest)
  | excluded (text rest : List Char) : Describes (.excludedText text) (text ++ rest)

/-- Grammars without closures that leave every failure of their parts where it is. An alternative
that tries again from the start is among those that do not. -/
def Fragment.candid : Fragment where
  atom a := ∀ f, a ≠ .custom f
  unary op := op ≠ .attempt ∧ ∀ test, op ≠ .filter test
  binary op := op ≠ .or

namespace Cursor

/-- Whatever cursor the second one is, the text up to it is an initial part of the unread text. -/
theorem exists_rest_eq_textTo (c d : Cursor) : ∃ rest, c.rest = c.textTo d ++ rest := by
  rw [textTo, textUpTo]
  cases cut : Text.takeBytes? c.rest (d.offset - c.offset) with
  | none => exact ⟨c.rest, rfl⟩
  | some part =>
    obtain ⟨rest, whole⟩ := Text.isPrefix_of_takeBytes? cut
    exact ⟨rest, whole.symm⟩

end Cursor

namespace Message.Describes

/-- A missed character is described by what stands in its place. -/
theorem missed (c : Cursor) (description : String) :
    Describes (.expected description (c.next?.map (·.1))) c.rest := by
  cases next : c.next? with
  | none =>
    rw [Cursor.rest_of_next?_none next]
    exact ended description
  | some found =>
    rw [Cursor.rest_of_next? next]
    exact Describes.found description found.1 found.2.rest

theorem leftOver {c d : Cursor} {x : Char} (next : c.next? = some (x, d)) :
    Describes (.unexpectedText [x]) c.rest := by
  rw [Cursor.rest_of_next? next]
  exact unexpected [x] d.rest

theorem unexpected_textTo (c d : Cursor) : Describes (.unexpectedText (c.textTo d)) c.rest := by
  obtain ⟨rest, whole⟩ := c.exists_rest_eq_textTo d
  rw [whole]
  exact unexpected _ rest

theorem excluded_textTo (c d : Cursor) : Describes (.excludedText (c.textTo d)) c.rest := by
  obtain ⟨rest, whole⟩ := c.exists_rest_eq_textTo d
  rw [whole]
  exact excluded _ rest

/-- How the messages read that describe a place. -/
theorem rendered {m : Message} {text : List Char} (h : m.Describes text) :
    (∃ description x rest, text = x :: rest ∧
      m.render = "expected " ++ description ++ ", found '" ++ String.ofList [x] ++ "'") ∨
    (∃ description, text = [] ∧
      m.render = "unexpected end of input, expected " ++ description) ∨
    ∃ part, part <+: text ∧ (m.render = "unexpected '" ++ String.ofList part ++ "'" ∨
      m.render = "excluded '" ++ String.ofList part ++ "' found") := by
  cases h with
  | found description x rest => exact .inl ⟨description, x, rest, rfl, rfl⟩
  | ended description => exact .inr (.inl ⟨description, rfl, rfl⟩)
  | unexpected part rest => exact .inr (.inr ⟨part, List.prefix_append part rest, .inl rfl⟩)
  | excluded part rest => exact .inr (.inr ⟨part, List.prefix_append part rest, .inr rfl⟩)

end Message.Describes

/-- Runs whose failures describe their places, while the store stays in the fragment. There is no
second run to speak of. -/
def describing : Comparison Store Store where
  failures e e' := e.message.Describes e.failedAt.rest ∧ e'.failedAt = e.failedAt
  holds x _ good := ∀ s, s.Within .candid →
    (x s).2.Within .candid ∧ ∀ a, (x s).1 = .ok a → ∃ b, good a b
  pure {α a b good} h s store := by
    refine ⟨store, fun a' eq => ?_⟩
    cases eq
    exact ⟨b, h⟩
  bind {α β x Y f G mid good} hx hf s store := by
    obtain ⟨kept, yields⟩ := hx s store
    rcases run : x s with ⟨e | a, t⟩
    · rw [run] at kept
      rw [Step.bind_of_error run]
      exact ⟨kept, nofun⟩
    · rw [run] at kept yields
      obtain ⟨b, middle⟩ := yields a rfl
      rw [Step.bind_of_ok run]
      exact hf a b middle t kept
  spent _ _ s store := ⟨store, nofun⟩
  eventually _ _ h _ := h
  place h := h.2
  expecting _ _ h := h
  merge h _ := h
  missed c description := ⟨.missed c description, rfl⟩
  leftOver next := ⟨.leftOver next, rfl⟩
  unexpected c d := ⟨.unexpected_textTo c d, rfl⟩
  excluded c d := ⟨.excluded_textTo c d, rfl⟩

namespace describing

theorem build (next : Chooser) (scope : Scope) (v : Value) (Y : Nat → Step Store Term)
    (inside : next.Within .candid) :
    describing.holds (next.build scope v : Step Store Term) Y fun q _ => q.Within .candid := by
  intro s store
  obtain ⟨within, kept⟩ := next.build_within scope v store inside
  refine ⟨kept, fun q eq => ⟨q, ?_⟩⟩
  cases eq
  exact within

theorem definition (rule : RuleId) (Y : Nat → Step Store Term) :
    describing.holds (Store.definition rule) Y fun q _ => q.Within .candid := by
  intro s store
  rw [Store.definition_apply]
  cases found : s.definition? rule with
  | none => exact ⟨store, nofun⟩
  | some body =>
    refine ⟨store, fun q eq => ⟨q, ?_⟩⟩
    cases eq
    exact store.cells rule body found

theorem resolve (rule : RuleId) {body : Node} (scope : Scope) (Y : Nat → Step Store Term)
    (inside : body.Within .candid) :
    describing.holds (Store.resolve rule body scope) Y fun q _ => q.Within .candid := by
  intro s store
  obtain ⟨q, run, within, kept⟩ := store.resolve rule scope inside
  rw [run]
  refine ⟨kept, fun q' eq => ⟨q', ?_⟩⟩
  cases eq
  exact within

theorem guarded {p : Parser Store Value} {P : Nat → Parser Store Value} (rule : RuleId)
    (hp : describing.Parsers p P) : describing.Parsers (Descent.guarded rule p) P := by
  intro c s store
  by_cases entered : Store.entry rule c ∈ s.active
  · rw [guarded_of_mem entered]
    exact ⟨store, nofun⟩
  · rw [guarded_of_notMem entered]
    obtain ⟨kept, candid⟩ := hp c (s.enter (Store.entry rule c)) ⟨store.cells, store.resolved⟩
    exact ⟨⟨kept.cells, kept.resolved⟩, candid⟩

end describing

/-- Every failure of a candid grammar describes its own place. -/
theorem Term.parse_describing (n : Nat) {t : Term} (inside : t.Within .candid) :
    describing.Parsers (t.parse n) fun _ => t.parse n := by
  induction n generalizing t with
  | zero => exact fun c => describing.spent _ _
  | succ n ih =>
    cases t with
    | leaf a => exact Comparison.atom a inside
    | unary op p => exact Comparison.unary (ih inside.2) n op (.inl inside.1)
    | binary op p q => exact Comparison.binary (ih inside.2.1) (ih inside.2.2) n op (.inl inside.1)
    | between first inner last =>
      exact Comparison.between (ih inside.1) (ih inside.2.1) (ih inside.2.2)
    | bind p next scope =>
      refine Comparison.andThen (ih inside.1) fun v c => ?_
      exact describing.bind (describing.build next scope v _ inside.2) fun q _ within =>
        ih within c
    | rule h =>
      intro c
      exact describing.bind (describing.definition h.rule _) fun q _ within =>
        describing.guarded h.rule (ih within) c
    | reference rule body scope =>
      intro c
      exact describing.bind (describing.resolve rule scope _ inside) fun q _ within =>
        describing.guarded rule (ih within) c

/-- Where no failure is moved back to where its parser began and no closure words one, each failure
describes the text at its own place: a character that stands there, the end of the input, or text
that begins there. What a grammar of such parsers is built into is made of them as well. -/
theorem failures_describe_their_place :
    (∀ (t : Term) (s : Store), t.Within .candid → s.Within .candid →
      ∀ (n : Nat) (c : Cursor) (e : Failure), (t.parse n c s).1 = .ok (.failure e) →
        (∃ description x rest, e.failedAt.rest = x :: rest ∧ e.message.render =
          "expected " ++ description ++ ", found '" ++ String.ofList [x] ++ "'") ∨
        (∃ description, e.failedAt.rest = [] ∧
          e.message.render = "unexpected end of input, expected " ++ description) ∨
        ∃ text, text <+: e.failedAt.rest ∧
          (e.message.render = "unexpected '" ++ String.ofList text ++ "'" ∨
            e.message.render = "excluded '" ++ String.ofList text ++ "' found")) ∧
    ∀ g : Grammar, g.Within .candid →
      (g.build .empty).1.Within .candid ∧ (g.build .empty).2.Within .candid := by
  constructor
  · intro t s inside store n c e failed
    obtain ⟨-, yields⟩ := t.parse_describing n inside c s store
    obtain ⟨_, alike⟩ := yields _ failed
    cases alike with
    | failure alike => exact alike.1.rendered
  · exact fun g => Grammar.build_within

/-- A letter of two bytes and a line end, then a second line where a letter is excluded: the failure
stands on the second line and describes what is there. -/
theorem excluded_letter_described :
    let line := Node.binary .both (.char 'é') (.char '\n')
    let g : Grammar := ⟨[("line", line)],
      .binary .ignoreThen (.rule "line") (.binary .except (.apply .many (.char 'x')) (.char 'x'))⟩
    g.Within .candid ∧
      ∃ e, ((g.build .empty).1.parse 9 (.start ['é', '\n', 'x']) (g.build .empty).2).1 =
          .ok (.failure e) ∧
        ((∃ description x rest, e.failedAt.rest = x :: rest ∧ e.message.render =
          "expected " ++ description ++ ", found '" ++ String.ofList [x] ++ "'") ∨
        (∃ description, e.failedAt.rest = [] ∧
          e.message.render = "unexpected end of input, expected " ++ description) ∨
        ∃ text, text <+: e.failedAt.rest ∧
          (e.message.render = "unexpected '" ++ String.ofList text ++ "'" ∨
            e.message.render = "excluded '" ++ String.ofList text ++ "' found")) := by
  intro line g
  let c := Cursor.start ['é', '\n', 'x']
  have letter (x : Char) : (Node.char x).Within .candid := fun _ _ => nofun
  have inside : g.Within .candid := by
    constructor
    · intro rule mem
      rw [List.mem_singleton.mp mem]
      exact ⟨nofun, letter _, letter _⟩
    · exact ⟨nofun, trivial, nofun, ⟨fun _ => ⟨nofun, nofun⟩, letter _⟩, letter _⟩
  obtain ⟨term, store⟩ := failures_describe_their_place.2 g inside
  have described := failures_describe_their_place.1 _ _ term store 9 c
  exact ⟨inside, _, rfl, described _ rfl⟩

end Descent
