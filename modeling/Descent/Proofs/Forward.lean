import Descent.Grammar.Description
import Descent.Proofs.Evaluation

/-!
The direction of parses.
Main statement: if no closure of a grammar goes back or leaves its text and its table, then no parse
does, whether it succeeds, fails or meets left recursion.
-/

namespace Descent

/-- The cursor `d` stands at or after `c` in the same text and over the same table. -/
structure Cursor.Reaches (c d : Cursor) : Prop where
  source : d.source = c.source
  table : d.table = c.table
  onward : c.position ≤ d.position

namespace Cursor.Reaches

variable {c d e : Cursor}

theorem refl (c : Cursor) : c.Reaches c := ⟨rfl, rfl, Nat.le_refl _⟩

theorem trans (h : c.Reaches d) (k : d.Reaches e) : c.Reaches e :=
  ⟨k.source.trans h.source, k.table.trans h.table, Nat.le_trans h.onward k.onward⟩

theorem next {x : Char} (h : c.next? = some (x, d)) : c.Reaches d := by
  have step := position_of_next? h
  exact ⟨source_of_next? h, table_of_next? h, by omega⟩

/-- A cursor that has not got on is the same. -/
theorem eq_of_position_le (h : c.Reaches d) (idle : d.position ≤ c.position) : d = c := by
  rw [← onTable_eq_of_source_of_position h.source (Nat.le_antisymm idle h.onward), ← h.table]
  rfl

theorem position_le (h : c.Reaches d) : d.position ≤ c.source.length := by
  rw [← h.source]
  exact d.position_le

/-- What a cursor has advanced by is what is left less. -/
theorem rest_length (h : c.Reaches d) :
    d.rest.length + d.position = c.rest.length + c.position := by
  have length (e : Cursor) : e.source.length = e.position + e.rest.length := by
    simp [source_eq_append, position]
  have same := congrArg List.length h.source
  rw [length, length] at same
  omega

theorem skip (n : Nat) (c : Cursor) : c.Reaches (c.skip n) := by
  induction n generalizing c with
  | zero => exact refl c
  | succ n ih =>
    rw [Cursor.skip]
    cases found : c.next? with
    | none => exact refl c
    | some step => exact (next found).trans (ih step.2)

theorem forward {c : Cursor} {n : Nat} (h : c.forward n = .ok d) : c.Reaches d := by
  induction n generalizing c with
  | zero =>
    obtain rfl : c = d := Except.ok.inj h
    exact refl c
  | succ n ih =>
    rw [Cursor.forward, advance] at h
    cases found : c.next? with
    | none =>
      rw [found] at h
      cases h
    | some step =>
      rw [found] at h
      exact (next found).trans (ih h)

end Cursor.Reaches

/-- A closure that stays in its text and over its table and does not go back. -/
def Cursor.Forward (f : Cursor → Outcome Value) : Prop := ∀ c : Cursor, c.Reaches (f c).cursor

namespace Custom

open Cursor (Reaches Forward)

theorem failAhead_forward (n : Nat) (message : String) (labels : List String) :
    Forward (failAhead n message labels) :=
  Reaches.skip n

theorem take_forward (n : Nat) : Forward (take n) := by
  intro c
  rw [take]
  dsimp only
  cases found : c.forward n with
  | ok d => exact Reaches.forward found
  | error e => exact Reaches.skip n c

theorem rest_forward : Forward rest := Reaches.refl

theorem position_forward : Forward position := Reaches.refl

end Custom

/-- Grammars whose closures all stay in their text and over its table and do not go back. -/
def Fragment.forward : Fragment where
  atom a := ∀ f, a = .custom f → Cursor.Forward f
  unary _ := True
  binary _ := True

/-- A halt that is left recursion has come about at or after `c` in the text of `c`. -/
def Halt.InRange (c : Cursor) : Halt → Prop
  | .defect (.leftRecursion _ location) =>
    c.position ≤ location.position ∧ location.position ≤ c.source.length
  | _ => True

/-- Runs from `c₀` on that stay in its text and over its table and do not go back. -/
def ranging (c₀ : Cursor) : Judgement Store Store where
  region := c₀.Reaches
  moves := Cursor.Reaches
  holds X _ good := ∀ n s, s.Within .forward → (X n s).2.Within .forward ∧
    (∀ a, (X n s).1 = .ok a → good a) ∧ ∀ e, (X n s).1 = .error e → e.InRange c₀
  moves_refl := Cursor.Reaches.refl
  moves_trans := Cursor.Reaches.trans
  moves_next := Cursor.Reaches.next
  region_moves := Cursor.Reaches.trans
  pure h _ _ store := ⟨store, fun _ eq => by cases eq; exact h, fun _ eq => nomatch eq⟩
  bind {α β X Y F G mid good} hx hf n s store := by
    obtain ⟨kept, yields, halts⟩ := hx n s store
    dsimp only
    rcases run : X n s with ⟨e | a, t⟩
    · simp only [run] at kept halts
      rw [Step.bind_of_error run]
      exact ⟨kept, fun _ eq => (nomatch eq), fun _ eq => halts _ (by cases eq; rfl)⟩
    · simp only [run] at kept yields
      rw [Step.bind_of_ok run]
      exact hf a (yields a rfl) n t kept

namespace ranging

variable {c₀ : Cursor}

theorem spent : (ranging c₀).Partial :=
  fun _ _ _ _ _ store => ⟨store, fun _ eq => (nomatch eq), fun _ eq => by cases eq; trivial⟩

theorem guard (rule : RuleId) {p p' : Parser Store Value}
    (h : (ranging c₀).Parsers (fun _ => p) fun _ => p') :
    (ranging c₀).Parsers (fun _ => guarded rule p) fun _ => guarded rule p' := by
  intro c hc n s store
  dsimp only
  by_cases entered : Store.entry rule c ∈ s.active
  · rw [guarded_of_mem entered]
    refine ⟨store, fun _ eq => (nomatch eq), fun e eq => ?_⟩
    cases eq
    exact ⟨hc.onward, hc.position_le⟩
  · rw [guarded_of_notMem entered]
    obtain ⟨kept, result⟩ := h c hc n (s.enter (Store.entry rule c)) ⟨store.cells, store.resolved⟩
    exact ⟨⟨kept.cells, kept.resolved⟩, result⟩

theorem build (next : Chooser) (scope : Scope) (v : Value) (inside : next.Within .forward) :
    (ranging c₀).holds (fun _ => next.build scope v) (fun _ => next.build scope v)
      fun q => q.Within .forward := by
  intro n s store
  obtain ⟨within, kept⟩ := next.build_within scope v store inside
  refine ⟨kept, fun a eq => ?_, fun e eq => nomatch eq⟩
  cases eq
  exact within

theorem definition (rule : RuleId) :
    (ranging c₀).holds (fun _ => Store.definition rule) (fun _ => Store.definition rule)
      fun q => q.Within .forward := by
  intro n s store
  dsimp only
  rw [Store.definition_apply]
  cases found : s.definition? rule with
  | none =>
    refine ⟨store, fun _ eq => (nomatch eq), fun e eq => ?_⟩
    cases eq
    trivial
  | some q =>
    refine ⟨store, fun a eq => ?_, fun e eq => nomatch eq⟩
    cases eq
    exact store.cells rule q found

theorem resolve (rule : RuleId) (body : Node) (scope : Scope) (inside : body.Within .forward) :
    (ranging c₀).holds (fun _ => Store.resolve rule body scope)
      (fun _ => Store.resolve rule body scope) fun q => q.Within .forward := by
  intro n s store
  obtain ⟨q, run, within, kept⟩ := store.resolve rule scope inside
  dsimp only
  rw [run]
  refine ⟨kept, fun a eq => ?_, fun e eq => nomatch eq⟩
  cases eq
  exact within

theorem guarding : (ranging c₀).Machines .forward .guarding .guarding where
  call _ _ _ _ h := h
  guard := guard
  build := build
  definition := definition
  resolve := resolve

end ranging

/-- Every run of a forward grammar stays in its text and over its table and does not go back. -/
theorem Term.parse_ranges (n : Nat) {t : Term} (inside : t.Within .forward) (c : Cursor) {s : Store}
    (store : s.Within .forward) :
    (t.parse n c s).2.Within .forward ∧
      (∀ o, (t.parse n c s).1 = .ok o → c.Reaches o.cursor) ∧
      ∀ e, (t.parse n c s).1 = .error e → e.InRange c := by
  have stays (f : Closure) (forward : Fragment.forward.atom (.custom f)) (d : Cursor) :
      d.Reaches (f d).cursor := forward f rfl d
  have judged := Judgement.evaluate (J := ranging c)
    (fun f forward d _ => stays f forward d) ranging.guarding
    (ranging.spent.fuels (Nat.le_refl n)) inside
  exact judged c (Cursor.Reaches.refl c) 0 s store

/-- Where no closure goes back or leaves its text or its table, no parse does: remainders and
failures are over the text and the table that the parse began with, and they and left recursion lie
between the cursor that it began at and the end of the text. What a grammar of such closures is
built into has no others. -/
theorem parses_move_forward :
    (∀ (t : Term) (s : Store), t.Within .forward → s.Within .forward → ∀ (n : Nat) (c : Cursor),
      (∀ v r, (t.parse n c s).1 = .ok (.success v r) → r.source = c.source ∧ r.table = c.table ∧
        c.position ≤ r.position ∧ r.position ≤ c.source.length) ∧
      (∀ f, (t.parse n c s).1 = .ok (.failure f) → f.failedAt.source = c.source ∧
        f.failedAt.table = c.table ∧ c.position ≤ f.position ∧ f.position ≤ c.source.length) ∧
      (∀ rule location, (t.parse n c s).1 = .error (.defect (.leftRecursion rule location)) →
        c.position ≤ location.position ∧ location.position ≤ c.source.length) ∧
      (t.parse n c s).2.Within .forward) ∧
    ∀ g : Grammar, g.Within .forward →
      (g.build .empty).1.Within .forward ∧ (g.build .empty).2.Within .forward := by
  constructor
  · intro t s inside store n c
    obtain ⟨kept, outcome, halt⟩ := t.parse_ranges n inside c store
    refine ⟨fun v r eq => ?_, fun f eq => ?_, fun rule location eq => halt _ eq, kept⟩
    · have reaches := outcome _ eq
      exact ⟨reaches.source, reaches.table, reaches.onward, reaches.position_le⟩
    · have reaches := outcome _ eq
      exact ⟨reaches.source, reaches.table, reaches.onward, reaches.position_le⟩
  · exact fun g => Grammar.build_within

/-- From a cursor over some other table, a rule reads a text to its end, a closure fails in the
middle of it, and a rule that calls itself behind one that consumes nothing is left-recursive at the
second character. -/
theorem closures_move_forward :
    let take := Node.custom (Custom.take 1)
    let reads : Grammar :=
      ⟨[("r", .binary .both take (.apply .optional (.rule "r")))], .rule "r"⟩
    let fails : Grammar :=
      ⟨[], .binary .both (.custom Custom.rest) (.custom (Custom.failAhead 1 "odd" []))⟩
    let loops : Grammar :=
      ⟨[("r", .binary .both (.custom Custom.position) (.rule "r"))],
        .binary .both take (.rule "r")⟩
    let c := (Cursor.start ['a', 'b']).onTable 3
    let run (g : Grammar) := ((g.build .empty).1.parse 9 c (g.build .empty).2).1
    reads.Within .forward ∧ fails.Within .forward ∧ loops.Within .forward ∧
      (∃ v r, run reads = .ok (.success v r) ∧ r.source = c.source ∧ r.table = c.table ∧
        c.position ≤ r.position ∧ r.position ≤ c.source.length) ∧
      (∃ f, run fails = .ok (.failure f) ∧ f.failedAt.source = c.source ∧
        f.failedAt.table = c.table ∧ c.position ≤ f.position ∧ f.position ≤ c.source.length) ∧
      ∃ rule location, run loops = .error (.defect (.leftRecursion rule location)) ∧
        c.position ≤ location.position ∧ location.position ≤ c.source.length := by
  intro take reads fails loops c run
  have closure {f : Closure} (forward : Cursor.Forward f) : (Node.custom f).Within .forward := by
    intro _ g eq
    cases eq
    exact forward
  have takes : take.Within .forward := closure (Custom.take_forward 1)
  have onlyRule {p q : Node} (body : p.Within .forward) (root : q.Within .forward) :
      Grammar.Within .forward ⟨[("r", p)], q⟩ := by
    constructor
    · intro rule mem
      rw [List.mem_singleton.mp mem]
      exact body
    · exact root
  have insideReads : reads.Within .forward :=
    onlyRule ⟨trivial, takes, fun _ => trivial, trivial⟩ trivial
  have insideFails : fails.Within .forward :=
    ⟨nofun, trivial, closure Custom.rest_forward, closure (Custom.failAhead_forward 1 "odd" [])⟩
  have insideLoops : loops.Within .forward :=
    onlyRule ⟨trivial, closure Custom.position_forward, trivial⟩ ⟨trivial, takes, trivial⟩
  obtain ⟨ranges, built⟩ := parses_move_forward
  have range {g : Grammar} (inside : g.Within .forward) :=
    ranges _ _ (built g inside).1 (built g inside).2 9 c
  exact ⟨insideReads, insideFails, insideLoops, ⟨_, _, rfl, (range insideReads).1 _ _ rfl⟩,
    ⟨_, rfl, (range insideFails).2.1 _ rfl⟩, _, _, rfl, (range insideLoops).2.2.1 _ _ rfl⟩

end Descent
