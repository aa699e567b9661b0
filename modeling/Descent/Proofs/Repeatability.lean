import Descent.Proofs.Displacement
import Descent.Proofs.Static

/-!
Parsers that are used again and again. Between two parses others may have been made, with this
parser or another, over this table or another, and further parsers may have been built.
Main statement: a parse comes to the same whatever has been done before it, up to the numbering of
rules; and if no chooser creates rules or references, then with the same numbers too.
-/

namespace Descent

/-- All identities in the parsers and among the active entries are those of the world. -/
structure World.Hosts (w : World) (ts : List Term) : Prop where
  known : ∀ t ∈ ts, t.Known w.catalog w.store.nextRule
  entered : ∀ e ∈ w.store.active, e.rule.number < w.store.nextRule

namespace Store

/-- The parsers `ts` belong to the store: every identity in them or in the store has been given out,
and stands for one rule or for one reference wherever it occurs. -/
def Hosts (s : Store) (ts : List Term) : Prop := ∃ w : World, w.store = s ∧ w.Hosts ts

/-- Leaves have no identities in them. -/
theorem empty_hosts (atoms : List Atom) : Store.empty.Hosts (atoms.map .leaf) := by
  refine ⟨World.empty, rfl, fun t mem => ?_, fun e mem => nomatch mem⟩
  obtain ⟨a, -, rfl⟩ := List.mem_map.mp mem
  trivial

/-- The parsers `ts` belong to the store, and no chooser that `t` may reach creates rules or
references. -/
def HostsStatic (s : Store) (ts : List Term) (t : Term) : Prop :=
  ∃ (w : World) (own : RuleId → Prop), w.store = s ∧ w.Hosts ts ∧ t ∈ ts ∧ w.Static own ∧
    t.Static own

/-- What may be done with a store and its parsers `ts`, and what store and parsers come of it. -/
inductive Use (s : Store) (ts : List Term) : Store → List Term → Prop
  | start : Use s ts s ts
  /-- A parse, whatever it ends with. -/
  | parse {s' ts' t} (n : Nat) (c : Cursor) : Use s ts s' ts' → t ∈ ts' →
    Use s ts (t.parse n c s').2 ts'
  /-- A further parser. -/
  | build {s' ts'} (node : Node) : Use s ts s' ts' →
    Use s ts (node.build .empty s').2 ((node.build .empty s').1 :: ts')

end Store

namespace World

variable {w w' : World} {ts : List Term}

theorem Hosts.later (h : w.Hosts ts) (later : w ≤ w') (active : w'.store.active = w.store.active) :
    w'.Hosts ts where
  known t mem := known_later later (h.known t mem)
  entered e mem := Nat.lt_of_lt_of_le (h.entered e (active ▸ mem)) later.nextRule

/-- With the same entries active, a parse comes to the same as in an earlier world. -/
theorem Hosts.parse_agrees (h : w.Hosts ts) {t : Term} (mem : t ∈ ts) (history : w.History w')
    (active : w'.store.active = w.store.active) (n : Nat) (c : Cursor) :
    (t.parse n c w'.store).1.mapError Halt.unnumbered =
      (t.parse n c w.store).1.mapError Halt.unnumbered := by
  have kept : w'.store.withActive w.store.active = w'.store :=
    congrArg w'.store.withActive active.symm
  have agrees := history.parse_agrees (h.known t mem) h.entered n c
  rw [kept] at agrees
  exact agrees

/-- One use after the other leads from a world on to others. -/
theorem Hosts.use (h : w.Hosts ts) {s' : Store} {ts' : List Term} (use : w.store.Use ts s' ts') :
    ∃ w' : World, w.History w' ∧ w'.store = s' ∧ w'.Hosts ts' ∧
      s'.active = w.store.active := by
  induction use with
  | start => exact ⟨w, .refl w, rfl, h, rfl⟩
  | @parse s' ts' t n c _ mem ih =>
    obtain ⟨w₁, history₁, rfl, hosts₁, active₁⟩ := ih
    obtain ⟨w₂, history₂, store, -⟩ :=
      Term.parse_evolves n (hosts₁.known t mem) c trivial 0 w₁ w₁.le_refl
    have active : (t.parse n c w₁.store).2.active = w₁.store.active :=
      t.active_of_parse n c w₁.store
    exact ⟨w₂, history₁.trans history₂, store.symm,
      hosts₁.later history₂.later ((congrArg Store.active store).symm.trans active),
      active.trans active₁⟩
  | @build s' ts' node _ ih =>
    obtain ⟨w₁, history₁, rfl, hosts₁, active₁⟩ := ih
    have nothing : Scope.Known w₁.catalog w₁.store.nextRule .empty := fun _ mem => nomatch mem
    obtain ⟨w₂, later, store, known, -⟩ := w₁.exists_build node nothing
    have grows := node.build_grows .empty w₁.store
    have act := Act.grow later ((congrArg Store.resolved store).trans grows.resolved)
    have hosts₂ := hosts₁.later later ((congrArg Store.active store).trans grows.active)
    refine ⟨w₂, history₁.trans (.single act), store, ⟨fun t mem => ?_, hosts₂.entered⟩,
      grows.active.trans active₁⟩
    rcases List.mem_cons.mp mem with rfl | mem
    · exact known
    · exact hosts₂.known t mem

end World

theorem mapError_map {ε ε' α β : Type} (x : Except ε α) (f : α → β) (g : ε → ε') :
    (x.map f).mapError g = (x.mapError g).map f := by
  cases x <;> rfl

namespace Grammar

/-- What the names of the rules stand for. -/
def scope (g : Grammar) : Scope := (declareRules .empty (g.rules.map (·.1)) .empty).1

/-- The root of a grammar and all its rules. -/
def parsers (g : Grammar) : List Term :=
  (g.build .empty).1 :: g.scope.rules.map fun (_, h) => .rule h

/-- No chooser in the grammar creates a rule or a reference. -/
def Static (g : Grammar) : Prop :=
  (∀ rule ∈ g.rules, rule.2.Static g.scope.names) ∧ g.root.Static g.scope.names

theorem exists_hosts (g : Grammar) :
    ∃ w : World, w.store = (g.build .empty).2 ∧ w.Hosts g.parsers := by
  obtain ⟨w, store, root, names⟩ := g.exists_world
  refine ⟨w, store, fun t mem => ?_, fun e mem => ?_⟩
  · rcases List.mem_cons.mp mem with rfl | mem
    · exact root
    · obtain ⟨binding, inside, rfl⟩ := List.mem_map.mp mem
      exact names binding inside
  · rw [store, g.active_of_build] at mem
    cases mem

theorem declareRules_static (scope : Scope) (names : List String) {s : Store}
    {own : RuleId → Prop} (h : s.Static own 0) : (declareRules scope names s).2.Static own 0 := by
  induction names generalizing scope s with
  | nil => exact h
  | cons name more ih =>
    rw [declareRules_cons]
    exact ih _ h.declare

theorem defineRules_static (scope : Scope) {rules : List (String × Node)}
    (static : ∀ rule ∈ rules, rule.2.Static scope.names) {s : Store}
    (h : s.Static (fun _ => True) 0) :
    (defineRules scope rules s).2.Static (fun _ => True) 0 := by
  induction rules generalizing s with
  | nil => exact h
  | cons rule more ih =>
    obtain ⟨name, node⟩ := rule
    obtain ⟨body, store⟩ := node.build_static scope (fun _ _ => trivial) h
      (static _ (List.mem_cons_self ..)) fun _ _ => trivial
    have rest := fun rule mem => static rule (List.mem_cons_of_mem _ mem)
    rw [defineRules_cons]
    cases scope.handle? name with
    | none => exact ih rest store
    | some handle => exact ih rest (store.setCell _ body)

theorem build_static {g : Grammar} (static : g.Static) :
    (g.build .empty).1.Static (fun _ => True) ∧ (g.build .empty).2.Static (fun _ => True) 0 := by
  have empty : Store.Static (fun _ => True) 0 .empty := by
    intro id q _ found
    cases found
  have declared := declareRules_static .empty (g.rules.map (·.1)) empty
  rw [build_apply]
  exact g.root.build_static _ (fun _ _ => trivial) (defineRules_static _ static.1 declared) static.2
    fun _ _ => trivial

/-- What a static grammar is built to belongs to its store as a static grammar. -/
theorem hostsStatic {g : Grammar} (static : g.Static) {t : Term} (mem : t ∈ g.parsers) :
    (g.build .empty).2.HostsStatic g.parsers t := by
  obtain ⟨w, store, hosts⟩ := g.exists_hosts
  obtain ⟨root, cells⟩ := g.build_static static
  refine ⟨w, fun id => id.number < w.store.nextRule, store, hosts, mem, ⟨fun _ => id, ?_, ?_⟩, ?_⟩
  · intro id q _ found
    exact (cells id q (Nat.zero_le _) (store ▸ found)).of_known (w.cells id q found).2
  · intro id q found
    rw [store, (g.kept_of_build .empty).1] at found
    cases found
  · rcases List.mem_cons.mp mem with rfl | inside
    · exact root.of_known (hosts.known _ mem)
    · obtain ⟨binding, -, rfl⟩ := List.mem_map.mp inside
      exact (hosts.known _ mem).1

end Grammar

/-- Nothing that has been done with a store before a parse shows in how the parse ends. It yields
the same value and remainder, the same failure, or a defect of the same kind at the same place as if
it were the first to be made; only the number of a rule may be another. Where no rule is being
parsed, that holds also of a parse at an equal cursor over another table, but for the tables of what
it comes to. If no chooser that the parser may reach creates rules or references, the number is the
same, whether or not references have been resolved in between. Built grammars are such parsers. -/
theorem parses_repeat :
    (∀ (s : Store) (ts : List Term), s.Hosts ts → ∀ s' ts', s.Use ts s' ts' →
      s'.active = s.active ∧ ∀ t ∈ ts, ∀ (n : Nat) (c : Cursor),
        (t.parse n c s').1.mapError Halt.unnumbered =
          (t.parse n c s).1.mapError Halt.unnumbered ∧
        (s.active = [] → ∀ d : Cursor, d.sameAs c = true →
          ((t.parse n d s').1.map Outcome.untabled).mapError Halt.unnumbered =
            ((t.parse n c s).1.map Outcome.untabled).mapError Halt.unnumbered)) ∧
    (∀ (s : Store) (ts : List Term) (t : Term), s.HostsStatic ts t →
      ∀ s₁ ts₁, s.Use ts s₁ ts₁ → ∀ (n : Nat) (c : Cursor),
        ∀ s₂ ts₂, (t.parse n c s₁).2.Use ts₁ s₂ ts₂ →
          (t.parse n c s₂).1 = (t.parse n c s₁).1 ∧
          (s.active = [] → ∀ d : Cursor, d.sameAs c = true →
            (t.parse n d s₂).1.map Outcome.untabled =
              (t.parse n c s₁).1.map Outcome.untabled)) ∧
    ∀ g : Grammar, (g.build .empty).2.Hosts g.parsers ∧ (g.build .empty).2.active = [] ∧
      (g.Static → ∀ t ∈ g.parsers, (g.build .empty).2.HostsStatic g.parsers t) := by
  refine ⟨?_, ?_, fun g => ⟨g.exists_hosts, g.active_of_build .empty, fun static t =>
    g.hostsStatic static⟩⟩
  · rintro _ ts ⟨w, rfl, hosts⟩ s' ts' use
    obtain ⟨w', history, rfl, -, active⟩ := hosts.use use
    refine ⟨active, fun t mem n c => ?_⟩
    have again := hosts.parse_agrees mem history active n c
    refine ⟨again, fun idle d same => ?_⟩
    rw [t.parse_sameAs n same (active.trans idle), mapError_map, again, ← mapError_map]
  · rintro _ ts t ⟨w, own, rfl, hosts, mem, static, staticT⟩ s₁ ts₁ use n c s₂ ts₂ use₂
    obtain ⟨w₁, history, rfl, hosts₁, active₁⟩ := hosts.use use
    obtain ⟨own₁, more, static₁⟩ := static.history history
    have known := World.known_later history.later (hosts.known t mem)
    obtain ⟨w₂, own₂, x, later, -, -, active, run, -, again⟩ := retracing.parse n known
      (staticT.mono more) c trivial 0 w₁ own₁ w₁.le_refl (fun _ => id) static₁
    have first : t.parse n c w₁.store = (x, w₂.store) := run
    rw [first] at use₂ ⊢
    obtain ⟨w₃, history₃, rfl, -, active₃⟩ := (hosts₁.later later active).use use₂
    have second : (t.parse n c w₃.store).1 = x :=
      congrArg Prod.fst (again w₃ history₃.later (active₃.trans active))
    refine ⟨second, fun idle d same => ?_⟩
    rw [t.parse_sameAs n same (((active₃.trans active).trans active₁).trans idle), second]

/-- A rule that a chooser creates has another number every time. A rule behind a reference keeps the
number that it got when the reference was resolved, also over another table. -/
theorem left_recursion_repeats :
    let loop := Node.recursive "r" (.rule "r")
    let chosen : Grammar := ⟨[], .bind (.satisfy .any) (.always loop)⟩
    let referred : Grammar := ⟨[], .reference loop⟩
    let c := Cursor.start ['a']
    let d := c.onTable 5
    let after (g : Grammar) := ((g.build .empty).1.parse 5 c (g.build .empty).2).2
    let again (g : Grammar) := ((g.build .empty).1.parse 5 d (after g)).1
    ((again chosen).map Outcome.untabled).mapError Halt.unnumbered =
        (((chosen.build .empty).1.parse 5 c (chosen.build .empty).2).1.map
          Outcome.untabled).mapError Halt.unnumbered ∧
      again chosen = .error (.defect (.leftRecursion ⟨1⟩ ((Cursor.mk ['a'] [] 5).location))) ∧
      (again referred).map Outcome.untabled =
        ((referred.build .empty).1.parse 5 c (referred.build .empty).2).1.map
          Outcome.untabled ∧
      again referred = .error (.defect (.leftRecursion ⟨1⟩ d.location)) := by
  intro loop chosen referred c d after again
  obtain ⟨repeats, same, built⟩ := parses_repeat
  have fromChosen : (chosen.build .empty).1 ∈ chosen.parsers := List.mem_cons_self ..
  have fromReferred : (referred.build .empty).1 ∈ referred.parsers := List.mem_cons_self ..
  have here : d.sameAs c = true := rfl
  have static : referred.Static := ⟨fun _ mem => (nomatch mem), trivial⟩
  refine ⟨?_, rfl, ?_, rfl⟩
  · have used := repeats _ _ (built chosen).1 _ _ (.parse 5 c .start fromChosen)
    exact (used.2 _ fromChosen 5 c).2 rfl d here
  · have used := same _ _ _ ((built referred).2.2 static _ fromReferred) _ _ .start 5 c _ _ .start
    exact used.2 rfl d here

end Descent
