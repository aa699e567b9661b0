import Descent.Proofs.Balance
import Descent.Proofs.Coherence
import Descent.Proofs.Fuel
import Descent.Proofs.Replay

/-!
The guard against left recursion.
Main statement: the guard changes no parse that would come to its end without it, and what it
refuses would go on for ever.
-/

namespace Descent

section Unnoticed

/-- A halt that has nothing to do with the guard. -/
def Halt.Final : Halt → Prop
  | .outOfFuel => False
  | .defect (.leftRecursion _ _) => False
  | .defect _ => True

/-- Where the first run yields a result or a final halt, so does the second one, whatever entries
are active. -/
def unnoticed (active : List Entry) : Judgement Store Store :=
  Judgement.ofRelation
    (fun x y => ∀ s r t, x s = (r, t) → (∀ e, r = .error e → e.Final) →
      y (s.withActive active) = (r, t.withActive active))
    (fun _ _ _ _ eq _ => by cases eq; rfl) <| by
      intro α β x y f g first rest s r u yields final
      rcases run : x s with ⟨e | a, t⟩
      · rw [Step.bind_of_error run] at yields
        cases yields
        exact Step.bind_of_error (first s _ _ run fun e eq => final e (by cases eq; rfl)) g
      · rw [Step.bind_of_ok run] at yields
        rw [Step.bind_of_ok (first s _ _ run nofun)]
        exact rest a s t run t r u yields final

variable {active : List Entry}

theorem unnoticed_of_withActive {α : Type} {x : Step Store α} {good : α → Prop}
    (same : ∀ s, x (s.withActive active) = ((x s).1, (x s).2.withActive active))
    (all : ∀ a, good a) : (unnoticed active).holds (fun _ => x) (fun _ => x) good := by
  refine fun _ => ⟨fun s r t yields _ => ?_, fun a _ _ _ => all a⟩
  dsimp only at yields ⊢
  rw [same, yields]

theorem Store.definition_withActive (active : List Entry) (rule : RuleId) (s : Store) :
    definition rule (s.withActive active) =
      ((definition rule s).1, (definition rule s).2.withActive active) := by
  have same : (s.withActive active).definition? rule = s.definition? rule := rfl
  cases found : s.definition? rule with
  | none => rw [definition_of_none found, definition_of_none (same.trans found)]
  | some q => rw [definition_of_some found, definition_of_some (same.trans found)]

theorem Store.resolve_withActive (active : List Entry) (rule : RuleId) (body : Node) (scope : Scope)
    (s : Store) : resolve rule body scope (s.withActive active) =
      ((resolve rule body scope s).1, (resolve rule body scope s).2.withActive active) := by
  have same : (s.withActive active).resolved.lookup rule = s.resolved.lookup rule := rfl
  cases found : s.resolved.lookup rule with
  | none =>
    rw [resolve_of_none found, resolve_of_none (same.trans found),
      body.build_disregards active scope s]
    rfl
  | some q => rw [resolve_of_some found, resolve_of_some (same.trans found)]

theorem guarded_unnoticed (rule : RuleId) {p p' : Parser Store Value}
    (h : (unnoticed active).Parsers (fun _ => p) fun _ => p') :
    (unnoticed active).Parsers (fun _ => guarded rule p) fun _ => p' := by
  intro c hc n
  constructor
  · intro s r t yields final
    dsimp only at yields
    by_cases entered : Store.entry rule c ∈ s.active
    · rw [guarded_of_mem entered] at yields
      cases yields
      exact (final _ rfl).elim
    · rw [guarded_of_notMem entered, Prod.mk.injEq] at yields
      obtain ⟨result, rfl⟩ := yields
      have body : p c (s.enter (Store.entry rule c)) = (r, _) := Prod.ext result rfl
      have reached := (h c hc n).1 (s.enter (Store.entry rule c)) r _ body final
      exact reached
  · exact fun _ _ _ _ => trivial

theorem unnoticed_machines : (unnoticed active).Machines .all .guarding .trusting where
  call _ _ _ _ h := h
  guard rule _ _ h := guarded_unnoticed rule h
  build next scope v _ := by
    refine unnoticed_of_withActive (fun s => ?_) Term.within_all
    have built := next.build_disregards active scope v s
    exact congrArg (fun r : Term × Store => (Except.ok r.1, r.2)) built
  definition rule :=
    unnoticed_of_withActive (Store.definition_withActive active rule) Term.within_all
  resolve rule body scope _ :=
    unnoticed_of_withActive (Store.resolve_withActive active rule body scope) Term.within_all

/-- What a guarded parse yields, the parse yields without the guard. -/
theorem Term.evaluate_of_parse {n : Nat} {t : Term} {c : Cursor} {s : Store}
    {r : Except Halt (Outcome Value)} (yields : (t.parse n c s).1 = r)
    (final : ∀ e, r = .error e → e.Final) : (t.evaluate .trusting n c s).1 = r := by
  have spent : (unnoticed s.active).Partial :=
    fun _ _ _ _ => ⟨fun _ _ _ eq final => by cases eq; exact (final _ rfl).elim,
      fun _ _ _ eq => nomatch eq⟩
  have judged := Judgement.evaluate_all (fun _ _ => trivial) unnoticed_machines
    (spent.fuels (Nat.le_refl n)) t
  have run := (judged c trivial 0).1 s r _ (Prod.ext yields rfl) final
  exact congrArg Prod.fst run

end Unnoticed

section Unguarded

/-- Runs that do not meet left recursion. -/
def unguarded : Judgement Store Store :=
  Judgement.ofRelation
    (fun x _ => ∀ s rule l, (x s).1 ≠ .error (.defect (.leftRecursion rule l)))
    (fun _ _ _ _ => nofun) <| by
      intro α β x y f g first rest s rule l
      rcases run : x s with ⟨e | a, t⟩
      · rw [Step.bind_of_error run]
        have other := first s rule l
        rw [run] at other
        exact fun eq => other (by cases eq; rfl)
      · rw [Step.bind_of_ok run]
        exact rest a s t run t rule l

theorem unguarded_machines : unguarded.Machines .all .trusting .trusting where
  call _ _ _ _ h := h
  guard _ _ _ h := h
  build _ _ _ _ _ := ⟨fun _ _ _ => nofun, fun q _ _ _ => q.within_all⟩
  definition rule _ := by
    constructor
    · intro s r l
      change (Store.definition rule s).1 ≠ _
      cases found : s.definition? rule with
      | none => simp [Store.definition_of_none found]
      | some q => simp [Store.definition_of_some found]
    · exact fun q _ _ _ => q.within_all
  resolve rule body scope _ _ := by
    constructor
    · intro s r l
      change (Store.resolve rule body scope s).1 ≠ _
      cases found : s.resolved.lookup rule with
      | none => simp [Store.resolve_of_none found]
      | some q => simp [Store.resolve_of_some found]
    · exact fun q _ _ _ => q.within_all

/-- Without the guard no parse meets left recursion. -/
theorem Term.trusting_ne_leftRecursion (n : Nat) (t : Term) (c : Cursor) (s : Store)
    (rule : RuleId) (l : Location) :
    (t.evaluate .trusting n c s).1 ≠ .error (.defect (.leftRecursion rule l)) := by
  have spent : unguarded.Partial :=
    fun _ _ _ _ => ⟨fun _ _ _ => nofun, fun _ _ _ eq => nomatch eq⟩
  have judged := Judgement.evaluate_all (fun _ _ => trivial) unguarded_machines
    (spent.fuels (Nat.le_refl n)) t
  exact (judged c trivial 0).1 s rule l

end Unguarded

/-- The term that an identity stands for in a world, as a rule or as a reference. -/
def World.Runs (w : World) (id : RuleId) (q : Term) : Prop :=
  w.store.definition? id = some q ∨ w.store.resolved.lookup id = some q

namespace World.Runs

variable {w w' : World} {id : RuleId} {q q' : Term}

theorem unique (h : w.Runs id q) (k : w.Runs id q') : q = q' := by
  rcases h with h | h <;> rcases k with k | k
  · exact Option.some.inj (h.symm.trans k)
  · exact absurd (w.cells id q h).1.2 (w.resolved id q' k).2.1
  · exact absurd (w.cells id q' k).1.2 (w.resolved id q h).2.1
  · exact Option.some.inj (h.symm.trans k)

theorem known (h : w.Runs id q) : q.Known w.catalog w.store.nextRule := by
  rcases h with h | h
  · exact (w.cells id q h).2
  · exact (w.resolved id q h).2.2

theorem later (le : w ≤ w') (h : w.Runs id q) : w'.Runs id q := by
  rcases h with h | h
  · exact Or.inl ((le.definition id (w.cells id q h).1.1).trans h)
  · exact Or.inr (le.resolved id q h)

end World.Runs

/-- What is active would not come to its end with `n` units of fuel, were it run again. -/
def World.Busy (w : World) (n : Nat) (active : List Entry) : Prop :=
  ∀ e ∈ active, ∃ q, w.Runs e.rule q ∧
    (q.evaluate .trusting n e.cursor w.store).1 = .error .outOfFuel

namespace World.Busy

variable {w w' : World} {n m : Nat} {active : List Entry}

theorem nil (w : World) (n : Nat) : w.Busy n [] := fun _ mem => nomatch mem

theorem less (h : w.Busy n active) (le : m ≤ n) : w.Busy m active := by
  intro e mem
  obtain ⟨q, runs, spent⟩ := h e mem
  refine ⟨q, runs, ?_⟩
  by_cases ended : (q.evaluate .trusting m e.cursor w.store).1 = .error .outOfFuel
  · exact ended
  · rwa [Term.evaluate_mono Machine.trusting_steady le q e.cursor w.store ended] at spent

theorem later (h : w.Busy n active) (le : w ≤ w') : w'.Busy n active := by
  intro e mem
  obtain ⟨q, runs, spent⟩ := h e mem
  refine ⟨q, runs.later le, ?_⟩
  by_cases ended : (q.evaluate .trusting n e.cursor w'.store).1 = .error .outOfFuel
  · exact ended
  · exact absurd spent (Term.ended_earlier le runs.known n e.cursor ended)

theorem cons {id : RuleId} {q : Term} {c : Cursor} (h : w.Busy n active) (runs : w.Runs id q)
    (spent : (q.evaluate .trusting n c w.store).1 = .error .outOfFuel) :
    w.Busy n (Store.entry id c :: active) := by
  intro e mem
  rcases List.mem_cons.mp mem with rfl | mem
  · exact ⟨q, runs, spent⟩
  · exact h e mem

end World.Busy

/-- From a world later than `w₀`, the second run does with some entries active what the first one
does, unless the first one runs out of fuel. -/
def admitting (w₀ : World) (active : List Entry) : Judgement Store Store where
  region _ := True
  moves _ _ := True
  holds X Y good := ∀ n (w : World), w₀ ≤ w → (X n w.store).1 ≠ .error .outOfFuel →
    ∃ (w' : World) (r : Except Halt _), w ≤ w' ∧ X n w.store = (r, w'.store) ∧
      Y n (w.store.withActive active) = (r, w'.store.withActive active) ∧ ∀ a, r = .ok a → good a
  moves_refl _ := trivial
  moves_trans _ _ := trivial
  moves_next _ := trivial
  region_moves _ _ := trivial
  pure {α a good} h _ w _ _ :=
    ⟨w, .ok a, w.le_refl, rfl, rfl, fun _ eq => by cases eq; exact h⟩
  bind {α β X Y F G mid good} hx hf n w from₀ ended := by
    dsimp only at ended ⊢
    obtain ⟨w₁, r, later, run, run', yields⟩ := hx n w from₀ (Step.ended_of_bind ended)
    cases r with
    | error e =>
      exact ⟨w₁, .error e, later, Step.bind_of_error run _, Step.bind_of_error run' _, nofun⟩
    | ok a =>
      rw [Step.bind_of_ok run] at ended ⊢
      rw [Step.bind_of_ok run']
      obtain ⟨w₂, r, later₂, rest⟩ := hf a (yields a rfl) n w₁ (World.le_trans from₀ later) ended
      exact ⟨w₂, r, World.le_trans later later₂, rest⟩

theorem admitting_partial (w₀ : World) (active : List Entry) : (admitting w₀ active).Partial :=
  fun _ _ _ _ _ _ ended => absurd rfl ended

/-- A parse with `n` units of fuel does with the guard what it does without, if nothing active would
come to its end with the fuel that is left for the bodies of rules. -/
def Admits (n : Nat) : Prop :=
  ∀ {w : World} {active : List Entry} {t : Term}, t.Known w.catalog w.store.nextRule →
    w.Busy (n - 1) active →
      (admitting w active).Parsers (fun _ => t.evaluate .trusting n) fun _ => t.parse n

/-- The guard admits the body of a rule that comes to its end. With the least fuel that lets it do
so, the body cannot lead back to itself. -/
theorem Admits.guard {n : Nat} (smaller : ∀ k ≤ n, Admits k) {w : World} {active : List Entry}
    {id : RuleId} {q : Term} (runs : w.Runs id q) (busy : w.Busy n active) (c : Cursor)
    (ended : (q.evaluate .trusting n c w.store).1 ≠ .error .outOfFuel) :
    ∃ (w' : World) (r : Except Halt (Outcome Value)), w ≤ w' ∧
      q.evaluate .trusting n c w.store = (r, w'.store) ∧
      guarded id (q.parse n) c (w.store.withActive active) = (r, w'.store.withActive active) := by
  induction n with
  | zero => exact absurd rfl ended
  | succ n ih =>
    by_cases less : (q.evaluate .trusting n c w.store).1 = .error .outOfFuel
    · have fresh : Store.entry id c ∉ (w.store.withActive active).active := by
        intro mem
        obtain ⟨q', runs', spent⟩ := busy _ mem
        obtain rfl := runs.unique runs'
        exact ended spent
      have inside := (busy.less (Nat.le_succ n)).cons runs less
      obtain ⟨w', r, later, run, run', -⟩ :=
        smaller (n + 1) (Nat.le_refl _) runs.known inside c trivial 0 w w.le_refl ended
      refine ⟨w', r, later, run, ?_⟩
      rw [guarded_of_notMem fresh]
      have body : q.parse (n + 1) c ((w.store.withActive active).enter (Store.entry id c)) =
        (r, w'.store.withActive (Store.entry id c :: active)) := run'
      rw [body]
      change (r, w'.store.withActive ((Store.entry id c :: active).erase (Store.entry id c))) = _
      rw [List.erase_cons_head]
    · obtain ⟨w', r, later, run, run'⟩ :=
        ih (fun k le => smaller k (Nat.le_succ_of_le le)) (busy.less (Nat.le_succ n)) less
      have most := Term.evaluate_mono Machine.trusting_steady (Nat.le_succ n) q c w.store less
      rw [run] at less
      have more := guarded_mono id (Nat.le_succ n) q c (w.store.withActive active)
        (by rw [run']; exact less)
      exact ⟨w', r, later, most.trans run, more.trans run'⟩

namespace Admits

variable {n : Nat} {w₀ : World} {active : List Entry} {scope : Scope}

theorem bind (ih : Admits n) {p : Term} {next : Chooser}
    (known : (Term.bind p next scope).Known w₀.catalog w₀.store.nextRule)
    (busy : w₀.Busy (n - 1) active) :
    (admitting w₀ active).Parsers (fun _ => (Term.bind p next scope).evaluate .trusting (n + 1))
      fun _ => (Term.bind p next scope).parse (n + 1) := by
  refine Judgement.andThen (ih known.1 busy) fun v c hc i w from₀ ended => ?_
  obtain ⟨w₁, later, store, knownQ, -⟩ :=
    w.exists_choice next v (World.scope_later from₀ known.2)
  have built : (next.build scope v : Step Store Term) w.store =
      (.ok (next.build scope v w.store).1, w₁.store) := by rw [store]; rfl
  have built' : (next.build scope v : Step Store Term) (w.store.withActive active) =
      (.ok (next.build scope v w.store).1, w₁.store.withActive active) := by
    rw [Store.build_apply, next.build_disregards active scope v w.store, store]
  dsimp only [Machine.trusting, Machine.guarding, id] at ended ⊢
  rw [Step.bind_of_ok built] at ended ⊢
  rw [Step.bind_of_ok built']
  have busy₁ := busy.later (World.le_trans from₀ later)
  obtain ⟨w₂, r, later₂, rest⟩ := ih knownQ busy₁ c hc i w₁ w₁.le_refl ended
  exact ⟨w₂, r, World.le_trans later later₂, rest⟩

theorem rule (upTo : ∀ k ≤ n, Admits k) (h : Handle) (busy : w₀.Busy n active) :
    (admitting w₀ active).Parsers (fun _ => (Term.rule h).evaluate .trusting (n + 1))
      fun _ => (Term.rule h).parse (n + 1) := by
  intro c hc i w from₀ ended
  dsimp only at ended ⊢
  rw [Term.trusting_rule] at ended ⊢
  rw [Term.parse_rule]
  have same : (w.store.withActive active).definition? h.rule = w.store.definition? h.rule := rfl
  cases found : w.store.definition? h.rule with
  | none =>
    exact ⟨w, _, w.le_refl, Step.bind_of_error (Store.definition_of_none found) _,
      Step.bind_of_error (Store.definition_of_none (same.trans found)) _, nofun⟩
  | some q =>
    rw [Step.bind_of_ok (Store.definition_of_some found)] at ended ⊢
    rw [Step.bind_of_ok (Store.definition_of_some (same.trans found))]
    obtain ⟨w₁, r, later, run, run'⟩ := guard upTo (Or.inl found) (busy.later from₀) c ended
    exact ⟨w₁, r, later, run, run', fun _ _ => trivial⟩

theorem reference (upTo : ∀ k ≤ n, Admits k) {id : RuleId} {body : Node}
    (known : (Term.reference id body scope).Known w₀.catalog w₀.store.nextRule)
    (busy : w₀.Busy n active) :
    (admitting w₀ active).Parsers
      (fun _ => (Term.reference id body scope).evaluate .trusting (n + 1))
      fun _ => (Term.reference id body scope).parse (n + 1) := by
  intro c hc i w from₀ ended
  obtain ⟨w₁, q, later, -, run, found⟩ := w.exists_resolve (World.known_later from₀ known)
  have run' : Store.resolve id body scope (w.store.withActive active) =
      (.ok q, w₁.store.withActive active) := by
    rw [Store.resolve_withActive, run]
  dsimp only at ended ⊢
  rw [Term.trusting_reference, Step.bind_of_ok run] at ended ⊢
  rw [Term.parse_reference, Step.bind_of_ok run']
  have busy₁ := busy.later (World.le_trans from₀ later)
  obtain ⟨w₂, r, later₂, body, body'⟩ := guard upTo (Or.inr found) busy₁ c ended
  exact ⟨w₂, r, World.le_trans later later₂, body, body', fun _ _ => trivial⟩

end Admits

theorem admits (n : Nat) : Admits n := by
  induction n using Nat.strongRecOn with
  | ind n smaller =>
    intro w₀ active t known busy
    cases n with
    | zero => exact fun c _ => admitting_partial w₀ active _ _
    | succ n =>
      have fuel := (admitting_partial w₀ active).fuels (Nat.le_refl n)
      have upTo (k : Nat) (le : k ≤ n) : Admits k := smaller k (Nat.lt_succ_of_le le)
      have less := busy.less (Nat.sub_le n 1)
      have parts {t : Term} (known : t.Known w₀.catalog w₀.store.nextRule) :=
        upTo n (Nat.le_refl n) known less
      cases t with
      | leaf a => exact Judgement.atom a fun _ _ _ _ => trivial
      | unary op p => exact Judgement.unary (parts (t := p) known) fuel op
      | binary op p q => exact Judgement.binary (parts known.1) (parts known.2) fuel op
      | between first inner last =>
        exact Judgement.between (parts known.1) (parts known.2.1) (parts known.2.2)
      | bind p next scope => exact Admits.bind (upTo n (Nat.le_refl n)) known less
      | rule h => exact Admits.rule upTo h busy
      | reference id body scope => exact Admits.reference upTo known busy

/-- A parse that comes to its end without the guard is the same with it, where nothing is active. -/
theorem Term.parse_of_evaluate {n : Nat} {t : Term} {c : Cursor} {s : Store}
    (coherent : s.Coherent t) (idle : s.active = [])
    (ended : (t.evaluate .trusting n c s).1 ≠ .error .outOfFuel) :
    t.parse n c s = t.evaluate .trusting n c s := by
  obtain ⟨w, rfl, known⟩ := coherent
  have kept := t.active_of_evaluate Machine.trusting_balanced n c w.store
  obtain ⟨w', r, later, run, run', -⟩ :=
    admits n known (World.Busy.nil w _) c trivial 0 w w.le_refl ended
  have idle' : w'.store.active = [] := by
    have run : t.evaluate .trusting n c w.store = (r, w'.store) := run
    rw [run] at kept
    exact kept.trans idle
  have same : w.store.withActive [] = w.store := by rw [← idle]; rfl
  have same' : w'.store.withActive [] = w'.store := by rw [← idle']; rfl
  rw [same, same'] at run'
  exact run'.trans run.symm

/-- What the guard refuses would use up any fuel. -/
theorem Term.endless_of_leftRecursion {n : Nat} {t : Term} {c : Cursor} {s : Store}
    (coherent : s.Coherent t) (idle : s.active = []) {rule : RuleId} {l : Location}
    (refused : (t.parse n c s).1 = .error (.defect (.leftRecursion rule l))) (k : Nat) :
    (t.evaluate .trusting k c s).1 = .error .outOfFuel := by
  by_cases ended : (t.evaluate .trusting k c s).1 = .error .outOfFuel
  · exact ended
  · -- with the larger of both amounts, the parse would be refused and not refused
    have most := Term.evaluate_mono Machine.trusting_steady (Nat.le_max_right n k) t c s ended
    have admitted : t.parse (max n k) c s = t.evaluate .trusting (max n k) c s :=
      Term.parse_of_evaluate coherent idle (by rw [most]; exact ended)
    have same : t.parse (max n k) c s = t.parse n c s :=
      Term.evaluate_mono Machine.guarding_steady (Nat.le_max_left n k) t c s
        (fun eq => nomatch refused.symm.trans eq)
    rw [same] at admitted
    exact absurd (by rw [← admitted]; exact refused)
      (t.trusting_ne_leftRecursion (max n k) c s rule l)

/-- The guard never changes the answer of a parse. What a parse yields with the guard it yields
without; where the parse comes to its end without the guard, it is the same with the guard and does
not meet left recursion; so left recursion is met only where the parse would go on for ever. This
holds of every grammar in a store where nothing is active, as it is when the grammar has been built
and after every parse. -/
theorem guard_transparent :
    (∀ (t : Term) (s : Store), s.Coherent t → s.active = [] → ∀ (c : Cursor) (n : Nat),
      (∀ o, (t.parse n c s).1 = .ok o → (t.evaluate .trusting n c s).1 = .ok o) ∧
      ((t.evaluate .trusting n c s).1 ≠ .error .outOfFuel →
        t.parse n c s = t.evaluate .trusting n c s ∧
          ∀ rule l, (t.parse n c s).1 ≠ .error (.defect (.leftRecursion rule l))) ∧
      (∀ rule l, (t.parse n c s).1 = .error (.defect (.leftRecursion rule l)) →
        ∀ k, (t.evaluate .trusting k c s).1 = .error .outOfFuel) ∧
      (t.parse n c s).2.Coherent t ∧ (t.parse n c s).2.active = []) ∧
    ∀ g : Grammar, (g.build .empty).2.Coherent (g.build .empty).1 ∧
      (g.build .empty).2.active = [] := by
  constructor
  · intro t s coherent idle c n
    refine ⟨fun o yields => Term.evaluate_of_parse yields nofun, fun ended => ?_,
      fun rule l => Term.endless_of_leftRecursion coherent idle,
      t.parse_coherent n c coherent, (t.active_of_parse n c s).trans idle⟩
    have same := Term.parse_of_evaluate coherent idle ended
    refine ⟨same, fun rule l => ?_⟩
    rw [same]
    exact t.trusting_ne_leftRecursion n c s rule l
  · exact fun g => ⟨g.build_coherent, g.active_of_build .empty⟩

/-- A rule that ends in itself is admitted, and one that begins with itself is refused. -/
theorem tail_recursion_admitted :
    let again := Node.rule "r"
    let tail : Grammar := ⟨[("r", .binary .both (.char 'a') (.apply .optional again))], again⟩
    let head : Grammar := ⟨[("r", .binary .both again (.char 'a'))], again⟩
    let c := Cursor.start ['a', 'a']
    (∃ o, ((tail.build .empty).1.parse 9 c (tail.build .empty).2).1 = .ok o ∧
      ((tail.build .empty).1.evaluate .trusting 9 c (tail.build .empty).2).1 = .ok o) ∧
    (tail.build .empty).1.parse 9 c (tail.build .empty).2 =
      (tail.build .empty).1.evaluate .trusting 9 c (tail.build .empty).2 ∧
    ∀ k, ((head.build .empty).1.evaluate .trusting k c (head.build .empty).2).1 =
      .error .outOfFuel := by
  intro again tail head c
  obtain ⟨tailCoherent, tailIdle⟩ := guard_transparent.2 tail
  obtain ⟨headCoherent, headIdle⟩ := guard_transparent.2 head
  obtain ⟨without, admitted, -⟩ := guard_transparent.1 _ _ tailCoherent tailIdle c 9
  obtain ⟨-, -, endless, -⟩ := guard_transparent.1 _ _ headCoherent headIdle c 9
  exact ⟨⟨_, rfl, without _ rfl⟩, (admitted nofun).1, endless _ _ rfl⟩

end Descent
