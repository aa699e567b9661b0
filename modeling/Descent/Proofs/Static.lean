import Descent.Proofs.Agreement

/-!
Grammars that are static: nothing that a chooser builds has rules or references of its own.
Main statement: once a parse with a static grammar has been made, it changes nothing when it is made
again at any later time, and ends exactly as it did, with the same rule in its defect.
-/

namespace Descent

mutual

/-- Building the grammar creates no rule and no reference where `names` stand for rules. -/
def Node.Inert (names : List String) : Node → Prop
  | .leaf _ => True
  | .unary _ p => p.Inert names
  | .binary _ p q => p.Inert names ∧ q.Inert names
  | .between first inner last => first.Inert names ∧ inner.Inert names ∧ last.Inert names
  | .bind p next => p.Inert names ∧ next.Inert names
  | .rule name => name ∈ names
  | .recursive _ _ => False
  | .reference _ => False
  | .undefined => False

def Chooser.Inert (names : List String) : Chooser → Prop
  | .same => True
  | .times p => p.Inert names
  | .always p => p.Inert names
  | .onValue _ p otherwise => p.Inert names ∧ otherwise.Inert names
  | .bindTo _ p => p.Inert names

end

/-- No chooser in the grammar creates a rule or a reference where `names` stand for rules. -/
def Node.Static (names : List String) : Node → Prop
  | .leaf _ => True
  | .unary _ p => p.Static names
  | .binary _ p q => p.Static names ∧ q.Static names
  | .between first inner last => first.Static names ∧ inner.Static names ∧ last.Static names
  | .bind p next => p.Static names ∧ next.Inert names
  | .rule _ => True
  | .recursive name body => body.Static (name :: names)
  | .reference body => body.Static names
  | .undefined => True

/-- The names that stand for rules. -/
def Scope.names (scope : Scope) : List String := scope.rules.map (·.1)

/-- A static grammar, built, all rules of which are among `own`. -/
def Term.Static (own : RuleId → Prop) : Term → Prop
  | leaf _ => True
  | unary _ p => p.Static own
  | binary _ p q => p.Static own ∧ q.Static own
  | between first inner last => first.Static own ∧ inner.Static own ∧ last.Static own
  | bind p next scope => p.Static own ∧ next.Inert scope.names ∧ scope.Refers own
  | rule h => own h.rule
  | reference _ body scope => body.Static scope.names ∧ scope.Refers own

variable {own : RuleId → Prop}

theorem Scope.exists_handle {scope : Scope} {name : String} (mem : name ∈ scope.names) :
    ∃ h, scope.handle? name = some h := by
  obtain ⟨binding, inside, rfl⟩ := List.mem_map.mp mem
  cases found : scope.handle? binding.1 with
  | some h => exact ⟨h, rfl⟩
  | none => simpa using List.lookup_eq_none_iff.mp found binding inside

namespace Term.Static

theorem mono {own' : RuleId → Prop} (weaker : ∀ id, own id → own' id) {t : Term}
    (h : t.Static own) : t.Static own' := by
  induction t with
  | leaf a => trivial
  | unary op p ih => exact ih h
  | binary op p q ihp ihq => exact ⟨ihp h.1, ihq h.2⟩
  | between first inner last ih₁ ih₂ ih₃ => exact ⟨ih₁ h.1, ih₂ h.2.1, ih₃ h.2.2⟩
  | bind p next scope ih => exact ⟨ih h.1, h.2.1, h.2.2.mono weaker⟩
  | rule handle => exact weaker _ h
  | reference id body scope => exact ⟨h.1, h.2.mono weaker⟩

theorem replicate {t : Term} (h : t.Static own) (n : Nat) : (t.replicate n).Static own := by
  induction n with
  | zero => trivial
  | succ n ih => exact ⟨ih, h⟩

/-- A static grammar refers to identities that have been given out. -/
theorem of_known {κ : Catalog} {bound : Nat} {t : Term} (h : t.Static fun _ => True)
    (known : t.Known κ bound) : t.Static fun id => id.number < bound := by
  have inside {scope : Scope} (known : scope.Known κ bound) :
      scope.Refers fun id => id.number < bound := known.mono fun _ rule => rule.1
  induction t with
  | leaf a => trivial
  | unary op p ih => exact ih h known
  | binary op p q ihp ihq => exact ⟨ihp h.1 known.1, ihq h.2 known.2⟩
  | between first inner last ih₁ ih₂ ih₃ =>
    exact ⟨ih₁ h.1 known.1, ih₂ h.2.1 known.2.1, ih₃ h.2.2 known.2.2⟩
  | bind p next scope ih => exact ⟨ih h.1 known.1, h.2.1, inside known.2⟩
  | rule handle => exact known.1
  | reference id body scope => exact ⟨h.1, inside known.2⟩

end Term.Static

section Build

/-- What an inert grammar is built to does not depend on the store. -/
theorem Node.build_inert (scope : Scope) (inScope : scope.Refers own) :
    (node : Node) → node.Inert scope.names →
      ∃ t : Term, t.Static own ∧ ∀ s, node.build scope s = (t, s)
  | .leaf a, _ => ⟨.leaf (a scope.vars), trivial, fun _ => rfl⟩
  | .unary op p, inert => by
    obtain ⟨t, static, built⟩ := p.build_inert scope inScope inert
    exact ⟨.unary (op scope.vars) t, static, fun s =>
      congrArg (fun r : Term × Store => (Term.unary (op scope.vars) r.1, r.2)) (built s)⟩
  | .binary op p q, inert => by
    obtain ⟨t, staticP, builtP⟩ := p.build_inert scope inScope inert.1
    obtain ⟨u, staticQ, builtQ⟩ := q.build_inert scope inScope inert.2
    refine ⟨.binary op t u, ⟨staticP, staticQ⟩, fun s => ?_⟩
    change (Term.binary op (p.build scope s).1 (q.build scope (p.build scope s).2).1,
      (q.build scope (p.build scope s).2).2) = _
    rw [builtP, builtQ]
  | .between first inner last, inert => by
    obtain ⟨t₁, static₁, built₁⟩ := first.build_inert scope inScope inert.1
    obtain ⟨t₂, static₂, built₂⟩ := inner.build_inert scope inScope inert.2.1
    obtain ⟨t₃, static₃, built₃⟩ := last.build_inert scope inScope inert.2.2
    refine ⟨.between t₁ t₂ t₃, ⟨static₁, static₂, static₃⟩, fun s => ?_⟩
    change (Term.between (first.build scope s).1 (inner.build scope (first.build scope s).2).1
      (last.build scope (inner.build scope (first.build scope s).2).2).1,
      (last.build scope (inner.build scope (first.build scope s).2).2).2) = _
    rw [built₁, built₂, built₃]
  | .bind p next, inert => by
    obtain ⟨t, static, built⟩ := p.build_inert scope inScope inert.1
    exact ⟨.bind t next scope, ⟨static, inert.2, inScope⟩, fun s =>
      congrArg (fun r : Term × Store => (Term.bind r.1 next scope, r.2)) (built s)⟩
  | .rule name, inert => by
    obtain ⟨h, found⟩ := Scope.exists_handle inert
    refine ⟨.rule h, inScope.of_handle? found, fun s => ?_⟩
    simp only [Node.build, found]
    rfl

theorem Chooser.build_inert (scope : Scope) (inScope : scope.Refers own) (v : Value) :
    (next : Chooser) → next.Inert scope.names →
      ∃ t : Term, t.Static own ∧ ∀ s, next.build scope v s = (t, s)
  | .same, _ => by
    cases v <;> exact ⟨.leaf _, trivial, fun _ => rfl⟩
  | .times p, inert => by
    obtain ⟨t, static, built⟩ := p.build_inert scope inScope inert
    exact ⟨t.replicate v.toCount, static.replicate _, fun s =>
      congrArg (fun r : Term × Store => (r.1.replicate v.toCount, r.2)) (built s)⟩
  | .always p, inert => p.build_inert scope inScope inert
  | .onValue w p otherwise, inert => by
    simp only [Chooser.build]
    by_cases h : w = v
    · simpa only [h, if_true] using p.build_inert scope inScope inert.1
    · simpa only [h, if_false] using otherwise.build_inert scope inScope v inert.2
  | .bindTo x p, inert => p.build_inert (scope.bindValue x v) inScope inert

/-- The definitions of the rules from `first` on are static. -/
def Store.Static (own : RuleId → Prop) (first : Nat) (s : Store) : Prop :=
  ∀ id q, first ≤ id.number → s.definition? id = some q → q.Static own

namespace Store.Static

variable {first : Nat} {s : Store}

theorem declare (h : s.Static own first) : (Store.declare s).2.Static own first :=
  fun id q new found => h id q new (definition?_declare_eq_some found)

theorem setCell (h : s.Static own first) (rule : RuleId) {body : Term} (static : body.Static own) :
    (s.setCell rule body).Static own first := by
  intro id q new found
  rcases definition?_setCell_eq_some found with ⟨rfl, rfl⟩ | before
  · exact static
  · exact h id q new before

end Store.Static

/-- The identities that are taken from one store to another are among `own`. -/
def Store.TakesFor (own : RuleId → Prop) (s s' : Store) : Prop :=
  ∀ id : RuleId, id.Within s.nextRule s'.nextRule → own id

namespace Store.TakesFor

variable {s s' s'' : Store}

theorem first (h : s.TakesFor own s'') (grows : s'.Grows s'') : s.TakesFor own s' :=
  fun id within => h id ⟨within.1, Nat.lt_of_lt_of_le within.2 grows.nextRule⟩

theorem rest (h : s.TakesFor own s'') (grows : s.Grows s') : s'.TakesFor own s'' :=
  fun id within => h id ⟨Nat.le_trans grows.nextRule within.1, within.2⟩

theorem next (h : s.TakesFor own s') (grows : (Store.declare s).2.Grows s') : own ⟨s.nextRule⟩ :=
  h _ ⟨Nat.le_refl _, grows.nextRule⟩

end Store.TakesFor

/-- What a static grammar is built to is static, and so are the rules that it takes. -/
theorem Node.build_static {first : Nat} (scope : Scope) (inScope : scope.Refers own) {s : Store}
    (h : s.Static own first) : (node : Node) → node.Static scope.names →
      s.TakesFor own (node.build scope s).2 →
        (node.build scope s).1.Static own ∧ (node.build scope s).2.Static own first
  | .leaf a, _, _ => ⟨trivial, h⟩
  | .unary op p, static, takes => p.build_static scope inScope h static takes
  | .binary op p q, static, takes => by
    have growsP := p.build_grows scope s
    have growsQ := q.build_grows scope (p.build scope s).2
    obtain ⟨staticP, storeP⟩ := p.build_static scope inScope h static.1 (takes.first growsQ)
    obtain ⟨staticQ, storeQ⟩ := q.build_static scope inScope storeP static.2 (takes.rest growsP)
    exact ⟨⟨staticP, staticQ⟩, storeQ⟩
  | .between first inner last, static, takes => by
    have grows₁ := first.build_grows scope s
    have grows₂ := inner.build_grows scope (first.build scope s).2
    have grows₃ := last.build_grows scope (inner.build scope (first.build scope s).2).2
    obtain ⟨static₁, store₁⟩ := first.build_static scope inScope h static.1
      (takes.first (grows₂.trans grows₃))
    obtain ⟨static₂, store₂⟩ := inner.build_static scope inScope store₁ static.2.1
      ((takes.rest grows₁).first grows₃)
    obtain ⟨static₃, store₃⟩ := last.build_static scope inScope store₂ static.2.2
      (takes.rest (grows₁.trans grows₂))
    exact ⟨⟨static₁, static₂, static₃⟩, store₃⟩
  | .bind p next, static, takes => by
    obtain ⟨staticP, storeP⟩ := p.build_static scope inScope h static.1 takes
    exact ⟨⟨staticP, static.2, inScope⟩, storeP⟩
  | .rule name, _, takes => by
    cases found : scope.handle? name with
    | some handle =>
      simp only [Node.build, found]
      exact ⟨inScope.of_handle? found, h⟩
    | none =>
      simp only [Node.build, found] at takes ⊢
      exact ⟨takes.next (.refl _), h.declare⟩
  | .recursive name body, static, takes => by
    have self : own ⟨s.nextRule⟩ :=
      takes ⟨s.nextRule⟩ ⟨Nat.le_refl _, (body.build_grows _ (Store.declare s).2).nextRule⟩
    obtain ⟨staticB, storeB⟩ := body.build_static (scope.bindRule name ⟨⟨s.nextRule⟩, false⟩)
      (inScope.bindRule self) h.declare static (takes.rest (Store.declare_grows s))
    exact ⟨self, storeB.setCell _ staticB⟩
  | .reference body, static, _ => ⟨⟨static, inScope⟩, h⟩
  | .undefined, _, takes => ⟨takes.next (.refl _), h.declare⟩

end Build

namespace World

/-- A world whose rules among `own` are static, and so is everything that a static grammar with
rules among `own` has been resolved to. -/
structure Static (w : World) (own : RuleId → Prop) : Prop where
  bound : ∀ id, own id → id.number < w.store.nextRule
  definition : ∀ id q, own id → w.store.definition? id = some q → q.Static own
  resolved : ∀ id q, w.store.resolved.lookup id = some q →
    ∃ body scope, w.catalog id = some (body, scope) ∧
      scope.Known w.catalog w.store.nextRule ∧
      (body.Static scope.names → scope.Refers own → q.Static own)

variable {w w' : World} {own own' : RuleId → Prop}

/-- A later world is static if what is new in it is so. -/
theorem Static.later (h : w.Static own) (later : w ≤ w') (more : ∀ id, own id → own' id)
    (old : ∀ id : RuleId, id.number < w.store.nextRule → own' id → own id)
    (bound : ∀ id, own' id → id.number < w'.store.nextRule)
    (definition : ∀ id q, w.store.nextRule ≤ id.number → own' id →
      w'.store.definition? id = some q → q.Static own')
    (resolved : ∀ id q, w.store.resolved.lookup id = none →
      w'.store.resolved.lookup id = some q → ∃ body scope, w'.catalog id = some (body, scope) ∧
        scope.Known w'.catalog w'.store.nextRule ∧
        (body.Static scope.names → scope.Refers own' → q.Static own')) : w'.Static own' where
  bound := bound
  definition id q mem found := by
    rcases Nat.lt_or_ge id.number w.store.nextRule with before | new
    · rw [later.definition id before] at found
      exact (h.definition id q (old id before mem) found).mono more
    · exact definition id q new mem found
  resolved id q found := by
    cases before : w.store.resolved.lookup id with
    | none => exact resolved id q before found
    | some q' =>
      obtain rfl : q' = q := Option.some.inj ((later.resolved id q' before).symm.trans found)
      obtain ⟨body, scope, kind, known, static⟩ := h.resolved id q' before
      have kind' := (later.catalog id (w.resolved id q' before).1).trans kind
      refine ⟨body, scope, kind', scope_later later known, fun inside inScope => ?_⟩
      exact (static inside fun binding mem =>
        old _ (known binding mem).1 (inScope binding mem)).mono more

/-- A static reference, which an act resolves, has static rules, with those that it has taken. -/
theorem Static.act_resolving (h : w.Static own) (act : w.Act w') {id : RuleId} {q : Term}
    {body : Node} {scope : Scope} (before : w.store.resolved.lookup id = none)
    (after : w'.store.resolved.lookup id = some q) (kind : w.catalog id = some (body, scope))
    (static : body.Static scope.names) (inScope : scope.Refers own) :
    w'.Static fun j => own j ∨ j.Within w.store.nextRule w'.store.nextRule := by
  obtain ⟨body', scope', known, built, store⟩ := act.newly before after
  rw [known.1.2, Option.some.injEq, Prod.mk.injEq] at kind
  obtain ⟨rfl, rfl⟩ := kind
  have next : w'.store.nextRule = (body'.build scope' w.store).2.nextRule := by
    rw [store]
    rfl
  let own' (j : RuleId) : Prop := own j ∨ j.Within w.store.nextRule w'.store.nextRule
  have nothing : w.store.Static own' w.store.nextRule := fun j t taken found =>
    nomatch (w.bounded j taken).symm.trans found
  obtain ⟨staticQ, rules⟩ := body'.build_static scope' (inScope.mono fun _ => Or.inl) nothing
    static fun j within => Or.inr ⟨within.1, next ▸ within.2⟩
  rw [built] at staticQ
  refine h.later act.later (fun _ => Or.inl) ?_ ?_ ?_ ?_
  · rintro j old (mem | within)
    · exact mem
    · exact absurd old (Nat.not_lt.mpr within.1)
  · rintro j (mem | within)
    · exact Nat.lt_of_lt_of_le (h.bound j mem) act.later.nextRule
    · exact within.2
  · intro j t taken _ found
    rw [store] at found
    exact rules j t taken found
  · intro j t before' after'
    obtain rfl := act.newly_unique before after before' after'
    obtain rfl : q = t := Option.some.inj (after.symm.trans after')
    exact ⟨body', scope', (act.later.catalog _ known.1.1).trans known.1.2,
      scope_later act.later known.2, fun _ _ => staticQ⟩

/-- An act keeps a world static, with the rules that it has taken for a static grammar. -/
theorem Static.act (h : w.Static own) (act : w.Act w') :
    ∃ own' : RuleId → Prop, (∀ id, own id → own' id) ∧ w'.Static own' := by
  by_cases new : ∃ id q body scope, w.store.resolved.lookup id = none ∧
      w'.store.resolved.lookup id = some q ∧ w.catalog id = some (body, scope) ∧
      body.Static scope.names ∧ scope.Refers own
  · obtain ⟨id, q, body, scope, before, after, kind, static, inScope⟩ := new
    exact ⟨_, fun _ => Or.inl, h.act_resolving act before after kind static inScope⟩
  · refine ⟨own, fun _ => id, h.later act.later (fun _ => id) (fun _ _ => id) ?_ ?_ ?_⟩
    · exact fun id mem => Nat.lt_of_lt_of_le (h.bound id mem) act.later.nextRule
    · exact fun id q taken mem _ => absurd (h.bound id mem) (Nat.not_lt.mpr taken)
    · intro id q before after
      obtain ⟨body, scope, known, -, -⟩ := act.newly before after
      have kind := (act.later.catalog id known.1.1).trans known.1.2
      refine ⟨body, scope, kind, scope_later act.later known.2, fun static inScope => ?_⟩
      exact absurd ⟨id, q, body, scope, before, after, known.1.2, static, inScope⟩ new

theorem Static.history (h : w.Static own) (history : w.History w') :
    ∃ own' : RuleId → Prop, (∀ id, own id → own' id) ∧ w'.Static own' := by
  induction history with
  | refl => exact ⟨own, fun _ => id, h⟩
  | tail _ act ih =>
    obtain ⟨own₁, more₁, static₁⟩ := ih
    obtain ⟨own₂, more₂, static₂⟩ := static₁.act act
    exact ⟨own₂, fun id mem => more₂ id (more₁ id mem), static₂⟩

end World

/-- A run from a static world that is made again in whatever the world has become afterwards ends
as it did, and changes nothing. -/
def retracing (w₀ : World) (own₀ : RuleId → Prop) : Judgement Store Store where
  region _ := True
  moves _ _ := True
  holds X _ good := ∀ n (w : World) own, w₀ ≤ w → (∀ id, own₀ id → own id) → w.Static own →
    ∃ (w' : World) (own' : RuleId → Prop) (x : Except Halt _), w ≤ w' ∧ (∀ id, own id → own' id) ∧
      w'.Static own' ∧ w'.store.active = w.store.active ∧ X n w.store = (x, w'.store) ∧
      (∀ a, x = .ok a → good a) ∧
      ∀ w₂ : World, w' ≤ w₂ → w₂.store.active = w.store.active → X n w₂.store = (x, w₂.store)
  moves_refl _ := trivial
  moves_trans _ _ := trivial
  moves_next _ := trivial
  region_moves _ _ := trivial
  pure {α a good} h _ w own _ _ static :=
    ⟨w, own, .ok a, w.le_refl, fun _ => id, static, rfl, rfl, fun _ eq => by cases eq; exact h,
      fun _ _ _ => rfl⟩
  bind {α β X Y F G mid good} hx hf n w own from₀ more static := by
    obtain ⟨w₁, own₁, x, later₁, more₁, static₁, active₁, run₁, yields, again₁⟩ :=
      hx n w own from₀ more static
    dsimp only
    cases x with
    | error e =>
      refine ⟨w₁, own₁, .error e, later₁, more₁, static₁, active₁, Step.bind_of_error run₁ _, nofun,
        fun w₂ later active => ?_⟩
      exact Step.bind_of_error (again₁ w₂ later active) _
    | ok a =>
      obtain ⟨w₂, own₂, y, later₂, more₂, static₂, active₂, run₂, yields₂, again₂⟩ :=
        hf a (yields a rfl) n w₁ own₁ (World.le_trans from₀ later₁)
          (fun id mem => more₁ id (more id mem)) static₁
      refine ⟨w₂, own₂, y, World.le_trans later₁ later₂, fun id mem => more₂ id (more₁ id mem),
        static₂, active₂.trans active₁, (Step.bind_of_ok run₁ _).trans run₂, yields₂,
        fun w₃ later active => ?_⟩
      have first := again₁ w₃ (World.le_trans later₂ later) active
      exact (Step.bind_of_ok first _).trans (again₂ w₃ later (active.trans active₁.symm))

namespace retracing

theorem spent (w₀ : World) (own₀ : RuleId → Prop) : (retracing w₀ own₀).Partial :=
  fun _ _ _ _ w own _ _ static => ⟨w, own, .error .outOfFuel, w.le_refl, fun _ => id, static, rfl,
    rfl, nofun, fun _ _ _ => rfl⟩

theorem guard {w₀ : World} {own₀ : RuleId → Prop} (rule : RuleId) {p p' : Parser Store Value}
    (h : (retracing w₀ own₀).Parsers (fun _ => p) fun _ => p') :
    (retracing w₀ own₀).Parsers (fun _ => guarded rule p) fun _ => guarded rule p' := by
  intro c hc n w own from₀ more static
  have leave (s : Store) : (s.enter (Store.entry rule c)).leave (Store.entry rule c) = s :=
    Store.leave_of_active rfl
  by_cases entered : Store.entry rule c ∈ w.store.active
  · refine ⟨w, own, _, w.le_refl, fun _ => id, static, rfl, guarded_of_mem entered, nofun, ?_⟩
    exact fun w₂ _ active => guarded_of_mem (active.symm ▸ entered)
  · let inside := w.withActive (Store.entry rule c :: w.store.active)
    have into : w ≤ inside := w.le_withActive _
    obtain ⟨w₁, own₁, x, later, more₁, static₁, active, run, -, again⟩ :=
      h c hc n inside own (World.le_trans from₀ into) more
        ⟨static.bound, static.definition, static.resolved⟩
    have out : w₁ ≤ w₁.withActive w.store.active := w₁.le_withActive _
    have body : p c (w.store.enter (Store.entry rule c)) = (x, w₁.store) := run
    refine ⟨w₁.withActive w.store.active, own₁, x, ?_, more₁,
      ⟨static₁.bound, static₁.definition, static₁.resolved⟩, rfl, ?_, fun _ _ => trivial, ?_⟩
    · exact World.le_trans into (World.le_trans later out)
    · have left := Store.leave_of_active active
      dsimp only
      rw [guarded_of_notMem entered, body, left]
      rfl
    · intro w₂ later₂ active₂
      have back := again (w₂.withActive (Store.entry rule c :: w₂.store.active))
        (World.le_trans out (World.le_trans later₂ (w₂.le_withActive _)))
        (congrArg (Store.entry rule c :: ·) active₂)
      have body₂ : p c (w₂.store.enter (Store.entry rule c)) =
          (x, w₂.store.enter (Store.entry rule c)) := back
      dsimp only
      rw [guarded_of_notMem (active₂ ▸ entered), body₂, leave]

/-- With fuel `n`, static grammars retrace their parses from every static world. -/
def Holds (n : Nat) : Prop :=
  ∀ {w₀ : World} {own₀ : RuleId → Prop} {t : Term}, t.Known w₀.catalog w₀.store.nextRule →
    t.Static own₀ → (retracing w₀ own₀).Parsers (fun _ => t.parse n) fun _ => t.parse n

variable {n : Nat} {w₀ : World} {own₀ : RuleId → Prop} {p : Term} {next : Chooser} {scope : Scope}

/-- What an inert choice is built to does not depend on the time, and building it changes
nothing. -/
theorem bind (ih : Holds n) (known : (Term.bind p next scope).Known w₀.catalog w₀.store.nextRule)
    (static : (Term.bind p next scope).Static own₀) :
    (retracing w₀ own₀).Parsers (fun _ => (Term.bind p next scope).parse (n + 1))
      fun _ => (Term.bind p next scope).parse (n + 1) := by
  refine Judgement.andThen (ih known.1 static.1) fun v c hc k w own from₀ more staticW => ?_
  obtain ⟨q, staticQ, built⟩ := next.build_inert scope (static.2.2.mono more) v static.2.1
  obtain ⟨w', later, store, knownQ, -⟩ :=
    w.exists_choice next v (World.scope_later from₀ known.2)
  have same : w'.store = w.store := store.trans (congrArg Prod.snd (built _))
  rw [built, same] at knownQ
  have knownQ : q.Known w.catalog w.store.nextRule :=
    knownQ.later (fun id old => (later.catalog id old).symm) (Nat.le_refl _)
  have choice (s : Store) : Machine.guarding.lift (next.build scope v) s = (.ok q, s) := by
    dsimp only [Machine.guarding, id]
    rw [Store.build_apply, built]
  obtain ⟨w₁, own₁, x, later₁, more₁, static₁, active, run, yields, again⟩ :=
    ih knownQ staticQ c hc k w own w.le_refl (fun _ => id) staticW
  refine ⟨w₁, own₁, x, later₁, more₁, static₁, active, ?_, yields, fun w₂ later₂ active₂ => ?_⟩
  · exact (Step.bind_of_ok (choice _) _).trans run
  · exact (Step.bind_of_ok (choice _) _).trans (again w₂ later₂ active₂)

/-- A rule keeps the definition that it has, and a rule without one gets none. -/
theorem rule (ih : Holds n) {h : Handle} (static : own₀ h.rule) :
    (retracing w₀ own₀).Parsers (fun _ => (Term.rule h).parse (n + 1))
      fun _ => (Term.rule h).parse (n + 1) := by
  intro c hc k w own from₀ more staticW
  have old : h.rule.number < w.store.nextRule := staticW.bound _ (more _ static)
  dsimp only
  simp only [Term.parse_rule]
  cases found : w.store.definition? h.rule with
  | none =>
    refine ⟨w, own, _, w.le_refl, fun _ => id, staticW, rfl,
      Step.bind_of_error (Store.definition_of_none found) _, nofun, fun w₂ later₂ _ => ?_⟩
    have found₂ := (later₂.definition _ old).trans found
    exact Step.bind_of_error (Store.definition_of_none found₂) _
  | some q =>
    obtain ⟨w₁, own₁, x, later₁, more₁, static₁, active, run, yields, again⟩ :=
      guard h.rule (ih (w.cells _ q found).2 (staticW.definition _ q (more _ static) found))
        c hc k w own w.le_refl (fun _ => id) staticW
    refine ⟨w₁, own₁, x, later₁, more₁, static₁, active,
      (Step.bind_of_ok (Store.definition_of_some found) _).trans run, yields,
      fun w₂ later₂ active₂ => ?_⟩
    have found₂ := ((World.le_trans later₁ later₂).definition _ old).trans found
    exact (Step.bind_of_ok (Store.definition_of_some found₂) _).trans (again w₂ later₂ active₂)

/-- A reference that the first parse resolves stands resolved to the same term afterwards. -/
theorem reference (ih : Holds n) {id : RuleId} {body : Node}
    (known : (Term.reference id body scope).Known w₀.catalog w₀.store.nextRule)
    (static : (Term.reference id body scope).Static own₀) :
    (retracing w₀ own₀).Parsers (fun _ => (Term.reference id body scope).parse (n + 1))
      fun _ => (Term.reference id body scope).parse (n + 1) := by
  intro c hc k w own from₀ more staticW
  have knownR := World.known_later from₀ known
  obtain ⟨w₁, q, later₁, active₁, run, found⟩ := w.exists_resolve knownR
  obtain ⟨own₁, more₁, static₁⟩ := staticW.act (World.Act.resolve later₁ knownR run)
  have staticQ : q.Static own₁ := by
    obtain ⟨body', scope', kind, -, resolved⟩ := static₁.resolved id q found
    rw [later₁.catalog id knownR.1.1, knownR.1.2, Option.some.injEq, Prod.mk.injEq] at kind
    obtain ⟨rfl, rfl⟩ := kind
    exact resolved static.1 (static.2.mono fun id mem => more₁ id (more id mem))
  obtain ⟨w₂, own₂, x, later₂, more₂, static₂, active₂, run₂, yields, again⟩ :=
    guard id (ih (w₁.resolved id q found).2.2 staticQ) c hc k w₁ own₁ w₁.le_refl
      (fun _ mem => mem) static₁
  dsimp only
  simp only [Term.parse_reference]
  refine ⟨w₂, own₂, x, World.le_trans later₁ later₂, fun id mem => more₂ id (more₁ id mem),
    static₂, active₂.trans active₁, (Step.bind_of_ok run _).trans run₂, yields,
    fun w₃ later₃ active₃ => ?_⟩
  have found₃ := (World.le_trans later₂ later₃).resolved id q found
  exact (Step.bind_of_ok (Store.resolve_of_some found₃) _).trans
    (again w₃ later₃ (active₃.trans active₁.symm))

theorem parse (n : Nat) : Holds n := by
  induction n with
  | zero => exact fun _ _ c _ => spent _ _ _ _
  | succ n ih =>
    intro w₀ own₀ t known static
    have fuel := (spent w₀ own₀).fuels (Nat.le_refl n)
    cases t with
    | leaf a => exact Judgement.atom a fun _ _ _ _ => trivial
    | unary op p => exact Judgement.unary (ih (t := p) known static) fuel op
    | binary op p q =>
      exact Judgement.binary (ih known.1 static.1) (ih known.2 static.2) fuel op
    | between first inner last =>
      exact Judgement.between (ih known.1 static.1) (ih known.2.1 static.2.1)
        (ih known.2.2 static.2.2)
    | bind p next scope => exact bind ih known static
    | rule h => exact rule ih static
    | reference id body scope => exact reference ih known static

end retracing
end Descent
