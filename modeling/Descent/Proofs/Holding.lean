import Descent.Grammar.Parse
import Descent.Proofs.Building
import Descent.Proofs.Judgement
import Descent.Proofs.Survival

/-!
The handles in grammars. An unbuilt grammar holds the handles that its free names stand for, a built
one those it was built with.
Main statements: what a built grammar owns is what its owning handles point to, together with its
references (`Term.mem_owned`); and whatever is built from handles of rules that are alive holds
handles of rules that are alive (`Node.build_secure`).
-/

namespace Descent

mutual

/-- The names that a grammar refers to and does not bind. -/
def Node.Names : Node → String → Prop
  | .leaf _, _ => False
  | .unary _ p, name => p.Names name
  | .binary _ p q, name => p.Names name ∨ q.Names name
  | .between first inner last, name => first.Names name ∨ inner.Names name ∨ last.Names name
  | .bind p next, name => p.Names name ∨ next.Names name
  | .rule own, name => own = name
  | .recursive bound body, name => name ≠ bound ∧ body.Names name
  | .reference body, name => body.Names name
  | .undefined, _ => False

def Chooser.Names : Chooser → String → Prop
  | .same, _ => False
  | .times p, name => p.Names name
  | .always p, name => p.Names name
  | .onValue _ p otherwise, name => p.Names name ∨ otherwise.Names name
  | .bindTo _ p, name => p.Names name

end

/-- One of the names stands for the handle. -/
def Scope.Gives (scope : Scope) (names : String → Prop) (h : Handle) : Prop :=
  ∃ name, names name ∧ scope.handle? name = some h

/-- The handle is part of the grammar, or will be when a chooser or a reference in it is built. -/
def Term.Contains : Term → Handle → Prop
  | leaf _, _ => False
  | unary _ p, h => p.Contains h
  | binary _ p q, h => p.Contains h ∨ q.Contains h
  | between first inner last, h => first.Contains h ∨ inner.Contains h ∨ last.Contains h
  | bind p next scope, h => p.Contains h ∨ scope.Gives next.Names h
  | rule own, h => own = h
  | reference _ body scope, h => scope.Gives body.Names h

/-- The reference is part of the grammar. -/
def Term.HasReference : Term → RuleId → Prop
  | leaf _, _ => False
  | unary _ p, id => p.HasReference id
  | binary _ p q, id => p.HasReference id ∨ q.HasReference id
  | between first inner last, id =>
    first.HasReference id ∨ inner.HasReference id ∨ last.HasReference id
  | bind p _ _, id => p.HasReference id
  | rule _, _ => False
  | reference own _ _, id => own = id

namespace Scope

variable {scope : Scope} {names : String → Prop} {name : String} {h k : Handle}

theorem Gives.mono {others : String → Prop} (more : ∀ name, names name → others name)
    (gives : scope.Gives names h) : scope.Gives others h := by
  obtain ⟨name, named, found⟩ := gives
  exact ⟨name, more name named, found⟩

theorem gives_or {others : String → Prop} : scope.Gives (fun name => names name ∨ others name) h ↔
    scope.Gives names h ∨ scope.Gives others h := by
  simp only [Gives, or_and_right, exists_or]

theorem handle?_bindRule_self (scope : Scope) (name : String) (h : Handle) :
    (scope.bindRule name h).handle? name = some h :=
  List.lookup_cons_self

theorem handle?_bindRule_of_ne {other : String} (differs : other ≠ name) :
    (scope.bindRule name h).handle? other = scope.handle? other := by
  have ne : (other == name) = false := by simpa using differs
  simp only [handle?, bindRule, List.lookup_cons, ne]

/-- Under a binder a name stands for what is bound, or for what it stood for outside. -/
theorem gives_bindRule : (scope.bindRule name k).Gives names h ↔
    (names name ∧ k = h) ∨ scope.Gives (fun other => other ≠ name ∧ names other) h := by
  constructor
  · rintro ⟨other, named, found⟩
    by_cases same : other = name
    · subst same
      rw [handle?_bindRule_self] at found
      exact Or.inl ⟨named, Option.some.inj found⟩
    · rw [handle?_bindRule_of_ne same] at found
      exact Or.inr ⟨other, ⟨same, named⟩, found⟩
  · rintro (⟨named, rfl⟩ | ⟨other, ⟨differs, named⟩, found⟩)
    · exact ⟨name, named, handle?_bindRule_self scope name k⟩
    · exact ⟨other, named, (handle?_bindRule_of_ne differs).trans found⟩

end Scope

section Owned

variable {id : RuleId}

mutual

theorem Node.mem_owned (scope : Scope) :
    (node : Node) → (id ∈ node.owned scope ↔ scope.Gives node.Names ⟨id, true⟩)
  | .leaf _ => by simp [Node.owned, Scope.Gives, Node.Names]
  | .unary _ p => p.mem_owned scope
  | .binary _ p q => by
    rw [Node.owned, List.mem_append, p.mem_owned, q.mem_owned]
    exact Scope.gives_or.symm
  | .between first inner last => by
    rw [Node.owned, List.mem_append, List.mem_append, first.mem_owned, inner.mem_owned,
      last.mem_owned, or_assoc]
    exact ((or_congr_right Scope.gives_or.symm).trans Scope.gives_or.symm)
  | .bind p next => by
    rw [Node.owned, List.mem_append, p.mem_owned, next.mem_owned]
    exact Scope.gives_or.symm
  | .rule name => by
    have gives : scope.Gives (Node.rule name).Names ⟨id, true⟩ ↔
        scope.handle? name = some ⟨id, true⟩ := by simp [Scope.Gives, Node.Names]
    rw [gives, Node.owned]
    cases found : scope.handle? name with
    | none => simp
    | some h =>
      obtain ⟨rule, owning⟩ := h
      cases owning <;> simp [eq_comm]
  | .recursive name body => by
    rw [Node.owned, body.mem_owned, Scope.hideRule, Scope.gives_bindRule]
    constructor
    · rintro (⟨-, owned⟩ | gives)
      · cases owned
      · exact gives
    · exact Or.inr
  | .reference body => body.mem_owned scope
  | .undefined => by simp [Node.owned, Scope.Gives, Node.Names]

theorem Chooser.mem_owned (scope : Scope) :
    (next : Chooser) → (id ∈ next.owned scope ↔ scope.Gives next.Names ⟨id, true⟩)
  | .same => by simp [Chooser.owned, Scope.Gives, Chooser.Names]
  | .times p => p.mem_owned scope
  | .always p => p.mem_owned scope
  | .onValue _ p otherwise => by
    rw [Chooser.owned, List.mem_append, p.mem_owned, otherwise.mem_owned]
    exact Scope.gives_or.symm
  | .bindTo _ p => p.mem_owned scope

end

/-- A grammar owns the rules of its owning handles, and its references. -/
theorem Term.mem_owned {t : Term} : id ∈ t.owned ↔ t.Contains ⟨id, true⟩ ∨ t.HasReference id := by
  induction t with
  | leaf a => simp [owned, Contains, HasReference]
  | unary op p ih => exact ih
  | binary op p q ihp ihq =>
    rw [owned, List.mem_append, ihp, ihq]
    exact or_or_or_comm
  | between first inner last ih₁ ih₂ ih₃ =>
    rw [owned, List.mem_append, List.mem_append, ih₁, ih₂, ih₃]
    simp only [Contains, HasReference, or_assoc, or_left_comm]
  | bind p next scope ih =>
    rw [owned, List.mem_append, ih, next.mem_owned, Contains, HasReference]
    exact or_right_comm
  | rule h =>
    obtain ⟨rule, owning⟩ := h
    cases owning <;> simp [owned, Contains, HasReference, eq_comm]
  | reference own body scope =>
    rw [owned, List.mem_cons, body.mem_owned, or_comm]
    exact or_congr_right eq_comm

theorem Term.contains_replicate {t : Term} {n : Nat} {h : Handle} :
    (t.replicate n).Contains h → t.Contains h := by
  induction n with
  | zero => exact False.elim
  | succ n ih => exact fun held => held.elim ih fun last => last

theorem Term.hasReference_replicate {t : Term} {n : Nat} :
    (t.replicate n).HasReference id → t.HasReference id := by
  induction n with
  | zero => exact False.elim
  | succ n ih => exact fun held => held.elim ih fun last => last

end Owned

namespace Store

/-- Nothing that the store holds is lost, and what it has not given out is new. -/
structure Continues (s s' : Store) : Prop where
  nextRule : s.nextRule ≤ s'.nextRule
  cells : ∀ id : RuleId, id.number < s.nextRule → s'.cells.lookup id = s.cells.lookup id
  resolved : ∀ id q, s.resolved.lookup id = some q → s'.resolved.lookup id = some q

/-- The identity has been given out, and if the handle owns its rule, that rule is alive. -/
def Backs (s : Store) (h : Handle) : Prop :=
  h.rule.number < s.nextRule ∧ (h.owning → s.alive h.rule)

/-- The identity has been given out, and not to a rule that is alive. -/
def IsReference (s : Store) (id : RuleId) : Prop := id.number < s.nextRule ∧ ¬ s.alive id

variable {s s' s'' : Store} {id : RuleId} {h : Handle}

theorem backs_unowned (given : id.number < s.nextRule) : s.Backs ⟨id, false⟩ :=
  ⟨given, fun owning => absurd owning Bool.false_ne_true⟩

namespace Continues

theorem refl (s : Store) : s.Continues s := ⟨Nat.le_refl _, fun _ _ => rfl, fun _ _ => id⟩

theorem trans (first : s.Continues s') (rest : s'.Continues s'') : s.Continues s'' where
  nextRule := Nat.le_trans first.nextRule rest.nextRule
  cells id old :=
    (rest.cells id (Nat.lt_of_lt_of_le old first.nextRule)).trans (first.cells id old)
  resolved id q found := rest.resolved id q (first.resolved id q found)

theorem of_grows (grows : s.Grows s') : s.Continues s' where
  nextRule := grows.nextRule
  cells := grows.cells
  resolved id _ found := (congrArg (List.lookup id) grows.resolved).trans found

theorem withActive (s : Store) (active : List Entry) : s.Continues (s.withActive active) :=
  ⟨Nat.le_refl _, fun _ _ => rfl, fun _ _ => id⟩

theorem fresh (s : Store) : s.Continues (Store.fresh s).2 :=
  ⟨Nat.le_succ _, fun _ _ => rfl, fun _ _ => id⟩

theorem keep {q : Term} (unresolved : s.resolved.lookup id = none) : s.Continues (s.keep id q) where
  nextRule := Nat.le_refl _
  cells _ _ := rfl
  resolved other q' found := by
    have differs : other ≠ id := by
      rintro rfl
      cases unresolved.symm.trans found
    rwa [lookup_keep_of_ne _ _ differs]

/-- A rule that is new may be defined. -/
theorem setCell_new (continues : s.Continues s') (rule : RuleId)
    (new : s.nextRule ≤ rule.number) (body : Term) : s.Continues (s'.setCell rule body) where
  nextRule := continues.nextRule
  cells id old := by
    have differs : id ≠ rule := by
      rintro rfl
      omega
    rw [lookup_setCell]
    simpa only [differs, if_false, Option.map_id'] using continues.cells id old
  resolved := continues.resolved

variable (continues : s.Continues s')
include continues

theorem definition (old : id.number < s.nextRule) : s'.definition? id = s.definition? id := by
  rw [definition?, definition?, continues.cells id old]

theorem alive (old : id.number < s.nextRule) : s'.alive id = s.alive id := by
  rw [Store.alive, Store.alive, continues.cells id old]

theorem backs (backed : s.Backs h) : s'.Backs h := by
  refine ⟨Nat.lt_of_lt_of_le backed.1 continues.nextRule, fun owning => ?_⟩
  rw [continues.alive backed.1]
  exact backed.2 owning

theorem isReference (made : s.IsReference id) : s'.IsReference id := by
  refine ⟨Nat.lt_of_lt_of_le made.1 continues.nextRule, ?_⟩
  rw [continues.alive made.1]
  exact made.2

end Continues
end Store

/-- The owning handles of the grammar are of rules that are alive, and its references are none. -/
structure Term.Secure (s : Store) (t : Term) : Prop where
  handles : ∀ h, t.Contains h → s.Backs h
  references : ∀ id, t.HasReference id → s.IsReference id

theorem Term.Secure.leaf (s : Store) (a : Atom) : (Term.leaf a).Secure s :=
  ⟨fun _ => False.elim, fun _ => False.elim⟩

theorem Term.Secure.rule {s : Store} {h : Handle} (backed : s.Backs h) :
    (Term.rule h).Secure s where
  handles k held := by
    obtain rfl : h = k := held
    exact backed
  references _ := False.elim

theorem Term.Secure.later {s s' : Store} (continues : s.Continues s') {t : Term}
    (secure : t.Secure s) : t.Secure s' where
  handles h held := continues.backs (secure.handles h held)
  references id held := continues.isReference (secure.references id held)

/-- All handles that the names stand for are backed. -/
def Scope.Secure (s : Store) (names : String → Prop) (scope : Scope) : Prop :=
  ∀ h, scope.Gives names h → s.Backs h

namespace Scope.Secure

variable {s s' : Store} {scope : Scope} {names others : String → Prop}

theorem later (continues : s.Continues s') (secure : scope.Secure s names) :
    scope.Secure s' names :=
  fun h gives => continues.backs (secure h gives)

theorem mono (secure : scope.Secure s others) (more : ∀ name, names name → others name) :
    scope.Secure s names :=
  fun h gives => secure h (gives.mono more)

theorem left (secure : scope.Secure s fun name => names name ∨ others name) :
    scope.Secure s names :=
  secure.mono fun _ => Or.inl

theorem right (secure : scope.Secure s fun name => names name ∨ others name) :
    scope.Secure s others :=
  secure.mono fun _ => Or.inr

end Scope.Secure

namespace Term

variable {s : Store}

theorem secure_unary {op : Unary} {p : Term} : (unary op p).Secure s ↔ p.Secure s :=
  ⟨fun h => ⟨h.handles, h.references⟩, fun h => ⟨h.handles, h.references⟩⟩

theorem secure_binary {op : Binary} {p q : Term} :
    (binary op p q).Secure s ↔ p.Secure s ∧ q.Secure s := by
  constructor
  · rintro ⟨handles, references⟩
    exact ⟨⟨fun h held => handles h (.inl held), fun id held => references id (.inl held)⟩,
      ⟨fun h held => handles h (.inr held), fun id held => references id (.inr held)⟩⟩
  · rintro ⟨left, right⟩
    exact ⟨fun h held => held.elim (left.handles h) (right.handles h),
      fun id held => held.elim (left.references id) (right.references id)⟩

theorem secure_between {first inner last : Term} :
    (between first inner last).Secure s ↔ first.Secure s ∧ inner.Secure s ∧ last.Secure s := by
  -- what a term between two others holds is what two nested binary terms hold
  have nested : (between first inner last).Secure s ↔
      (binary .ignoreThen first (binary .thenIgnore inner last)).Secure s :=
    ⟨fun h => ⟨h.handles, h.references⟩, fun h => ⟨h.handles, h.references⟩⟩
  rw [nested, secure_binary, secure_binary]

theorem secure_bind {p : Term} {next : Chooser} {scope : Scope} :
    (bind p next scope).Secure s ↔ p.Secure s ∧ scope.Secure s next.Names := by
  constructor
  · rintro ⟨handles, references⟩
    exact ⟨⟨fun h held => handles h (.inl held), references⟩, fun h gives => handles h (.inr gives)⟩
  · rintro ⟨secure, inScope⟩
    exact ⟨fun h held => held.elim (secure.handles h) (inScope h), secure.references⟩

end Term

namespace Store

/-- What a store holds refers to what is there: rules that are owned are alive. -/
structure Closed (s : Store) : Prop where
  cells : ∀ id, s.alive id → id.number < s.nextRule
  definitions : ∀ id q, s.definition? id = some q → q.Secure s
  resolved : ∀ id q, s.resolved.lookup id = some q → s.IsReference id ∧ q.Secure s

variable {s s' : Store} {id rule : RuleId}

theorem alive_setCell (body : Term) : (s.setCell rule body).alive id = s.alive id := by
  rw [alive, alive, lookup_setCell, Option.isSome_map]

theorem secure_setCell {body t : Term} : t.Secure (s.setCell rule body) ↔ t.Secure s := by
  have same : (s.setCell rule body).alive = s.alive := funext fun _ => alive_setCell body
  constructor
  · rintro ⟨handles, references⟩
    refine ⟨fun h held => ?_, fun id held => ?_⟩
    · have backed := handles h held
      rwa [Backs, same] at backed
    · have made := references id held
      rwa [IsReference, same] at made
  · rintro ⟨handles, references⟩
    refine ⟨fun h held => ?_, fun id held => ?_⟩
    · rw [Backs, same]
      exact handles h held
    · rw [IsReference, same]
      exact references id held

namespace Closed

theorem withActive (closed : s.Closed) (active : List Entry) : (s.withActive active).Closed where
  cells := closed.cells
  definitions id q found := (closed.definitions id q found).later (.withActive s active)
  resolved id q found :=
    ⟨(closed.resolved id q found).1, (closed.resolved id q found).2.later (.withActive s active)⟩

theorem setCell (closed : s.Closed) {body : Term} (secure : body.Secure s) :
    (s.setCell rule body).Closed where
  cells id live := closed.cells id (by rwa [alive_setCell] at live)
  definitions id q found := by
    rw [secure_setCell]
    rcases definition?_setCell_eq_some found with ⟨-, rfl⟩ | before
    · exact secure
    · exact closed.definitions id q before
  resolved id q found := by
    obtain ⟨made, kept⟩ := closed.resolved id q found
    refine ⟨⟨made.1, ?_⟩, secure_setCell.mpr kept⟩
    rw [alive_setCell]
    exact made.2

theorem declare (closed : s.Closed) : (Store.declare s).2.Closed := by
  have continues := Continues.of_grows (declare_grows s)
  refine ⟨fun id live => ?_, fun id q found => ?_, fun id q found => ?_⟩
  · by_cases old : id.number < s.nextRule
    · exact Nat.lt_of_lt_of_le old continues.nextRule
    · by_cases new : id = ⟨s.nextRule⟩
      · subst new
        exact Nat.lt_succ_self _
      · have ne : (id == (⟨s.nextRule⟩ : RuleId)) = false := by simpa using new
        have before : s.alive id := by
          change (List.lookup id ((⟨s.nextRule⟩, none) :: s.cells)).isSome at live
          rwa [List.lookup_cons, ne] at live
        exact absurd (closed.cells id before) old
  · exact (closed.definitions id q (definition?_declare_eq_some found)).later continues
  · obtain ⟨made, kept⟩ := closed.resolved id q found
    exact ⟨continues.isReference made, kept.later continues⟩

theorem fresh (closed : s.Closed) : (Store.fresh s).2.Closed := by
  have continues := Continues.fresh s
  refine ⟨fun id live => Nat.lt_succ_of_lt (closed.cells id live), fun id q found => ?_,
    fun id q found => ?_⟩
  · exact (closed.definitions id q found).later continues
  · obtain ⟨made, kept⟩ := closed.resolved id q found
    exact ⟨continues.isReference made, kept.later continues⟩

theorem keep (closed : s.Closed) {q : Term} (made : s.IsReference id) (secure : q.Secure s)
    (unresolved : s.resolved.lookup id = none) : (s.keep id q).Closed := by
  have continues := Continues.keep (q := q) unresolved
  refine ⟨closed.cells, fun other q' found => ?_, fun other q' found => ?_⟩
  · exact (closed.definitions other q' found).later continues
  · rcases lookup_keep_eq_some found with ⟨rfl, rfl⟩ | before
    · exact ⟨continues.isReference made, secure.later continues⟩
    · obtain ⟨made', kept⟩ := closed.resolved other q' before
      exact ⟨continues.isReference made', kept.later continues⟩

/-- A rule that is not yet in use is not alive. -/
theorem not_alive (closed : s.Closed) (new : s.nextRule ≤ id.number) : ¬ s.alive id :=
  fun live => absurd (closed.cells id live) (by omega)

end Closed

theorem alive_declare (s : Store) : (Store.declare s).2.alive ⟨s.nextRule⟩ := by
  change (List.lookup _ ((⟨s.nextRule⟩, none) :: s.cells)).isSome
  rw [List.lookup_cons_self]
  rfl

end Store

open Store

/-- A grammar that has been built is secure, in a closed store that continues the one before. -/
structure Store.Secures (s : Store) (built : Term × Store) : Prop where
  continues : s.Continues built.2
  closed : built.2.Closed
  secure : built.1.Secure built.2

namespace Store.Secures

variable {s s₁ s₂ s₃ : Store} {t₁ t₂ t₃ : Term}

theorem handle (closed : s.Closed) {h : Handle} (backed : s.Backs h) : s.Secures (.rule h, s) :=
  ⟨.refl s, closed, .rule backed⟩

theorem declare (closed : s.Closed) :
    s.Secures (.rule ⟨⟨s.nextRule⟩, true⟩, (Store.declare s).2) :=
  ⟨.of_grows (declare_grows s), closed.declare,
    .rule ⟨Nat.lt_succ_self _, fun _ => alive_declare s⟩⟩

theorem fresh (closed : s.Closed) {body : Node} {scope : Scope}
    (inScope : scope.Secure s body.Names) :
    s.Secures (.reference ⟨s.nextRule⟩ body scope, (Store.fresh s).2) := by
  refine ⟨.fresh s, closed.fresh, inScope.later (.fresh s), fun id held => ?_⟩
  obtain rfl : ⟨s.nextRule⟩ = id := held
  exact ⟨Nat.lt_succ_self _, closed.not_alive (Nat.le_refl _)⟩

theorem unary (h : s.Secures (t₁, s₁)) (op : Unary) : s.Secures (.unary op t₁, s₁) :=
  ⟨h.continues, h.closed, Term.secure_unary.mpr h.secure⟩

theorem binary (left : s.Secures (t₁, s₁)) (right : s₁.Secures (t₂, s₂)) (op : Binary) :
    s.Secures (.binary op t₁ t₂, s₂) where
  continues := left.continues.trans right.continues
  closed := right.closed
  secure := Term.secure_binary.mpr ⟨left.secure.later right.continues, right.secure⟩

theorem between (first : s.Secures (t₁, s₁)) (inner : s₁.Secures (t₂, s₂))
    (last : s₂.Secures (t₃, s₃)) : s.Secures (.between t₁ t₂ t₃, s₃) where
  continues := (first.continues.trans inner.continues).trans last.continues
  closed := last.closed
  secure := Term.secure_between.mpr
    ⟨first.secure.later (inner.continues.trans last.continues),
      inner.secure.later last.continues, last.secure⟩

theorem bind (h : s.Secures (t₁, s₁)) {next : Chooser} {scope : Scope}
    (inScope : scope.Secure s next.Names) : s.Secures (.bind t₁ next scope, s₁) :=
  ⟨h.continues, h.closed, Term.secure_bind.mpr ⟨h.secure, inScope.later h.continues⟩⟩

/-- A recursive rule that is declared and then defined by its body. -/
theorem define (closed : s.Closed) (body : (Store.declare s).2.Secures (t₁, s₁)) :
    s.Secures (.rule ⟨⟨s.nextRule⟩, true⟩, s₁.setCell ⟨s.nextRule⟩ t₁) where
  continues := ((declare closed).continues.trans body.continues).setCell_new _ (Nat.le_refl _) _
  closed := body.closed.setCell body.secure
  secure := secure_setCell.mpr ((declare closed).secure.later body.continues)

theorem replicate (h : s.Secures (t₁, s₁)) (n : Nat) : s.Secures (t₁.replicate n, s₁) :=
  ⟨h.continues, h.closed, fun k held => h.secure.handles k (Term.contains_replicate held),
    fun id held => h.secure.references id (Term.hasReference_replicate held)⟩

end Store.Secures

/-- In the body of a recursive rule its name stands for a handle that does not own it. -/
theorem Scope.Secure.bindRule {s : Store} {scope : Scope} {name : String} {names : String → Prop}
    (secure : scope.Secure s fun other => other ≠ name ∧ names other) :
    (scope.bindRule name ⟨⟨s.nextRule⟩, false⟩).Secure (Store.declare s).2 names := by
  intro h gives
  rcases Scope.gives_bindRule.mp gives with ⟨-, rfl⟩ | outer
  · exact backs_unowned (Nat.lt_succ_self _)
  · exact (Continues.of_grows (declare_grows s)).backs (secure h outer)

theorem Node.build_secure (scope : Scope) {s : Store} (closed : s.Closed) :
    (node : Node) → scope.Secure s node.Names → s.Secures (node.build scope s)
  | .leaf a, _ => ⟨.refl s, closed, .leaf s _⟩
  | .unary op p, inScope => (p.build_secure scope closed inScope).unary _
  | .binary op p q, inScope => by
    have left := p.build_secure scope closed inScope.left
    have right := q.build_secure scope left.closed (inScope.right.later left.continues)
    exact left.binary right op
  | .between first inner last, inScope => by
    have first' := first.build_secure scope closed inScope.left
    have inner' := inner.build_secure scope first'.closed
      (inScope.right.left.later first'.continues)
    have last' := last.build_secure scope inner'.closed
      (inScope.right.right.later (first'.continues.trans inner'.continues))
    exact first'.between inner' last'
  | .bind p next, inScope => (p.build_secure scope closed inScope.left).bind inScope.right
  | .rule name, inScope => by
    simp only [Node.build]
    cases found : scope.handle? name with
    | none => exact .declare closed
    | some h => exact .handle closed (inScope h ⟨name, rfl, found⟩)
  | .recursive name body, inScope =>
    .define closed (body.build_secure _ closed.declare inScope.bindRule)
  | .reference body, inScope => .fresh closed inScope
  | .undefined, _ => .declare closed

theorem Chooser.build_secure (scope : Scope) (v : Value) {s : Store} (closed : s.Closed) :
    (next : Chooser) → scope.Secure s next.Names → s.Secures (next.build scope v s)
  | .same, _ => by
    cases v <;> exact ⟨.refl s, closed, .leaf s _⟩
  | .times p, inScope => (p.build_secure scope closed inScope).replicate _
  | .always p, inScope => p.build_secure scope closed inScope
  | .onValue w p otherwise, inScope => by
    simp only [Chooser.build]
    split
    · exact p.build_secure scope closed inScope.left
    · exact otherwise.build_secure scope v closed inScope.right
  | .bindTo x p, inScope => p.build_secure (scope.bindValue x v) closed inScope

section Parsing

/-- A run from a closed store ends in a closed store and loses nothing on the way. -/
def securing (s₀ : Store) : Judgement Store Store where
  region _ := True
  moves _ _ := True
  holds X _ good := ∀ n s, s₀.Continues s → s.Closed →
    (X n s).2.Closed ∧ s.Continues (X n s).2 ∧ ∀ a t, X n s = (.ok a, t) → good a
  moves_refl _ := trivial
  moves_trans _ _ := trivial
  moves_next _ := trivial
  region_moves _ _ := trivial
  pure h _ s _ closed := ⟨closed, .refl s, fun _ _ eq => by cases eq; exact h⟩
  bind {α β X Y F G mid good} hx hf n s from₀ closed := by
    obtain ⟨closed₁, continues₁, yields⟩ := hx n s from₀ closed
    change ((X n >>= F n) s).2.Closed ∧ s.Continues ((X n >>= F n) s).2 ∧
      ∀ b t, (X n >>= F n) s = (.ok b, t) → good b
    rcases run : X n s with ⟨e | a, s₁⟩
    · rw [run] at closed₁ continues₁
      rw [Step.bind_of_error run]
      exact ⟨closed₁, continues₁, fun b t eq => nomatch eq⟩
    · rw [run] at closed₁ continues₁
      rw [Step.bind_of_ok run]
      obtain ⟨closed₂, continues₂, yields₂⟩ :=
        hf a (yields a s₁ run) n s₁ (from₀.trans continues₁) closed₁
      exact ⟨closed₂, continues₁.trans continues₂, yields₂⟩

theorem securing_partial (s₀ : Store) : (securing s₀).Partial :=
  fun _ _ _ _ s _ closed => ⟨closed, .refl s, fun _ _ eq => nomatch eq⟩

theorem securing_guard (s₀ : Store) (rule : RuleId) {p p' : Parser Store Value}
    (h : (securing s₀).Parsers (fun _ => p) fun _ => p') :
    (securing s₀).Parsers (fun _ => guarded rule p) fun _ => guarded rule p' := by
  intro c hc n s from₀ closed
  dsimp only
  by_cases entered : Store.entry rule c ∈ s.active
  · rw [guarded_of_mem entered]
    exact ⟨closed, .refl s, fun _ _ _ => trivial⟩
  · rw [guarded_of_notMem entered]
    have inside := Continues.withActive s (Store.entry rule c :: s.active)
    obtain ⟨closed', continues, -⟩ :=
      h c hc n _ (from₀.trans inside) (closed.withActive (Store.entry rule c :: s.active))
    exact ⟨closed'.withActive _, (inside.trans continues).trans (.withActive _ _),
      fun _ _ _ => trivial⟩

/-- Resolving a reference loses nothing, and what it resolves to is secure. -/
theorem Store.Closed.resolve {s : Store} (closed : s.Closed) {id : RuleId} {body : Node}
    {scope : Scope} (secure : (Term.reference id body scope).Secure s) :
    ∃ q s', Store.resolve id body scope s = (.ok q, s') ∧ s'.Closed ∧ s.Continues s' ∧
      q.Secure s' := by
  cases found : s.resolved.lookup id with
  | some q =>
    exact ⟨q, s, Store.resolve_of_some found, closed, .refl s, (closed.resolved id q found).2⟩
  | none =>
    have built := body.build_secure scope closed secure.handles
    have unresolved : (body.build scope s).2.resolved.lookup id = none :=
      (congrArg (List.lookup id) (body.build_grows scope s).resolved).trans found
    have made := built.continues.isReference (secure.references id rfl)
    have keeps := Continues.keep (q := (body.build scope s).1) unresolved
    exact ⟨_, _, Store.resolve_of_none found, built.closed.keep made built.secure unresolved,
      built.continues.trans keeps, built.secure.later keeps⟩

/-- A parse with a secure grammar keeps the store closed and loses nothing. -/
theorem Term.parse_securing (n : Nat) {s₀ : Store} {t : Term} (secure : t.Secure s₀) :
    (securing s₀).Parsers (fun _ => t.parse n) fun _ => t.parse n := by
  induction n generalizing s₀ t with
  | zero => exact fun c _ => securing_partial s₀ _ _
  | succ n ih =>
    have fuel := (securing_partial s₀).fuels (Nat.le_refl n)
    cases t with
    | leaf a => exact Judgement.atom a fun _ _ _ _ => trivial
    | unary op p => exact Judgement.unary (ih (secure_unary.mp secure)) fuel op
    | binary op p q =>
      obtain ⟨secureP, secureQ⟩ := secure_binary.mp secure
      exact Judgement.binary (ih secureP) (ih secureQ) fuel op
    | between first inner last =>
      obtain ⟨secure₁, secure₂, secure₃⟩ := secure_between.mp secure
      exact Judgement.between (ih secure₁) (ih secure₂) (ih secure₃)
    | bind p next scope =>
      obtain ⟨secureP, inScope⟩ := secure_bind.mp secure
      refine Judgement.andThen (ih secureP) fun v c hc k s from₀ closed => ?_
      have built := next.build_secure scope v closed (inScope.later from₀)
      obtain ⟨closed₂, continues₂, yields⟩ := ih built.secure c hc k _ (.refl _) built.closed
      dsimp only [Machine.guarding, id]
      rw [Step.bind_of_ok (Store.build_apply next scope v s)]
      exact ⟨closed₂, built.continues.trans continues₂, yields⟩
    | rule h =>
      intro c hc k s from₀ closed
      dsimp only
      rw [parse_rule, Step.bind_apply, Store.definition_apply]
      cases found : s.definition? h.rule with
      | none => exact ⟨closed, .refl s, fun _ _ _ => trivial⟩
      | some q =>
        exact securing_guard s h.rule (ih (closed.definitions _ q found)) c hc k s (.refl s) closed
    | reference id body scope =>
      intro c hc k s from₀ closed
      obtain ⟨q, s₁, run, closed₁, continues₁, secureQ⟩ := closed.resolve (secure.later from₀)
      obtain ⟨closed₂, continues₂, yields⟩ :=
        securing_guard s₁ id (ih secureQ) c hc k s₁ (.refl s₁) closed₁
      dsimp only
      rw [parse_reference, Step.bind_of_ok run]
      exact ⟨closed₂, continues₁.trans continues₂, yields⟩

theorem Term.parseFrom_secure {s : Store} {t : Term} (secure : t.Secure s) (closed : s.Closed)
    (c : Cursor) : (t.parseFrom c s).2.Closed ∧ s.Continues (t.parseFrom c s).2 := by
  obtain ⟨closed', continues, -⟩ :=
    Term.parse_securing ampleFuel secure c trivial 0 s (.refl s) closed
  exact ⟨closed', continues⟩

end Parsing
end Descent
