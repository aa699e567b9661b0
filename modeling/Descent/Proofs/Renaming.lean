import Descent.Proofs.Building

/-!
Renaming of identities.
Main statement: from two stores, a grammar is built into terms and definitions that differ only in
the identities newly given out, which are in both stores counted from the next one on.
-/

namespace Descent

variable {f g : RuleId → RuleId}

def Handle.rename (f : RuleId → RuleId) (h : Handle) : Handle := ⟨f h.rule, h.owning⟩

def Scope.rename (f : RuleId → RuleId) (scope : Scope) : Scope :=
  ⟨scope.rules.map fun (name, h) => (name, h.rename f), scope.values⟩

def Term.rename (f : RuleId → RuleId) : Term → Term
  | leaf a => leaf a
  | unary op p => unary op (p.rename f)
  | binary op p q => binary op (p.rename f) (q.rename f)
  | between first inner last => between (first.rename f) (inner.rename f) (last.rename f)
  | bind p next scope => bind (p.rename f) next (scope.rename f)
  | rule h => rule (h.rename f)
  | reference id body scope => reference (f id) body (scope.rename f)

namespace Scope

theorem rename_id (scope : Scope) : scope.rename id = scope := by
  obtain ⟨rules, values⟩ := scope
  have same : (fun (name, h) => (name, Handle.rename id h)) = @id (String × Handle) := rfl
  simp only [rename, same, List.map_id]

theorem rename_congr {H : RuleId → Prop} (same : ∀ id, H id → f id = g id) {scope : Scope}
    (refers : scope.Refers H) : scope.rename f = scope.rename g := by
  obtain ⟨rules, values⟩ := scope
  simp only [rename, mk.injEq, and_true]
  refine List.map_congr_left fun binding mem => ?_
  obtain ⟨name, h⟩ := binding
  simp only [Handle.rename, same _ (refers _ mem)]

theorem handle?_rename (scope : Scope) (name : String) :
    (scope.rename f).handle? name = (scope.handle? name).map (Handle.rename f) := by
  obtain ⟨rules, values⟩ := scope
  simp only [handle?, rename]
  induction rules with
  | nil => rfl
  | cons binding rest ih =>
    obtain ⟨other, h⟩ := binding
    by_cases same : name = other
    · subst same
      simp
    · have differs : (name == other) = false := by simpa using same
      simpa [List.lookup_cons, differs] using ih

end Scope

namespace Term

theorem rename_id (t : Term) : t.rename id = t := by
  induction t with
  | leaf a => rfl
  | unary op p ih => rw [rename, ih]
  | binary op p q ihp ihq => rw [rename, ihp, ihq]
  | between first inner last ih₁ ih₂ ih₃ => rw [rename, ih₁, ih₂, ih₃]
  | bind p next scope ih => rw [rename, ih, scope.rename_id]
  | rule h => rfl
  | reference rule body scope => rw [rename, scope.rename_id, id]

theorem rename_congr {H : RuleId → Prop} {R : RuleId → Node → Scope → Prop}
    (rules : ∀ id, H id → f id = g id) (references : ∀ id body scope, R id body scope → f id = g id)
    {t : Term} (refers : t.Refers H R) : t.rename f = t.rename g := by
  induction t with
  | leaf a => rfl
  | unary op p ih => rw [rename, rename, ih refers]
  | binary op p q ihp ihq => rw [rename, rename, ihp refers.1, ihq refers.2]
  | between first inner last ih₁ ih₂ ih₃ =>
    rw [rename, rename, ih₁ refers.1, ih₂ refers.2.1, ih₃ refers.2.2]
  | bind p next scope ih => rw [rename, rename, ih refers.1, Scope.rename_congr rules refers.2]
  | rule h => rw [rename, rename, Handle.rename, Handle.rename, rules _ refers]
  | reference id body scope =>
    rw [rename, rename, references _ _ _ refers.1, Scope.rename_congr rules refers.2]

theorem rename_replicate (t : Term) (n : Nat) :
    (t.replicate n).rename f = (t.rename f).replicate n := by
  induction n with
  | zero => rfl
  | succ n ih => rw [replicate, rename, ih, replicate, rename]

end Term

/-- The identities from `a` on become those from `b` on. -/
def Shifts (f : RuleId → RuleId) (a b : Nat) : Prop := ∀ d, f ⟨a + d⟩ = ⟨b + d⟩

theorem Shifts.first {a b : Nat} (h : Shifts f a b) : f ⟨a⟩ = ⟨b⟩ := h 0

theorem Shifts.later {a b : Nat} (h : Shifts f a b) (size : Nat) :
    Shifts f (a + size) (b + size) := by
  intro d
  rw [Nat.add_assoc, Nat.add_assoc]
  exact h (size + d)

/-- As many identities are given out from `s` to `t` as from `s'` to `t'`, and with the same
definitions up to names. -/
structure Store.Parallel (f : RuleId → RuleId) (s s' t t' : Store) : Prop where
  size : ∃ size, t.nextRule = s.nextRule + size ∧ t'.nextRule = s'.nextRule + size
  definition : ∀ d, s.nextRule + d < t.nextRule →
    t'.definition? ⟨s'.nextRule + d⟩ = (t.definition? ⟨s.nextRule + d⟩).map (Term.rename f)

namespace Store.Parallel

variable {s s' t t' u u' : Store}

theorem refl (f : RuleId → RuleId) (s s' : Store) : Parallel f s s' s s' :=
  ⟨⟨0, rfl, rfl⟩, fun _ new => by omega⟩

theorem shifts (h : Parallel f s s' t t') (shift : Shifts f s.nextRule s'.nextRule) :
    Shifts f t.nextRule t'.nextRule := by
  obtain ⟨size, eq, eq'⟩ := h.size
  rw [eq, eq']
  exact shift.later size

theorem trans (h : Parallel f s s' t t') (k : Parallel f t t' u u') (grows : t.Grows u)
    (grows' : t'.Grows u') : Parallel f s s' u u' := by
  obtain ⟨m, eq, eq'⟩ := h.size
  obtain ⟨n, next, next'⟩ := k.size
  refine ⟨⟨m + n, by omega, by omega⟩, fun d new => ?_⟩
  by_cases old : s.nextRule + d < t.nextRule
  · have old' : s'.nextRule + d < t'.nextRule := by omega
    rw [grows.definition old, grows'.definition old']
    exact h.definition d old
  · obtain ⟨e, rfl⟩ : ∃ e, d = m + e := ⟨d - m, by omega⟩
    have later := k.definition e (by omega)
    rw [eq, eq', Nat.add_assoc, Nat.add_assoc] at later
    exact later

theorem declare (f : RuleId → RuleId) (s s' : Store) :
    Parallel f s s' (Store.declare s).2 (Store.declare s').2 := by
  refine ⟨⟨1, rfl, rfl⟩, fun d new => ?_⟩
  obtain rfl : d = 0 := by
    have : s.nextRule + d < s.nextRule + 1 := new
    omega
  rw [Nat.add_zero, Nat.add_zero, definition?_declare, definition?_declare]
  rfl

/-- Both stores give a rule that they declared its definition. -/
theorem define (h : Parallel f s s' t t') (grows : (Store.declare s).2.Grows t)
    (grows' : (Store.declare s').2.Grows t') (body : Term) :
    Parallel f s s' (t.setCell ⟨s.nextRule⟩ body) (t'.setCell ⟨s'.nextRule⟩ (body.rename f)) := by
  refine ⟨h.size, fun d new => ?_⟩
  have present {a b : Store} (grows : (Store.declare a).2.Grows b) :
      b.cells.lookup ⟨a.nextRule⟩ = some none := by
    rw [grows.cells _ (Nat.lt_succ_self _)]
    exact List.lookup_cons_self
  by_cases first : d = 0
  · subst first
    rw [Nat.add_zero, Nat.add_zero, definition?_setCell_self _ (present grows'),
      definition?_setCell_self _ (present grows)]
    rfl
  · have differs (a : Nat) : (⟨a + d⟩ : RuleId) ≠ ⟨a⟩ := by
      intro eq
      have := congrArg RuleId.number eq
      simp only at this
      omega
    rw [definition?_setCell_of_ne _ _ (differs _), definition?_setCell_of_ne _ _ (differs _)]
    exact h.definition d new

end Store.Parallel

open Store

/-- What two computations come to, each from its own store. -/
structure Store.Mirrored {α : Type} (f : RuleId → RuleId) (same : α → α → Prop) (s s' : Store)
    (r r' : α × Store) : Prop where
  result : same r.1 r'.1
  parallel : Parallel f s s' r.2 r'.2
  grows : s.Grows r.2
  grows' : s'.Grows r'.2
  bounded : r.2.Bounded
  bounded' : r'.2.Bounded

/-- Two computations that do the same from any two stores, up to a renaming by which the next
identities of the one are those of the other. -/
def Store.Mirrors {α : Type} (f : RuleId → RuleId) (same : α → α → Prop) (x x' : StateM Store α) :
    Prop :=
  ∀ s s' : Store, s.Bounded → s'.Bounded → Shifts f s.nextRule s'.nextRule →
    Mirrored f same s s' (x s) (x' s')

namespace Store.Mirrors

variable {α β : Type} {same : α → α → Prop} {same' : β → β → Prop}

theorem pure {a a' : α} (h : same a a') : Mirrors f same (Pure.pure a) (Pure.pure a') :=
  fun s s' bounded bounded' _ =>
    ⟨h, Parallel.refl f s s', Grows.refl s, Grows.refl s', bounded, bounded'⟩

theorem bind {x x' : StateM Store α} {g g' : α → StateM Store β} (hx : Mirrors f same x x')
    (hg : ∀ a a', same a a' → Mirrors f same' (g a) (g' a')) :
    Mirrors f same' (x >>= g) (x' >>= g') := by
  intro s s' bounded bounded' shift
  have first := hx s s' bounded bounded' shift
  have second := hg _ _ first.result _ _ first.bounded first.bounded' (first.parallel.shifts shift)
  exact ⟨second.result, first.parallel.trans second.parallel second.grows second.grows',
    first.grows.trans second.grows, first.grows'.trans second.grows', second.bounded,
    second.bounded'⟩

theorem declare : Mirrors f (fun rule rule' => rule' = f rule) Store.declare Store.declare :=
  fun s s' bounded bounded' shift => ⟨shift.first.symm, Parallel.declare f s s', declare_grows s,
    declare_grows s', declare_bounded bounded, declare_bounded bounded'⟩

theorem fresh : Mirrors f (fun rule rule' => rule' = f rule) Store.fresh Store.fresh := by
  intro s s' bounded bounded' shift
  have grows (a : Store) : a.Grows (Store.fresh a).2 :=
    ⟨Nat.le_succ _, fun _ _ => rfl, rfl, rfl⟩
  refine ⟨shift.first.symm, ⟨⟨1, rfl, rfl⟩, fun d new => ?_⟩, grows s, grows s',
    fun id beyond => bounded id (Nat.le_of_succ_le beyond),
    fun id beyond => bounded' id (Nat.le_of_succ_le beyond)⟩
  have undefined : (Store.fresh s).2.definition? ⟨s.nextRule + d⟩ = none :=
    bounded _ (Nat.le_add_right _ _)
  have undefined' : (Store.fresh s').2.definition? ⟨s'.nextRule + d⟩ = none :=
    bounded' _ (Nat.le_add_right _ _)
  exact undefined'.trans (congrArg (Option.map (Term.rename f)) undefined).symm

/-- A rule is declared, and defined when its body has been built. -/
theorem define {g g' : RuleId → StateM Store Term}
    (hg : ∀ rule rule', rule' = f rule →
      Mirrors f (fun t t' => t' = Term.rename f t) (g rule) (g' rule')) :
    Mirrors f (fun t t' => t' = Term.rename f t)
      (do
        let rule ← Store.declare
        let body ← g rule
        modify (·.setCell rule body)
        return Term.rule ⟨rule, true⟩)
      (do
        let rule ← Store.declare
        let body ← g' rule
        modify (·.setCell rule body)
        return Term.rule ⟨rule, true⟩) := by
  intro s s' bounded bounded' shift
  have first := declare s s' bounded bounded' shift
  have body := hg ⟨s.nextRule⟩ ⟨s'.nextRule⟩ first.result _ _ first.bounded first.bounded'
    (first.parallel.shifts shift)
  have whole := first.parallel.trans body.parallel body.grows body.grows'
  have defined := whole.define body.grows body.grows' (g ⟨s.nextRule⟩ (Store.declare s).2).1
  have rule : Term.rule ⟨⟨s'.nextRule⟩, true⟩ = (Term.rule ⟨⟨s.nextRule⟩, true⟩).rename f :=
    congrArg (fun rule => Term.rule ⟨rule, true⟩) first.result
  rw [← body.result] at defined
  exact ⟨rule, defined, define_grows body.grows _, define_grows body.grows' _,
    setCell_bounded body.bounded ⟨s.nextRule⟩ body.grows.nextRule _,
    setCell_bounded body.bounded' ⟨s'.nextRule⟩ body.grows'.nextRule _⟩

end Store.Mirrors

/-- Building a grammar in two stores. -/
theorem Node.build_rename (scope : Scope) : (node : Node) →
    Mirrors f (fun t t' => t' = t.rename f) (node.build scope) (node.build (scope.rename f))
  | .leaf _ => .pure rfl
  | .unary _ p => (p.build_rename scope).bind fun t t' same => .pure (by rw [same]; rfl)
  | .binary _ p q =>
    (p.build_rename scope).bind fun t t' left =>
      (q.build_rename scope).bind fun u u' right => .pure (by rw [left, right]; rfl)
  | .between first inner last =>
    (first.build_rename scope).bind fun t t' same₁ =>
      (inner.build_rename scope).bind fun u u' same₂ =>
        (last.build_rename scope).bind fun v v' same₃ => .pure (by rw [same₁, same₂, same₃]; rfl)
  | .bind p _ => (p.build_rename scope).bind fun t t' same => .pure (by rw [same]; rfl)
  | .rule name => by
    rw [Node.build, Node.build, Scope.handle?_rename]
    cases scope.handle? name with
    | some h => exact .pure rfl
    | none => exact Mirrors.declare.bind fun rule rule' same => .pure (by rw [same]; rfl)
  | .recursive name body =>
    .define fun rule rule' same => by
      rw [same]
      exact body.build_rename (scope.bindRule name ⟨rule, false⟩)
  | .reference _ => Mirrors.fresh.bind fun rule rule' same => .pure (by rw [same]; rfl)
  | .undefined => Mirrors.declare.bind fun rule rule' same => .pure (by rw [same]; rfl)

theorem Chooser.build_rename (scope : Scope) (v : Value) : (next : Chooser) →
    Mirrors f (fun t t' => t' = t.rename f) (next.build scope v) (next.build (scope.rename f) v)
  | .same => by
    cases v <;> exact .pure rfl
  | .times p => (p.build_rename scope).bind fun t t' same =>
    .pure (by rw [same, Term.rename_replicate])
  | .always p => p.build_rename scope
  | .onValue w p otherwise => by
    rw [Chooser.build, Chooser.build]
    by_cases h : w = v
    · simpa only [h, if_true] using p.build_rename scope
    · simpa only [h, if_false] using otherwise.build_rename scope v
  | .bindTo x p => p.build_rename (scope.bindValue x v)

end Descent
