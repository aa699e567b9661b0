import Descent.Grammar.Store

/-!
What building a grammar does to a store. It only takes new identities: all that the store held
before stays as it is, and what is built refers to rules in scope and to the new identities alone.
-/

namespace Descent

/-- What references stand for, by their identities; a rule stands for nothing here. -/
abbrev Catalog := RuleId → Option (Node × Scope)

mutual

/-- How deep choosers and references are nested. Each of their levels is built by itself, while a
parse is running. -/
def Node.nesting : Node → Nat
  | .leaf _ => 0
  | .unary _ p => p.nesting
  | .binary _ p q => max p.nesting q.nesting
  | .between first inner last => max first.nesting (max inner.nesting last.nesting)
  | .bind p next => max p.nesting (next.nesting + 1)
  | .rule _ => 0
  | .recursive _ body => body.nesting
  | .reference body => body.nesting + 1
  | .undefined => 0

def Chooser.nesting : Chooser → Nat
  | .same => 0
  | .times p => p.nesting
  | .always p => p.nesting
  | .onValue _ p otherwise => max p.nesting otherwise.nesting
  | .bindTo _ p => p.nesting

end

def Term.nesting : Term → Nat
  | leaf _ => 0
  | unary _ p => p.nesting
  | binary _ p q => max p.nesting q.nesting
  | between first inner last => max first.nesting (max inner.nesting last.nesting)
  | bind p next _ => max p.nesting (next.nesting + 1)
  | rule _ => 0
  | reference _ body _ => body.nesting + 1

/-- All rules that the names of a scope stand for are among `rules`. -/
def Scope.Refers (rules : RuleId → Prop) (scope : Scope) : Prop :=
  ∀ binding ∈ scope.rules, rules binding.2.rule

/-- All rules that a term may enter are among `rules`, and its references among `references`. -/
def Term.Refers (rules : RuleId → Prop) (references : RuleId → Node → Scope → Prop) :
    Term → Prop
  | leaf _ => True
  | unary _ p => p.Refers rules references
  | binary _ p q => p.Refers rules references ∧ q.Refers rules references
  | between first inner last => first.Refers rules references ∧
      inner.Refers rules references ∧ last.Refers rules references
  | bind p _ scope => p.Refers rules references ∧ scope.Refers rules
  | rule h => rules h.rule
  | reference id body scope => references id body scope ∧ scope.Refers rules

theorem Scope.Refers.mono {H K : RuleId → Prop} (weaker : ∀ id, H id → K id) {scope : Scope}
    (h : scope.Refers H) : scope.Refers K :=
  fun binding mem => weaker _ (h binding mem)

theorem Term.Refers.mono {H K : RuleId → Prop} {R S : RuleId → Node → Scope → Prop}
    (rules : ∀ id, H id → K id)
    (references : ∀ id body scope, scope.Refers H → R id body scope → S id body scope)
    {t : Term} (h : t.Refers H R) : t.Refers K S := by
  induction t with
  | leaf a => trivial
  | unary op p ih => exact ih h
  | binary op p q ihp ihq => exact ⟨ihp h.1, ihq h.2⟩
  | between first inner last ih₁ ih₂ ih₃ => exact ⟨ih₁ h.1, ih₂ h.2.1, ih₃ h.2.2⟩
  | bind p next scope ih => exact ⟨ih h.1, h.2.mono rules⟩
  | rule handle => exact rules _ h
  | reference id body scope => exact ⟨references _ _ _ h.2 h.1, h.2.mono rules⟩

theorem Scope.Refers.bindRule {H : RuleId → Prop} {scope : Scope} {name : String} {handle : Handle}
    (h : scope.Refers H) (bound : H handle.rule) : (scope.bindRule name handle).Refers H := by
  intro binding mem
  rcases List.mem_cons.mp mem with rfl | mem
  · exact bound
  · exact h binding mem

theorem Scope.Refers.of_handle? {H : RuleId → Prop} {scope : Scope} {name : String}
    {handle : Handle} (h : scope.Refers H) (found : scope.handle? name = some handle) :
    H handle.rule := by
  obtain ⟨l₁, l₂, eq, -⟩ := List.lookup_eq_some_iff.mp found
  exact h (name, handle) (by rw [eq]; simp)

theorem Term.Refers.replicate {H : RuleId → Prop} {R : RuleId → Node → Scope → Prop} {t : Term}
    (h : t.Refers H R) (n : Nat) : (t.replicate n).Refers H R := by
  induction n with
  | zero => trivial
  | succ n ih => exact ⟨ih, h⟩

theorem Term.nesting_replicate (t : Term) (n : Nat) : (t.replicate n).nesting ≤ t.nesting := by
  induction n with
  | zero => exact Nat.zero_le _
  | succ n ih => exact Nat.max_le.mpr ⟨ih, Nat.le_refl _⟩

namespace Store

theorem lookup_setCell (s : Store) (rule id : RuleId) (body : Term) :
    (s.setCell rule body).cells.lookup id =
      (s.cells.lookup id).map fun cell => if id = rule then some body else cell := by
  obtain ⟨next, cells, resolved, active⟩ := s
  simp only [setCell]
  induction cells with
  | nil => rfl
  | cons cell rest ih =>
    obtain ⟨r, content⟩ := cell
    by_cases same : id = r
    · subst same
      by_cases h : id = rule <;> simp [h]
    · have differs : (id == r) = false := by simpa using same
      by_cases h : r = rule
      · simp [h, List.lookup_cons, h ▸ differs, ih]
      · simp [h, List.lookup_cons, differs, ih]

theorem definition?_setCell_of_ne (s : Store) {rule id : RuleId} (body : Term) (h : id ≠ rule) :
    (s.setCell rule body).definition? id = s.definition? id := by
  rw [definition?, definition?, lookup_setCell]
  simp only [h, if_false, Option.map_id']

theorem definition?_setCell_self {s : Store} {rule : RuleId} {cell : Option Term} (body : Term)
    (present : s.cells.lookup rule = some cell) :
    (s.setCell rule body).definition? rule = some body := by
  rw [definition?, lookup_setCell, present]
  simp

theorem definition?_setCell_eq_some {s : Store} {rule id : RuleId} {body q : Term}
    (found : (s.setCell rule body).definition? id = some q) :
    id = rule ∧ q = body ∨ s.definition? id = some q := by
  by_cases same : id = rule
  · subst same
    cases present : s.cells.lookup id with
    | none =>
      rw [definition?, lookup_setCell, present] at found
      cases found
    | some cell =>
      rw [definition?_setCell_self body present] at found
      cases found
      exact Or.inl ⟨rfl, rfl⟩
  · rw [definition?_setCell_of_ne _ _ same] at found
    exact Or.inr found

theorem lookup_keep_self (s : Store) (id : RuleId) (q : Term) :
    (s.keep id q).resolved.lookup id = some q :=
  List.lookup_cons_self

theorem lookup_keep_of_ne (s : Store) {id other : RuleId} (q : Term) (h : other ≠ id) :
    (s.keep id q).resolved.lookup other = s.resolved.lookup other := by
  have differs : (other == id) = false := by simpa using h
  simp only [keep, List.lookup_cons, differs]

theorem lookup_keep_eq_some {s : Store} {id other : RuleId} {q q' : Term}
    (found : (s.keep id q).resolved.lookup other = some q') :
    other = id ∧ q' = q ∨ s.resolved.lookup other = some q' := by
  by_cases same : other = id
  · subst same
    rw [lookup_keep_self] at found
    cases found
    exact Or.inl ⟨rfl, rfl⟩
  · rw [lookup_keep_of_ne _ _ same] at found
    exact Or.inr found

/-- The same store with other entries active. -/
def withActive (s : Store) (active : List Entry) : Store := { s with active }

theorem leave_of_active {s : Store} {e : Entry} {active : List Entry}
    (entered : s.active = e :: active) : s.leave e = s.withActive active := by
  rw [leave, entered, List.erase_cons_head]
  rfl

/-- The store `s'` comes from `s` by taking new identities. -/
structure Grows (s s' : Store) : Prop where
  nextRule : s.nextRule ≤ s'.nextRule
  cells : ∀ id : RuleId, id.number < s.nextRule → s'.cells.lookup id = s.cells.lookup id
  resolved : s'.resolved = s.resolved
  active : s'.active = s.active

namespace Grows

variable {s t u : Store}

theorem refl (s : Store) : s.Grows s := ⟨Nat.le_refl _, fun _ _ => rfl, rfl, rfl⟩

theorem trans (h : s.Grows t) (k : t.Grows u) : s.Grows u where
  nextRule := Nat.le_trans h.nextRule k.nextRule
  cells id old := (k.cells id (Nat.lt_of_lt_of_le old h.nextRule)).trans (h.cells id old)
  resolved := k.resolved.trans h.resolved
  active := k.active.trans h.active

theorem definition (h : s.Grows t) {id : RuleId} (old : id.number < s.nextRule) :
    t.definition? id = s.definition? id := by
  rw [definition?, definition?, h.cells id old]

end Grows

theorem declare_grows (s : Store) : s.Grows (declare s).2 where
  nextRule := Nat.le_succ _
  cells id old := by
    have differs : (id == (⟨s.nextRule⟩ : RuleId)) = false := by
      simp only [beq_eq_false_iff_ne]
      rintro rfl
      exact Nat.lt_irrefl _ old
    change List.lookup id ((⟨s.nextRule⟩, none) :: s.cells) = _
    rw [List.lookup_cons, differs]
  resolved := rfl
  active := rfl

/-- A rule that a store has just declared is given a definition after it has grown. -/
theorem define_grows {s s' : Store} (grows : (declare s).2.Grows s') (body : Term) :
    s.Grows (s'.setCell ⟨s.nextRule⟩ body) := by
  have whole := (declare_grows s).trans grows
  refine ⟨whole.nextRule, fun id old => ?_, whole.resolved, whole.active⟩
  have differs : id ≠ ⟨s.nextRule⟩ := by
    rintro rfl
    exact Nat.lt_irrefl _ old
  refine (lookup_setCell _ _ _ _).trans ?_
  simp only [differs, if_false, Option.map_id']
  exact whole.cells id old

end Store

open Store

theorem Node.build_grows (scope : Scope) (s : Store) :
    (node : Node) → s.Grows (node.build scope s).2
  | .leaf a => Grows.refl s
  | .unary op p => p.build_grows scope s
  | .binary op p q => (p.build_grows scope s).trans (q.build_grows scope _)
  | .between first inner last =>
    ((first.build_grows scope s).trans (inner.build_grows scope _)).trans
      (last.build_grows scope _)
  | .bind p next => p.build_grows scope s
  | .rule name => by
    simp only [Node.build]
    cases scope.handle? name with
    | none => exact declare_grows s
    | some h => exact Grows.refl s
  | .recursive name body =>
    define_grows (body.build_grows (scope.bindRule name ⟨⟨s.nextRule⟩, false⟩) (declare s).2) _
  | .reference body => ⟨Nat.le_succ _, fun _ _ => rfl, rfl, rfl⟩
  | .undefined => declare_grows s

theorem Chooser.build_grows (scope : Scope) (v : Value) (s : Store) :
    (next : Chooser) → s.Grows (next.build scope v s).2
  | .same => by
    cases v <;> exact Grows.refl s
  | .times p => p.build_grows scope s
  | .always p => p.build_grows scope s
  | .onValue w p otherwise => by
    simp only [Chooser.build]
    by_cases h : w = v
    · simpa only [h, if_true] using p.build_grows scope s
    · simpa only [h, if_false] using otherwise.build_grows scope v s
  | .bindTo x p => p.build_grows (scope.bindValue x v) s

/-- A computation takes no notice of active entries. -/
def Store.Disregards {α : Type} (active : List Entry) (x : StateM Store α) : Prop :=
  ∀ s, x (s.withActive active) = ((x s).1, (x s).2.withActive active)

namespace Store.Disregards

variable {α β : Type} {active : List Entry} {x : StateM Store α} {f : α → StateM Store β}

theorem pure (a : α) : Disregards active (Pure.pure a : StateM Store α) := fun _ => rfl

theorem bind (hx : Disregards active x) (hf : ∀ a, Disregards active (f a)) :
    Disregards active (x >>= f) := by
  intro s
  change f (x (s.withActive active)).1 (x (s.withActive active)).2 = _
  rw [hx s]
  exact hf _ _

theorem declare : Disregards active Store.declare := fun _ => rfl

end Store.Disregards

theorem Node.build_disregards (active : List Entry) (scope : Scope) :
    (node : Node) → Disregards active (node.build scope)
  | .leaf _ => .pure _
  | .unary _ p => (p.build_disregards active scope).bind fun _ => .pure _
  | .binary _ p q =>
    (p.build_disregards active scope).bind fun _ =>
      (q.build_disregards active scope).bind fun _ => .pure _
  | .between first inner last =>
    (first.build_disregards active scope).bind fun _ =>
      (inner.build_disregards active scope).bind fun _ =>
        (last.build_disregards active scope).bind fun _ => .pure _
  | .bind p _ => (p.build_disregards active scope).bind fun _ => .pure _
  | .rule name => by
    rw [Node.build]
    cases scope.handle? name with
    | some h => exact .pure _
    | none => exact .bind .declare fun _ => .pure _
  | .recursive name body =>
    .bind .declare fun rule =>
      (body.build_disregards active (scope.bindRule name ⟨rule, false⟩)).bind fun _ =>
        .bind (fun _ => rfl) fun _ => .pure _
  | .reference _ => .bind (fun _ => rfl) fun _ => .pure _
  | .undefined => .bind .declare fun _ => .pure _

theorem Chooser.build_disregards (active : List Entry) (scope : Scope) (v : Value) :
    (next : Chooser) → Disregards active (next.build scope v)
  | .same => by
    cases v <;> exact .pure _
  | .times p => (p.build_disregards active scope).bind fun _ => .pure _
  | .always p => p.build_disregards active scope
  | .onValue w p otherwise => by
    rw [Chooser.build]
    by_cases h : w = v
    · simpa only [h, if_true] using p.build_disregards active scope
    · simpa only [h, if_false] using otherwise.build_disregards active scope v
  | .bindTo x p => p.build_disregards active (scope.bindValue x v)

/-- The identities from `a` on and before `b`. -/
def RuleId.Within (a b : Nat) (id : RuleId) : Prop := a ≤ id.number ∧ id.number < b

namespace Catalog

/-- Two catalogs agree on all identities before `bound`. -/
def Agree (bound : Nat) (κ κ' : Catalog) : Prop := ∀ id : RuleId, id.number < bound → κ' id = κ id

theorem Agree.trans {a b : Nat} {κ κ' κ'' : Catalog} (h : Agree a κ κ') (k : Agree b κ' κ'')
    (le : a ≤ b) : Agree a κ κ'' :=
  fun id old => (k id (Nat.lt_of_lt_of_le old le)).trans (h id old)

/-- The rules in scope and the new ones. -/
def rules (κ : Catalog) (H : RuleId → Prop) (a b : Nat) (id : RuleId) : Prop :=
  H id ∨ id.Within a b ∧ κ id = none

/-- The new references, with what they stand for. -/
def references (κ : Catalog) (H : RuleId → Prop) (a b depth : Nat) (id : RuleId) (body : Node)
    (scope : Scope) : Prop :=
  id.Within a b ∧ κ id = some (body, scope) ∧ scope.Refers (κ.rules H a b) ∧
    body.nesting + 1 ≤ depth

/-- A term that refers to no more than that, and that is not nested deeper than `depth`. -/
structure Fits (κ : Catalog) (H : RuleId → Prop) (depth a b : Nat) (t : Term) : Prop where
  refers : t.Refers (κ.rules H a b) (κ.references H a b depth)
  nesting : t.nesting ≤ depth

theorem Fits.mono {κ κ' : Catalog} {H H' : RuleId → Prop} {depth a b a' b' : Nat} {t : Term}
    (h : κ.Fits H depth a b t) (same : ∀ id : RuleId, id.Within a b → κ' id = κ id)
    (first : a' ≤ a) (last : b ≤ b') (rules : ∀ id, κ.rules H a b id → κ'.rules H' a' b' id) :
    κ'.Fits H' depth a' b' t := by
  refine ⟨h.refers.mono rules fun id body scope _ reference => ?_, h.nesting⟩
  obtain ⟨within, kind, refers, nested⟩ := reference
  refine ⟨⟨?_, ?_⟩, (same id within).trans kind, refers.mono rules, nested⟩
  · exact Nat.le_trans first within.1
  · exact Nat.lt_of_lt_of_le within.2 last

/-- What is known of `t` and of the store `s'` when building `t` has led there from `s`. -/
structure Describes (κ : Catalog) (H : RuleId → Prop) (depth : Nat) (s s' : Store) (t : Term) :
    Prop where
  fits : κ.Fits H depth s.nextRule s'.nextRule t
  cells : ∀ id q, s.nextRule ≤ id.number → s'.definition? id = some q →
    id.number < s'.nextRule ∧ κ id = none ∧ κ.Fits H depth s.nextRule s'.nextRule q

namespace Describes

variable {κ κ' : Catalog} {H : RuleId → Prop} {depth : Nat} {s s₁ s₂ : Store} {t u : Term}

theorem rules_later (agree : Agree s₁.nextRule κ κ') (grows : s₁.Grows s₂) (id : RuleId)
    (h : κ.rules H s.nextRule s₁.nextRule id) : κ'.rules H s.nextRule s₂.nextRule id := by
  rcases h with old | ⟨within, kind⟩
  · exact Or.inl old
  · have earlier := Nat.lt_of_lt_of_le within.2 grows.nextRule
    exact Or.inr ⟨⟨within.1, earlier⟩, (agree id within.2).trans kind⟩

theorem fits_later (agree : Agree s₁.nextRule κ κ') (grows : s₁.Grows s₂)
    (h : κ.Fits H depth s.nextRule s₁.nextRule t) : κ'.Fits H depth s.nextRule s₂.nextRule t :=
  h.mono (fun id within => agree id within.2) (Nat.le_refl _) grows.nextRule
    (rules_later agree grows)

theorem fits_earlier (grows : s.Grows s₁) (h : κ.Fits H depth s₁.nextRule s₂.nextRule t) :
    κ.Fits H depth s.nextRule s₂.nextRule t := by
  refine h.mono (fun _ _ => rfl) grows.nextRule (Nat.le_refl _) ?_
  rintro id (old | ⟨within, kind⟩)
  · exact Or.inl old
  · exact Or.inr ⟨⟨Nat.le_trans grows.nextRule within.1, within.2⟩, kind⟩

/-- Building one term after another. The earlier one fits what the later one has added to. -/
theorem sequence (h : κ.Describes H depth s s₁ t) (before : s.Grows s₁)
    (agree : Agree s₁.nextRule κ κ') (after : s₁.Grows s₂)
    (k : κ'.Describes H depth s₁ s₂ u) :
    κ'.Fits H depth s.nextRule s₂.nextRule t ∧ κ'.Describes H depth s s₂ u := by
  refine ⟨fits_later agree after h.fits, fits_earlier before k.fits, fun id q new found => ?_⟩
  by_cases old : id.number < s₁.nextRule
  · obtain ⟨_, kind, fits⟩ := h.cells id q new ((after.definition old).symm.trans found)
    refine ⟨Nat.lt_of_lt_of_le old after.nextRule, (agree id old).trans kind, ?_⟩
    exact fits_later agree after fits
  · obtain ⟨bound, kind, fits⟩ := k.cells id q (by omega) found
    exact ⟨bound, kind, fits_earlier before fits⟩

end Describes
end Catalog

/-- The counter of a store is beyond all rules that have definitions. -/
def Store.Bounded (s : Store) : Prop :=
  ∀ id : RuleId, s.nextRule ≤ id.number → s.definition? id = none

open Catalog

/-- Building a term that takes no identity of its own. -/
theorem describes_self {κ : Catalog} {H : RuleId → Prop} {depth : Nat} {s : Store} {t : Term}
    (bounded : s.Bounded) (refers : t.Refers H fun _ _ _ => False) (nesting : t.nesting ≤ depth) :
    κ.Describes H depth s s t where
  fits := ⟨refers.mono (fun _ => Or.inl) fun _ _ _ _ => False.elim, nesting⟩
  cells id q new found := by
    rw [bounded id new] at found
    cases found

/-- Every new identity but the first is new after it as well. -/
theorem beyond_declare {s : Store} {id : RuleId} (new : s.nextRule ≤ id.number)
    (differs : id ≠ ⟨s.nextRule⟩) : (declare s).2.nextRule ≤ id.number := by
  have : id.number ≠ s.nextRule := fun eq => differs (by cases id; simp_all)
  change s.nextRule + 1 ≤ id.number
  omega

theorem definition?_declare (s : Store) : (declare s).2.definition? ⟨s.nextRule⟩ = none := by
  change (List.lookup _ ((⟨s.nextRule⟩, none) :: s.cells)).join = none
  simp

/-- A rule that has just been declared has no definition, and the others keep theirs. -/
theorem definition?_declare_eq_some {s : Store} {id : RuleId} {q : Term}
    (found : (declare s).2.definition? id = some q) : s.definition? id = some q := by
  by_cases same : id = ⟨s.nextRule⟩
  · subst same
    rw [definition?_declare] at found
    cases found
  · have differs : (id == (⟨s.nextRule⟩ : RuleId)) = false := by simpa using same
    have found' : (List.lookup id ((⟨s.nextRule⟩, none) :: s.cells)).join = some q := found
    rwa [List.lookup_cons, differs] at found'

theorem declare_bounded {s : Store} (bounded : s.Bounded) : (declare s).2.Bounded := by
  intro id beyond
  have later : s.nextRule + 1 ≤ id.number := beyond
  have differs : (id == (⟨s.nextRule⟩ : RuleId)) = false := by
    simp only [beq_eq_false_iff_ne]
    rintro rfl
    exact absurd later (Nat.not_succ_le_self _)
  change (List.lookup id ((⟨s.nextRule⟩, none) :: s.cells)).join = none
  rw [List.lookup_cons, differs]
  exact bounded id (by omega)

theorem setCell_bounded {s : Store} (bounded : s.Bounded) (rule : RuleId)
    (old : rule.number < s.nextRule) (body : Term) : (s.setCell rule body).Bounded := by
  intro id beyond
  have beyond' : s.nextRule ≤ id.number := beyond
  have differs : id ≠ rule := by
    rintro rfl
    omega
  rw [definition?_setCell_of_ne _ _ differs]
  exact bounded id beyond'

theorem Node.build_bounded (scope : Scope) {s : Store} (bounded : s.Bounded) :
    (node : Node) → (node.build scope s).2.Bounded
  | .leaf _ => bounded
  | .unary _ p => p.build_bounded scope bounded
  | .binary _ p q => q.build_bounded scope (p.build_bounded scope bounded)
  | .between first inner last =>
    last.build_bounded scope (inner.build_bounded scope (first.build_bounded scope bounded))
  | .bind p _ => p.build_bounded scope bounded
  | .rule name => by
    simp only [Node.build]
    cases scope.handle? name with
    | some h => exact bounded
    | none => exact declare_bounded bounded
  | .recursive name body => by
    let inner := scope.bindRule name ⟨⟨s.nextRule⟩, false⟩
    have grows := body.build_grows inner (declare s).2
    exact setCell_bounded (body.build_bounded inner (declare_bounded bounded)) ⟨s.nextRule⟩
      grows.nextRule _
  | .reference _ => fun id beyond => bounded id (Nat.le_of_succ_le beyond)
  | .undefined => declare_bounded bounded

/-- A new rule without a definition. -/
theorem declare_describes {κ : Catalog} {H : RuleId → Prop} {depth : Nat} {s : Store}
    (bounded : s.Bounded) (kind : κ ⟨s.nextRule⟩ = none) :
    κ.Describes H depth s (declare s).2 (.rule ⟨⟨s.nextRule⟩, true⟩) where
  fits := ⟨Or.inr ⟨⟨Nat.le_refl _, Nat.lt_succ_self _⟩, kind⟩, Nat.zero_le _⟩
  cells id q new found := by
    by_cases same : id = ⟨s.nextRule⟩
    · subst same
      rw [definition?_declare] at found
      cases found
    · rw [declare_bounded bounded id (beyond_declare new same)] at found
      cases found

/-- The catalog with one more entry. -/
def Catalog.enter (κ : Catalog) (id : RuleId) (entry : Option (Node × Scope)) : Catalog :=
  fun other => if other = id then entry else κ other

theorem Catalog.agree_enter (κ : Catalog) (bound : Nat) (entry : Option (Node × Scope)) :
    Agree bound κ (κ.enter ⟨bound⟩ entry) := by
  intro id old
  have differs : id ≠ ⟨bound⟩ := by
    rintro rfl
    exact Nat.lt_irrefl _ old
  simp [enter, differs]

theorem Catalog.enter_self (κ : Catalog) (id : RuleId) (entry : Option (Node × Scope)) :
    κ.enter id entry id = entry := by
  simp [enter]

/-- A new reference. -/
theorem reference_describes {κ : Catalog} {H : RuleId → Prop} {depth : Nat} {s : Store}
    {body : Node} {scope : Scope} (bounded : s.Bounded) (refers : scope.Refers H)
    (nesting : body.nesting + 1 ≤ depth) :
    (κ.enter ⟨s.nextRule⟩ (some (body, scope))).Describes H depth s (fresh s).2
      (.reference ⟨s.nextRule⟩ body scope) where
  fits := by
    have within : RuleId.Within s.nextRule (fresh s).2.nextRule ⟨s.nextRule⟩ :=
      ⟨Nat.le_refl _, Nat.lt_succ_self _⟩
    have inScope := refers.mono fun id h => (Or.inl h :
      (κ.enter ⟨s.nextRule⟩ (some (body, scope))).rules H s.nextRule (fresh s).2.nextRule id)
    exact ⟨⟨⟨within, enter_self _ _ _, inScope, nesting⟩, inScope⟩, nesting⟩
  cells id q new found := by
    have none : (fresh s).2.definition? id = none := bounded id new
    rw [none] at found
    cases found

/-- Giving a new rule the definition that was built after it. -/
theorem define_describes {κ : Catalog} {H : RuleId → Prop} {depth : Nat} {s s' : Store}
    {body : Term} (grows : (declare s).2.Grows s') (kind : κ ⟨s.nextRule⟩ = none)
    (h : κ.Describes (fun id => H id ∨ id = ⟨s.nextRule⟩) depth (declare s).2 s' body) :
    κ.Describes H depth s (s'.setCell ⟨s.nextRule⟩ body) (.rule ⟨⟨s.nextRule⟩, true⟩) := by
  have within : RuleId.Within s.nextRule s'.nextRule ⟨s.nextRule⟩ := ⟨Nat.le_refl _, grows.nextRule⟩
  have lift {q : Term} (fits : κ.Fits (fun id => H id ∨ id = ⟨s.nextRule⟩) depth
      (declare s).2.nextRule s'.nextRule q) : κ.Fits H depth s.nextRule s'.nextRule q := by
    refine fits.mono (fun _ _ => rfl) (Nat.le_succ _) (Nat.le_refl _) ?_
    rintro id ((inScope | rfl) | ⟨new, rule⟩)
    · exact Or.inl inScope
    · exact Or.inr ⟨within, kind⟩
    · exact Or.inr ⟨⟨Nat.le_of_succ_le new.1, new.2⟩, rule⟩
  refine ⟨⟨Or.inr ⟨within, kind⟩, Nat.zero_le _⟩, fun id q new found => ?_⟩
  by_cases same : id = ⟨s.nextRule⟩
  · subst same
    have present : s'.cells.lookup ⟨s.nextRule⟩ = some none := by
      rw [grows.cells _ (Nat.lt_succ_self _)]
      exact List.lookup_cons_self
    rw [definition?_setCell_self body present] at found
    cases found
    exact ⟨within.2, kind, lift h.fits⟩
  · rw [definition?_setCell_of_ne _ _ same] at found
    obtain ⟨bound, rule, fits⟩ := h.cells id q (beyond_declare new same) found
    exact ⟨bound, rule, lift fits⟩

/-- The catalog can be extended by new references so that it describes what has been built in a
scope. -/
def Catalog.Records (κ : Catalog) (scope : Scope) (nesting : Nat) (s s' : Store) (t : Term) :
    Prop :=
  ∃ κ' : Catalog, Agree s.nextRule κ κ' ∧
    ∀ H depth, scope.Refers H → nesting ≤ depth → κ'.Describes H depth s s' t

namespace Catalog.Records

variable {κ : Catalog} {scope : Scope} {k l m : Nat} {s s' s₁ s₂ s₃ : Store} {t u v : Term}

theorem mono (h : κ.Records scope k s s' t) (le : k ≤ l) : κ.Records scope l s s' t := by
  obtain ⟨κ', agree, describes⟩ := h
  exact ⟨κ', agree,
    fun H depth inScope nested => describes H depth inScope (Nat.le_trans le nested)⟩

theorem unchanged (bounded : s.Bounded)
    (refers : ∀ H, scope.Refers H → t.Refers H fun _ _ _ => False) (flat : t.nesting = 0) :
    κ.Records scope k s s t :=
  ⟨κ, fun _ _ => rfl, fun H _ inScope _ =>
    describes_self bounded (refers H inScope) (Nat.le_trans (Nat.le_of_eq flat) (Nat.zero_le _))⟩

theorem unary (op : Unary) (h : κ.Records scope k s s' t) :
    κ.Records scope k s s' (.unary op t) := by
  obtain ⟨κ', agree, describes⟩ := h
  refine ⟨κ', agree, fun H depth inScope nested => ?_⟩
  have built := describes H depth inScope nested
  exact ⟨⟨built.fits.refers, built.fits.nesting⟩, built.cells⟩

theorem bind {next : Chooser} (h : κ.Records scope k s s' t) :
    κ.Records scope (max k (next.nesting + 1)) s s' (.bind t next scope) := by
  obtain ⟨κ', agree, describes⟩ := h
  refine ⟨κ', agree, fun H depth inScope nested => ?_⟩
  obtain ⟨nestedP, nestedNext⟩ := Nat.max_le.mp nested
  have built := describes H depth inScope nestedP
  exact ⟨⟨⟨built.fits.refers, inScope.mono fun _ => Or.inl⟩,
    Nat.max_le.mpr ⟨built.fits.nesting, nestedNext⟩⟩, built.cells⟩

theorem replicate (h : κ.Records scope k s s' t) (n : Nat) :
    κ.Records scope k s s' (t.replicate n) := by
  obtain ⟨κ', agree, describes⟩ := h
  refine ⟨κ', agree, fun H depth inScope nested => ?_⟩
  have built := describes H depth inScope nested
  exact ⟨⟨built.fits.refers.replicate n,
    Nat.le_trans (Term.nesting_replicate t n) built.fits.nesting⟩, built.cells⟩

section Sequence

variable (grows₁ : s.Grows s₁) (grows₂ : s₁.Grows s₂) (h₁ : κ.Records scope k s s₁ t)
  (h₂ : ∀ κ₁ : Catalog, κ₁.Records scope l s₁ s₂ u)
include grows₁ grows₂ h₁ h₂

theorem binary (op : Binary) : κ.Records scope (max k l) s s₂ (.binary op t u) := by
  obtain ⟨κ₁, agree₁, describes₁⟩ := h₁
  obtain ⟨κ₂, agree₂, describes₂⟩ := h₂ κ₁
  refine ⟨κ₂, agree₁.trans agree₂ grows₁.nextRule, fun H depth inScope nested => ?_⟩
  obtain ⟨nested₁, nested₂⟩ := Nat.max_le.mp nested
  obtain ⟨fits, both⟩ := (describes₁ H depth inScope nested₁).sequence grows₁ agree₂ grows₂
    (describes₂ H depth inScope nested₂)
  exact ⟨⟨⟨fits.refers, both.fits.refers⟩, Nat.max_le.mpr ⟨fits.nesting, both.fits.nesting⟩⟩,
    both.cells⟩

theorem between (grows₃ : s₂.Grows s₃) (h₃ : ∀ κ₂ : Catalog, κ₂.Records scope m s₂ s₃ v) :
    κ.Records scope (max k (max l m)) s s₃ (.between t u v) := by
  obtain ⟨κ₁, agree₁, describes₁⟩ := h₁
  obtain ⟨κ₂, agree₂, describes₂⟩ := h₂ κ₁
  obtain ⟨κ₃, agree₃, describes₃⟩ := h₃ κ₂
  have grows := grows₁.trans grows₂
  refine ⟨κ₃, (agree₁.trans agree₂ grows₁.nextRule).trans agree₃ grows.nextRule,
    fun H depth inScope nested => ?_⟩
  obtain ⟨nested₁, nested₂₃⟩ := Nat.max_le.mp nested
  obtain ⟨nested₂, nested₃⟩ := Nat.max_le.mp nested₂₃
  obtain ⟨fits₁, upTo₂⟩ := (describes₁ H depth inScope nested₁).sequence grows₁ agree₂ grows₂
    (describes₂ H depth inScope nested₂)
  obtain ⟨fits₂, upTo₃⟩ := upTo₂.sequence grows agree₃ grows₃ (describes₃ H depth inScope nested₃)
  have fits₁ := Describes.fits_later agree₃ grows₃ fits₁
  exact ⟨⟨⟨fits₁.refers, fits₂.refers, upTo₃.fits.refers⟩,
    Nat.max_le.mpr ⟨fits₁.nesting, Nat.max_le.mpr ⟨fits₂.nesting, upTo₃.fits.nesting⟩⟩⟩,
    upTo₃.cells⟩

end Sequence

theorem undefined (bounded : s.Bounded) :
    κ.Records scope k s (declare s).2 (.rule ⟨⟨s.nextRule⟩, true⟩) :=
  ⟨κ.enter ⟨s.nextRule⟩ none, agree_enter _ _ _, fun _ _ _ _ =>
    declare_describes bounded (enter_self _ _ _)⟩

theorem reference {body : Node} (bounded : s.Bounded) :
    κ.Records scope (body.nesting + 1) s (fresh s).2 (.reference ⟨s.nextRule⟩ body scope) :=
  ⟨κ.enter ⟨s.nextRule⟩ (some (body, scope)), agree_enter _ _ _, fun _ _ inScope nested =>
    reference_describes bounded inScope nested⟩

/-- The body of a recursive rule is built when the rule has been declared and has its name. -/
theorem recursive {name : String} (grows : (declare s).2.Grows s')
    (h : ∀ κ₁ : Catalog,
      κ₁.Records (scope.bindRule name ⟨⟨s.nextRule⟩, false⟩) k (declare s).2 s' t) :
    κ.Records scope k s (s'.setCell ⟨s.nextRule⟩ t) (.rule ⟨⟨s.nextRule⟩, true⟩) := by
  obtain ⟨κ', agree, describes⟩ := h (κ.enter ⟨s.nextRule⟩ none)
  have kind : κ' ⟨s.nextRule⟩ = none := (agree _ (Nat.lt_succ_self _)).trans (enter_self _ _ _)
  refine ⟨κ', (agree_enter _ _ _).trans agree (Nat.le_succ _), fun H depth inScope nested => ?_⟩
  refine define_describes grows kind (describes _ depth ?_ nested)
  exact (inScope.mono fun _ => Or.inl).bindRule (Or.inr rfl)

end Catalog.Records

/-- What building a grammar adds to a store, with the catalog of the new references. -/
theorem Node.build_describes (κ : Catalog) (scope : Scope) {s : Store} (bounded : s.Bounded) :
    (node : Node) → κ.Records scope node.nesting s (node.build scope s).2 (node.build scope s).1
  | .leaf _ => .unchanged bounded (fun _ _ => trivial) rfl
  | .unary op p => (p.build_describes κ scope bounded).unary (op scope.vars)
  | .binary op p q =>
    .binary (p.build_grows scope s) (q.build_grows scope _) (p.build_describes κ scope bounded)
      (fun κ₁ => q.build_describes κ₁ scope (p.build_bounded scope bounded)) op
  | .between first inner last => by
    have bounded₁ := first.build_bounded scope bounded
    have bounded₂ := inner.build_bounded scope bounded₁
    exact .between (first.build_grows scope s) (inner.build_grows scope _)
      (first.build_describes κ scope bounded) (fun κ₁ => inner.build_describes κ₁ scope bounded₁)
      (last.build_grows scope _) fun κ₂ => last.build_describes κ₂ scope bounded₂
  | .bind p next => (p.build_describes κ scope bounded).bind
  | .rule name => by
    simp only [Node.build]
    cases found : scope.handle? name with
    | some h => exact .unchanged bounded (fun _ inScope => inScope.of_handle? found) rfl
    | none => exact .undefined bounded
  | .recursive name body =>
    .recursive (body.build_grows _ _) fun κ₁ =>
      body.build_describes κ₁ _ (declare_bounded bounded)
  | .reference _ => .reference bounded
  | .undefined => .undefined bounded

theorem Chooser.build_describes (κ : Catalog) (scope : Scope) (v : Value) {s : Store}
    (bounded : s.Bounded) : (next : Chooser) →
      κ.Records scope next.nesting s (next.build scope v s).2 (next.build scope v s).1
  | .same => by
    cases v <;> exact .unchanged bounded (fun _ _ => trivial) rfl
  | .times p => (p.build_describes κ scope bounded).replicate v.toCount
  | .always p => p.build_describes κ scope bounded
  | .onValue w p otherwise => by
    simp only [Chooser.build]
    by_cases h : w = v
    · simp only [h, if_true]
      exact (p.build_describes κ scope bounded).mono (Nat.le_max_left _ _)
    · simp only [h, if_false]
      exact (otherwise.build_describes κ scope v bounded).mono (Nat.le_max_right _ _)
  | .bindTo x p => p.build_describes κ (scope.bindValue x v) bounded

end Descent
