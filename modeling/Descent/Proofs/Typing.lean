import Descent.Grammar.RuleSet
import Descent.Proofs.Building
import Mathlib.Data.List.Forall2

/-!
Types of grammars. A type system says of every leaf and every operation which types it may have; a
rule may be used before its body is known, so it is given a type on trust.
Main statement: what is built from a typed grammar has its type, in a store where all rules have
the types they were trusted to have.
-/

namespace Descent

/-- Which types leaves and operations may have, given the types of their parts. `rule e d` says that
a rule may have the type `d` if its body has the type `e`. -/
structure TypeSystem (D : Type) where
  atom : Atom → D → Prop
  unary : Unary → D → D → Prop
  binary : Binary → D → D → D → Prop
  between : D → D → D → D → Prop
  rule : D → D → Prop

/-- The types of rules and references. -/
abbrev Annotation (D : Type) := RuleId → Option D

variable {D : Type}

namespace Annotation

/-- Another identity is given a type. -/
def assign (μ : Annotation D) (id : RuleId) (d : D) : Annotation D :=
  fun other => if other = id then some d else μ other

/-- All that is typed keeps its type. -/
def Extends (μ μ' : Annotation D) : Prop := ∀ id d, μ id = some d → μ' id = some d

theorem Extends.refl (μ : Annotation D) : μ.Extends μ := fun _ _ h => h

theorem Extends.trans {μ μ' μ'' : Annotation D} (h : μ.Extends μ') (k : μ'.Extends μ'') :
    μ.Extends μ'' := fun id d typed => k id d (h id d typed)

theorem assign_self (μ : Annotation D) (id : RuleId) (d : D) : μ.assign id d id = some d :=
  if_pos rfl

theorem extends_assign {μ : Annotation D} {id : RuleId} (untyped : μ id = none) (d : D) :
    μ.Extends (μ.assign id d) := by
  intro other e typed
  have differs : other ≠ id := by
    rintro rfl
    exact nomatch untyped.symm.trans typed
  exact (if_neg differs).trans typed

end Annotation

/-- Types of grammars, with types for the names in scope. A choice by a value has no type, and what
never has a definition may have any. -/
inductive Node.HasType (T : TypeSystem D) : List (String × D) → Node → D → Prop
  | leaf {Γ : List (String × D)} {a : Variables → Atom} {d : D}
    (known : T.atom (a fun _ => .unit) d) : HasType T Γ (.leaf a) d
  | unary {Γ : List (String × D)} {op : Variables → Unary} {p : Node} {d e : D}
    (part : HasType T Γ p d) (known : T.unary (op fun _ => .unit) d e) :
    HasType T Γ (.unary op p) e
  | binary {Γ : List (String × D)} {op : Binary} {p q : Node} {d e f : D}
    (left : HasType T Γ p d) (right : HasType T Γ q e) (known : T.binary op d e f) :
    HasType T Γ (.binary op p q) f
  | between {Γ : List (String × D)} {p q r : Node} {d e f g : D} (first : HasType T Γ p d)
    (inner : HasType T Γ q e) (last : HasType T Γ r f) (known : T.between d e f g) :
    HasType T Γ (.between p q r) g
  | rule {Γ : List (String × D)} {name : String} {d : D} (bound : Γ.lookup name = some d) :
    HasType T Γ (.rule name) d
  | unbound {Γ : List (String × D)} {name : String} (free : Γ.lookup name = none) (d : D) :
    HasType T Γ (.rule name) d
  | recursive {Γ : List (String × D)} {name : String} {p : Node} {d e : D}
    (body : HasType T ((name, d) :: Γ) p e) (known : T.rule e d) :
    HasType T Γ (.recursive name p) d
  | reference {Γ : List (String × D)} {p : Node} {d : D} (body : HasType T Γ p d) :
    HasType T Γ (.reference p) d
  | undefined {Γ : List (String × D)} (d : D) : HasType T Γ .undefined d

/-- Names stand for rules of their types. There are no variables. -/
structure Scope.Typed (μ : Annotation D) (Γ : List (String × D)) (scope : Scope) : Prop where
  values : scope.values = []
  rules : List.Forall₂ (fun rule type => type.1 = rule.1 ∧ μ rule.2.rule = some type.2)
    scope.rules Γ

inductive Term.HasType (T : TypeSystem D) (μ : Annotation D) : Term → D → Prop
  | leaf {a : Atom} {d : D} (known : T.atom a d) : HasType T μ (.leaf a) d
  | unary {op : Unary} {p : Term} {d e : D} (part : HasType T μ p d) (known : T.unary op d e) :
    HasType T μ (.unary op p) e
  | binary {op : Binary} {p q : Term} {d e f : D} (left : HasType T μ p d)
    (right : HasType T μ q e) (known : T.binary op d e f) : HasType T μ (.binary op p q) f
  | between {p q r : Term} {d e f g : D} (first : HasType T μ p d) (inner : HasType T μ q e)
    (last : HasType T μ r f) (known : T.between d e f g) : HasType T μ (.between p q r) g
  | rule {h : Handle} {d : D} (typed : μ h.rule = some d) : HasType T μ (.rule h) d
  | reference {id : RuleId} {scope : Scope} {Γ : List (String × D)} {p : Node} {d : D}
    (typed : μ id = some d) (names : scope.Typed μ Γ) (body : p.HasType T Γ d) :
    HasType T μ (.reference id p scope) d

/-- Rules and references are what their types say, and identities not yet taken have no type. -/
structure Store.Typed (T : TypeSystem D) (μ : Annotation D) (s : Store) : Prop where
  cells : ∀ id q, s.definition? id = some q →
    ∃ d e, μ id = some d ∧ q.HasType T μ e ∧ T.rule e d
  resolved : ∀ id q, s.resolved.lookup id = some q → ∃ d, μ id = some d ∧ q.HasType T μ d
  fresh : ∀ id : RuleId, s.nextRule ≤ id.number → μ id = none

variable {T : TypeSystem D} {μ μ' : Annotation D} {Γ : List (String × D)} {scope : Scope}

namespace Scope.Typed

theorem mono (h : scope.Typed μ Γ) (more : μ.Extends μ') : scope.Typed μ' Γ :=
  ⟨h.values, h.rules.imp fun _ _ typed => ⟨typed.1, more _ _ typed.2⟩⟩

theorem vars (h : scope.Typed μ Γ) : scope.vars = fun _ => .unit := by
  funext x
  rw [Scope.vars, h.values]
  rfl

theorem handle? (h : scope.Typed μ Γ) (name : String) :
    Option.Rel (fun handle d => μ handle.rule = some d) (scope.handle? name) (Γ.lookup name) := by
  obtain ⟨-, rules⟩ := h
  rw [Scope.handle?]
  generalize scope.rules = handles at rules
  induction rules with
  | nil => exact .none
  | @cons rule type _ _ typed _ ih =>
    obtain ⟨x, handle⟩ := rule
    obtain ⟨y, d⟩ := type
    obtain ⟨rfl, annotated⟩ := typed
    rw [List.lookup_cons, List.lookup_cons]
    dsimp only
    cases name == y with
    | true => exact .some annotated
    | false => exact ih

theorem handle?_of_bound (h : scope.Typed μ Γ) {name : String} {d : D}
    (bound : Γ.lookup name = some d) :
    ∃ handle, scope.handle? name = some handle ∧ μ handle.rule = some d := by
  have known := h.handle? name
  rw [bound] at known
  generalize scope.handle? name = found at known
  cases known with
  | some typed => exact ⟨_, rfl, typed⟩

theorem handle?_of_free (h : scope.Typed μ Γ) {name : String} (free : Γ.lookup name = none) :
    scope.handle? name = none := by
  have known := h.handle? name
  rw [free] at known
  generalize scope.handle? name = found at known
  cases known with
  | none => rfl

theorem bindRule (h : scope.Typed μ Γ) (name : String) (handle : Handle) {d : D}
    (typed : μ handle.rule = some d) : (scope.bindRule name handle).Typed μ ((name, d) :: Γ) :=
  ⟨h.values, .cons ⟨rfl, typed⟩ h.rules⟩

end Scope.Typed

theorem Term.HasType.mono {t : Term} {d : D} (h : t.HasType T μ d) (more : μ.Extends μ') :
    t.HasType T μ' d := by
  induction h with
  | leaf known => exact .leaf known
  | unary part known ih => exact .unary ih known
  | binary left right known ihl ihr => exact .binary ihl ihr known
  | between first inner last known ih₁ ih₂ ih₃ => exact .between ih₁ ih₂ ih₃ known
  | rule typed => exact .rule (more _ _ typed)
  | reference typed names body => exact .reference (more _ _ typed) (names.mono more) body

namespace Store.Typed

variable {s : Store}

/-- The next identity may be given any type. -/
theorem extends_next (h : s.Typed T μ) (d : D) : μ.Extends (μ.assign ⟨s.nextRule⟩ d) :=
  Annotation.extends_assign (h.fresh ⟨s.nextRule⟩ (Nat.le_refl _)) d

/-- What a store keeps when its next identity is taken. -/
theorem later (h : s.Typed T μ) (d : D) {s' : Store} (next : s'.nextRule = s.nextRule + 1)
    (cells : ∀ id q, s'.definition? id = some q → s.definition? id = some q)
    (resolved : s'.resolved = s.resolved) : s'.Typed T (μ.assign ⟨s.nextRule⟩ d) := by
  have more := h.extends_next d
  constructor
  · intro id q found
    obtain ⟨d, e, typed, body, known⟩ := h.cells id q (cells id q found)
    exact ⟨d, e, more _ _ typed, body.mono more, known⟩
  · intro id q found
    rw [resolved] at found
    obtain ⟨d, typed, body⟩ := h.resolved id q found
    exact ⟨d, more _ _ typed, body.mono more⟩
  · intro id beyond
    rw [next] at beyond
    have differs : id ≠ ⟨s.nextRule⟩ := by
      rintro rfl
      exact absurd beyond (Nat.not_succ_le_self _)
    exact (if_neg differs).trans (h.fresh id (Nat.le_of_succ_le beyond))

theorem declare (h : s.Typed T μ) (d : D) :
    (Store.declare s).2.Typed T (μ.assign ⟨s.nextRule⟩ d) :=
  h.later d rfl (fun _ _ => definition?_declare_eq_some) rfl

theorem fresh_next (h : s.Typed T μ) (d : D) :
    (Store.fresh s).2.Typed T (μ.assign ⟨s.nextRule⟩ d) :=
  h.later d rfl (fun _ _ found => found) rfl

theorem setCell (h : s.Typed T μ) {rule : RuleId} {body : Term} {d e : D}
    (typed : μ rule = some d) (bodyTyped : body.HasType T μ e) (known : T.rule e d) :
    (s.setCell rule body).Typed T μ := by
  refine ⟨fun id q found => ?_, h.resolved, h.fresh⟩
  rcases definition?_setCell_eq_some found with ⟨rfl, rfl⟩ | before
  · exact ⟨d, e, typed, bodyTyped, known⟩
  · exact h.cells id q before

theorem keep (h : s.Typed T μ) {id : RuleId} {t : Term} {d : D} (typed : μ id = some d)
    (termTyped : t.HasType T μ d) : (s.keep id t).Typed T μ := by
  refine ⟨h.cells, fun other q found => ?_, h.fresh⟩
  rcases lookup_keep_eq_some found with ⟨rfl, rfl⟩ | before
  · exact ⟨d, typed, termTyped⟩
  · exact h.resolved other q before

end Store.Typed

/-- A built grammar has a type, in a typed store, under an annotation that may be larger. -/
def TypedBuild (T : TypeSystem D) (μ : Annotation D) (d : D) (x : Term × Store) : Prop :=
  ∃ μ', μ.Extends μ' ∧ x.1.HasType T μ' d ∧ x.2.Typed T μ'

theorem Store.Typed.undefined {s : Store} (h : s.Typed T μ) (d : D) :
    TypedBuild T μ d (.rule ⟨⟨s.nextRule⟩, true⟩, (Store.declare s).2) :=
  ⟨_, h.extends_next d, .rule (μ.assign_self _ d), h.declare d⟩

theorem Node.HasType.build {p : Node} {d : D} (h : p.HasType T Γ d) {scope : Scope}
    {μ : Annotation D} (names : scope.Typed μ Γ) {s : Store} (store : s.Typed T μ) :
    TypedBuild T μ d (p.build scope s) := by
  induction h generalizing scope μ s with
  | leaf known =>
    refine ⟨μ, .refl μ, ?_, store⟩
    rw [← names.vars] at known
    exact .leaf known
  | unary part known ih =>
    obtain ⟨μ₁, more, built, store₁⟩ := ih names store
    rw [← names.vars] at known
    exact ⟨μ₁, more, .unary built known, store₁⟩
  | binary left right known ihl ihr =>
    obtain ⟨μ₁, more₁, built₁, store₁⟩ := ihl names store
    obtain ⟨μ₂, more₂, built₂, store₂⟩ := ihr (names.mono more₁) store₁
    exact ⟨μ₂, more₁.trans more₂, .binary (built₁.mono more₂) built₂ known, store₂⟩
  | between first inner last known ih₁ ih₂ ih₃ =>
    obtain ⟨μ₁, more₁, built₁, store₁⟩ := ih₁ names store
    obtain ⟨μ₂, more₂, built₂, store₂⟩ := ih₂ (names.mono more₁) store₁
    obtain ⟨μ₃, more₃, built₃, store₃⟩ := ih₃ (names.mono (more₁.trans more₂)) store₂
    exact ⟨μ₃, (more₁.trans more₂).trans more₃,
      .between (built₁.mono (more₂.trans more₃)) (built₂.mono more₃) built₃ known, store₃⟩
  | @rule _ name d bound =>
    obtain ⟨handle, found, typed⟩ := names.handle?_of_bound bound
    simp only [Node.build, found]
    exact ⟨μ, .refl μ, .rule typed, store⟩
  | @unbound _ name free d =>
    simp only [Node.build, names.handle?_of_free free]
    exact store.undefined d
  | @recursive _ name p d e body known ih =>
    -- the body is built with its rule typed on trust, and the definition makes good on it
    have typed := μ.assign_self ⟨s.nextRule⟩ d
    have inner := (names.mono (store.extends_next d)).bindRule name ⟨⟨s.nextRule⟩, false⟩ typed
    obtain ⟨μ₁, more, built, store₁⟩ := ih inner (store.declare d)
    have annotated := more _ _ typed
    exact ⟨μ₁, (store.extends_next d).trans more, .rule annotated,
      store₁.setCell annotated built known⟩
  | @reference _ p d body =>
    have more := store.extends_next d
    exact ⟨_, more, .reference (μ.assign_self _ d) (names.mono more) body, store.fresh_next d⟩
  | undefined d => exact store.undefined d

/-- What a typed reference is resolved to has its type. -/
theorem Store.Typed.resolve {s : Store} (store : s.Typed T μ) {id : RuleId} {body : Node}
    {scope : Scope} {d : D} (h : (Term.reference id body scope).HasType T μ d) :
    ∃ q, (Store.resolve id body scope s).1 = .ok q ∧
      TypedBuild T μ d (q, (Store.resolve id body scope s).2) := by
  cases h with
  | reference typed names bodyTyped =>
    cases found : s.resolved.lookup id with
    | some q =>
      obtain ⟨e, typed', kept⟩ := store.resolved id q found
      cases typed.symm.trans typed'
      rw [resolve_of_some found]
      exact ⟨q, rfl, μ, .refl μ, kept, store⟩
    | none =>
      obtain ⟨μ₁, more, built, store₁⟩ := bodyTyped.build names store
      rw [resolve_of_none found]
      exact ⟨_, rfl, μ₁, more, built, store₁.keep (more _ _ typed) built⟩

namespace Grammar

/-- The types of the names of rules; the last declared comes first. -/
def context (τ : String → D) (names : List String) : List (String × D) :=
  (names.map fun name => (name, τ name)).reverse

/-- Every rule has the type given to its name, when all have, and so the root has its type. -/
structure HasType (T : TypeSystem D) (τ : String → D) (g : Grammar) (d : D) : Prop where
  rules : ∀ rule ∈ g.rules, ∃ e, rule.2.HasType T (context τ (g.rules.map (·.1))) e ∧
    T.rule e (τ rule.1)
  root : g.root.HasType T (context τ (g.rules.map (·.1))) d

theorem lookup_context (τ : String → D) {names : List String} {name : String}
    (mem : name ∈ names) : (context τ names).lookup name = some (τ name) := by
  have mem' : name ∈ names.reverse := List.mem_reverse.mpr mem
  rw [context, ← List.map_reverse]
  generalize names.reverse = names at mem'
  induction names with
  | nil => cases mem'
  | cons first more ih =>
    rw [List.map_cons, List.lookup_cons]
    cases same : name == first with
    | true => rw [LawfulBEq.eq_of_beq same]
    | false =>
      have differs : name ≠ first := by simpa using same
      exact ih ((List.mem_cons.mp mem').resolve_left differs)

theorem declareRules_typed (τ : String → D) (names : List String) {scope : Scope}
    {μ : Annotation D} {Γ : List (String × D)} (known : scope.Typed μ Γ) {s : Store}
    (store : s.Typed T μ) : ∃ μ', μ.Extends μ' ∧
      (declareRules scope names s).1.Typed μ' (context τ names ++ Γ) ∧
      (declareRules scope names s).2.Typed T μ' := by
  induction names generalizing scope μ Γ s with
  | nil => exact ⟨μ, .refl μ, known, store⟩
  | cons name more ih =>
    have grown := store.extends_next (τ name)
    have bound := (known.mono grown).bindRule name ⟨⟨s.nextRule⟩, true⟩
      (μ.assign_self _ (τ name))
    obtain ⟨μ', grown', known', store'⟩ := ih bound (store.declare (τ name))
    rw [declareRules_cons]
    refine ⟨μ', grown.trans grown', ?_, store'⟩
    rw [context, List.map_cons, List.reverse_cons, List.append_assoc]
    exact known'

theorem defineRules_typed (τ : String → D) {scope : Scope} {Γ : List (String × D)}
    {rules : List (String × Node)}
    (typed : ∀ rule ∈ rules, Γ.lookup rule.1 = some (τ rule.1) ∧
      ∃ e, rule.2.HasType T Γ e ∧ T.rule e (τ rule.1))
    {μ : Annotation D} (known : scope.Typed μ Γ) {s : Store} (store : s.Typed T μ) :
    ∃ μ', μ.Extends μ' ∧ (defineRules scope rules s).2.Typed T μ' := by
  induction rules generalizing μ s with
  | nil => exact ⟨μ, .refl μ, store⟩
  | cons rule more ih =>
    obtain ⟨name, node⟩ := rule
    obtain ⟨bound, e, body, allowed⟩ := typed _ (List.mem_cons_self ..)
    obtain ⟨μ₁, grown₁, built, store₁⟩ := body.build known store
    have known₁ := known.mono grown₁
    obtain ⟨handle, found, annotated⟩ := known₁.handle?_of_bound bound
    obtain ⟨μ₂, grown₂, store₂⟩ := ih (fun rule mem => typed rule (List.mem_cons_of_mem _ mem))
      known₁ (store₁.setCell annotated built allowed)
    rw [defineRules_cons, found]
    exact ⟨μ₂, grown₁.trans grown₂, store₂⟩

/-- What is built from a typed grammar has the type of its root. -/
theorem HasType.build {τ : String → D} {g : Grammar} {d : D} (h : g.HasType T τ d) :
    TypedBuild T (fun _ => none) d (g.build .empty) := by
  have empty : Store.empty.Typed T (fun _ => none) := ⟨nofun, nofun, fun _ _ => rfl⟩
  have nothing : Scope.empty.Typed (fun _ => none) ([] : List (String × D)) := ⟨rfl, .nil⟩
  obtain ⟨μ₁, grown₁, known, declared⟩ :=
    declareRules_typed τ (g.rules.map (·.1)) nothing empty
  rw [List.append_nil] at known
  have rules (rule : String × Node) (mem : rule ∈ g.rules) :=
    And.intro (lookup_context τ (List.mem_map_of_mem (f := (·.1)) mem)) (h.rules rule mem)
  obtain ⟨μ₂, grown₂, defined⟩ := defineRules_typed τ rules known declared
  obtain ⟨μ₃, grown₃, built, store⟩ := h.root.build (known.mono grown₂) defined
  rw [build_apply]
  exact ⟨μ₃, (grown₁.trans grown₂).trans grown₃, built, store⟩

end Grammar
end Descent
