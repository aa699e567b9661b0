import Descent.Grammar.Parse
import Descent.Proofs.Building

/-!
Worlds: stores in which every identity stands for one thing only, with the catalog that says what
references stand for. In a later world all of that is as it was, and every reference that has been
resolved in between was resolved by building what it stands for.
Main statements: building and resolving lead from a world to a later one.
-/

namespace Descent

/-- The rules that a catalog knows among the identities before `bound`. -/
def Catalog.Rule (κ : Catalog) (bound : Nat) (id : RuleId) : Prop :=
  id.number < bound ∧ κ id = none

def Scope.Known (κ : Catalog) (bound : Nat) (scope : Scope) : Prop :=
  scope.Refers (κ.Rule bound)

/-- All identities in a term are given out already, and are what the catalog says they are. -/
def Term.Known (κ : Catalog) (bound : Nat) (t : Term) : Prop :=
  t.Refers (κ.Rule bound) fun id body scope => id.number < bound ∧ κ id = some (body, scope)

/-- A store with a catalog that is right about all of it. -/
structure World where
  catalog : Catalog
  store : Store
  cells : ∀ id q, store.definition? id = some q →
    catalog.Rule store.nextRule id ∧ q.Known catalog store.nextRule
  resolved : ∀ id q, store.resolved.lookup id = some q →
    id.number < store.nextRule ∧ catalog id ≠ none ∧ q.Known catalog store.nextRule

/-- The term `q` was built from `body` when no identity from `first` on was given out, and its rules
are in place. -/
def World.Built (w : World) (first : Nat) (scope : Scope) (body : Node) (q : Term) : Prop :=
  ∃ s : Store, first ≤ s.nextRule ∧ s.Bounded ∧ scope.Known w.catalog s.nextRule ∧
    (body.build scope s).1 = q ∧ (body.build scope s).2.nextRule ≤ w.store.nextRule ∧
    (∀ id : RuleId, id.Within s.nextRule (body.build scope s).2.nextRule →
      w.store.definition? id = (body.build scope s).2.definition? id) ∧
    ∀ H depth, scope.Refers H → body.nesting ≤ depth →
      w.catalog.Describes H depth s (body.build scope s).2 q

namespace World

/-- The world `w'` is a later state of `w`. -/
structure Extends (w w' : World) : Prop where
  nextRule : w.store.nextRule ≤ w'.store.nextRule
  catalog : Catalog.Agree w.store.nextRule w.catalog w'.catalog
  definition : ∀ id : RuleId, id.number < w.store.nextRule →
    w'.store.definition? id = w.store.definition? id
  resolved : ∀ id q, w.store.resolved.lookup id = some q → w'.store.resolved.lookup id = some q
  built : ∀ id q, w.store.resolved.lookup id = none → w'.store.resolved.lookup id = some q →
    ∃ body scope, w'.catalog id = some (body, scope) ∧
      w'.Built w.store.nextRule scope body q

instance : LE World := ⟨Extends⟩

end World

section Known

variable {κ κ' : Catalog} {a b : Nat}

theorem Catalog.Rule.later (agree : Catalog.Agree a κ κ') (le : a ≤ b) (id : RuleId)
    (h : κ.Rule a id) : κ'.Rule b id :=
  ⟨Nat.lt_of_lt_of_le h.1 le, (agree id h.1).trans h.2⟩

theorem Scope.Known.later (agree : Catalog.Agree a κ κ') (le : a ≤ b) {scope : Scope}
    (h : scope.Known κ a) : scope.Known κ' b :=
  Scope.Refers.mono (Catalog.Rule.later agree le) h

theorem Term.Known.later (agree : Catalog.Agree a κ κ') (le : a ≤ b) {t : Term}
    (h : t.Known κ a) : t.Known κ' b :=
  Term.Refers.mono (Catalog.Rule.later agree le)
    (fun id _ _ _ known => ⟨Nat.lt_of_lt_of_le known.1 le, (agree id known.1).trans known.2⟩) h

/-- A term that was built in a known scope is known. -/
theorem Catalog.Fits.known {depth : Nat} {t : Term} (le : a ≤ b)
    (h : κ.Fits (κ.Rule a) depth a b t) : t.Known κ b := by
  refine h.refers.mono ?_ fun id body scope _ reference => ⟨reference.1.2, reference.2.1⟩
  rintro id (old | ⟨within, kind⟩)
  · exact ⟨Nat.lt_of_lt_of_le old.1 le, old.2⟩
  · exact ⟨within.2, kind⟩

end Known

/-- What is known of a build depends on the catalog of new identities only. -/
theorem Catalog.Describes.congr {κ κ' : Catalog} {H : RuleId → Prop} {depth : Nat} {s s' : Store}
    {t : Term} (same : ∀ id : RuleId, id.Within s.nextRule s'.nextRule → κ' id = κ id)
    (h : κ.Describes H depth s s' t) : κ'.Describes H depth s s' t := by
  have lift {q : Term} (fits : κ.Fits H depth s.nextRule s'.nextRule q) :
      κ'.Fits H depth s.nextRule s'.nextRule q := by
    refine fits.mono same (Nat.le_refl _) (Nat.le_refl _) ?_
    rintro id (old | ⟨within, kind⟩)
    · exact Or.inl old
    · exact Or.inr ⟨within, (same id within).trans kind⟩
  refine ⟨lift h.fits, fun id q new found => ?_⟩
  obtain ⟨bound, kind, fits⟩ := h.cells id q new found
  exact ⟨bound, (same id ⟨new, bound⟩).trans kind, lift fits⟩

namespace World

variable {w w' w'' : World}

theorem bounded (w : World) : w.store.Bounded := by
  intro id beyond
  cases found : w.store.definition? id with
  | none => rfl
  | some q =>
    have := (w.cells id q found).1.1
    omega

theorem lookup_resolved_beyond (w : World) {id : RuleId} (beyond : w.store.nextRule ≤ id.number) :
    w.store.resolved.lookup id = none := by
  cases found : w.store.resolved.lookup id with
  | none => rfl
  | some q =>
    have := (w.resolved id q found).1
    omega

theorem Built.later {first : Nat} {scope : Scope} {body : Node} {q : Term} (h : w ≤ w')
    (built : w.Built first scope body q) : w'.Built first scope body q := by
  obtain ⟨s, after, bounded, known, made, fits, same, describes⟩ := built
  have grows := body.build_grows scope s
  have whole := Nat.le_trans grows.nextRule fits
  refine ⟨s, after, bounded, ?_, made, Nat.le_trans fits h.nextRule, ?_, ?_⟩
  · exact Scope.Known.later (fun id old => h.catalog id (Nat.lt_of_lt_of_le old whole))
      (Nat.le_refl _) known
  · intro id within
    exact (h.definition id (Nat.lt_of_lt_of_le within.2 fits)).trans (same id within)
  · intro H depth inScope nested
    exact (describes H depth inScope nested).congr fun id within =>
      h.catalog id (Nat.lt_of_lt_of_le within.2 fits)

theorem Built.weaken {first first' : Nat} {scope : Scope} {body : Node} {q : Term}
    (le : first' ≤ first) (built : w.Built first scope body q) : w.Built first' scope body q := by
  obtain ⟨s, after, rest⟩ := built
  exact ⟨s, Nat.le_trans le after, rest⟩

protected theorem le_refl (w : World) : w ≤ w :=
  ⟨Nat.le_refl _, fun _ _ => rfl, fun _ _ => rfl, fun _ _ => id, fun _ _ no yes => by
    rw [no] at yes
    cases yes⟩

protected theorem le_trans (h : w ≤ w') (k : w' ≤ w'') : w ≤ w'' where
  nextRule := Nat.le_trans h.nextRule k.nextRule
  catalog := h.catalog.trans k.catalog h.nextRule
  definition id old :=
    (k.definition id (Nat.lt_of_lt_of_le old h.nextRule)).trans (h.definition id old)
  resolved id q found := k.resolved id q (h.resolved id q found)
  built id q no found := by
    cases between : w'.store.resolved.lookup id with
    | none =>
      obtain ⟨body, scope, kind, built⟩ := k.built id q between found
      exact ⟨body, scope, kind, built.weaken h.nextRule⟩
    | some q' =>
      have same : q' = q := Option.some.inj ((k.resolved id q' between).symm.trans found)
      subst same
      obtain ⟨body, scope, kind, built⟩ := h.built id q' no between
      have old := (w'.resolved id q' between).1
      exact ⟨body, scope, (k.catalog id old).trans kind, built.later k⟩

theorem known_later (h : w ≤ w') {t : Term} (known : t.Known w.catalog w.store.nextRule) :
    t.Known w'.catalog w'.store.nextRule :=
  Term.Known.later h.catalog h.nextRule known

theorem scope_later (h : w ≤ w') {scope : Scope}
    (known : scope.Known w.catalog w.store.nextRule) :
    scope.Known w'.catalog w'.store.nextRule :=
  Scope.Known.later h.catalog h.nextRule known

/-- The store after a build, with a catalog that describes the build, is a later world. -/
theorem exists_of_describes (w : World) {s : Store} {κ : Catalog} {depth : Nat} {t : Term}
    (grows : w.store.Grows s) (agree : Catalog.Agree w.store.nextRule w.catalog κ)
    (describes : κ.Describes (κ.Rule w.store.nextRule) depth w.store s t) :
    ∃ w' : World, w ≤ w' ∧ w'.store = s ∧ w'.catalog = κ := by
  refine ⟨⟨κ, s, fun id q found => ?_, fun id q found => ?_⟩,
    ⟨grows.nextRule, agree, fun id old => grows.definition old, ?_, ?_⟩, rfl, rfl⟩
  · by_cases old : id.number < w.store.nextRule
    · obtain ⟨kind, known⟩ := w.cells id q ((grows.definition old).symm.trans found)
      exact ⟨kind.later agree grows.nextRule, known.later agree grows.nextRule⟩
    · obtain ⟨bound, kind, fits⟩ := describes.cells id q (by omega) found
      exact ⟨⟨bound, kind⟩, fits.known grows.nextRule⟩
  · rw [grows.resolved] at found
    obtain ⟨bound, kind, known⟩ := w.resolved id q found
    refine ⟨Nat.lt_of_lt_of_le bound grows.nextRule, ?_, known.later agree grows.nextRule⟩
    rwa [agree id bound]
  · intro id q found
    exact (congrArg (List.lookup id) grows.resolved).trans found
  · intro id q no found
    have same : s.resolved.lookup id = none := (congrArg (List.lookup id) grows.resolved).trans no
    rw [same] at found
    cases found

theorem exists_build (w : World) {scope : Scope} (node : Node)
    (known : scope.Known w.catalog w.store.nextRule) :
    ∃ w' : World, w ≤ w' ∧ w'.store = (node.build scope w.store).2 ∧
      (node.build scope w.store).1.Known w'.catalog w'.store.nextRule ∧
      w'.Built w.store.nextRule scope node (node.build scope w.store).1 := by
  have grows := node.build_grows scope w.store
  obtain ⟨κ, agree, describes⟩ := node.build_describes w.catalog scope w.bounded
  have known' : scope.Known κ w.store.nextRule := known.later agree (Nat.le_refl _)
  have built := describes _ _ known' (Nat.le_refl _)
  obtain ⟨w', later, store, rfl⟩ := w.exists_of_describes grows agree built
  refine ⟨w', later, store, ?_, w.store, Nat.le_refl _, w.bounded, known', rfl, ?_, ?_, describes⟩
  · rw [store]
    exact built.fits.known grows.nextRule
  · exact Nat.le_of_eq (by rw [store])
  · intro id _
    rw [store]

theorem exists_choice (w : World) {scope : Scope} (next : Chooser) (v : Value)
    (known : scope.Known w.catalog w.store.nextRule) :
    ∃ w' : World, w ≤ w' ∧ w'.store = (next.build scope v w.store).2 ∧
      (next.build scope v w.store).1.Known w'.catalog w'.store.nextRule ∧
      ∀ H depth, scope.Refers H → next.nesting ≤ depth →
        w'.catalog.Describes H depth w.store w'.store (next.build scope v w.store).1 := by
  have grows := next.build_grows scope v w.store
  obtain ⟨κ, agree, describes⟩ := next.build_describes w.catalog scope v w.bounded
  have known' : scope.Known κ w.store.nextRule := known.later agree (Nat.le_refl _)
  have built := describes _ _ known' (Nat.le_refl _)
  obtain ⟨w', later, store, rfl⟩ := w.exists_of_describes grows agree built
  refine ⟨w', later, store, ?_, fun H depth => ?_⟩
  · rw [store]
    exact built.fits.known grows.nextRule
  · rw [store]
    exact describes H depth

/-- The same world with other entries active. -/
def withActive (w : World) (active : List Entry) : World :=
  { w with store := w.store.withActive active }

theorem le_withActive (w : World) (active : List Entry) : w ≤ w.withActive active :=
  ⟨Nat.le_refl _, fun _ _ => rfl, fun _ _ => rfl, fun _ _ => id,
    fun _ _ no yes => nomatch no.symm.trans yes⟩

end World

/-- Resolving a reference for the first time leads to a later world. -/
theorem World.exists_keep (w : World) {id : RuleId} {body : Node} {scope : Scope}
    (known : (Term.reference id body scope).Known w.catalog w.store.nextRule)
    (unresolved : w.store.resolved.lookup id = none) :
    ∃ w' : World, w ≤ w' ∧
      w'.store = (body.build scope w.store).2.keep id (body.build scope w.store).1 := by
  obtain ⟨⟨bound, kind⟩, inScope⟩ := known
  obtain ⟨w₁, later, store, knownBody, built⟩ := w.exists_build body inScope
  have resolved : w₁.store.resolved = w.store.resolved :=
    (congrArg Store.resolved store).trans (body.build_grows scope w.store).resolved
  have kind₁ : w₁.catalog id = some (body, scope) := (later.catalog id bound).trans kind
  generalize (body.build scope w.store).1 = q at knownBody built ⊢
  rw [← store]
  refine ⟨⟨w₁.catalog, w₁.store.keep id q, w₁.cells, ?_⟩,
    ⟨later.nextRule, later.catalog, later.definition, ?_, ?_⟩, rfl⟩
  · intro other q' hit
    rcases Store.lookup_keep_eq_some hit with ⟨rfl, rfl⟩ | before
    · refine ⟨Nat.lt_of_lt_of_le bound later.nextRule, ?_, knownBody⟩
      rw [kind₁]
      exact Option.some_ne_none _
    · exact w₁.resolved other q' before
  · intro other q' hit
    have differs : other ≠ id := by
      rintro rfl
      cases unresolved.symm.trans hit
    rw [Store.lookup_keep_of_ne _ _ differs, resolved]
    exact hit
  · intro other q' no hit
    rcases Store.lookup_keep_eq_some hit with ⟨rfl, rfl⟩ | before
    · exact ⟨body, scope, kind₁, built⟩
    · rw [resolved, no] at before
      cases before

/-- Resolving a reference leads to a later world, in which it is resolved. -/
theorem World.exists_resolve (w : World) {id : RuleId} {body : Node} {scope : Scope}
    (known : (Term.reference id body scope).Known w.catalog w.store.nextRule) :
    ∃ (w' : World) (q : Term), w ≤ w' ∧ w'.store.active = w.store.active ∧
      Store.resolve id body scope w.store = (.ok q, w'.store) ∧
      w'.store.resolved.lookup id = some q := by
  cases found : w.store.resolved.lookup id with
  | some q => exact ⟨w, q, w.le_refl, rfl, Store.resolve_of_some found, found⟩
  | none =>
    obtain ⟨w', later, store⟩ := w.exists_keep known found
    have active := (congrArg Store.active store).trans (body.build_grows scope w.store).active
    refine ⟨w', (body.build scope w.store).1, later, active, ?_, ?_⟩
    · rw [Store.resolve_of_none found, store]
    · rw [store]
      exact Store.lookup_keep_self _ _ _

end Descent
