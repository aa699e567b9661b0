import Descent.Proofs.Evolution
import Descent.Proofs.Renaming

/-!
One grammar seen from an earlier world and from a later one. The later world may have resolved
references that the earlier one has yet to resolve; what these were built to then is matched with
what they are built to now.
Main statements: choosers and references keep two worlds matched.
-/

namespace Descent

theorem Term.Known.rename_congr {κ : Catalog} {bound : Nat} {f g : RuleId → RuleId} {t : Term}
    (known : t.Known κ bound) (same : ∀ id : RuleId, id.number < bound → f id = g id) :
    t.rename f = t.rename g :=
  Term.rename_congr (fun id h => same id h.1) (fun id _ _ h => same id h.1) known

theorem Scope.Known.rename_congr {κ : Catalog} {bound : Nat} {f g : RuleId → RuleId}
    {scope : Scope} (known : scope.Known κ bound)
    (same : ∀ id : RuleId, id.number < bound → f id = g id) : scope.rename f = scope.rename g :=
  Scope.rename_congr (fun id h => same id h.1) known

/-- An identity is either among the first `a`, or one of the next. -/
theorem RuleId.old_or_new {a n : Nat} (id : RuleId) (known : id.number < a + n) :
    id.number < a ∨ ∃ d, id = ⟨a + d⟩ ∧ d < n := by
  obtain ⟨number⟩ := id
  by_cases old : number < a
  · exact Or.inl old
  · refine Or.inr ⟨number - a, ?_, ?_⟩
    · rw [Nat.add_sub_cancel' (Nat.le_of_not_lt old)]
    · simp only at known
      omega

/-- Two worlds later than `base`. All identities of the left one have counterparts in the right
one, with the same definitions up to names and resolved where they are. -/
structure Matching (base : World) where
  rename : RuleId → RuleId
  left : World
  right : World
  baseLeft : base ≤ left
  baseRight : base ≤ right
  old : ∀ id : RuleId, id.number < base.store.nextRule → rename id = id
  new : ∀ id : RuleId, base.store.nextRule ≤ id.number → id.number < left.store.nextRule →
    base.store.nextRule ≤ (rename id).number
  bound : ∀ id : RuleId, id.number < left.store.nextRule →
    (rename id).number < right.store.nextRule
  definition : ∀ id : RuleId, id.number < left.store.nextRule →
    right.store.definition? (rename id) = (left.store.definition? id).map (Term.rename rename)
  resolved : ∀ id q, left.store.resolved.lookup id = some q →
    right.store.resolved.lookup (rename id) = some (q.rename rename)

namespace Matching

variable {base : World}

/-- The worlds of `m'` are later than those of `m`, and old identities keep their counterparts. -/
structure Extends (m m' : Matching base) : Prop where
  left : m.left ≤ m'.left
  right : m.right ≤ m'.right
  rename : ∀ id : RuleId, id.number < m.left.store.nextRule → m'.rename id = m.rename id

instance : LE (Matching base) := ⟨Extends⟩

variable {m m' m'' : Matching base}

protected theorem le_refl (m : Matching base) : m ≤ m :=
  ⟨m.left.le_refl, m.right.le_refl, fun _ _ => rfl⟩

protected theorem le_trans (h : m ≤ m') (k : m' ≤ m'') : m ≤ m'' where
  left := World.le_trans h.left k.left
  right := World.le_trans h.right k.right
  rename id old :=
    (k.rename id (Nat.lt_of_lt_of_le old h.left.nextRule)).trans (h.rename id old)

/-- A world and a later one, both as they are. -/
def start {w w' : World} (later : w ≤ w') : Matching w where
  rename := id
  left := w
  right := w'
  baseLeft := w.le_refl
  baseRight := later
  old _ _ := rfl
  new _ new _ := new
  bound _ old := Nat.lt_of_lt_of_le old later.nextRule
  definition rule old := by
    have same : Term.rename id = (id : Term → Term) := funext Term.rename_id
    rw [same, Option.map_id]
    exact later.definition rule old
  resolved rule q found := by
    rw [Term.rename_id]
    exact later.resolved rule q found

/-- New identities of the left world are matched with those from `first` on. -/
def shifted (m : Matching base) (first : Nat) (id : RuleId) : RuleId :=
  if id.number < m.left.store.nextRule then m.rename id
  else ⟨first + (id.number - m.left.store.nextRule)⟩

theorem shifted_old (m : Matching base) (first : Nat) (id : RuleId)
    (old : id.number < m.left.store.nextRule) : m.shifted first id = m.rename id :=
  if_pos old

theorem shifted_shifts (m : Matching base) (first : Nat) :
    Shifts (m.shifted first) m.left.store.nextRule first := by
  intro d
  have new : ¬ m.left.store.nextRule + d < m.left.store.nextRule := by omega
  simp [shifted, new]

section Build

variable (m : Matching base) {left right : World} {s t : Store} (laterLeft : m.left ≤ left)
  (laterRight : m.right ≤ right)
include laterLeft laterRight

/-- What is defined after a build on the left is so on the right, where the build has taken place
now or earlier. -/
theorem shifted_definition
    (parallel : Store.Parallel (m.shifted s.nextRule) m.left.store s left.store t)
    (inPlace : ∀ id : RuleId, id.Within s.nextRule t.nextRule →
      right.store.definition? id = t.definition? id)
    (id : RuleId) (known : id.number < left.store.nextRule) :
    right.store.definition? (m.shifted s.nextRule id) =
      (left.store.definition? id).map (Term.rename (m.shifted s.nextRule)) := by
  obtain ⟨size, nextLeft, nextRight⟩ := parallel.size
  rcases id.old_or_new (nextLeft ▸ known) with old | ⟨d, rfl, bound⟩
  · rw [m.shifted_old _ id old, laterRight.definition _ (m.bound id old),
      laterLeft.definition id old, m.definition id old]
    refine Option.map_congr fun q found => ?_
    exact ((m.left.cells id q found).2.rename_congr (m.shifted_old _)).symm
  · have taken : s.nextRule + d < t.nextRule := by omega
    rw [m.shifted_shifts _ d, inPlace _ ⟨Nat.le_add_right _ _, taken⟩]
    exact parallel.definition d known

/-- A build that takes place on the left is matched with one that has taken place on the right, now
or earlier, at a time when `first` was the next identity. -/
theorem exists_later (first : base.store.nextRule ≤ s.nextRule)
    (parallel : Store.Parallel (m.shifted s.nextRule) m.left.store s left.store t)
    (last : t.nextRule ≤ right.store.nextRule)
    (inPlace : ∀ id : RuleId, id.Within s.nextRule t.nextRule →
      right.store.definition? id = t.definition? id)
    (resolved : ∀ id q, m.left.store.resolved.lookup id = none →
      left.store.resolved.lookup id = some q →
        right.store.resolved.lookup (m.shifted s.nextRule id) =
          some (q.rename (m.shifted s.nextRule))) :
    ∃ m' : Matching base, m ≤ m' ∧ m'.left = left ∧ m'.right = right ∧
      m'.rename = m.shifted s.nextRule := by
  obtain ⟨size, nextLeft, nextRight⟩ := parallel.size
  have shifts := m.shifted_shifts s.nextRule
  have same := m.shifted_old s.nextRule
  -- an identity of the left world is either old, or one of those that the build has taken
  have split (id : RuleId) (known : id.number < left.store.nextRule) :=
    id.old_or_new (nextLeft ▸ known)
  refine ⟨⟨m.shifted s.nextRule, left, right, World.le_trans m.baseLeft laterLeft,
    World.le_trans m.baseRight laterRight, fun id old => ?_, fun id new known => ?_,
    fun id known => ?_, m.shifted_definition laterLeft laterRight parallel inPlace,
    fun id q found => ?_⟩, ⟨laterLeft, laterRight, same⟩, rfl, rfl, rfl⟩
  · rw [same id (Nat.lt_of_lt_of_le old m.baseLeft.nextRule)]
    exact m.old id old
  · rcases split id known with old | ⟨d, rfl, -⟩
    · rw [same id old]
      exact m.new id new old
    · rw [shifts d]
      exact Nat.le_trans first (Nat.le_add_right _ _)
  · rcases split id known with old | ⟨d, rfl, bound⟩
    · rw [same id old]
      exact Nat.lt_of_lt_of_le (m.bound id old) laterRight.nextRule
    · rw [shifts d]
      change s.nextRule + d < right.store.nextRule
      omega
  · cases before : m.left.store.resolved.lookup id with
    | none => exact resolved id q before found
    | some q' =>
      obtain rfl : q' = q := Option.some.inj ((laterLeft.resolved id q' before).symm.trans found)
      obtain ⟨old, -, known⟩ := m.left.resolved id q' before
      rw [same id old, known.rename_congr same]
      exact laterRight.resolved _ _ (m.resolved id q' before)

end Build

/-- A term that both worlds know, on the right under its new names. -/
def Knows (m : Matching base) (t : Term) : Prop :=
  t.Known m.left.catalog m.left.store.nextRule ∧
    (t.rename m.rename).Known m.right.catalog m.right.store.nextRule

theorem Knows.later {t : Term} (h : m ≤ m') (known : m.Knows t) :
    m'.Knows t ∧ t.rename m'.rename = t.rename m.rename := by
  have same := known.1.rename_congr h.rename
  refine ⟨⟨World.known_later h.left known.1, ?_⟩, same⟩
  rw [same]
  exact World.known_later h.right known.2

theorem exists_choice (m : Matching base) (next : Chooser) {scope : Scope} (v : Value)
    (known : scope.Known m.left.catalog m.left.store.nextRule)
    (known' : (scope.rename m.rename).Known m.right.catalog m.right.store.nextRule) :
    ∃ m' : Matching base, m ≤ m' ∧ m'.left.store = (next.build scope v m.left.store).2 ∧
      m'.right.store = (next.build (scope.rename m.rename) v m.right.store).2 ∧
      (next.build (scope.rename m.rename) v m.right.store).1 =
        (next.build scope v m.left.store).1.rename m'.rename ∧
      m'.Knows (next.build scope v m.left.store).1 ∧
      m'.rename = m.shifted m.right.store.nextRule := by
  obtain ⟨left, laterLeft, storeLeft, knownLeft, -⟩ := m.left.exists_choice next v known
  obtain ⟨right, laterRight, storeRight, knownRight, -⟩ := m.right.exists_choice next v known'
  have names := known.rename_congr (m.shifted_old m.right.store.nextRule)
  obtain ⟨term, parallel, -⟩ := next.build_rename scope v _ _ m.left.bounded m.right.bounded
    (m.shifted_shifts m.right.store.nextRule)
  rw [names] at term parallel
  rw [← storeLeft, ← storeRight] at parallel
  obtain ⟨m', later, rfl, rfl, rename⟩ := m.exists_later laterLeft laterRight m.baseRight.nextRule
    parallel (Nat.le_refl _) (fun _ _ => rfl) fun id q before found => by
      have kept := congrArg Store.resolved storeLeft
      rw [(next.build_grows scope v m.left.store).resolved] at kept
      rw [kept, before] at found
      cases found
  refine ⟨m', later, storeLeft, storeRight, ?_, ⟨knownLeft, ?_⟩, rename⟩
  · rw [term, rename]
  · rw [rename, ← term]
    exact knownRight

/-- A reference that is still to be resolved on the left was so in the base, under its new name. -/
theorem base_unresolved (m : Matching base) {id : RuleId}
    (bound : id.number < m.left.store.nextRule)
    (onLeft : m.left.store.resolved.lookup id = none) :
    base.store.resolved.lookup (m.rename id) = none := by
  by_cases old : id.number < base.store.nextRule
  · rw [m.old id old]
    cases found : base.store.resolved.lookup id with
    | none => rfl
    | some q =>
      rw [m.baseLeft.resolved id q found] at onLeft
      cases onLeft
  · exact base.lookup_resolved_beyond (m.new id (by omega) bound)

/-- A reference is resolved on the left, where on the right it stands resolved to what was built
from the store `s`. -/
theorem exists_built (m : Matching base) {id : RuleId} {body : Node} {scope : Scope}
    (known : m.Knows (.reference id body scope))
    (onLeft : m.left.store.resolved.lookup id = none) {right : World} {s : Store}
    (laterRight : m.right ≤ right) (first : base.store.nextRule ≤ s.nextRule) (bounded : s.Bounded)
    (last : (body.build (scope.rename m.rename) s).2.nextRule ≤ right.store.nextRule)
    (inPlace : ∀ other : RuleId,
      other.Within s.nextRule (body.build (scope.rename m.rename) s).2.nextRule →
        right.store.definition? other =
          (body.build (scope.rename m.rename) s).2.definition? other)
    (onRight : right.store.resolved.lookup (m.rename id) =
      some (body.build (scope.rename m.rename) s).1) :
    ∃ (m' : Matching base) (q : Term), m ≤ m' ∧ m'.right = right ∧
      Store.resolve id body scope m.left.store = (.ok q, m'.left.store) ∧
      (body.build (scope.rename m.rename) s).1 = q.rename m'.rename ∧ m'.Knows q ∧
      m'.rename = m.shifted s.nextRule := by
  obtain ⟨left, laterLeft, store⟩ := m.left.exists_keep known.1 onLeft
  have bound : id.number < m.left.store.nextRule := known.1.1.1
  have names := Scope.Known.rename_congr known.1.2 (m.shifted_old s.nextRule)
  obtain ⟨term, parallel, -⟩ := body.build_rename scope _ _ m.left.bounded bounded
    (m.shifted_shifts s.nextRule)
  rw [names] at term parallel
  have parallel' : Store.Parallel (m.shifted s.nextRule) m.left.store s left.store
      (body.build (scope.rename m.rename) s).2 := by
    rw [store]
    exact ⟨parallel.size, parallel.definition⟩
  obtain ⟨m', later, rfl, rfl, rename⟩ := m.exists_later laterLeft laterRight first parallel' last
    inPlace fun other q before hit => by
      rw [store] at hit
      rcases Store.lookup_keep_eq_some hit with ⟨rfl, rfl⟩ | after
      · rw [m.shifted_old _ _ bound, onRight, term]
      · rw [(body.build_grows scope m.left.store).resolved, before] at after
        cases after
  have found : m'.left.store.resolved.lookup id = some (body.build scope m.left.store).1 := by
    rw [store]
    exact Store.lookup_keep_self _ _ _
  refine ⟨m', _, later, rfl, ?_, ?_, ⟨(m'.left.resolved id _ found).2.2, ?_⟩, rename⟩
  · rw [Store.resolve_of_none onLeft, store]
  · rw [term, rename]
  · rw [rename, ← term]
    exact (m'.right.resolved _ _ onRight).2.2

/-- A reference that is resolved on both sides. If it has been resolved on the right already, it is
built on the left to what it was built to on the right. -/
theorem exists_resolve (m : Matching base) {id : RuleId} {body : Node} {scope : Scope}
    (known : m.Knows (.reference id body scope)) :
    ∃ (m' : Matching base) (q : Term), m ≤ m' ∧
      Store.resolve id body scope m.left.store = (.ok q, m'.left.store) ∧
      Store.resolve (m.rename id) body (scope.rename m.rename) m.right.store =
        (.ok (q.rename m'.rename), m'.right.store) ∧ m'.Knows q := by
  cases onLeft : m.left.store.resolved.lookup id with
  | some q =>
    have onRight := m.resolved id q onLeft
    exact ⟨m, q, m.le_refl, Store.resolve_of_some onLeft, Store.resolve_of_some onRight,
      (m.left.resolved id q onLeft).2.2, (m.right.resolved _ _ onRight).2.2⟩
  | none =>
    have bound : id.number < m.left.store.nextRule := known.1.1.1
    have kind : m.right.catalog (m.rename id) = some (body, scope.rename m.rename) := known.2.1.2
    cases onRight : m.right.store.resolved.lookup (m.rename id) with
    | some q' =>
      obtain ⟨body', scope', kind', s, first, bounded, -, made, last, inPlace, -⟩ :=
        m.baseRight.built _ q' (m.base_unresolved bound onLeft) onRight
      rw [kind] at kind'
      cases kind'
      subst made
      obtain ⟨m', q, later, right, runLeft, term, knows, -⟩ :=
        m.exists_built known onLeft m.right.le_refl first bounded last inPlace onRight
      refine ⟨m', q, later, runLeft, ?_, knows⟩
      rw [Store.resolve_of_some onRight, term, right]
    | none =>
      obtain ⟨right, laterRight, store⟩ := m.right.exists_keep known.2 onRight
      have found : right.store.resolved.lookup (m.rename id) =
          some (body.build (scope.rename m.rename) m.right.store).1 := by
        rw [store]
        exact Store.lookup_keep_self _ _ _
      obtain ⟨m', q, later, rfl, runLeft, term, knows, -⟩ := m.exists_built known onLeft laterRight
        m.baseRight.nextRule m.right.bounded (Nat.le_of_eq (by rw [store]; rfl))
        (fun _ _ => by rw [store]; rfl) found
      refine ⟨m', q, later, runLeft, ?_, knows⟩
      rw [Store.resolve_of_none onRight, store, term]

end Matching
end Descent
