import Descent.Proofs.Transparency

/-!
Parses of one grammar at different times. Between them identities may have been given out and
references resolved, so the runs are followed side by side in two worlds that are matched: each
identity has a counterpart of its own, and the same entries are active under these names.
Main statement: a parse comes to the same at any time, up to the numbering of rules.
-/

namespace Descent

/-- A defect with the number of its rule left out. -/
def Defect.unnumbered : Defect → Defect
  | leftRecursion _ location => leftRecursion ⟨0⟩ location
  | undefinedRule _ => undefinedRule ⟨0⟩
  | ruleRedefined _ => ruleRedefined ⟨0⟩

def Halt.unnumbered : Halt → Halt
  | defect d => defect d.unnumbered
  | outOfFuel => outOfFuel

/-- An entry under another name of its rule. -/
def Entry.rename (f : RuleId → RuleId) (e : Entry) : Entry := { e with rule := f e.rule }

namespace World

variable {w w' : World}

theorem withActive_mono (h : w ≤ w') (a b : List Entry) : w.withActive a ≤ w'.withActive b :=
  ⟨h.nextRule, h.catalog, h.definition, h.resolved, h.built⟩

namespace Act

/-- An act does not depend on the active entries. -/
theorem under (act : w.Act w') (active : List Entry) :
    (w.withActive active).Act (w'.withActive active) := by
  cases act with
  | grow later resolved => exact .grow (withActive_mono later active active) resolved
  | @resolve id body scope q later known run =>
    refine .resolve (withActive_mono later active active) known (q := q) ?_
    change Store.resolve id body scope (w.store.withActive active) = _
    rw [Store.resolve_withActive, run]
    rfl

/-- What an act has newly resolved it has built at the identities that came next. -/
theorem newly (act : w.Act w') {id : RuleId} {q : Term}
    (before : w.store.resolved.lookup id = none) (after : w'.store.resolved.lookup id = some q) :
    ∃ body scope, (Term.reference id body scope).Known w.catalog w.store.nextRule ∧
      (body.build scope w.store).1 = q ∧ w'.store = (body.build scope w.store).2.keep id q := by
  cases act with
  | grow later resolved =>
    rw [resolved, before] at after
    cases after
  | @resolve other body scope t later known run =>
    cases found : w.store.resolved.lookup other with
    | some _ =>
      rw [Store.resolve_of_some found, Prod.mk.injEq] at run
      rw [← run.2, before] at after
      cases after
    | none =>
      rw [Store.resolve_of_none found, Prod.mk.injEq] at run
      obtain ⟨-, store⟩ := run
      rw [← store] at after
      rcases Store.lookup_keep_eq_some after with ⟨rfl, rfl⟩ | old
      · exact ⟨body, scope, known, rfl, store.symm⟩
      · rw [(body.build_grows scope w.store).resolved, before] at old
        cases old

/-- An act resolves one reference at most. -/
theorem newly_unique (act : w.Act w') {id other : RuleId} {q q' : Term}
    (before : w.store.resolved.lookup id = none) (after : w'.store.resolved.lookup id = some q)
    (before' : w.store.resolved.lookup other = none)
    (after' : w'.store.resolved.lookup other = some q') : other = id := by
  obtain ⟨body, scope, -, -, store⟩ := act.newly before after
  rw [store] at after'
  rcases Store.lookup_keep_eq_some after' with ⟨same, -⟩ | old
  · exact same
  · rw [(body.build_grows scope w.store).resolved, before'] at old
    cases old

end Act
end World

theorem Store.lookup_of_resolve {id : RuleId} {body : Node} {scope : Scope} {s t : Store} {q : Term}
    (before : s.resolved.lookup id = none) (run : resolve id body scope s = (.ok q, t)) :
    t.resolved.lookup id = some q := by
  rw [resolve_of_none before, Prod.mk.injEq, Except.ok.injEq] at run
  rw [← run.2, run.1]
  exact lookup_keep_self _ _ _

/-- A matching of a world with what has become of it after an act. No two identities have the same
counterpart. -/
structure Matching.Paired {base : World} (m : Matching base) (now : World) : Prop where
  reached : now ≤ m.right
  injective : ∀ i j : RuleId, i.number < m.left.store.nextRule →
    j.number < m.left.store.nextRule → m.rename i = m.rename j → i = j
  /-- What is resolved on the right has been so by the act or is so on the left. -/
  resolved : ∀ id q, m.right.store.resolved.lookup id = some q →
    now.store.resolved.lookup id = some q ∨
      ∃ j q', m.left.store.resolved.lookup j = some q' ∧ m.rename j = id
  /-- As long as the left has not resolved what the act has, it has no counterparts of its new
  identities among those that the act has taken. -/
  apart : ∀ id q, base.store.resolved.lookup id = none →
    now.store.resolved.lookup id = some q → m.left.store.resolved.lookup id = none →
    ∀ i : RuleId, base.store.nextRule ≤ i.number → i.number < m.left.store.nextRule →
      now.store.nextRule ≤ (m.rename i).number
  entered : ∀ e ∈ m.left.store.active, e.rule.number < m.left.store.nextRule
  active : m.right.store.active = m.left.store.active.map (Entry.rename m.rename)

namespace Matching

variable {base now : World}

theorem paired_start (later : base ≤ now) (same : now.store.active = base.store.active)
    (entered : ∀ e ∈ base.store.active, e.rule.number < base.store.nextRule) :
    (start later).Paired now where
  reached := now.le_refl
  injective _ _ _ _ eq := eq
  resolved _ _ found := Or.inl found
  apart _ _ _ _ _ _ new old := absurd old (Nat.not_lt.mpr new)
  entered := entered
  active := same.trans (List.map_id' _).symm

/-- What has its counterpart in the base was there itself, and is its own counterpart. -/
theorem rename_eq_self (m : Matching base) {id : RuleId} (bound : id.number < m.left.store.nextRule)
    (old : (m.rename id).number < base.store.nextRule) : m.rename id = id := by
  by_cases new : base.store.nextRule ≤ id.number
  · exact absurd old (Nat.not_lt.mpr (m.new id new bound))
  · exact m.old id (Nat.not_le.mp new)

namespace Paired

variable {m m' : Matching base}

/-- New identities that are matched with those from `first` on have counterparts of their own if
none of these was a counterpart before. -/
theorem shifted_injective (paired : m.Paired now) {bound first : Nat}
    (le : m.left.store.nextRule ≤ bound)
    (fresh : ∀ i d, i.number < m.left.store.nextRule → m.left.store.nextRule + d < bound →
      m.rename i ≠ ⟨first + d⟩) (i j : RuleId) (hi : i.number < bound) (hj : j.number < bound)
    (eq : m.shifted first i = m.shifted first j) : i = j := by
  have same := m.shifted_old first
  have shifts := m.shifted_shifts first
  obtain ⟨size, rfl⟩ := Nat.exists_eq_add_of_le le
  rcases i.old_or_new hi with oldI | ⟨d, rfl, newI⟩ <;>
    rcases j.old_or_new hj with oldJ | ⟨k, rfl, newJ⟩
  · rw [same i oldI, same j oldJ] at eq
    exact paired.injective i j oldI oldJ eq
  · rw [same i oldI, shifts k] at eq
    exact absurd eq (fresh i k oldI (by omega))
  · rw [shifts d, same j oldJ] at eq
    exact absurd eq.symm (fresh j d oldJ (by omega))
  · rw [shifts d, shifts k, RuleId.mk.injEq] at eq
    rw [Nat.add_left_cancel eq]

/-- New identities of the left world that are matched with those from `first` on keep worlds paired
if no counterparts were there before. -/
theorem later (paired : m.Paired now) (h : m ≤ m') {first : Nat}
    (rename : m'.rename = m.shifted first)
    (fresh : ∀ i d, i.number < m.left.store.nextRule →
      m.left.store.nextRule + d < m'.left.store.nextRule → m.rename i ≠ ⟨first + d⟩)
    (resolved : ∀ id q, m'.right.store.resolved.lookup id = some q →
      m.right.store.resolved.lookup id = some q ∨
        ∃ j q', m'.left.store.resolved.lookup j = some q' ∧ m.rename j = id ∧
          j.number < m.left.store.nextRule)
    (apart : ∀ id q, base.store.resolved.lookup id = none →
      now.store.resolved.lookup id = some q → m'.left.store.resolved.lookup id = none →
        now.store.nextRule ≤ first)
    (left : m'.left.store.active = m.left.store.active)
    (right : m'.right.store.active = m.right.store.active) : m'.Paired now where
  reached := World.le_trans paired.reached h.right
  injective := by
    rw [rename]
    exact paired.shifted_injective h.left.nextRule fresh
  resolved id q found := by
    rcases resolved id q found with before | ⟨j, q', hit, eq, old⟩
    · rcases paired.resolved id q before with acted | ⟨j, q', hit, eq⟩
      · exact Or.inl acted
      · have old := (m.left.resolved j q' hit).1
        exact Or.inr ⟨j, q', h.left.resolved j q' hit, (h.rename j old).trans eq⟩
    · exact Or.inr ⟨j, q', hit, (h.rename j old).trans eq⟩
  apart id q before acted pending i new known := by
    have still : m.left.store.resolved.lookup id = none := by
      cases hit : m.left.store.resolved.lookup id with
      | none => rfl
      | some q' => exact nomatch (h.left.resolved id q' hit).symm.trans pending
    obtain ⟨size, next⟩ := Nat.exists_eq_add_of_le h.left.nextRule
    rw [rename]
    rcases i.old_or_new (next ▸ known) with old | ⟨d, rfl, -⟩
    · rw [m.shifted_old first i old]
      exact paired.apart id q before acted still i new old
    · rw [m.shifted_shifts first d]
      exact Nat.le_trans (apart id q before acted pending) (Nat.le_add_right _ _)
  entered e mem := by
    rw [left] at mem
    exact Nat.lt_of_lt_of_le (paired.entered e mem) h.left.nextRule
  active := by
    rw [left, right, paired.active]
    refine List.map_congr_left fun e mem => ?_
    rw [Entry.rename, Entry.rename, h.rename _ (paired.entered e mem)]

/-- Identities given out on both sides alike. -/
theorem grown (paired : m.Paired now) (h : m ≤ m')
    (rename : m'.rename = m.shifted m.right.store.nextRule)
    (resolved : ∀ id q, m'.right.store.resolved.lookup id = some q →
      m.right.store.resolved.lookup id = some q ∨
        ∃ j q', m'.left.store.resolved.lookup j = some q' ∧ m.rename j = id ∧
          j.number < m.left.store.nextRule)
    (left : m'.left.store.active = m.left.store.active)
    (right : m'.right.store.active = m.right.store.active) : m'.Paired now := by
  refine paired.later h rename (fun i d old _ eq => ?_) resolved
    (fun _ _ _ _ _ => paired.reached.nextRule) left right
  have := m.bound i old
  rw [eq] at this
  simp only at this
  omega

theorem exists_choice (paired : m.Paired now) (next : Chooser) {scope : Scope} (v : Value)
    (known : scope.Known m.left.catalog m.left.store.nextRule)
    (known' : (scope.rename m.rename).Known m.right.catalog m.right.store.nextRule) :
    ∃ m' : Matching base, m ≤ m' ∧ m'.Paired now ∧
      m'.left.store.active = m.left.store.active ∧
      m'.left.store = (next.build scope v m.left.store).2 ∧
      m'.right.store = (next.build (scope.rename m.rename) v m.right.store).2 ∧
      (next.build (scope.rename m.rename) v m.right.store).1 =
        (next.build scope v m.left.store).1.rename m'.rename ∧
      m'.Knows (next.build scope v m.left.store).1 := by
  obtain ⟨m', later, left, right, term, knows, rename⟩ := m.exists_choice next v known known'
  have growsLeft := next.build_grows scope v m.left.store
  have growsRight := next.build_grows (scope.rename m.rename) v m.right.store
  have kept := (congrArg Store.active left).trans growsLeft.active
  refine ⟨m', later, ?_, kept, left, right, term, knows⟩
  refine paired.grown later rename (fun id q found => Or.inl ?_) kept
    ((congrArg Store.active right).trans growsRight.active)
  rw [right, growsRight.resolved] at found
  exact found

/-- A reference that neither side has resolved. -/
theorem exists_resolve_both (paired : m.Paired now) {id : RuleId} {body : Node} {scope : Scope}
    (known : m.Knows (.reference id body scope))
    (onLeft : m.left.store.resolved.lookup id = none)
    (onRight : m.right.store.resolved.lookup (m.rename id) = none) :
    ∃ (m' : Matching base) (q : Term), m ≤ m' ∧ m'.Paired now ∧
      Store.resolve id body scope m.left.store = (.ok q, m'.left.store) ∧
      Store.resolve (m.rename id) body (scope.rename m.rename) m.right.store =
        (.ok (q.rename m'.rename), m'.right.store) ∧ m'.Knows q := by
  have bound : id.number < m.left.store.nextRule := known.1.1.1
  obtain ⟨right, laterRight, store⟩ := m.right.exists_keep known.2 onRight
  have grows := body.build_grows (scope.rename m.rename) m.right.store
  have found : right.store.resolved.lookup (m.rename id) =
      some (body.build (scope.rename m.rename) m.right.store).1 := by
    rw [store]
    exact Store.lookup_keep_self _ _ _
  obtain ⟨m', q, later, rfl, runLeft, term, knows, rename⟩ := m.exists_built known onLeft laterRight
    m.baseRight.nextRule m.right.bounded (Nat.le_of_eq (by rw [store]; rfl))
    (fun _ _ => by rw [store]; rfl) found
  refine ⟨m', q, later, ?_, runLeft, ?_, knows⟩
  · have active := Store.resolve_active id body scope m.left.store
    rw [runLeft] at active
    refine paired.grown later rename (fun other q' hit => ?_) active
      ((congrArg Store.active store).trans grows.active)
    rw [store] at hit
    rcases Store.lookup_keep_eq_some hit with ⟨rfl, -⟩ | before
    · exact Or.inr ⟨id, q, Store.lookup_of_resolve onLeft runLeft, rfl, bound⟩
    · rw [grows.resolved] at before
      exact Or.inl before
  · rw [Store.resolve_of_none onRight, store, term]

/-- While the left has not resolved what the act has, it has no counterparts among the identities
that the act has taken. -/
theorem rename_ne_taken (paired : m.Paired now) {id : RuleId} {q : Term}
    (before : base.store.resolved.lookup id = none)
    (acted : now.store.resolved.lookup id = some q)
    (pending : m.left.store.resolved.lookup id = none) {i : RuleId}
    (bound : i.number < m.left.store.nextRule) {d : Nat}
    (taken : base.store.nextRule + d < now.store.nextRule) :
    m.rename i ≠ ⟨base.store.nextRule + d⟩ := by
  intro eq
  have number : (m.rename i).number = base.store.nextRule + d := congrArg RuleId.number eq
  by_cases new : base.store.nextRule ≤ i.number
  · have apart := paired.apart id q before acted pending i new bound
    omega
  · rw [m.old i (Nat.not_le.mp new)] at number
    omega

/-- What the act has resolved and the left side has not is its own counterpart, and the act has
built it in the base. -/
theorem acted_eq (act : base.Act now) {id : RuleId} {body : Node} {scope : Scope}
    (known : m.Knows (.reference id body scope))
    (onLeft : m.left.store.resolved.lookup id = none) {q : Term}
    (acted : now.store.resolved.lookup (m.rename id) = some q) :
    m.rename id = id ∧ q = (body.build (scope.rename m.rename) base.store).1 ∧
      now.store = (body.build (scope.rename m.rename) base.store).2.keep (m.rename id) q := by
  have bound : id.number < m.left.store.nextRule := known.1.1.1
  obtain ⟨body', scope', known', rfl, store⟩ := act.newly (m.base_unresolved bound onLeft) acted
  have old : (m.rename id).number < base.store.nextRule := known'.1.1
  have kind : m.right.catalog (m.rename id) = some (body, scope.rename m.rename) := known.2.1.2
  rw [m.baseRight.catalog _ old, known'.1.2, Option.some.injEq, Prod.mk.injEq] at kind
  obtain ⟨rfl, rfl⟩ := kind
  exact ⟨m.rename_eq_self bound old, rfl, store⟩

/-- A reference that the act has resolved and the left side has not. The left side builds it now,
and what the act has built then is the counterpart. -/
theorem exists_resolve_acted (act : base.Act now) (paired : m.Paired now) {id : RuleId}
    {body : Node} {scope : Scope} (known : m.Knows (.reference id body scope))
    (onLeft : m.left.store.resolved.lookup id = none) {q' : Term}
    (acted : now.store.resolved.lookup (m.rename id) = some q') :
    ∃ (m' : Matching base) (q : Term), m ≤ m' ∧ m'.Paired now ∧
      Store.resolve id body scope m.left.store = (.ok q, m'.left.store) ∧
      Store.resolve (m.rename id) body (scope.rename m.rename) m.right.store =
        (.ok (q.rename m'.rename), m'.right.store) ∧ m'.Knows q := by
  have before := m.base_unresolved known.1.1.1 onLeft
  obtain ⟨same, rfl, store⟩ := acted_eq act known onLeft acted
  have next : now.store.nextRule = (body.build (scope.rename m.rename) base.store).2.nextRule := by
    rw [store]
    rfl
  have onRight := paired.reached.resolved _ _ acted
  obtain ⟨m', q, later, right, runLeft, term, knows, rename⟩ := m.exists_built known onLeft
    m.right.le_refl (Nat.le_refl _) base.bounded (next ▸ paired.reached.nextRule)
    (fun other within => by
      rw [paired.reached.definition other (next ▸ within.2), store]
      rfl) onRight
  refine ⟨m', q, later, ?_, runLeft, by rw [Store.resolve_of_some onRight, term, right], knows⟩
  have active := Store.resolve_active id body scope m.left.store
  rw [runLeft] at active
  refine paired.later later rename (fun i d taken fits eq => ?_)
    (fun other t hit => Or.inl (right ▸ hit)) (fun other t no yes pending => ?_) active
    (congrArg (fun w => w.store.active) right)
  · -- the left side takes as many identities as the act has taken
    have names := Scope.Known.rename_congr known.1.2 (m.shifted_old base.store.nextRule)
    obtain ⟨-, parallel, -⟩ := body.build_rename scope _ _ m.left.bounded base.bounded
      (m.shifted_shifts base.store.nextRule)
    obtain ⟨size, nextLeft, nextRight⟩ := parallel.size
    rw [names, ← next] at nextRight
    rw [Store.resolve_of_none onLeft, Prod.mk.injEq] at runLeft
    rw [← runLeft.2] at fits
    have fits' : m.left.store.nextRule + d < (body.build scope m.left.store).2.nextRule := fits
    exact paired.rename_ne_taken before acted (same.symm ▸ onLeft) taken (by omega) eq
  · obtain rfl := act.newly_unique no yes before acted
    rw [same, Store.lookup_of_resolve onLeft runLeft] at pending
    cases pending

theorem exists_resolve (act : base.Act now) (paired : m.Paired now) {id : RuleId} {body : Node}
    {scope : Scope} (known : m.Knows (.reference id body scope)) :
    ∃ (m' : Matching base) (q : Term), m ≤ m' ∧ m'.Paired now ∧
      Store.resolve id body scope m.left.store = (.ok q, m'.left.store) ∧
      Store.resolve (m.rename id) body (scope.rename m.rename) m.right.store =
        (.ok (q.rename m'.rename), m'.right.store) ∧ m'.Knows q := by
  have bound : id.number < m.left.store.nextRule := known.1.1.1
  cases onLeft : m.left.store.resolved.lookup id with
  | some q =>
    have onRight := m.resolved id q onLeft
    exact ⟨m, q, m.le_refl, paired, Store.resolve_of_some onLeft, Store.resolve_of_some onRight,
      (m.left.resolved id q onLeft).2.2, (m.right.resolved _ _ onRight).2.2⟩
  | none =>
    cases onRight : m.right.store.resolved.lookup (m.rename id) with
    | none => exact paired.exists_resolve_both known onLeft onRight
    | some q' =>
      rcases paired.resolved _ q' onRight with acted | ⟨j, q, hit, eq⟩
      · exact paired.exists_resolve_acted act known onLeft acted
      · obtain rfl := paired.injective j id (m.left.resolved j q hit).1 bound eq
        exact nomatch onLeft.symm.trans hit

/-- An entry is active on the left if and only if its counterpart is on the right. -/
theorem entry_mem_iff (paired : m.Paired now) {rule : RuleId}
    (bound : rule.number < m.left.store.nextRule) (c : Cursor) :
    Store.entry (m.rename rule) c ∈ m.right.store.active ↔
      Store.entry rule c ∈ m.left.store.active := by
  rw [paired.active, List.mem_map]
  constructor
  · rintro ⟨e, mem, eq⟩
    have same : e.rule = rule :=
      paired.injective _ _ (paired.entered e mem) bound (congrArg Entry.rule eq)
    have entry : Store.entry rule c = e := by
      rw [Entry.rename, Store.entry, Entry.mk.injEq] at eq
      rw [Store.entry, ← same, ← eq.2.1, ← eq.2.2]
    exact entry ▸ mem
  · exact fun mem => ⟨_, mem, rfl⟩

end Paired

/-- The same matching with other entries active. -/
def withActive (m : Matching base) (left right : List Entry) : Matching base :=
  { m with
    left := m.left.withActive left
    right := m.right.withActive right
    baseLeft := World.le_trans m.baseLeft (m.left.le_withActive left)
    baseRight := World.le_trans m.baseRight (m.right.le_withActive right) }

theorem le_withActive (m : Matching base) (left right : List Entry) :
    m ≤ m.withActive left right :=
  ⟨m.left.le_withActive left, m.right.le_withActive right, fun _ _ => rfl⟩

theorem Paired.withActive {m : Matching base} (paired : m.Paired now) {active : List Entry}
    (entered : ∀ e ∈ active, e.rule.number < m.left.store.nextRule) :
    (m.withActive active (active.map (Entry.rename m.rename))).Paired now where
  reached := World.le_trans paired.reached (m.right.le_withActive _)
  injective := paired.injective
  resolved := paired.resolved
  apart := paired.apart
  entered := entered
  active := rfl

end Matching

/-- Two runs from the two sides of paired worlds come to the same, up to the numbering of rules, and
leave the worlds paired and the active entries as they were. -/
def agreeing {base : World} (now : World) (m₀ : Matching base) : Judgement Store Store where
  region _ := True
  moves _ _ := True
  holds X Y good := ∀ n (m : Matching base), m₀ ≤ m → m.Paired now →
    ∃ (m' : Matching base) (x y : Except Halt _), m ≤ m' ∧ m'.Paired now ∧
      m'.left.store.active = m.left.store.active ∧
      X n m.left.store = (x, m'.left.store) ∧ Y n m.right.store = (y, m'.right.store) ∧
      y.mapError Halt.unnumbered = x.mapError Halt.unnumbered ∧ ∀ a, x = .ok a → good a
  moves_refl _ := trivial
  moves_trans _ _ := trivial
  moves_next _ := trivial
  region_moves _ _ := trivial
  pure {α a good} h _ m _ paired :=
    ⟨m, .ok a, .ok a, m.le_refl, paired, rfl, rfl, rfl, rfl, fun _ eq => by cases eq; exact h⟩
  bind {α β X Y F G mid good} hx hf n m from₀ paired := by
    obtain ⟨m₁, x, y, later, paired₁, active, left, right, same, yields⟩ := hx n m from₀ paired
    dsimp only
    cases x with
    | error e =>
      cases y with
      | ok b => cases same
      | error e' =>
        rw [Step.bind_of_error left, Step.bind_of_error right]
        exact ⟨m₁, _, _, later, paired₁, active, rfl, rfl,
          congrArg Except.error (Except.error.inj same), nofun⟩
    | ok a =>
      cases y with
      | error e' => cases same
      | ok b =>
        obtain rfl : b = a := Except.ok.inj same
        rw [Step.bind_of_ok left, Step.bind_of_ok right]
        obtain ⟨m₂, x, y, later₂, paired₂, active₂, rest⟩ :=
          hf b (yields b rfl) n m₁ (Matching.le_trans from₀ later) paired₁
        exact ⟨m₂, x, y, Matching.le_trans later later₂, paired₂, active₂.trans active, rest⟩

namespace agreeing

variable {base now : World}

theorem spent (m₀ : Matching base) (n : Nat) : (agreeing now m₀).Fuels n n :=
  Or.inl ⟨rfl, fun _ _ m _ paired =>
    ⟨m, .error .outOfFuel, .error .outOfFuel, m.le_refl, paired, rfl, rfl, rfl, rfl, nofun⟩⟩

theorem guard {m₀ : Matching base} {rule : RuleId} (bound : rule.number < m₀.left.store.nextRule)
    {p p' : Parser Store Value} (h : (agreeing now m₀).Parsers (fun _ => p) fun _ => p') :
    (agreeing now m₀).Parsers (fun _ => guarded rule p) fun _ => guarded (m₀.rename rule) p' := by
  intro c hc n m from₀ paired
  have bound' := Nat.lt_of_lt_of_le bound from₀.left.nextRule
  dsimp only
  rw [← from₀.rename rule bound]
  by_cases entered : Store.entry rule c ∈ m.left.store.active
  · rw [guarded_of_mem entered, guarded_of_mem ((paired.entry_mem_iff bound' c).mpr entered)]
    exact ⟨m, _, _, m.le_refl, paired, rfl, rfl, rfl, rfl, nofun⟩
  · rw [guarded_of_notMem entered,
      guarded_of_notMem fun mem => entered ((paired.entry_mem_iff bound' c).mp mem)]
    have inside : ∀ e ∈ Store.entry rule c :: m.left.store.active,
        e.rule.number < m.left.store.nextRule := by
      intro e mem
      rcases List.mem_cons.mp mem with rfl | mem
      · exact bound'
      · exact paired.entered e mem
    obtain ⟨m₁, x, y, later, paired₁, active, left, right, same, yields⟩ :=
      h c hc n _ (Matching.le_trans from₀ (m.le_withActive _ _)) (paired.withActive inside)
    have onward : m ≤ m₁ := Matching.le_trans (m.le_withActive _ _) later
    have runLeft : p c (m.left.store.enter (Store.entry rule c)) = (x, m₁.left.store) := left
    have runRight : p' c (m.right.store.enter (Store.entry (m.rename rule) c)) =
        (y, m₁.right.store) := by
      rw [Store.enter, paired.active]
      exact right
    have kept : m₁.left.store.active = Store.entry rule c :: m.left.store.active := active
    have entry : (Store.entry rule c).rename m₁.rename = Store.entry (m.rename rule) c := by
      rw [← onward.rename rule bound']
      rfl
    have entered' (e : Entry) (mem : e ∈ m.left.store.active) :=
      Nat.lt_of_lt_of_le (paired.entered e mem) onward.left.nextRule
    have keptRight : m₁.right.store.active = Store.entry (m.rename rule) c ::
        m.left.store.active.map (Entry.rename m₁.rename) := by
      rw [paired₁.active, kept, List.map_cons, entry]
    rw [runLeft, runRight, Store.leave_of_active kept, Store.leave_of_active keptRight]
    exact ⟨_, x, y, Matching.le_trans onward (m₁.le_withActive _ _), paired₁.withActive entered',
      rfl, rfl, rfl, same, fun _ _ => trivial⟩

/-- With fuel `n`, grammars are parsed alike as they are on the left, and on the right under the
names of their counterparts. -/
def Holds (base now : World) (n : Nat) : Prop :=
  ∀ {m₀ : Matching base} {t : Term}, m₀.Knows t →
    (agreeing now m₀).Parsers (fun _ => t.parse n) fun _ => (t.rename m₀.rename).parse n

variable {n : Nat} {m₀ : Matching base} {scope : Scope}

theorem bind (ih : Holds base now n) {p : Term} {next : Chooser}
    (knows : m₀.Knows (.bind p next scope)) :
    (agreeing now m₀).Parsers (fun _ => (Term.bind p next scope).parse (n + 1))
      fun _ => ((Term.bind p next scope).rename m₀.rename).parse (n + 1) := by
  have first : m₀.Knows p := ⟨knows.1.1, knows.2.1⟩
  refine Judgement.andThen (ih first) fun v c hc k m from₀ paired => ?_
  have names : scope.rename m.rename = scope.rename m₀.rename :=
    Scope.Known.rename_congr knows.1.2 from₀.rename
  have known := World.scope_later from₀.left knows.1.2
  have known' := World.scope_later from₀.right knows.2.2
  rw [← names] at known'
  obtain ⟨m₁, later, paired₁, active, storeLeft, storeRight, term, knowsQ⟩ :=
    paired.exists_choice next v known known'
  rw [names] at storeRight term
  obtain ⟨m₂, x, y, later₂, paired₂, active₂, rest⟩ := ih knowsQ c hc k m₁ m₁.le_refl paired₁
  dsimp only [Machine.guarding, id] at rest ⊢
  rw [Step.bind_of_ok (Store.build_apply next scope v m.left.store), ← storeLeft,
    Step.bind_of_ok (Store.build_apply next _ v m.right.store), ← storeRight, term]
  exact ⟨m₂, x, y, Matching.le_trans later later₂, paired₂, active₂.trans active, rest⟩

theorem rule (ih : Holds base now n) {h : Handle} (knows : m₀.Knows (.rule h)) :
    (agreeing now m₀).Parsers (fun _ => (Term.rule h).parse (n + 1))
      fun _ => ((Term.rule h).rename m₀.rename).parse (n + 1) := by
  intro c hc k m from₀ paired
  have old : h.rule.number < m₀.left.store.nextRule := knows.1.1
  have bound := Nat.lt_of_lt_of_le old from₀.left.nextRule
  have same := m.definition h.rule bound
  rw [from₀.rename _ old] at same
  dsimp only [Term.rename, Handle.rename]
  rw [Term.parse_rule, Term.parse_rule]
  cases onLeft : m.left.store.definition? h.rule with
  | none =>
    rw [onLeft] at same
    rw [Step.bind_of_error (Store.definition_of_none onLeft),
      Step.bind_of_error (Store.definition_of_none same)]
    exact ⟨m, _, _, m.le_refl, paired, rfl, rfl, rfl, rfl, nofun⟩
  | some q =>
    rw [onLeft] at same
    have knowsQ : m.Knows q := ⟨(m.left.cells _ q onLeft).2, (m.right.cells _ _ same).2⟩
    rw [Step.bind_of_ok (Store.definition_of_some onLeft),
      Step.bind_of_ok (Store.definition_of_some same), ← from₀.rename _ old]
    exact guard bound (ih knowsQ) c hc k m m.le_refl paired

theorem reference (act : base.Act now) (ih : Holds base now n) {id : RuleId} {body : Node}
    (knows : m₀.Knows (.reference id body scope)) :
    (agreeing now m₀).Parsers (fun _ => (Term.reference id body scope).parse (n + 1))
      fun _ => ((Term.reference id body scope).rename m₀.rename).parse (n + 1) := by
  intro c hc k m from₀ paired
  obtain ⟨knowsM, names⟩ := knows.later from₀
  have bound : id.number < m.left.store.nextRule := knowsM.1.1.1
  obtain ⟨m₁, q, later, paired₁, left, right, knowsQ⟩ := paired.exists_resolve act knowsM
  have active := Store.resolve_active id body scope m.left.store
  rw [left] at active
  obtain ⟨m₂, x, y, later₂, paired₂, active₂, rest⟩ :=
    guard (Nat.lt_of_lt_of_le bound later.left.nextRule) (ih knowsQ) c hc k m₁ m₁.le_refl paired₁
  rw [later.rename id bound] at rest
  rw [← names]
  dsimp only [Term.rename]
  rw [Term.parse_reference, Step.bind_of_ok left, Term.parse_reference, Step.bind_of_ok right]
  exact ⟨m₂, x, y, Matching.le_trans later later₂, paired₂, active₂.trans active, rest⟩

theorem parse (act : base.Act now) (n : Nat) : Holds base now n := by
  induction n with
  | zero =>
    intro _ _ _ c _ k m _ paired
    exact ⟨m, _, _, m.le_refl, paired, rfl, rfl, rfl, rfl, nofun⟩
  | succ n ih =>
    intro m₀ t knows
    have fuel : (agreeing now m₀).Fuels n n := spent m₀ n
    cases t with
    | leaf a => exact Judgement.atom a fun _ _ _ _ => trivial
    | unary op p => exact Judgement.unary (ih (t := p) knows) fuel op
    | binary op p q =>
      exact Judgement.binary (ih (t := p) ⟨knows.1.1, knows.2.1⟩)
        (ih (t := q) ⟨knows.1.2, knows.2.2⟩) fuel op
    | between first inner last =>
      exact Judgement.between (ih (t := first) ⟨knows.1.1, knows.2.1⟩)
        (ih (t := inner) ⟨knows.1.2.1, knows.2.2.1⟩) (ih (t := last) ⟨knows.1.2.2, knows.2.2.2⟩)
    | bind p next scope => exact bind ih knows
    | rule h => exact rule ih knows
    | reference id body scope => exact reference act ih knows

end agreeing

/-- After an act a parse comes to the same as before. -/
theorem World.Act.parse_agrees {w w' : World} (act : w.Act w') {t : Term}
    (known : t.Known w.catalog w.store.nextRule) {active : List Entry}
    (entered : ∀ e ∈ active, e.rule.number < w.store.nextRule) (n : Nat) (c : Cursor) :
    (t.parse n c (w'.store.withActive active)).1.mapError Halt.unnumbered =
      (t.parse n c (w.store.withActive active)).1.mapError Halt.unnumbered := by
  have act' := act.under active
  have same : t.rename (Matching.start act'.later).rename = t := t.rename_id
  have knows : (Matching.start act'.later).Knows t := by
    refine ⟨known, ?_⟩
    rw [same]
    exact World.known_later act.later known
  have judged := agreeing.parse act' n knows c trivial 0 _ (Matching.le_refl _)
    (Matching.paired_start act'.later rfl entered)
  rw [same] at judged
  obtain ⟨m, x, y, -, -, -, left, right, agree, -⟩ := judged
  have before : t.parse n c (w.store.withActive active) = (x, m.left.store) := left
  have after : t.parse n c (w'.store.withActive active) = (y, m.right.store) := right
  rw [before, after]
  exact agree

/-- However much has been done in between, a parse comes to the same as before. -/
theorem World.History.parse_agrees {w w' : World} (history : w.History w') {t : Term}
    (known : t.Known w.catalog w.store.nextRule) {active : List Entry}
    (entered : ∀ e ∈ active, e.rule.number < w.store.nextRule) (n : Nat) (c : Cursor) :
    (t.parse n c (w'.store.withActive active)).1.mapError Halt.unnumbered =
      (t.parse n c (w.store.withActive active)).1.mapError Halt.unnumbered := by
  induction history with
  | refl => rfl
  | tail history act ih =>
    have later := World.History.later history
    have agree := act.parse_agrees (World.known_later later known)
      (fun e mem => Nat.lt_of_lt_of_le (entered e mem) later.nextRule) n c
    exact agree.trans ih

end Descent
