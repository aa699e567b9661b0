import Descent.Grammar.Ownership

/-!
What survives a release. The rounds of removal end with the greatest set of identities that each
have an owner outside or in the set.
Main statements: `mem_kept`, the set is closed under ownership, and `Supports.kept`, it contains
every set that supports itself.
-/

namespace Descent

namespace Store

/-- The rule has a cell: it was created and has not been released. -/
def alive (s : Store) (id : RuleId) : Bool := (s.cells.lookup id).isSome

variable {s : Store} {outside ids : List RuleId} {id : RuleId}

theorem alive_of_definition {q : Term} (found : s.definition? id = some q) : s.alive id := by
  rw [definition?] at found
  cases cell : s.cells.lookup id with
  | none =>
    rw [cell] at found
    cases found
  | some content => simp [alive, cell]

theorem isDefined_iff : s.isDefined id ↔ ∃ q, s.definition? id = some q := Option.isSome_iff_exists

section Lookup

variable {α : Type}

theorem lookup_isSome_iff (l : List (RuleId × α)) : (l.lookup id).isSome ↔ id ∈ l.map (·.1) := by
  induction l with
  | nil => simp
  | cons entry rest ih =>
    obtain ⟨r, a⟩ := entry
    by_cases same : id = r
    · subst same
      simp
    · have differs : (id == r) = false := by simpa using same
      simp only [List.lookup_cons, differs, ih, List.map_cons, List.mem_cons, same, false_or]

theorem lookup_filter_of_mem (l : List (RuleId × α)) (mem : id ∈ ids) :
    (l.filter (·.1 ∈ ids)).lookup id = l.lookup id := by
  induction l with
  | nil => rfl
  | cons entry rest ih =>
    obtain ⟨r, a⟩ := entry
    by_cases same : id = r
    · subst same
      simp [mem]
    · have differs : (id == r) = false := by simpa using same
      by_cases kept : r ∈ ids <;> simpa [kept, List.lookup_cons, differs] using ih

theorem lookup_filter_of_notMem (l : List (RuleId × α)) (released : id ∉ ids) :
    (l.filter (·.1 ∈ ids)).lookup id = none := by
  rw [← Option.not_isSome_iff_eq_none, lookup_isSome_iff]
  simp only [List.mem_map, List.mem_filter, decide_eq_true_eq]
  rintro ⟨entry, ⟨-, kept⟩, rfl⟩
  exact released kept

end Lookup

theorem mem_identities : id ∈ s.identities ↔ s.alive id ∨ ∃ q, s.resolved.lookup id = some q := by
  rw [identities, List.mem_append, ← lookup_isSome_iff, ← lookup_isSome_iff,
    Option.isSome_iff_exists (x := s.resolved.lookup id)]
  rfl

theorem mem_ownedBy {owner : RuleId} : id ∈ s.ownedBy owner ↔
    (∃ q, s.definition? owner = some q ∧ id ∈ q.owned) ∨
      ∃ q, s.resolved.lookup owner = some q ∧ id ∈ q.owned := by
  rw [ownedBy, List.mem_append]
  cases s.definition? owner <;> cases s.resolved.lookup owner <;> simp

section Rounds

theorem settle_subset (rounds : Nat) (mem : id ∈ s.settle outside rounds ids) : id ∈ ids := by
  induction rounds generalizing ids with
  | zero => exact mem
  | succ rounds ih =>
    rw [settle] at mem
    split at mem
    · exact mem
    · exact (mem_survivors.mp (ih mem)).1

/-- A round that removes nothing leaves what it was given. -/
theorem survivors_eq_of_length (same : (s.survivors outside ids).length = ids.length) :
    s.survivors outside ids = ids :=
  List.filter_eq_self.mpr (List.length_filter_eq_length_iff.mp same)

/-- As many rounds as there are identities are enough: every round but the last removes one. -/
theorem survivors_settle {rounds : Nat} (enough : ids.length ≤ rounds) :
    s.survivors outside (s.settle outside rounds ids) = s.settle outside rounds ids := by
  induction rounds generalizing ids with
  | zero =>
    obtain rfl : ids = [] := List.eq_nil_of_length_eq_zero (Nat.le_zero.mp enough)
    rfl
  | succ rounds ih =>
    rw [settle]
    split
    · next same => exact survivors_eq_of_length same
    · next fewer =>
      have le : (s.survivors outside ids).length ≤ ids.length := List.length_filter_le _ _
      exact ih (by omega)

/-- Each identity of `C` is there, and has an owner outside or in `C`. -/
def Supports (s : Store) (outside : List RuleId) (C : RuleId → Prop) : Prop :=
  ∀ id, C id → id ∈ s.identities ∧ (id ∈ outside ∨ ∃ owner, C owner ∧ id ∈ s.ownedBy owner)

theorem Supports.settle {C : RuleId → Prop} (supports : s.Supports outside C) (rounds : Nat)
    (among : ∀ id, C id → id ∈ ids) (h : C id) : id ∈ s.settle outside rounds ids := by
  induction rounds generalizing ids with
  | zero => exact among id h
  | succ rounds ih =>
    rw [Store.settle]
    split
    · exact among id h
    · refine ih fun other hother => mem_survivors.mpr ⟨among other hother, ?_⟩
      rcases (supports other hother).2 with held | ⟨owner, howner, owned⟩
      · exact Or.inl held
      · exact Or.inr ⟨owner, among owner howner, owned⟩

end Rounds

/-- What a release keeps. -/
def kept (s : Store) (outside : List RuleId) : List RuleId :=
  s.settle outside s.identities.length s.identities

theorem mem_kept : id ∈ s.kept outside ↔ id ∈ s.identities ∧
    (id ∈ outside ∨ ∃ owner ∈ s.kept outside, id ∈ s.ownedBy owner) := by
  have stable : s.survivors outside (s.kept outside) = s.kept outside :=
    survivors_settle (Nat.le_refl _)
  constructor
  · intro mem
    rw [← stable] at mem
    exact ⟨settle_subset _ (mem_survivors.mp mem).1, (mem_survivors.mp mem).2⟩
  · rintro ⟨there, owned⟩
    -- the kept identities together with this one support themselves
    have supports : s.Supports outside fun other => other ∈ s.kept outside ∨ other = id := by
      rintro other (old | rfl)
      · rw [← stable] at old
        obtain ⟨mem, held⟩ := mem_survivors.mp old
        exact ⟨settle_subset _ mem, held.imp_right fun ⟨owner, mem, owns⟩ =>
          ⟨owner, Or.inl mem, owns⟩⟩
      · exact ⟨there, owned.imp_right fun ⟨owner, mem, owns⟩ => ⟨owner, Or.inl mem, owns⟩⟩
    exact supports.settle _ (fun other h => (supports other h).1) (Or.inr rfl)

theorem Supports.kept {C : RuleId → Prop} (supports : s.Supports outside C) (h : C id) :
    id ∈ s.kept outside :=
  supports.settle _ (fun other hother => (supports other hother).1) h

section Release

theorem lookup_cells_release_of_mem (mem : id ∈ s.kept outside) :
    (s.release outside).cells.lookup id = s.cells.lookup id :=
  lookup_filter_of_mem s.cells mem

theorem lookup_resolved_release_of_mem (mem : id ∈ s.kept outside) :
    (s.release outside).resolved.lookup id = s.resolved.lookup id :=
  lookup_filter_of_mem s.resolved mem

theorem definition?_release_of_mem (mem : id ∈ s.kept outside) :
    (s.release outside).definition? id = s.definition? id := by
  rw [definition?, definition?, lookup_cells_release_of_mem mem]

theorem ownedBy_release_of_mem (mem : id ∈ s.kept outside) :
    (s.release outside).ownedBy id = s.ownedBy id := by
  rw [ownedBy, ownedBy, definition?_release_of_mem mem, lookup_resolved_release_of_mem mem]

theorem alive_release : (s.release outside).alive id ↔ id ∈ s.kept outside ∧ s.alive id := by
  by_cases mem : id ∈ s.kept outside
  · simp only [alive, lookup_cells_release_of_mem mem, mem, true_and]
  · have gone : (s.release outside).cells.lookup id = none := lookup_filter_of_notMem s.cells mem
    simp [alive, gone, mem]

theorem definition?_release_eq_some {q : Term} :
    (s.release outside).definition? id = some q ↔
      id ∈ s.kept outside ∧ s.definition? id = some q := by
  by_cases mem : id ∈ s.kept outside
  · simp only [definition?_release_of_mem mem, mem, true_and]
  · have gone : (s.release outside).cells.lookup id = none := lookup_filter_of_notMem s.cells mem
    simp [definition?, gone, mem]

theorem lookup_resolved_release_eq_some {q : Term} :
    (s.release outside).resolved.lookup id = some q ↔
      id ∈ s.kept outside ∧ s.resolved.lookup id = some q := by
  by_cases mem : id ∈ s.kept outside
  · simp only [lookup_resolved_release_of_mem mem, mem, true_and]
  · have gone : (s.release outside).resolved.lookup id = none :=
      lookup_filter_of_notMem s.resolved mem
    simp [gone, mem]

/-- After a release everything supports itself. -/
theorem release_supports (s : Store) (outside : List RuleId) :
    (s.release outside).Supports outside (· ∈ s.kept outside) := by
  intro id mem
  obtain ⟨there, held⟩ := mem_kept.mp mem
  refine ⟨mem_identities.mpr ?_, ?_⟩
  · rw [lookup_resolved_release_of_mem mem]
    exact (mem_identities.mp there).imp_left fun live => alive_release.mpr ⟨mem, live⟩
  · refine held.imp_right fun ⟨owner, howner, owns⟩ => ⟨owner, howner, ?_⟩
    rwa [ownedBy_release_of_mem howner]

end Release
end Store
end Descent
