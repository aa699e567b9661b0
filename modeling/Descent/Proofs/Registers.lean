import Descent.Proofs.Holding
import Descent.Session.Registry

/-!
Registries between their operations. What the registers hold is alive; and since the last settling
only grammars were built that no register holds, so a rule that a register leads to is alive exactly
if something holds it.
Main statements: every operation keeps a registry sound (`Follows`), and in a sound registry
`Sound.alive_iff_holds` tells who keeps a rule alive.
-/

namespace Descent

namespace Register

variable {α : Type} {r : Register α} {name other : String} {a b : α}

theorem mem_drop : (other, b) ∈ drop r name ↔ (other, b) ∈ r ∧ other ≠ name := by
  simp [drop]

theorem mem_put : (other, b) ∈ put r name a ↔
    (other = name ∧ b = a) ∨ ((other, b) ∈ r ∧ other ≠ name) := by
  simp [put, mem_drop]

theorem mem_of_lookup (found : r.lookup name = some a) : (name, a) ∈ r := by
  obtain ⟨before, after, eq, -⟩ := List.lookup_eq_some_iff.mp found
  rw [eq]
  simp

theorem lookup_put_self (r : Register α) (name : String) (a : α) :
    (put r name a).lookup name = some a :=
  List.lookup_cons_self

theorem lookup_drop_of_ne (r : Register α) (differs : other ≠ name) :
    (drop r name).lookup other = r.lookup other := by
  induction r with
  | nil => rfl
  | cons entry rest ih =>
    obtain ⟨own, a⟩ := entry
    by_cases dropped : own = name
    · subst dropped
      have ne : (other == own) = false := by simpa using differs
      simpa [drop, List.lookup_cons, ne] using ih
    · by_cases same : other = own
      · simp [drop, same, dropped]
      · have ne : (other == own) = false := by simpa using same
        simpa [drop, List.lookup_cons, ne, dropped] using ih

theorem lookup_put_of_ne (r : Register α) (a : α) (differs : other ≠ name) :
    (put r name a).lookup other = r.lookup other := by
  have ne : (other == name) = false := by simpa using differs
  rw [put, List.lookup_cons, ne]
  exact lookup_drop_of_ne r differs

end Register

namespace Store

/-- Rules that are alive and that each have an owner among them. -/
def SelfSupporting (s : Store) (C : RuleId → Prop) : Prop :=
  ∀ id, C id → s.alive id ∧ ∃ owner q, C owner ∧ s.definition? owner = some q ∧
    q.Contains ⟨id, true⟩

/-- What time does to a store: rules die and stay dead, and a definition lasts as long as its rule.
Rules that own each other do not die. -/
structure Ages (s s' : Store) : Prop where
  nextRule : s.nextRule ≤ s'.nextRule
  dead : ∀ id : RuleId, id.number < s.nextRule → s'.alive id → s.alive id
  definition : ∀ (id : RuleId) (q : Term), id.number < s.nextRule → s.definition? id = some q →
    s'.alive id → s'.definition? id = some q
  cycles : ∀ C : RuleId → Prop, s.SelfSupporting C → (∀ id, C id → id.number < s.nextRule) →
    ∀ id, C id → s'.alive id

variable {s s' s'' : Store} {id rule : RuleId}

namespace Ages

theorem refl (s : Store) : s.Ages s :=
  ⟨Nat.le_refl _, fun _ _ => id, fun _ _ _ found _ => found, fun _ self _ id h => (self id h).1⟩

theorem trans (first : s.Ages s') (rest : s'.Ages s'') : s.Ages s'' where
  nextRule := Nat.le_trans first.nextRule rest.nextRule
  dead id old live := first.dead id old (rest.dead id (Nat.lt_of_lt_of_le old first.nextRule) live)
  definition id q old found live := by
    have old' := Nat.lt_of_lt_of_le old first.nextRule
    exact rest.definition id q old' (first.definition id q old found (rest.dead id old' live)) live
  cycles C self old id h := by
    refine rest.cycles C (fun other hother => ?_)
      (fun other hother => Nat.lt_of_lt_of_le (old other hother) first.nextRule) id h
    obtain ⟨-, owner, q, howner, found, holds⟩ := self other hother
    exact ⟨first.cycles C self old other hother, owner, q, howner,
      first.definition owner q (old owner howner) found (first.cycles C self old owner howner),
      holds⟩

theorem of_continues (continues : s.Continues s') : s.Ages s' where
  nextRule := continues.nextRule
  dead id old live := by rwa [continues.alive old] at live
  definition id q old found _ := (continues.definition old).trans found
  cycles C self old id h := by
    rw [continues.alive (old id h)]
    exact (self id h).1

theorem setCell (undefined : s.definition? rule = none) (body : Term) :
    s.Ages (s.setCell rule body) where
  nextRule := Nat.le_refl _
  dead id _ live := by rwa [alive_setCell] at live
  definition id q _ found _ := by
    have differs : id ≠ rule := by
      rintro rfl
      cases undefined.symm.trans found
    rwa [definition?_setCell_of_ne _ _ differs]
  cycles C self _ id h := by
    rw [alive_setCell]
    exact (self id h).1

theorem release (s : Store) (outside : List RuleId) : s.Ages (s.release outside) where
  nextRule := Nat.le_refl _
  dead id _ live := (alive_release.mp live).2
  definition id q _ found live := definition?_release_eq_some.mpr ⟨(alive_release.mp live).1, found⟩
  cycles C self _ id h := by
    have supports : s.Supports outside C := by
      intro other hother
      obtain ⟨live, owner, q, howner, found, holds⟩ := self other hother
      exact ⟨mem_identities.mpr (.inl live), .inr ⟨owner, howner,
        mem_ownedBy.mpr (.inl ⟨q, found, Term.mem_owned.mpr (.inl holds)⟩)⟩⟩
    exact alive_release.mpr ⟨supports.kept h, (self id h).1⟩

end Ages

end Store

namespace Registry

/-- Something keeps the rule: an owning handle in a register, in a parser, in what a reference has
been resolved to, or in the definition of a rule that is alive itself. -/
inductive Holds (r : Registry) (id : RuleId) : Prop
  | register {name : String} (mem : (name, ⟨id, true⟩) ∈ r.rules) : Holds r id
  | parser {name : String} {t : Term} (mem : (name, t) ∈ r.parsers) (held : t.Contains ⟨id, true⟩) :
    Holds r id
  | resolved {reference : RuleId} {t : Term} (found : r.store.resolved.lookup reference = some t)
    (held : t.Contains ⟨id, true⟩) : Holds r id
  | definition {owner : RuleId} {body : Term} (found : r.store.definition? owner = some body)
    (held : body.Contains ⟨id, true⟩) : Holds r id

/-- The registers lead to the handle: it is in a register or in a parser, or in the definition of a
rule that they lead to. -/
inductive Mentions (r : Registry) : Handle → Prop
  | register {name : String} {h : Handle} (mem : (name, h) ∈ r.rules) : Mentions r h
  | parser {name : String} {t : Term} {h : Handle} (mem : (name, t) ∈ r.parsers)
    (held : t.Contains h) : Mentions r h
  | definition {k h : Handle} {body : Term} (outer : Mentions r k)
    (found : r.store.definition? k.rule = some body) (held : body.Contains h) : Mentions r h

/-- The registers refer to what is there. -/
structure Closed (r : Registry) : Prop where
  store : r.store.Closed
  rules : ∀ name h, (name, h) ∈ r.rules → r.store.Backs h
  /-- A handle that does not own its rule is kept only when the rule has been defined. -/
  defined : ∀ name id, (name, ⟨id, false⟩) ∈ r.rules → r.store.alive id → r.store.isDefined id
  parsers : ∀ name t, (name, t) ∈ r.parsers → t.Secure r.store

/-- The rule belongs to a set that supports itself together with the registers. -/
def Rooted (r : Registry) (id : RuleId) : Prop := ∃ C, r.store.Supports r.owned C ∧ C id

/-- The registers lead to nothing that is younger than `bound`, and older rules are rooted. -/
structure SettledAt (r : Registry) (bound : Nat) : Prop where
  bound_le : bound ≤ r.store.nextRule
  rules : ∀ name h, (name, h) ∈ r.rules → h.rule.number < bound
  parsers : ∀ name t h, (name, t) ∈ r.parsers → t.Contains h → h.rule.number < bound
  definitions : ∀ (id : RuleId) (q : Term) (h : Handle), id.number < bound →
    r.store.definition? id = some q → q.Contains h → h.rule.number < bound
  rooted : ∀ id : RuleId, id.number < bound → r.store.alive id → r.Rooted id

structure Sound (r : Registry) : Prop extends r.Closed where
  settled : ∃ bound, r.SettledAt bound

variable {r : Registry} {id : RuleId} {h : Handle}

theorem mem_owned : id ∈ r.owned ↔
    (∃ name, (name, ⟨id, true⟩) ∈ r.rules) ∨ ∃ name t, (name, t) ∈ r.parsers ∧ id ∈ t.owned := by
  rw [owned, List.mem_append, List.mem_flatMap, List.mem_flatMap]
  refine or_congr ?_ ?_
  · constructor
    · rintro ⟨⟨name, rule, owning⟩, mem, held⟩
      cases owning with
      | false => simp at held
      | true =>
        obtain rfl : id = rule := by simpa using held
        exact ⟨name, mem⟩
    · rintro ⟨name, mem⟩
      exact ⟨_, mem, by simp⟩
  · constructor
    · rintro ⟨⟨name, t⟩, mem, held⟩
      exact ⟨name, t, mem, held⟩
    · rintro ⟨name, t, mem, held⟩
      exact ⟨_, mem, held⟩

namespace Closed

variable (closed : r.Closed)
include closed

theorem alive_of_holds (holds : r.Holds id) : r.store.alive id := by
  cases holds with
  | register mem => exact (closed.rules _ _ mem).2 rfl
  | parser mem held => exact ((closed.parsers _ _ mem).handles _ held).2 rfl
  | resolved found held => exact ((closed.store.resolved _ _ found).2.handles _ held).2 rfl
  | definition found held => exact ((closed.store.definitions _ _ found).handles _ held).2 rfl

omit closed in
/-- What owns a rule that is alive owns it through a handle, since no reference is a rule. -/
theorem contains_of_owned {t : Term} (secure : t.Secure r.store) (live : r.store.alive id)
    (owned : id ∈ t.owned) : t.Contains ⟨id, true⟩ :=
  (Term.mem_owned.mp owned).resolve_right fun held => (secure.references id held).2 live

theorem holds_of_rooted (live : r.store.alive id) (rooted : r.Rooted id) : r.Holds id := by
  obtain ⟨C, supports, h⟩ := rooted
  rcases (supports id h).2 with outside | ⟨owner, -, owned⟩
  · rcases mem_owned.mp outside with ⟨name, mem⟩ | ⟨name, t, mem, owned⟩
    · exact .register mem
    · exact .parser mem (contains_of_owned (closed.parsers _ _ mem) live owned)
  · rcases Store.mem_ownedBy.mp owned with ⟨q, found, owned⟩ | ⟨q, found, owned⟩
    · exact .definition found
        (contains_of_owned (closed.store.definitions _ _ found) live owned)
    · exact .resolved found
        (contains_of_owned (closed.store.resolved _ _ found).2 live owned)

end Closed

theorem SettledAt.lt_of_mentions {bound : Nat} (settled : r.SettledAt bound)
    (mentions : r.Mentions h) : h.rule.number < bound := by
  induction mentions with
  | register mem => exact settled.rules _ _ mem
  | parser mem held => exact settled.parsers _ _ _ mem held
  | definition _ found held ih => exact settled.definitions _ _ _ ih found held

namespace Sound

variable (sound : r.Sound)
include sound

theorem rooted_of_mentions (mentions : r.Mentions h) (live : r.store.alive h.rule) :
    r.Rooted h.rule := by
  obtain ⟨bound, settled⟩ := sound.settled
  exact settled.rooted _ (settled.lt_of_mentions mentions) live

/-- A rule that the registers lead to is alive exactly if something holds it. -/
theorem alive_iff_holds (mentions : r.Mentions h) : r.store.alive h.rule ↔ r.Holds h.rule :=
  ⟨fun live => sound.holds_of_rooted live (sound.rooted_of_mentions mentions live),
    sound.alive_of_holds⟩

end Sound

section Settle

/-- What the registers own from outside is kept if it is there. -/
theorem mem_kept_of_owned (there : id ∈ r.store.identities) (owned : id ∈ r.owned) :
    id ∈ r.store.kept r.owned :=
  Store.mem_kept.mpr ⟨there, .inl owned⟩

theorem Rooted.mem_kept (rooted : r.Rooted id) : id ∈ r.store.kept r.owned := by
  obtain ⟨C, supports, h⟩ := rooted
  exact supports.kept h

theorem Rooted.alive_settle (rooted : r.Rooted id) (live : r.store.alive id) :
    r.settle.store.alive id :=
  Store.alive_release.mpr ⟨rooted.mem_kept, live⟩

theorem ages_settle (r : Registry) : r.store.Ages r.settle.store := .release r.store r.owned

/-- What is owned by something that is kept stays backed. -/
theorem secure_settle {t : Term} (secure : t.Secure r.store)
    (owner : ∀ id, id ∈ t.owned → id ∈ r.store.identities → id ∈ r.store.kept r.owned) :
    t.Secure r.settle.store where
  handles h held := by
    obtain ⟨given, live⟩ := secure.handles h held
    refine ⟨given, fun owning => ?_⟩
    obtain ⟨id, own⟩ := h
    obtain rfl : own = true := owning
    have live := live rfl
    exact Store.alive_release.mpr ⟨owner id (Term.mem_owned.mpr (.inl held))
      (Store.mem_identities.mpr (.inl live)), live⟩
  references id held := by
    obtain ⟨given, dead⟩ := secure.references id held
    exact ⟨given, fun live => dead (Store.alive_release.mp live).2⟩

theorem Closed.settle (closed : r.Closed) : r.settle.Closed where
  store := by
    refine ⟨fun id live => closed.store.cells id (Store.alive_release.mp live).2,
      fun id q found => ?_, fun id q found => ?_⟩
    · obtain ⟨mem, before⟩ := Store.definition?_release_eq_some.mp found
      exact secure_settle (closed.store.definitions id q before) fun other owned there =>
        Store.mem_kept.mpr ⟨there, .inr ⟨id, mem, Store.mem_ownedBy.mpr (.inl ⟨q, before, owned⟩)⟩⟩
    · obtain ⟨mem, before⟩ := Store.lookup_resolved_release_eq_some.mp found
      obtain ⟨made, secure⟩ := closed.store.resolved id q before
      refine ⟨⟨made.1, fun live => made.2 (Store.alive_release.mp live).2⟩, ?_⟩
      exact secure_settle secure fun other owned there =>
        Store.mem_kept.mpr ⟨there, .inr ⟨id, mem, Store.mem_ownedBy.mpr (.inr ⟨q, before, owned⟩)⟩⟩
  rules name h mem := by
    obtain ⟨given, live⟩ := closed.rules name h mem
    refine ⟨given, fun owning => ?_⟩
    obtain ⟨id, own⟩ := h
    obtain rfl : own = true := owning
    have live := live rfl
    exact Store.alive_release.mpr ⟨mem_kept_of_owned (Store.mem_identities.mpr (.inl live))
      (mem_owned.mpr (.inl ⟨name, mem⟩)), live⟩
  defined name id mem live := by
    obtain ⟨kept, before⟩ := Store.alive_release.mp live
    obtain ⟨q, found⟩ := Store.isDefined_iff.mp (closed.defined name id mem before)
    exact Store.isDefined_iff.mpr ⟨q, Store.definition?_release_eq_some.mpr ⟨kept, found⟩⟩
  parsers name t mem := secure_settle (closed.parsers name t mem) fun _ owned there =>
    mem_kept_of_owned there (mem_owned.mpr (.inr ⟨name, t, mem, owned⟩))

/-- Everything that survives a settling is rooted. -/
theorem rooted_settle (live : r.settle.store.alive id) :
    r.settle.Rooted id :=
  ⟨_, Store.release_supports r.store r.owned, (Store.alive_release.mp live).1⟩

/-- A registry that has just been settled is sound. -/
theorem Closed.settle_sound (closed : r.Closed) : r.settle.Sound where
  toClosed := closed.settle
  settled := by
    refine ⟨r.store.nextRule, Nat.le_refl _, fun name h mem => (closed.rules name h mem).1,
      fun name t h mem held => ((closed.parsers name t mem).handles h held).1,
      fun id q h _ found held => ?_, fun id _ live => ?_⟩
    · obtain ⟨-, before⟩ := Store.definition?_release_eq_some.mp found
      exact ((closed.store.definitions id q before).handles h held).1
    · exact rooted_settle live

end Settle

section Operations

variable {s : Store}

/-- A registry with another store. -/
def rebase (r : Registry) (s : Store) : Registry := { r with store := s }

theorem Closed.rebase (closed : r.Closed) (continues : r.store.Continues s) (there : s.Closed) :
    (r.rebase s).Closed where
  store := there
  rules name h mem := continues.backs (closed.rules name h mem)
  defined name id mem live := by
    have given := (closed.rules name _ mem).1
    rw [Registry.rebase, continues.alive given] at live
    rw [Registry.rebase, Store.isDefined, continues.definition given]
    exact closed.defined name id mem live
  parsers name t mem := (closed.parsers name t mem).later continues

theorem Rooted.rebase (there : r.store.Closed) (continues : r.store.Continues s)
    (rooted : r.Rooted id) : (r.rebase s).Rooted id := by
  obtain ⟨C, supports, h⟩ := rooted
  refine ⟨C, fun other hother => ?_, h⟩
  have later {id : RuleId} (live : r.store.alive id) : s.alive id := by
    rwa [continues.alive (there.cells id live)]
  obtain ⟨mem, held⟩ := supports other hother
  refine ⟨Store.mem_identities.mpr ((Store.mem_identities.mp mem).imp later ?_),
    held.imp_right ?_⟩
  · rintro ⟨q, found⟩
    exact ⟨q, continues.resolved _ _ found⟩
  · rintro ⟨owner, howner, owned⟩
    refine ⟨owner, howner, Store.mem_ownedBy.mpr ((Store.mem_ownedBy.mp owned).imp ?_ ?_)⟩
    · rintro ⟨q, found, held⟩
      have given := there.cells owner (Store.alive_of_definition found)
      exact ⟨q, (continues.definition given).trans found, held⟩
    · rintro ⟨q, found, held⟩
      exact ⟨q, continues.resolved _ _ found, held⟩

/-- Grammars that are built and parses do not disturb a registry. -/
theorem Sound.rebase (sound : r.Sound) (continues : r.store.Continues s) (there : s.Closed) :
    (r.rebase s).Sound where
  toClosed := sound.toClosed.rebase continues there
  settled := by
    obtain ⟨bound, settled⟩ := sound.settled
    have old {id : RuleId} (below : id.number < bound) : id.number < r.store.nextRule :=
      Nat.lt_of_lt_of_le below settled.bound_le
    refine ⟨bound, Nat.le_trans settled.bound_le continues.nextRule, settled.rules,
      settled.parsers, fun id q h below found held => ?_, fun id below live => ?_⟩
    · exact settled.definitions id q h below ((continues.definition (old below)).symm.trans found)
        held
    · rw [Registry.rebase, continues.alive (old below)] at live
      exact (settled.rooted id below live).rebase sound.store continues

/-- Defining a rule that is not defined. -/
theorem Closed.setCell (closed : r.Closed) (rule : RuleId) {body : Term}
    (secure : body.Secure r.store) : (r.rebase (r.store.setCell rule body)).Closed where
  store := closed.store.setCell secure
  rules name h mem := by
    obtain ⟨given, live⟩ := closed.rules name h mem
    refine ⟨given, fun owning => ?_⟩
    rw [Registry.rebase, Store.alive_setCell]
    exact live owning
  defined name id mem live := by
    rw [Registry.rebase, Store.alive_setCell] at live
    obtain ⟨q, found⟩ := Store.isDefined_iff.mp (closed.defined name id mem live)
    by_cases same : id = rule
    · subst same
      obtain ⟨cell, present⟩ := Option.isSome_iff_exists.mp live
      exact Store.isDefined_iff.mpr ⟨body, Store.definition?_setCell_self body present⟩
    · rw [Registry.rebase, Store.isDefined, Store.definition?_setCell_of_ne _ _ same, found]
      rfl
  parsers name t mem := Store.secure_setCell.mpr (closed.parsers name t mem)

theorem Closed.putRule (closed : r.Closed) (name : String) (backed : r.store.Backs h)
    (defined : r.store.alive h.rule → h.owning ∨ r.store.isDefined h.rule) :
    { r with rules := Register.put r.rules name h : Registry }.Closed where
  store := closed.store
  rules other k mem := by
    rcases Register.mem_put.mp mem with ⟨-, rfl⟩ | ⟨before, -⟩
    · exact backed
    · exact closed.rules other k before
  defined other id mem live := by
    rcases Register.mem_put.mp mem with ⟨-, rfl⟩ | ⟨before, -⟩
    · exact (defined live).resolve_left Bool.false_ne_true
    · exact closed.defined other id before live
  parsers := closed.parsers

theorem Closed.dropRule (closed : r.Closed) (name : String) :
    { r with rules := Register.drop r.rules name : Registry }.Closed where
  store := closed.store
  rules other k mem := closed.rules other k (Register.mem_drop.mp mem).1
  defined other id mem := closed.defined other id (Register.mem_drop.mp mem).1
  parsers := closed.parsers

theorem Closed.putParser (closed : r.Closed) (name : String) {t : Term}
    (secure : t.Secure r.store) :
    { r with parsers := Register.put r.parsers name t : Registry }.Closed where
  store := closed.store
  rules := closed.rules
  defined := closed.defined
  parsers other u mem := by
    rcases Register.mem_put.mp mem with ⟨-, rfl⟩ | ⟨before, -⟩
    · exact secure
    · exact closed.parsers other u before

/-- The registers of rules are a secure scope for every grammar. -/
theorem Closed.scope_secure (closed : r.Closed) (names : String → Prop) :
    r.scope.Secure r.store names := by
  rintro h ⟨name, -, found⟩
  exact closed.rules name h (Register.mem_of_lookup found)

/-- Building a grammar whose names are in scope. -/
theorem Closed.build (closed : r.Closed) {scope : Scope} (node : Node)
    (inScope : scope.Secure r.store node.Names) :
    (r.rebase (node.build scope r.store).2).Closed ∧
      (node.build scope r.store).1.Secure (node.build scope r.store).2 := by
  have built := node.build_secure scope closed.store inScope
  exact ⟨closed.rebase built.continues built.closed, built.secure⟩

/-- What an operation makes of a registry: a sound one whose store is older, with the same rules
under all but some names. -/
structure Follows (r : Registry) (names : List String) (r' : Registry) : Prop where
  sound : r'.Sound
  ages : r.store.Ages r'.store
  rules : ∀ name, name ∉ names → r'.rules.lookup name = r.rules.lookup name

namespace Follows

variable {r' r'' : Registry} {names : List String}

theorem refl (sound : r.Sound) : r.Follows names r := ⟨sound, .refl r.store, fun _ _ => rfl⟩

theorem trans (first : r.Follows names r') (rest : r'.Follows names r'') :
    r.Follows names r'' where
  sound := rest.sound
  ages := first.ages.trans rest.ages
  rules name other := (rest.rules name other).trans (first.rules name other)

theorem mono {more : List String} (follows : r.Follows names r')
    (among : ∀ name ∈ names, name ∈ more) : r.Follows more r' :=
  ⟨follows.sound, follows.ages, fun name other =>
    follows.rules name fun named => other (among name named)⟩

theorem rebase (sound : r.Sound) (continues : r.store.Continues s) (there : s.Closed) :
    r.Follows names (r.rebase s) :=
  ⟨sound.rebase continues there, .of_continues continues, fun _ _ => rfl⟩

theorem settle (closed : r'.Closed) (ages : r.store.Ages r'.store)
    (rules : ∀ name, name ∉ names → r'.rules.lookup name = r.rules.lookup name) :
    r.Follows names r'.settle :=
  ⟨closed.settle_sound, ages.trans r'.ages_settle, rules⟩

end Follows

theorem declare_follows (sound : r.Sound) (name : String) :
    r.Follows [name] (declare name r).2 := by
  have declared := Store.Continues.of_grows (Store.declare_grows r.store)
  have closed := sound.toClosed.rebase declared sound.store.declare
  exact .settle (closed.putRule name ⟨Nat.lt_succ_self _, fun _ => Store.alive_declare r.store⟩
    fun _ => .inl rfl) (.of_continues declared) fun other apart =>
      Register.lookup_put_of_ne r.rules _ (List.ne_of_not_mem_cons apart)

/-- Defining a rule is refused if the rule is not alive or has a definition. The grammar is built in
any case, and let go of if it is refused. -/
theorem define_cases (h : Handle) (node : Node) (given : h.rule.number < r.store.nextRule) :
    let built := node.build r.scope r.store
    (¬ r.store.alive h.rule ∧
      define h node r = (.error (.undefinedRule h.rule), (r.rebase built.2).settle)) ∨
    (r.store.isDefined h.rule ∧
      define h node r = (.error (.ruleRedefined h.rule), (r.rebase built.2).settle)) ∨
    (r.store.alive h.rule ∧ r.store.definition? h.rule = none ∧
      define h node r = (.ok (), (r.rebase (built.2.setCell h.rule built.1)).settle)) := by
  intro built
  have same : built.2.cells.lookup h.rule = r.store.cells.lookup h.rule :=
    (node.build_grows r.scope r.store).cells h.rule given
  rw [Store.alive, Store.isDefined, Store.definition?]
  rcases cell : r.store.cells.lookup h.rule with - | - | body
  · exact .inl ⟨Bool.false_ne_true, define_of_error (by rw [Store.define, same, cell])⟩
  · exact .inr (.inr ⟨rfl, rfl, define_of_ok (by rw [Store.define, same, cell])⟩)
  · exact .inr (.inl ⟨rfl, define_of_error (by rw [Store.define, same, cell])⟩)

theorem define_follows (sound : r.Sound) (h : Handle) (node : Node)
    (given : h.rule.number < r.store.nextRule) : r.Follows [] (define h node r).2 := by
  obtain ⟨closed, secure⟩ := sound.toClosed.build node (sound.scope_secure _)
  have continues := Store.Continues.of_grows (node.build_grows r.scope r.store)
  have built := Store.Ages.of_continues continues
  rcases define_cases h node given with ⟨-, eq⟩ | ⟨-, eq⟩ | ⟨-, undefined, eq⟩ <;> rw [eq]
  · exact .settle closed built fun _ _ => rfl
  · exact .settle closed built fun _ _ => rfl
  · exact .settle (closed.setCell h.rule secure)
      (built.trans (.setCell ((continues.definition given).trans undefined) _)) fun _ _ => rfl

/-- The register of rules after a recursive rule has been made. -/
def bindRecursive (rules : Register Handle) (name : String) (weak : Option String) (rule : RuleId) :
    Register Handle :=
  match weak with
  | some other => Register.put (Register.put rules name ⟨rule, true⟩) other ⟨rule, false⟩
  | none => Register.put rules name ⟨rule, true⟩

theorem recursive_apply (name : String) (node : Node) (weak : Option String) (r : Registry) :
    recursive name node weak r =
      let rule : RuleId := ⟨r.store.nextRule⟩
      let built := node.build (r.scope.bindRule name ⟨rule, false⟩) (Store.declare r.store).2
      (rule, { r.rebase (built.2.setCell rule built.1) with
        rules := bindRecursive r.rules name weak rule : Registry }.settle) := rfl

/-- The grammar of a recursive rule is its definition, even before the rule is settled. -/
theorem definition?_recursive (name : String) (node : Node) (r : Registry) :
    let rule : RuleId := ⟨r.store.nextRule⟩
    let built := node.build (r.scope.bindRule name ⟨rule, false⟩) (Store.declare r.store).2
    (built.2.setCell rule built.1).definition? rule = some built.1 := by
  intro rule built
  have grows := node.build_grows (r.scope.bindRule name ⟨rule, false⟩) (Store.declare r.store).2
  exact Store.definition?_setCell_self built.1
    ((grows.cells rule (Nat.lt_succ_self _)).trans List.lookup_cons_self)

/-- If a recursive rule is alive, it is defined. It is not alive if its only name was given to the
handle that does not own it. -/
theorem recursive_isDefined (name : String) (node : Node) (weak : Option String) (r : Registry)
    (live : (recursive name node weak r).2.store.alive (recursive name node weak r).1) :
    (recursive name node weak r).2.store.isDefined (recursive name node weak r).1 := by
  rw [recursive_apply] at live ⊢
  exact Store.isDefined_iff.mpr ⟨_, Store.definition?_release_eq_some.mpr
    ⟨(Store.alive_release.mp live).1, definition?_recursive name node r⟩⟩

theorem recursive_follows (sound : r.Sound) (name : String) (node : Node) (weak : Option String) :
    r.Follows (name :: weak.toList) (recursive name node weak r).2 := by
  let rule : RuleId := ⟨r.store.nextRule⟩
  let scope := r.scope.bindRule name ⟨rule, false⟩
  have declared := Store.Continues.of_grows (Store.declare_grows r.store)
  have inScope : scope.Secure (Store.declare r.store).2 node.Names :=
    (sound.scope_secure _).bindRule
  obtain ⟨closed, secure⟩ :=
    (sound.toClosed.rebase declared sound.store.declare).build node inScope
  have grows := node.build_grows scope (Store.declare r.store).2
  have continues := (declared.trans (.of_grows grows)).setCell_new rule (Nat.le_refl _)
    (node.build scope (Store.declare r.store).2).1
  have found := definition?_recursive name node r
  have backed (owning : Bool) : ((node.build scope (Store.declare r.store).2).2.setCell rule
      (node.build scope (Store.declare r.store).2).1).Backs ⟨rule, owning⟩ :=
    ⟨Nat.lt_of_lt_of_le (Nat.lt_succ_self _) grows.nextRule,
      fun _ => Store.alive_of_definition found⟩
  have defined := (closed.setCell rule secure).putRule name (backed true)
    fun _ => .inl rfl
  rw [recursive_apply]
  cases weak with
  | none =>
    exact .settle defined (.of_continues continues) fun _ apart =>
      Register.lookup_put_of_ne r.rules _ (List.ne_of_not_mem_cons apart)
  | some other =>
    have both := defined.putRule other (backed false) fun _ =>
      .inr (Store.isDefined_iff.mpr ⟨_, found⟩)
    refine .settle both (.of_continues continues) fun _ apart => ?_
    obtain ⟨notName, apart⟩ := List.ne_and_not_mem_of_not_mem_cons apart
    exact (Register.lookup_put_of_ne _ _ (List.ne_of_not_mem_cons apart)).trans
      (Register.lookup_put_of_ne r.rules _ notName)

theorem clone_follows (sound : r.Sound) {name other : String} {h : Handle}
    (found : r.rules.lookup other = some h) : r.Follows [name] (clone name h r).2 := by
  have mem := Register.mem_of_lookup found
  refine .settle (sound.toClosed.putRule name (sound.rules other h mem) fun live => ?_) (.refl _)
    fun _ apart => Register.lookup_put_of_ne r.rules h (List.ne_of_not_mem_cons apart)
  obtain ⟨rule, owning⟩ := h
  cases owning with
  | true => exact .inl rfl
  | false => exact .inr (sound.defined other rule mem live)

theorem drop_follows (sound : r.Sound) (name : String) : r.Follows [name] (drop name r).2 :=
  .settle (sound.toClosed.dropRule name) (.refl _) fun _ apart =>
    Register.lookup_drop_of_ne r.rules (List.ne_of_not_mem_cons apart)

theorem parser_follows (sound : r.Sound) (name : String) (node : Node) :
    r.Follows [] (parser name node r).2 := by
  obtain ⟨closed, secure⟩ := sound.toClosed.build node (sound.scope_secure _)
  exact .settle (closed.putParser name secure)
    (.of_continues (.of_grows (node.build_grows r.scope r.store))) fun _ _ => rfl

theorem freshReference_follows (sound : r.Sound) : r.Follows [] (freshReference r).2 :=
  .rebase sound (.fresh r.store) sound.store.fresh

theorem parse_follows (sound : r.Sound) {t : Term} (secure : t.Secure r.store) (c : Cursor) :
    r.Follows [] (r.rebase (t.parseFrom c r.store).2) := by
  obtain ⟨there, continues⟩ := Term.parseFrom_secure secure sound.store c
  exact .rebase sound continues there

section Define

/-- Defining a rule that is not defined keeps what is rooted. -/
theorem Rooted.setCell (rooted : r.Rooted id) {rule : RuleId}
    (undefined : r.store.definition? rule = none) (body : Term) :
    (r.rebase (r.store.setCell rule body)).Rooted id := by
  obtain ⟨C, supports, h⟩ := rooted
  refine ⟨C, fun other hother => ?_, h⟩
  obtain ⟨mem, held⟩ := supports other hother
  refine ⟨Store.mem_identities.mpr ((Store.mem_identities.mp mem).imp_left ?_),
    held.imp_right ?_⟩
  · intro live
    rwa [Registry.rebase, Store.alive_setCell]
  · rintro ⟨owner, howner, owned⟩
    refine ⟨owner, howner, Store.mem_ownedBy.mpr ((Store.mem_ownedBy.mp owned).imp_left ?_)⟩
    rintro ⟨q, found, held⟩
    have differs : owner ≠ rule := by
      rintro rfl
      cases undefined.symm.trans found
    exact ⟨q, (Store.definition?_setCell_of_ne _ _ differs).trans found, held⟩

/-- No rule that the registers lead to dies by a definition, given or refused. -/
theorem define_alive (sound : r.Sound) (node : Node) (given : h.rule.number < r.store.nextRule)
    {k : Handle} (mentions : r.Mentions k) (live : r.store.alive k.rule) :
    (define h node r).2.store.alive k.rule := by
  have continues := Store.Continues.of_grows (node.build_grows r.scope r.store)
  have rooted := (sound.rooted_of_mentions mentions live).rebase sound.store continues
  have live : (r.rebase (node.build r.scope r.store).2).store.alive k.rule := by
    rwa [Registry.rebase, continues.alive (sound.store.cells _ live)]
  rcases define_cases h node given with ⟨-, eq⟩ | ⟨-, eq⟩ | ⟨-, undefined, eq⟩ <;> rw [eq]
  · exact rooted.alive_settle live
  · exact rooted.alive_settle live
  · refine (rooted.setCell ((continues.definition given).trans undefined) _).alive_settle ?_
    rwa [Registry.rebase, Registry.rebase, Store.alive_setCell]

/-- A definition that is accepted is in force afterwards. -/
theorem define_isDefined (sound : r.Sound) (node : Node) (mentions : r.Mentions h)
    (given : h.rule.number < r.store.nextRule) (accepted : (define h node r).1 = .ok ()) :
    (define h node r).2.store.isDefined h.rule := by
  have continues := Store.Continues.of_grows (node.build_grows r.scope r.store)
  rcases define_cases h node given with ⟨-, eq⟩ | ⟨-, eq⟩ | ⟨live, undefined, eq⟩
  · rw [eq] at accepted
    cases accepted
  · rw [eq] at accepted
    cases accepted
  · have rooted := ((sound.rooted_of_mentions mentions live).rebase sound.store continues).setCell
      ((continues.definition given).trans undefined) (node.build r.scope r.store).1
    obtain ⟨cell, present⟩ := Option.isSome_iff_exists.mp live
    rw [eq]
    exact Store.isDefined_iff.mpr ⟨_, Store.definition?_release_eq_some.mpr ⟨rooted.mem_kept,
      Store.definition?_setCell_self _ ((continues.cells _ given).trans present)⟩⟩

end Define

end Operations
end Registry
end Descent
