import Descent.Proofs.Registers
import Descent.Session.Command

/-!
The life of rules in sessions: when they come to be, when they are defined and when they die.
A command that refers to a name that stands for nothing changes nothing of the registry, so
sessions go on after it here.
Main statement: `rule_lifecycle`. Rules get one definition at most, handles of one rule agree, a
rule is alive while something holds it, and what has died stays dead.
-/

namespace Descent

namespace Session

/-- The answer to a command. -/
def reply (σ : Session) (k : Command) : Except UnknownName Reply := (k.run σ).1

/-- The session after a command. -/
def next (σ : Session) (k : Command) : Session := (k.run σ).2

/-- The session after commands from its beginning. -/
def after (ks : List Command) : Session := ks.foldl next .empty

/-- The grammar of the session. -/
def store (σ : Session) : Store := σ.registry.store

/-- The handle under a name. -/
def handle? (σ : Session) (name : String) : Option Handle := σ.registry.rules.lookup name

theorem after_append (ks more : List Command) :
    after (ks ++ more) = more.foldl next (after ks) :=
  List.foldl_append

section Steps

variable {σ : Session} {α β : Type}

theorem bind_of_ok {x : Action α} {σ' : Session} {a : α} (run : x σ = (.ok a, σ'))
    (f : α → Action β) : (x >>= f) σ = f a σ' := by
  change (ExceptT.bindCont f (x σ).1 : StateM Session (Except UnknownName β)) (x σ).2 = _
  rw [run]
  rfl

theorem bind_of_error {x : Action α} {σ' : Session} {e : UnknownName} (run : x σ = (.error e, σ'))
    (f : α → Action β) : (x >>= f) σ = (.error e, σ') := by
  change (ExceptT.bindCont f (x σ).1 : StateM Session (Except UnknownName β)) (x σ).2 = _
  rw [run]
  rfl

theorem find_of_some {register : Session → Register α} {name : String} {a : α}
    (found : (register σ).lookup name = some a) : find register name σ = (.ok a, σ) := by
  have read : (get : Action Session) σ = (.ok σ, σ) := rfl
  refine (bind_of_ok read _).trans ?_
  rw [found]
  rfl

theorem find_of_none {register : Session → Register α} {name : String}
    (missing : (register σ).lookup name = none) : find register name σ = (.error ⟨name⟩, σ) := by
  have read : (get : Action Session) σ = (.ok σ, σ) := rfl
  refine (bind_of_ok read _).trans ?_
  rw [missing]
  rfl

variable {names : List String}

/-- The action leads to a session whose registry follows. -/
def Sustains (σ : Session) (names : List String) (x : Action α) : Prop :=
  σ.registry.Follows names (x σ).2.registry

theorem Sustains.idle {x : Action α} (sound : σ.registry.Sound)
    (same : (x σ).2.registry = σ.registry) : σ.Sustains names x := by
  rw [Sustains, same]
  exact .refl sound

theorem Sustains.find {register : Session → Register α} {name : String} {f : α → Action β}
    (sound : σ.registry.Sound)
    (found : ∀ a, (register σ).lookup name = some a → σ.Sustains names (f a)) :
    σ.Sustains names (Session.find register name >>= f) := by
  rw [Sustains]
  cases eq : (register σ).lookup name with
  | none =>
    rw [bind_of_error (find_of_none eq)]
    exact .refl sound
  | some a =>
    rw [bind_of_ok (find_of_some eq)]
    exact found a eq

theorem Sustains.bind {x : Action α} {f : α → Action β} (first : σ.Sustains names x)
    (rest : ∀ a, (x σ).1 = .ok a → (x σ).2.Sustains names (f a)) :
    σ.Sustains names (x >>= f) := by
  rw [Sustains] at first ⊢
  rcases run : x σ with ⟨e | a, σ'⟩
  · rw [run] at first
    rwa [bind_of_error run]
  · have rest := rest a (congrArg Prod.fst run)
    rw [run] at first rest
    rw [bind_of_ok run]
    exact first.trans rest

theorem Sustains.parseFrom (sound : σ.registry.Sound) {t : Term} (secure : t.Secure σ.store)
    (c : Cursor) : σ.Sustains [] (Session.parseFrom t c) :=
  Registry.parse_follows sound secure c

/-- A grammar that is built for one action only. -/
theorem Sustains.withParser (sound : σ.registry.Sound) {node : Node} {action : Term → Action α}
    (acts : ∀ (t : Term) (σ' : Session), σ'.registry.Sound → t.Secure σ'.store →
      σ'.Sustains [] (action t)) : σ.Sustains [] (Session.withParser node action) := by
  obtain ⟨closed, secure⟩ := sound.toClosed.build node (sound.scope_secure _)
  have built : σ.registry.Follows []
      (σ.registry.rebase (node.build σ.registry.scope σ.registry.store).2) :=
    .rebase sound (.of_grows (node.build_grows _ _)) closed.store
  refine Sustains.bind built fun t yields => ?_
  cases yields
  have acted := acts _ { σ with registry := σ.registry.rebase _ } built.sound secure
  refine Sustains.bind acted fun a _ => ?_
  refine Sustains.bind (.settle acted.sound.toClosed (.refl _) fun _ _ => rfl) fun _ _ => ?_
  exact .idle acted.sound.toClosed.settle_sound rfl

theorem Sustains.settleOutcome (sound : σ.registry.Sound) (o : String)
    (found : Except Halt (Outcome Value)) : σ.Sustains [] (Session.settleOutcome o found) := by
  cases found <;> exact .idle sound rfl

end Steps

/-- The names of rules that a command gives anew or takes away. -/
def rebinds : RuleCommand → List String
  | .declare name => [name]
  | .recursive name _ weak => name :: weak.toList
  | .clone name _ => [name]
  | .drop name => [name]
  | _ => []

/-- The names of rules that commands give anew or take away. -/
def rebound (ks : List Command) : List String :=
  ks.flatMap fun
    | .rule k => rebinds k
    | _ => []

section Commands

variable {σ : Session} (sound : σ.registry.Sound)
include sound

theorem cursorCommand_sustains (k : CursorCommand) : σ.Sustains [] k.run := by
  cases k with
  | start c text => exact .idle sound rfl
  | advance c d =>
    refine .find sound fun found _ => ?_
    cases found.advance <;> exact .idle sound rfl
  | forward c d n =>
    refine .find sound fun found _ => ?_
    cases found.forward n <;> exact .idle sound rfl
  | next c d =>
    refine .find sound fun found _ => ?_
    cases found.next? <;> exact .idle sound rfl
  | current c =>
    refine .find sound fun found _ => ?_
    cases found.current <;> exact .idle sound rfl
  | get c | source c | location c | describe c => exact .find sound fun _ _ => .idle sound rfl
  | compare c d | span c d =>
    exact .find sound fun _ _ => .find sound fun _ _ => .idle sound rfl
  | compareSpans a b c d =>
    exact .find sound fun _ _ => .find sound fun _ _ => .find sound fun _ _ =>
      .find sound fun _ _ => .idle sound rfl

theorem failureCommand_sustains (k : FailureCommand) : σ.Sustains [] k.run := by
  cases k with
  | relocate f g c => exact .find sound fun _ _ => .find sound fun _ _ => .idle sound rfl
  | _ => exact .find sound fun _ _ => .idle sound rfl

theorem outcomeCommand_sustains (k : OutcomeCommand) : σ.Sustains [] k.run := by
  cases k with
  | failureOf f o =>
    refine .find sound fun found _ => ?_
    cases found <;> exact .idle sound rfl
  | ifSuccess o p node =>
    refine .find sound fun found _ => .withParser sound fun t σ' sound' secure => ?_
    cases found with
    | success v r => exact .bind (.parseFrom sound' secure r) fun _ _ =>
        .settleOutcome (Sustains.parseFrom sound' secure r).sound o _
    | failure f => exact .idle sound' rfl
  | ifFailure o p node =>
    refine .find sound fun found _ => .withParser sound fun t σ' sound' secure => ?_
    cases found with
    | success v r => exact .idle sound' rfl
    | failure f => exact .bind (.parseFrom sound' secure f.failedAt) fun _ _ =>
        .settleOutcome (Sustains.parseFrom sound' secure f.failedAt).sound o _
  | _ => exact .find sound fun _ _ => .idle sound rfl

theorem ruleCommand_sustains (k : RuleCommand) : σ.Sustains (rebinds k) k.run := by
  cases k with
  | declare r => exact Registry.declare_follows sound r
  | define r node =>
    refine .find sound fun h found => ?_
    have given := (sound.rules r h (Register.mem_of_lookup found)).1
    have follows := Registry.define_follows sound h node given
    refine .bind follows fun a _ => ?_
    cases a <;> exact .idle follows.sound rfl
  | recursive r node weak => exact Registry.recursive_follows sound r node weak
  | clone r s => exact .find sound fun h found => Registry.clone_follows sound found
  | drop r => exact Registry.drop_follows sound r
  | isDefined r | identity r => exact .find sound fun _ _ => .idle sound rfl
  | compare r s => exact .find sound fun _ _ => .find sound fun _ _ => .idle sound rfl
  | reference => exact Registry.freshReference_follows sound

theorem resultOf_sustains (p text : String) : σ.Sustains [] (resultOf p text) := by
  refine .find sound fun t found => ?_
  have parsed := Sustains.parseFrom sound
    (sound.parsers p t (Register.mem_of_lookup found)) (.start text.toList)
  exact .bind parsed fun _ _ => .idle parsed.sound rfl

theorem parserCommand_sustains (k : ParserCommand) : σ.Sustains [] k.run := by
  cases k with
  | build p node => exact Registry.parser_follows sound p node
  | parseAt o p c =>
    refine .find sound fun t found => .find sound fun d _ => ?_
    have parsed := Sustains.parseFrom sound (sound.parsers p t (Register.mem_of_lookup found)) d
    exact .bind parsed fun a _ => .settleOutcome parsed.sound o a
  | outcome p text =>
    refine .find sound fun t found => ?_
    have parsed := Sustains.parseFrom sound
      (sound.parsers p t (Register.mem_of_lookup found)) (.start text.toList)
    refine .bind parsed fun a _ => ?_
    cases a <;> exact .idle parsed.sound rfl
  | result p text =>
    have parsed := resultOf_sustains sound p text
    exact .bind parsed fun _ _ => .idle parsed.sound rfl
  | describe p text =>
    have parsed := resultOf_sustains sound p text
    refine .bind parsed fun a _ => ?_
    cases a <;> exact .idle parsed.sound rfl
  | expectation node => exact .idle sound rfl

/-- Every command leads from a sound registry to one that follows it. -/
theorem next_follows (k : Command) : σ.registry.Follows (rebound [k]) (σ.next k).registry := by
  rw [rebound, List.flatMap_singleton]
  cases k with
  | cursor k => exact cursorCommand_sustains sound k
  | failure k => exact failureCommand_sustains sound k
  | outcome k => exact outcomeCommand_sustains sound k
  | rule k => exact ruleCommand_sustains sound k
  | parser k => exact parserCommand_sustains sound k

end Commands

section Histories

theorem empty_sound : Session.empty.registry.Sound where
  store := ⟨nofun, nofun, nofun⟩
  rules := nofun
  defined := nofun
  parsers := nofun
  settled := ⟨0, Nat.le_refl _, nofun, nofun, nofun, nofun⟩

theorem rebound_cons (k : Command) (ks : List Command) :
    rebound (k :: ks) = rebound [k] ++ rebound ks := by
  rw [rebound, rebound, rebound, List.flatMap_cons, List.flatMap_singleton]

theorem foldl_follows {σ : Session} (sound : σ.registry.Sound) (ks : List Command) :
    σ.registry.Follows (rebound ks) (ks.foldl next σ).registry := by
  induction ks generalizing σ with
  | nil => exact .refl sound
  | cons k more ih =>
    have step := next_follows sound k
    rw [rebound_cons]
    exact (step.mono fun _ => List.mem_append_left _).trans
      ((ih step.sound).mono fun _ => List.mem_append_right _)

theorem after_sound (ks : List Command) : (after ks).registry.Sound :=
  (foldl_follows empty_sound ks).sound

theorem after_follows (ks more : List Command) :
    (after ks).registry.Follows (rebound more) (after (ks ++ more)).registry := by
  rw [after_append]
  exact foldl_follows (after_sound ks) more

theorem after_ages (ks more : List Command) : (after ks).store.Ages (after (ks ++ more)).store :=
  (after_follows ks more).ages

theorem lt_of_alive {ks : List Command} {id : RuleId} (live : (after ks).store.alive id) :
    id.number < (after ks).store.nextRule :=
  (after_sound ks).store.cells id live

/-- At some moment the rule was defined. -/
def WasDefined (ks : List Command) (id : RuleId) : Prop :=
  ∃ before, before <+: ks ∧ (after before).store.isDefined id

variable {ks : List Command} {id : RuleId}

theorem WasDefined.of_isDefined (defined : (after ks).store.isDefined id) : WasDefined ks id :=
  ⟨ks, List.prefix_rfl, defined⟩

theorem WasDefined.append (was : WasDefined ks id) (more : List Command) :
    WasDefined (ks ++ more) id := by
  obtain ⟨before, initial, defined⟩ := was
  exact ⟨before, initial.trans (List.prefix_append ks more), defined⟩

/-- A definition lasts as long as its rule is alive. -/
theorem definition_lasts {body : Term} (found : (after ks).store.definition? id = some body)
    (more : List Command) (live : (after (ks ++ more)).store.alive id) :
    (after (ks ++ more)).store.definition? id = some body :=
  (after_ages ks more).definition id body (lt_of_alive (Store.alive_of_definition found)) found live

theorem WasDefined.isDefined (was : WasDefined ks id) (live : (after ks).store.alive id) :
    (after ks).store.isDefined id := by
  obtain ⟨before, ⟨more, rfl⟩, defined⟩ := was
  obtain ⟨body, found⟩ := Store.isDefined_iff.mp defined
  exact Store.isDefined_iff.mpr ⟨body, definition_lasts found more live⟩

/-- What is alive and not new was alive before. -/
theorem alive_before {more : List Command} (given : id.number < (after ks).store.nextRule)
    (live : (after (ks ++ more)).store.alive id) : (after ks).store.alive id :=
  (after_ages ks more).dead id given live

/-- What has died stays dead. -/
theorem dead_lasts (given : id.number < (after ks).store.nextRule)
    (dead : ¬ (after ks).store.alive id) (more : List Command) :
    ¬ (after (ks ++ more)).store.alive id :=
  fun live => dead (alive_before given live)

theorem not_isDefined_of_dead {s : Store} (dead : ¬ s.alive id) : ¬ s.isDefined id := by
  intro defined
  obtain ⟨body, found⟩ := Store.isDefined_iff.mp defined
  exact dead (Store.alive_of_definition found)

theorem WasDefined.lt (was : WasDefined ks id) : id.number < (after ks).store.nextRule := by
  obtain ⟨before, ⟨more, rfl⟩, defined⟩ := was
  obtain ⟨body, found⟩ := Store.isDefined_iff.mp defined
  exact Nat.lt_of_lt_of_le (lt_of_alive (Store.alive_of_definition found))
    (after_ages before more).nextRule

end Histories

section Definitions

variable {σ : Session} {name : String} {h : Handle} {node : Node}

theorem withRegistry_of_eq {α : Type} {action : StateM Registry α} {a : α} {r : Registry}
    (run : action σ.registry = (a, r)) :
    withRegistry action σ = (.ok a, { σ with registry := r }) := by
  change (Except.ok (action σ.registry).1, { σ with registry := (action σ.registry).2 }) = _
  rw [run]

/-- The answer to a definition that is accepted, and what it makes of the registry. -/
theorem run_define_ok (found : σ.handle? name = some h) {r : Registry}
    (run : Registry.define h node σ.registry = (.ok (), r)) :
    (RuleCommand.define name node).run σ = (.ok .defined, { σ with registry := r }) := by
  have named : handle name σ = (.ok h, σ) := find_of_some found
  exact (bind_of_ok named _).trans (bind_of_ok (withRegistry_of_eq run) _)

theorem run_define_error (found : σ.handle? name = some h) {d : Defect} {r : Registry}
    (run : Registry.define h node σ.registry = (.error d, r)) :
    (RuleCommand.define name node).run σ =
      (.ok (.halted (.defect d)), { σ with registry := r }) := by
  have named : handle name σ = (.ok h, σ) := find_of_some found
  exact (bind_of_ok named _).trans (bind_of_ok (withRegistry_of_eq run) _)

theorem registry_next_define (found : σ.handle? name = some h) :
    (σ.next (.rule (.define name node))).registry = (Registry.define h node σ.registry).2 := by
  rcases run : Registry.define h node σ.registry with ⟨d | _, r⟩
  · exact congrArg (fun result => result.2.registry) (run_define_error found run)
  · exact congrArg (fun result => result.2.registry) (run_define_ok found run)

variable (sound : σ.registry.Sound)
include sound

theorem given_of_handle? (found : σ.handle? name = some h) : h.rule.number < σ.store.nextRule :=
  (sound.rules name h (Register.mem_of_lookup found)).1

theorem reply_define_of_dead (found : σ.handle? name = some h) (dead : ¬ σ.store.alive h.rule) :
    σ.reply (.rule (.define name node)) = .ok (.halted (.defect (.undefinedRule h.rule))) := by
  rcases Registry.define_cases h node (given_of_handle? sound found) with
    ⟨-, run⟩ | ⟨defined, -⟩ | ⟨live, -, -⟩
  · exact congrArg Prod.fst (run_define_error found run)
  · obtain ⟨body, present⟩ := Store.isDefined_iff.mp defined
    exact absurd (Store.alive_of_definition present) dead
  · exact absurd live dead

theorem reply_define_of_defined (found : σ.handle? name = some h)
    (defined : σ.store.isDefined h.rule) :
    σ.reply (.rule (.define name node)) = .ok (.halted (.defect (.ruleRedefined h.rule))) := by
  obtain ⟨body, present⟩ := Store.isDefined_iff.mp defined
  rcases Registry.define_cases h node (given_of_handle? sound found) with
    ⟨dead, -⟩ | ⟨-, run⟩ | ⟨-, undefined, -⟩
  · exact absurd (Store.alive_of_definition present) dead
  · exact congrArg Prod.fst (run_define_error found run)
  · cases undefined.symm.trans present

theorem reply_define_of_undefined (found : σ.handle? name = some h) (live : σ.store.alive h.rule)
    (undefined : ¬ σ.store.isDefined h.rule) :
    σ.reply (.rule (.define name node)) = .ok .defined := by
  rcases Registry.define_cases h node (given_of_handle? sound found) with
    ⟨dead, -⟩ | ⟨defined, -⟩ | ⟨-, -, run⟩
  · exact absurd live dead
  · exact absurd defined undefined
  · exact congrArg Prod.fst (run_define_ok found run)

/-- A definition that is answered with success is in force afterwards. -/
theorem isDefined_next_define (found : σ.handle? name = some h)
    (success : σ.reply (.rule (.define name node)) = .ok .defined) :
    (σ.next (.rule (.define name node))).store.isDefined h.rule := by
  have accepted : (Registry.define h node σ.registry).1 = .ok () := by
    rcases run : Registry.define h node σ.registry with ⟨d | _, r⟩
    · cases (congrArg Prod.fst (run_define_error found run)).symm.trans success
    · rfl
  rw [store, registry_next_define found]
  exact Registry.define_isDefined sound node (.register (Register.mem_of_lookup found))
    (given_of_handle? sound found) accepted

theorem alive_next_define (found : σ.handle? name = some h) {k : Handle}
    (mentions : σ.registry.Mentions k) (live : σ.store.alive k.rule) :
    (σ.next (.rule (.define name node))).store.alive k.rule := by
  rw [store, registry_next_define found]
  exact Registry.define_alive sound node (given_of_handle? sound found) mentions live

end Definitions

/-- The commands that give out an identity of their own. -/
def creates : RuleCommand → Bool
  | .declare _ => true
  | .recursive _ _ _ => true
  | .reference => true
  | _ => false

/-- A command that creates something gives it the next identity. -/
theorem reply_of_creates {k : RuleCommand} (new : creates k) (σ : Session) :
    σ.reply (.rule k) = .ok (.rule ⟨σ.store.nextRule⟩) ∧
      σ.store.nextRule < (σ.next (.rule k)).store.nextRule := by
  cases k with
  | declare name => exact ⟨rfl, Nat.lt_succ_self _⟩
  | recursive name node weak =>
    have grows := node.build_grows
      (σ.registry.scope.bindRule name ⟨⟨σ.store.nextRule⟩, false⟩) (Store.declare σ.store).2
    exact ⟨rfl, Nat.lt_of_lt_of_le (Nat.lt_succ_self _) grows.nextRule⟩
  | reference => exact ⟨rfl, Nat.lt_succ_self _⟩
  | _ => cases new

section Statements

variable (ks : List Command)

/-- The definition of a rule is refused because it has one, and the one that it has stays. -/
def Refuses (name : String) (node : Node) (id : RuleId) : Prop :=
  (after ks).reply (.rule (.define name node)) = .ok (.halted (.defect (.ruleRedefined id))) ∧
    ∃ body, (after ks).store.definition? id = some body ∧
      (after (ks ++ [.rule (.define name node)])).store.definition? id = some body

/-- A rule gets one definition. -/
structure DefinedOnce : Prop where
  /-- A rule that is alive and has never been defined takes what it is given first. -/
  accepts : ∀ name h node, (after ks).handle? name = some h → (after ks).store.alive h.rule →
    ¬ WasDefined ks h.rule →
    (after ks).reply (.rule (.define name node)) = .ok .defined ∧
      (after (ks ++ [.rule (.define name node)])).store.isDefined h.rule
  /-- Every later definition is refused, through whatever handle. -/
  refuses : ∀ name h node, (after ks).handle? name = some h → (after ks).store.alive h.rule →
    WasDefined ks h.rule → Refuses ks name node h.rule
  /-- After one success there is no other on the same rule. -/
  once : ∀ name h node more other k node', (after ks).handle? name = some h →
    (after ks).reply (.rule (.define name node)) = .ok .defined →
    (after (ks ++ .rule (.define name node) :: more)).handle? other = some k → k.rule = h.rule →
    (after (ks ++ .rule (.define name node) :: more)).reply (.rule (.define other node')) ≠
      .ok .defined
  /-- A recursive rule refuses every definition from the beginning. -/
  recursive : ∀ name node weak id more other k node',
    (after ks).reply (.rule (.recursive name node weak)) = .ok (.rule id) →
    (after (ks ++ .rule (.recursive name node weak) :: more)).handle? other = some k →
    k.rule = id → (after (ks ++ .rule (.recursive name node weak) :: more)).store.alive id →
    Refuses (ks ++ .rule (.recursive name node weak) :: more) other node' id
  /-- No command replaces a definition. -/
  lasts : ∀ id body more, (after ks).store.definition? id = some body →
    (after (ks ++ more)).store.alive id →
    (after (ks ++ more)).store.definition? id = some body

/-- Handles of one rule are alike, and rules are told apart by the order of their creation. -/
structure Identified : Prop where
  /-- A clone is the same handle under another name, until that name is used anew. -/
  clone : ∀ name other h more, (after ks).handle? other = some h → name ∉ rebound more →
    (after (ks ++ .rule (.clone name other) :: more)).handle? name = some h
  /-- Handles of the same rule parse alike. -/
  agree : ∀ (h k : Handle) (n : Nat) (c : Cursor), h.rule = k.rule →
    (Term.rule h).parse n c (after ks).store = (Term.rule k).parse n c (after ks).store
  /-- A created rule gets an identity, which is greater than all that are in use. -/
  fresh : ∀ k, creates k → ∃ id, (after ks).reply (.rule k) = .ok (.rule id) ∧
    ∀ old, (after ks).store.alive old → old.number < id.number
  /-- What is created later gets a greater identity. -/
  ordered : ∀ k l more id id', creates k → creates l →
    (after ks).reply (.rule k) = .ok (.rule id) →
    (after (ks ++ .rule k :: more)).reply (.rule l) = .ok (.rule id') → id.number < id'.number
  /-- A rule that comes to be, also in a grammar, is younger than all that were there before. -/
  younger : ∀ old id more, (after ks).store.alive old → ¬ (after ks).store.alive id →
    (after (ks ++ more)).store.alive id → old.number < id.number

/-- Rules are kept by those who own them. -/
structure KeptByOwners : Prop where
  /-- A session says of a handle whether its rule is defined. -/
  shown : ∀ name h, (after ks).handle? name = some h →
    (after ks).reply (.rule (.isDefined name)) = .ok (.flag ((after ks).store.isDefined h.rule))
  /-- A handle that the registers lead to is defined while its rule is held, from its definition
  on. -/
  defined_iff : ∀ h, (after ks).registry.Mentions h → ((after ks).store.isDefined h.rule ↔
    WasDefined ks h.rule ∧ (after ks).registry.Holds h.rule)
  /-- The same holds of every rule once the grammars of the last parse have been let go. -/
  settled_iff : ∀ id, ((after ks).registry.settle.store.isDefined id ↔
    WasDefined ks id ∧ (after ks).registry.settle.Holds id)
  /-- Rules that own each other keep each other alive, whatever becomes of the registers. -/
  cycles : ∀ C more, (after ks).store.SelfSupporting C → ∀ id, C id →
    (after (ks ++ more)).store.alive id
  /-- A handle without a definition does not parse. -/
  parse : ∀ (h : Handle) (n : Nat) (c : Cursor), ¬ (after ks).store.isDefined h.rule →
    (Term.rule h).parse (n + 1) c (after ks).store =
      (.error (.defect (.undefinedRule h.rule)), (after ks).store)
  /-- A handle that does not own its rule cannot define it either. -/
  define : ∀ name id node, (after ks).handle? name = some ⟨id, false⟩ →
    ¬ (after ks).store.isDefined id →
    (after ks).reply (.rule (.define name node)) = .ok (.halted (.defect (.undefinedRule id)))

/-- A handle that has lost its rule does not get it back. -/
structure LostForGood : Prop where
  unowning : ∀ name id more, (after ks).handle? name = some ⟨id, false⟩ →
    ¬ (after ks).store.isDefined id → ¬ (after (ks ++ more)).store.isDefined id
  defined : ∀ id more, WasDefined ks id → ¬ (after ks).store.isDefined id →
    ¬ (after (ks ++ more)).store.isDefined id

end Statements

section Proofs

variable {ks : List Command}

theorem after_concat (ks : List Command) (k : Command) : after (ks ++ [k]) = (after ks).next k := by
  rw [after_append]
  rfl

theorem append_cons (ks : List Command) (k : Command) (more : List Command) :
    ks ++ k :: more = (ks ++ [k]) ++ more := by
  rw [List.append_assoc]
  rfl

theorem WasDefined.refuses {name : String} {h : Handle} (was : WasDefined ks h.rule)
    (found : (after ks).handle? name = some h) (live : (after ks).store.alive h.rule)
    (node : Node) : Refuses ks name node h.rule := by
  obtain ⟨body, present⟩ := Store.isDefined_iff.mp (was.isDefined live)
  refine ⟨reply_define_of_defined (after_sound ks) found (was.isDefined live), body, present, ?_⟩
  refine definition_lasts present [.rule (.define name node)] ?_
  rw [after_concat]
  exact alive_next_define (after_sound ks) found (.register (Register.mem_of_lookup found)) live

theorem definedOnce (ks : List Command) : DefinedOnce ks where
  accepts name h node found live never := by
    have undefined : ¬ (after ks).store.isDefined h.rule := fun defined =>
      never (.of_isDefined defined)
    have success : (after ks).reply (.rule (.define name node)) = .ok .defined :=
      reply_define_of_undefined (after_sound ks) found live undefined
    rw [after_concat]
    exact ⟨success, isDefined_next_define (after_sound ks) found success⟩
  refuses name h node found live was := was.refuses found live node
  once name h node more other k node' found success later same again := by
    have was : WasDefined (ks ++ [.rule (.define name node)]) k.rule := by
      refine .of_isDefined ?_
      rw [after_concat, same]
      exact isDefined_next_define (after_sound ks) found success
    rw [append_cons] at later again
    -- a rule that was defined refuses, dead or alive
    by_cases live : (after ((ks ++ [.rule (.define name node)]) ++ more)).store.alive k.rule
    · cases ((was.append more).refuses later live node').1.symm.trans again
    · cases (reply_define_of_dead (after_sound _) later live).symm.trans again
  recursive name node weak id more other k node' created later same live := by
    rw [append_cons] at later live ⊢
    subst same
    obtain ⟨answer, given⟩ := reply_of_creates (k := .recursive name node weak) rfl (after ks)
    have first := Reply.rule.inj (Except.ok.inj (answer.symm.trans created))
    have bound : k.rule.number <
        (after (ks ++ [.rule (.recursive name node weak)])).store.nextRule := by
      rwa [← first, after_concat]
    -- what is alive now was alive, and hence defined, when the rule had been made
    have was : WasDefined (ks ++ [.rule (.recursive name node weak)]) k.rule := by
      refine .of_isDefined ?_
      have early := alive_before bound live
      rw [after_concat, ← first] at early ⊢
      exact Registry.recursive_isDefined name node weak (after ks).registry early
    exact (was.append more).refuses later live node'
  lasts id body more found live := definition_lasts found more live

theorem identified (ks : List Command) : Identified ks where
  clone name other h more found apart := by
    have named : handle other (after ks) = (.ok h, after ks) := find_of_some found
    have cloned : (RuleCommand.clone name other).run (after ks) = (.ok .nothing,
        { after ks with registry := (Registry.clone name h (after ks).registry).2 }) :=
      bind_of_ok named _
    rw [append_cons]
    refine ((after_follows _ more).rules name apart).trans ?_
    rw [after_concat]
    change ((RuleCommand.clone name other).run (after ks)).2.registry.rules.lookup name = _
    rw [cloned]
    exact Register.lookup_put_self _ name h
  agree h k n c same := by
    cases n with
    | zero => rfl
    | succ n => rw [Term.parse_rule, Term.parse_rule, same]
  fresh k new := by
    refine ⟨_, (reply_of_creates new (after ks)).1, fun old live => lt_of_alive live⟩
  ordered k l more id id' first second created later := by
    obtain ⟨answer, given⟩ := reply_of_creates first (after ks)
    rw [answer] at created
    rw [(reply_of_creates second _).1] at later
    cases created
    cases later
    rw [append_cons]
    rw [← after_concat] at given
    exact Nat.lt_of_lt_of_le given (after_ages (ks ++ [.rule k]) more).nextRule
  younger old id more live absent later :=
    Nat.lt_of_not_le fun le =>
      dead_lasts (Nat.lt_of_le_of_lt le (lt_of_alive live)) absent more later

theorem keptByOwners (ks : List Command) : KeptByOwners ks where
  shown name h found := by
    have named : handle name (after ks) = (.ok h, after ks) := find_of_some found
    exact congrArg Prod.fst (bind_of_ok named _)
  defined_iff h mentions := by
    have sound := after_sound ks
    constructor
    · intro defined
      obtain ⟨body, found⟩ := Store.isDefined_iff.mp defined
      exact ⟨.of_isDefined defined,
        (sound.alive_iff_holds mentions).mp (Store.alive_of_definition found)⟩
    · rintro ⟨was, holds⟩
      exact was.isDefined ((sound.alive_iff_holds mentions).mpr holds)
  settled_iff id := by
    have sound := (after_sound ks).toClosed.settle_sound
    constructor
    · intro defined
      obtain ⟨body, found⟩ := Store.isDefined_iff.mp defined
      have live := Store.alive_of_definition found
      obtain ⟨kept, before⟩ := Store.definition?_release_eq_some.mp found
      exact ⟨.of_isDefined (Store.isDefined_iff.mpr ⟨body, before⟩),
        sound.holds_of_rooted live (Registry.rooted_settle live)⟩
    · rintro ⟨was, holds⟩
      obtain ⟨kept, live⟩ := Store.alive_release.mp (sound.alive_of_holds holds)
      obtain ⟨body, found⟩ := Store.isDefined_iff.mp (was.isDefined live)
      exact Store.isDefined_iff.mpr ⟨body, Store.definition?_release_eq_some.mpr ⟨kept, found⟩⟩
  cycles C more self id h :=
    (after_ages ks more).cycles C self (fun other hother => lt_of_alive (self other hother).1) id h
  parse h n c undefined := by
    have missing : (after ks).store.definition? h.rule = none :=
      Option.not_isSome_iff_eq_none.mp undefined
    rw [Term.parse_rule, Step.bind_of_error (Store.definition_of_none missing)]
  define name id node found undefined := by
    have mem := Register.mem_of_lookup found
    exact reply_define_of_dead (after_sound ks) found fun live =>
      undefined ((after_sound ks).defined name id mem live)

theorem lostForGood (ks : List Command) : LostForGood ks where
  unowning name id more found undefined := by
    have mem := Register.mem_of_lookup found
    have dead : ¬ (after ks).store.alive id := fun live =>
      undefined ((after_sound ks).defined name id mem live)
    exact not_isDefined_of_dead
      (dead_lasts ((after_sound ks).rules name _ mem).1 dead more)
  defined id more was undefined :=
    not_isDefined_of_dead (dead_lasts was.lt (fun live => undefined (was.isDefined live)) more)

end Proofs

/-- The life of rules, in every session and at every moment of it. -/
theorem rule_lifecycle (ks : List Command) :
    DefinedOnce ks ∧ Identified ks ∧ KeptByOwners ks ∧ LostForGood ks :=
  ⟨definedOnce ks, identified ks, keptByOwners ks, lostForGood ks⟩

/-- Two rules that own each other, of which no owning handle is left. -/
def abandonedCycle : List Command := [
  .rule (.declare "b"),
  .rule (.recursive "a" (.binary .ignoreThen (.char 'a') (.rule "b")) (some "w")),
  .rule (.define "b" (.rule "a")),
  .rule (.drop "a"),
  .rule (.drop "b")]

/-- A handle of an abandoned cycle is still defined, also when its names are in use again; and the
handle of a rule that was dropped is not. -/
theorem abandoned_cycle_lives :
    (after abandonedCycle).registry.rules = [("w", ⟨⟨1⟩, false⟩)] ∧
    (after abandonedCycle).store.isDefined ⟨1⟩ ∧
    (after (abandonedCycle ++ [.rule (.declare "a"), .rule (.declare "b")])).store.alive ⟨1⟩ ∧
    (after [.rule (.recursive "a" (.char 'a') (some "w")), .rule (.drop "a")]).reply
      (.rule (.define "w" (.char 'b'))) = .ok (.halted (.defect (.undefinedRule ⟨0⟩))) := by
  have mentions : (after abandonedCycle).registry.Mentions ⟨⟨1⟩, false⟩ :=
    .register (List.mem_singleton.mpr rfl)
  have owned : ∃ body, (after abandonedCycle).store.definition? ⟨0⟩ = some body ∧
      body.Contains ⟨⟨1⟩, true⟩ := ⟨_, rfl, rfl⟩
  have owner : ∃ body, (after abandonedCycle).store.definition? ⟨1⟩ = some body ∧
      body.Contains ⟨⟨0⟩, true⟩ := ⟨_, rfl, .inr rfl⟩
  obtain ⟨-, -, kept, -⟩ := rule_lifecycle abandonedCycle
  obtain ⟨-, -, dropped, -⟩ := rule_lifecycle
    [.rule (.recursive "a" (.char 'a') (some "w")), .rule (.drop "a")]
  have holds : (after abandonedCycle).registry.Holds ⟨1⟩ := by
    obtain ⟨body, found, held⟩ := owned
    exact .definition found held
  have self : (after abandonedCycle).store.SelfSupporting fun id => id = ⟨0⟩ ∨ id = ⟨1⟩ := by
    rintro id (rfl | rfl)
    · exact ⟨rfl, ⟨1⟩, owner.imp fun _ owns => ⟨.inr rfl, owns⟩⟩
    · exact ⟨rfl, ⟨0⟩, owned.imp fun _ owns => ⟨.inl rfl, owns⟩⟩
  exact ⟨rfl, (kept.defined_iff _ mentions).mpr ⟨⟨_, List.prefix_rfl, rfl⟩, holds⟩,
    kept.cycles _ _ self _ (.inr rfl), dropped.define "w" ⟨0⟩ _ rfl (by decide +kernel)⟩

end Session
end Descent
