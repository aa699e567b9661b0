import Descent.Proofs.Recording
import Descent.Proofs.Typing

/-!
What parses of typed grammars come to.
Main statement: if every operation turns outcomes that agree with the types of its parts into
outcomes that agree with its own, then every parse of a typed grammar comes to an outcome that
agrees with its type, as long as all calls on the way are fair.
-/

namespace Descent

namespace Call

mutual

/-- A call and all calls inside it. -/
def spread : Call → List Call
  | ⟨t, c, r, inner⟩ => ⟨t, c, r, inner⟩ :: spreadAll inner

def spreadAll : List Call → List Call
  | [] => []
  | d :: more => d.spread ++ spreadAll more

end

theorem spreadAll_append (log more : List Call) :
    spreadAll (log ++ more) = spreadAll log ++ spreadAll more := by
  induction log with
  | nil => rfl
  | cons d rest ih => rw [List.cons_append, spreadAll, spreadAll, ih, List.append_assoc]

end Call

/-- All calls of a parse, those inside other calls among them. -/
def Term.allCalls (n : Nat) (t : Term) (c : Cursor) (s : Store) : List Call :=
  Call.spreadAll (t.calls n c s)

variable {D : Type} {T : TypeSystem D} {fair : Call → Prop} {μ : Annotation D}

/-- A run in a typed store leaves a typed store, records calls, and if all of these are fair, then
what it yields is as the postcondition says. -/
def Yields {α : Type} (T : TypeSystem D) (fair : Call → Prop) (μ : Annotation D)
    (x : Step (Store × List Call) α) (post : List Call → α → Prop) : Prop :=
  ∀ μ₁, μ.Extends μ₁ → ∀ s log, s.Typed T μ₁ → ∃ μ₂ new, μ₁.Extends μ₂ ∧
    (x (s, log)).2.1.Typed T μ₂ ∧ (x (s, log)).2.2 = log ++ new ∧
    ((∀ d ∈ Call.spreadAll new, fair d) → ∀ a, (x (s, log)).1 = .ok a → post new a)

namespace Yields

variable {α β : Type} {x : Step (Store × List Call) α} {post post' : List Call → α → Prop}

theorem weaken (h : Yields T fair μ x post) (imp : ∀ new a, post new a → post' new a) :
    Yields T fair μ x post' := by
  intro μ₁ more s log store
  obtain ⟨μ₂, new, more₂, typed, grown, good⟩ := h μ₁ more s log store
  exact ⟨μ₂, new, more₂, typed, grown, fun allFair a eq => imp new a (good allFair a eq)⟩

theorem pure {a : α} (h : post [] a) : Yields T fair μ (Pure.pure a) post := by
  intro μ₁ _ s log store
  refine ⟨μ₁, [], .refl μ₁, store, (List.append_nil log).symm, fun _ b eq => ?_⟩
  cases eq
  exact h

theorem halt (e : Halt) : Yields T fair μ (throw e) post :=
  fun μ₁ _ _ log store => ⟨μ₁, [], .refl μ₁, store, (List.append_nil log).symm, fun _ _ => nofun⟩

/-- The second run takes place whatever the first one yields, fair or not; so what is known of the
first run is a premise of the second postcondition. -/
theorem bind {f : α → Step (Store × List Call) β} {last : List Call → β → Prop}
    (hx : Yields T fair μ x post) (hf : ∀ a, Yields T fair μ (f a) fun new b =>
      ∀ before, post before a → last (before ++ new) b) : Yields T fair μ (x >>= f) last := by
  intro μ₁ more s log store
  obtain ⟨μ₂, new, more₂, typed, grown, good⟩ := hx μ₁ more s log store
  rcases run : x (s, log) with ⟨e | a, s', log'⟩
  · rw [run] at typed grown
    rw [Step.bind_of_error run]
    exact ⟨μ₂, new, more₂, typed, grown, fun _ _ => nofun⟩
  · rw [run] at typed grown good
    obtain rfl : log' = log ++ new := grown
    rw [Step.bind_of_ok run]
    obtain ⟨μ₃, new', more₃, typed', grown', good'⟩ :=
      hf a μ₂ (more.trans more₂) s' (log ++ new) typed
    refine ⟨μ₃, new ++ new', more₂.trans more₃, typed', by rw [grown', List.append_assoc], ?_⟩
    intro allFair b eq
    rw [Call.spreadAll_append] at allFair
    have before := good (fun d mem => allFair d (List.mem_append_left _ mem)) a rfl
    exact good' (fun d mem => allFair d (List.mem_append_right _ mem)) b eq new before

/-- A run that goes on by the outcome of a parser. -/
theorem of_outcome {x : Step (Store × List Call) (Outcome α)}
    {f : Outcome α → Step (Store × List Call) β} {post : List Call → Outcome α → Prop}
    {last : List Call → β → Prop} (hx : Yields T fair μ x post)
    (success : ∀ v r, Yields T fair μ (f (.success v r)) fun new b =>
      ∀ before, post before (.success v r) → last (before ++ new) b)
    (failure : ∀ e, Yields T fair μ (f (.failure e)) fun new b =>
      ∀ before, post before (.failure e) → last (before ++ new) b) :
    Yields T fair μ (x >>= f) last := by
  refine bind hx ?_
  rintro (⟨v, r⟩ | e)
  · exact success v r
  · exact failure e

theorem of_test {p : Prop} [Decidable p] {y : Step (Store × List Call) α}
    (yes : p → Yields T fair μ x post) (no : ¬ p → Yields T fair μ y post) :
    Yields T fair μ (if p then x else y) post := by
  by_cases h : p
  · rw [if_pos h]
    exact yes h
  · rw [if_neg h]
    exact no h

/-- A call adds itself to the record, with the calls inside it. -/
theorem call {t : Term} {p : Parser (Store × List Call) Value} {c : Cursor}
    {good : Outcome Value → Prop}
    (h : Yields T fair μ (p c) fun new o => fair ⟨t, c, .ok o, new⟩ → good o) :
    Yields T fair μ (Machine.recording.call t p c) fun new o =>
      good o ∧ ∃ inner, new = [⟨t, c, .ok o, inner⟩] := by
  intro μ₁ more s log store
  obtain ⟨μ₂, new, more₂, typed, grown, yields⟩ := h μ₁ more s [] store
  rw [Machine.recording_call, grown]
  refine ⟨μ₂, [⟨t, c, (p c (s, [])).1, new⟩], more₂, typed, rfl, fun allFair o eq => ?_⟩
  -- the new call is fair, and so are those inside it, which are all that the body has recorded
  dsimp only at eq
  rw [eq] at allFair ⊢
  rw [Call.spreadAll, Call.spreadAll, Call.spread, List.append_nil] at allFair
  have inside (d : Call) (mem : d ∈ Call.spreadAll new) := allFair d (List.mem_cons_of_mem _ mem)
  exact ⟨yields inside o eq (allFair _ (List.mem_cons_self ..)), new, rfl⟩

theorem guard (rule : RuleId) {p : Parser (Store × List Call) Value} {c : Cursor}
    {post : List Call → Outcome Value → Prop} (h : Yields T fair μ (p c) post) :
    Yields T fair μ (Machine.recording.guard rule p c) post := by
  intro μ₁ more s log store
  by_cases entered : Store.entry rule c ∈ s.active
  · rw [Machine.recording_guard_of_mem entered]
    exact ⟨μ₁, [], .refl μ₁, store, (List.append_nil log).symm, fun _ _ => nofun⟩
  · rw [Machine.recording_guard_of_notMem entered]
    obtain ⟨μ₂, new, more₂, typed, rest⟩ :=
      h μ₁ more (s.enter (Store.entry rule c)) log ⟨store.cells, store.resolved, store.fresh⟩
    exact ⟨μ₂, new, more₂, ⟨typed.cells, typed.resolved, typed.fresh⟩, rest⟩

/-- The body of a rule has a type that the rule may have. -/
theorem definition {rule : RuleId} {d : D} (typed : μ rule = some d)
    {f : Term → Step (Store × List Call) α}
    (h : ∀ q e μ', μ.Extends μ' → q.HasType T μ' e → T.rule e d → Yields T fair μ' (f q) post) :
    Yields T fair μ (Machine.recording.lift (Store.definition rule) >>= f) post := by
  intro μ₁ more s log store
  cases found : s.definition? rule with
  | none =>
    have run : Machine.recording.lift (Store.definition rule) (s, log) =
        (.error (.defect (.undefinedRule rule)), (s, log)) := by
      rw [Machine.recording_lift, Store.definition_of_none found]
    rw [Step.bind_of_error run]
    exact ⟨μ₁, [], .refl μ₁, store, (List.append_nil log).symm, fun _ _ => nofun⟩
  | some q =>
    have run : Machine.recording.lift (Store.definition rule) (s, log) = (.ok q, (s, log)) := by
      rw [Machine.recording_lift, Store.definition_of_some found]
    rw [Step.bind_of_ok run]
    obtain ⟨d', e, typed', body, known⟩ := store.cells rule q found
    cases (more _ _ typed).symm.trans typed'
    exact h q e μ₁ more body known μ₁ (.refl μ₁) s log store

/-- What a reference is resolved to has the type of the reference. -/
theorem resolve {id : RuleId} {body : Node} {scope : Scope} {d : D}
    (typed : (Term.reference id body scope).HasType T μ d)
    {f : Term → Step (Store × List Call) α}
    (h : ∀ q μ', μ.Extends μ' → q.HasType T μ' d → Yields T fair μ' (f q) post) :
    Yields T fair μ (Machine.recording.lift (Store.resolve id body scope) >>= f) post := by
  intro μ₁ more s log store
  obtain ⟨q, yields, μ₂, more₂, built, store'⟩ := store.resolve (typed.mono more)
  have run : Machine.recording.lift (Store.resolve id body scope) (s, log) =
      (.ok q, (Store.resolve id body scope s).2, log) := by
    rw [Machine.recording_lift, yields]
  rw [Step.bind_of_ok run]
  obtain ⟨μ₃, new, more₃, rest⟩ :=
    h q μ₂ (more.trans more₂) built μ₂ (.refl μ₂) (Store.resolve id body scope s).2 log store'
  exact ⟨μ₃, new, more₂.trans more₃, rest⟩

end Yields

/-- Every operation turns outcomes that agree with the types of its parts into outcomes that agree
with its own. An operation on two parsers may rely on its own call being fair. -/
structure TypeSystem.Sound (T : TypeSystem D) (fair : Call → Prop)
    (agrees : D → Cursor → Outcome Value → Prop) : Prop where
  atom : ∀ {a : Atom} {d : D}, T.atom a d → ∀ (μ : Annotation D) (c : Cursor),
    Yields T fair μ (a.run c) fun _ => agrees d c
  unary : ∀ {op : Unary} {d e : D}, T.unary op d e → ∀ {μ : Annotation D}
    {p : Parser (Store × List Call) Value}, (∀ c, Yields T fair μ (p c) fun _ => agrees d c) →
    ∀ n c, Yields T fair μ (op.run n p c) fun _ => agrees e c
  binary : ∀ {op : Binary} {d e f : D}, T.binary op d e f → ∀ {μ : Annotation D} {t u : Term}
    {p q : Parser (Store × List Call) Value},
    (∀ c, Yields T fair μ (p c) fun new o =>
      agrees d c o ∧ ∃ inner, new = [⟨t, c, .ok o, inner⟩]) →
    (∀ c, Yields T fair μ (q c) fun _ => agrees e c) →
    ∀ n c, Yields T fair μ (op.run n p q c) fun new o =>
      fair ⟨.binary op t u, c, .ok o, new⟩ → agrees f c o
  between : ∀ {d e f g : D}, T.between d e f g → ∀ {μ : Annotation D}
    {p q r : Parser (Store × List Call) Value},
    (∀ c, Yields T fair μ (p c) fun _ => agrees d c) →
    (∀ c, Yields T fair μ (q c) fun _ => agrees e c) →
    (∀ c, Yields T fair μ (r c) fun _ => agrees f c) →
    ∀ c, Yields T fair μ (Parser.between p q r c) fun _ => agrees g c
  rule : ∀ {e d : D}, T.rule e d → ∀ {c : Cursor} {o : Outcome Value}, agrees e c o →
    agrees d c o

variable {agrees : D → Cursor → Outcome Value → Prop}

/-- What a typed grammar comes to agrees with its type, and its record is one call of it. -/
theorem TypeSystem.Sound.evaluate (sound : T.Sound fair agrees) (n : Nat) {t : Term} {d : D}
    (typed : t.HasType T μ d) (c : Cursor) :
    Yields T fair μ (t.evaluate .recording n c) fun new o =>
      agrees d c o ∧ ∃ inner, new = [⟨t, c, .ok o, inner⟩] := by
  induction n generalizing t d μ c with
  | zero => exact Yields.halt _
  | succ n ih =>
    have parts {t : Term} {d : D} (h : t.HasType T μ d) (c : Cursor) :
        Yields T fair μ (t.evaluate .recording n c) fun _ => agrees d c :=
      (ih h c).weaken fun _ _ both => both.1
    cases typed with
    | leaf known => exact .call ((sound.atom known μ c).weaken fun _ _ good _ => good)
    | unary part known =>
      exact .call ((sound.unary known (parts part) n c).weaken fun _ _ good _ => good)
    | binary left right known => exact .call (sound.binary known (ih left) (parts right) n c)
    | between first inner last known =>
      have whole := sound.between known (parts first) (parts inner) (parts last) c
      exact .call (whole.weaken fun _ _ good _ => good)
    | rule typed =>
      refine .call (Yields.definition typed fun q e μ' _ body known => .guard _ ?_)
      exact (ih body c).weaken fun _ _ both _ => sound.rule known both.1
    | reference typed names body =>
      refine .call (Yields.resolve (.reference typed names body) fun q μ' _ built => .guard _ ?_)
      exact (ih built c).weaken fun _ _ both _ => both.1

/-- A term is typed in a store if its rules can be given types. -/
def Term.TypedIn (T : TypeSystem D) (s : Store) (t : Term) (d : D) : Prop :=
  ∃ μ, s.Typed T μ ∧ t.HasType T μ d

theorem Grammar.HasType.typedIn {τ : String → D} {g : Grammar} {d : D} (h : g.HasType T τ d) :
    (g.build .empty).1.TypedIn T (g.build .empty).2 d := by
  obtain ⟨μ, -, typed, store⟩ := h.build
  exact ⟨μ, store, typed⟩

/-- A parse leaves a typed term typed, and comes to an outcome that agrees with its type. -/
theorem Term.TypedIn.parse (sound : T.Sound fair agrees) {t : Term} {s : Store} {d : D}
    (typed : t.TypedIn T s d) (n : Nat) (c : Cursor) :
    t.TypedIn T (t.parse n c s).2 d ∧ ((∀ call ∈ t.allCalls n c s, fair call) →
      ∀ o, (t.parse n c s).1 = .ok o → agrees d c o) := by
  obtain ⟨μ, store, typed⟩ := typed
  obtain ⟨μ', new, more, store', recorded, yields⟩ :=
    sound.evaluate n typed c μ (.refl μ) s [] store
  obtain ⟨_, run⟩ := t.evaluate_recording n c s []
  rw [List.nil_append] at recorded
  rw [run] at store' yields
  refine ⟨⟨μ', store', typed.mono more⟩, fun allFair o eq => ?_⟩
  rw [Term.allCalls, Term.calls, recorded] at allFair
  exact (yields allFair o eq).1

end Descent
