import Descent.Proofs.Rounds

/-!
Terms with more and more fuel.
Main statement: a term settles or stalls if its parts do, and what it chooses, or has been defined
to be, or has been resolved to.
-/

namespace Descent

open Cursor (Reaches)

variable {bad : List Call → Prop} {w : World} {c₀ : Cursor}

/-- The same world with a rule or reference active at a cursor. -/
def World.enter (w : World) (rule : RuleId) (c : Cursor) : World :=
  w.withActive (Store.entry rule c :: w.store.active)

theorem World.leads_enter {w : World} (within : w.store.Within .forward) (rule : RuleId)
    (c : Cursor) : w.Leads (w.enter rule c) :=
  ⟨w.le_withActive _, fun _ mem => List.mem_cons_of_mem _ mem, within.cells, within.resolved⟩

/-- A call settles or stalls if its body settles, or records what makes the call stall. -/
theorem Term.settles_of_body {t : Term} {B : Nat → Parser (Store × List Call) Value}
    (body : ∀ n, t.evaluate .recording (n + 1) = Machine.recording.call t (B n))
    (turns : ∀ c r inner, bad inner → (⟨t, c, r, inner⟩ : Call).Stalls)
    (h : ∀ c, c₀.Reaches c → ∀ w', w.Leads w' →
      Judged bad w' [] (fun n => B n c) fun _ o => c.Reaches o.cursor) : t.Settles w c₀ := by
  intro c hc w' leads log
  have judged := h c hc w' leads
  have step (n : Nat) : t.evaluate .recording (n + 1) c (w'.store, log) =
      ((B n c (w'.store, [])).1, ((B n c (w'.store, [])).2.1,
        log ++ [⟨t, c, (B n c (w'.store, [])).1, (B n c (w'.store, [])).2.2⟩])) := by
    rw [body, Machine.recording_call]
  constructor
  · intro n
    cases n with
    | zero => exact RunsTo.spent leads.within
    | succ n =>
      obtain ⟨w₁, r, inner, leads₁, active, run, yields⟩ := judged.runs n
      refine ⟨w₁, r, [⟨t, c, r, inner⟩], leads₁, active, ?_, fun o eq => ⟨yields o eq, inner, ?_⟩⟩
      · rw [step, run, List.nil_append]
      · rw [eq]
  · rcases judged.ends with ⟨N, y, ended, settled⟩ | ⟨N, worsens⟩
    · refine Or.inl ⟨N + 1, (y.1, (y.2.1, log ++ [⟨t, c, y.1, y.2.2⟩])), ended, fun n le => ?_⟩
      obtain ⟨m, rfl⟩ : ∃ m, n = m + 1 := ⟨n - 1, by omega⟩
      dsimp only at settled ⊢
      rw [step, settled m (by omega)]
    · refine Or.inr ⟨N + 1, fun n le => ?_⟩
      obtain ⟨m, rfl⟩ : ∃ m, n = m + 1 := ⟨n - 1, by omega⟩
      dsimp only at worsens ⊢
      rw [step]
      exact ⟨_, List.mem_append_right log List.mem_cons_self,
        turns _ _ _ (worsens m (by omega))⟩

/-- A call that holds a stalled one stalls. -/
theorem Call.stalls_of_stalled {t : Term} {c : Cursor} {r : Except Halt (Outcome Value)}
    {inner : List Call} (h : Stalled inner) : (⟨t, c, r, inner⟩ : Call).Stalls := by
  obtain ⟨d, mem, stalls⟩ := h
  exact .inside mem stalls

/-- A call settles or stalls if all parsers in it do. -/
theorem Term.settles_of_parsers {t : Term} {B : Nat → Parser (Store × List Call) Value}
    (body : ∀ n, t.evaluate .recording (n + 1) = Machine.recording.call t (B n))
    (h : (settling stalled_lasting w c₀).Parsers B B) : t.Settles w c₀ :=
  settles_of_body body (fun _ _ _ => Call.stalls_of_stalled) fun c hc w' leads => h c hc w' leads []

namespace Term.Settles

variable {p q r : Term}

/-- What settles does so from later worlds and cursors. -/
theorem later (h : p.Settles w c₀) {w' : World} (leads : w.Leads w') {c : Cursor}
    (moved : c₀.Reaches c) : p.Settles w' c :=
  fun d hd w'' leads' log => h d (moved.trans hd) w'' (leads.trans leads') log

/-- An element that consumes nothing is recorded as idle. -/
theorem element (h : p.Settles w c₀) (c : Cursor) (hc : c₀.Reaches c) (w' : World)
    (leads : w.Leads w') (log : List Call) :
    Judged Idle w' log (fun n => p.evaluate .recording n c) fun new o => c.Reaches o.cursor ∧
      ∀ v r, o = .success v r → r.position = c.position → Idle (log ++ new) := by
  refine ((h c hc w' leads log).worse fun _ => Or.inl).weaken ?_
  rintro new o ⟨moved, inner, rfl⟩
  refine ⟨moved, fun v r eq same => Or.inr ⟨_, List.mem_append_right log List.mem_cons_self, ?_⟩⟩
  subst eq
  exact same

theorem leaf {a : Atom} (inside : (Term.leaf a).Within .forward) : (Term.leaf a).Settles w c₀ := by
  have stays (f : Closure) (eq : a = .custom f) (d : Cursor) :
      d.Reaches (f d).cursor := inside f eq d
  exact settles_of_parsers (evaluate_leaf _ · a) (Judgement.atom a fun f eq d _ => stays f eq d)

theorem unary (op : Unary) (h : p.Settles w c₀) : (Term.unary op p).Settles w c₀ := by
  -- an element that idles makes the repetition stall
  have turns {op : Unary} {c : Cursor} {r : Except Halt (Outcome Value)} {inner : List Call}
      (rounds : (⟨.unary op p, c, r, inner⟩ : Call).rounds =
        inner.map fun element => (element.start, element)) (idle : Idle inner) :
      (⟨.unary op p, c, r, inner⟩ : Call).Stalls := by
    rcases idle with stalled | ⟨d, mem, idles⟩
    · exact Call.stalls_of_stalled stalled
    · refine .here ⟨(d.start, d), ?_, idles⟩
      rw [rounds]
      exact List.mem_map_of_mem mem
  cases op with
  | many =>
    refine settles_of_body (evaluate_unary _ · _ p) (fun c r inner => turns rfl)
      fun c hc w' leads => ?_
    exact (Judged.collect idle_lasting h.element [] hc leads []).map idle_lasting Value.list
  | atLeastOnce =>
    refine settles_of_body (evaluate_unary _ · _ p) (fun c r inner => turns rfl)
      fun c hc w' leads => ?_
    refine Judged.map idle_lasting Value.list ?_
    refine Judged.bind idle_lasting (h.element c hc w' leads []) ?_
    rintro w₁ new (⟨v, d⟩ | e) leads₁ - ⟨moved, -⟩
    · have rest := Judged.collect idle_lasting h.element [v] (hc.trans moved)
        (leads.trans leads₁) ([] ++ new)
      exact rest.weaken fun _ _ => moved.trans
    · exact Judged.pure leads₁.within moved
  | token => exact settles_of_parsers (evaluate_unary _ · _ p) (settling.token h.parsers)
  | _ =>
    exact settles_of_parsers (evaluate_unary _ · _ p) (Judgement.unary_once h.parsers _ rfl id id)

theorem binary (op : Binary) (hp : p.Settles w c₀) (hq : q.Settles w c₀) :
    (Term.binary op p q).Settles w c₀ := by
  cases op with
  | separatedBy =>
    have turns (c : Cursor) (r : Except Halt (Outcome Value)) (inner : List Call)
        (idle : IdleRound inner) : (⟨.binary .separatedBy p q, c, r, inner⟩ : Call).Stalls := by
      rcases idle with stalled | ⟨pair, mem, idles⟩
      · exact Call.stalls_of_stalled stalled
      · exact .here ⟨(pair.1.start, pair.2), List.mem_map.mpr ⟨pair, mem, rfl⟩, idles⟩
    refine settles_of_body (evaluate_binary _ · _ p q) turns fun c hc w' leads => ?_
    refine Judged.map idleRound_lasting Value.list ?_
    have first := (hp c hc w' leads []).worse idleRound_of_stalled
    refine Judged.bind idleRound_lasting first ?_
    rintro w₁ new (⟨v, d⟩ | e) leads₁ - ⟨moved, inner, rfl⟩
    · have rest := Judged.collectSeparated hp hq [v] (hc.trans moved) (leads.trans leads₁)
        [⟨p, c, .ok (.success v d), inner⟩] rfl
      exact rest.weaken fun _ _ => moved.trans
    · exact Judged.pure leads₁.within moved
  | chainLeft apply =>
    exact settles_of_parsers (evaluate_binary _ · _ p q)
      (Judgement.map _ (settling.chain hp.parsers hq.parsers))
  | chainRight apply =>
    exact settles_of_parsers (evaluate_binary _ · _ p q)
      (Judgement.map _ (settling.chain hp.parsers hq.parsers))
  | _ =>
    exact settles_of_parsers (evaluate_binary _ · _ p q)
      (Judgement.binary_once hp.parsers hq.parsers _ rfl id id)

theorem between (hp : p.Settles w c₀) (hq : q.Settles w c₀) (hr : r.Settles w c₀) :
    (Term.between p q r).Settles w c₀ :=
  settles_of_parsers (evaluate_between _ · p q r)
    (Judgement.between hp.parsers hq.parsers hr.parsers)

/-- A choice settles if everything that may be chosen does. -/
theorem bind {next : Chooser} {scope : Scope} (hp : p.Settles w c₀)
    (known : scope.Known w.catalog w.store.nextRule) (inside : next.Within .forward)
    (h : ∀ c, c₀.Reaches c → ∀ w₁, w.Leads w₁ → ∀ w₂, w₁.Leads w₂ → ∀ q : Term,
      q.Within .forward → (∀ H depth, scope.Refers H → next.nesting ≤ depth →
        w₂.catalog.Describes H depth w₁.store w₂.store q) → q.Settles w₂ c) :
    (Term.bind p next scope).Settles w c₀ := by
  let choice (v : Value) (n : Nat) : Parser (Store × List Call) Value := fun c =>
    Machine.recording.lift (next.build scope v) >>= fun q => q.evaluate .recording n c
  have settles (v : Value) : (settling stalled_lasting w c₀).Parsers (choice v) (choice v) := by
    intro c hc w₁ leads₁ log
    obtain ⟨w₂, later, store, -, describes⟩ :=
      w₁.exists_choice next v (World.scope_later leads₁.later known)
    obtain ⟨within, kept⟩ := next.build_within scope v leads₁.within inside
    have active : w₂.store.active = w₁.store.active := by
      rw [store]
      exact (next.build_grows scope v w₁.store).active
    have leads₂ : w₁.Leads w₂ := ⟨later, fun e mem => active ▸ mem, store ▸ kept⟩
    have rest := (h c hc w₁ leads₁ w₂ leads₂ _ within describes).parsers c (Reaches.refl c) w₂
      (.refl leads₂.within) log
    refine Judged.step leads₂ active (fun n => ?_) rest
    rw [store]
    rfl
  exact settles_of_parsers (evaluate_bind _ · p next scope)
    (Judgement.andThen (F := fun n v => choice v n) hp.parsers settles)

/-- The body of a rule or reference settles when it is entered, if it does where it is active. -/
theorem guarded {q : Term} {id : RuleId} {c : Cursor} (within : w.store.Within .forward)
    (settles : Store.entry id c ∉ w.store.active → q.Settles (w.enter id c) c) (log : List Call) :
    Judged Stalled w log (fun n => Machine.recording.guard id (q.evaluate .recording n) c)
      fun _ o => c.Reaches o.cursor := by
  refine Judged.guard within fun fresh => ?_
  have entered := World.leads_enter within id c
  exact (settles fresh).parsers c (Reaches.refl c) _ (.refl entered.within) log

/-- A rule settles if its definitions do once it is active. -/
theorem rule {h : Handle}
    (body : ∀ c, c₀.Reaches c → ∀ w', w.Leads w' → Store.entry h.rule c ∉ w'.store.active →
      ∀ q, w'.store.definition? h.rule = some q → q.Settles (w'.enter h.rule c) c) :
    (Term.rule h).Settles w c₀ := by
  refine settles_of_parsers (evaluate_rule _ · h) fun c hc w' leads log => ?_
  cases found : w'.store.definition? h.rule with
  | none =>
    have lifted : Machine.recording.lift (Store.definition h.rule) (w'.store, log) =
        (.error (.defect (.undefinedRule h.rule)), (w'.store, log)) := by
      rw [Machine.recording_lift, Store.definition_of_none found]
    exact Judged.halt leads.within fun n => Step.bind_of_error lifted _
  | some q =>
    have lifted : Machine.recording.lift (Store.definition h.rule) (w'.store, log) =
        (.ok q, (w'.store, log)) := by
      rw [Machine.recording_lift, Store.definition_of_some found]
    have settles := guarded (q := q) leads.within fun fresh => body c hc w' leads fresh q found
    refine Judged.step (.refl leads.within) rfl (fun n => ?_) (settles log)
    exact Step.bind_of_ok lifted _

/-- A reference settles if what it is resolved to does once it is active. -/
theorem reference {id : RuleId} {body : Node} {scope : Scope}
    (known : (Term.reference id body scope).Known w.catalog w.store.nextRule)
    (inside : body.Within .forward)
    (h : ∀ c, c₀.Reaches c → ∀ w', w.Leads w' → Store.entry id c ∉ w'.store.active →
      ∀ q, w'.store.resolved.lookup id = some q → q.Settles (w'.enter id c) c) :
    (Term.reference id body scope).Settles w c₀ := by
  refine settles_of_parsers (evaluate_reference _ · id body scope) fun c hc w' leads log => ?_
  obtain ⟨w₁, q, later, active, run, found⟩ :=
    w'.exists_resolve (World.known_later leads.later known)
  obtain ⟨-, -, -, kept⟩ := leads.within.resolve id scope inside
  rw [run] at kept
  have leads₁ : w'.Leads w₁ := ⟨later, fun e mem => active ▸ mem, kept⟩
  have lifted : Machine.recording.lift (Store.resolve id body scope) (w'.store, log) =
      (.ok q, (w₁.store, log)) := by
    rw [Machine.recording_lift, run]
  have settles := guarded kept fun fresh => h c hc w₁ (leads.trans leads₁) fresh q found
  refine Judged.step leads₁ active (fun n => ?_) (settles log)
  exact Step.bind_of_ok lifted _

end Term.Settles
end Descent
