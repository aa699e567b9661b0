import Descent.Proofs.Forward
import Descent.Proofs.Recording
import Descent.Proofs.World

/-!
Recorded runs with more and more fuel. A run settles if from some fuel on it stays the same without
running out; a run that does not settle is to leave something bad in its record.
Main statements: settling goes through sequencing, so through every combinator that does not repeat
anything, and through the repetitions that make progress.
-/

namespace Descent

/-- The world `w'` may be met while a forward grammar is run from `w`: it is later, and what is
active stays so. -/
structure World.Leads (w w' : World) : Prop where
  later : w ≤ w'
  active : ∀ e ∈ w.store.active, e ∈ w'.store.active
  within : w'.store.Within .forward

theorem World.Leads.refl {w : World} (within : w.store.Within .forward) : w.Leads w :=
  ⟨w.le_refl, fun _ => id, within⟩

theorem World.Leads.trans {w w' w'' : World} (h : w.Leads w') (k : w'.Leads w'') : w.Leads w'' :=
  ⟨World.le_trans h.later k.later, fun e mem => k.active e (h.active e mem), k.within⟩

/-- A run from a world ends in a later one with the same entries active, adds to the record, and
what it yields is good. -/
def RunsTo {α : Type} (w : World) (log : List Call) (x : Step (Store × List Call) α)
    (good : List Call → α → Prop) : Prop :=
  ∃ (w' : World) (r : Except Halt α) (new : List Call), w.Leads w' ∧
    w'.store.active = w.store.active ∧ x (w.store, log) = (r, (w'.store, log ++ new)) ∧
    ∀ a, r = .ok a → good new a

/-- With more and more fuel, a run settles or its record comes to be bad. -/
def Ends {α : Type} (bad : List Call → Prop) (X : Nat → Step (Store × List Call) α)
    (x : Store × List Call) : Prop :=
  (∃ N y, y.1 ≠ .error .outOfFuel ∧ ∀ n, N ≤ n → X n x = y) ∨
    ∃ N, ∀ n, N ≤ n → bad (X n x).2.2

/-- What is to be shown of a family of runs from a world, with a record made before. -/
structure Judged {α : Type} (bad : List Call → Prop) (w : World) (log : List Call)
    (X : Nat → Step (Store × List Call) α) (good : List Call → α → Prop) : Prop where
  runs : ∀ n, RunsTo w log (X n) good
  ends : Ends bad X (w.store, log)

section RunsTo

variable {α β : Type} {w : World} {log : List Call} {x : Step (Store × List Call) α}
  {f : α → Step (Store × List Call) β} {mid : List Call → α → Prop}
  {good : List Call → β → Prop}

theorem RunsTo.weaken {good good' : List Call → α → Prop} (h : RunsTo w log x good)
    (weaker : ∀ new a, good new a → good' new a) : RunsTo w log x good' := by
  obtain ⟨w', r, new, leads, active, run, yields⟩ := h
  exact ⟨w', r, new, leads, active, run, fun a eq => weaker new a (yields a eq)⟩

theorem RunsTo.pure (within : w.store.Within .forward) {a : α} {good : List Call → α → Prop}
    (h : good [] a) : RunsTo w log (Pure.pure a) good := by
  refine ⟨w, .ok a, [], .refl within, rfl, ?_, ?_⟩
  · rw [List.append_nil]
    rfl
  · intro b eq
    cases eq
    exact h

theorem RunsTo.spent (within : w.store.Within .forward) {good : List Call → α → Prop} :
    RunsTo w log (throw .outOfFuel) good := by
  refine ⟨w, .error .outOfFuel, [], .refl within, rfl, ?_, nofun⟩
  rw [List.append_nil]
  rfl

theorem RunsTo.bind (h : RunsTo w log x mid)
    (next : ∀ (w' : World) (new : List Call) (a : α), w.Leads w' →
      w'.store.active = w.store.active → mid new a →
        RunsTo w' (log ++ new) (f a) fun more b => good (new ++ more) b) :
    RunsTo w log (x >>= f) good := by
  obtain ⟨w₁, r, new, leads, active, run, yields⟩ := h
  cases r with
  | error e =>
    exact ⟨w₁, .error e, new, leads, active, Step.bind_of_error run f, fun _ eq => nomatch eq⟩
  | ok a =>
    obtain ⟨w₂, r₂, new₂, leads₂, active₂, run₂, yields₂⟩ :=
      next w₁ new a leads active (yields a rfl)
    refine ⟨w₂, r₂, new ++ new₂, leads.trans leads₂, active₂.trans active, ?_, yields₂⟩
    rw [Step.bind_of_ok run, run₂, List.append_assoc]

theorem RunsTo.grows {good : List Call → α → Prop} (h : RunsTo w log x good) :
    ∃ new, (x (w.store, log)).2.2 = log ++ new := by
  obtain ⟨w', r, new, -, -, run, -⟩ := h
  exact ⟨new, by rw [run]⟩

end RunsTo

/-- A set of bad records: what is bad stays bad when more is recorded. -/
def Lasting (bad : List Call → Prop) : Prop := ∀ log more, bad log → bad (log ++ more)

namespace Ends

variable {α : Type} {bad : List Call → Prop} {X Z : Nat → Step (Store × List Call) α}
  {x z : Store × List Call}

/-- Only what happens from some fuel on matters. -/
theorem of_eventually (h : Ends bad X x) {M : Nat} (same : ∀ n, M ≤ n → Z n z = X n x) :
    Ends bad Z z := by
  rcases h with ⟨N, y, ended, settled⟩ | ⟨N, worsens⟩
  · refine Or.inl ⟨max N M, y, ended, fun n le => ?_⟩
    rw [same n (by omega)]
    exact settled n (by omega)
  · refine Or.inr ⟨max N M, fun n le => ?_⟩
    rw [same n (by omega)]
    exact worsens n (by omega)

theorem of_bad (lasting : Lasting bad) {w : World} {log : List Call}
    {good : List Call → α → Prop} (runs : ∀ n, RunsTo w log (X n) good) (h : bad log) :
    Ends bad X (w.store, log) := by
  refine Or.inr ⟨0, fun n _ => ?_⟩
  obtain ⟨new, grown⟩ := (runs n).grows
  rw [grown]
  exact lasting log new h

end Ends

namespace Judged

variable {α β : Type} {bad : List Call → Prop} {w : World} {log : List Call}
  {X : Nat → Step (Store × List Call) α} {F : Nat → α → Step (Store × List Call) β}
  {mid : List Call → α → Prop} {good : List Call → β → Prop}

theorem weaken {good good' : List Call → α → Prop} (h : Judged bad w log X good)
    (weaker : ∀ new a, good new a → good' new a) : Judged bad w log X good' :=
  ⟨fun n => (h.runs n).weaken weaker, h.ends⟩

theorem worse {bad' : List Call → Prop} {good : List Call → α → Prop}
    (h : Judged bad w log X good) (worse : ∀ log, bad log → bad' log) :
    Judged bad' w log X good := by
  refine ⟨h.runs, ?_⟩
  rcases h.ends with settled | ⟨N, worsens⟩
  · exact Or.inl settled
  · exact Or.inr ⟨N, fun n le => worse _ (worsens n le)⟩

theorem pure (within : w.store.Within .forward) {a : α} {good : List Call → α → Prop}
    (h : good [] a) : Judged bad w log (fun _ => Pure.pure a) good where
  runs _ := RunsTo.pure within h
  ends := Or.inl ⟨0, (.ok a, (w.store, log)), nofun, fun _ _ => rfl⟩

theorem bind (lasting : Lasting bad) (h : Judged bad w log X mid)
    (next : ∀ (w' : World) (new : List Call) (a : α), w.Leads w' →
      w'.store.active = w.store.active → mid new a →
        Judged bad w' (log ++ new) (fun n => F n a) fun more b => good (new ++ more) b) :
    Judged bad w log (fun n => X n >>= F n) good := by
  refine ⟨fun n => (h.runs n).bind fun w' new a leads active holds =>
    (next w' new a leads active holds).runs n, ?_⟩
  rcases h.ends with ⟨N, y, ended, settled⟩ | ⟨N, worsens⟩
  · obtain ⟨w₁, r, new, leads, active, run, yields⟩ := h.runs N
    obtain rfl : y = (r, (w₁.store, log ++ new)) := (settled N (Nat.le_refl N)).symm.trans run
    cases r with
    | error e =>
      refine Or.inl ⟨N, (.error e, (w₁.store, log ++ new)), ?_, fun n le => ?_⟩
      · exact fun eq => ended (by cases eq; rfl)
      · exact Step.bind_of_error (settled n le) _
    | ok a =>
      have rest := (next w₁ new a leads active (yields a rfl)).ends
      refine Ends.of_eventually (M := N) rest fun n le => ?_
      exact Step.bind_of_ok (settled n le) _
  · refine Or.inr ⟨N, fun n le => ?_⟩
    have already := worsens n le
    obtain ⟨w₁, r, new, leads, active, run, yields⟩ := h.runs n
    rw [run] at already
    dsimp only
    cases r with
    | error e =>
      rw [Step.bind_of_error run]
      exact already
    | ok a =>
      obtain ⟨new', grown⟩ := ((next w₁ new a leads active (yields a rfl)).runs n).grows
      rw [Step.bind_of_ok run, grown]
      exact lasting _ new' already

/-- A change of the value. -/
theorem map (lasting : Lasting bad) {P : Nat → Parser (Store × List Call) α} (f : α → β)
    {c : Cursor} (h : Judged bad w log (fun n => P n c) fun _ o => c.Reaches o.cursor) :
    Judged bad w log (fun n => (P n).map f c) fun _ o => c.Reaches o.cursor := by
  refine Judged.bind lasting h ?_
  rintro w' new (⟨v, r⟩ | e) leads - moved
  · exact Judged.pure leads.within moved
  · exact Judged.pure leads.within moved

/-- A run that is halted by a defect at once. -/
theorem halt (within : w.store.Within .forward) {good : List Call → α → Prop} {d : Defect}
    (run : ∀ n, X n (w.store, log) = (.error (.defect d), (w.store, log))) :
    Judged bad w log X good where
  runs n := by
    refine ⟨w, .error (.defect d), [], .refl within, rfl, ?_, nofun⟩
    rw [run, List.append_nil]
  ends := Or.inl ⟨0, (.error (.defect d), (w.store, log)), nofun, fun n _ => run n⟩

/-- A run that first moves on to a later world. -/
theorem step {w' : World} {Y : Nat → Step (Store × List Call) α} {good : List Call → α → Prop}
    (leads : w.Leads w') (active : w'.store.active = w.store.active)
    (same : ∀ n, X n (w.store, log) = Y n (w'.store, log)) (h : Judged bad w' log Y good) :
    Judged bad w log X good := by
  constructor
  · intro n
    obtain ⟨w₂, r, new, leads₂, active₂, run, yields⟩ := h.runs n
    exact ⟨w₂, r, new, leads.trans leads₂, active₂.trans active, (same n).trans run, yields⟩
  · exact h.ends.of_eventually (M := 0) fun n _ => same n

/-- A loop with fuel for a round begins with that round. -/
theorem of_round {F : Nat → Nat → Step (Store × List Call) α} {good : List Call → α → Prop}
    (i : Nat) (runs : ∀ n, RunsTo w log (F n (n - i)) good)
    (h : Judged bad w log (fun n => F n (n - (i + 1) + 1)) good) :
    Judged bad w log (fun n => F n (n - i)) good := by
  refine ⟨runs, h.ends.of_eventually (M := i + 1) fun n le => ?_⟩
  have fuel : n - i = n - (i + 1) + 1 := by omega
  exact congrFun (congrArg (F n) fuel) _

/-- The body of a rule runs with the rule active, and if it settles, so does the guarded body. -/
theorem guard {rule : RuleId} {c : Cursor} {P : Nat → Parser (Store × List Call) Value}
    {good : Outcome Value → Prop} (within : w.store.Within .forward)
    (h : Store.entry rule c ∉ w.store.active →
      Judged bad (w.withActive (Store.entry rule c :: w.store.active)) log (fun n => P n c)
        fun _ o => good o) :
    Judged bad w log (fun n => Machine.recording.guard rule (P n) c) fun _ o => good o := by
  by_cases entered : Store.entry rule c ∈ w.store.active
  · exact halt within fun n => Machine.recording_guard_of_mem entered
  · have body := h entered
    constructor
    · intro n
      obtain ⟨w₁, r, new, leads, active, run, yields⟩ := body.runs n
      refine ⟨w₁.withActive w.store.active, r, new, ⟨?_, fun _ => id, ?_⟩, rfl, ?_, yields⟩
      · have inside := World.le_trans (w.le_withActive _) leads.later
        exact World.le_trans inside (w₁.le_withActive _)
      · exact ⟨leads.within.cells, leads.within.resolved⟩
      · have inside : P n c (w.store.enter (Store.entry rule c), log) =
            (r, (w₁.store, log ++ new)) := run
        have left := Store.leave_of_active active
        rw [Machine.recording_guard_of_notMem entered, inside, left]
        rfl
    · have run (n : Nat) : Machine.recording.guard rule (P n) c (w.store, log) = _ :=
        Machine.recording_guard_of_notMem entered
      rcases body.ends with ⟨N, y, ended, settled⟩ | ⟨N, worsens⟩
      · refine Or.inl ⟨N, (y.1, (y.2.1.leave (Store.entry rule c), y.2.2)), ended, fun n le => ?_⟩
        have inside : P n c (w.store.enter (Store.entry rule c), log) = y := settled n le
        dsimp only
        rw [run, inside]
      · refine Or.inr ⟨N, fun n le => ?_⟩
        dsimp only
        rw [run]
        exact worsens n le

end Judged

/-- Runs from worlds that `w` leads to, all of which settle or leave something bad. -/
def settling {bad : List Call → Prop} (lasting : Lasting bad) (w : World) (c₀ : Cursor) :
    Judgement (Store × List Call) (Store × List Call) where
  region := c₀.Reaches
  moves := Cursor.Reaches
  holds X _ good := ∀ w', w.Leads w' → ∀ log, Judged bad w' log X fun _ a => good a
  moves_refl := Cursor.Reaches.refl
  moves_trans := Cursor.Reaches.trans
  moves_next := Cursor.Reaches.next
  region_moves := Cursor.Reaches.trans
  pure h _ leads _ := Judged.pure leads.within h
  bind hx hf w' leads log :=
    Judged.bind lasting (hx w' leads log) fun w'' _ a leads' _ mid =>
      hf a mid w'' (leads.trans leads') _

end Descent
