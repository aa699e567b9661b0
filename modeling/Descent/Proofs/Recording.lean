import Descent.Proofs.Fuel

/-!
Parses that keep a record of their calls.
Main statements: keeping the record does not change the parse, the record only grows, and once the
parse has come to its end, more fuel does not change the record.
-/

namespace Descent

/-- The evaluation of a term from a cursor, with what came of it and the evaluations inside it. -/
structure Call where
  term : Term
  start : Cursor
  result : Except Halt (Outcome Value)
  inner : List Call

namespace Call

def SucceedsAt (c : Call) (position : Nat) : Prop :=
  match c.result with
  | .ok (.success _ r) => r.position = position
  | _ => False

/-- Separators, each with the item after it. -/
def pairs : List Call → List (Call × Call)
  | separator :: item :: more => (separator, item) :: pairs more
  | _ => []

/-- The rounds of a repetition: where each of them began, and the call that it ended with. The first
item of a separated list is no round. -/
def rounds (c : Call) : List (Cursor × Call) :=
  match c.term with
  | .unary .many _ => c.inner.map fun element => (element.start, element)
  | .unary .atLeastOnce _ => c.inner.map fun element => (element.start, element)
  | .binary .separatedBy _ _ => (pairs c.inner.tail).map fun pair => (pair.1.start, pair.2)
  | _ => []

/-- Some round of a repetition has succeeded without consuming input. -/
def Idles (c : Call) : Prop := ∃ round ∈ c.rounds, round.2.SucceedsAt round.1.position

/-- Some repetition inside the call idles. -/
inductive Stalls : Call → Prop
  | here {c : Call} (idles : c.Idles) : Stalls c
  | inside {c d : Call} (mem : d ∈ c.inner) (stalls : Stalls d) : Stalls c

instance (c : Call) (position : Nat) : Decidable (c.SucceedsAt position) :=
  match c with
  | ⟨_, _, .ok (.success _ r), _⟩ => inferInstanceAs (Decidable (r.position = position))
  | ⟨_, _, .ok (.failure _), _⟩ => inferInstanceAs (Decidable False)
  | ⟨_, _, .error _, _⟩ => inferInstanceAs (Decidable False)

instance (c : Call) : Decidable c.Idles :=
  inferInstanceAs (Decidable (∃ round ∈ c.rounds, round.2.SucceedsAt round.1.position))

mutual

/-- Looks for a repetition that idles in a call. -/
def search : Call → Bool
  | ⟨t, c, r, inner⟩ => decide (Idles ⟨t, c, r, inner⟩) || searchAll inner

def searchAll : List Call → Bool
  | [] => false
  | d :: more => d.search || searchAll more

end

mutual

theorem search_iff : (c : Call) → (c.search = true ↔ c.Stalls)
  | ⟨t, c, r, inner⟩ => by
    rw [search, Bool.or_eq_true, decide_eq_true_iff, searchAll_iff inner]
    constructor
    · rintro (idles | ⟨d, mem, stalls⟩)
      · exact .here idles
      · exact .inside mem stalls
    · rintro (idles | ⟨mem, stalls⟩)
      · exact Or.inl idles
      · exact Or.inr ⟨_, mem, stalls⟩

theorem searchAll_iff : (log : List Call) → (searchAll log = true ↔ ∃ d ∈ log, d.Stalls)
  | [] => by simp [searchAll]
  | d :: more => by
    rw [searchAll, Bool.or_eq_true, search_iff d, searchAll_iff more]
    simp

end

instance (c : Call) : Decidable c.Stalls := decidable_of_iff _ c.search_iff

end Call

/-- Runs over a store and a record of calls, detecting left recursion. -/
def Machine.recording : Machine (Store × List Call) where
  lift x := fun (s, log) => let r := x s; (r.1, (r.2, log))
  call t p := fun c (s, log) => let r := p c (s, []); (r.1, (r.2.1, log ++ [⟨t, c, r.1, r.2.2⟩]))
  guard rule p := fun c (s, log) =>
    let e := Store.entry rule c
    if e ∈ s.active then (.error (.defect (.leftRecursion rule c.location)), (s, log))
    else let r := p c (s.enter e, log); (r.1, (r.2.1.leave e, r.2.2))

/-- The calls of a parse. -/
def Term.calls (n : Nat) (t : Term) (c : Cursor) (s : Store) : List Call :=
  (t.evaluate .recording n c (s, [])).2.2

namespace Machine

section

variable {t : Term} {p : Parser (Store × List Call) Value} {c : Cursor} {s : Store}
  {log : List Call} {rule : RuleId}

theorem recording_lift {α : Type} (x : Step Store α) :
    recording.lift x (s, log) = ((x s).1, ((x s).2, log)) := rfl

theorem recording_call : recording.call t p c (s, log) =
    ((p c (s, [])).1, ((p c (s, [])).2.1, log ++ [⟨t, c, (p c (s, [])).1, (p c (s, [])).2.2⟩])) :=
  rfl

theorem recording_guard_of_mem (h : Store.entry rule c ∈ s.active) :
    recording.guard rule p c (s, log) =
      (.error (.defect (.leftRecursion rule c.location)), (s, log)) :=
  if_pos h

theorem recording_guard_of_notMem (h : Store.entry rule c ∉ s.active) :
    recording.guard rule p c (s, log) =
      ((p c (s.enter (Store.entry rule c), log)).1,
        ((p c (s.enter (Store.entry rule c), log)).2.1.leave (Store.entry rule c),
          (p c (s.enter (Store.entry rule c), log)).2.2)) :=
  if_neg h

end

end Machine

/-- The second run does what the first one does, and adds to its record. -/
def recorded : Judgement Store (Store × List Call) :=
  Judgement.ofRelation
    (fun x y => ∀ s log, ∃ more, y (s, log) = ((x s).1, ((x s).2, log ++ more)))
    (fun a s log => ⟨[], by rw [List.append_nil]; rfl⟩) <| by
      intro α β x y f g first rest s log
      obtain ⟨more, run⟩ := first s log
      rcases plain : x s with ⟨e | a, t⟩
      · rw [plain] at run
        refine ⟨more, ?_⟩
        rw [Step.bind_of_error plain, Step.bind_of_error run]
      · rw [plain] at run
        obtain ⟨more', run'⟩ := rest a s t plain t (log ++ more)
        refine ⟨more ++ more', ?_⟩
        rw [Step.bind_of_ok plain, Step.bind_of_ok run, run', List.append_assoc]

theorem recorded_lift {α : Type} (x : Step Store α) {good : α → Prop} (all : ∀ a, good a) :
    recorded.holds (fun _ => x) (fun _ => Machine.recording.lift x) good :=
  fun _ => ⟨fun s log => ⟨[], by rw [List.append_nil]; rfl⟩, fun a _ _ _ => all a⟩

theorem recorded_call (t : Term) {p : Parser Store Value} {p' : Parser (Store × List Call) Value}
    (h : recorded.Parsers (fun _ => p) fun _ => p') :
    recorded.Parsers (fun _ => p) fun _ => Machine.recording.call t p' := by
  intro c hc n
  constructor
  · intro s log
    obtain ⟨more, run⟩ := (h c hc n).1 s []
    dsimp only at run ⊢
    exact ⟨_, by rw [Machine.recording_call, run]⟩
  · exact (h c hc n).2

theorem recorded_guard (rule : RuleId) {p : Parser Store Value}
    {p' : Parser (Store × List Call) Value} (h : recorded.Parsers (fun _ => p) fun _ => p') :
    recorded.Parsers (fun _ => guarded rule p) fun _ => Machine.recording.guard rule p' := by
  intro c hc n
  constructor
  · intro s log
    dsimp only
    by_cases entered : Store.entry rule c ∈ s.active
    · refine ⟨[], ?_⟩
      rw [guarded_of_mem entered, Machine.recording_guard_of_mem entered, List.append_nil]
    · obtain ⟨more, run⟩ := (h c hc n).1 (s.enter (Store.entry rule c)) log
      refine ⟨more, ?_⟩
      dsimp only at run
      rw [guarded_of_notMem entered, Machine.recording_guard_of_notMem entered, run]
  · exact fun _ _ _ _ => trivial

theorem recorded_machines : recorded.Machines .all .guarding .recording where
  call t _ _ _ := recorded_call t
  guard rule _ _ := recorded_guard rule
  build _ _ _ _ := recorded_lift _ Term.within_all
  definition _ := recorded_lift _ Term.within_all
  resolve _ _ _ _ := recorded_lift _ Term.within_all

/-- A recorded parse is the parse, and adds to the record that it was given. -/
theorem Term.evaluate_recording (n : Nat) (t : Term) (c : Cursor) (s : Store) (log : List Call) :
    ∃ more, t.evaluate .recording n c (s, log) =
      ((t.parse n c s).1, ((t.parse n c s).2, log ++ more)) := by
  have fuel : recorded.Fuels n n := Or.inl ⟨rfl, fun _ _ =>
    ⟨fun _ _ => ⟨[], by rw [List.append_nil]; rfl⟩, fun _ _ _ eq => nomatch eq⟩⟩
  have judged := Judgement.evaluate_all (fun _ _ => trivial) recorded_machines fuel t
  exact (judged c trivial 0).1 s log

theorem Machine.recording_steady :
    (steady (Store × List Call)).Machines .all .recording .recording where
  call t _ p p' h c hc n := by
    constructor
    · rintro ⟨s, log⟩ ended
      dsimp only at ended ⊢
      rw [recording_call] at ended ⊢
      have body : p' c (s, []) = p c (s, []) := (h c hc n).1 (s, []) ended
      rw [recording_call, body]
    · exact fun _ _ _ _ => trivial
  guard rule p p' h c hc n := by
    constructor
    · rintro ⟨s, log⟩ ended
      dsimp only at ended ⊢
      by_cases entered : Store.entry rule c ∈ s.active
      · exact (recording_guard_of_mem entered).trans (recording_guard_of_mem entered).symm
      · rw [recording_guard_of_notMem entered] at ended ⊢
        have body : p' c (s.enter _, log) = p c (s.enter _, log) := (h c hc n).1 _ ended
        rw [recording_guard_of_notMem entered, body]
    · exact fun _ _ _ _ => trivial
  build _ _ _ _ := steady_refl _ Term.within_all
  definition _ := steady_refl _ Term.within_all
  resolve _ _ _ _ := steady_refl _ Term.within_all

/-- The calls of a parse that has come to its end are all the calls that there are. -/
theorem Term.calls_of_ended {n k : Nat} (fuel : n ≤ k) {t : Term} {c : Cursor} {s : Store}
    (ended : (t.parse n c s).1 ≠ .error .outOfFuel) : t.calls k c s = t.calls n c s := by
  obtain ⟨more, run⟩ := t.evaluate_recording n c s []
  have ended' : (t.evaluate .recording n c (s, [])).1 ≠ .error .outOfFuel := by
    rw [run]
    exact ended
  have same := Term.evaluate_mono Machine.recording_steady fuel t c (s, []) ended'
  exact congrArg (·.2.2) same

end Descent
