import Descent.Proofs.Recording

/-!
The order of events in a parse: where terms are entered, and where they are left with what result.
Main statement: once a term is left with a halt, no term is entered any more, all that are still
open are left with the same halt, and this is what the whole parse ends with.
-/

namespace Descent

/-- A term is entered at a cursor, or left with a result. -/
inductive Event
  | enter (t : Term) (c : Cursor)
  | leave (t : Term) (c : Cursor) (r : Except Halt (Outcome Value))

/-- The halt that a term is left with. -/
def Event.halt? : Event → Option Halt
  | leave _ _ (.error e) => some e
  | _ => none

theorem Event.eq_leave {x : Event} {e : Halt} (halts : x.halt? = some e) :
    ∃ t c, x = leave t c (.error e) := by
  cases x with
  | enter t c => cases halts
  | leave t c r =>
    cases r with
    | ok o => cases halts
    | error e' =>
      cases halts
      exact ⟨t, c, rfl⟩

namespace Call

mutual

/-- A call enters its term before all calls inside it, and leaves the term after them. -/
def events : Call → List Event
  | ⟨t, c, r, inner⟩ => .enter t c :: (eventsAll inner ++ [.leave t c r])

def eventsAll : List Call → List Event
  | [] => []
  | d :: more => d.events ++ eventsAll more

end

theorem eventsAll_append (log more : List Call) :
    eventsAll (log ++ more) = eventsAll log ++ eventsAll more := by
  induction log with
  | nil => rfl
  | cons d rest ih => rw [List.cons_append, eventsAll, eventsAll, ih, List.append_assoc]

end Call

/-- The events of a parse. -/
def Term.events (n : Nat) (t : Term) (c : Cursor) (s : Store) : List Event :=
  Call.eventsAll (t.calls n c s)

/-- A halt among the events is what the run ends with, and after it there are only terms being
left with it. -/
def Reports {α : Type} (r : Except Halt α) (events : List Event) : Prop :=
  (∀ x ∈ events, ∀ e, x.halt? = some e → r = .error e) ∧
    events.Pairwise fun x y => ∀ e, x.halt? = some e → y.halt? = some e

namespace Reports

variable {α β : Type} {events more : List Event}

theorem nil (r : Except Halt α) : Reports r [] := ⟨nofun, .nil⟩

theorem error {e : Halt} (h : Reports (.error e : Except Halt α) events) :
    Reports (.error e : Except Halt β) events :=
  ⟨fun x mem e halts => by cases h.1 x mem e halts; rfl, h.2⟩

/-- A run that goes on after a result has seen no halt so far. -/
theorem append {a : α} {r : Except Halt β} (h : Reports (.ok a : Except Halt α) events)
    (k : Reports r more) : Reports r (events ++ more) := by
  constructor
  · intro x mem e halts
    rcases List.mem_append.mp mem with earlier | later
    · exact nomatch h.1 x earlier e halts
    · exact k.1 x later e halts
  · refine List.pairwise_append.mpr ⟨h.2, k.2, fun x mem y _ e halts => ?_⟩
    exact nomatch h.1 x mem e halts

theorem call {r : Except Halt (Outcome Value)} (h : Reports r events) (t : Term) (c : Cursor) :
    Reports r (.enter t c :: (events ++ [.leave t c r])) := by
  have left (e : Halt) (result : r = .error e) : (Event.leave t c r).halt? = some e := by
    rw [result]
    rfl
  constructor
  · intro x mem e halts
    rcases List.mem_cons.mp mem with rfl | mem
    · cases halts
    · rcases List.mem_append.mp mem with inside | last
      · exact h.1 x inside e halts
      · rw [List.mem_singleton.mp last] at halts
        cases r with
        | ok o => cases halts
        | error e' => exact congrArg Except.error (Option.some.inj halts)
  · refine List.pairwise_cons.mpr ⟨fun _ _ _ => nofun, ?_⟩
    refine List.pairwise_append.mpr ⟨h.2, List.pairwise_singleton _ _, ?_⟩
    intro x mem y last e halts
    rw [List.mem_singleton.mp last]
    exact left e (h.1 x mem e halts)

/-- Where a halt is seen, the run ends with it. -/
theorem of_halt {r : Except Halt α} (h : Reports r events) {before after : List Event} {x : Event}
    (split : events = before ++ x :: after) {e : Halt} (halts : x.halt? = some e) :
    r = .error e ∧ ∀ y ∈ after, y.halt? = some e := by
  subst split
  have follow := (List.pairwise_cons.mp (List.pairwise_append.mp h.2).2.1).1
  exact ⟨h.1 x (by simp) e halts, fun y mem => follow y mem e halts⟩

end Reports

/-- A run whose new events report its result. -/
def reporting : Judgement (Store × List Call) (Store × List Call) :=
  Judgement.ofRelation
    (fun x _ => ∀ s log, ∃ more, (x (s, log)).2.2 = log ++ more ∧
      Reports (x (s, log)).1 (Call.eventsAll more))
    (fun a s log => ⟨[], (List.append_nil log).symm, .nil _⟩) <| by
      intro α β x y f g first rest s log
      obtain ⟨more, grown, reports⟩ := first s log
      rcases run : x (s, log) with ⟨e | a, t, log'⟩
      · rw [run] at grown reports
        rw [Step.bind_of_error run]
        exact ⟨more, grown, reports.error⟩
      · rw [run] at grown reports
        obtain rfl : log' = log ++ more := grown
        obtain ⟨more', grown', reports'⟩ := rest a (s, log) (t, log ++ more) run t (log ++ more)
        rw [Step.bind_of_ok run]
        refine ⟨more ++ more', by rw [grown', List.append_assoc], ?_⟩
        rw [Call.eventsAll_append]
        exact reports.append reports'

theorem reporting_lift {α : Type} (x : Step Store α) {good : α → Prop} (all : ∀ a, good a) :
    reporting.holds (fun _ => Machine.recording.lift x) (fun _ => Machine.recording.lift x) good :=
  fun _ => ⟨fun _ log => ⟨[], (List.append_nil log).symm, .nil _⟩, fun a _ _ _ => all a⟩

theorem reporting_call (t : Term) {p p' : Parser (Store × List Call) Value}
    (h : reporting.Parsers (fun _ => p) fun _ => p') :
    reporting.Parsers (fun _ => Machine.recording.call t p)
      fun _ => Machine.recording.call t p' := by
  intro c hc n
  constructor
  · intro s log
    obtain ⟨inner, grown, reports⟩ := (h c hc n).1 s []
    dsimp only at grown reports ⊢
    rw [List.nil_append] at grown
    refine ⟨[⟨t, c, (p c (s, [])).1, inner⟩], ?_, ?_⟩
    · rw [Machine.recording_call, grown]
    · rw [Machine.recording_call, Call.eventsAll, Call.eventsAll, Call.events, List.append_nil]
      exact reports.call t c
  · exact fun _ _ _ _ => trivial

theorem reporting_guard (rule : RuleId) {p p' : Parser (Store × List Call) Value}
    (h : reporting.Parsers (fun _ => p) fun _ => p') :
    reporting.Parsers (fun _ => Machine.recording.guard rule p)
      fun _ => Machine.recording.guard rule p' := by
  intro c hc n
  constructor
  · intro s log
    dsimp only
    by_cases entered : Store.entry rule c ∈ s.active
    · rw [Machine.recording_guard_of_mem entered]
      exact ⟨[], (List.append_nil log).symm, .nil _⟩
    · rw [Machine.recording_guard_of_notMem entered]
      exact (h c hc n).1 (s.enter (Store.entry rule c)) log
  · exact fun _ _ _ _ => trivial

theorem reporting_machines : reporting.Machines .all .recording .recording where
  call t _ _ _ := reporting_call t
  guard rule _ _ := reporting_guard rule
  build _ _ _ _ := reporting_lift _ Term.within_all
  definition _ := reporting_lift _ Term.within_all
  resolve _ _ _ _ := reporting_lift _ Term.within_all

namespace Term

theorem reports_events (n : Nat) (t : Term) (c : Cursor) (s : Store) :
    Reports (t.parse n c s).1 (t.events n c s) := by
  have spent : reporting.Partial := fun _ _ _ _ =>
    ⟨fun _ log => ⟨[], (List.append_nil log).symm, .nil _⟩, fun _ _ _ eq => nomatch eq⟩
  have judged := Judgement.evaluate_all (fun _ _ => trivial) reporting_machines
    (spent.fuels (Nat.le_refl n)) t
  obtain ⟨more, grown, reports⟩ := (judged c trivial 0).1 s []
  obtain ⟨more', run⟩ := t.evaluate_recording n c s []
  dsimp only at grown reports
  rw [run] at grown reports
  obtain rfl : more' = more := grown
  rw [events, calls, run]
  exact reports

/-- A parse begins by entering its term and ends by leaving it with the result. -/
theorem events_succ (n : Nat) (t : Term) (c : Cursor) (s : Store) : ∃ inner,
    t.events (n + 1) c s = .enter t c :: (inner ++ [.leave t c (t.parse (n + 1) c s).1]) := by
  obtain ⟨p, body⟩ : ∃ p, t.evaluate .recording (n + 1) = Machine.recording.call t p := ⟨_, rfl⟩
  obtain ⟨more, run⟩ := t.evaluate_recording (n + 1) c s []
  rw [body, Machine.recording_call] at run
  have result : (p c (s, [])).1 = (t.parse (n + 1) c s).1 := congrArg Prod.fst run
  refine ⟨Call.eventsAll (p c (s, [])).2.2, ?_⟩
  rw [events, calls, body, Machine.recording_call, result]
  exact List.append_nil _

end Term

/-- A halt ends a parse at once. When a term is left with a halt, no term is entered after it, all
that are open are left with the same halt, and so is the whole parse, whatever the term stands in;
a parse with an outcome has left no term with a halt. The events are those of the parse: it begins
by entering its term and ends by leaving it with the result. -/
theorem halt_ends_parse (n : Nat) (t : Term) (c : Cursor) (s : Store) :
    (∀ before x after h, t.events n c s = before ++ x :: after → x.halt? = some h →
      (t.parse n c s).1 = .error h ∧ ∀ y ∈ after, ∃ u d, y = .leave u d (.error h)) ∧
    (∀ o, (t.parse n c s).1 = .ok o → ∀ u d h, .leave u d (.error h) ∉ t.events n c s) ∧
    ∃ inner, t.events (n + 1) c s =
      .enter t c :: (inner ++ [.leave t c (t.parse (n + 1) c s).1]) := by
  have reports := t.reports_events n c s
  refine ⟨fun before x after h split halts => ?_, fun o yields u d h mem => ?_, t.events_succ n c s⟩
  · obtain ⟨result, rest⟩ := reports.of_halt split halts
    exact ⟨result, fun y mem => Event.eq_leave (rest y mem)⟩
  · have result := reports.1 _ mem h rfl
    rw [yields] at result
    cases result

/-- Left recursion under combinators that put up with failures: where the rule is left with the
defect, so are all of them, and the alternative is not tried. -/
theorem left_recursion_under_choices_ends_parse :
    let r := Node.rule "r"
    let swallowing := Node.apply .many (.apply .not (.apply .optional (.apply .attempt r)))
    let g : Grammar := ⟨[("r", .binary .thenIgnore r (.char ','))],
      .binary .xor swallowing (.char 'a')⟩
    let t := (g.build .empty).1
    let s := (g.build .empty).2
    let c := Cursor.start ['a']
    let defect : Halt := .defect (.leftRecursion ⟨0⟩ c.location)
    ∃ before x after, t.events 8 c s = before ++ x :: after ∧ x.halt? = some defect ∧
      (t.parse 8 c s).1 = .error defect ∧ after.length = 7 ∧
      ∀ y ∈ after, ∃ u d, y = .leave u d (.error defect) := by
  intro r swallowing g t s c defect
  have halts : (t.events 8 c s).map Event.halt? =
      List.replicate 8 none ++ some defect :: List.replicate 7 (some defect) := by
    decide +kernel
  obtain ⟨before, rest, split, -, halts⟩ := List.map_eq_append_iff.mp halts
  obtain ⟨x, after, rfl, first, later⟩ := List.map_eq_cons_iff.mp halts
  obtain ⟨result, left⟩ := (halt_ends_parse 8 t c s).1 _ _ _ _ split first
  exact ⟨before, x, after, split, first, result, by simpa using congrArg List.length later, left⟩

end Descent
