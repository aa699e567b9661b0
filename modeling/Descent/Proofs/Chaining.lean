import Descent.Proofs.Recording

/-!
Grammars that repeat nothing but chains.
Main statement: whatever operators and operands the chains have, no call stalls.
-/

namespace Descent

/-- Grammars without repetitions of elements. -/
def Fragment.chaining : Fragment where
  atom _ := True
  unary op := op ≠ .many ∧ op ≠ .atLeastOnce
  binary op := op ≠ .separatedBy

/-- Runs that keep an invariant of the state. -/
def keeping {σ : Type} (I : σ → Prop) : Judgement σ σ where
  region _ := True
  moves _ _ := True
  holds X _ good := ∀ n x, I x → I (X n x).2 ∧ ∀ a, (X n x).1 = .ok a → good a
  moves_refl _ := trivial
  moves_trans _ _ := trivial
  moves_next _ := trivial
  region_moves _ _ := trivial
  pure h _ _ kept := ⟨kept, fun _ eq => by cases eq; exact h⟩
  bind {α β X Y F G mid good} hx hf n x start := by
    obtain ⟨kept, yields⟩ := hx n x start
    dsimp only
    rcases run : X n x with ⟨e | a, y⟩
    · rw [run] at kept
      rw [Step.bind_of_error run]
      exact ⟨kept, nofun⟩
    · rw [run] at kept yields
      rw [Step.bind_of_ok run]
      exact hf a (yields a rfl) n y kept

theorem keeping_partial {σ : Type} (I : σ → Prop) : (keeping I).Partial :=
  fun _ _ _ _ _ kept => ⟨kept, nofun⟩

/-- No call stalls, and none of the grammar will. -/
def Chaining (x : Store × List Call) : Prop := x.1.Within .chaining ∧ ∀ d ∈ x.2, ¬ d.Stalls

theorem Call.not_idles {c : Call} (inside : c.term.Within .chaining) : ¬ c.Idles := by
  obtain ⟨t, start, r, inner⟩ := c
  rintro ⟨round, mem, -⟩
  cases t with
  | unary op p =>
    obtain ⟨many, atLeastOnce⟩ := inside.1
    cases op with
    | many => exact many rfl
    | atLeastOnce => exact atLeastOnce rfl
    | _ => cases mem
  | binary op p q =>
    cases op with
    | separatedBy => exact inside.1 rfl
    | _ => cases mem
  | _ => cases mem

namespace Chaining

theorem call {t : Term} (inside : t.Within .chaining) {p p' : Parser (Store × List Call) Value}
    (h : (keeping Chaining).Parsers (fun _ => p) fun _ => p') :
    (keeping Chaining).Parsers (fun _ => Machine.recording.call t p)
      fun _ => Machine.recording.call t p' := by
  rintro c hc n ⟨s, log⟩ ⟨store, earlier⟩
  obtain ⟨⟨kept, calls⟩, -⟩ := h c hc n (s, []) ⟨store, nofun⟩
  dsimp only
  rw [Machine.recording_call]
  refine ⟨⟨kept, fun d mem => ?_⟩, fun _ _ => trivial⟩
  rcases List.mem_append.mp mem with before | here
  · exact earlier d before
  · obtain rfl := List.mem_singleton.mp here
    rintro (idles | ⟨mem, stalls⟩)
    · exact Call.not_idles inside idles
    · exact calls _ mem stalls

theorem guard (rule : RuleId) {p p' : Parser (Store × List Call) Value}
    (h : (keeping Chaining).Parsers (fun _ => p) fun _ => p') :
    (keeping Chaining).Parsers (fun _ => Machine.recording.guard rule p)
      fun _ => Machine.recording.guard rule p' := by
  rintro c hc n ⟨s, log⟩ ⟨store, calls⟩
  dsimp only
  by_cases entered : Store.entry rule c ∈ s.active
  · rw [Machine.recording_guard_of_mem entered]
    exact ⟨⟨store, calls⟩, nofun⟩
  · rw [Machine.recording_guard_of_notMem entered]
    obtain ⟨⟨kept, calls'⟩, yields⟩ :=
      h c hc n (s.enter (Store.entry rule c), log) ⟨⟨store.cells, store.resolved⟩, calls⟩
    exact ⟨⟨⟨kept.cells, kept.resolved⟩, calls'⟩, yields⟩

theorem definition (rule : RuleId) :
    (keeping Chaining).holds (fun _ => Machine.recording.lift (Store.definition rule))
      (fun _ => Machine.recording.lift (Store.definition rule)) fun q => q.Within .chaining := by
  rintro n ⟨s, log⟩ ⟨store, calls⟩
  dsimp only
  rw [Machine.recording_lift]
  cases found : s.definition? rule with
  | none =>
    rw [Store.definition_of_none found]
    exact ⟨⟨store, calls⟩, nofun⟩
  | some q =>
    rw [Store.definition_of_some found]
    refine ⟨⟨store, calls⟩, fun a eq => ?_⟩
    cases eq
    exact store.cells rule q found

theorem machines : (keeping Chaining).Machines .chaining .recording .recording where
  call _ inside _ _ h := call inside h
  guard rule _ _ h := guard rule h
  definition := definition
  build next scope v inside := by
    rintro n ⟨s, log⟩ ⟨store, calls⟩
    obtain ⟨within, kept⟩ := next.build_within scope v store inside
    refine ⟨⟨kept, calls⟩, fun a eq => ?_⟩
    cases eq
    exact within
  resolve rule body scope inside := by
    rintro n ⟨s, log⟩ ⟨store, calls⟩
    obtain ⟨q, run, within, kept⟩ := store.resolve rule scope inside
    dsimp only
    rw [Machine.recording_lift, run]
    refine ⟨⟨kept, calls⟩, fun a eq => ?_⟩
    cases eq
    exact within

end Chaining

/-- No call of a grammar stalls that repeats nothing but chains. -/
theorem Term.not_stalls_of_chaining (n : Nat) {t : Term} (inside : t.Within .chaining) (c : Cursor)
    {s : Store} (store : s.Within .chaining) : ∀ d ∈ t.calls n c s, ¬ d.Stalls := by
  have judged := Judgement.evaluate (fun _ _ _ _ => trivial) Chaining.machines
    ((keeping_partial Chaining).fuels (Nat.le_refl n)) inside
  exact (judged c trivial 0 (s, []) ⟨store, nofun⟩).1.2

end Descent
