import Descent.Proofs.Batches
import Descent.Proofs.Chaining
import Descent.Proofs.Transparency

/-!
Termination. A parse terminates if from some amount of fuel on it stays the same without running
out.
Main statement: a parse terminates if it calls no repetition that goes on without consuming input.
What would go on for ever without the guard terminates with left recursion.
-/

namespace Descent

namespace World

/-- How deep everything is nested that an identity stands for. -/
def nesting (w : World) (id : RuleId) : Nat :=
  max ((w.catalog id).elim 0 fun kind => kind.1.nesting + 1)
    (max ((w.store.definition? id).elim 0 Term.nesting)
      ((w.store.resolved.lookup id).elim 0 Term.nesting))

/-- How deep everything is nested that the first identities stand for. -/
def depth (w : World) : Nat → Nat
  | 0 => 0
  | n + 1 => max (w.depth n) (w.nesting ⟨n⟩)

variable {w : World} {depth : Nat} {id : RuleId}

theorem nesting_le_depth {n : Nat} (old : id.number < n) : w.nesting id ≤ w.depth n := by
  induction n with
  | zero => omega
  | succ n ih =>
    rw [World.depth]
    by_cases last : id.number = n
    · subst last
      exact Nat.le_max_right ..
    · have earlier := ih (by omega)
      omega

theorem nesting_of_catalog {body : Node} {scope : Scope}
    (kind : w.catalog id = some (body, scope)) : body.nesting + 1 ≤ w.nesting id := by
  rw [nesting, kind]
  exact Nat.le_max_left ..

theorem nesting_of_definition {q : Term} (found : w.store.definition? id = some q) :
    q.nesting ≤ w.nesting id := by
  rw [nesting, found]
  exact Nat.le_trans (Nat.le_max_left ..) (Nat.le_max_right ..)

theorem nesting_of_resolved {q : Term} (found : w.store.resolved.lookup id = some q) :
    q.nesting ≤ w.nesting id := by
  rw [nesting, found]
  exact Nat.le_trans (Nat.le_max_right ..) (Nat.le_max_right ..)

/-- Everything in a world belongs to one batch of all its identities. -/
theorem fits_of_known (deep : w.depth w.store.nextRule ≤ depth) {t : Term}
    (known : t.Known w.catalog w.store.nextRule) (nested : t.nesting ≤ depth) :
    w.catalog.Fits (fun _ => False) depth 0 w.store.nextRule t := by
  have rule (id : RuleId) (h : w.catalog.Rule w.store.nextRule id) :
      w.catalog.rules (fun _ => False) 0 w.store.nextRule id :=
    Or.inr ⟨⟨Nat.zero_le _, h.1⟩, h.2⟩
  refine ⟨known.mono rule ?_, nested⟩
  rintro id body scope inScope ⟨old, kind⟩
  have nested := Nat.le_trans (nesting_of_catalog kind) (nesting_le_depth old)
  exact ⟨⟨Nat.zero_le _, old⟩, kind, inScope.mono rule, Nat.le_trans nested deep⟩

theorem covers_self (deep : w.depth w.store.nextRule ≤ depth) :
    w.Covers w (fun _ => False) depth 0 w.store.nextRule where
  later := w.le_refl
  bound := Nat.le_refl _
  scope _ := False.elim
  cells id q within found := by
    have nested := Nat.le_trans (nesting_of_definition found) (nesting_le_depth within.2)
    exact fits_of_known deep (w.cells id q found).2 (Nat.le_trans nested deep)
  resolved id q within found := by
    have nested := Nat.le_trans (nesting_of_resolved found) (nesting_le_depth within.2)
    exact fits_of_known deep (w.resolved id q found).2.2 (Nat.le_trans nested deep)

/-- Every known term settles or stalls. -/
theorem settles (store : w.store.Within .forward) {t : Term}
    (known : t.Known w.catalog w.store.nextRule) (inside : t.Within .forward) (c : Cursor) :
    t.Settles w c := by
  have fits := fits_of_known (Nat.le_max_left _ t.nesting) known (Nat.le_max_right ..)
  exact w.builds _ (covers_self (Nat.le_max_left ..)) fits inside store fun _ => False.elim

end World

namespace Term

/-- With enough fuel, the parse ends with an outcome or with a defect of the grammar, and more fuel
changes nothing. -/
def Terminates (t : Term) (c : Cursor) (s : Store) : Prop :=
  ∃ (N : Nat) (r : Except Halt (Outcome Value)) (s' : Store),
    (∀ n, N ≤ n → t.parse n c s = (r, s')) ∧ ((∃ o, r = .ok o) ∨ ∃ d, r = .error (.defect d))

variable {t : Term} {c : Cursor} {s : Store}

theorem terminates (coherent : s.Coherent t) (inside : t.Within .forward)
    (store : s.Within .forward) (progress : ∀ n, ∀ d ∈ t.calls n c s, ¬ d.Stalls) :
    t.Terminates c s := by
  obtain ⟨w, rfl, known⟩ := coherent
  have settles := w.settles store known inside c
  rcases (settles c (Cursor.Reaches.refl c) w (.refl store) []).ends with
    ⟨N, ⟨r, s', log⟩, ended, settled⟩ | ⟨N, stalls⟩
  · refine ⟨N, r, s', fun n le => ?_, ?_⟩
    · obtain ⟨more, run⟩ := t.evaluate_recording n c w.store []
      have same : ((t.parse n c w.store).1, ((t.parse n c w.store).2, [] ++ more)) =
          (r, (s', log)) := run.symm.trans (settled n le)
      exact Prod.ext (congrArg (·.1) same) (congrArg (·.2.1) same)
    · rcases r with (d | _) | o
      · exact Or.inr ⟨d, rfl⟩
      · exact absurd rfl ended
      · exact Or.inl ⟨o, rfl⟩
  · obtain ⟨d, mem, stalled⟩ := stalls N (Nat.le_refl N)
    exact absurd stalled (progress N d mem)

/-- A parse that terminates though it would not do so without the guard ends with left recursion. -/
theorem Terminates.leftRecursion (h : t.Terminates c s)
    (endless : ∀ n, (t.evaluate .trusting n c s).1 = .error .outOfFuel) :
    ∃ N rule l, ∀ n, N ≤ n → (t.parse n c s).1 = .error (.defect (.leftRecursion rule l)) := by
  obtain ⟨N, r, s', settled, ends⟩ := h
  have result : (t.parse N c s).1 = r := congrArg Prod.fst (settled N (Nat.le_refl N))
  have refused : ¬ ∀ e, r = .error e → e.Final := by
    intro final
    have spent := (evaluate_of_parse result final).symm.trans (endless N)
    rcases ends with ⟨o, rfl⟩ | ⟨d, rfl⟩ <;> cases spent
  rcases ends with ⟨o, rfl⟩ | ⟨d, rfl⟩
  · exact absurd nofun refused
  · cases d with
    | leftRecursion rule l =>
      exact ⟨N, rule, l, fun n le => congrArg Prod.fst (settled n le)⟩
    | _ => exact absurd (fun e eq => by cases eq; trivial) refused

end Term

/-- A parse terminates, with an outcome or with a defect of the grammar, if no repetition is called
whose elements, or whose separators each with the item after it, succeed without consuming input.
In particular a parse that would go on for ever without the guard terminates with left recursion,
and grammars that repeat nothing but chains terminate whatever their operators and operands are.
This holds of all grammars whose closures do not go back, in stores that they have been built in. -/
theorem parse_terminates :
    (∀ (t : Term) (s : Store), s.Coherent t → t.Within .forward → s.Within .forward →
      ∀ c : Cursor, (∀ n, ∀ d ∈ t.calls n c s, ¬ d.Stalls) →
        t.Terminates c s ∧
        ((∀ n, (t.evaluate .trusting n c s).1 = .error .outOfFuel) → ∃ N rule l, ∀ n, N ≤ n →
          (t.parse n c s).1 = .error (.defect (.leftRecursion rule l)))) ∧
    (∀ (t : Term) (s : Store), s.Coherent t → t.Within .forward → s.Within .forward →
      t.Within .chaining → s.Within .chaining → ∀ c : Cursor, t.Terminates c s) ∧
    ∀ g : Grammar, (g.build .empty).2.Coherent (g.build .empty).1 ∧
      ∀ F, g.Within F → (g.build .empty).1.Within F ∧ (g.build .empty).2.Within F := by
  refine ⟨?_, ?_, fun g => ⟨g.build_coherent, fun F => Grammar.build_within⟩⟩
  · intro t s coherent inside store c progress
    have ends := Term.terminates coherent inside store progress
    exact ⟨ends, ends.leftRecursion⟩
  · intro t s coherent inside store insideChains storeChains c
    exact Term.terminates coherent inside store fun n =>
      t.not_stalls_of_chaining n insideChains c storeChains

/-- A rule that calls itself behind a repetition that may find nothing ends with left recursion, and
a chain whose operators and operands consume nothing ends as well. -/
theorem recursion_behind_repetition_ends :
    let body := Node.binary .both (.apply .many (.char ' ')) (.rule "r")
    let g : Grammar := ⟨[("r", body)], .rule "r"⟩
    let t := (g.build .empty).1
    let s := (g.build .empty).2
    let c := Cursor.start [' ']
    let nothing := Node.value .unit
    let chain : Grammar := ⟨[], .binary (.chainLeft fun _ first _ => first) nothing nothing⟩
    g.Within .forward ∧ (∀ n, ∀ d ∈ t.calls n c s, ¬ d.Stalls) ∧ t.Terminates c s ∧
      (∃ N rule l, ∀ n, N ≤ n → (t.parse n c s).1 = .error (.defect (.leftRecursion rule l))) ∧
      (chain.build .empty).1.Terminates c (chain.build .empty).2 := by
  intro body g t s c nothing chain
  obtain ⟨coherent, within⟩ := parse_terminates.2.2 g
  have leaf (a : Atom) (closed : ∀ f, a ≠ .custom f) : (Node.atom a).Within .forward :=
    fun _ f eq => absurd eq (closed f)
  have inside : g.Within .forward := by
    constructor
    · intro rule mem
      rw [List.mem_singleton.mp mem]
      exact ⟨trivial, ⟨fun _ => trivial, leaf _ fun f => nofun⟩, trivial⟩
    · trivial
  have early : ∀ n < 7, ∀ d ∈ t.calls n c s, ¬ d.Stalls := by decide +kernel
  have progress (n : Nat) : ∀ d ∈ t.calls n c s, ¬ d.Stalls := by
    by_cases small : n < 7
    · exact early n small
    · have ended : (t.parse 6 c s).1 ≠ .error .outOfFuel := nofun
      rw [Term.calls_of_ended (by omega) ended]
      exact early 6 (by omega)
  have refused : (t.parse 6 c s).1 = .error (.defect (.leftRecursion ⟨0⟩ ⟨1, 1, 2⟩)) := rfl
  have endless := Term.endless_of_leftRecursion coherent rfl refused
  obtain ⟨term, store⟩ := within _ inside
  obtain ⟨ends, leftRecursion⟩ := parse_terminates.1 t s coherent term store c progress
  refine ⟨inside, progress, ends, leftRecursion endless, ?_⟩
  obtain ⟨coherent', within'⟩ := parse_terminates.2.2 chain
  have value : nothing.Within .forward := leaf _ fun f => nofun
  obtain ⟨forward, forwardStore⟩ := within' .forward ⟨nofun, trivial, value, value⟩
  obtain ⟨chaining, chainingStore⟩ :=
    within' .chaining ⟨nofun, nofun, fun _ => trivial, fun _ => trivial⟩
  exact parse_terminates.2.1 _ _ coherent' forward forwardStore chaining chainingStore c

end Descent
