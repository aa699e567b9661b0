import Descent.Grammar.Store

/-!
Parsing with a built grammar. Rules are entered through a guard, and the evaluation takes fuel that
bounds nested terms and repetitions alike.
Main statement: the guard takes back exactly the entry that it made.
-/

namespace Descent

namespace Store

/-- The definition of a rule; a rule without one is a defect. -/
def definition (rule : RuleId) : Step Store Term := do
  match (← get).definition? rule with
  | some body => return body
  | none => throw (.defect (.undefinedRule rule))

/-- The parser behind a reference, built at the first call and kept. -/
def resolve (rule : RuleId) (body : Node) (scope : Scope) : Step Store Term := do
  match (← get).resolved.lookup rule with
  | some t => return t
  | none =>
    let t ← body.build scope
    modify (·.keep rule t)
    return t

theorem build_apply (next : Chooser) (scope : Scope) (v : Value) (s : Store) :
    (next.build scope v : Step Store Term) s =
      (.ok (next.build scope v s).1, (next.build scope v s).2) := rfl

theorem definition_apply (rule : RuleId) (s : Store) :
    definition rule s = match s.definition? rule with
      | some q => (.ok q, s)
      | none => (.error (.defect (.undefinedRule rule)), s) := by
  change (match s.definition? rule with
    | some q => (pure q : Step Store Term)
    | none => throw (Halt.defect (.undefinedRule rule))) s = _
  cases s.definition? rule <;> rfl

theorem definition_of_some {rule : RuleId} {s : Store} {q : Term}
    (h : s.definition? rule = some q) : definition rule s = (.ok q, s) := by
  rw [definition_apply, h]

theorem definition_of_none {rule : RuleId} {s : Store} (h : s.definition? rule = none) :
    definition rule s = (.error (.defect (.undefinedRule rule)), s) := by
  rw [definition_apply, h]

theorem resolve_apply (rule : RuleId) (body : Node) (scope : Scope) (s : Store) :
    resolve rule body scope s = match s.resolved.lookup rule with
      | some q => (.ok q, s)
      | none => (.ok (body.build scope s).1,
          (body.build scope s).2.keep rule (body.build scope s).1) := by
  change (match s.resolved.lookup rule with
    | some q => (pure q : Step Store Term)
    | none => do
      let t ← body.build scope
      modify (fun s : Store => s.keep rule t)
      return t) s = _
  cases s.resolved.lookup rule <;> rfl

theorem resolve_of_some {rule : RuleId} {body : Node} {scope : Scope} {s : Store} {q : Term}
    (h : s.resolved.lookup rule = some q) : resolve rule body scope s = (.ok q, s) := by
  rw [resolve_apply, h]

theorem resolve_of_none {rule : RuleId} {body : Node} {scope : Scope} {s : Store}
    (h : s.resolved.lookup rule = none) :
    resolve rule body scope s =
      (.ok (body.build scope s).1, (body.build scope s).2.keep rule (body.build scope s).1) := by
  rw [resolve_apply, h]

end Store

/-- How the evaluation of a grammar runs over a state that contains a store. -/
structure Machine (σ : Type) where
  /-- Actions on the store as actions on the state. -/
  lift : {α : Type} → Step Store α → Step σ α
  /-- What surrounds the evaluation of every term. -/
  call : Term → Parser σ Value → Parser σ Value
  /-- What surrounds the body of a rule or of a reference. -/
  guard : RuleId → Parser σ Value → Parser σ Value

/-- Evaluation by a machine. One unit of fuel is spent on every level of nested terms, and a
repetition at a level makes no more rounds than there is fuel left. -/
def Term.evaluate {σ : Type} (m : Machine σ) : Nat → Term → Parser σ Value
  | 0, _ => fun _ => throw .outOfFuel
  | n + 1, t => m.call t <| match t with
    | .leaf a => a.run
    | .unary op p => op.run n (evaluate m n p)
    | .binary op p q => op.run n (evaluate m n p) (evaluate m n q)
    | .between first inner last =>
      Parser.between (evaluate m n first) (evaluate m n inner) (evaluate m n last)
    | .bind p next scope => Parser.andThen (evaluate m n p) fun v c => do
      let q ← m.lift (next.build scope v)
      evaluate m n q c
    | .rule h => fun c => do
      let body ← m.lift (Store.definition h.rule)
      m.guard h.rule (evaluate m n body) c
    | .reference id body scope => fun c => do
      let q ← m.lift (Store.resolve id body scope)
      m.guard id (evaluate m n q) c

namespace Term

variable {σ : Type} (m : Machine σ) (n : Nat)

theorem evaluate_leaf (a : Atom) : (leaf a).evaluate m (n + 1) = m.call (leaf a) a.run := rfl

theorem evaluate_unary (op : Unary) (p : Term) :
    (unary op p).evaluate m (n + 1) = m.call (unary op p) (op.run n (p.evaluate m n)) := rfl

theorem evaluate_binary (op : Binary) (p q : Term) :
    (binary op p q).evaluate m (n + 1) =
      m.call (binary op p q) (op.run n (p.evaluate m n) (q.evaluate m n)) := rfl

theorem evaluate_between (first inner last : Term) :
    (between first inner last).evaluate m (n + 1) = m.call (between first inner last)
      (Parser.between (first.evaluate m n) (inner.evaluate m n) (last.evaluate m n)) := rfl

theorem evaluate_bind (p : Term) (next : Chooser) (scope : Scope) :
    (bind p next scope).evaluate m (n + 1) = m.call (bind p next scope)
      ((p.evaluate m n).andThen fun v c =>
        m.lift (next.build scope v) >>= fun q => q.evaluate m n c) := rfl

theorem evaluate_rule (h : Handle) :
    (rule h).evaluate m (n + 1) = m.call (rule h) fun c =>
      m.lift (Store.definition h.rule) >>= fun q => m.guard h.rule (q.evaluate m n) c := rfl

theorem evaluate_reference (id : RuleId) (body : Node) (scope : Scope) :
    (reference id body scope).evaluate m (n + 1) = m.call (reference id body scope) fun c =>
      m.lift (Store.resolve id body scope) >>= fun q => m.guard id (q.evaluate m n) c := rfl

end Term

/-- Runs the body of a rule with the rule marked as active at the cursor. A rule that is active
there already would call itself for ever: this is left recursion. -/
def guarded {α : Type} (rule : RuleId) (body : Parser Store α) : Parser Store α := fun c s =>
  let e := Store.entry rule c
  if e ∈ s.active then (.error (.defect (.leftRecursion rule c.location)), s)
  else
    let r := body c (s.enter e)
    (r.1, r.2.leave e)

namespace Machine

/-- Runs over the store alone and detects left recursion. -/
def guarding : Machine Store := ⟨id, fun _ p => p, guarded⟩

/-- Runs over the store alone and lets every rule run its body at once. -/
def trusting : Machine Store := ⟨id, fun _ p => p, fun _ body => body⟩

end Machine

/-- Parsing with left recursion detected. -/
def Term.parse : Nat → Term → Parser Store Value := evaluate .guarding

namespace Term

variable (n : Nat) (c : Cursor)

theorem trusting_rule (h : Handle) : (rule h).evaluate .trusting (n + 1) c =
    Store.definition h.rule >>= fun q => q.evaluate .trusting n c := rfl

theorem trusting_reference (id : RuleId) (body : Node) (scope : Scope) :
    (reference id body scope).evaluate .trusting (n + 1) c =
      Store.resolve id body scope >>= fun q => q.evaluate .trusting n c := rfl

theorem parse_rule (h : Handle) : (rule h).parse (n + 1) c =
    Store.definition h.rule >>= fun q => guarded h.rule (q.parse n) c := rfl

theorem parse_reference (id : RuleId) (body : Node) (scope : Scope) :
    (reference id body scope).parse (n + 1) c =
      Store.resolve id body scope >>= fun q => guarded id (q.parse n) c := rfl

end Term

/-- Fuel for any parse that memory can hold. -/
def ampleFuel : Nat := 0x1000000000000

/-- One parse from a cursor. -/
def Term.parseFrom (t : Term) (c : Cursor) : StateM Store (Except Halt (Outcome Value)) :=
  (t.parse ampleFuel c).run

/-- One parse from the beginning of a text. -/
def Term.parseText (t : Term) (text : String) : StateM Store (Except Halt (Outcome Value)) :=
  t.parseFrom (.start text.toList)

section Guard

variable {α : Type} {rule : RuleId} {body : Parser Store α} {c : Cursor} {s : Store}

theorem guarded_of_mem (h : Store.entry rule c ∈ s.active) :
    guarded rule body c s = (.error (.defect (.leftRecursion rule c.location)), s) :=
  if_pos h

theorem guarded_of_notMem (h : Store.entry rule c ∉ s.active) :
    guarded rule body c s = ((body c (s.enter (Store.entry rule c))).1,
      (body c (s.enter (Store.entry rule c))).2.leave (Store.entry rule c)) :=
  if_neg h

/-- If the body of a rule leaves the active entries as it found them, so does the guarded call. -/
theorem guarded_active (kept : ∀ t : Store, (body c t).2.active = t.active) :
    (guarded rule body c s).2.active = s.active := by
  by_cases h : Store.entry rule c ∈ s.active
  · rw [guarded_of_mem h]
  · rw [guarded_of_notMem h]
    simp [Store.leave, kept, Store.enter]

end Guard
end Descent
