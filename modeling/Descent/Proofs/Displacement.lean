import Descent.Grammar.Description
import Descent.Proofs.Transparency
import Mathlib.Data.List.Basic

/-!
Parses of one unread text at different places, behind different texts and over different tables.
Main statement: a grammar that sees nothing of a displacement does at the displaced place what it
does without it. No grammar sees that tables are numbered otherwise.
-/

namespace Descent

/-- How places are moved: behind more text, of which `passed` holds the last character first, and
into a numbering with more tables before their own. -/
structure Displacement where
  passed : List Char
  tables : Nat

/-- The cursor in a text that has more before it. -/
def Cursor.behind (passed : List Char) (c : Cursor) : Cursor :=
  ⟨c.before ++ passed, c.rest, c.table⟩

def Cursor.displace (m : Displacement) (c : Cursor) : Cursor := (c.behind m.passed).raise m.tables

namespace Cursor

variable (m : Displacement)

theorem position_displace (c : Cursor) : (c.displace m).position = c.position + m.passed.length :=
  List.length_append

theorem offset_displace (c : Cursor) :
    (c.displace m).offset = c.offset + Text.byteSize m.passed :=
  Text.byteSize_append _ _

theorem source_displace (c : Cursor) : (c.displace m).source = m.passed.reverse ++ c.source := by
  simp [source_eq_append, displace, raise, onTable, behind]

theorem next?_displace (c : Cursor) :
    (c.displace m).next? = c.next?.map fun (x, d) => (x, d.displace m) := by
  obtain ⟨before, rest, table⟩ := c
  cases rest <;> rfl

theorem textTo_displace (c d : Cursor) : (c.displace m).textTo (d.displace m) = c.textTo d := by
  rw [textTo, textTo, textUpTo, textUpTo, offset_displace, offset_displace, Nat.add_sub_add_right]
  rfl

theorem displace_injective : Function.Injective (displace m) := by
  rintro ⟨before, rest, table⟩ ⟨before', rest', table'⟩ same
  simp only [displace, raise, onTable, behind, mk.injEq] at same ⊢
  exact ⟨List.append_cancel_right same.1, same.2.1, Nat.add_right_cancel same.2.2⟩

/-- A span has no part in the numbering of tables. -/
theorem between_displace {m : Displacement} (h : m.passed = []) (c d : Cursor) :
    Span.between (c.displace m) (d.displace m) = Span.between c d := by
  simp [Span.between, displace, raise, onTable, behind, position, offset, h]

end Cursor

def Entry.displace (m : Displacement) (e : Entry) : Entry :=
  ⟨e.rule, e.position + m.passed.length, e.cursor.displace m⟩

/-- The store with all active entries made at displaced places. -/
def Store.displace (m : Displacement) (s : Store) : Store :=
  s.withActive (s.active.map (Entry.displace m))

theorem Store.displace_of_idle (m : Displacement) {s : Store} (idle : s.active = []) :
    s.displace m = s := by
  rw [displace, idle]
  exact congrArg s.withActive idle.symm

/-- Halts of two parses of which the second takes place displaced. -/
inductive Halt.Displaced (m : Displacement) : Halt → Halt → Prop
  | leftRecursion (rule : RuleId) (c : Cursor) : Displaced m
    (.defect (.leftRecursion rule c.location))
    (.defect (.leftRecursion rule (c.displace m).location))
  | undefinedRule (rule : RuleId) : Displaced m (.defect (.undefinedRule rule))
    (.defect (.undefinedRule rule))
  | outOfFuel : Displaced m .outOfFuel .outOfFuel

/-- Two runs end alike, the second one displaced. -/
inductive Alongside {α : Type} (m : Displacement) (good : α → α → Prop) :
    Except Halt α → Except Halt α → Prop
  | ok {a a' : α} (h : good a a') : Alongside m good (.ok a) (.ok a')
  | error {e e' : Halt} (h : e.Displaced m e') : Alongside m good (.error e) (.error e')

/-- A fragment without anything that sees a displacement. -/
structure Fragment.Displaceable (F : Fragment) (m : Displacement) : Prop where
  closures : ∀ f, F.atom (.custom f) → ∀ c : Cursor,
    f (c.displace m) = (f c).moved (Cursor.displace m)
  spans : F.unary .withSpan → m.passed = []

/-- Runs over a fragment of which the second one does displaced what the first one does. -/
def Displaces {α : Type} (F : Fragment) (m : Displacement) (x y : Step Store α)
    (good : α → α → Prop) : Prop :=
  ∀ s : Store, s.Within F → (x s).2.Within F ∧
    (y (s.displace m)).2 = (x s).2.displace m ∧ Alongside m good (x s).1 (y (s.displace m)).1

/-- A parser that does displaced what it does without. -/
def Parser.Movable {α : Type} (F : Fragment) (m : Displacement) (p : Parser Store α) : Prop :=
  ∀ c, Displaces F m (p c) (p (c.displace m)) fun o o' => o' = o.moved (Cursor.displace m)

namespace Displaces

variable {α β : Type} {F : Fragment} {m : Displacement}

theorem pure {a a' : α} {good : α → α → Prop} (h : good a a') :
    Displaces F m (Pure.pure a) (Pure.pure a') good :=
  fun _ store => ⟨store, rfl, .ok h⟩

theorem halt {e e' : Halt} {good : α → α → Prop} (h : e.Displaced m e') :
    Displaces F m (throw e) (throw e') good :=
  fun _ store => ⟨store, rfl, .error h⟩

theorem bind {x y : Step Store α} {f g : α → Step Store β} {mid : α → α → Prop}
    {good : β → β → Prop} (h : Displaces F m x y mid)
    (rest : ∀ a a', mid a a' → Displaces F m (f a) (g a') good) :
    Displaces F m (x >>= f) (y >>= g) good := by
  intro s store
  obtain ⟨kept, after, ends⟩ := h s store
  rcases first : x s with ⟨r, t⟩
  rcases second : y (s.displace m) with ⟨r', t'⟩
  rw [first] at kept
  rw [first, second] at after ends
  obtain rfl : t' = t.displace m := after
  cases ends with
  | ok good =>
    rw [Step.bind_of_ok first, Step.bind_of_ok second]
    exact rest _ _ good t kept
  | error halts =>
    rw [Step.bind_of_error first, Step.bind_of_error second]
    exact ⟨kept, rfl, .error halts⟩

theorem of_outcome {x y : Step Store (Outcome α)} {f g : Outcome α → Step Store β}
    {good : β → β → Prop} (h : Displaces F m x y fun o o' => o' = o.moved (Cursor.displace m))
    (success : ∀ v r, Displaces F m (f (.success v r)) (g (.success v (r.displace m))) good)
    (failure : ∀ e,
      Displaces F m (f (.failure e)) (g (.failure (e.moved (Cursor.displace m)))) good) :
    Displaces F m (x >>= f) (y >>= g) good := by
  refine h.bind ?_
  rintro (⟨v, r⟩ | e) _ rfl
  · exact success v r
  · exact failure e

theorem of_test {p q : Prop} [Decidable p] [Decidable q] {x x' y y' : Step Store α}
    {good : α → α → Prop} (same : q ↔ p) (yes : Displaces F m x y good)
    (no : Displaces F m x' y' good) :
    Displaces F m (if p then x else x') (if q then y else y') good := by
  by_cases h : p
  · simpa only [h, same.mpr h, if_true] using yes
  · simpa only [h, mt same.mp h, if_false] using no

/-- Positions are compared alike at both places. -/
theorem position_eq_iff (c d : Cursor) :
    (d.displace m).position = (c.displace m).position ↔ d.position = c.position := by
  rw [Cursor.position_displace, Cursor.position_displace]
  omega

theorem position_lt_iff (c d : Cursor) :
    (c.displace m).position < (d.displace m).position ↔ c.position < d.position := by
  rw [Cursor.position_displace, Cursor.position_displace]
  omega

end Displaces

namespace Parser.Movable

open Displaces

variable {α β γ : Type} {F : Fragment} {m : Displacement} {p : Parser Store α} {q : Parser Store β}
  {r : Parser Store γ}

theorem succeed (v : α) : (Parser.succeed v : Parser Store α).Movable F m :=
  fun _ => Displaces.pure rfl

theorem ofFunction {f : Cursor → Outcome Value}
    (h : ∀ c : Cursor, f (c.displace m) = (f c).moved (Cursor.displace m)) :
    (Parser.ofFunction f : Parser Store Value).Movable F m :=
  fun c => Displaces.pure (h c)

section Sequence

theorem andThen {f : α → Parser Store β} (hp : p.Movable F m) (hf : ∀ v, (f v).Movable F m) :
    (p.andThen f).Movable F m := by
  intro c
  exact of_outcome (hp c) (fun v d => hf v d) fun e => Displaces.pure rfl

theorem map (f : α → β) (hp : p.Movable F m) : (p.map f).Movable F m := by
  intro c
  exact of_outcome (hp c) (fun v d => Displaces.pure rfl) fun e => Displaces.pure rfl

theorem ignoreThen (hp : p.Movable F m) (hq : q.Movable F m) : (p.ignoreThen q).Movable F m :=
  andThen hp fun _ => hq

theorem thenIgnore (hp : p.Movable F m) (hq : q.Movable F m) : (p.thenIgnore q).Movable F m :=
  andThen hp fun v => map (fun _ => v) hq

theorem both (hp : p.Movable F m) (hq : q.Movable F m) : (p.both q).Movable F m :=
  andThen hp fun v => map (v, ·) hq

theorem between (hp : p.Movable F m) (hq : q.Movable F m) (hr : r.Movable F m) :
    (Parser.between p q r).Movable F m :=
  ignoreThen hp (thenIgnore hq hr)

theorem concat {p q : Parser Store (List α)} (hp : p.Movable F m) (hq : q.Movable F m) :
    (p.concat q).Movable F m := by
  intro c
  exact of_outcome (hp c) (fun xs d => map (xs ++ ·) hq d) fun e => Displaces.pure rfl

theorem filter (shown : α → String) (test : α → Bool) (hp : p.Movable F m) :
    (p.filter shown test).Movable F m := by
  intro c
  refine of_outcome (hp c) (fun v d => ?_) fun e => Displaces.pure rfl
  exact of_test Iff.rfl (Displaces.pure rfl) (Displaces.pure rfl)

theorem peek (hp : p.Movable F m) : p.peek.Movable F m := by
  intro c
  exact of_outcome (hp c) (fun v d => Displaces.pure rfl) fun e => Displaces.pure rfl

theorem withSpan (hp : p.Movable F m) (h : m.passed = []) : p.withSpan.Movable F m := by
  intro c
  refine of_outcome (hp c) (fun v d => ?_) fun e => Displaces.pure rfl
  dsimp only
  rw [Cursor.between_displace h]
  exact Displaces.pure rfl

end Sequence

section Character

theorem satisfy (k : CharClass) : (Parser.satisfy k : Parser Store Char).Movable F m := by
  intro c
  simp only [Parser.satisfy, Cursor.next?_displace]
  cases c.next? with
  | none => exact Displaces.pure rfl
  | some next => exact of_test Iff.rfl (Displaces.pure rfl) (Displaces.pure rfl)

theorem chars (xs : List Char) : (Parser.chars xs : Parser Store Unit).Movable F m := by
  induction xs with
  | nil => exact succeed ()
  | cons x rest ih => exact andThen (satisfy _) fun _ => ih

theorem literal (text : String) : (Parser.literal text : Parser Store String).Movable F m := by
  intro c
  refine of_outcome (chars text.toList c) (fun v d => Displaces.pure rfl) fun e => ?_
  exact of_test (position_eq_iff c e.failedAt) (Displaces.pure rfl) (Displaces.pure rfl)

theorem endOfInput : (Parser.endOfInput : Parser Store Unit).Movable F m := by
  intro c
  simp only [Parser.endOfInput, Cursor.next?_displace]
  cases c.next? with
  | none => exact Displaces.pure rfl
  | some next => exact Displaces.pure rfl

theorem complete (hp : p.Movable F m) : p.complete.Movable F m :=
  thenIgnore hp endOfInput

end Character

section Choice

theorem xor {q : Parser Store α} (hp : p.Movable F m) (hq : q.Movable F m) :
    (p.xor q).Movable F m := by
  intro c
  refine of_outcome (hp c) (fun v d => ?_) fun e => ?_
  · refine of_test (position_eq_iff c d) ?_ (Displaces.pure rfl)
    exact of_outcome (hq c) (fun _ _ => Displaces.pure rfl) fun _ => Displaces.pure rfl
  · refine of_test (position_eq_iff c e.failedAt) ?_ (Displaces.pure rfl)
    refine of_outcome (hq c) (fun _ _ => Displaces.pure rfl) fun e' => ?_
    exact of_test (position_eq_iff c e'.failedAt) (Displaces.pure rfl) (Displaces.pure rfl)

theorem attempt (hp : p.Movable F m) : p.attempt.Movable F m := by
  intro c
  exact of_outcome (hp c) (fun _ _ => Displaces.pure rfl) fun _ => Displaces.pure rfl

theorem or {q : Parser Store α} (hp : p.Movable F m) (hq : q.Movable F m) : (p.or q).Movable F m :=
  xor (attempt hp) hq

theorem optional (hp : p.Movable F m) : p.optional.Movable F m := by
  intro c
  refine of_outcome (hp c) (fun _ _ => Displaces.pure rfl) fun e => ?_
  exact of_test (position_eq_iff c e.failedAt) (Displaces.pure rfl) (Displaces.pure rfl)

theorem named (label : String) (hp : p.Movable F m) : (p.named label).Movable F m := by
  intro c
  refine of_outcome (hp c) (fun _ _ => Displaces.pure rfl) fun e => ?_
  exact of_test (position_eq_iff c e.failedAt) (Displaces.pure rfl) (Displaces.pure rfl)

theorem not (hp : p.Movable F m) : p.not.Movable F m := by
  intro c
  refine of_outcome (hp c) (fun v d => ?_) fun _ => Displaces.pure rfl
  dsimp only
  rw [Cursor.textTo_displace]
  exact Displaces.pure rfl

theorem except (hp : p.Movable F m) (hq : q.Movable F m) : (p.except q).Movable F m := by
  intro c
  refine of_outcome (hq c) (fun v d => ?_) fun _ => hp c
  dsimp only
  rw [Cursor.textTo_displace]
  exact Displaces.pure rfl

theorem recover {q : Parser Store α} (hp : p.Movable F m) (hq : q.Movable F m) :
    (p.recover q).Movable F m := by
  intro c
  exact of_outcome (hp c) (fun _ _ => Displaces.pure rfl) fun e => hq e.failedAt

end Choice

section Repetition

theorem collect (hp : p.Movable F m) (n : Nat) (found : List α) :
    (p.collect n found).Movable F m := by
  induction n generalizing found with
  | zero => exact fun _ => halt .outOfFuel
  | succ n ih =>
    intro c
    exact of_outcome (hp c) (fun v d => ih (v :: found) d) fun _ => Displaces.pure rfl

theorem collectSeparated (hp : p.Movable F m) (hq : q.Movable F m) (n : Nat) (found : List α) :
    (p.collectSeparated q n found).Movable F m := by
  induction n generalizing found with
  | zero => exact fun _ => halt .outOfFuel
  | succ n ih =>
    intro c
    refine of_outcome (hq c) (fun o d => ?_) fun e => ?_
    · exact of_outcome (hp d) (fun v d' => ih (v :: found) d') fun _ => Displaces.pure rfl
    · exact of_test (position_eq_iff c e.failedAt) (Displaces.pure rfl) (Displaces.pure rfl)

theorem links (hq : q.Movable F m) (hp : p.Movable F m) (n : Nat) (found : List (β × α)) :
    (Parser.links q p n found).Movable F m := by
  induction n generalizing found with
  | zero => exact fun _ => halt .outOfFuel
  | succ n ih =>
    intro c
    refine of_outcome (hq c) (fun o d => ?_) fun e => ?_
    · refine of_outcome (hp d) (fun v d' => ?_) fun e => ?_
      · exact of_test (position_lt_iff c d') (ih ((o, v) :: found) d') (Displaces.pure rfl)
      · exact of_test (position_eq_iff c e.failedAt) (Displaces.pure rfl) (Displaces.pure rfl)
    · exact of_test (position_eq_iff c e.failedAt) (Displaces.pure rfl) (Displaces.pure rfl)

theorem chain (hq : q.Movable F m) (hp : p.Movable F m) (n : Nat) :
    (Parser.chain n q p).Movable F m :=
  andThen hp fun v => map (v, ·) (links hq hp n [])

theorem token (hp : p.Movable F m) (n : Nat) : (p.token n).Movable F m := by
  have blanks := collect (F := F) (m := m) (satisfy .whitespace) n []
  exact thenIgnore (ignoreThen blanks hp) blanks

end Repetition

section Operations

variable {p q : Parser Store Value}

theorem atom (fits : F.Displaceable m) (a : Atom) (inside : F.atom a) :
    (a.run : Parser Store Value).Movable F m := by
  cases a with
  | satisfy k => exact map Value.char (satisfy k)
  | literal s => exact map Value.str (literal s)
  | endOfInput => exact map (fun _ => Value.unit) endOfInput
  | value v => exact succeed v
  | custom f => exact ofFunction (fits.closures f inside)

theorem unary (fits : F.Displaceable m) (hp : p.Movable F m) (n : Nat) (op : Unary)
    (inside : F.unary op) : (op.run n p).Movable F m := by
  cases op with
  | many => exact map Value.list (collect hp n [])
  | atLeastOnce => exact map Value.list (andThen hp fun v => collect hp n [v])
  | once => exact map Value.list (map ([·]) hp)
  | text => exact map Value.str (map String.ofList (map Value.flat hp))
  | attempt => exact attempt hp
  | not => exact map (fun _ => Value.unit) (not hp)
  | optional => exact map Value.ofOption (optional hp)
  | named label => exact named label hp
  | token => exact token hp n
  | complete => exact complete hp
  | withSpan => exact map _ (withSpan hp (fits.spans inside))
  | giving w => exact map (fun _ => w) hp
  | map f => exact map f hp
  | filter test => exact filter Value.shown test hp
  | peek => exact peek hp

theorem binary (hp : p.Movable F m) (hq : q.Movable F m) (n : Nat) (op : Binary) :
    (op.run n p q).Movable F m := by
  cases op with
  | both => exact map Value.ofPair (both hp hq)
  | ignoreThen => exact ignoreThen hp hq
  | thenIgnore => exact thenIgnore hp hq
  | concat => exact map Value.list (concat (map Value.items hp) (map Value.items hq))
  | or => exact or hp hq
  | xor => exact xor hp hq
  | except => exact except hp hq
  | separatedBy => exact map Value.list (andThen hp fun v => collectSeparated hp hq n [v])
  | chainLeft apply => exact map _ (chain hp hq n)
  | chainRight apply => exact map _ (chain hp hq n)
  | recover => exact recover hp hq

end Operations
end Parser.Movable

section Grammar

variable {F : Fragment} {m : Displacement}

theorem Entry.displace_injective : Function.Injective (Entry.displace m) := by
  rintro ⟨rule, position, cursor⟩ ⟨rule', position', cursor'⟩ same
  simp only [Entry.displace, Entry.mk.injEq] at same ⊢
  exact ⟨same.1, Nat.add_right_cancel same.2.1, Cursor.displace_injective m same.2.2⟩

theorem Store.entry_displace (rule : RuleId) (c : Cursor) :
    (Store.entry rule c).displace m = Store.entry rule (c.displace m) := by
  rw [Entry.displace, Store.entry, Store.entry, Cursor.position_displace]

theorem Store.entry_mem_displace_iff {rule : RuleId} {c : Cursor} {s : Store} :
    Store.entry rule (c.displace m) ∈ (s.displace m).active ↔ Store.entry rule c ∈ s.active := by
  rw [← entry_displace]
  exact List.mem_map_of_injective Entry.displace_injective

theorem Store.enter_displace (s : Store) (e : Entry) :
    (s.displace m).enter (e.displace m) = (s.enter e).displace m := rfl

theorem Store.leave_displace (s : Store) (e : Entry) :
    (s.displace m).leave (e.displace m) = (s.leave e).displace m := by
  have erased : (s.active.map (Entry.displace m)).erase (e.displace m) =
      (s.active.erase e).map (Entry.displace m) :=
    (List.map_erase Entry.displace_injective s.active).symm
  exact congrArg s.withActive erased

theorem Parser.Movable.guarded {p : Parser Store Value} (rule : RuleId) (hp : p.Movable F m) :
    (guarded rule p).Movable F m := by
  intro c s store
  by_cases entered : Store.entry rule c ∈ s.active
  · rw [guarded_of_mem entered, guarded_of_mem (Store.entry_mem_displace_iff.mpr entered)]
    exact ⟨store, rfl, .error (.leftRecursion rule c)⟩
  · have entered' : Store.entry rule (c.displace m) ∉ (s.displace m).active :=
      mt Store.entry_mem_displace_iff.mp entered
    rw [guarded_of_notMem entered, guarded_of_notMem entered', ← Store.entry_displace,
      Store.enter_displace]
    obtain ⟨kept, after, ends⟩ := hp c (s.enter (Store.entry rule c)) ⟨store.cells, store.resolved⟩
    rw [after, Store.leave_displace]
    exact ⟨⟨kept.cells, kept.resolved⟩, rfl, ends⟩

/-- An action on the store that has nothing to do with the active entries. -/
theorem Displaces.of_withActive {α : Type} {x : Step Store α} {good : α → α → Prop}
    (same : ∀ active s, x (s.withActive active) = ((x s).1, (x s).2.withActive active))
    (kept : ∀ s, (x s).2.active = s.active)
    (ends : ∀ s, s.Within F → (x s).2.Within F ∧ Alongside m good (x s).1 (x s).1) :
    Displaces F m x x good := by
  intro s store
  obtain ⟨within, alike⟩ := ends s store
  rw [Store.displace, same]
  exact ⟨within, congrArg (fun active => (x s).2.withActive (active.map (Entry.displace m)))
    (kept s).symm, alike⟩

theorem Displaces.build (next : Chooser) (scope : Scope) (v : Value)
    (inside : next.Within F) :
    Displaces F m (next.build scope v : Step Store Term) (next.build scope v)
      fun q q' => q' = q ∧ q.Within F := by
  refine of_withActive (fun active s => ?_) (fun s => (next.build_grows scope v s).active)
    fun s store => ?_
  · exact congrArg (fun r : Term × Store => (Except.ok r.1, r.2))
      (next.build_disregards active scope v s)
  · obtain ⟨within, kept⟩ := next.build_within scope v store inside
    exact ⟨kept, .ok ⟨rfl, within⟩⟩

theorem Displaces.definition (rule : RuleId) :
    Displaces F m (Store.definition rule) (Store.definition rule)
      fun q q' => q' = q ∧ q.Within F := by
  refine of_withActive (fun active => Store.definition_withActive active rule)
    (Store.definition_active rule) fun s store => ?_
  cases found : s.definition? rule with
  | none =>
    rw [Store.definition_of_none found]
    exact ⟨store, .error (.undefinedRule rule)⟩
  | some q =>
    rw [Store.definition_of_some found]
    exact ⟨store, .ok ⟨rfl, store.cells rule q found⟩⟩

theorem Displaces.resolve (id : RuleId) (body : Node) (scope : Scope)
    (inside : body.Within F) :
    Displaces F m (Store.resolve id body scope) (Store.resolve id body scope)
      fun q q' => q' = q ∧ q.Within F := by
  refine of_withActive (fun active => Store.resolve_withActive active id body scope)
    (Store.resolve_active id body scope) fun s store => ?_
  obtain ⟨q, run, within, kept⟩ := store.resolve id scope inside
  rw [run]
  exact ⟨kept, .ok ⟨rfl, within⟩⟩

end Grammar

/-- A grammar that sees nothing of a displacement does the same at the displaced place. -/
theorem Term.parse_movable {F : Fragment} {m : Displacement} (fits : F.Displaceable m) (n : Nat)
    {t : Term} (inside : t.Within F) : Parser.Movable F m (t.parse n) := by
  induction n generalizing t with
  | zero => exact fun c => Displaces.halt .outOfFuel
  | succ n ih =>
    cases t with
    | leaf a => exact Parser.Movable.atom fits a inside
    | unary op p => exact Parser.Movable.unary fits (ih inside.2) n op inside.1
    | binary op p q => exact Parser.Movable.binary (ih inside.2.1) (ih inside.2.2) n op
    | between first inner last =>
      exact Parser.Movable.between (ih inside.1) (ih inside.2.1) (ih inside.2.2)
    | bind p next scope =>
      refine Parser.Movable.andThen (ih inside.1) fun v c => ?_
      refine (Displaces.build next scope v inside.2).bind ?_
      rintro q _ ⟨rfl, within⟩
      exact ih within c
    | rule h =>
      intro c
      refine (Displaces.definition h.rule).bind ?_
      rintro q _ ⟨rfl, within⟩
      exact Parser.Movable.guarded h.rule (ih within) c
    | reference id body scope =>
      intro c
      refine (Displaces.resolve id body scope inside).bind ?_
      rintro q _ ⟨rfl, within⟩
      exact Parser.Movable.guarded id (ih within) c

section Tables

theorem Cursor.displace_tables (k : Nat) : Cursor.displace ⟨[], k⟩ = Cursor.raise k := by
  funext c
  simp [displace, behind]

/-- No closure sees that tables are numbered otherwise, and neither does a span. -/
theorem Fragment.all_displaceable (k : Nat) : Fragment.all.Displaceable ⟨[], k⟩ where
  closures f _ c := by
    rw [Cursor.displace_tables]
    exact f.blind k c
  spans _ := rfl

theorem Alongside.eq_map {α : Type} {k : Nat} {g : α → α} {x y : Except Halt α}
    (h : Alongside ⟨[], k⟩ (fun a a' => a' = g a) x y) : y = x.map g := by
  cases h with
  | ok same => exact congrArg Except.ok same
  | error halts =>
    cases halts with
    | leftRecursion rule c =>
      rw [Cursor.displace_tables]
      rfl
    | undefinedRule rule => rfl
    | outOfFuel => rfl

/-- A parse over a table that is numbered otherwise comes to the same over that table. -/
theorem Term.parse_raise (n k : Nat) (t : Term) (c : Cursor) {s : Store} (idle : s.active = []) :
    (t.parse n (c.raise k) s).1 = (t.parse n c s).1.map (Outcome.moved (Cursor.raise k)) := by
  have alike := (parse_movable (Fragment.all_displaceable k) n t.within_all c s s.within_all).2.2
  rw [Store.displace_of_idle _ idle, Cursor.displace_tables] at alike
  exact alike.eq_map

/-- The outcome without its table, as comparisons see it. -/
def Outcome.untabled {α : Type} : Outcome α → Outcome α := moved (Cursor.onTable · 0)

/-- At cursors that compare equal, a parse comes to outcomes that compare equal. -/
theorem Term.parse_sameAs (n : Nat) (t : Term) {c d : Cursor} (same : d.sameAs c = true) {s : Store}
    (idle : s.active = []) :
    (t.parse n d s).1.map Outcome.untabled = (t.parse n c s).1.map Outcome.untabled := by
  have based (e : Cursor) : (t.parse n e s).1.map Outcome.untabled =
      (t.parse n (e.onTable 0) s).1.map Outcome.untabled := by
    have raised : e = (e.onTable 0).raise e.table := by simp [Cursor.raise, Cursor.onTable]
    rw [congrArg (fun e => (t.parse n e s).1) raised, t.parse_raise n e.table _ idle]
    rcases (t.parse n (e.onTable 0) s).1 with _ | _ | _ <;> rfl
  rw [based d, based c, ← Cursor.sameAs_iff.mp same]
  rfl

end Tables
end Descent
