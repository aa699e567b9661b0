import Descent.Proofs.Accounting
import Descent.Proofs.TypedRuns

/-!
Values and the text that they were read from.
Main statement: a parser that neither makes up values nor leaves any out yields a value whose text
is exactly the text consumed.
-/

namespace Descent

/-- What is known of a value: that it is a list, or nothing. -/
inductive Kind
  | list
  | any

namespace Kind

/-- What is known of a value that may come from either of two parsers. -/
def join : Kind → Kind → Kind
  | list, list => list
  | _, _ => any

/-- A value is of this kind. -/
def Fits (k : Kind) (v : Value) : Prop :=
  match k with
  | list => ∃ items, v = .list items
  | any => True

theorem Fits.join {k k' : Kind} {v : Value} (h : k.Fits v ∨ k'.Fits v) : (k.join k').Fits v := by
  cases k with
  | any => trivial
  | list =>
    cases k' with
    | any => trivial
    | list => exact h.elim id id

end Kind

/-- Leaves whose value is the text that they read. -/
def Atom.kind? : Atom → Option Kind
  | satisfy _ => some .any
  | literal _ => some .any
  | endOfInput => some .any
  | _ => none

/-- Operations that keep all of a value and add nothing to it. -/
def Unary.kind? : Unary → Kind → Option Kind
  | many, _ => some .list
  | atLeastOnce, _ => some .list
  | once, _ => some .list
  | text, _ => some .any
  | attempt, k => some k
  | not, _ => some .any
  | optional, _ => some .any
  | named _, k => some k
  | complete, k => some k
  | filter _, k => some k
  | _, _ => none

/-- Only lists can be joined. -/
def Binary.kind? : Binary → Kind → Kind → Option Kind
  | both, _, _ => some .any
  | concat, .list, .list => some .list
  | or, k, k' => some (k.join k')
  | xor, k, k' => some (k.join k')
  | except, k, _ => some k
  | _, _, _ => none

/-- Grammars of which it is known where lists come from. -/
def lossless : TypeSystem Kind where
  atom a k := a.kind? = some k
  unary op k l := op.kind? k = some l
  binary op k l m := op.kind? k l = some m
  between _ _ _ _ := False
  rule k l := l = k ∨ l = .any

/-- Runs in typed stores, where nothing is asked of the calls. -/
def yielding (μ : Annotation Kind) : RunLogic (Store × List Call) where
  Holds x P := Yields lossless (fun _ => True) μ x fun _ => P
  weaken hx imp := hx.weaken fun _ => imp
  pure h := .pure h
  halt e _ := .halt e
  bind hx hf := .bind hx fun a => (hf a).weaken fun _ _ known _ => known

namespace Value

/-- The text inside a value is the text that the value was read from. -/
def StandsFor (k : Kind) : Standing Value := fun v text _ => v.flat = text ∧ k.Fits v

/-- The same for a value of any kind. -/
abbrev Flat : Standing Value := fun v text _ => v.flat = text

/-- The same for a list of values. -/
abbrev AllFlat : Standing (List Value) := fun vs text _ => flatAll vs = text

theorem flatAll_of_pieces {vs : List Value} {text rest : List Char}
    (h : Pieces Flat vs text rest) : flatAll vs = text := by
  induction h with
  | nil => rfl
  | cons first _ ih => rw [flatAll, first, ih]

end Value

section Operations

open Value (AllFlat Flat StandsFor)

variable {σ : Type} {L : RunLogic σ} {p q : Parser σ Value} {ps : Parser σ (List Value)}
  {k k' l m : Kind}

theorem Accounted.flat (hp : Accounted L (StandsFor k) p) : Accounted L Flat p :=
  hp.of_value fun _ _ _ h => h.1

theorem Accounted.any (hp : Accounted L Flat p) : Accounted L (StandsFor .any) p :=
  hp.of_value fun _ _ _ h => ⟨h, trivial⟩

theorem Accounted.items (hp : Accounted L (StandsFor .list) p) :
    Accounted L AllFlat (p.map Value.items) := by
  refine hp.map Value.items ?_
  rintro _ text _ ⟨flat, xs, rfl⟩
  exact flat

theorem Accounted.list (hp : Accounted L AllFlat ps) :
    Accounted L (StandsFor .list) (ps.map Value.list) :=
  hp.map Value.list fun vs _ _ flat => ⟨flat, vs, rfl⟩

theorem Accounted.join (hp : Accounted L (StandsFor l) p) (known : l = k ∨ l = k') :
    Accounted L (StandsFor (k.join k')) p := by
  refine hp.of_value fun v _ _ h => ⟨h.1, Kind.Fits.join ?_⟩
  rcases known with rfl | rfl
  · exact .inl h.2
  · exact .inr h.2

theorem Atom.run_standsFor {a : Atom} (known : a.kind? = some k) :
    Accounted L (StandsFor k) a.run := by
  cases a with
  | satisfy k =>
    cases known
    exact .any ((Accounted.satisfy k).map Value.char fun _ _ _ h => h.1.symm)
  | literal s =>
    cases known
    exact .any ((Accounted.literal s).map Value.str fun _ _ _ h => h.symm)
  | endOfInput =>
    cases known
    exact .any (Accounted.endOfInput.map (fun _ => Value.unit) fun _ _ _ h => h.1.symm)
  | _ => cases known

theorem many_standsFor (hp : Accounted L (StandsFor k) p) (n : Nat) :
    Accounted L (StandsFor .list) ((p.many n).map Value.list) :=
  .list ((hp.flat.many n).of_value fun _ _ _ h => Value.flatAll_of_pieces h)

theorem atLeastOnce_standsFor (hp : Accounted L (StandsFor k) p) (n : Nat) :
    Accounted L (StandsFor .list) ((p.atLeastOnce n).map Value.list) :=
  .list ((hp.flat.atLeastOnce n).of_value fun _ _ _ h => Value.flatAll_of_pieces h.2)

theorem once_standsFor (hp : Accounted L (StandsFor k) p) :
    Accounted L (StandsFor .list) (p.once.map Value.list) := by
  refine .list (hp.flat.once.of_value ?_)
  rintro _ _ _ ⟨v, rfl, rfl⟩
  exact List.append_nil v.flat

theorem text_standsFor (hp : Accounted L (StandsFor k) p) :
    Accounted L (StandsFor .any) ((Parser.text (p.map Value.flat)).map Value.str) := by
  refine .any ((((hp.image Value.flat).image String.ofList).image Value.str).of_value ?_)
  rintro _ _ _ ⟨_, rfl, _, rfl, v, rfl, rfl, -⟩
  exact String.toList_ofList

theorem optional_standsFor (hp : Accounted L (StandsFor k) p) :
    Accounted L (StandsFor .any) (p.optional.map Value.ofOption) := by
  refine .any (hp.optional.map Value.ofOption fun o text _ h => ?_)
  cases o with
  | none => exact h.symm
  | some v => exact h.1

theorem Unary.run_standsFor {op : Unary} (known : op.kind? k = some l)
    (hp : Accounted L (StandsFor k) p) (n : Nat) : Accounted L (StandsFor l) (op.run n p) := by
  cases op with
  | many => cases known; exact many_standsFor hp n
  | atLeastOnce => cases known; exact atLeastOnce_standsFor hp n
  | once => cases known; exact once_standsFor hp
  | text => cases known; exact text_standsFor hp
  | attempt => cases known; exact hp.attempt
  | not => cases known; exact .any (hp.not.map (fun _ => Value.unit) fun _ _ _ h => h.symm)
  | optional => cases known; exact optional_standsFor hp
  | named label => cases known; exact hp.named label
  | complete => cases known; exact hp.complete.of_value fun _ _ _ h => h.2
  | filter test => cases known; exact (hp.filter Value.shown test).of_value fun _ _ _ h => h.2
  | _ => cases known

theorem both_standsFor (hp : Accounted L (StandsFor k) p) (hq : Accounted L (StandsFor l) q) :
    Accounted L (StandsFor .any) ((p.both q).map Value.ofPair) := by
  refine .any ((hp.both hq).map Value.ofPair ?_)
  rintro ⟨v, w⟩ _ _ ⟨first, second, rfl, ⟨rfl, -⟩, ⟨rfl, -⟩⟩
  rfl

theorem concat_standsFor (hp : Accounted L (StandsFor .list) p)
    (hq : Accounted L (StandsFor .list) q) :
    Accounted L (StandsFor .list)
      ((Parser.concat (p.map Value.items) (q.map Value.items)).map Value.list) := by
  refine .list ((hp.items.concat hq.items).of_value ?_)
  rintro _ _ _ ⟨vs, ws, _, _, rfl, rfl, rfl, rfl⟩
  exact Value.flatAll_append vs ws

theorem Binary.run_standsFor {op : Binary} (known : op.kind? k l = some m)
    (hp : Accounted L (StandsFor k) p) (hq : Accounted L (StandsFor l) q) (n : Nat) :
    Accounted L (StandsFor m) (op.run n p q) := by
  cases op with
  | both => cases known; exact both_standsFor hp hq
  | concat =>
    match k, l, known with
    | .list, .list, rfl => exact concat_standsFor hp hq
  | or => cases known; exact (hp.join (.inl rfl)).or (hq.join (.inr rfl))
  | xor => cases known; exact (hp.join (.inl rfl)).xor (hq.join (.inr rfl))
  | except => cases known; exact hp.except hq
  | _ => cases known

end Operations

/-- The operations of the fragment keep the text of their parts. -/
theorem lossless_sound :
    lossless.Sound (fun _ => True) fun k => Accounts (Value.StandsFor k) where
  atom known μ c := Atom.run_standsFor (L := yielding μ) known c
  unary known μ _ hp n c := Unary.run_standsFor (L := yielding μ) known hp n c
  binary known μ _ _ _ _ hp hq n c := by
    have left := fun c => (hp c).weaken fun _ _ both => both.1
    have whole := Binary.run_standsFor (L := yielding μ) known left hq n c
    exact Yields.weaken whole fun _ _ good _ => good
  between known := known.elim
  rule {k l} known c o accounts := by
    cases accounts with
    | failure f => exact .failure f
    | success whole value =>
      rcases known with rfl | rfl
      · exact .success whole value
      · exact .success whole ⟨value.1, trivial⟩

/-- Nothing that is consumed is lost or duplicated. Where lists are joined only if they are known to
be lists, and no operation makes up a value or leaves one out, a value contains exactly the text
between the cursor that the parse began at and the remainder. A typed grammar is built into a typed
term, which stays so through every parse. -/
theorem values_contain_consumed_text :
    (∀ (t : Term) (s : Store) (k : Kind), t.TypedIn lossless s k → ∀ (n : Nat) (c : Cursor),
      t.TypedIn lossless (t.parse n c s).2 k ∧
      ∀ v r, (t.parse n c s).1 = .ok (.success v r) → c.rest = v.flat ++ r.rest) ∧
    ∀ (g : Grammar) (kinds : String → Kind) (k : Kind), g.HasType lossless kinds k →
      (g.build .empty).1.TypedIn lossless (g.build .empty).2 k := by
  refine ⟨fun t s k typed n c => ?_, fun g kinds k typed => typed.typedIn⟩
  obtain ⟨stays, accounts⟩ := typed.parse lossless_sound n c
  refine ⟨stays, fun v r outcome => ?_⟩
  cases accounts (fun _ _ => trivial) _ outcome with
  | success whole value => rw [whole, value.1]

/-- A word with an optional sign before it, whose letters are a rule of their own. -/
theorem signed_word_contains_consumed_text :
    let letter := Node.binary .or (.char 'a') (.char 'b')
    let word := Node.apply .text
      (.binary .concat (.apply .once (.rule "letter")) (.apply .many (.rule "letter")))
    let g : Grammar := ⟨[("letter", letter)],
      .binary .both (.apply .optional (.literal "--")) word⟩
    let c := Cursor.start ['-', '-', 'a', 'b', '!']
    g.HasType lossless (fun _ => .any) .any ∧
      ∃ v r, ((g.build .empty).1.parse 12 c (g.build .empty).2).1 = .ok (.success v r) ∧
        c.rest = v.flat ++ r.rest := by
  intro letter word g c
  have typed : g.HasType lossless (fun _ => .any) .any := by
    constructor
    · intro rule mem
      rw [List.mem_singleton.mp mem]
      exact ⟨.any, .binary (.leaf rfl) (.leaf rfl) rfl, .inl rfl⟩
    · have name {Γ : List (String × Kind)} (h : Γ.lookup "letter" = some .any) :
          (Node.rule "letter").HasType lossless Γ .any := .rule h
      exact .binary (.unary (.leaf rfl) rfl)
        (.unary (.binary (.unary (name rfl) rfl) (.unary (name rfl) rfl) rfl) rfl) rfl
  obtain ⟨v, r, outcome⟩ : ∃ v r, ((g.build .empty).1.parse 12 c (g.build .empty).2).1 =
      .ok (.success v r) := ⟨_, _, rfl⟩
  have contained := values_contain_consumed_text.1 _ _ _
    (values_contain_consumed_text.2 g _ _ typed) 12 c
  exact ⟨typed, v, r, outcome, contained.2 v r outcome⟩

end Descent
