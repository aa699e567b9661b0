import Descent.Proofs.Accounting
import Descent.Proofs.Reading

/-!
What the value of a grammar says about the text that it was read from. As in what grammars take,
the grammars neither resolve references nor create rules while they parse.
Main statement: a value of a parse stands for the text that the parse consumed.
-/

namespace Descent

variable {s : Store} {α : Type}

/-- Runs from the store `s`, which they leave as it is if they yield something. -/
def undisturbed (s : Store) : RunLogic Store where
  Holds x P := ∀ a t, x s = (.ok a, t) → t = s ∧ P a
  weaken hx imp a t run := ⟨(hx a t run).1, imp a (hx a t run).2⟩
  pure h a t run := by cases run; exact ⟨rfl, h⟩
  halt _ _ _ _ run := by cases run
  bind hx hf b t run := by
    obtain ⟨a, u, first, rest⟩ := Step.bind_eq_ok_iff.mp run
    obtain ⟨rfl, known⟩ := hx a u first
    obtain ⟨rfl, all⟩ := hf a b t rest
    exact ⟨rfl, all known⟩

section Words

variable {σ : Type} {L : RunLogic σ} {p : Parser σ α} {f : Char → α} {test : Char → Bool}

/-- The parser reads one character that passes the test, and fails only where there is none. -/
def Singles (L : RunLogic σ) (p : Parser σ α) (f : Char → α) (test : Char → Bool) : Prop :=
  ∀ c, L.Holds (p c) fun o => match o with
    | .success v r => ∃ x, v = f x ∧ test x = true ∧ c.rest = x :: r.rest
    | .failure _ => Misses test c.rest

theorem Singles.satisfy (k : CharClass) : Singles L (Parser.satisfy k) id k.test := by
  intro c
  cases found : c.next? with
  | none =>
    simp only [Parser.satisfy, found]
    refine L.pure ?_
    rw [Cursor.rest_of_next?_none found]
    exact misses_nil
  | some next =>
    simp only [Parser.satisfy, found]
    refine L.of_test (fun matched => L.pure ⟨next.1, rfl, matched, Cursor.rest_of_next? found⟩)
      fun other => L.pure ?_
    rw [Cursor.rest_of_next? found]
    exact misses_cons (Bool.eq_false_iff.mpr other)

theorem Singles.map {β : Type} (g : α → β) (hp : Singles L p f test) :
    Singles L (p.map g) (g ∘ f) test := by
  refine fun c => L.of_outcome (hp c) (fun v r => L.pure ?_) fun e => L.pure fun missed => missed
  rintro ⟨x, rfl, matched, rest⟩
  exact ⟨x, rfl, matched, rest⟩

/-- What one more character of a word adds to those found before. -/
theorem Singles.collect (hp : Singles L p f test) (n : Nat) (found : List α) :
    Accounted L (fun vs text rest => vs = found.reverse ++ text.map f ∧ Spelled test text ∧
      Misses test rest) (p.collect n found) := by
  induction n generalizing found with
  | zero => exact fun c => L.halt _
  | succ n ih =>
    refine fun c => L.of_outcome (hp c) (fun v d => L.weaken (ih (v :: found) d) ?_)
      fun e => L.pure fun missed => Accounts.success (List.nil_append c.rest).symm
        ⟨(List.append_nil _).symm, nofun, missed⟩
    rintro o word ⟨x, rfl, matched, here⟩
    cases word with
    | failure e => exact .failure e
    | @success vs text r whole value =>
      obtain ⟨rfl, spelled, missed⟩ := value
      have grown : c.rest = (x :: text) ++ r.rest := by rw [here, whole]; rfl
      refine .success grown ⟨?_, ?_, missed⟩
      · rw [List.reverse_cons, List.append_assoc]
        rfl
      · exact List.forall_mem_cons.mpr ⟨matched, spelled⟩

/-- A repetition of single characters reads a longest word. -/
theorem Singles.many (hp : Singles L p f test) (n : Nat) :
    Accounted L (fun vs text rest => vs = text.map f ∧ Spelled test text ∧ Misses test rest)
      (p.many n) := hp.collect n []

theorem Singles.atLeastOnce (hp : Singles L p f test) (n : Nat) :
    Accounted L (fun vs text rest => text ≠ [] ∧ vs = text.map f ∧ Spelled test text ∧
      Misses test rest) (p.atLeastOnce n) := by
  refine fun c => L.of_outcome (hp c) (fun v d => L.weaken (hp.collect n [v] d) ?_)
    fun e => L.pure fun _ => .failure e
  rintro o word ⟨x, rfl, matched, here⟩
  cases word with
  | failure e => exact .failure e
  | @success vs text r whole value =>
    obtain ⟨rfl, spelled, missed⟩ := value
    have grown : c.rest = (x :: text) ++ r.rest := by rw [here, whole]; rfl
    exact .success grown
      ⟨nofun, rfl, List.forall_mem_cons.mpr ⟨matched, spelled⟩, missed⟩

/-- Pieces of one character each. -/
theorem Pieces.word {vs : List α} {text rest : List Char}
    (h : Pieces (fun v text _ => ∃ x, v = f x ∧ test x = true ∧ text = [x]) vs text rest) :
    vs = text.map f ∧ Spelled test text := by
  induction h with
  | nil => exact ⟨rfl, nofun⟩
  | cons first others ih =>
    obtain ⟨x, rfl, matched, rfl⟩ := first
    exact ⟨congrArg (f x :: ·) ih.1, List.forall_mem_cons.mpr ⟨matched, ih.2⟩⟩

end Words

/-- With at most `n` units of fuel, the values of the grammar stand for the text consumed. -/
def Term.Explains (s : Store) (n : Nat) (t : Term) (stands : Standing Value) : Prop :=
  ∀ m, m ≤ n → Accounted (undisturbed s) stands (t.bare m)

namespace Term.Explains

variable {n : Nat} {p q t : Term} {stands stands' stands'' : Standing Value}

theorem of_value (hp : p.Explains s n stands)
    (imp : ∀ v text rest, stands v text rest → stands' v text rest) : p.Explains s n stands' :=
  fun m le => (hp m le).of_value imp

/-- A level of terms is explained where the operation on its parts is. -/
theorem of_level {P : Nat → Parser Store Value}
    (same : ∀ m c, t.bare (m + 1) c s = P m c s)
    (level : ∀ m, m < n → Accounted (undisturbed s) stands (P m)) : t.Explains s n stands := by
  intro m le
  cases m with
  | zero => exact fun c => (undisturbed s).halt _
  | succ m =>
    intro c a u run
    rw [same] at run
    exact level m le c a u run

theorem leaf {a : Atom} (ha : Accounted (undisturbed s) stands a.run) :
    (leaf a).Explains s n stands := of_level (fun _ _ => rfl) fun _ _ => ha

theorem unary {op : Unary} (hp : p.Explains s n stands)
    (level : ∀ m {p : Parser Store Value}, Accounted (undisturbed s) stands p →
      Accounted (undisturbed s) stands' (op.run m p)) : (unary op p).Explains s n stands' :=
  of_level (fun _ _ => rfl) fun m le => level m (hp m (Nat.le_of_lt le))

theorem binary {op : Binary} (hp : p.Explains s n stands) (hq : q.Explains s n stands')
    (level : ∀ m {p q : Parser Store Value}, Accounted (undisturbed s) stands p →
      Accounted (undisturbed s) stands' q → Accounted (undisturbed s) stands'' (op.run m p q)) :
    (binary op p q).Explains s n stands'' :=
  of_level (fun _ _ => rfl) fun m le =>
    level m (hp m (Nat.le_of_lt le)) (hq m (Nat.le_of_lt le))

/-- Entering a rule spends a unit of fuel, so a rule may be explained by its own definition. -/
theorem rule {h : Handle} (defined : s.definition? h.rule = some t)
    (ht : ∀ m, m < n → t.Explains s m stands) : (rule h).Explains s n stands :=
  of_level (bare_rule defined) fun m le => ht m le m (Nat.le_refl m)

theorem bind {next : Chooser} {scope : Scope} {built : Value → Term} (hp : p.Explains s n stands)
    (inert : ∀ v t, next.build scope v t = (built v, t))
    (hq : ∀ v, (built v).Explains s n fun w text rest => ∀ before,
      stands v before (text ++ rest) → stands' w (before ++ text) rest) :
    (bind p next scope).Explains s n stands' :=
  of_level (fun m c => by rw [bare_bind inert]) fun m le =>
    (hp m (Nat.le_of_lt le)).andThen fun v => hq v m (Nat.le_of_lt le)

section Operations

theorem map (f : Value → Value) (hp : p.Explains s n stands)
    (imp : ∀ v text rest, stands v text rest → stands' (f v) text rest) :
    (Term.unary (.map f) p).Explains s n stands' := unary hp fun _ _ hp => hp.map f imp

theorem filter (test : Value → Bool) (hp : p.Explains s n stands) :
    (Term.unary (.filter test) p).Explains s n fun v text rest =>
      test v = true ∧ stands v text rest := unary hp fun _ _ hp => hp.filter Value.shown test

theorem attempt (hp : p.Explains s n stands) : (Term.unary .attempt p).Explains s n stands :=
  unary hp fun _ _ hp => hp.attempt

theorem complete (hp : p.Explains s n stands) :
    (Term.unary .complete p).Explains s n fun v text rest => rest = [] ∧ stands v text [] :=
  unary hp fun _ _ hp => hp.complete

theorem many (hp : p.Explains s n stands) :
    (Term.unary .many p).Explains s n fun v text rest =>
      ∃ vs, v = .list vs ∧ Pieces stands vs text rest :=
  unary hp fun m _ hp => (hp.many m).map Value.list fun vs _ _ pieces => ⟨vs, rfl, pieces⟩

theorem once (hp : p.Explains s n stands) :
    (Term.unary .once p).Explains s n fun v text rest => ∃ w, v = .list [w] ∧ stands w text rest :=
  unary hp fun _ _ hp => hp.once.map Value.list fun _ _ _ ⟨w, same, value⟩ =>
    ⟨w, congrArg Value.list same, value⟩

theorem concat (hp : p.Explains s n stands) (hq : q.Explains s n stands') :
    (Term.binary .concat p q).Explains s n fun v text rest => ∃ x y first second,
      v = .list (x.items ++ y.items) ∧ text = first ++ second ∧ stands x first (second ++ rest) ∧
        stands' y second rest := by
  refine binary hp hq fun _ _ _ hp hq =>
    ((hp.image Value.items).concat (hq.image Value.items)).map Value.list ?_
  rintro _ text rest ⟨_, _, first, second, rfl, rfl, ⟨x, rfl, value⟩, y, rfl, value'⟩
  exact ⟨x, y, first, second, rfl, rfl, value, value'⟩

theorem ignoreThen (hp : p.Explains s n stands) (hq : q.Explains s n stands') :
    (Term.binary .ignoreThen p q).Explains s n fun w text rest =>
      ∃ v first second, text = first ++ second ∧ stands v first (second ++ rest) ∧
        stands' w second rest := binary hp hq fun _ _ _ hp hq => hp.ignoreThen hq

theorem thenIgnore (hp : p.Explains s n stands) (hq : q.Explains s n stands') :
    (Term.binary .thenIgnore p q).Explains s n fun v text rest =>
      ∃ w first second, text = first ++ second ∧ stands v first (second ++ rest) ∧
        stands' w second rest := binary hp hq fun _ _ _ hp hq => hp.thenIgnore hq

theorem or (hp : p.Explains s n stands) (hq : q.Explains s n stands) :
    (Term.binary .or p q).Explains s n stands := binary hp hq fun _ _ _ hp hq => hp.or hq

theorem satisfy (k : CharClass) :
    (Term.leaf (.satisfy k)).Explains s n fun v text _ =>
      ∃ x, v = .char x ∧ k.test x = true ∧ text = [x] :=
  leaf ((Accounted.satisfy k).map Value.char fun x _ _ h => ⟨x, rfl, h.2, h.1⟩)

end Operations

section Words

variable {test : Char → Bool}

theorem singles (k : CharClass) (m : Nat) :
    Singles (undisturbed s) ((Term.leaf (.satisfy k)).bare m) .char k.test := by
  cases m with
  | zero => exact fun c => (undisturbed s).halt _
  | succ m => exact (Singles.satisfy k).map Value.char

/-- A longest word, which may be empty. -/
theorem word (k : CharClass) :
    (Term.unary .many (.leaf (.satisfy k))).Explains s n fun v text rest =>
      v = .word text ∧ Spelled k.test text ∧ Misses k.test rest := by
  refine of_level (fun _ _ => rfl) fun m _ => ((singles k m).many m).map Value.list ?_
  rintro _ text rest ⟨rfl, spelled⟩
  exact ⟨rfl, spelled⟩

theorem proper_word (k : CharClass) :
    (Term.unary .atLeastOnce (.leaf (.satisfy k))).Explains s n fun v text rest =>
      text ≠ [] ∧ v = .word text ∧ Spelled k.test text ∧ Misses k.test rest := by
  refine of_level (fun _ _ => rfl) fun m _ => ((singles k m).atLeastOnce m).map Value.list ?_
  rintro _ text rest ⟨proper, rfl, spelled⟩
  exact ⟨proper, rfl, spelled⟩

theorem text {known : List Char → List Char → Prop}
    (hp : p.Explains s n fun v text rest => v = .word text ∧ known text rest) :
    (Term.unary .text p).Explains s n fun v text rest =>
      v = .str (.ofList text) ∧ known text rest := by
  refine unary hp fun _ _ hp =>
    (((hp.image Value.flat).image String.ofList).image Value.str).of_value ?_
  rintro _ text rest ⟨_, rfl, _, rfl, _, rfl, rfl, known⟩
  rw [Value.flat_word]
  exact ⟨rfl, known⟩

/-- A name is read as its text. -/
theorem identifier (hp : p.Explains s n fun v text _ => ∃ x, v = .char x ∧ test x = true ∧
    text = [x]) : (Term.identifier p).Explains s n fun v text _ =>
      ∃ x : Name test, v = .str (.ofList x.text) ∧ text = x.text := by
  have chars : (Term.binary .concat (.unary .once (.leaf (.satisfy .letter)))
      (.unary .many p)).Explains s n fun v text _ =>
        v = .word text ∧ ∃ x : Name test, text = x.text := by
    refine ((satisfy .letter).once.concat hp.many).of_value ?_
    rintro _ text rest
      ⟨_, _, first, second, rfl, rfl, ⟨_, rfl, x, rfl, letter, rfl⟩, vs, rfl, pieces⟩
    obtain ⟨rfl, spelled⟩ := pieces.word
    exact ⟨rfl, ⟨x, second, letter, spelled⟩, rfl⟩
  refine chars.text.of_value ?_
  rintro _ text rest ⟨rfl, x, rfl⟩
  exact ⟨x, rfl, rfl⟩

end Words

theorem parse (ht : ∀ m, t.Explains s m stands) {c r : Cursor} {v : Value}
    (outcome : (t.parse n c s).1 = .ok (.success v r)) :
    ∃ text, c.rest = text ++ r.rest ∧ stands v text r.rest := by
  have bare := evaluate_of_parse outcome fun _ => nofun
  cases (ht n n (Nat.le_refl n) c _ _ (Prod.ext bare rfl)).2 with
  | success whole value => exact ⟨_, whole, value⟩

end Term.Explains

end Descent
