import Descent.Proofs.Taking

/-!
What built grammars take from a text, operation by operation, and the values of the words in it.
Main statement: a text that a newly built grammar takes without the guard is read by all its parses.
-/

namespace Descent

variable {s : Store} {xs ys zs ws : List Char} {v w : Value}

namespace Value

/-- A word as the list of its characters. -/
def word (xs : List Char) : Value := list (xs.map char)

theorem flat_word (xs : List Char) : (word xs).flat = xs := by
  rw [word, flat_list, List.flatMap_map]
  exact List.flatMap_singleton' xs

end Value

/-- A letter and further characters that pass a test. -/
@[ext]
structure Name (more : Char → Bool) where
  first : Char
  rest : List Char
  letter : CharSet.isLetter first = true
  spelled : Spelled more rest

def Name.text {more : Char → Bool} (x : Name more) : List Char := x.first :: x.rest

theorem Name.text_injective {more : Char → Bool} : Function.Injective (@Name.text more) :=
  fun _ _ same => Name.ext (List.cons.inj same).1 (List.cons.inj same).2

/-- Names whose further characters are read by `more`. -/
def Node.identifier (more : Node) : Node :=
  .apply .text (.binary .concat (.apply .once (.satisfy .letter)) (.apply .many more))

namespace Term

/-- Evaluation without the guard. -/
abbrev bare (t : Term) (n : Nat) : Parser Store Value := t.evaluate .trusting n

variable {p q t : Term} {h : Handle}

section Levels

theorem takes_unary {op : Unary} (hp : Takes s (fun n => op.run n (p.bare n)) xs ys v) :
    Takes s (unary op p).bare xs ys v := hp.congr 1 fun _ _ => rfl

theorem fails_unary {op : Unary} (hp : Fails s (fun n => op.run n (p.bare n)) xs) :
    Fails s (unary op p).bare xs := hp.congr 1 fun _ _ => rfl

theorem refuses_unary {op : Unary} (hp : Refuses s (fun n => op.run n (p.bare n)) xs) :
    Refuses s (unary op p).bare xs := hp.congr 1 fun _ _ => rfl

theorem takes_binary {op : Binary}
    (hpq : Takes s (fun n => op.run n (p.bare n) (q.bare n)) xs ys v) :
    Takes s (binary op p q).bare xs ys v := hpq.congr 1 fun _ _ => rfl

theorem fails_binary {op : Binary}
    (hpq : Fails s (fun n => op.run n (p.bare n) (q.bare n)) xs) :
    Fails s (binary op p q).bare xs := hpq.congr 1 fun _ _ => rfl

theorem refuses_binary {op : Binary}
    (hpq : Refuses s (fun n => op.run n (p.bare n) (q.bare n)) xs) :
    Refuses s (binary op p q).bare xs := hpq.congr 1 fun _ _ => rfl

theorem takes_giving (hp : Takes s p.bare xs ys v) :
    Takes s (unary (.giving w) p).bare xs ys w := (hp.map fun _ => w).congr 1 fun _ _ => rfl

theorem refuses_giving (hp : Refuses s p.bare xs) : Refuses s (unary (.giving w) p).bare xs :=
  (hp.map fun _ => w).congr 1 fun _ _ => rfl

theorem takes_map (f : Value → Value) (hp : Takes s p.bare xs ys v) :
    Takes s (unary (.map f) p).bare xs ys (f v) := (hp.map f).congr 1 fun _ _ => rfl

theorem takes_optional (hp : Takes s p.bare xs ys v) :
    Takes s (unary .optional p).bare xs ys (.some v) := takes_unary (hp.optional.map Value.ofOption)

theorem takes_absent (hp : Refuses s p.bare ys) : Takes s (unary .optional p).bare [] ys .none :=
  takes_unary (hp.optional.map Value.ofOption)

theorem takes_attempt (hp : Takes s p.bare xs ys v) : Takes s (unary .attempt p).bare xs ys v :=
  takes_unary hp.attempt

theorem fails_attempt (hp : Fails s p.bare xs) : Fails s (unary .attempt p).bare xs :=
  fails_unary hp.attempt.fails

theorem takes_filter {test : Value → Bool} (accepted : test v = true)
    (hp : Takes s p.bare xs ys v) : Takes s (unary (.filter test) p).bare xs ys v :=
  (hp.filter Value.shown accepted).congr 1 fun _ _ => rfl

theorem takes_complete (hp : Takes s p.bare xs [] v) :
    Takes s (unary .complete p).bare xs [] v := takes_unary hp.complete

theorem takes_named {label : String} (hp : Takes s p.bare xs ys v) :
    Takes s (unary (.named label) p).bare xs ys v := takes_unary (hp.named label)

theorem fails_named {label : String} (hp : Fails s p.bare xs) :
    Fails s (unary (.named label) p).bare xs := fails_unary (hp.named label)

theorem takes_both (hp : Takes s p.bare xs (ys ++ zs) v) (hq : Takes s q.bare ys zs w) :
    Takes s (binary .both p q).bare (xs ++ ys) zs (.pair v w) :=
  takes_binary ((hp.both hq).map Value.ofPair)

theorem takes_ignoreThen (hp : Takes s p.bare xs (ys ++ zs) v) (hq : Takes s q.bare ys zs w) :
    Takes s (binary .ignoreThen p q).bare (xs ++ ys) zs w := takes_binary (hp.ignoreThen hq)

theorem takes_thenIgnore (hp : Takes s p.bare xs (ys ++ zs) v) (hq : Takes s q.bare ys zs w) :
    Takes s (binary .thenIgnore p q).bare (xs ++ ys) zs v := takes_binary (hp.thenIgnore hq)

theorem takes_or (hp : Takes s p.bare xs ys v) (consumed : xs ≠ []) :
    Takes s (binary .or p q).bare xs ys v := takes_binary (hp.or (Q := q.bare) consumed)

theorem takes_other (hp : Fails s p.bare (xs ++ ys)) (hq : Takes s q.bare xs ys v) :
    Takes s (binary .or p q).bare xs ys v := takes_binary (.or_other hp hq)

theorem fails_or (hp : Fails s p.bare xs) (hq : Fails s q.bare xs) :
    Fails s (binary .or p q).bare xs := fails_binary (.or hp hq)

theorem takes_between {first inner last : Term} {u : Value}
    (hf : Takes s first.bare xs (ys ++ (zs ++ ws)) u) (hi : Takes s inner.bare ys (zs ++ ws) v)
    (hl : Takes s last.bare zs ws w) :
    Takes s (between first inner last).bare (xs ++ (ys ++ zs)) ws v :=
  (hf.between hi hl).congr 1 fun _ _ => rfl

theorem refuses_between {first inner last : Term} (hf : Refuses s first.bare xs) :
    Refuses s (between first inner last).bare xs :=
  (Refuses.between (Q := inner.bare) (R := last.bare) hf).congr 1 fun _ _ => rfl

theorem fails_between {first inner last : Term} (hf : Takes s first.bare xs ys v)
    (hi : Fails s inner.bare ys) : Fails s (between first inner last).bare (xs ++ ys) :=
  (hf.between_fails (R := last.bare) hi).congr 1 fun _ _ => rfl

theorem fails_both (hp : Fails s p.bare xs) : Fails s (binary .both p q).bare xs :=
  fails_binary ((hp.both (Q := q.bare)).map Value.ofPair)

theorem fails_thenIgnore (hp : Fails s p.bare xs) : Fails s (binary .thenIgnore p q).bare xs :=
  fails_binary (hp.thenIgnore (Q := q.bare))

theorem fails_ignoreThen (hp : Fails s p.bare xs) : Fails s (binary .ignoreThen p q).bare xs :=
  fails_binary (hp.ignoreThen (Q := q.bare))

theorem ignoreThen_fails (hp : Takes s p.bare xs ys v) (hq : Fails s q.bare ys) :
    Fails s (binary .ignoreThen p q).bare (xs ++ ys) := fails_binary (hp.ignoreThen_fails hq)

theorem thenIgnore_fails (hp : Takes s p.bare xs ys v) (hq : Fails s q.bare ys) :
    Fails s (binary .thenIgnore p q).bare (xs ++ ys) := fails_binary (hp.thenIgnore_fails hq)

theorem refuses_ignoreThen (hp : Refuses s p.bare xs) :
    Refuses s (binary .ignoreThen p q).bare xs := refuses_binary (hp.ignoreThen (Q := q.bare))

theorem fails_map {f : Value → Value} (hp : Fails s p.bare xs) :
    Fails s (unary (.map f) p).bare xs :=
  (hp.map f).congr 1 fun _ _ => rfl

theorem refuses_map {f : Value → Value} (hp : Refuses s p.bare xs) :
    Refuses s (unary (.map f) p).bare xs := (hp.map f).congr 1 fun _ _ => rfl

end Levels

theorem takes_literal {x : String} (text : x.toList = xs) :
    Takes s (leaf (.literal x)).bare xs ys (.str x) :=
  ((Takes.literal text).map Value.str).congr 1 fun _ _ => rfl

theorem refuses_literal {text : String} {x : Char} {rest : List Char}
    (spelled : text.toList = x :: rest) (missed : Misses (· == x) xs) :
    Refuses s (leaf (.literal text)).bare xs :=
  ((Refuses.literal spelled missed).map Value.str).congr 1 fun _ _ => rfl

theorem takes_char (x : Char) : Takes s (leaf (.satisfy (.exactly x))).bare [x] ys (.char x) :=
  ((Takes.satisfy (beq_self_eq_true x)).map Value.char).congr 1 fun _ _ => rfl

theorem takes_satisfy {k : CharClass} {x : Char} (matched : k.test x = true) :
    Takes s (leaf (.satisfy k)).bare [x] ys (.char x) :=
  ((Takes.satisfy matched).map Value.char).congr 1 fun _ _ => rfl

theorem refuses_satisfy {k : CharClass} (missed : Misses k.test xs) :
    Refuses s (leaf (.satisfy k)).bare xs :=
  ((Refuses.satisfy missed).map Value.char).congr 1 fun _ _ => rfl

theorem bare_rule (defined : s.definition? h.rule = some t) (n : Nat) (c : Cursor) :
    (rule h).bare (n + 1) c s = t.bare n c s :=
  (congrFun (trusting_rule n c h) s).trans
    (Step.bind_of_ok (Store.definition_of_some defined) _)

theorem takes_rule (defined : s.definition? h.rule = some t) (ht : Takes s t.bare xs ys v) :
    Takes s (rule h).bare xs ys v := ht.congr 1 (bare_rule defined)

theorem fails_rule (defined : s.definition? h.rule = some t) (ht : Fails s t.bare xs) :
    Fails s (rule h).bare xs := ht.congr 1 (bare_rule defined)

section Choosers

variable {next : Chooser} {scope : Scope} {built : Value → Term}

/-- The second parser of a sequence, where it is built without a change of the store. -/
theorem bare_bind (inert : ∀ v t, next.build scope v t = (built v, t)) (n : Nat) :
    (bind p next scope).bare (n + 1) = (p.bare n).andThen fun v => (built v).bare n := by
  have chosen (v : Value) (c : Cursor) : ((next.build scope v : Step Store Term) >>= fun q =>
      q.bare n c) = (built v).bare n c := by
    funext t
    have found : (next.build scope v : Step Store Term) t = (.ok (built v), t) := by
      rw [Store.build_apply, inert]
    exact Step.bind_of_ok found _
  change Parser.andThen (p.bare n) (fun v c =>
    (next.build scope v : Step Store Term) >>= fun q => q.bare n c) = _
  simp only [chosen]

theorem takes_bind (inert : ∀ v t, next.build scope v t = (built v, t))
    (hp : Takes s p.bare xs (ys ++ zs) v) (hq : Takes s (built v).bare ys zs w) :
    Takes s (bind p next scope).bare (xs ++ ys) zs w :=
  (hp.andThen (F := fun n v => (built v).bare n) hq).congr 1 fun n _ => by
    rw [bare_bind inert]

end Choosers

theorem fails_bind {next : Chooser} {scope : Scope} (hp : Fails s p.bare xs) :
    Fails s (bind p next scope).bare xs :=
  (hp.andThen (F := fun n v c =>
    (next.build scope v : Step Store Term) >>= fun q => q.bare n c)).congr 1 fun _ _ => rfl

section Words

variable {f : Char → Value} {test test' : Char → Bool} {vs : List Value} {x : Char}

theorem takes_many (all : TakesAll s p.bare vs xs ys) :
    Takes s (unary .many p).bare xs ys (.list vs) := takes_unary (all.many.map Value.list)

theorem takes_once (hp : Takes s p.bare xs ys v) :
    Takes s (unary .once p).bare xs ys (.list [v]) :=
  takes_unary ((hp.map ([·])).map Value.list)

theorem takes_letter (hp : Takes s p.bare xs ys (.char x)) :
    Takes s (unary .once p).bare xs ys (.word [x]) := takes_once hp

theorem takes_concat {vs ws : List Value} (hp : Takes s p.bare xs (ys ++ zs) (.list vs))
    (hq : Takes s q.bare ys zs (.list ws)) :
    Takes s (binary .concat p q).bare (xs ++ ys) zs (.list (vs ++ ws)) :=
  takes_binary ((Takes.concat (hp.map Value.items) (hq.map Value.items)).map Value.list)

theorem refuses_proper_word (hp : Spells s p.bare .char test) (missed : Misses test xs) :
    Refuses s (unary .atLeastOnce p).bare xs :=
  refuses_unary ((hp.refuses missed).atLeastOnce.map Value.list)

theorem takes_words {ts us : List Char} (hp : Takes s p.bare xs (ys ++ zs) (.word ts))
    (hq : Takes s q.bare ys zs (.word us)) :
    Takes s (binary .concat p q).bare (xs ++ ys) zs (.word (ts ++ us)) := by
  rw [Value.word, List.map_append]
  exact takes_concat hp hq

theorem refuses_once (hp : Refuses s p.bare xs) : Refuses s (unary .once p).bare xs :=
  refuses_unary ((hp.map ([·])).map Value.list)

theorem refuses_concat (hp : Refuses s p.bare xs) : Refuses s (binary .concat p q).bare xs :=
  refuses_binary ((Refuses.concat (Q := fun n => (q.bare n).map Value.items)
    (hp.map Value.items)).map Value.list)

theorem takes_text (hp : Takes s p.bare xs ys (.word ws)) :
    Takes s (unary .text p).bare xs ys (.str (.ofList ws)) := by
  have read := ((hp.map Value.flat).map String.ofList).map Value.str
  rw [Value.flat_word] at read
  exact takes_unary read

theorem spells_satisfy (k : CharClass) : Spells s (leaf (.satisfy k)).bare .char k.test :=
  ((Spells.satisfy k).map Value.char).congr 1 fun _ _ => rfl

theorem spells_or (hp : Spells s p.bare f test) (hq : Spells s q.bare f test') :
    Spells s (binary .or p q).bare f fun x => test x || test' x := (hp.or hq).congr 1 fun _ _ => rfl

theorem spells_except {g : Char → Value} (hp : Spells s p.bare f test)
    (hq : Spells s q.bare g test') :
    Spells s (binary .except p q).bare f fun x => test x && !test' x :=
  (hp.except hq).congr 1 fun _ _ => rfl

theorem takes_word (hp : Spells s p.bare .char test) (spelled : Spelled test xs)
    (missed : Misses test ys) : Takes s (unary .many p).bare xs ys (.word xs) :=
  takes_many (hp.takesAll spelled missed)

theorem takes_proper_word (hp : Spells s p.bare .char test) (proper : xs ≠ [])
    (spelled : Spelled test xs) (missed : Misses test ys) :
    Takes s (unary .atLeastOnce p).bare xs ys (.word xs) := by
  cases xs with
  | nil => exact absurd rfl proper
  | cons x rest =>
    have first := hp.takes (rest ++ ys) (spelled x (List.mem_cons_self ..))
    have more := hp.takesAll (fun y mem => spelled y (List.mem_cons_of_mem x mem)) missed
    exact takes_unary ((more.atLeastOnce first).map Value.list)

theorem refuses_text (hp : Refuses s p.bare xs) : Refuses s (unary .text p).bare xs :=
  (((hp.map Value.flat).map String.ofList).map Value.str).congr 1 fun _ _ => rfl

/-- The built form of `Node.identifier`. -/
def identifier (more : Term) : Term :=
  unary .text (binary .concat (unary .once (leaf (.satisfy .letter))) (unary .many more))

theorem takes_identifier (hp : Spells s p.bare .char test) (x : Name test)
    (missed : Misses test ys) :
    Takes s (identifier p).bare x.text ys (.str (.ofList x.text)) :=
  takes_text (takes_words (takes_letter (takes_satisfy x.letter)) (takes_word hp x.spelled missed))

theorem refuses_identifier (missed : Misses CharSet.isLetter xs) :
    Refuses s (identifier p).bare xs :=
  refuses_text (refuses_concat (refuses_once (refuses_satisfy missed)))

end Words

/-- Where nothing is active, a parse takes what is taken without the guard. -/
theorem parse_of_takes (coherent : s.Coherent t) (idle : s.active = [])
    (ht : Takes s t.bare xs ys v) (before : List Char) :
    Answers s (fun n => t.parse n ⟨before, xs ++ ys, 0⟩)
      (.success v ⟨xs.reverse ++ before, ys, 0⟩) := by
  obtain ⟨N, settled⟩ := ht before
  refine ⟨N, fun n le => ?_⟩
  have run : t.evaluate .trusting n ⟨before, xs ++ ys, 0⟩ s = _ := settled n le
  exact (parse_of_evaluate coherent idle (by rw [run]; exact nofun)).trans run

end Term

/-- A newly built grammar reads the whole text as this value, given enough fuel. -/
def Grammar.Reads (g : Grammar) (text : List Char) (v : Value) : Prop :=
  ∃ N, ∀ n, N ≤ n → ((g.build .empty).1.parse n (.start text) (g.build .empty).2).1 =
    .ok (.success v ⟨text.reverse, [], 0⟩)

theorem Grammar.reads_of_takes {g : Grammar} {text : List Char}
    (takes : Takes (g.build .empty).2 (g.build .empty).1.bare text [] v) : g.Reads text v := by
  have idle : (g.build .empty).2.active = [] := g.active_of_build .empty
  obtain ⟨N, settled⟩ := Term.parse_of_takes g.build_coherent idle takes []
  refine ⟨N, fun n le => ?_⟩
  have run := settled n le
  rw [List.append_nil, List.append_nil] at run
  exact congrArg Prod.fst run

end Descent
