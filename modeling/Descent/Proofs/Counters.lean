import Descent.Grammar.Description
import Descent.Proofs.Evaluation

/-!
Cursors as two counters into a text. One of them counts characters and the other bytes: a step adds
one to the first and the size of the character to the second, and what is unread is cut from the
text at the second.
Main statement: the counters that stepping reaches are those of the cursors and answer alike, so
they never part, every cut falls between characters, and a text is visited in order to its end.
Parsers are handed no other cursors and hand out no others, whatever text their closures go to.
-/

namespace Descent

theorem Text.utf8ByteSize_ofList (xs : List Char) :
    (String.ofList xs).utf8ByteSize = byteSize xs := by
  induction xs with
  | nil => simp [byteSize]
  | cons x rest ih => simp [byteSize, ← ih, String.ofList_cons]

/-- A text with the numbers of characters and of bytes that have been passed. -/
structure Counters where
  source : List Char
  position : Nat
  offset : Nat

namespace Counters

def start (text : List Char) : Counters := ⟨text, 0, 0⟩

/-- The text behind the offset. There is none if the offset lies past the end of the text or inside
a character. -/
def rest? (k : Counters) : Option (List Char) :=
  (Text.takeBytes? k.source k.offset).map fun passed => k.source.drop passed.length

def atEnd (k : Counters) : Bool := Text.byteSize k.source ≤ k.offset

def next? (k : Counters) : Option (Char × Counters) :=
  match k.rest? with
  | some (x :: _) => some (x, ⟨k.source, k.position + 1, k.offset + x.utf8Size⟩)
  | _ => none

def current (k : Counters) : Except AtEnd Char :=
  match k.next? with
  | some (x, _) => .ok x
  | none => .error ⟨k.position⟩

def advance (k : Counters) : Except AtEnd Counters :=
  match k.next? with
  | some (_, l) => .ok l
  | none => .error ⟨k.position⟩

/-- Line and column are counted in the text before the offset, or in all of it if there is no cut
at the offset. -/
def location (k : Counters) : Location :=
  let passed := (Text.takeBytes? k.source k.offset).getD k.source
  ⟨k.position, passed.count '\n' + 1, (passed.reverse.takeWhile (· != '\n')).length + 1⟩

/-- The offset has no part in comparisons. -/
def sameAs (k l : Counters) : Bool := k.position == l.position && k.source == l.source

def hashKey (k : Counters) : Nat × Nat := (Text.byteSize k.source, k.position)

/-- Counters that are got by stepping from the start of a text. -/
inductive Reached : Counters → Prop
  | start (text : List Char) : Reached (start text)
  | next {k l : Counters} {x : Char} (h : Reached k) (step : k.next? = some (x, l)) : Reached l
  | advance {k l : Counters} (h : Reached k) (step : k.advance = .ok l) : Reached l

end Counters

namespace Cursor

def counters (c : Cursor) : Counters := ⟨c.source, c.position, c.offset⟩

/-- Cursors that are got by stepping from the start of a text, or found in the outcome of a parser
that was started at such a cursor. -/
inductive Obtained : Cursor → Prop
  | start (text : List Char) (table : Nat) : Obtained ((start text).onTable table)
  | next {c d : Cursor} {x : Char} (h : Obtained c) (step : c.next? = some (x, d)) : Obtained d
  | advance {c d : Cursor} (h : Obtained c) (step : c.advance = .ok d) : Obtained d
  | outcome {σ α : Type} {c : Cursor} (h : Obtained c) (p : Parser σ α) {s t : σ} {o : Outcome α}
    (run : p c s = (.ok o, t)) : Obtained o.cursor

/-- Stepping from one cursor to another one reads the characters `xs`. -/
inductive Visits : Cursor → List Char → Cursor → Prop
  | done (c : Cursor) : Visits c [] c
  | step {c d e : Cursor} {x : Char} {xs : List Char} (first : c.next? = some (x, d))
    (rest : Visits d xs e) : Visits c (x :: xs) e

/-- The position and the offset of a cursor stand at one place between the characters of its text,
and what is read there is what comes behind them. -/
structure InStep (c : Cursor) : Prop where
  position_le : c.position ≤ c.source.length
  offset_eq : c.offset = (String.ofList (c.source.take c.position)).utf8ByteSize
  cut : Text.takeBytes? c.source c.offset = some (c.source.take c.position)
  rest_eq : c.rest = c.source.drop c.position
  atEnd_iff : c.atEnd = true ↔ c.position = c.source.length
  inside : c.atEnd = false → ∃ x d, c.source[c.position]? = some x ∧ c.current = .ok x ∧
    c.advance = .ok d ∧ c.next? = some (x, d) ∧
    d.counters = ⟨c.source, c.position + 1, c.offset + x.utf8Size⟩
  ended : c.atEnd = true →
    c.current = .error ⟨c.position⟩ ∧ c.advance = .error ⟨c.position⟩ ∧ c.next? = none

/-- The counters of a cursor answer as the cursor does. -/
structure Counted (c : Cursor) : Prop where
  rest : c.counters.rest? = some c.rest
  atEnd : c.counters.atEnd = c.atEnd
  next : c.counters.next? = c.next?.map fun (x, d) => (x, d.counters)
  current : c.counters.current = c.current
  advance : c.counters.advance = c.advance.map counters
  location : c.counters.location = c.location
  hashKey : c.counters.hashKey = c.hashKey
  sameAs : ∀ d : Cursor, c.counters.sameAs d.counters = c.sameAs d

variable (c : Cursor)

theorem take_position : c.source.take c.position = c.before.reverse := by
  simp [source_eq_append, position]

theorem drop_position : c.source.drop c.position = c.rest := by
  simp [source_eq_append, position]

/-- A cut of the text at the offset falls between characters. -/
theorem takeBytes?_offset : Text.takeBytes? c.source c.offset = some c.before.reverse := by
  rw [source_eq_append, offset, ← Text.byteSize_reverse]
  exact Text.takeBytes?_append _ _

theorem rest?_counters : c.counters.rest? = some c.rest := by
  rw [Counters.rest?, counters, takeBytes?_offset, Option.map_some, List.length_reverse]
  exact congrArg some c.drop_position

theorem next?_counters : c.counters.next? = c.next?.map fun (x, d) => (x, d.counters) := by
  rw [Counters.next?, rest?_counters]
  obtain ⟨before, rest, table⟩ := c
  cases rest with
  | nil => rfl
  | cons x rest => simp [next?, counters, source, position, offset, Text.byteSize, Nat.add_comm]

theorem current_counters : c.counters.current = c.current := by
  rw [Counters.current, current, next?_counters]
  cases c.next? <;> rfl

theorem advance_counters : c.counters.advance = c.advance.map counters := by
  rw [Counters.advance, advance, next?_counters]
  cases c.next? <;> rfl

theorem byteSize_le_offset_iff : Text.byteSize c.source ≤ c.offset ↔ c.rest = [] := by
  have total : Text.byteSize c.source = c.offset + Text.byteSize c.rest := by
    simp [source_eq_append, offset]
  rw [total]
  cases c.rest with
  | nil => simp [Text.byteSize]
  | cons x rest =>
    have positive := x.utf8Size_pos
    simp only [Text.byteSize, reduceCtorEq, iff_false]
    omega

theorem atEnd_counters : c.counters.atEnd = c.atEnd := by
  rw [Bool.eq_iff_iff, atEnd, List.isEmpty_iff, ← byteSize_le_offset_iff]
  exact decide_eq_true_iff

theorem location_counters : c.counters.location = c.location := by
  simp [Counters.location, location, counters, takeBytes?_offset]

theorem counted : c.Counted where
  rest := c.rest?_counters
  atEnd := c.atEnd_counters
  next := c.next?_counters
  current := c.current_counters
  advance := c.advance_counters
  location := c.location_counters
  hashKey := rfl
  sameAs _ := rfl

/-- Cursors are nothing but what stepping through their texts comes to. -/
theorem obtained : c.Obtained := by
  obtain ⟨before, rest, table⟩ := c
  induction before generalizing rest with
  | nil => exact .start rest table
  | cons x before ih => exact .next (ih (x :: rest)) rfl

theorem counters_of_next? {c d : Cursor} {x : Char} (step : c.next? = some (x, d)) :
    d.counters = ⟨c.source, c.position + 1, c.offset + x.utf8Size⟩ := by
  obtain ⟨before, rest, table⟩ := c
  cases rest with
  | nil => cases step
  | cons y rest =>
    cases step
    rw [counters, offset, Text.byteSize, Nat.add_comm]
    rfl

theorem getElem?_position {c d : Cursor} {x : Char} (step : c.next? = some (x, d)) :
    c.source[c.position]? = some x := by
  rw [← List.head?_drop, drop_position, rest_of_next? step, List.head?_cons]

theorem inStep : c.InStep where
  position_le := c.position_le
  offset_eq := by
    rw [take_position, Text.utf8ByteSize_ofList, Text.byteSize_reverse, offset]
  cut := by rw [take_position, takeBytes?_offset]
  rest_eq := c.drop_position.symm
  atEnd_iff := by
    rw [atEnd, List.isEmpty_iff, ← drop_position, List.drop_eq_nil_iff]
    exact ⟨fun le => Nat.le_antisymm c.position_le le, fun eq => Nat.le_of_eq eq.symm⟩
  inside more := by
    cases step : c.next? with
    | none => rw [atEnd, rest_of_next?_none step] at more; cases more
    | some found =>
      refine ⟨found.1, found.2, getElem?_position step, ?_, ?_, rfl, counters_of_next? step⟩
      · rw [current, step]
      · rw [advance, step]
  ended atLast := by
    have none : c.next? = none := by
      obtain ⟨before, rest, table⟩ := c
      cases List.isEmpty_iff.mp atLast
      rfl
    exact ⟨by rw [current, none], by rw [advance, none], none⟩

namespace Visits

variable {c d : Cursor} {xs : List Char}

theorem source_eq (h : Visits c xs d) : d.source = c.source := by
  induction h with
  | done c => rfl
  | step first _ ih => exact ih.trans (source_of_next? first)

theorem rest_eq (h : Visits c xs d) : c.rest = xs ++ d.rest := by
  induction h with
  | done c => rfl
  | step first _ ih => rw [rest_of_next? first, ih, List.cons_append]

theorem position_eq (h : Visits c xs d) : d.position = c.position + xs.length := by
  induction h with
  | done c => rfl
  | step first _ ih =>
    rw [ih, position_of_next? first, List.length_cons]
    omega

/-- Stepping passes any initial part of what is unread. -/
theorem across (before xs rest : List Char) (table : Nat) :
    Visits ⟨before, xs ++ rest, table⟩ xs ⟨xs.reverse ++ before, rest, table⟩ := by
  induction xs generalizing before with
  | nil => exact .done _
  | cons x xs ih =>
    rw [List.reverse_cons, List.append_assoc]
    exact .step rfl (ih (x :: before))

theorem to_end (before rest : List Char) (table : Nat) :
    Visits ⟨before, rest, table⟩ rest ⟨rest.reverse ++ before, [], table⟩ := by
  simpa using across before rest [] table

theorem forward_eq (h : Visits c xs d) : c.forward xs.length = .ok d := by
  induction h with
  | done c => rfl
  | step first _ ih => simpa [forward, advance, first] using ih

theorem unique {e : Cursor} (h : Visits c xs d) (k : Visits c xs e) : d = e :=
  Except.ok.inj (h.forward_eq.symm.trans k.forward_eq)

/-- Stepping can stop after any number of characters. -/
theorem exists_take (h : Visits c xs d) (n : Nat) : ∃ e, Visits c (xs.take n) e := by
  induction h generalizing n with
  | done c => exact ⟨c, by simpa using .done c⟩
  | @step c d _ x xs first _ ih =>
    cases n with
    | zero => exact ⟨c, .done c⟩
    | succ n =>
      obtain ⟨e, walk⟩ := ih n
      exact ⟨e, .step first walk⟩

end Visits
end Cursor

namespace Counters

theorem reached_counters (c : Cursor) : c.counters.Reached := by
  obtain ⟨before, rest, table⟩ := c
  induction before generalizing rest with
  | nil => exact .start rest
  | cons x before ih =>
    exact .next (ih (x :: rest)) (Cursor.next?_counters ⟨before, x :: rest, table⟩)

theorem Reached.exists_cursor {k : Counters} (h : k.Reached) : ∃ c : Cursor, c.counters = k := by
  induction h with
  | start text => exact ⟨.start text, rfl⟩
  | next _ step ih =>
    obtain ⟨c, rfl⟩ := ih
    rw [Cursor.next?_counters, Option.map_eq_some_iff] at step
    obtain ⟨found, -, eq⟩ := step
    exact ⟨found.2, congrArg Prod.snd eq⟩
  | advance _ step ih =>
    obtain ⟨c, rfl⟩ := ih
    rw [Cursor.advance_counters] at step
    cases found : c.advance with
    | error e => rw [found] at step; cases step
    | ok d => rw [found] at step; exact ⟨d, Except.ok.inj step⟩

end Counters

section Parsers

/-- Grammars whose closures go from cursors of a set to cursors of it. -/
def Fragment.returning (K : Cursor → Prop) : Fragment where
  atom a := ∀ f, a = .custom f → ∀ c, K c → K (f c).cursor
  unary _ := True
  binary _ := True

/-- Runs that start at cursors of a set and end at cursors of it, where the set has with a cursor
also the next one. -/
def among {K : Cursor → Prop} (next : ∀ {c d x}, K c → c.next? = some (x, d) → K d) :
    Judgement Store Store where
  region := K
  moves c d := K c → K d
  holds X _ good := ∀ n s, s.Within (.returning K) →
    (X n s).2.Within (.returning K) ∧ ∀ a, (X n s).1 = .ok a → good a
  moves_refl _ h := h
  moves_trans h k hc := k (h hc)
  moves_next step hc := next hc step
  region_moves hc h := h hc
  pure h _ _ store := ⟨store, fun _ eq => by cases eq; exact h⟩
  bind {α β X Y F G mid good} hx hf n s store := by
    obtain ⟨kept, yields⟩ := hx n s store
    dsimp only
    rcases run : X n s with ⟨e | a, t⟩
    · rw [run] at kept
      rw [Step.bind_of_error run]
      exact ⟨kept, nofun⟩
    · rw [run] at kept yields
      rw [Step.bind_of_ok run]
      exact hf a (yields a rfl) n t kept

namespace among

variable {K : Cursor → Prop} {next : ∀ {c d x}, K c → c.next? = some (x, d) → K d}

theorem spent : (among next).Partial := fun _ _ _ _ _ store => ⟨store, nofun⟩

theorem guard (rule : RuleId) {p p' : Parser Store Value}
    (h : (among next).Parsers (fun _ => p) fun _ => p') :
    (among next).Parsers (fun _ => guarded rule p) fun _ => guarded rule p' := by
  intro c hc n s store
  dsimp only
  by_cases entered : Store.entry rule c ∈ s.active
  · rw [guarded_of_mem entered]
    exact ⟨store, nofun⟩
  · rw [guarded_of_notMem entered]
    obtain ⟨kept, result⟩ := h c hc n (s.enter (Store.entry rule c)) ⟨store.cells, store.resolved⟩
    exact ⟨⟨kept.cells, kept.resolved⟩, result⟩

theorem build (chooser : Chooser) (scope : Scope) (v : Value)
    (inside : chooser.Within (.returning K)) :
    (among next).holds (fun _ => chooser.build scope v) (fun _ => chooser.build scope v)
      fun q => q.Within (.returning K) := by
  intro n s store
  obtain ⟨within, kept⟩ := chooser.build_within scope v store inside
  refine ⟨kept, fun q eq => ?_⟩
  cases eq
  exact within

theorem definition (rule : RuleId) :
    (among next).holds (fun _ => Store.definition rule) (fun _ => Store.definition rule)
      fun q => q.Within (.returning K) := by
  intro n s store
  dsimp only
  rw [Store.definition_apply]
  cases found : s.definition? rule with
  | none => exact ⟨store, nofun⟩
  | some body =>
    refine ⟨store, fun q eq => ?_⟩
    cases eq
    exact store.cells rule body found

theorem resolve (rule : RuleId) (body : Node) (scope : Scope)
    (inside : body.Within (.returning K)) :
    (among next).holds (fun _ => Store.resolve rule body scope)
      (fun _ => Store.resolve rule body scope) fun q => q.Within (.returning K) := by
  intro n s store
  obtain ⟨q, run, within, kept⟩ := store.resolve rule scope inside
  dsimp only
  rw [run]
  refine ⟨kept, fun a eq => ?_⟩
  cases eq
  exact within

theorem guarding : (among next).Machines (.returning K) .guarding .guarding where
  call _ _ _ _ h := h
  guard := guard
  build := build
  definition := definition
  resolve := resolve

end among

/-- A parse ends where it can come to by stepping and through the closures of its grammar. -/
theorem Term.parse_among {K : Cursor → Prop}
    (next : ∀ {c d x}, K c → c.next? = some (x, d) → K d) {t : Term}
    (inside : t.Within (.returning K)) {s : Store} (store : s.Within (.returning K)) (n : Nat)
    {c : Cursor} (hc : K c) {o : Outcome Value} (run : (t.parse n c s).1 = .ok o) :
    K o.cursor := by
  have returns (f : Closure) (inside : (Fragment.returning K).atom (.custom f)) (d : Cursor)
      (_ : K d) (hd : K d) : K (f d).cursor := inside f rfl d hd
  have judged := Judgement.evaluate (J := among next) returns among.guarding
    (among.spent.fuels (Nat.le_refl n)) inside
  exact (judged c hc 0 s store).2 o run hc

end Parsers

/-- Position and offset of a cursor never part. However a cursor is got, by stepping or from the
outcome of a parser, they stand at one place between the characters of its text, where steps read
on or, at the end and only there, report the end; and the counters that stepping reaches are the
counters of cursors and answer as they do. Stepping from the start of a text visits its characters
in order, one a step, and comes to the end after all of them. Cursors and counters that compare
equal are the same, although the offset is not compared. A parse makes no cursors but by stepping:
it ends in every set that its start and the steps and closures from there do not lead out of. -/
theorem cursors_in_step :
    (∀ c : Cursor, c.Obtained → c.InStep ∧ c.Counted) ∧
    (∀ k : Counters, k.Reached ↔ ∃ c : Cursor, c.Obtained ∧ c.counters = k) ∧
    (∀ text : List Char,
      (∃ d, (Cursor.start text).Visits text d ∧ d.next? = none) ∧
      ∀ xs d, (Cursor.start text).Visits xs d → d.source = text ∧ d.position = xs.length ∧
        xs = text.take xs.length ∧ (d.next? = none ↔ xs = text)) ∧
    (∀ c d : Cursor, c.Obtained → d.Obtained → c.sameAs d = true →
      c.hashKey = d.hashKey ∧ c.offset = d.offset ∧ c.rest = d.rest ∧ c.location = d.location) ∧
    (∀ k l : Counters, k.Reached → l.Reached → k.sameAs l = true → k = l) ∧
    ∀ K : Cursor → Prop, (∀ c d x, K c → c.next? = some (x, d) → K d) →
      ∀ (t : Term) (s : Store), t.Within (.returning K) → s.Within (.returning K) →
        ∀ n c, K c → ∀ o, (t.parse n c s).1 = .ok o → K o.cursor := by
  refine ⟨fun c _ => ⟨c.inStep, c.counted⟩, fun k => ⟨fun h => ?_, ?_⟩, fun text => ⟨?_, ?_⟩,
    fun c d _ _ same => ?_, fun k l hk hl same => ?_, ?_⟩
  · obtain ⟨c, rfl⟩ := h.exists_cursor
    exact ⟨c, c.obtained, rfl⟩
  · rintro ⟨c, -, rfl⟩
    exact Counters.reached_counters c
  · exact ⟨_, .to_end [] text 0, rfl⟩
  · intro xs d visits
    have whole : text = xs ++ d.rest := visits.rest_eq
    refine ⟨visits.source_eq, visits.position_eq.trans (Nat.zero_add _), ?_, ?_⟩
    · rw [whole, List.take_left]
    · rw [whole, List.self_eq_append_right]
      exact ⟨fun ended => Cursor.rest_of_next?_none ended, fun none =>
        (d.inStep.ended (List.isEmpty_iff.mpr none)).2.2⟩
  · rw [← Cursor.sameAs_iff.mp same]
    exact ⟨rfl, rfl, rfl, rfl⟩
  · obtain ⟨c, rfl⟩ := hk.exists_cursor
    obtain ⟨d, rfl⟩ := hl.exists_cursor
    rw [c.counted.sameAs] at same
    rw [← Cursor.sameAs_iff.mp same]
    rfl
  · intro K next t s inside store n c hc o run
    exact t.parse_among (next _ _ _) inside store n hc run

/-- A parse that goes on in another text, where it reads a character of two bytes, ends at the
third byte of that text. -/
theorem jumped_cursor_in_step :
    let g : Grammar := ⟨[], .binary .ignoreThen (.custom (Custom.jump "né!" 1)) (.char 'é')⟩
    let t := (g.build .empty).1
    let s := (g.build .empty).2
    let c := Cursor.start ['a']
    let K (d : Cursor) := d.source = ['a'] ∨ d.source = ['n', 'é', '!']
    c.Obtained ∧ t.Within (.returning K) ∧ s.Within (.returning K) ∧ K c ∧
      ∃ v r, (t.parse 3 c s).1 = .ok (.success v r) ∧ r.Obtained ∧ r.InStep ∧ r.Counted ∧ K r ∧
        r.position = 2 ∧ r.offset = 3 ∧ r.rest = ['!'] ∧ r.counters.Reached := by
  intro g t s c K
  have jumps : Fragment.atom (.returning K) (.custom (Custom.jump "né!" 1)) := by
    intro f eq d hd
    cases eq
    exact .inr rfl
  have inside : g.Within (.returning K) :=
    ⟨nofun, trivial, fun _ => jumps, fun _ f eq => nomatch eq⟩
  obtain ⟨term, store⟩ := Grammar.build_within inside
  obtain ⟨v, r, run, place⟩ : ∃ v r, (t.parse 3 c s).1 = .ok (.success v r) ∧
      r.position = 2 ∧ r.offset = 3 ∧ r.rest = ['!'] := ⟨_, _, rfl, rfl, rfl, rfl⟩
  have steps (d e : Cursor) (x : Char) (hd : K d) (step : d.next? = some (x, e)) : K e := by
    dsimp only [K]
    rw [Cursor.source_of_next? step]
    exact hd
  have start : c.Obtained := .start ['a'] 0
  have obtained : r.Obtained := start.outcome (t.parse 3) (Prod.ext run rfl)
  obtain ⟨sound, counts, -, -, -, ends⟩ := cursors_in_step
  obtain ⟨inStep, counted⟩ := sound r obtained
  exact ⟨start, term, store, .inl rfl, v, r, run, obtained, inStep, counted,
    ends K steps t s term store 3 c (.inl rfl) _ run, place.1, place.2.1, place.2.2,
    (counts _).mpr ⟨r, obtained, rfl⟩⟩

end Descent
