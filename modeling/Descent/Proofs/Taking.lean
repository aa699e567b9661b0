import Descent.Proofs.Grouping
import Descent.Proofs.Transparency

/-!
What grammars take from a text, before whatever comes next. The rules are about evaluation without
the guard from a store that stays as it is, so for grammars that neither resolve references nor
create rules while they parse.
Main statement: what is taken so, a parse takes.
-/

namespace Descent

/-- With enough fuel a run from the store `s` comes to `a` and leaves the store as it is. -/
def Answers {α : Type} (s : Store) (X : Nat → Step Store α) (a : α) : Prop :=
  ∃ N, ∀ n, N ≤ n → X n s = (.ok a, s)

/-- The parser takes the text `xs` before `ys`, with the value `v`. -/
def Takes {α : Type} (s : Store) (P : Nat → Parser Store α) (xs ys : List Char) (v : α) : Prop :=
  ∀ before,
    Answers s (fun n => P n ⟨before, xs ++ ys, 0⟩) (.success v ⟨xs.reverse ++ before, ys, 0⟩)

/-- The parser fails on the text `xs`, anywhere in it. -/
def Fails {α : Type} (s : Store) (P : Nat → Parser Store α) (xs : List Char) : Prop :=
  ∀ before, ∃ f, Answers s (fun n => P n ⟨before, xs, 0⟩) (.failure f)

/-- The parser fails on the text `xs` without consuming any of it. -/
def Refuses {α : Type} (s : Store) (P : Nat → Parser Store α) (xs : List Char) : Prop :=
  ∀ before, ∃ f : Failure, f.position = before.length ∧
    Answers s (fun n => P n ⟨before, xs, 0⟩) (.failure f)

variable {s : Store} {α β γ : Type} {xs ys zs ws : List Char} {v : α} {w : β} {u : γ}

namespace Answers

variable {X : Nat → Step Store α} {F : Nat → α → Step Store β}

theorem pure (a : α) : Answers s (fun _ => Pure.pure a) a := ⟨0, fun _ _ => rfl⟩

theorem bind (hx : Answers s X v) (hf : Answers s (fun n => F n v) w) :
    Answers s (fun n => X n >>= F n) w := by
  obtain ⟨N, first⟩ := hx
  obtain ⟨M, rest⟩ := hf
  refine ⟨max N M, fun n le => ?_⟩
  exact (Step.bind_of_ok (first n (by omega)) (F n)).trans (rest n (by omega))

/-- Runs that do the same with some more fuel. -/
theorem congr (hx : Answers s X v) (k : Nat) {Y : Nat → Step Store α}
    (same : ∀ n, Y (n + k) s = X n s) : Answers s Y v := by
  obtain ⟨N, settled⟩ := hx
  refine ⟨N + k, fun n le => ?_⟩
  obtain ⟨m, rfl⟩ : ∃ m, n = m + k := ⟨n - k, by omega⟩
  exact (same m).trans (settled m (by omega))

theorem of_test {p : Prop} [Decidable p] {Y : Nat → Step Store α} (h : p) (hx : Answers s X v) :
    Answers s (fun n => if p then X n else Y n) v := by
  simpa only [if_pos h] using hx

theorem of_test_not {p : Prop} [Decidable p] {Y : Nat → Step Store α} (h : ¬ p)
    (hx : Answers s X v) : Answers s (fun n => if p then Y n else X n) v := by
  simpa only [if_neg h] using hx

end Answers

variable {P P' : Nat → Parser Store α} {Q : Nat → Parser Store β} {R : Nat → Parser Store γ}

theorem Refuses.fails (h : Refuses s P xs) : Fails s P xs := fun before =>
  let ⟨f, _, answers⟩ := h before
  ⟨f, answers⟩

section Congruence

variable (k : Nat) (same : ∀ n c, P' (n + k) c s = P n c s)

include same

theorem Takes.congr (h : Takes s P xs ys v) : Takes s P' xs ys v :=
  fun before => (h before).congr k fun n => same n _

theorem Fails.congr (h : Fails s P xs) : Fails s P' xs := fun before =>
  let ⟨f, answers⟩ := h before
  ⟨f, answers.congr k fun n => same n _⟩

theorem Refuses.congr (h : Refuses s P xs) : Refuses s P' xs := fun before =>
  let ⟨f, here, answers⟩ := h before
  ⟨f, here, answers.congr k fun n => same n _⟩

end Congruence

section Sequence

theorem Takes.succeed (v : α) : Takes s (fun _ => Parser.succeed v) [] ys v :=
  fun _ => .pure _

theorem Takes.andThen {F : Nat → α → Parser Store β} (hp : Takes s P xs (ys ++ zs) v)
    (hf : Takes s (fun n => F n v) ys zs w) :
    Takes s (fun n => (P n).andThen (F n)) (xs ++ ys) zs w := by
  intro before
  rw [List.append_assoc, List.reverse_append, List.append_assoc]
  exact (hp before).bind (hf _)

theorem Takes.map (f : α → β) (hp : Takes s P xs ys v) :
    Takes s (fun n => (P n).map f) xs ys (f v) :=
  fun before => (hp before).bind (.pure _)

theorem Takes.both (hp : Takes s P xs (ys ++ zs) v) (hq : Takes s Q ys zs w) :
    Takes s (fun n => (P n).both (Q n)) (xs ++ ys) zs (v, w) :=
  andThen (F := fun n v => (Q n).map (v, ·)) hp (hq.map _)

theorem Takes.ignoreThen (hp : Takes s P xs (ys ++ zs) v) (hq : Takes s Q ys zs w) :
    Takes s (fun n => (P n).ignoreThen (Q n)) (xs ++ ys) zs w :=
  andThen (F := fun n _ => Q n) hp hq

theorem Takes.thenIgnore (hp : Takes s P xs (ys ++ zs) v) (hq : Takes s Q ys zs w) :
    Takes s (fun n => (P n).thenIgnore (Q n)) (xs ++ ys) zs v :=
  andThen (F := fun n v => (Q n).map fun _ => v) hp (hq.map _)

theorem Takes.between (hp : Takes s P xs (ys ++ (zs ++ ws)) v) (hq : Takes s Q ys (zs ++ ws) w)
    (hr : Takes s R zs ws u) :
    Takes s (fun n => Parser.between (P n) (Q n) (R n)) (xs ++ (ys ++ zs)) ws w := by
  rw [← List.append_assoc] at hp
  exact andThen (F := fun n _ => (Q n).thenIgnore (R n)) hp (hq.thenIgnore hr)

theorem Takes.concat {P Q : Nat → Parser Store (List α)} {v w : List α}
    (hp : Takes s P xs (ys ++ zs) v) (hq : Takes s Q ys zs w) :
    Takes s (fun n => (P n).concat (Q n)) (xs ++ ys) zs (v ++ w) := by
  intro before
  rw [List.append_assoc, List.reverse_append, List.append_assoc]
  exact (hp before).bind ((hq.map (v ++ ·)) _)

theorem Takes.endOfInput : Takes s (fun _ => Parser.endOfInput) [] [] () :=
  fun _ => .pure _

theorem Takes.complete (hp : Takes s P xs [] v) : Takes s (fun n => (P n).complete) xs [] v := by
  have ending : Takes s (fun _ => Parser.endOfInput.map fun _ => v) [] [] v := endOfInput.map _
  have whole := andThen (F := fun _ v => Parser.endOfInput.map fun _ => v) hp ending
  rw [List.append_nil] at whole
  exact whole

theorem Fails.andThen {F : Nat → α → Parser Store β} (hp : Fails s P xs) :
    Fails s (fun n => (P n).andThen (F n)) xs := fun before =>
  let ⟨f, answers⟩ := hp before
  ⟨f, answers.bind (.pure _)⟩

theorem Refuses.andThen {F : Nat → α → Parser Store β} (hp : Refuses s P xs) :
    Refuses s (fun n => (P n).andThen (F n)) xs := fun before =>
  let ⟨f, here, answers⟩ := hp before
  ⟨f, here, answers.bind (.pure _)⟩

theorem Refuses.between (hp : Refuses s P xs) :
    Refuses s (fun n => Parser.between (P n) (Q n) (R n)) xs :=
  andThen (F := fun n _ => (Q n).thenIgnore (R n)) hp

theorem Refuses.concat {P Q : Nat → Parser Store (List α)} (hp : Refuses s P xs) :
    Refuses s (fun n => (P n).concat (Q n)) xs := fun before =>
  let ⟨f, here, answers⟩ := hp before
  ⟨f, here, answers.bind (.pure _)⟩

/-- The first of two parsers takes what it can, and the second one fails behind it. -/
theorem Takes.andThen_fails {F : Nat → α → Parser Store β} (hp : Takes s P xs ys v)
    (hf : Fails s (fun n => F n v) ys) : Fails s (fun n => (P n).andThen (F n)) (xs ++ ys) :=
  fun before =>
    let ⟨f, answers⟩ := hf (xs.reverse ++ before)
    ⟨f, (hp before).bind answers⟩

theorem Takes.between_fails (hp : Takes s P xs ys v) (hq : Fails s Q ys) :
    Fails s (fun n => Parser.between (P n) (Q n) (R n)) (xs ++ ys) :=
  hp.andThen_fails (F := fun n _ => (Q n).thenIgnore (R n))
    (hq.andThen (F := fun n v => (R n).map fun _ => v))

theorem Fails.both (hp : Fails s P xs) : Fails s (fun n => (P n).both (Q n)) xs :=
  hp.andThen (F := fun n v => (Q n).map (v, ·))

theorem Fails.thenIgnore (hp : Fails s P xs) : Fails s (fun n => (P n).thenIgnore (Q n)) xs :=
  hp.andThen (F := fun n v => (Q n).map fun _ => v)

theorem Fails.ignoreThen (hp : Fails s P xs) : Fails s (fun n => (P n).ignoreThen (Q n)) xs :=
  hp.andThen (F := fun n _ => Q n)

theorem Refuses.ignoreThen (hp : Refuses s P xs) : Refuses s (fun n => (P n).ignoreThen (Q n)) xs :=
  hp.andThen (F := fun n _ => Q n)

theorem Takes.ignoreThen_fails (hp : Takes s P xs ys v) (hq : Fails s Q ys) :
    Fails s (fun n => (P n).ignoreThen (Q n)) (xs ++ ys) :=
  hp.andThen_fails (F := fun n _ => Q n) hq

theorem Takes.thenIgnore_fails (hp : Takes s P xs ys v) (hq : Fails s Q ys) :
    Fails s (fun n => (P n).thenIgnore (Q n)) (xs ++ ys) :=
  hp.andThen_fails (F := fun n v => (Q n).map fun _ => v) fun before =>
    let ⟨e, answers⟩ := hq before
    ⟨e, answers.bind (.pure _)⟩

theorem Fails.map (f : α → β) (hp : Fails s P xs) : Fails s (fun n => (P n).map f) xs :=
  fun before =>
    let ⟨e, answers⟩ := hp before
    ⟨e, answers.bind (.pure _)⟩

theorem Refuses.map (f : α → β) (hp : Refuses s P xs) : Refuses s (fun n => (P n).map f) xs :=
  fun before =>
    let ⟨e, here, answers⟩ := hp before
    ⟨e, here, answers.bind (.pure _)⟩

end Sequence

section Character

variable {k : CharClass} {x : Char}

theorem Takes.satisfy (matched : k.test x = true) :
    Takes s (fun _ => Parser.satisfy k) [x] ys x :=
  fun _ => .of_test matched (.pure _)

/-- No character that passes the test comes next. -/
def Misses (test : Char → Bool) (xs : List Char) : Prop := ∀ x ∈ xs.head?, test x = false

theorem misses_nil {test : Char → Bool} : Misses test [] := nofun

theorem misses_cons {test : Char → Bool} (h : test x = false) : Misses test (x :: xs) :=
  fun y mem => by cases mem; exact h

theorem Refuses.satisfy (missed : Misses k.test xs) : Refuses s (fun _ => Parser.satisfy k) xs := by
  intro before
  cases xs with
  | nil => exact ⟨_, rfl, .pure _⟩
  | cons x rest =>
    have other : ¬ k.test x = true := Bool.eq_false_iff.mp (missed x rfl)
    exact ⟨_, rfl, .of_test_not other (.pure _)⟩

theorem Takes.chars (xs : List Char) : Takes s (fun _ => Parser.chars xs) xs ys () := by
  induction xs with
  | nil => exact succeed ()
  | cons x rest ih =>
    have first : Takes s (fun _ => Parser.char x) [x] (rest ++ ys) x := satisfy (beq_self_eq_true x)
    exact andThen (F := fun _ _ => Parser.chars rest) first ih

theorem Takes.literal {t : String} (text : t.toList = xs) :
    Takes s (fun _ => Parser.literal t) xs ys t := by
  subst text
  exact fun before => (chars t.toList before).bind (.pure _)

/-- A text is refused at its first character. -/
theorem Refuses.literal {t : String} {rest : List Char} (text : t.toList = x :: rest)
    (missed : Misses (· == x) xs) :
    Refuses s (fun _ => Parser.literal t) xs := by
  intro before
  have first : Refuses s (fun _ => Parser.chars t.toList) xs := by
    rw [text]
    exact Refuses.andThen (F := fun _ _ => Parser.chars rest) (.satisfy missed)
  obtain ⟨f, here, answers⟩ := first before
  exact ⟨f.expecting {enquote t}, here, answers.bind (.of_test here (.pure _))⟩

end Character

section Choice

variable {P Q : Nat → Parser Store α}

theorem Takes.xor (hp : Takes s P xs ys v) (consumed : xs ≠ []) :
    Takes s (fun n => (P n).xor (Q n)) xs ys v := by
  intro before
  refine (hp before).bind (.of_test_not (fun same => ?_) (.pure _))
  have := List.length_pos_iff.mpr consumed
  simp only [Cursor.position, List.length_append, List.length_reverse] at same
  omega

theorem Takes.xor_other (hp : Refuses s P (xs ++ ys)) (hq : Takes s Q xs ys v) :
    Takes s (fun n => (P n).xor (Q n)) xs ys v := fun before =>
  let ⟨_, here, answers⟩ := hp before
  answers.bind (.of_test here ((hq before).bind (.pure _)))

theorem Refuses.xor (hp : Refuses s P xs) (hq : Refuses s Q xs) :
    Refuses s (fun n => (P n).xor (Q n)) xs := fun before =>
  let ⟨f, here, first⟩ := hp before
  let ⟨g, here', second⟩ := hq before
  ⟨g.merge f, here', first.bind (.of_test here (second.bind (.of_test here' (.pure _))))⟩

theorem Fails.xor (hp : Fails s P xs) (hq : Fails s Q xs) :
    Fails s (fun n => (P n).xor (Q n)) xs := by
  intro before
  obtain ⟨f, first⟩ := hp before
  obtain ⟨g, second⟩ := hq before
  by_cases here : f.position = before.length
  · by_cases here' : g.position = before.length
    · exact ⟨_, first.bind (.of_test here (second.bind (.of_test here' (.pure _))))⟩
    · exact ⟨_, first.bind (.of_test here (second.bind (.of_test_not here' (.pure _))))⟩
  · exact ⟨_, first.bind (.of_test_not here (.pure _))⟩

theorem Takes.attempt (hp : Takes s P xs ys v) : Takes s (fun n => (P n).attempt) xs ys v :=
  fun before => (hp before).bind (.pure _)

theorem Fails.attempt (hp : Fails s P xs) : Refuses s (fun n => (P n).attempt) xs := fun before =>
  let ⟨_, answers⟩ := hp before
  ⟨_, rfl, answers.bind (.pure _)⟩

theorem Takes.or (hp : Takes s P xs ys v) (consumed : xs ≠ []) :
    Takes s (fun n => (P n).or (Q n)) xs ys v := hp.attempt.xor consumed

theorem Takes.or_other (hp : Fails s P (xs ++ ys)) (hq : Takes s Q xs ys v) :
    Takes s (fun n => (P n).or (Q n)) xs ys v := .xor_other hp.attempt hq

theorem Fails.or (hp : Fails s P xs) (hq : Fails s Q xs) :
    Fails s (fun n => (P n).or (Q n)) xs := .xor hp.attempt.fails hq

theorem Takes.optional (hp : Takes s P xs ys v) :
    Takes s (fun n => (P n).optional) xs ys (some v) :=
  fun before => (hp before).bind (.pure _)

theorem Refuses.optional (hp : Refuses s P ys) :
    Takes s (fun n => (P n).optional) [] ys none := fun before =>
  let ⟨_, here, answers⟩ := hp before
  answers.bind (.of_test here (.pure _))

theorem Takes.named (label : String) (hp : Takes s P xs ys v) :
    Takes s (fun n => (P n).named label) xs ys v :=
  fun before => (hp before).bind (.pure _)

theorem Fails.named (label : String) (hp : Fails s P xs) :
    Fails s (fun n => (P n).named label) xs := by
  intro before
  obtain ⟨f, answers⟩ := hp before
  by_cases here : f.position = before.length
  · exact ⟨_, answers.bind (.of_test here (.pure _))⟩
  · exact ⟨_, answers.bind (.of_test_not here (.pure _))⟩

theorem Takes.filter (shown : α → String) {test : α → Bool} (accepted : test v = true)
    (hp : Takes s P xs ys v) : Takes s (fun n => (P n).filter shown test) xs ys v :=
  fun before => (hp before).bind (.of_test accepted (.pure _))

theorem Takes.except {Q : Nat → Parser Store β} (hp : Takes s P xs ys v)
    (hq : Fails s Q (xs ++ ys)) : Takes s (fun n => (P n).except (Q n)) xs ys v := fun before =>
  let ⟨_, answers⟩ := hq before
  answers.bind (hp before)

theorem Refuses.except {Q : Nat → Parser Store β} (hp : Refuses s P xs) (hq : Fails s Q xs) :
    Refuses s (fun n => (P n).except (Q n)) xs := fun before =>
  let ⟨_, excluded⟩ := hq before
  let ⟨f, here, answers⟩ := hp before
  ⟨f, here, excluded.bind answers⟩

/-- What is excluded is refused at its beginning. -/
theorem Refuses.except_excluded {Q : Nat → Parser Store β} (hq : Takes s Q xs ys w) :
    Refuses s (fun n => (P n).except (Q n)) (xs ++ ys) :=
  fun before => ⟨_, rfl, (hq before).bind (.pure _)⟩

end Choice

section Repetition

/-- The parser takes the text `xs` before `ys` in parts, one value a part, and fails on `ys`. -/
inductive TakesAll (s : Store) (P : Nat → Parser Store α) : List α → List Char → List Char → Prop
  | nil {ys : List Char} (stops : Fails s P ys) : TakesAll s P [] [] ys
  | cons {v : α} {vs : List α} {xs xs' ys : List Char} (first : Takes s P xs (xs' ++ ys) v)
    (more : TakesAll s P vs xs' ys) : TakesAll s P (v :: vs) (xs ++ xs') ys

variable {vs : List α}

theorem TakesAll.collect (h : TakesAll s P vs xs ys) (found : List α) (before : List Char) :
    ∃ N, ∀ n, N ≤ n → ∀ k, vs.length < k →
      (P n).collect k found ⟨before, xs ++ ys, 0⟩ s =
        (.ok (.success (found.reverse ++ vs) ⟨xs.reverse ++ before, ys, 0⟩), s) := by
  induction h generalizing found before with
  | nil stops =>
    obtain ⟨f, N, settled⟩ := stops before
    refine ⟨N, fun n le k fuel => ?_⟩
    obtain ⟨k, rfl⟩ : ∃ m, k = m + 1 := ⟨k - 1, by simp only [List.length_nil] at fuel; omega⟩
    rw [List.append_nil]
    exact Step.bind_of_ok (settled n le) _
  | @cons v vs xs xs' ys first _ ih =>
    obtain ⟨N, settled⟩ := first before
    obtain ⟨M, rest⟩ := ih (v :: found) (xs.reverse ++ before)
    refine ⟨max N M, fun n le k fuel => ?_⟩
    obtain ⟨k, rfl⟩ : ∃ m, k = m + 1 := ⟨k - 1, by omega⟩
    have tail := rest n (by omega) k (by simp only [List.length_cons] at fuel; omega)
    rw [List.reverse_cons, List.append_assoc] at tail
    rw [List.append_assoc, List.reverse_append, List.append_assoc]
    exact (Step.bind_of_ok (settled n (by omega)) _).trans tail

theorem TakesAll.many (h : TakesAll s P vs xs ys) : Takes s (fun n => (P n).many n) xs ys vs := by
  intro before
  obtain ⟨N, settled⟩ := h.collect [] before
  exact ⟨max N (vs.length + 1), fun n le => settled n (by omega) n (by omega)⟩

theorem TakesAll.atLeastOnce (first : Takes s P xs (ws ++ ys) v) (more : TakesAll s P vs ws ys) :
    Takes s (fun n => (P n).atLeastOnce n) (xs ++ ws) ys (v :: vs) := by
  refine first.andThen (F := fun n v => (P n).collect n [v]) fun before => ?_
  obtain ⟨N, settled⟩ := more.collect [v] before
  exact ⟨max N (vs.length + 1), fun n le => settled n (by omega) n (by omega)⟩

theorem Refuses.atLeastOnce (hp : Refuses s P xs) :
    Refuses s (fun n => (P n).atLeastOnce n) xs :=
  hp.andThen (F := fun n v => (P n).collect n [v])

end Repetition

section Words

/-- Nothing but characters that pass the test. -/
def Spelled (test : Char → Bool) (xs : List Char) : Prop := ∀ x ∈ xs, test x = true

/-- The parser takes one character that passes the test, and nothing else. -/
structure Spells (s : Store) (P : Nat → Parser Store α) (f : Char → α) (test : Char → Bool) :
    Prop where
  takes {x : Char} (ys : List Char) : test x = true → Takes s P [x] ys (f x)
  refuses {xs : List Char} : Misses test xs → Refuses s P xs

namespace Spells

variable {P Q : Nat → Parser Store α} {f : Char → α} {test test' : Char → Bool}

theorem satisfy (k : CharClass) : Spells s (fun _ => Parser.satisfy k) id k.test :=
  ⟨fun _ => .satisfy, .satisfy⟩

theorem map (g : α → β) (hp : Spells s P f test) :
    Spells s (fun n => (P n).map g) (g ∘ f) test :=
  ⟨fun ys matched => (hp.takes ys matched).map g, fun missed => (hp.refuses missed).map g⟩

theorem congr {P' : Nat → Parser Store α} (hp : Spells s P f test) (k : Nat)
    (same : ∀ n c, P' (n + k) c s = P n c s) : Spells s P' f test :=
  ⟨fun ys matched => (hp.takes ys matched).congr k same,
    fun missed => (hp.refuses missed).congr k same⟩

theorem or (hp : Spells s P f test) (hq : Spells s Q f test') :
    Spells s (fun n => (P n).or (Q n)) f fun x => test x || test' x where
  takes {x} ys matched := by
    cases first : test x with
    | true => exact (hp.takes ys first).or nofun
    | false =>
      rw [first, Bool.false_or] at matched
      exact .or_other (hp.refuses (misses_cons first)).fails (hq.takes ys matched)
  refuses missed := by
    have both (x : Char) (mem : x ∈ _) := Bool.or_eq_false_iff.mp (missed x mem)
    exact .xor (hp.refuses fun x mem => (both x mem).1).fails.attempt
      (hq.refuses fun x mem => (both x mem).2)

theorem except {Q : Nat → Parser Store β} {g : Char → β} (hp : Spells s P f test)
    (hq : Spells s Q g test') :
    Spells s (fun n => (P n).except (Q n)) f fun x => test x && !test' x where
  takes {x} ys matched := by
    obtain ⟨first, other⟩ := Bool.and_eq_true_iff.mp matched
    exact (hp.takes ys first).except
      (hq.refuses (misses_cons ((Bool.not_eq_true' _).mp other))).fails
  refuses {xs} missed := by
    cases xs with
    | nil => exact .except (hp.refuses misses_nil) (hq.refuses misses_nil).fails
    | cons x rest =>
      cases excluded : test' x with
      | true => exact .except_excluded (hq.takes rest excluded)
      | false =>
        have first : test x = false := by simpa [excluded] using missed x rfl
        exact .except (hp.refuses (misses_cons first)) (hq.refuses (misses_cons excluded)).fails

/-- A longest word of such characters is taken character by character. -/
theorem takesAll (hp : Spells s P f test) (spelled : Spelled test xs) (missed : Misses test ys) :
    TakesAll s P (xs.map f) xs ys := by
  induction xs with
  | nil => exact .nil (hp.refuses missed).fails
  | cons x rest ih =>
    have first := hp.takes (rest ++ ys) (spelled x (List.mem_cons_self ..))
    exact .cons first (ih fun y mem => spelled y (List.mem_cons_of_mem x mem))

end Spells

/-- Nothing but whitespace. -/
abbrev Blank (xs : List Char) : Prop := Spelled CharSet.isWhitespace xs

theorem blank_nil : Blank [] := nofun

/-- No whitespace comes next. -/
abbrev Solid (xs : List Char) : Prop := Misses CharSet.isWhitespace xs

theorem Takes.blank (blank : Blank xs) (solid : Solid ys) :
    Takes s (fun n => Parser.many n Parser.whitespace) xs ys xs := by
  have all := ((Spells.satisfy .whitespace).takesAll blank solid).many (s := s)
  rw [List.map_id] at all
  exact all

theorem Takes.token (lead : Blank ws) (solid : Solid (xs ++ (zs ++ ys)))
    (hp : Takes s P xs (zs ++ ys) v) (trail : Blank zs) (beyond : Solid ys) :
    Takes s (fun n => (P n).token n) (ws ++ xs ++ zs) ys v :=
  ((blank lead solid).ignoreThen hp).thenIgnore (blank trail beyond)

theorem Refuses.token (hp : Refuses s P xs) (solid : Solid xs) :
    Refuses s (fun n => (P n).token n) xs := by
  intro before
  obtain ⟨f, here, answers⟩ := hp before
  have none : Takes s (fun n => Parser.many n Parser.whitespace) [] xs [] :=
    .blank (fun _ => nofun) solid
  exact ⟨f, here, ((none before).bind answers).bind (.pure _)⟩

end Words

section Chains

open Descent.Parser (FailsPair ReadsPairs links)

/-- The text `xs` before `ys` is taken as pairs of operator and operand. -/
def TakesPairs (s : Store) (O : Nat → Parser Store β) (P : Nat → Parser Store α)
    (pairs : List (β × α)) (xs ys : List Char) : Prop :=
  ∀ before, ∃ N, ∀ n, N ≤ n →
    ReadsPairs (O n) (P n) ⟨before, xs ++ ys, 0⟩ s pairs ⟨xs.reverse ++ before, ys, 0⟩ s

variable {O : Nat → Parser Store β} {pairs pairs' : List (β × α)} {o : β} {x : α}

theorem TakesPairs.nil : TakesPairs s O P [] [] ys := fun _ => ⟨0, fun _ _ => .none⟩

theorem TakesPairs.append (h : TakesPairs s O P pairs xs (ys ++ zs))
    (k : TakesPairs s O P pairs' ys zs) : TakesPairs s O P (pairs ++ pairs') (xs ++ ys) zs := by
  intro before
  obtain ⟨N, first⟩ := h before
  obtain ⟨M, rest⟩ := k (xs.reverse ++ before)
  rw [List.append_assoc, List.reverse_append, List.append_assoc]
  exact ⟨max N M, fun n le => (first n (by omega)).append (rest n (by omega))⟩

theorem TakesPairs.single (hop : Takes s O ws (xs ++ ys) o) (consumed : ws ≠ [])
    (hx : Takes s P xs ys x) : TakesPairs s O P [(o, x)] (ws ++ xs) ys := by
  intro before
  obtain ⟨N, first⟩ := hop before
  obtain ⟨M, second⟩ := hx (ws.reverse ++ before)
  rw [List.append_assoc, List.reverse_append, List.append_assoc]
  refine ⟨max N M, fun n le =>
    .more ⟨⟨_, _, first n (by omega), second n (by omega)⟩, ?_⟩ .none⟩
  have := List.length_pos_iff.mpr consumed
  simp only [Cursor.position, List.length_append, List.length_reverse]
  omega

/-- The first operand, the pairs behind it, and an end that no operator stands at. -/
theorem Takes.chain (first : Takes s P xs (zs ++ ys) x) (more : TakesPairs s O P pairs zs ys)
    (stops : Refuses s O ys) :
    Takes s (fun n => Parser.chain n (O n) (P n)) (xs ++ zs) ys (x, pairs) := by
  refine andThen (F := fun n x => (links (O n) (P n) n []).map (x, ·)) first (map _ ?_)
  intro before
  obtain ⟨N, reads⟩ := more before
  obtain ⟨f, here, M, refused⟩ := stops (zs.reverse ++ before)
  refine ⟨max (max N M) (pairs.length + 1), fun n le => ?_⟩
  have fails : FailsPair (O n) (P n) _ s f s := .operator (refused n (by omega))
  exact Parser.links_eq_success_iff.mpr ⟨by omega, s, reads n (by omega), .inl ⟨f, fails, here⟩⟩

theorem Takes.chainLeft {apply : β → α → α → α} (first : Takes s P xs (zs ++ ys) x)
    (more : TakesPairs s O P pairs zs ys) (stops : Refuses s O ys) :
    Takes s (fun n => Parser.chainLeft n (O n) (P n) apply) (xs ++ zs) ys
      (Parser.groupLeft apply x pairs) :=
  (first.chain more stops).map
    (fun (chain : α × List (β × α)) => Parser.groupLeft apply chain.1 chain.2)

theorem Takes.chainRight {apply : β → α → α → α} (first : Takes s P xs (zs ++ ys) x)
    (more : TakesPairs s O P pairs zs ys) (stops : Refuses s O ys) :
    Takes s (fun n => Parser.chainRight n (O n) (P n) apply) (xs ++ zs) ys
      (Parser.groupRight apply x pairs) :=
  (first.chain more stops).map
    (fun (chain : α × List (β × α)) => Parser.groupRight apply chain.1 chain.2)

end Chains

end Descent
