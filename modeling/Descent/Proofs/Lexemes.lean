import Descent.Proofs.Counters
import Descent.Proofs.Sequencing
import Descent.Proofs.Taking

/-!
Lexemes: fixed texts, and tokens with the whitespace around them. A fixed text is read for as long
as it agrees with what is unread, and a token skips all whitespace that is there.
Main statements: a fixed text matches if all of it is shared with what is unread, and otherwise
fails at the first character that is missing; and a token does as its parser does behind the
whitespace, passes all whitespace behind a match, and is the token of itself.
-/

namespace Descent

namespace Text

/-- The longest text that both texts begin with. -/
def sharedPart : List Char → List Char → List Char
  | x :: xs, y :: ys => if x = y then x :: sharedPart xs ys else []
  | _, _ => []

/-- Both texts begin with `part`, and with nothing longer. -/
structure LongestShared (xs ys part : List Char) : Prop where
  left : part <+: xs
  right : part <+: ys
  longest : ∀ other, other <+: xs → other <+: ys → other.length ≤ part.length

/-- Behind what they share, two texts go on with different characters, or one of them ends. -/
theorem exists_behind_sharedPart (xs ys : List Char) :
    ∃ left right, xs = sharedPart xs ys ++ left ∧ ys = sharedPart xs ys ++ right ∧
      ∀ x, left.head? = some x → right.head? ≠ some x := by
  induction xs generalizing ys with
  | nil => exact ⟨[], ys, rfl, rfl, nofun⟩
  | cons x xs ih =>
    cases ys with
    | nil => exact ⟨x :: xs, [], rfl, rfl, nofun⟩
    | cons y ys =>
      by_cases same : x = y
      · obtain ⟨left, right, hl, hr, differ⟩ := ih ys
        subst same
        refine ⟨left, right, ?_, ?_, differ⟩
        · simpa [sharedPart] using hl
        · simpa [sharedPart] using hr
      · refine ⟨x :: xs, y :: ys, ?_, ?_, ?_⟩
        · simp [sharedPart, same]
        · simp [sharedPart, same]
        · simpa [eq_comm] using same

theorem isPrefix_sharedPart {xs ys other : List Char} (left : other <+: xs)
    (right : other <+: ys) : other <+: sharedPart xs ys := by
  induction other generalizing xs ys with
  | nil => exact List.nil_prefix
  | cons x other ih =>
    obtain ⟨xs, rfl, inLeft⟩ := List.cons_prefix_iff.mp left
    obtain ⟨ys, rfl, inRight⟩ := List.cons_prefix_iff.mp right
    simpa [sharedPart] using ih inLeft inRight

theorem longestShared_sharedPart (xs ys : List Char) : LongestShared xs ys (sharedPart xs ys) := by
  obtain ⟨left, right, hl, hr, -⟩ := exists_behind_sharedPart xs ys
  exact ⟨⟨left, hl.symm⟩, ⟨right, hr.symm⟩, fun other inLeft inRight =>
    (isPrefix_sharedPart inLeft inRight).length_le⟩

end Text

/-- Stepping over what a text shares with the unread one leads to where the two part. -/
theorem Cursor.exists_visits_sharedPart (c : Cursor) (xs : List Char) :
    ∃ d left, c.Visits (Text.sharedPart xs c.rest) d ∧ xs = Text.sharedPart xs c.rest ++ left ∧
      ∀ x, left.head? = some x → ∀ e, d.next? ≠ some (x, e) := by
  obtain ⟨left, right, whole, unread, differ⟩ := Text.exists_behind_sharedPart xs c.rest
  have walk := Visits.across c.before (Text.sharedPart xs c.rest) right c.table
  rw [← unread] at walk
  refine ⟨_, left, walk, whole, fun x first e next => differ x first ?_⟩
  have found : right = x :: e.rest := rest_of_next? next
  simp [found]

/-- A failure at `d`, where the character `x` is expected and is not what is found. -/
structure Failure.Misses (f : Failure) (x : Char) (d : Cursor) : Prop where
  place : f.failedAt = d
  found : ∀ y e, d.next? = some (y, e) → y ≠ x ∧ f.message.render =
    "expected " ++ enquote (.ofList [x]) ++ ", found '" ++ String.ofList [y] ++ "'"
  ended : d.next? = none →
    f.message.render = "unexpected end of input, expected " ++ enquote (.ofList [x])
  expects : f.expectations = {enquote (.ofList [x])}

namespace Parser

variable {σ α : Type}

section Literal

/-- What is read so far, with one character more. Behind a mismatch nothing is read. -/
def literalStep : Outcome String → Char → Step σ (Outcome String)
  | .success text r, x => return (← char x r).map text.push
  | .failure e, _ => return .failure e

/-- A fixed text as a loop over its characters, which goes on behind a mismatch. -/
def literalLoop (word : String) : Parser σ String := fun c => do
  match ← word.toList.foldlM literalStep (.success "" c) with
  | .success text r => return .success text r
  | .failure e =>
    if e.position = c.position then return .failure (e.expecting {enquote word})
    else return .failure e

variable {c d : Cursor} {x : Char} {part : List Char}

theorem char_of_next? (next : c.next? = some (x, d)) (s : σ) :
    char x c s = (.ok (.success x d), s) := by
  simp only [char, satisfy, CharClass.exactly, next, beq_self_eq_true, if_true]
  rfl

/-- How a character fails that is not found. -/
theorem char_of_missed (missed : ∀ d, c.next? ≠ some (x, d)) (s : σ) :
    ∃ f : Failure, char x c s = (.ok (.failure f), s) ∧ f.Misses x c := by
  cases next : c.next? with
  | none =>
    exact ⟨_, by simp only [char, satisfy, next]; rfl, rfl, by simp [next], fun _ => rfl, rfl⟩
  | some step =>
    obtain ⟨y, d⟩ := step
    have other : (y == x) = false := by
      simpa using fun same : y = x => missed d (same ▸ next)
    refine ⟨_, by simp only [char, satisfy, next, CharClass.exactly, other]; rfl, rfl, ?_,
      by simp [next], rfl⟩
    rintro z e found
    obtain ⟨rfl, rfl⟩ := Prod.mk.inj (Option.some.inj (next.symm.trans found))
    exact ⟨by simpa using other, rfl⟩

theorem chars_of_visits (walk : c.Visits part d) (left : List Char) (s : σ) :
    chars (part ++ left) c s = chars left d s := by
  induction walk with
  | done c => rfl
  | step first _ ih => exact (andThen_of_success (char_of_next? first s)).trans ih

theorem literal_of_visits {word : String} (walk : c.Visits word.toList d) (s : σ) :
    literal word c s = (.ok (.success word d), s) := by
  have all : chars (word.toList ++ []) c s = (.ok (.success () d), s) := chars_of_visits walk [] s
  rw [List.append_nil] at all
  exact Step.bind_of_ok all _

/-- A fixed text that breaks off behind `part` fails there as its next character does. -/
theorem literal_of_missed {word : String} {more : List Char} (walk : c.Visits part d)
    (split : word.toList = part ++ x :: more) (missed : ∀ e, d.next? ≠ some (x, e)) (s : σ) :
    ∃ f : Failure, char x d s = (.ok (.failure f), s) ∧ f.Misses x d ∧
      literal word c s =
        (.ok (.failure (if part = [] then f.expecting {enquote word} else f)), s) := by
  obtain ⟨f, fails, misses⟩ := char_of_missed missed s
  have stopped : chars word.toList c s = (.ok (.failure f), s) := by
    rw [split, chars_of_visits walk]
    exact andThen_of_failure fails
  have here : f.position = c.position ↔ part = [] := by
    simp [Failure.position, misses.place, walk.position_eq]
  refine ⟨f, fails, misses, (Step.bind_of_ok stopped _).trans ?_⟩
  by_cases none : part = []
  · simp only [none, here.mpr none, if_true]
    rfl
  · simp only [none, mt here.mp none, if_false]
    rfl

/-- Behind a mismatch the loop changes nothing. -/
theorem foldlM_literalStep_failure (e : Failure) (xs : List Char) :
    xs.foldlM literalStep (.failure e) = (pure (.failure e) : Step σ _) := by
  induction xs with
  | nil => rfl
  | cons x xs ih => simpa [literalStep] using ih

/-- Reading on from `text`, the loop appends what is read. -/
theorem foldlM_literalStep_success (text : String) (xs : List Char) (c : Cursor) :
    xs.foldlM literalStep (.success text c) =
      (chars xs).map (fun _ => text ++ .ofList xs) (σ := σ) c := by
  induction xs generalizing text c with
  | nil => simp [chars, succeed, map]
  | cons x xs ih =>
    funext s
    have round : (x :: xs).foldlM literalStep (.success text c) =
        (char x c >>= fun o => xs.foldlM literalStep (o.map text.push) : Step σ _) := by
      simp [literalStep]
    rw [round]
    by_cases found : ∃ d, c.next? = some (x, d)
    · obtain ⟨d, next⟩ := found
      have step := char_of_next? next s
      have first : chars (x :: xs) c s = chars xs d s := andThen_of_success step
      rw [Step.bind_of_ok step, Outcome.map_success, ih, map_congr _ first]
      have appended : text.push x ++ String.ofList xs = text ++ String.ofList (x :: xs) := by
        rw [String.push_eq_append, String.ofList_cons, String.append_assoc]
      rw [appended]
    · obtain ⟨f, fails, -⟩ := char_of_missed (not_exists.mp found) s
      have first : chars (x :: xs) c s = (.ok (.failure f), s) := andThen_of_failure fails
      rw [Step.bind_of_ok fails, Outcome.map_failure, foldlM_literalStep_failure, map_of_ok first]
      rfl

/-- A fixed text is read as the loop reads it. -/
theorem literal_eq_loop (word : String) : literal word = literalLoop (σ := σ) word := by
  funext c
  simp only [literal, literalLoop, foldlM_literalStep_success, map, bind_assoc, pure_bind]
  congr 1
  funext o
  cases o with
  | success v r => simp
  | failure e => rfl

/-- A fixed text is read for as long as it agrees with what is unread. If all of it does, it matches
there and has itself as its value. Otherwise it fails at the first character that is missing, as
this character alone fails there; but if nothing of it was read, it is all of it that is expected.
The loop over its characters that goes on behind a mismatch does the same. -/
theorem literal_reads_shared_part (word : String) (c : Cursor) (s : σ) :
    let part := Text.sharedPart word.toList c.rest
    Text.LongestShared word.toList c.rest part ∧
    (∃ d, c.forward part.length = .ok d ∧ c.Visits part d ∧
      d.position = c.position + part.length ∧
      (part.length = word.length → literal word c s = (.ok (.success word d), s)) ∧
      (part.length ≠ word.length → ∃ x f, word.toList[part.length]? = some x ∧
        char x d s = (.ok (.failure f), s) ∧ f.Misses x d ∧
        literal word c s =
          (.ok (.failure (if part.length = 0 then f.expecting {enquote word} else f)), s))) ∧
    literal word = literalLoop (σ := σ) word := by
  intro part
  refine ⟨Text.longestShared_sharedPart _ _, ?_, literal_eq_loop word⟩
  obtain ⟨d, left, walk, whole, differ⟩ := c.exists_visits_sharedPart word.toList
  have length : word.length = part.length + left.length := by
    rw [← String.length_toList, whole, List.length_append]
  refine ⟨d, walk.forward_eq, walk, walk.position_eq, fun full => ?matched, fun cut => ?missed⟩
  case matched =>
    have none : left = [] := List.length_eq_zero_iff.mp (by omega)
    subst none
    rw [List.append_nil] at whole
    exact literal_of_visits (whole ▸ walk) s
  case missed =>
    cases left with
    | nil => exact absurd length.symm cut
    | cons x more =>
      have next : word.toList[part.length]? = some x := by
        rw [whole, List.getElem?_append_right (Nat.le_refl _)]
        simp
      obtain ⟨f, fails, misses, failed⟩ := literal_of_missed walk whole (differ x rfl) s
      exact ⟨x, f, next, fails, misses, by simpa only [List.length_eq_zero_iff] using failed⟩

/-- The text breaks off behind a letter of two bytes, before its last letter. -/
theorem cut_text_read_in_part :
    let c := Cursor.start ['g', 'r', 'ö', 'ß']
    let part := Text.sharedPart "größe".toList c.rest
    part.length = 4 ∧ part.length ≠ "größe".length ∧ Text.LongestShared "größe".toList c.rest part ∧
      ∃ f : Failure, literal "größe" c () = (.ok (.failure f), ()) ∧ f.position = 4 ∧
        f.message.render = "unexpected end of input, expected 'e'" ∧
        f.expectations = {enquote "e"} := by
  intro c part
  obtain ⟨longest, ⟨d, -, walk, place, -, cut⟩, -⟩ := literal_reads_shared_part "größe" c ()
  have short : part.length ≠ "größe".length := by decide
  obtain ⟨x, f, behind, -, misses, failed⟩ := cut short
  have last : "größe".toList[part.length]? = some 'e' := by decide
  obtain rfl : 'e' = x := Option.some.inj (last.symm.trans behind)
  have begun : part.length ≠ 0 := by decide
  rw [if_neg begun] at failed
  refine ⟨by decide, short, longest, f, failed, ?_, ?_, misses.expects⟩
  · rw [Failure.position, misses.place, place]
    decide
  · have ended : d.next? = none := by
      have all : c.rest = part := by decide
      have left : part = part ++ d.rest := all ▸ walk.rest_eq
      exact (d.inStep.ended (List.isEmpty_iff.mpr (List.self_eq_append_right.mp left))).2.2
    rw [misses.ended ended]
    decide

end Literal

end Parser

namespace Cursor

/-- The whitespace at `c` is `xs`, and `d` stands behind all of it. -/
structure Clears (c : Cursor) (xs : List Char) (d : Cursor) : Prop where
  walk : c.Visits xs d
  blank : Blank xs
  solid : Solid d.rest

theorem exists_clears (c : Cursor) : ∃ xs d, c.Clears xs d := by
  obtain ⟨before, rest, table⟩ := c
  induction rest generalizing before with
  | nil => exact ⟨[], _, .done _, blank_nil, misses_nil⟩
  | cons x rest ih =>
    cases blank : CharSet.isWhitespace x with
    | false => exact ⟨[], _, .done _, blank_nil, misses_cons blank⟩
    | true =>
      obtain ⟨xs, d, clears⟩ := ih (x :: before)
      refine ⟨x :: xs, d, .step rfl clears.walk, ?_, clears.solid⟩
      exact List.forall_mem_cons.mpr ⟨blank, clears.blank⟩

theorem Clears.eq_takeWhile {c d : Cursor} {xs : List Char} (h : c.Clears xs d) :
    xs = c.rest.takeWhile CharSet.isWhitespace := by
  have none : d.rest.takeWhile CharSet.isWhitespace = [] := by
    cases unread : d.rest with
    | nil => rfl
    | cons x rest => simp [h.solid x (by simp [unread])]
  simp [h.walk.rest_eq, List.takeWhile_append_of_pos h.blank, none]

/-- The whitespace at a cursor, all of it, is one text that ends in one place. -/
theorem Clears.unique {c d e : Cursor} {xs ys : List Char} (h : c.Clears xs d)
    (k : c.Clears ys e) : ys = xs ∧ e = d := by
  obtain rfl : ys = xs := k.eq_takeWhile.trans h.eq_takeWhile.symm
  exact ⟨rfl, k.walk.unique h.walk⟩

theorem Clears.again {c d : Cursor} {xs : List Char} (h : c.Clears xs d) : d.Clears [] d :=
  ⟨.done d, blank_nil, h.solid⟩

end Cursor

namespace Parser

variable {σ α β : Type}

section Token

variable {c d r : Cursor} {s t : σ} {xs ys : List Char} {n : Nat} {p : Parser σ α} {v : α}

/-- The whitespace between tokens. -/
def blanks (n : Nat) : Parser σ (List Char) := many n whitespace

theorem walk_of_visits {k : CharClass} (walk : c.Visits xs d) (spelled : Spelled k.test xs)
    (s : σ) : Walk (satisfy k).Matches c s xs d s := by
  induction walk with
  | done c => exact .none
  | @step c d _ x xs first rest ih =>
    obtain ⟨accepted, more⟩ := List.forall_mem_cons.mp spelled
    have taken : satisfy k c s = (.ok (.success x d), s) := by
      simp only [satisfy, first, accepted, if_true]
      rfl
    exact .more taken (ih more)

theorem satisfy_of_misses {k : CharClass} (missed : Misses k.test c.rest) (s : σ) :
    ∃ f, satisfy k c s = (.ok (.failure f), s) := by
  cases next : c.next? with
  | none => exact ⟨_, by simp only [satisfy, next]; rfl⟩
  | some step =>
    obtain ⟨x, d⟩ := step
    have other := missed x (by simp [Cursor.rest_of_next? next])
    exact ⟨_, by simp only [satisfy, next, other]; rfl⟩

theorem blanks_of_clears (h : c.Clears xs d) (short : xs.length < n) (s : σ) :
    blanks n c s = (.ok (.success xs d), s) := by
  obtain ⟨f, fails⟩ := satisfy_of_misses (k := .whitespace) h.solid s
  exact many_eq_success_iff.mpr ⟨short, s, f, walk_of_visits h.walk h.blank s, fails⟩

theorem blanks_of_long (h : c.Clears xs d) (long : n ≤ xs.length) (s : σ) :
    blanks n c s = (.error .outOfFuel, s) := by
  obtain ⟨e, walk⟩ := h.walk.exists_take n
  have blank : Blank (xs.take n) := fun x mem => h.blank x (List.mem_of_mem_take mem)
  exact many_eq_error_iff.mpr
    (.inr ⟨rfl, xs.take n, e, List.length_take_of_le long, walk_of_visits walk blank s⟩)

theorem blanks_eq_success_iff : blanks n c s = (.ok (.success xs d), t) ↔
    c.Clears xs d ∧ xs.length < n ∧ t = s := by
  constructor
  · intro run
    obtain ⟨ys, e, clears⟩ := c.exists_clears
    by_cases short : ys.length < n
    · cases (blanks_of_clears clears short s).symm.trans run
      exact ⟨clears, short, rfl⟩
    · cases (blanks_of_long clears (by omega) s).symm.trans run
  · rintro ⟨clears, short, rfl⟩
    exact blanks_of_clears clears short t

theorem blanks_eq_error_iff {e : Halt} : blanks n c s = (.error e, t) ↔
    e = .outOfFuel ∧ t = s ∧ ∃ xs d, c.Clears xs d ∧ n ≤ xs.length := by
  constructor
  · intro run
    obtain ⟨ys, d, clears⟩ := c.exists_clears
    by_cases short : ys.length < n
    · cases (blanks_of_clears clears short s).symm.trans run
    · cases (blanks_of_long clears (by omega) s).symm.trans run
      exact ⟨rfl, rfl, ys, d, clears, by omega⟩
  · rintro ⟨rfl, rfl, xs, d, clears, long⟩
    exact blanks_of_long clears long t

theorem blanks_ne_failure (n : Nat) (c : Cursor) (s t : σ) (f : Failure) :
    blanks n c s ≠ (.ok (.failure f), t) :=
  many_ne_failure whitespace n c s t f

/-- Where whitespace has been skipped there is none left to skip. -/
theorem blanks_again (run : blanks n c s = (.ok (.success xs d), t)) :
    blanks n d t = (.ok (.success [] d), t) := by
  obtain ⟨clears, short, rfl⟩ := blanks_eq_success_iff.mp run
  exact blanks_of_clears clears.again (by simp; omega) t

theorem blanks_ignoreThen_blanks (n : Nat) (p : Parser σ α) :
    (blanks n).ignoreThen ((blanks n).ignoreThen p) = (blanks n).ignoreThen p := by
  funext c s
  rcases run : blanks n c s with ⟨e | ⟨xs, d⟩ | f, t⟩
  · rw [ignoreThen_of_error run, ignoreThen_of_error run]
  · rw [ignoreThen_of_success run, ignoreThen_of_success run,
      ignoreThen_of_success (blanks_again run)]
  · rw [ignoreThen_of_failure run, ignoreThen_of_failure run]

theorem thenIgnore_blanks_blanks (n : Nat) (p : Parser σ α) :
    (p.thenIgnore (blanks n)).thenIgnore (blanks n) = p.thenIgnore (blanks n) := by
  have once (v : α) := blanks_ignoreThen_blanks (σ := σ) n (succeed v)
  simp only [ignoreThen_eq_andThen] at once
  simp only [thenIgnore_eq_andThen, map_eq_andThen, andThen_andThen, succeed_andThen, once]

theorem ignoreThen_thenIgnore {γ : Type} (q : Parser σ β) (p : Parser σ α) (r : Parser σ γ) :
    (q.ignoreThen p).thenIgnore r = q.ignoreThen (p.thenIgnore r) := by
  simp only [ignoreThen_eq_andThen, thenIgnore_eq_andThen, andThen_andThen]

theorem token_eq_ignoreThen (n : Nat) (p : Parser σ α) :
    token n p = (blanks n).ignoreThen (p.thenIgnore (blanks n)) :=
  ignoreThen_thenIgnore _ p _

/-- A token of a token is that token. -/
theorem token_token (n : Nat) (p : Parser σ α) : token n (token n p) = token n p :=
  calc token n (token n p)
      = (blanks n).ignoreThen ((token n p).thenIgnore (blanks n)) := token_eq_ignoreThen n _
    _ = (blanks n).ignoreThen (token n p) :=
      congrArg (blanks n).ignoreThen (thenIgnore_blanks_blanks n ((blanks n).ignoreThen p))
    _ = (blanks n).ignoreThen ((blanks n).ignoreThen (p.thenIgnore (blanks n))) := by
      rw [token_eq_ignoreThen]
    _ = token n p := by rw [blanks_ignoreThen_blanks, token_eq_ignoreThen]

theorem token_of_clears (h : c.Clears xs d) (short : xs.length < n) (s : σ) :
    token n p c s = p.thenIgnore (blanks n) d s := by
  rw [token_eq_ignoreThen, ignoreThen_of_success (blanks_of_clears h short s)]

/-- How the token of `p` does at `c`, where whitespace has been skipped at `d`. -/
structure SkipsAround (n : Nat) (p : Parser σ α) (c d : Cursor) (s : σ) : Prop where
  failed : ∀ f t, token n p c s = (.ok (.failure f), t) ↔ p d s = (.ok (.failure f), t)
  /-- All whitespace behind the match is passed. -/
  matched : ∀ v r' t, token n p c s = (.ok (.success v r'), t) ↔
    ∃ r ys, p d s = (.ok (.success v r), t) ∧ r.Clears ys r' ∧ ys.length < n
  /-- Beside the halts of the parser there is only the whitespace behind a match that there is no
  fuel for. -/
  halted : ∀ e t, token n p c s = (.error e, t) ↔ p d s = (.error e, t) ∨
    e = .outOfFuel ∧ ∃ v r ys r', p d s = (.ok (.success v r), t) ∧ r.Clears ys r' ∧ n ≤ ys.length

theorem skipsAround (p : Parser σ α) (h : c.Clears xs d) (short : xs.length < n) (s : σ) :
    SkipsAround n p c d s := by
  have same : token n p c s = p.andThen (fun v => (blanks n).map fun _ => v) d s :=
    token_of_clears h short s
  constructor
  · intro f t
    simp only [same, andThen_eq_failure_iff, map_eq_failure_iff, blanks_ne_failure,
      and_false, exists_false, or_false]
  · intro v r' t
    simp only [same, andThen_eq_success_iff, map_eq_success_iff, blanks_eq_success_iff]
    constructor
    · rintro ⟨v, r, t, run, ys, ⟨clears, short, rfl⟩, rfl⟩
      exact ⟨r, ys, run, clears, short⟩
    · rintro ⟨r, ys, run, clears, short⟩
      exact ⟨v, r, t, run, ys, ⟨clears, short, rfl⟩, rfl⟩
  · intro e t
    simp only [same, andThen_eq_error_iff, map_eq_error_iff, blanks_eq_error_iff]
    constructor
    · rintro (run | ⟨v, r, t, run, rfl, rfl, ys, r', clears, long⟩)
      · exact .inl run
      · exact .inr ⟨rfl, v, r, ys, r', run, clears, long⟩
    · rintro (run | ⟨rfl, v, r, ys, r', run, clears, long⟩)
      · exact .inl run
      · exact .inr ⟨v, r, t, run, rfl, rfl, ys, r', clears, long⟩

/-- Whitespace, a text that does not begin with any, and whitespace again: the text is read where
the first whitespace ends, and the rest is whitespace. -/
theorem exists_read {word : String} {lead trail : List Char} (solid : Solid word.toList)
    (hl : Blank lead) (ht : Blank trail) (s : σ) :
    ∃ xs d r ys e, (Cursor.start (lead ++ (word.toList ++ trail))).Clears xs d ∧
      literal word d s = (.ok (.success word r), s) ∧ r.Clears ys e ∧ e.rest = [] ∧
      xs.length + ys.length = lead.length + trail.length := by
  cases text : word.toList with
  | nil =>
    -- Nothing stands between the whitespace on either side, and all of it is skipped at first.
    have clears : (Cursor.start (lead ++ trail)).Clears (lead ++ trail)
        ⟨(lead ++ trail).reverse ++ [], [], 0⟩ :=
      ⟨.to_end [] _ 0, List.forall_mem_append.mpr ⟨hl, ht⟩, misses_nil⟩
    refine ⟨_, _, _, _, _, clears, literal_of_visits ?_ s, clears.again, rfl, by simp⟩
    rw [text]
    exact .done _
  | cons x more =>
    have before : (Cursor.start (lead ++ (x :: more ++ trail))).Clears lead
        ⟨lead.reverse ++ [], x :: more ++ trail, 0⟩ :=
      ⟨.across [] _ _ 0, hl, misses_cons (solid x (by simp [text]))⟩
    have behind : Cursor.Clears ⟨(x :: more).reverse ++ (lead.reverse ++ []), trail, 0⟩ trail
        ⟨trail.reverse ++ ((x :: more).reverse ++ (lead.reverse ++ [])), [], 0⟩ :=
      ⟨.to_end _ _ 0, ht, misses_nil⟩
    refine ⟨_, _, _, _, _, before, literal_of_visits ?_ s, behind, rfl, rfl⟩
    rw [text]
    exact .across _ _ _ 0

theorem complete_of_ended (run : p c s = (.ok (.success v r), t)) (ended : r.rest = []) :
    p.complete c s = (.ok (.success v r), t) := by
  obtain ⟨before, rest, table⟩ := r
  subst ended
  exact Step.bind_of_ok run _

theorem token_literal_complete {word : String} {lead trail : List Char} (solid : Solid word.toList)
    (hl : Blank lead) (ht : Blank trail) (enough : lead.length + trail.length < n) (s : σ) :
    ∃ e, e.rest = [] ∧ (token n (literal word)).complete
      (.start (lead ++ (word.toList ++ trail))) s = (.ok (.success word e), s) := by
  obtain ⟨xs, d, r, ys, e, before, read, behind, ended, lengths⟩ := exists_read solid hl ht s
  have token := ((skipsAround (n := n) (literal word) before (by omega) s).matched word e s).mpr
    ⟨r, ys, read, behind, by omega⟩
  exact ⟨e, ended, complete_of_ended token ended⟩

/-- Tokens skip the whitespace around them, whatever their parser does and reads. At every cursor
the whitespace is one text that ends in one place, and the parser is run there. The token fails
exactly as it fails there, and matches exactly as it matches there, but with all whitespace behind
the match passed. So a token of a token is that token, and a fixed text that does not begin with
whitespace is found with any whitespace around it. -/
theorem tokens_ignore_whitespace (n : Nat) (p : Parser σ α) :
    (∀ c : Cursor, ∃ xs d, c.Clears xs d ∧ ∀ ys e, c.Clears ys e → ys = xs ∧ e = d) ∧
    (∀ (c d : Cursor) (xs : List Char) (s : σ), c.Clears xs d → xs.length < n →
      SkipsAround n p c d s) ∧
    token n (token n p) = token n p ∧
    ∀ (word : String) (lead trail : List Char) (s : σ), Solid word.toList → Blank lead →
      Blank trail → lead.length + trail.length < n →
      ∃ e, e.rest = [] ∧ (token n (literal word)).complete
        (.start (lead ++ (word.toList ++ trail))) s = (.ok (.success word e), s) := by
  refine ⟨fun c => ?_, fun c d xs s clears short => skipsAround p clears short s, token_token n p,
    fun word lead trail s solid hl ht enough => token_literal_complete solid hl ht enough s⟩
  obtain ⟨xs, d, clears⟩ := c.exists_clears
  exact ⟨xs, d, clears, fun ys e other => clears.unique other⟩

/-- Wide spaces stand before a text of two words, and a line end behind it. -/
theorem spaced_words_token :
    let p : Parser Unit String := literal "a b"
    let c := Cursor.start ['\u2003', ' ', 'a', ' ', 'b', '\n']
    let d : Cursor := ⟨[' ', '\u2003'], ['a', ' ', 'b', '\n'], 0⟩
    c.Clears ['\u2003', ' '] d ∧ SkipsAround 4 p c d () ∧ token 4 (token 4 p) = token 4 p ∧
      ∃ e, e.rest = [] ∧ (token 4 p).complete c () = (.ok (.success "a b" e), ()) := by
  intro p c d
  have space : Blank [' '] := List.forall_mem_cons.mpr ⟨by decide, blank_nil⟩
  have lead : Blank ['\u2003', ' '] := List.forall_mem_cons.mpr ⟨by decide, space⟩
  have trail : Blank ['\n'] := List.forall_mem_cons.mpr ⟨by decide, blank_nil⟩
  have solid : Solid "a b".toList := misses_cons (by decide)
  have clears : c.Clears ['\u2003', ' '] d :=
    ⟨.across [] ['\u2003', ' '] _ 0, lead, misses_cons (by decide)⟩
  obtain ⟨-, around, again, words⟩ := tokens_ignore_whitespace 4 p
  exact ⟨clears, around c d _ () clears (by decide), again,
    words "a b" ['\u2003', ' '] ['\n'] () solid lead trail (by decide)⟩

end Token

end Parser

end Descent
