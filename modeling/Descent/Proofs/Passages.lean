import Descent.Proofs.Counters
import Descent.Proofs.Forward
import Descent.Proofs.Messages
import Descent.Proofs.Runs

/-!
The text between two cursors, which failures of lookahead quote and spans cover. It is cut out by
offsets in bytes, and is stated here by steps from character to character.
Main statements: negative lookahead consumes nothing, fails where its parser matches and quotes what
the match has passed, whatever cursor the match ends at; and a span covers what its parser has
passed, with the length, the location and the unread text that go with it.
-/

namespace Descent

namespace Text

/-- The part of a text between two byte offsets. There is none if the second one lies before the
first, or if one of them lies past the end of the text or inside a character. -/
def slice? (text : List Char) (start stop : Nat) : Option (List Char) :=
  if start ≤ stop then
    (takeBytes? text start).bind fun passed => takeBytes? (text.drop passed.length) (stop - start)
  else none

theorem byteSize_of_takeBytes? {text part : List Char} {bytes : Nat}
    (h : takeBytes? text bytes = some part) : byteSize part = bytes := by
  induction text generalizing bytes part with
  | nil => cases bytes <;> simp_all [takeBytes?, byteSize]
  | cons c rest ih =>
    cases bytes with
    | zero => simp_all [takeBytes?, byteSize]
    | succ bytes =>
      simp only [takeBytes?] at h
      split at h
      · obtain ⟨tail, found, rfl⟩ := Option.map_eq_some_iff.mp h
        have := ih found
        simp only [byteSize]
        omega
      · cases h

/-- A cut gives the initial part of the given size, if there is one. -/
theorem takeBytes?_eq_some_iff {text part : List Char} {bytes : Nat} :
    takeBytes? text bytes = some part ↔ part <+: text ∧ byteSize part = bytes := by
  constructor
  · exact fun h => ⟨isPrefix_of_takeBytes? h, byteSize_of_takeBytes? h⟩
  · rintro ⟨⟨rest, rfl⟩, rfl⟩
    exact takeBytes?_append part rest

end Text

namespace Cursor

variable {c d : Cursor} {xs part : List Char}

/-- The cursor `d` stands at or after `c` in the same text, over whatever table. -/
def Precedes (c d : Cursor) : Prop := d.source = c.source ∧ c.position ≤ d.position

theorem Visits.precedes (h : c.Visits xs d) : c.Precedes d := by
  have := h.position_eq
  exact ⟨h.source_eq, by omega⟩

theorem Visits.textTo_eq (h : c.Visits xs d) : c.textTo d = xs := by
  have parts := rest_eq_textTo_append h.precedes.1.symm h.precedes.2
  rw [h.rest_eq] at parts
  exact (List.append_cancel_right parts).symm

/-- The text up to a later cursor is what stepping there reads. -/
theorem Precedes.visits (h : c.Precedes d) : c.Visits (c.textTo d) (d.onTable c.table) := by
  obtain ⟨middle, unread, passed⟩ := exists_between h.1.symm h.2
  have across := Visits.across c.before middle d.rest c.table
  rw [← unread, ← passed] at across
  have same : c.textTo d = middle := across.textTo_eq
  rwa [same]

theorem Visits.drop_take_source (h : c.Visits xs d) :
    (c.source.take d.position).drop c.position = xs := by
  rw [h.position_eq, List.drop_take, drop_position, h.rest_eq]
  simp

theorem offset_le_of_position_le (same : d.source = c.source) (h : c.position ≤ d.position) :
    c.offset ≤ d.offset := by
  obtain ⟨middle, -, passed⟩ := exists_between same.symm h
  simp [offset, passed]

theorem textTo_of_le (h : d.offset ≤ c.offset) : c.textTo d = [] := by
  have none : d.offset - c.offset = 0 := by omega
  simp [textTo, textUpTo, none, Text.takeBytes?]

/-- In one text, the text from one cursor to another is what stands between their positions. -/
theorem textTo_eq_drop_take (same : d.source = c.source) :
    c.textTo d = (c.source.take d.position).drop c.position := by
  by_cases onward : c.position ≤ d.position
  · exact (Precedes.visits ⟨same, onward⟩).drop_take_source.symm
  · have back := offset_le_of_position_le same.symm (by omega)
    have none : d.position - c.position = 0 := by omega
    simp [textTo_of_le back, List.drop_take, none]

/-- Whatever cursor the second one is, the text up to it is the initial part of the unread text
that has as many bytes as their offsets differ by, or nothing if there is no such part. -/
theorem textTo_eq_iff : c.textTo d = part ↔
    part <+: c.rest ∧ (Text.byteSize part = d.offset - c.offset ∨
      part = [] ∧ ∀ other, other <+: c.rest → Text.byteSize other ≠ d.offset - c.offset) := by
  rw [textTo, textUpTo]
  cases cut : Text.takeBytes? c.rest (d.offset - c.offset) with
  | none =>
    have missing (other : List Char) (inside : other <+: c.rest) :
        Text.byteSize other ≠ d.offset - c.offset := by
      intro size
      simp [Text.takeBytes?_eq_some_iff.mpr ⟨inside, size⟩] at cut
    constructor
    · rintro rfl
      exact ⟨List.nil_prefix, .inr ⟨rfl, missing⟩⟩
    · rintro ⟨inside, size | ⟨rfl, -⟩⟩
      · exact absurd size (missing part inside)
      · rfl
  | some found =>
    obtain ⟨inside, size⟩ := Text.takeBytes?_eq_some_iff.mp cut
    constructor
    · rintro rfl
      exact ⟨inside, .inl size⟩
    · rintro ⟨inside', size' | ⟨-, missing⟩⟩
      · have same := Text.takeBytes?_eq_some_iff.mpr ⟨inside', size'⟩
        exact Option.some.inj (cut.symm.trans same)
      · exact absurd size (missing found inside)

/-- What a failure at `c` quotes of a match that ends at `r`: text that is unread at `c`, of as many
bytes as there are between the two offsets, or nothing if there is no such text; and where the match
has gone on in its text, exactly what it has passed. -/
structure Quotes (c r : Cursor) (part : List Char) : Prop where
  unread : part <+: c.rest
  sized : Text.byteSize part = r.offset - c.offset ∨
    part = [] ∧ ∀ other, other <+: c.rest → Text.byteSize other ≠ r.offset - c.offset
  passed : c.Precedes r → c.Visits part (r.onTable c.table)

theorem quotes_textTo (c r : Cursor) : c.Quotes r (c.textTo r) :=
  ⟨(textTo_eq_iff.mp rfl).1, (textTo_eq_iff.mp rfl).2, Precedes.visits⟩

end Cursor

namespace Span

variable {c d : Cursor}

/-- The text of a span is the slice of the text between its two offsets. -/
theorem text_eq_slice (c d : Cursor) :
    (between c d).text = (Text.slice? c.source c.offset d.offset).getD [] := by
  rw [text_between]
  by_cases onward : c.offset ≤ d.offset
  · have unread : c.source.drop c.before.length = c.rest := c.drop_position
    simp [Text.slice?, onward, Cursor.takeBytes?_offset, Cursor.textTo, Cursor.textUpTo, unread]
  · simp [Text.slice?, onward, Cursor.textTo_of_le (Nat.le_of_not_le onward)]

/-- The span covers what lies between `c` and `d`. -/
structure Covers (x : Span) (c d : Cursor) : Prop where
  walk : c.Visits x.text (d.onTable c.table)
  rest_eq : c.rest = x.text ++ d.rest
  length_text : x.length = x.text.length
  length_position : x.length = d.position - c.position
  isEmpty_iff : x.isEmpty = true ↔ d.sameAs c = true
  location : x.location = c.location

theorem covers_between (h : c.Precedes d) : (between c d).Covers c d := by
  have walk : c.Visits (between c d).text (d.onTable c.table) := h.visits
  have moved : d.position = c.position + (between c d).text.length := walk.position_eq
  refine ⟨walk, walk.rest_eq, ?_, rfl, ?_, rfl⟩
  · rw [length_between]
    omega
  · rw [Cursor.sameAs, h.1, beq_self_eq_true, Bool.and_true, BEq.comm]
    exact Iff.rfl

theorem between_backward (same : d.source = c.source) (back : d.position < c.position) :
    (between c d).text = [] ∧ (between c d).length = 0 := by
  have bytes : d.offset ≤ c.offset :=
    Cursor.offset_le_of_position_le same.symm (Nat.le_of_lt back)
  constructor
  · exact Cursor.textTo_of_le bytes
  · rw [length_between]
    omega

end Span

namespace Parser

variable {σ α β : Type} {p : Parser σ α} {q : Parser σ β} {c r : Cursor} {s t : σ} {v : α}

section Lookahead

theorem not_of_error {e : Halt} (run : p c s = (.error e, t)) : p.not c s = (.error e, t) :=
  Step.bind_of_error run _

theorem not_of_success (run : p c s = (.ok (.success v r), t)) :
    p.not c s = (.ok (.failure (.plain c (.unexpectedText (c.textTo r)))), t) :=
  Step.bind_of_ok run _

theorem not_of_failure {f : Failure} (run : p c s = (.ok (.failure f), t)) :
    p.not c s = (.ok (.success () c), t) :=
  Step.bind_of_ok run _

theorem not_eq_error_iff {e : Halt} : p.not c s = (.error e, t) ↔ p c s = (.error e, t) := by
  refine ⟨fun halted => ?_, not_of_error⟩
  rcases run : p c s with ⟨e | ⟨v, r⟩ | f, t⟩
  · cases (not_of_error run).symm.trans halted
    rfl
  · cases (not_of_success run).symm.trans halted
  · cases (not_of_failure run).symm.trans halted

theorem not_eq_failure_iff {f : Failure} : p.not c s = (.ok (.failure f), t) ↔
    ∃ v r, p c s = (.ok (.success v r), t) ∧ f = .plain c (.unexpectedText (c.textTo r)) := by
  constructor
  · intro failed
    rcases run : p c s with ⟨e | ⟨v, r⟩ | f, t⟩
    · cases (not_of_error run).symm.trans failed
    · cases (not_of_success run).symm.trans failed
      exact ⟨v, r, rfl, rfl⟩
    · cases (not_of_failure run).symm.trans failed
  · rintro ⟨v, r, run, rfl⟩
    exact not_of_success run

theorem not_fails_iff : (∃ f, p.not c s = (.ok (.failure f), t)) ↔
    ∃ v r, p c s = (.ok (.success v r), t) := by
  constructor
  · rintro ⟨f, failed⟩
    obtain ⟨v, r, run, -⟩ := not_eq_failure_iff.mp failed
    exact ⟨v, r, run⟩
  · rintro ⟨v, r, run⟩
    exact ⟨_, not_of_success run⟩

theorem not_eq_success_iff {u : Unit} : p.not c s = (.ok (.success u r), t) ↔
    r = c ∧ ∃ f, p c s = (.ok (.failure f), t) := by
  constructor
  · intro matched
    rcases run : p c s with ⟨e | ⟨v, r⟩ | f, t⟩
    · cases (not_of_error run).symm.trans matched
    · cases (not_of_success run).symm.trans matched
    · cases (not_of_failure run).symm.trans matched
      exact ⟨rfl, f, rfl⟩
  · rintro ⟨rfl, f, run⟩
    exact not_of_failure run

/-- How negative lookahead for `p` does at `c`, once and twice. -/
structure LooksAhead (p : Parser σ α) (c : Cursor) (s : σ) : Prop where
  /-- Both matches and failures are at `c`. -/
  stays : ∀ o t, p.not c s = (.ok o, t) → o.cursor = c
  failed : ∀ t, (∃ f, p.not c s = (.ok (.failure f), t)) ↔ ∃ v r, p c s = (.ok (.success v r), t)
  /-- A failure expects nothing and quotes the match. -/
  quoted : ∀ f t v r, p.not c s = (.ok (.failure f), t) → p c s = (.ok (.success v r), t) →
    ∃ part, c.Quotes r part ∧ f.expectations = ∅ ∧
      f.message.render = "unexpected '" ++ String.ofList part ++ "'"
  matched : ∀ t, p.not c s = (.ok (.success () c), t) ↔ ∃ f, p c s = (.ok (.failure f), t)
  halted : ∀ e t, p.not c s = (.error e, t) ↔ p c s = (.error e, t)
  twice_matched : ∀ r t, p.not.not c s = (.ok (.success () r), t) ↔
    r = c ∧ ∃ v d, p c s = (.ok (.success v d), t)
  twice_failed : ∀ t, (∃ f, p.not.not c s = (.ok (.failure f), t)) ↔
    ∃ f, p c s = (.ok (.failure f), t)
  twice_halted : ∀ e t, p.not.not c s = (.error e, t) ↔ p c s = (.error e, t)

theorem looksAhead (p : Parser σ α) (c : Cursor) (s : σ) : LooksAhead p c s where
  stays o t run := by
    cases o with
    | success u r => exact (not_eq_success_iff.mp run).1
    | failure f =>
      obtain ⟨v, r, -, rfl⟩ := not_eq_failure_iff.mp run
      rfl
  failed t := not_fails_iff
  quoted f t v r failed run := by
    obtain ⟨v', r', run', rfl⟩ := not_eq_failure_iff.mp failed
    cases run.symm.trans run'
    exact ⟨_, c.quotes_textTo r, rfl, rfl⟩
  matched t := by simp [not_eq_success_iff]
  halted e t := not_eq_error_iff
  twice_matched r t := by simp only [not_eq_success_iff, not_fails_iff]
  twice_failed t := by simp [not_fails_iff, not_eq_success_iff]
  twice_halted e t := by simp only [not_eq_error_iff]

theorem except_of_error {e : Halt} (run : q c s = (.error e, t)) :
    p.except q c s = (.error e, t) :=
  Step.bind_of_error run _

theorem except_of_success {w : β} (run : q c s = (.ok (.success w r), t)) :
    p.except q c s = (.ok (.failure (.plain c (.excludedText (c.textTo r)))), t) :=
  Step.bind_of_ok run _

theorem except_of_failure {f : Failure} (run : q c s = (.ok (.failure f), t)) :
    p.except q c s = p c t :=
  Step.bind_of_ok run _

/-- How `p` with `q` excluded does beside `p` behind negative lookahead for `q`. -/
structure ExceptsLikeNot (p : Parser σ α) (q : Parser σ β) (c : Cursor) (s : σ) : Prop where
  /-- Where `q` matches, both fail at `c`, expect nothing and quote the same of the match. -/
  excluded : ∀ w r t, q c s = (.ok (.success w r), t) → ∃ part f f', c.Quotes r part ∧
    p.except q c s = (.ok (.failure f), t) ∧ q.not.ignoreThen p c s = (.ok (.failure f'), t) ∧
    f.failedAt = c ∧ f'.failedAt = c ∧ f.expectations = ∅ ∧ f'.expectations = ∅ ∧
    f.message.render = "excluded '" ++ String.ofList part ++ "' found" ∧
    f'.message.render = "unexpected '" ++ String.ofList part ++ "'"
  /-- Everywhere else both come to the same. -/
  otherwise : (∀ w r t, q c s ≠ (.ok (.success w r), t)) →
    p.except q c s = q.not.ignoreThen p c s

theorem exceptsLikeNot (p : Parser σ α) (q : Parser σ β) (c : Cursor) (s : σ) :
    ExceptsLikeNot p q c s where
  excluded w r t run :=
    ⟨_, _, _, c.quotes_textTo r, except_of_success run, ignoreThen_of_failure (not_of_success run),
      rfl, rfl, rfl, rfl, rfl, rfl⟩
  otherwise none := by
    rcases run : q c s with ⟨e | ⟨w, r⟩ | f, t⟩
    · rw [except_of_error run, ignoreThen_of_error (not_of_error run)]
    · exact absurd run (none w r t)
    · rw [except_of_failure run, ignoreThen_of_success (not_of_failure run)]

/-- Negative lookahead consumes nothing, matches exactly where its parser fails and halts exactly as
its parser does. It fails exactly where its parser matches, at the place where it looks, and quotes
what the match has passed; of a match that ends in another text or before that place it quotes some
text that is unread there, or nothing. Done twice it matches exactly where the parser does. An
exception is such a lookahead before the parser, but for the words around what is quoted. -/
theorem negative_lookahead (p : Parser σ α) (q : Parser σ β) (c : Cursor) (s : σ) :
    LooksAhead p c s ∧ ExceptsLikeNot p q c s :=
  ⟨looksAhead p c s, exceptsLikeNot p q c s⟩

/-- A match of three bytes is quoted in full. One that ends ten bytes into another text would take
more than there is, so that nothing is quoted of it. -/
theorem wide_and_foreign_matches_quoted :
    let c := Cursor.start ['é', '!', 'x']
    let near : Cursor := ⟨['!', 'é'], ['x'], 0⟩
    let far : Cursor := ⟨"9876543210".toList, "abcdef".toList, 1⟩
    let word : Parser Unit String := literal "é!"
    let elsewhere : Parser Unit Value := ofFunction (Custom.jump "0123456789abcdef" 10)
    word c () = (.ok (.success "é!" near), ()) ∧ c.Precedes near ∧ LooksAhead word c () ∧
      (∃ v, elsewhere c () = (.ok (.success v far), ())) ∧ ExceptsLikeNot word elsewhere c () ∧
      (∃ f, word.not c () = (.ok (.failure f), ()) ∧ f.message.render = "unexpected 'é!'") ∧
      ∃ f, word.except elsewhere c () = (.ok (.failure f), ()) ∧
        f.message.render = "excluded '' found" := by
  intro c near far word elsewhere
  have read : word c () = (.ok (.success "é!" near), ()) := rfl
  have jumped : ∃ v, elsewhere c () = (.ok (.success v far), ()) := ⟨_, rfl⟩
  have onward : c.Precedes near := ⟨rfl, by decide⟩
  obtain ⟨looks, excepts⟩ := negative_lookahead word elsewhere c ()
  refine ⟨read, onward, looks, jumped, excepts, ?near, ?far⟩
  case near =>
    obtain ⟨f, failed⟩ := (looks.failed ()).mpr ⟨_, _, read⟩
    obtain ⟨part, quotes, -, message⟩ := looks.quoted f () _ near failed read
    have whole : part = ['é', '!'] := (quotes.passed onward).textTo_eq.symm
    exact ⟨f, failed, by rw [message, whole]; decide⟩
  case far =>
    obtain ⟨v, jumped⟩ := jumped
    obtain ⟨part, f, -, quotes, failed, -, -, -, -, -, message, -⟩ :=
      excepts.excluded v far () jumped
    have none : part = [] := by
      rcases quotes.sized with size | ⟨none, -⟩
      · obtain ⟨rest, unread⟩ := quotes.unread
        have total := congrArg Text.byteSize unread
        rw [Text.byteSize_append, size] at total
        have bytes : Text.byteSize c.rest = 4 := by decide
        have ten : far.offset - c.offset = 10 := by decide
        omega
      · exact none
    exact ⟨f, failed, by rw [message, none]; decide⟩

end Lookahead

section Spans

/-- The span looks back to where the parser began, so it depends on that cursor too. -/
theorem withSpan_eq_andThen (p : Parser σ α) (c : Cursor) :
    p.withSpan c = p.andThen (fun v r => pure (.success (v, .between c r) r)) c := rfl

/-- How a parser does with its span at `c`. -/
structure WithItsSpan (p : Parser σ α) (c : Cursor) (s : σ) : Prop where
  /-- The span is added to the value, and the remainder is the same. -/
  matched : ∀ w r t, p.withSpan c s = (.ok (.success w r), t) ↔
    ∃ v, p c s = (.ok (.success v r), t) ∧ w = (v, .between c r)
  failed : ∀ f t, p.withSpan c s = (.ok (.failure f), t) ↔ p c s = (.ok (.failure f), t)
  halted : ∀ e t, p.withSpan c s = (.error e, t) ↔ p c s = (.error e, t)

theorem withItsSpan (p : Parser σ α) (c : Cursor) (s : σ) : WithItsSpan p c s := by
  constructor
  · intro w r t
    rw [withSpan_eq_andThen, andThen_eq_success_iff]
    constructor
    · rintro ⟨v, d, u, run, rest⟩
      cases rest
      exact ⟨v, run, rfl⟩
    · rintro ⟨v, run, rfl⟩
      exact ⟨v, r, t, run, rfl⟩
  · intro f t
    rw [withSpan_eq_andThen, andThen_eq_failure_iff]
    constructor
    · rintro (run | ⟨v, d, u, -, rest⟩)
      · exact run
      · cases rest
    · exact .inl
  · intro e t
    rw [withSpan_eq_andThen, andThen_eq_error_iff]
    constructor
    · rintro (run | ⟨v, d, u, -, rest⟩)
      · exact run
      · cases rest
    · exact .inl

/-- A parser with its span fails and halts as the parser does, and matches with the same remainder.
If the match has gone on in its text, the span covers what it has passed. Between cursors of one
text a span has the characters between their positions, and none if it runs backward. Between any
cursors it has the slice of bytes between their offsets, and the location that is counted there. -/
theorem spans_cover_what_is_passed (p : Parser σ α) :
    (∀ c s, WithItsSpan p c s) ∧
    (∀ c s v r t, p c s = (.ok (.success v r), t) → c.Precedes r →
      ∃ span : Span, p.withSpan c s = (.ok (.success (v, span) r), t) ∧ span.Covers c r) ∧
    (∀ c d : Cursor, d.source = c.source →
      (Span.between c d).text = (c.source.take d.position).drop c.position ∧
      (c.position ≤ d.position → (Span.between c d).Covers c d) ∧
      (d.position < c.position →
        (Span.between c d).text = [] ∧ (Span.between c d).length = 0)) ∧
    ∀ c d : Cursor,
      (Span.between c d).text = (Text.slice? c.source c.offset d.offset).getD [] ∧
      (Span.between c d).location = c.counters.location := by
  refine ⟨withItsSpan p, fun c s v r t run onward => ?_, fun c d same => ?_, fun c d => ?_⟩
  · have matched := ((withItsSpan p c s).matched (v, .between c r) r t).mpr ⟨v, run, rfl⟩
    exact ⟨.between c r, matched, Span.covers_between onward⟩
  · exact ⟨Cursor.textTo_eq_drop_take same, fun onward => Span.covers_between ⟨same, onward⟩,
      Span.between_backward same⟩
  · exact ⟨Span.text_eq_slice c d, c.location_counters.symm⟩

/-- A word of five letters, one of them of two bytes, stands behind two spaces that are skipped. -/
theorem wide_word_spanned :
    let c : Cursor := ⟨[' ', ' '], ['w', 'ö', 'r', 'l', 'd', '!'], 0⟩
    let r : Cursor := ⟨['d', 'l', 'r', 'ö', 'w', ' ', ' '], ['!'], 0⟩
    let word : Parser Unit String := literal "wörld"
    word c () = (.ok (.success "wörld" r), ()) ∧ c.Precedes r ∧ r.source = c.source ∧
      (∃ span : Span, word.withSpan c () = (.ok (.success ("wörld", span) r), ()) ∧
        span.Covers c r ∧ span.text = ['w', 'ö', 'r', 'l', 'd'] ∧ span.length = 5 ∧
        span.location = ⟨2, 1, 3⟩) ∧
      (Span.between r c).text = [] ∧ (Span.between r c).length = 0 := by
  intro c r word
  have read : word c () = (.ok (.success "wörld" r), ()) := rfl
  have onward : c.Precedes r := ⟨rfl, by decide⟩
  have back : c.position < r.position := by decide
  obtain ⟨-, covers, between, -⟩ := spans_cover_what_is_passed word
  obtain ⟨span, matched, covered⟩ := covers c () "wörld" r () read onward
  have letters : span.text = ['w', 'ö', 'r', 'l', 'd'] := covered.walk.textTo_eq.symm
  obtain ⟨-, -, backward⟩ := between r c rfl
  have place : span.location = ⟨2, 1, 3⟩ := covered.location.trans (by decide)
  have five : span.length = 5 := by simp [covered.length_text, letters]
  exact ⟨read, onward, rfl, ⟨span, matched, covered, letters, five, place⟩, backward back⟩

end Spans

end Parser

end Descent
