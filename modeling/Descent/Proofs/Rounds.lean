import Descent.Proofs.Pairs
import Descent.Proofs.Settling

/-!
Repetitions with more and more fuel.
Main statements: chains settle whatever their operators and operands are, and other repetitions
settle or record a round that has consumed nothing.
-/

namespace Descent

/-- Repetitions inside the recorded calls idle. -/
def Stalled (log : List Call) : Prop := ∃ d ∈ log, d.Stalls

theorem stalled_lasting : Lasting Stalled := by
  rintro log more ⟨d, mem, stalls⟩
  exact ⟨d, List.mem_append_left more mem, stalls⟩

/-- Some recorded call has succeeded without consuming input. -/
def Idle (log : List Call) : Prop := Stalled log ∨ ∃ d ∈ log, d.SucceedsAt d.start.position

theorem idle_lasting : Lasting Idle := by
  rintro log more (stalled | ⟨d, mem, idles⟩)
  · exact Or.inl (stalled_lasting log more stalled)
  · exact Or.inr ⟨d, List.mem_append_left more mem, idles⟩

/-- Some separator has succeeded together with the item after it, without consuming input. -/
def IdleRound (log : List Call) : Prop :=
  Stalled log ∨ ∃ pair ∈ Call.pairs log.tail, pair.2.SucceedsAt pair.1.start.position

theorem idleRound_of_stalled (log : List Call) (h : Stalled log) : IdleRound log := Or.inl h

theorem Call.mem_pairs_append {pair : Call × Call} {log : List Call} (more : List Call)
    (h : pair ∈ pairs log) : pair ∈ pairs (log ++ more) := by
  induction log using pairs.induct with
  | case1 separator item rest ih =>
    rw [pairs] at h
    rw [List.cons_append, List.cons_append, pairs]
    rcases List.mem_cons.mp h with rfl | mem
    · exact List.mem_cons_self
    · exact List.mem_cons_of_mem _ (ih mem)
  | case2 log short =>
    rw [pairs] at h
    · cases h
    · exact short

/-- The last separator and item behind whole pairs. -/
theorem Call.mem_pairs_last (separator item : Call) {log : List Call}
    (whole : log.length % 2 = 0) : (separator, item) ∈ pairs (log ++ [separator, item]) := by
  induction log using pairs.induct with
  | case1 first second rest ih =>
    rw [List.cons_append, List.cons_append, pairs]
    refine List.mem_cons_of_mem _ (ih ?_)
    simp only [List.length_cons] at whole
    omega
  | case2 log short =>
    match log with
    | [] => exact List.mem_cons_self
    | [first] => simp at whole
    | first :: second :: rest => exact absurd rfl (short first second rest)

theorem idleRound_lasting : Lasting IdleRound := by
  rintro log more (stalled | ⟨pair, mem, idles⟩)
  · exact Or.inl (stalled_lasting log more stalled)
  · cases log with
    | nil => cases mem
    | cons first rest => exact Or.inr ⟨pair, Call.mem_pairs_append more mem, idles⟩

/-- A separator and an item that have consumed nothing, behind the first item and whole pairs. -/
theorem idleRound_of_last {separator item : Call} {log : List Call} (odd : log.length % 2 = 1)
    (idles : item.SucceedsAt separator.start.position) : IdleRound (log ++ [separator, item]) := by
  cases log with
  | nil => cases odd
  | cons first pairs =>
    have whole : pairs.length % 2 = 0 := by
      rw [List.length_cons] at odd
      omega
    exact Or.inr ⟨(separator, item), Call.mem_pairs_last separator item whole, idles⟩

open Cursor (Reaches)

variable {α β : Type} {bad : List Call → Prop} {lasting : Lasting bad} {w : World} {c₀ : Cursor}

/-- Where a round that begins at `c` leaves its loop: either the loop ends there, or it goes on at a
cursor where `next` holds. -/
def Round.Leaves {γ : Type} (c : Cursor) (next : Cursor → Prop) : Round γ → Prop
  | stop => True
  | fail e => c.Reaches e.failedAt
  | more _ r => c.Reaches r ∧ next r

/-- The rounds of a loop settle, or leave something bad where they consume nothing. Before each of
them the record is `whole`. -/
def Rounded {γ : Type} (bad whole : List Call → Prop) (w : World) (c₀ : Cursor)
    (round : Nat → Cursor → Step (Store × List Call) (Round γ)) : Prop :=
  ∀ c, c₀.Reaches c → ∀ w', w.Leads w' → ∀ log, whole log →
    Judged bad w' log (fun n => round n c) fun new => Round.Leaves c fun r =>
      whole (log ++ new) ∧ (r.position = c.position → bad (log ++ new))

section Loop

variable {γ : Type} {whole : List Call → Prop}
  {round : Nat → Cursor → Step (Store × List Call) (Round γ)}

theorem Rounded.runs (rounds : Rounded bad whole w c₀ round) (n fuel : Nat) (found : List γ)
    {c : Cursor} (hc : c₀.Reaches c) {w' : World} (leads : w.Leads w') {log : List Call}
    (h : whole log) :
    RunsTo w' log (Parser.gather (round n) fuel found c) fun _ o => c.Reaches o.cursor := by
  induction fuel generalizing found c w' log with
  | zero => exact RunsTo.spent leads.within
  | succ fuel ih =>
    refine ((rounds c hc w' leads log h).runs n).bind ?_
    rintro w₁ new (_ | e | ⟨v, r⟩) leads₁ - left
    · exact RunsTo.pure leads₁.within (Reaches.refl c)
    · exact RunsTo.pure leads₁.within left
    · obtain ⟨moved, whole', -⟩ := left
      exact (ih (v :: found) (hc.trans moved) (leads.trans leads₁) whole').weaken
        fun _ _ => moved.trans

/-- A loop settles, or leaves something bad where a round consumes nothing, since the rounds that
consume something come to an end. -/
theorem Rounded.gather (lasting : Lasting bad) (rounds : Rounded bad whole w c₀ round) (i : Nat)
    (found : List γ) {c : Cursor} (hc : c₀.Reaches c) {w' : World} (leads : w.Leads w')
    {log : List Call} (h : whole log) :
    Judged bad w' log (fun n => Parser.gather (round n) (n - i) found c)
      fun _ o => c.Reaches o.cursor := by
  induction left : c.rest.length using Nat.strongRecOn generalizing c i found w' log with
  | ind size ih =>
    refine Judged.of_round (F := fun n m => Parser.gather (round n) m found c) i
      (fun n => rounds.runs n _ found hc leads h) ?_
    refine Judged.bind lasting (rounds c hc w' leads log h) ?_
    rintro w₁ new (_ | e | ⟨v, r⟩) leads₁ - next
    · exact Judged.pure leads₁.within (Reaches.refl c)
    · exact Judged.pure leads₁.within next
    · obtain ⟨moved, whole', idle⟩ := next
      have further := leads.trans leads₁
      have rest (n : Nat) :=
        rounds.runs n (n - (i + 1)) (v :: found) (hc.trans moved) further whole'
      refine ⟨fun n => (rest n).weaken fun _ _ => moved.trans, ?_⟩
      by_cases same : r.position = c.position
      · exact Ends.of_bad lasting rest (idle same)
      · have smaller : r.rest.length < size := by
          have onward : c.position ≤ r.position := moved.onward
          have := moved.rest_length
          omega
        exact (ih _ smaller (i + 1) (v :: found) (hc.trans moved) further whole' rfl).ends

end Loop

/-- Chains go on only where a pair consumes input, so they settle without any condition. -/
theorem settling.links {Q : Nat → Parser (Store × List Call) β}
    {P : Nat → Parser (Store × List Call) α} (hq : (settling lasting w c₀).Parsers Q Q)
    (hp : (settling lasting w c₀).Parsers P P) :
    (settling lasting w c₀).Parsers (fun n => Parser.links (Q n) (P n) n [])
      fun n => Parser.links (Q n) (P n) n [] := by
  have rounds : Rounded bad (fun _ => True) w c₀ fun n => Parser.pairRound (Q n) (P n) := by
    intro c hc w' leads log _
    refine Judged.bind lasting (Judgement.both hq hp c hc w' leads log) ?_
    rintro w₁ new (⟨pair, r⟩ | e) leads₁ - moved <;> refine Judged.pure leads₁.within ?_ <;> split
    · exact ⟨moved, trivial, fun same => by omega⟩
    · trivial
    · trivial
    · exact moved
  simp only [Parser.links_eq_gather]
  exact fun c hc w' leads log => rounds.gather lasting 0 [] hc leads trivial

theorem settling.chain {Q : Nat → Parser (Store × List Call) β}
    {P : Nat → Parser (Store × List Call) α} (hq : (settling lasting w c₀).Parsers Q Q)
    (hp : (settling lasting w c₀).Parsers P P) :
    (settling lasting w c₀).Parsers (fun n => Parser.chain n (Q n) (P n))
      fun n => Parser.chain n (Q n) (P n) :=
  Judgement.andThen hp fun v => Judgement.map (v, ·) (settling.links hq hp)

/-- A loop over elements settles, or leaves something bad where an element consumes nothing. -/
theorem Judged.collect (lasting : Lasting bad) {P : Nat → Parser (Store × List Call) α}
    (element : ∀ c, c₀.Reaches c → ∀ w', w.Leads w' → ∀ log,
      Judged bad w' log (fun n => P n c) fun new o => c.Reaches o.cursor ∧
        ∀ v r, o = .success v r → r.position = c.position → bad (log ++ new))
    (found : List α) {c : Cursor} (hc : c₀.Reaches c) {w' : World} (leads : w.Leads w')
    (log : List Call) :
    Judged bad w' log (fun n => Parser.collect (P n) n found c) fun _ o => c.Reaches o.cursor := by
  have rounds : Rounded bad (fun _ => True) w c₀ fun n => (P n).element := by
    intro c hc w' leads log _
    refine Judged.bind lasting (element c hc w' leads log) ?_
    rintro w₁ new (⟨v, r⟩ | e) leads₁ - ⟨moved, idle⟩
    · refine Judged.pure leads₁.within ⟨moved, trivial, ?_⟩
      rw [List.append_nil]
      exact idle v r rfl
    · exact Judged.pure leads₁.within trivial
  simp only [Parser.collect_eq_gather]
  exact rounds.gather lasting 0 found hc leads trivial

/-- A match of a character consumes it. -/
theorem Judged.satisfy (k : CharClass) (c : Cursor) {w' : World}
    (within : w'.store.Within .forward) (log : List Call) :
    Judged bad w' log (fun _ => Parser.satisfy k c) fun _ o => c.Reaches o.cursor ∧
      ∀ v r, o = .success v r → r.position ≠ c.position := by
  cases found : c.next? with
  | none =>
    simp only [Parser.satisfy, found]
    exact Judged.pure within ⟨Reaches.refl c, fun v r eq => by cases eq⟩
  | some next =>
    obtain ⟨x, d⟩ := next
    simp only [Parser.satisfy, found]
    by_cases matched : k.test x
    · simp only [matched, if_true]
      refine Judged.pure within ⟨Reaches.next found, fun v r eq => ?_⟩
      cases eq
      rw [Cursor.position_of_next? found]
      omega
    · simp only [matched]
      exact Judged.pure within ⟨Reaches.refl c, fun v r eq => by cases eq⟩

/-- Whitespace is skipped without any condition. -/
theorem settling.blanks :
    (settling lasting w c₀).Parsers (fun n => Parser.many n Parser.whitespace)
      fun n => Parser.many n Parser.whitespace := by
  intro c hc w' leads log
  refine Judged.collect lasting (fun d _ w₁ leads₁ log₁ => ?_) [] hc leads log
  refine (Judged.satisfy .whitespace d leads₁.within log₁).weaken ?_
  rintro new o ⟨moved, advances⟩
  exact ⟨moved, fun v r eq same => absurd same (advances v r eq)⟩

theorem settling.token {P : Nat → Parser (Store × List Call) α}
    (hp : (settling lasting w c₀).Parsers P P) :
    (settling lasting w c₀).Parsers (fun n => (P n).token n) fun n => (P n).token n :=
  Judgement.thenIgnore (Judgement.ignoreThen settling.blanks hp) settling.blanks

/-- What a call of `t` from `c` yields, and records. -/
def Term.Logged (t : Term) (c : Cursor) (new : List Call) (o : Outcome Value) : Prop :=
  c.Reaches o.cursor ∧ ∃ inner, new = [⟨t, c, .ok o, inner⟩]

/-- Every evaluation of `t` settles or stalls, from `c₀` on and in the worlds that `w` leads to. -/
def Term.Settles (w : World) (c₀ : Cursor) (t : Term) : Prop :=
  ∀ c, c₀.Reaches c → ∀ w', w.Leads w' → ∀ log,
    Judged Stalled w' log (fun n => t.evaluate .recording n c) (t.Logged c)

theorem Term.Settles.parsers {t : Term} (h : t.Settles w c₀) :
    (settling stalled_lasting w c₀).Parsers (fun n => t.evaluate .recording n)
      fun n => t.evaluate .recording n :=
  fun c hc w' leads log => (h c hc w' leads log).weaken fun _ _ logged => logged.1

/-- The loop of a separated list settles, or records a round that has consumed nothing. Before the
loop stand the first item and whole pairs. -/
theorem Judged.collectSeparated {p q : Term} (hp : p.Settles w c₀) (hq : q.Settles w c₀)
    (found : List Value) {c : Cursor} (hc : c₀.Reaches c) {w' : World} (leads : w.Leads w')
    (log : List Call) (odd : log.length % 2 = 1) :
    Judged IdleRound w' log
      (fun n => Parser.collectSeparated (p.evaluate .recording n) (q.evaluate .recording n) n found
        c)
      fun _ o => c.Reaches o.cursor := by
  have rounds : Rounded IdleRound (fun log => log.length % 2 = 1) w c₀ fun n =>
      Parser.separatedRound (p.evaluate .recording n) (q.evaluate .recording n) := by
    intro c hc w' leads log odd
    have separator := (hq c hc w' leads log).worse idleRound_of_stalled
    refine Judged.bind idleRound_lasting separator ?_
    rintro w₁ new (⟨o, d⟩ | e) leads₁ - ⟨moved, inner, rfl⟩
    · have item := (hp d (hc.trans moved) w₁ (leads.trans leads₁)
        (log ++ [⟨q, c, .ok (.success o d), inner⟩])).worse idleRound_of_stalled
      refine Judged.bind idleRound_lasting item ?_
      rintro w₂ new (⟨v, r⟩ | e) leads₂ - ⟨moved', inner', rfl⟩
      · have odd' (x y : Call) : (log ++ [x, y]).length % 2 = 1 := by
          rw [List.length_append]
          exact (Nat.add_mod_right log.length 2).trans odd
        exact Judged.pure leads₂.within
          ⟨moved.trans moved', odd' _ _, fun same => idleRound_of_last odd same⟩
      · exact Judged.pure leads₂.within (moved.trans moved')
    · refine Judged.pure leads₁.within ?_
      split
      · trivial
      · exact moved
  simp only [Parser.collectSeparated_eq_gather]
  exact rounds.gather idleRound_lasting 0 found hc leads odd

end Descent
