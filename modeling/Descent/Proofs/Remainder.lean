import Descent.Proofs.Repeatability

/-!
Parses of the rest of a text.
Main statement: if no closure of a grammar sees where it is and no spans are taken, then a parse of
the rest of a text by itself and a parse from there on within the text differ in their positions
alone, and these by what has been passed.
-/

namespace Descent

/-- A closure that does not see what is before its cursor. -/
def Cursor.Relative (f : Cursor → Outcome Value) : Prop :=
  ∀ (b : List Char) (c : Cursor), f (c.behind b) = (f c).moved (Cursor.behind b)

theorem Custom.rest_relative : Cursor.Relative rest := fun _ _ => rfl

/-- Grammars whose closures do not see what is before them and that take no spans. -/
def Fragment.relative : Fragment where
  atom a := ∀ f, a = .custom f → Cursor.Relative f
  unary op := op ≠ .withSpan
  binary _ := True

theorem Fragment.relative_displaceable (m : Displacement) : Fragment.relative.Displaceable m where
  closures f relative c := by
    rw [Cursor.displace, f.blind, relative f rfl]
    cases f c <;> rfl
  spans none := absurd rfl none

/-- The cursor `r'` stands in the text of `c` where `r` stands in the rest of it. -/
structure Cursor.Displaced (c r r' : Cursor) : Prop where
  source : r'.source = c.before.reverse ++ r.source
  position : r'.position = c.position + r.position
  offset : r'.offset = c.offset + r.offset
  table : r'.table = c.table + r.table

/-- What lies between the start of the unread text by itself and `c`. -/
def Cursor.displacement (c : Cursor) : Displacement := ⟨c.before, c.table⟩

theorem Cursor.displace_start (c : Cursor) : (start c.rest).displace c.displacement = c := by
  simp [displace, raise, onTable, behind, displacement, start]

theorem Cursor.displaced_displace (c r : Cursor) : c.Displaced r (r.displace c.displacement) where
  source := r.source_displace _
  position := (r.position_displace _).trans (Nat.add_comm _ _)
  offset := (r.offset_displace _).trans (Nat.add_comm _ _)
  table := Nat.add_comm _ _

/-- The results of parsing the rest of a text by itself and of parsing it from `c` on. -/
inductive Corresponds (c : Cursor) :
    Except Halt (Outcome Value) → Except Halt (Outcome Value) → Prop
  | success (v : Value) {r r' : Cursor} (remainder : c.Displaced r r') :
    Corresponds c (.ok (.success v r)) (.ok (.success v r'))
  | failure {e e' : Failure} (message : e'.message = e.message)
    (expectations : e'.expectations = e.expectations)
    (failedAt : c.Displaced e.failedAt e'.failedAt) :
    Corresponds c (.ok (.failure e)) (.ok (.failure e'))
  | leftRecursion (rule : RuleId) {l l' : Location}
    (position : l'.position = c.position + l.position) :
    Corresponds c (.error (.defect (.leftRecursion rule l)))
      (.error (.defect (.leftRecursion rule l')))
  | undefinedRule (rule : RuleId) :
    Corresponds c (.error (.defect (.undefinedRule rule))) (.error (.defect (.undefinedRule rule)))
  | outOfFuel : Corresponds c (.error .outOfFuel) (.error .outOfFuel)

theorem Alongside.corresponds {c : Cursor} {x y : Except Halt (Outcome Value)}
    (h : Alongside c.displacement (fun o o' => o' = o.moved (Cursor.displace c.displacement)) x y) :
    Corresponds c x y := by
  cases h with
  | @ok o o' same =>
    subst same
    cases o with
    | success v r => exact .success v (c.displaced_displace r)
    | failure e => exact .failure rfl rfl (c.displaced_displace e.failedAt)
  | error halts =>
    cases halts with
    | leftRecursion rule d => exact .leftRecursion rule (c.displaced_displace d).position
    | undefinedRule rule => exact .undefinedRule rule
    | outOfFuel => exact .outOfFuel

theorem Corresponds.unnumbered {c : Cursor} {x y : Except Halt (Outcome Value)}
    (h : Corresponds c x y) :
    Corresponds c (x.mapError Halt.unnumbered) (y.mapError Halt.unnumbered) := by
  cases h with
  | success v remainder => exact .success v remainder
  | failure message expectations failedAt => exact .failure message expectations failedAt
  | leftRecursion rule position => exact .leftRecursion ⟨0⟩ position
  | undefinedRule rule => exact .undefinedRule ⟨0⟩
  | outOfFuel => exact .outOfFuel

/-- From a store without active entries, a relative grammar does on the rest of a text by itself
what it does from there on within the text. -/
theorem Term.parse_corresponds (n : Nat) {t : Term} (inside : t.Within .relative) {s : Store}
    (idle : s.active = []) (store : s.Within .relative) (c : Cursor) :
    Corresponds c (t.parse n (.start c.rest) s).1 (t.parse n c s).1 := by
  have fits := Fragment.relative_displaceable c.displacement
  have alike := (t.parse_movable fits n inside (.start c.rest) s store).2.2
  rw [Store.displace_of_idle _ idle, Cursor.displace_start] at alike
  exact alike.corresponds

/-- What a parse comes to depends on the unread text only. Where no closure sees what is before its
cursor and no spans are taken, a parse from a cursor on corresponds to a parse of the rest by
itself, whichever of them is made first and whatever else is done in between. What a grammar of such
closures is built into has no others. -/
theorem parse_depends_on_rest :
    (∀ (s : Store) (t : Term), s.active = [] → s.Within .relative → t.Within .relative →
      ∀ (n : Nat) (c : Cursor),
        Corresponds c (t.parse n (.start c.rest) s).1 (t.parse n c s).1) ∧
    (∀ (s : Store) (ts : List Term), s.Hosts ts → s.active = [] → s.Within .relative →
      ∀ t ∈ ts, t.Within .relative → ∀ s₁ ts₁ s₂ ts₂, s.Use ts s₁ ts₁ → s.Use ts s₂ ts₂ →
        ∀ (n : Nat) (c : Cursor),
          Corresponds c ((t.parse n (.start c.rest) s₁).1.mapError Halt.unnumbered)
            ((t.parse n c s₂).1.mapError Halt.unnumbered)) ∧
    ∀ g : Grammar, g.Within .relative →
      (g.build .empty).2.Hosts g.parsers ∧ (g.build .empty).2.active = [] ∧
        (g.build .empty).2.Within .relative ∧ ∀ t ∈ g.parsers, t.Within .relative := by
  refine ⟨fun s t idle store inside n c => t.parse_corresponds n inside idle store c, ?_, ?_⟩
  · rintro _ ts ⟨w, rfl, hosts⟩ idle store t mem inside s₁ ts₁ s₂ ts₂ use₁ use₂ n c
    obtain ⟨w₁, history₁, rfl, -, active₁⟩ := hosts.use use₁
    obtain ⟨w₂, history₂, rfl, -, active₂⟩ := hosts.use use₂
    rw [hosts.parse_agrees mem history₁ active₁, hosts.parse_agrees mem history₂ active₂]
    exact (t.parse_corresponds n inside idle store c).unnumbered
  · intro g inside
    obtain ⟨root, store⟩ := g.build_within inside
    refine ⟨g.exists_hosts, g.active_of_build .empty, store, fun t mem => ?_⟩
    rcases List.mem_cons.mp mem with rfl | mem
    · exact root
    · obtain ⟨binding, -, rfl⟩ := List.mem_map.mp mem
      trivial

/-- A rule that reads a letter and calls itself, or else looks at what is left, on a text and after
its first character, over another table. -/
theorem repeated_letter_depends_on_rest :
    let body := Node.binary .both (.literal "a") (.binary .or (.rule "r") (.custom Custom.rest))
    let g : Grammar := ⟨[("r", body)], .reference (.rule "r")⟩
    let t := (g.build .empty).1
    let s := (g.build .empty).2
    let c : Cursor := ⟨['x'], ['a', 'a', 'b'], 2⟩
    Corresponds c (t.parse 10 (.start c.rest) s).1 (t.parse 10 c s).1 ∧
      Corresponds c ((t.parse 10 (.start c.rest) (t.parse 10 c s).2).1.mapError Halt.unnumbered)
        ((t.parse 10 c s).1.mapError Halt.unnumbered) ∧
      ∃ v, (t.parse 10 c s).1 = .ok (.success v ⟨['a', 'a', 'x'], ['b'], 2⟩) := by
  intro body g t s c
  have inside : g.Within .relative := by
    have looks : (Node.custom Custom.rest).Within .relative := by
      intro _ f eq
      cases eq
      exact Custom.rest_relative
    have body : body.Within .relative := ⟨trivial, fun _ _ => nofun, trivial, trivial, looks⟩
    constructor
    · intro rule mem
      rw [List.mem_singleton.mp mem]
      exact body
    · trivial
  obtain ⟨same, used, built⟩ := parse_depends_on_rest
  obtain ⟨hosts, idle, store, terms⟩ := built g inside
  have mem : t ∈ g.parsers := List.mem_cons_self ..
  refine ⟨same s t idle store (terms t mem) 10 c, ?_, _, rfl⟩
  exact used s _ hosts idle store t mem (terms t mem) _ _ _ _ (.parse 10 c .start mem) .start 10 c

end Descent
