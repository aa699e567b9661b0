import Descent.Proofs.Typing

/-!
Parsing expression grammars, and the expressions that grammars stand for.
Main statements: an expression comes to no more than one result on a text, and a grammar that stands
for an expression is typed by it.
-/

namespace Descent

/-- Parsing expressions over nonterminals. -/
inductive Expression (ν : Type)
  | empty
  | char (test : Char → Bool)
  | seq (e f : Expression ν)
  | choice (e f : Expression ν)
  | star (e : Expression ν)
  | not (e : Expression ν)
  | call (name : ν)

namespace Expression

variable {ν : Type}

/-- The characters one after the other. -/
def text : List Char → Expression ν
  | [] => empty
  | x :: rest => seq (char (· == x)) (text rest)

/-- The end of the input: no character comes next. -/
def ending : Expression ν := not (char fun _ => true)

/-- An expression succeeds on a text, which leaves the unread rest, or fails on it. Choices are
ordered, repetitions take as much as they can, and `not` looks ahead without reading. -/
inductive Parses (rules : ν → Option (Expression ν)) :
    Expression ν → List Char → Option (List Char) → Prop
  | empty (xs : List Char) : Parses rules empty xs (some xs)
  | char {test : Char → Bool} {x : Char} {xs : List Char} (matched : test x = true) :
    Parses rules (char test) (x :: xs) (some xs)
  | char_other {test : Char → Bool} {x : Char} {xs : List Char} (missed : test x = false) :
    Parses rules (char test) (x :: xs) none
  | char_end {test : Char → Bool} : Parses rules (char test) [] none
  | seq {e f : Expression ν} {xs ys : List Char} {o : Option (List Char)}
    (first : Parses rules e xs (some ys)) (second : Parses rules f ys o) :
    Parses rules (seq e f) xs o
  | seq_fails {e f : Expression ν} {xs : List Char} (first : Parses rules e xs none) :
    Parses rules (seq e f) xs none
  | choice {e f : Expression ν} {xs ys : List Char} (first : Parses rules e xs (some ys)) :
    Parses rules (choice e f) xs (some ys)
  | choice_other {e f : Expression ν} {xs : List Char} {o : Option (List Char)}
    (first : Parses rules e xs none) (second : Parses rules f xs o) :
    Parses rules (choice e f) xs o
  | star_stops {e : Expression ν} {xs : List Char} (element : Parses rules e xs none) :
    Parses rules (star e) xs (some xs)
  | star {e : Expression ν} {xs ys : List Char} {o : Option (List Char)}
    (element : Parses rules e xs (some ys)) (more : Parses rules (star e) ys o) :
    Parses rules (star e) xs o
  | not {e : Expression ν} {xs : List Char} (inner : Parses rules e xs none) :
    Parses rules (not e) xs (some xs)
  | not_fails {e : Expression ν} {xs ys : List Char} (inner : Parses rules e xs (some ys)) :
    Parses rules (not e) xs none
  | call {name : ν} {e : Expression ν} {xs : List Char} {o : Option (List Char)}
    (production : rules name = some e) (body : Parses rules e xs o) : Parses rules (call name) xs o

/-- An expression consumes a first part of a text. -/
def Consumes (rules : ν → Option (Expression ν)) (e : Expression ν) (xs part : List Char) : Prop :=
  ∃ rest, xs = part ++ rest ∧ Parses rules e xs (some rest)

variable {rules : ν → Option (Expression ν)}

theorem Parses.unique {e : Expression ν} {xs : List Char} {o o' : Option (List Char)}
    (h : Parses rules e xs o) (h' : Parses rules e xs o') : o = o' := by
  induction h generalizing o' with
  | empty xs => cases h'; rfl
  | char matched =>
    cases h' with
    | char => rfl
    | char_other missed => exact nomatch matched.symm.trans missed
  | char_other missed =>
    cases h' with
    | char matched => exact nomatch matched.symm.trans missed
    | char_other => rfl
  | char_end => cases h'; rfl
  | seq first second ih₁ ih₂ =>
    cases h' with
    | seq first' second' =>
      cases ih₁ first'
      exact ih₂ second'
    | seq_fails first' => exact nomatch ih₁ first'
  | seq_fails first ih =>
    cases h' with
    | seq first' second' => exact nomatch ih first'
    | seq_fails first' => rfl
  | choice first ih =>
    cases h' with
    | choice first' => exact ih first'
    | choice_other first' second' => exact nomatch ih first'
  | choice_other first second ih₁ ih₂ =>
    cases h' with
    | choice first' => exact nomatch ih₁ first'
    | choice_other first' second' => exact ih₂ second'
  | star_stops element ih =>
    cases h' with
    | star_stops element' => rfl
    | star element' more' => exact nomatch ih element'
  | star element more ih₁ ih₂ =>
    cases h' with
    | star_stops element' => exact nomatch ih₁ element'
    | star element' more' =>
      cases ih₁ element'
      exact ih₂ more'
  | not inner ih =>
    cases h' with
    | not inner' => rfl
    | not_fails inner' => exact nomatch ih inner'
  | not_fails inner ih =>
    cases h' with
    | not inner' => exact nomatch ih inner'
    | not_fails inner' => rfl
  | call production body ih =>
    cases h' with
    | call production' body' =>
      cases production.symm.trans production'
      exact ih body'

end Expression

/-- The nonterminals of a grammar: its rules by name, and the recursive rules inside them, each with
its body and with what the names around it stand for. A name may also stand for nothing. -/
inductive Nonterminal
  | rule (name : String)
  | inner (name : String) (body : Node) (names : List (String × Nonterminal))
  | missing

section Translation

variable {ν : Type}

/-- What a leaf stands for; closures stand for nothing. -/
def Atom.expression? : Atom → Option (Expression ν)
  | satisfy k => some (.char k.test)
  | literal s => some (.text s.toList)
  | endOfInput => some .ending
  | value _ => some .empty
  | custom _ => none

/-- Operations that an expression can express, given the expression of their part. -/
def Unary.expression? : Unary → Expression ν → Option (Expression ν)
  | many, e => some (.star e)
  | atLeastOnce, e => some (.seq e (.star e))
  | once, e => some e
  | text, e => some e
  | attempt, e => some e
  | not, e => some (.not e)
  | named _, e => some e
  | complete, e => some (.seq e .ending)
  | giving _, e => some e
  | map _, e => some e
  | _, _ => none

def Binary.expression? : Binary → Expression ν → Expression ν → Option (Expression ν)
  | both, e, f => some (.seq e f)
  | ignoreThen, e, f => some (.seq e f)
  | thenIgnore, e, f => some (.seq e f)
  | concat, e, f => some (.seq e f)
  | or, e, f => some (.choice e f)
  | except, e, f => some (.seq (.not f) e)
  | _, _, _ => none

/-- The expression that a grammar stands for, if it has one. Variables have no values. -/
def Node.expression? (names : List (String × Nonterminal)) :
    Node → Option (Expression Nonterminal)
  | leaf a => (a fun _ => .unit).expression?
  | unary op p => (p.expression? names).bind fun e => (op fun _ => .unit).expression? e
  | binary op p q => (p.expression? names).bind fun e => (q.expression? names).bind fun f =>
    op.expression? e f
  | between p q r => (p.expression? names).bind fun e => (q.expression? names).bind fun f =>
    (r.expression? names).map fun g => .seq e (.seq f g)
  | bind _ _ => none
  | rule name => some (.call ((names.lookup name).getD .missing))
  | recursive name body =>
    (body.expression? ((name, .inner name body names) :: names)).map fun _ =>
      .call (.inner name body names)
  | reference body => body.expression? names
  | undefined => some (.call .missing)

end Translation

namespace Grammar

/-- What the names of rules stand for; the last declared comes first. -/
def nonterminals (g : Grammar) : List (String × Nonterminal) :=
  (g.rules.map fun rule => (rule.1, .rule rule.1)).reverse

/-- The productions of a grammar. -/
def productions (g : Grammar) : Nonterminal → Option (Expression Nonterminal)
  | .rule name => (g.rules.lookup name).bind (·.expression? g.nonterminals)
  | .inner name body names => body.expression? ((name, .inner name body names) :: names)
  | .missing => none

end Grammar

/-- Grammars typed by the expressions that they stand for. The body of a rule is the production of
its nonterminal. -/
def expressing (rules : Nonterminal → Option (Expression Nonterminal)) :
    TypeSystem (Expression Nonterminal) where
  atom a e := a.expression? = some e
  unary op e f := op.expression? e = some f
  binary op e f g := op.expression? e f = some g
  between e f g h := h = .seq e (.seq f g)
  rule e f := ∃ name, f = .call name ∧ rules name = some e

/-- The expressions that names stand for. -/
def Nonterminal.calls (names : List (String × Nonterminal)) :
    List (String × Expression Nonterminal) :=
  names.map fun named => (named.1, .call named.2)

theorem Nonterminal.lookup_calls (names : List (String × Nonterminal)) (name : String) :
    (calls names).lookup name = (names.lookup name).map .call := by
  induction names with
  | nil => rfl
  | cons first more ih =>
    rw [calls, List.map_cons, List.lookup_cons, List.lookup_cons]
    cases name == first.1 with
    | true => rfl
    | false => exact ih

/-- A grammar is typed by the expression that it stands for. -/
theorem Node.hasType_expression (g : Grammar) {names : List (String × Nonterminal)}
    {e : Expression Nonterminal} : (node : Node) → node.expression? names = some e →
      node.HasType (expressing g.productions) (Nonterminal.calls names) e
  | .leaf a, h => .leaf h
  | .unary op p, h => by
    obtain ⟨d, part, known⟩ := Option.bind_eq_some_iff.mp h
    exact .unary (p.hasType_expression g part) known
  | .binary op p q, h => by
    obtain ⟨d, left, rest⟩ := Option.bind_eq_some_iff.mp h
    obtain ⟨f, right, known⟩ := Option.bind_eq_some_iff.mp rest
    exact .binary (p.hasType_expression g left) (q.hasType_expression g right) known
  | .between p q r, h => by
    obtain ⟨d, first, rest⟩ := Option.bind_eq_some_iff.mp h
    obtain ⟨f, inner, rest⟩ := Option.bind_eq_some_iff.mp rest
    obtain ⟨k, last, whole⟩ := Option.map_eq_some_iff.mp rest
    exact .between (p.hasType_expression g first) (q.hasType_expression g inner)
      (r.hasType_expression g last) whole.symm
  | .rule name, h => by
    have bound := Nonterminal.lookup_calls names name
    rw [expression?] at h
    cases h
    cases found : names.lookup name with
    | some nonterminal =>
      rw [found] at bound
      exact .rule bound
    | none =>
      rw [found] at bound
      exact .unbound bound _
  | .recursive name body, h => by
    obtain ⟨d, inner, rfl⟩ := Option.map_eq_some_iff.mp h
    exact .recursive (body.hasType_expression g inner) ⟨_, rfl, inner⟩
  | .reference body, h => .reference (body.hasType_expression g h)
  | .undefined, h => by
    cases h
    exact .undefined _

namespace Grammar

/-- A grammar stands for an expression if its root does, all of its rules have productions, and no
two of them have the same name. -/
structure Expresses (g : Grammar) (e : Expression Nonterminal) : Prop where
  distinct : (g.rules.map (·.1)).Nodup
  rules : ∀ rule ∈ g.rules, (rule.2.expression? g.nonterminals).isSome
  root : g.root.expression? g.nonterminals = some e

theorem lookup_of_distinct {rules : List (String × Node)} (distinct : (rules.map (·.1)).Nodup)
    {rule : String × Node} (mem : rule ∈ rules) : rules.lookup rule.1 = some rule.2 := by
  induction rules with
  | nil => cases mem
  | cons first more ih =>
    obtain ⟨fresh, distinct⟩ := List.nodup_cons.mp distinct
    rw [List.lookup_cons]
    rcases List.mem_cons.mp mem with rfl | mem
    · rw [beq_self_eq_true]
    · have differs : (rule.1 == first.1) = false := by
        rw [beq_eq_false_iff_ne]
        exact fun same => fresh (List.mem_map.mpr ⟨rule, mem, same⟩)
      rw [differs]
      exact ih distinct mem

theorem calls_nonterminals (g : Grammar) :
    Nonterminal.calls g.nonterminals =
      context (fun name => .call (.rule name)) (g.rules.map (·.1)) := by
  rw [Nonterminal.calls, nonterminals, context, List.map_reverse, List.map_map, List.map_map]
  rfl

/-- Each rule of the grammar stands for the call of its own nonterminal. -/
theorem Expresses.hasType {g : Grammar} {e : Expression Nonterminal} (h : g.Expresses e) :
    g.HasType (expressing g.productions) (fun name => .call (.rule name)) e := by
  constructor
  · intro rule mem
    obtain ⟨d, body⟩ := Option.isSome_iff_exists.mp (h.rules rule mem)
    have production : g.productions (.rule rule.1) = some d := by
      rw [productions, lookup_of_distinct h.distinct mem]
      exact body
    rw [← calls_nonterminals]
    exact ⟨d, rule.2.hasType_expression g body, _, rfl, production⟩
  · rw [← calls_nonterminals]
    exact g.root.hasType_expression g h.root

end Grammar
end Descent
