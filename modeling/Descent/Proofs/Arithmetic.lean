import Descent.Proofs.Reading

/-!
Arithmetic expressions in layered chains: sums of products of powers, with operands in parentheses.
Main statement: whatever parentheses beyond the required ones and whatever whitespace an expression
is written with, it is read as its own tree.
-/

namespace Descent.Arithmetic

/-- One or more decimal digits. -/
@[ext]
structure Digits where
  text : List Char
  proper : text ≠ []
  spelled : Spelled CharSet.isDigit text

structure Number where
  whole : Digits
  fraction : Option Digits

/-- The point and the digits behind it. -/
def Number.fractionText (x : Number) : List Char :=
  match x.fraction with
  | none => []
  | some digits => '.' :: digits.text

def Number.text (x : Number) : List Char := x.whole.text ++ x.fractionText

inductive Operator
  | plus
  | minus
  | times
  | divided
  | power

namespace Operator

def symbol : Operator → Char
  | plus => '+'
  | minus => '-'
  | times => '*'
  | divided => '/'
  | power => '^'

def text (op : Operator) : String := .ofList [op.symbol]

/-- A higher level binds its operands closer. -/
def level : Operator → Nat
  | plus => 0
  | minus => 0
  | times => 1
  | divided => 1
  | power => 2

/-- The level from which on a left operand needs no parentheses. -/
def leftLevel : Operator → Nat
  | power => 3
  | op => op.level

/-- The level from which on a right operand needs no parentheses. -/
def rightLevel : Operator → Nat
  | power => 2
  | op => op.level + 1

end Operator

inductive Tree
  | number (x : Number)
  | binary (op : Operator) (left right : Tree)

/-- A number as its text, and what is made of an operator and its operands. -/
def Tree.value (apply : Value → Value → Value → Value) : Tree → Value
  | number x => .str (.ofList x.text)
  | binary op left right => apply (.str op.text) (left.value apply) (right.value apply)

/-- Ways to write an expression where operators of a level, or of higher ones, may stand without
parentheses. Whitespace may stand behind every token. -/
inductive Written : Nat → Tree → List Char → Prop
  | number {k : Nat} (x : Number) {blank : List Char} (behind : Blank blank) :
    Written k (.number x) (x.text ++ blank)
  | parens {k : Nat} {e : Tree} {lead text blank : List Char} (before : Blank lead)
    (inner : Written 0 e text) (behind : Blank blank) :
    Written k e (['('] ++ (lead ++ text ++ [')']) ++ blank)
  | binary {k : Nat} (op : Operator) {l r : Tree} {left right blank : List Char}
    (level : k ≤ op.level) (first : Written op.leftLevel l left) (behind : Blank blank)
    (second : Written op.rightLevel r right) :
    Written k (.binary op l r) (left ++ (op.symbol :: blank ++ right))

section Grammar

variable (apply : Value → Value → Value → Value)

def digits : Node := .apply .atLeastOnce (.satisfy .digit)

def number : Node :=
  let fraction := Node.binary .concat (.apply .once (.char '.')) digits
  .apply .text (.binary .concat digits (.map (.unwrapOr (.list [])) (.apply .optional fraction)))

def operator (op : Operator) : Node :=
  .apply (.giving (.str op.text)) (.apply .token (.literal op.text))

def operand : Node :=
  .apply .token (.binary .xor (.between (.char '(') (.rule "expression") (.char ')')) number)

/-- The operators of a level. -/
def operators : Nat → Node
  | 0 => .binary .xor (operator .plus) (operator .minus)
  | 1 => .binary .xor (operator .times) (operator .divided)
  | _ => operator .power

def powers : Node := .binary (.chainRight apply) (operators 2) operand

def products : Node := .binary (.chainLeft apply) (operators 1) (powers apply)

def sums : Node := .binary (.chainLeft apply) (operators 0) (products apply)

/-- Expressions with their operators applied from the layer of the closest ones outwards. -/
def calculator : Grammar := ⟨[], .apply .complete (.recursive "expression" (sums apply))⟩

/-- The parser of what is written at a level. -/
def layer : Nat → Node
  | 0 => sums apply
  | 1 => products apply
  | 2 => powers apply
  | _ => operand

end Grammar

/-! What may follow a token -/

/-- The end, a closing parenthesis or an operator of a lower level comes next. -/
def Follows (k : Nat) (ys : List Char) : Prop :=
  ∀ y ∈ ys.head?, y = ')' ∨ ∃ op : Operator, op.level < k ∧ y = op.symbol

variable {k : Nat} {ys : List Char}

theorem Follows.mono {j : Nat} (le : k ≤ j) (h : Follows k ys) : Follows j ys := fun y mem =>
  (h y mem).imp_right fun ⟨op, lower, same⟩ => ⟨op, by omega, same⟩

theorem Follows.of_lower (op : Operator) (lower : op.level < k) : Follows k (op.symbol :: ys) :=
  fun _ mem => .inr ⟨op, lower, (Option.some.inj mem).symm⟩

theorem Follows.close : Follows k (')' :: ys) := fun _ mem => .inl (Option.some.inj mem).symm

theorem Follows.end : Follows k [] := nofun

/-- A test that neither a closing parenthesis nor an operator passes. -/
theorem Follows.misses {test : Char → Bool} (h : Follows k ys) (close : test ')' = false)
    (symbols : ∀ op : Operator, test op.symbol = false) : Misses test ys := by
  intro y mem
  obtain rfl | ⟨op, -, rfl⟩ := h y mem
  · exact close
  · exact symbols op

theorem Follows.solid (h : Follows k ys) : Solid ys :=
  h.misses (by decide) fun op => by cases op <;> decide

/-- Behind a number comes whitespace or what may follow the number. -/
theorem Follows.misses_behind {test : Char → Bool} {blank : List Char} (h : Follows k ys)
    (behind : Blank blank) (spaces : ∀ x, CharSet.isWhitespace x = true → test x = false)
    (close : test ')' = false) (symbols : ∀ op : Operator, test op.symbol = false) :
    Misses test (blank ++ ys) := by
  cases blank with
  | nil => exact h.misses close symbols
  | cons x rest => exact misses_cons (spaces x (behind x (List.mem_cons_self ..)))

theorem Operator.symbol_ne {op op' : Operator} (differ : op.level ≠ op'.level) :
    op.symbol ≠ op'.symbol := by
  intro same
  cases op <;> cases op' <;> first | exact differ rfl | exact absurd same (by decide)

/-- Whitespace is no digit. -/
theorem not_digit_of_whitespace {x : Char} (h : CharSet.isWhitespace x = true) :
    CharSet.isDigit x = false := by
  obtain ⟨r, mem, low, high⟩ := CharSet.contains_iff.mp h
  have code : x.toNat < 48 ∨ 57 < x.toNat := by
    simp only [CharSet.whitespace, List.mem_cons, List.not_mem_nil, or_false] at mem
    rcases mem with rfl | rfl | rfl | rfl | rfl | rfl | rfl | rfl | rfl | rfl <;> omega
  refine Bool.eq_false_iff.mpr fun digit => ?_
  simp only [CharSet.isDigit, Bool.and_eq_true, decide_eq_true_eq] at digit
  have low : 48 ≤ x.toNat := digit.1
  have high : x.toNat ≤ 57 := digit.2
  omega

theorem not_point_of_whitespace {x : Char} (h : CharSet.isWhitespace x = true) :
    (x == '.') = false := by
  refine beq_false_of_ne ?_
  rintro rfl
  exact absurd h (by decide)

/-! Tokens -/

/-- A grammar built where the name of the recursive rule is known. -/
def built (p : Node) : Term := (p.build ⟨[("expression", ⟨⟨0⟩, false⟩)], []⟩ .empty).1

open Term

variable {s : Store}

theorem takes_operator {op : Operator} {blank : List Char} (behind : Blank blank)
    (solid : Solid ys) :
    Takes s (built (operator op)).bare (op.symbol :: blank) ys (.str op.text) := by
  have symbol : Takes s (leaf (.literal op.text)).bare [op.symbol] (blank ++ ys) (.str op.text) :=
    takes_literal String.toList_ofList
  have start : Solid ([op.symbol] ++ (blank ++ ys)) := misses_cons (by cases op <;> decide)
  exact takes_giving (takes_unary (symbol.token blank_nil start behind solid))

theorem refuses_operator {op : Operator} (solid : Solid ys) (missed : Misses (· == op.symbol) ys) :
    Refuses s (built (operator op)).bare ys := by
  have symbol : Refuses s (leaf (.literal op.text)).bare ys :=
    refuses_literal String.toList_ofList missed
  exact refuses_giving (refuses_unary (symbol.token solid))

/-- Every operator is read by its level. -/
theorem takes_operators (op : Operator) {blank : List Char} (behind : Blank blank)
    (solid : Solid ys) :
    Takes s (built (operators op.level)).bare (op.symbol :: blank) ys (.str op.text) := by
  have other {op' : Operator} (differ : op.symbol ≠ op'.symbol) :
      Refuses s (built (operator op')).bare (op.symbol :: blank ++ ys) := by
    exact refuses_operator (misses_cons (by cases op <;> decide))
      (misses_cons (beq_false_of_ne differ))
  cases op with
  | plus => exact takes_binary (.xor (takes_operator behind solid) nofun)
  | minus => exact takes_binary (.xor_other (other (by decide)) (takes_operator behind solid))
  | times => exact takes_binary (.xor (takes_operator behind solid) nofun)
  | divided => exact takes_binary (.xor_other (other (by decide)) (takes_operator behind solid))
  | power => exact takes_operator behind solid

/-- No operator of the level, nor of a higher one, is read where an operand of the level ends. -/
theorem Follows.refuses (h : Follows k ys) (le : k ≤ 2) :
    Refuses s (built (operators k)).bare ys := by
  have single (op : Operator) (high : k ≤ op.level) : Refuses s (built (operator op)).bare ys := by
    refine refuses_operator h.solid fun y mem => beq_false_of_ne ?_
    obtain rfl | ⟨op', lower, rfl⟩ := h y mem
    · cases op <;> decide
    · exact Operator.symbol_ne (by omega)
  match k, le with
  | 0, _ => exact refuses_binary (.xor (single .plus (Nat.le_refl 0))
      (single .minus (Nat.le_refl 0)))
  | 1, _ => exact refuses_binary (.xor (single .times (Nat.le_refl 1))
      (single .divided (Nat.le_refl 1)))
  | 2, _ => exact single .power (Nat.le_refl 2)

theorem takes_digits (x : Digits) (missed : Misses CharSet.isDigit ys) :
    Takes s (built digits).bare x.text ys (.word x.text) :=
  takes_proper_word (spells_satisfy .digit) x.proper x.spelled missed

theorem takes_number (x : Number) (digit : Misses CharSet.isDigit ys)
    (point : Misses (· == '.') ys) :
    Takes s (built number).bare x.text ys (.str (.ofList x.text)) := by
  have fraction : Takes s (built (.map (.unwrapOr (.list []))
      (.apply .optional (.binary .concat (.apply .once (.char '.')) digits)))).bare
      x.fractionText ys (.word x.fractionText) := by
    cases given : x.fraction with
    | none =>
      rw [Number.fractionText, given]
      have none : Refuses s (built (.binary .concat (.apply .once (.char '.')) digits)).bare ys :=
        refuses_concat (refuses_once (refuses_satisfy point))
      exact takes_map _ (takes_absent none)
    | some digits =>
      rw [Number.fractionText, given]
      have some :
          Takes s (built (.binary .concat (.apply .once (.char '.')) Arithmetic.digits)).bare
          ('.' :: digits.text) ys (.word ('.' :: digits.text)) :=
        takes_words (takes_letter (takes_char '.')) (takes_digits digits digit)
      exact takes_map _ (takes_optional some)
  have behind : Misses CharSet.isDigit (x.fractionText ++ ys) := by
    rw [Number.fractionText]
    cases x.fraction with
    | none => exact digit
    | some digits => exact misses_cons (by decide)
  exact takes_text (takes_words (takes_digits x.whole behind) fraction)

/-! Layers -/

section Layers

variable (apply : Value → Value → Value → Value) (s)

/-- What the layer of a level takes before whatever may follow it. -/
def Operand (k : Nat) (xs : List Char) (v : Value) : Prop :=
  ∀ ys, Follows k ys → Takes s (built (layer apply k)).bare xs ys v

/-- How the operators of a level group their operands. -/
def group : Nat → Value → List (Value × Value) → Value
  | 2 => Parser.groupRight apply
  | _ => Parser.groupLeft apply

/-- A first operand and further pairs of operator and operand, as a chain of the level reads them.
It may be followed by an operator of the level itself. -/
def Spine (k : Nat) (xs : List Char) (v : Value) : Prop :=
  ∀ ys, Follows (k + 1) ys → ∃ first pairs ws zs, xs = ws ++ zs ∧
    Takes s (built (layer apply (k + 1))).bare ws (zs ++ ys) first ∧
    TakesPairs s (built (operators k)).bare (built (layer apply (k + 1))).bare pairs zs ys ∧
    group apply k first pairs = v

/-- What is read as a layer of its own, and may go on as a chain if it is no single operand. -/
def Taken (k : Nat) (xs : List Char) (v : Value) : Prop :=
  Operand s apply k xs v ∧ (k ≤ 2 → Spine s apply k xs v)

variable {s apply} {xs : List Char} {v : Value} {j : Nat}

theorem Spine.operand (h : Spine s apply k xs v) (le : k ≤ 2) : Operand s apply k xs v := by
  intro ys follows
  obtain ⟨first, pairs, ws, zs, rfl, operand, more, rfl⟩ := h ys (follows.mono (Nat.le_succ k))
  have stops := follows.refuses (s := s) le
  match k, le with
  | 0, _ => exact takes_binary (operand.chainLeft more stops)
  | 1, _ => exact takes_binary (operand.chainLeft more stops)
  | 2, _ => exact takes_binary (operand.chainRight more stops)

/-- An operand of the next layer is a chain of one operand. -/
theorem Operand.spine (h : Operand s apply (k + 1) xs v) : Spine s apply k xs v := by
  refine fun ys follows => ⟨v, [], xs, [], (List.append_nil xs).symm, h ys follows, .nil, ?_⟩
  rw [group.eq_def]
  split <;> rfl

/-- A layer takes what the layers of higher levels take. -/
theorem Operand.lower (h : Operand s apply j xs v) (le : k ≤ j) (bound : j ≤ 3) :
    Operand s apply k xs v := by
  obtain ⟨d, rfl⟩ := Nat.exists_eq_add_of_le le
  induction d with
  | zero => exact h
  | succ d ih =>
    have next : Operand s apply (k + d + 1) xs v := h
    exact ih (next.spine.operand (by omega)) (by omega) (by omega)

theorem Operand.taken (h : Operand s apply 3 xs v) (le : k ≤ 3) : Taken s apply k xs v :=
  ⟨h.lower le (Nat.le_refl 3), fun small => (h.lower (by omega) (Nat.le_refl 3)).spine⟩

theorem Spine.taken (h : Spine s apply j xs v) (bound : j ≤ 2) (le : k ≤ j) :
    Taken s apply k xs v := by
  have operand := h.operand bound
  refine ⟨operand.lower le (by omega), fun _ => ?_⟩
  obtain rfl | less := Nat.eq_or_lt_of_le le
  · exact h
  · exact (operand.lower less (by omega)).spine

/-- Operators that group from the left go on behind the chain of their left operand. -/
theorem Spine.extend {op : Operator} {left blank right : List Char} {l r : Value}
    (first : Spine s apply op.level left l) (grouped : op.level ≤ 1) (behind : Blank blank)
    (solid : ∀ ys, Solid (right ++ ys)) (second : Operand s apply (op.level + 1) right r) :
    Spine s apply op.level (left ++ (op.symbol :: blank ++ right)) (apply (.str op.text) l r) := by
  intro ys follows
  obtain ⟨x, pairs, ws, zs, rfl, operand, more, rfl⟩ :=
    first (op.symbol :: blank ++ right ++ ys) (.of_lower op (Nat.lt_succ_self _))
  have pair := TakesPairs.single (takes_operators op behind (solid ys)) nofun (second ys follows)
  refine ⟨x, pairs ++ [(.str op.text, r)], ws, zs ++ (op.symbol :: blank ++ right),
    List.append_assoc .., ?_, more.append pair, ?_⟩
  · rw [List.append_assoc zs]
    exact operand
  · have left : group apply op.level = Parser.groupLeft apply := by
      rw [group.eq_def]
      split <;> first | rfl | omega
    rw [left, Parser.groupLeft, List.foldl_append]
    rfl

/-- An operator that groups from the right stands before the chain of its right operand. -/
theorem Spine.raise {left blank right : List Char} {l r : Value}
    (first : Operand s apply 3 left l) (behind : Blank blank) (solid : ∀ ys, Solid (right ++ ys))
    (second : Spine s apply 2 right r) :
    Spine s apply 2 (left ++ (Operator.symbol .power :: blank ++ right))
      (apply (.str (Operator.text .power)) l r) := by
  intro ys follows
  obtain ⟨x, pairs, ws, zs, rfl, operand, more, rfl⟩ := second ys follows
  have start := solid ys
  rw [List.append_assoc] at start
  have pair := TakesPairs.single (takes_operators .power behind start) nofun operand
  refine ⟨l, (.str (Operator.text .power), x) :: pairs, left, _, rfl, ?_, ?_, rfl⟩
  · exact first _ (.of_lower .power (by decide))
  · rw [← List.append_assoc]
    exact pair.append more

end Layers

/-! Expressions -/

theorem Number.starts (x : Number) {test : Char → Bool} {zs : List Char}
    (no : ∀ d, CharSet.isDigit d = true → test d = false) : Misses test (x.text ++ zs) := by
  obtain ⟨⟨digits, proper, spelled⟩, fraction⟩ := x
  cases digits with
  | nil => exact absurd rfl proper
  | cons d rest => exact misses_cons (no d (spelled d (List.mem_cons_self ..)))

theorem solid_digit {d : Char} (digit : CharSet.isDigit d = true) :
    CharSet.isWhitespace d = false :=
  Bool.eq_false_iff.mpr fun space => Bool.eq_false_iff.mp (not_digit_of_whitespace space) digit

theorem Written.solid {e : Tree} {text : List Char} (w : Written k e text) (zs : List Char) :
    Solid (text ++ zs) := by
  induction w generalizing zs with
  | number x behind =>
    rw [List.append_assoc]
    exact x.starts fun _ => solid_digit
  | parens before inner behind => exact misses_cons (by decide)
  | binary op level first behind second left right =>
    rw [List.append_assoc]
    exact left _

variable {apply : Value → Value → Value → Value}

theorem operand_number (x : Number) {lead blank : List Char} (before : Blank lead)
    (behind : Blank blank) :
    Operand s apply 3 (lead ++ (x.text ++ blank)) (.str (.ofList x.text)) := by
  intro ys follows
  have digit : Misses CharSet.isDigit (blank ++ ys) :=
    follows.misses_behind behind (fun _ => not_digit_of_whitespace) (by decide)
      fun op => by cases op <;> decide
  have point : Misses (· == '.') (blank ++ ys) :=
    follows.misses_behind behind (fun _ => not_point_of_whitespace) (by decide)
      fun op => by cases op <;> decide
  have other : Refuses s (built (.between (.char '(') (.rule "expression") (.char ')'))).bare
      (x.text ++ (blank ++ ys)) := by
    refine refuses_between (refuses_satisfy (x.starts fun d digit => beq_false_of_ne ?_))
    rintro rfl
    exact absurd digit (by decide)
  rw [← List.append_assoc]
  exact takes_unary (Takes.token before (x.starts fun _ => solid_digit)
    (takes_binary (.xor_other other (takes_number x digit point))) behind follows.solid)

theorem operand_parens {lead lead' text blank : List Char} {v : Value}
    (defined : s.definition? ⟨0⟩ = some (built (sums apply))) (before : Blank lead)
    (inner : Operand s apply 0 (lead' ++ text) v) (behind : Blank blank) :
    Operand s apply 3 (lead ++ (['('] ++ (lead' ++ text ++ [')']) ++ blank)) v := by
  intro ys follows
  have expression : Takes s (built (.rule "expression")).bare (lead' ++ text)
      ([')'] ++ (blank ++ ys)) v := takes_rule defined (inner _ .close)
  have parens : Takes s (built (.between (.char '(') (.rule "expression") (.char ')'))).bare
      (['('] ++ (lead' ++ text ++ [')'])) (blank ++ ys) v :=
    takes_between (takes_char '(') expression (takes_char ')')
  rw [← List.append_assoc]
  exact takes_unary (Takes.token before (misses_cons (by decide))
    (takes_binary (parens.xor nofun)) behind follows.solid)

/-- What is written at a level is read so. -/
theorem Written.taken {e : Tree} {text : List Char} (w : Written k e text) (le : k ≤ 3)
    (defined : s.definition? ⟨0⟩ = some (built (sums apply))) {lead : List Char}
    (before : Blank lead) : Taken s apply k (lead ++ text) (e.value apply) := by
  induction w generalizing lead with
  | number x behind => exact (operand_number x before behind).taken le
  | parens before' inner behind ih =>
    exact (operand_parens defined before (ih (Nat.zero_le 3) before').1 behind).taken le
  | @binary k op l r left blank right level first behind second ihl ihr =>
    have solid := second.solid
    rw [← List.append_assoc]
    cases op with
    | power =>
      have chain : Spine s apply 2 (lead ++ left ++ _) _ :=
        Spine.raise (ihl (Nat.le_refl 3) before).1 behind solid
          ((ihr (by decide) blank_nil).2 (Nat.le_refl 2))
      exact chain.taken (Nat.le_refl 2) level
    | _ =>
      refine Spine.taken (Spine.extend ?_ ?_ behind solid ?_) ?_ level
      · exact (ihl (by decide) before).2 (by decide)
      · decide
      · exact (ihr (by decide) blank_nil).1
      · decide

/-- A written form with the required parentheses alone and without whitespace. -/
def Tree.plain : Nat → Tree → List Char
  | _, number x => x.text
  | k, binary op left right =>
    let text := left.plain op.leftLevel ++ op.symbol :: right.plain op.rightLevel
    if k ≤ op.level then text else '(' :: text ++ [')']

theorem Written.plain (k : Nat) (e : Tree) : Written k e (e.plain k) := by
  induction e generalizing k with
  | number x =>
    have w := Written.number (k := k) x blank_nil
    rw [List.append_nil] at w
    exact w
  | binary op left right ihl ihr =>
    have bare {j : Nat} (le : j ≤ op.level) :=
      Written.binary op le (ihl op.leftLevel) blank_nil (ihr op.rightLevel)
    rw [Tree.plain]
    split
    · exact bare ‹_›
    · have w := Written.parens (k := k) blank_nil (bare (Nat.zero_le _)) blank_nil
      rw [List.append_nil] at w
      exact w

theorem Number.whole_text (x : Number) : x.text.takeWhile CharSet.isDigit = x.whole.text := by
  have stops : x.fractionText.takeWhile CharSet.isDigit = [] := by
    rw [Number.fractionText]
    cases x.fraction <;> rfl
  rw [Number.text, List.takeWhile_append_of_pos x.whole.spelled, stops, List.append_nil]

theorem Number.text_injective : Function.Injective Number.text := by
  intro x y same
  have whole : x.whole.text = y.whole.text := by rw [← x.whole_text, ← y.whole_text, same]
  have fraction : x.fractionText = y.fractionText := by
    rw [Number.text, Number.text, whole] at same
    exact List.append_cancel_left same
  obtain ⟨wx, fx⟩ := x
  obtain ⟨wy, fy⟩ := y
  obtain rfl : wx = wy := Digits.ext whole
  match fx, fy, fraction with
  | none, none, _ => rfl
  | some _, some _, same => rw [Digits.ext (List.cons.inj same).2]

theorem Operator.text_injective : Function.Injective Operator.text := by
  intro op op' same
  have symbols : [op.symbol] = [op'.symbol] := String.ofList_injective same
  cases op <;> cases op' <;> first | rfl | exact absurd symbols (by decide)

/-- Lists of operator and operands tell expressions apart. -/
theorem Tree.value_injective : Function.Injective (Tree.value Application.list.run) := by
  intro e
  induction e with
  | number x =>
    intro e' same
    cases e' with
    | number y =>
      injection same with same
      rw [Number.text_injective (String.ofList_injective same)]
    | binary op left right => cases same
  | binary op left right ihl ihr =>
    intro e' same
    cases e' with
    | number y => cases same
    | binary op' left' right' =>
      simp only [Tree.value, Application.run, Value.list.injEq, Value.str.injEq, List.cons.injEq,
        and_true] at same
      obtain ⟨operator, first, second⟩ := same
      rw [Operator.text_injective operator, ihl first, ihr second]

/-- An expression is read back from each of its written forms, whatever the chains make of an
operator and its operands. With lists of the three, the value is the tree itself. -/
theorem expressions_read_back :
    (∀ (apply : Value → Value → Value → Value) (e : Tree) (lead text : List Char),
      Blank lead → Written 0 e text →
      (calculator apply).Reads (lead ++ text) (e.value apply)) ∧
    Function.Injective (Tree.value Application.list.run) := by
  refine ⟨fun apply e lead text before w => Grammar.reads_of_takes ?_, Tree.value_injective⟩
  have defined : ((calculator apply).build .empty).2.definition? ⟨0⟩ =
    some (built (sums apply)) := rfl
  have whole := (w.taken (Nat.zero_le 3) defined before).1 [] .end
  exact takes_complete (takes_rule defined whole)

/-- A difference of a difference, with a product of powers in it, and of a sum in parentheses. -/
theorem spaced_expression_reads_back :
    let digits (d : Char) (h : CharSet.isDigit d = true) : Digits :=
      ⟨[d], nofun, by simpa [Spelled] using h⟩
    let n (d : Char) (h : CharSet.isDigit d = true) : Tree := .number ⟨digits d h, none⟩
    let half : Number := ⟨digits '0' rfl, some (digits '5' rfl)⟩
    let e : Tree := .binary .minus
      (.binary .minus (n '8' rfl) (.binary .times (n '2' rfl)
        (.binary .power (n '3' rfl) (.binary .power (n '1' rfl) (n '4' rfl)))))
      (.binary .plus (.number half) (n '7' rfl))
    (calculator Application.list.run).Reads " 8 - 2*3^1 ^4-( 0.5+((7) ))".toList
      (e.value Application.list.run) := by
  intro digits n half e
  have space : Blank [' '] := by simp only [Spelled, List.mem_singleton, forall_eq]; decide
  have number (k : Nat) (d : Char) (h : CharSet.isDigit d = true) {blank : List Char}
      (behind : Blank blank) : Written k (n d h) ([d] ++ blank) := .number ⟨digits d h, none⟩ behind
  have none := blank_nil
  have product : Written 1 _ _ := .binary .times (by decide) (number 1 '2' rfl none) none
    (.binary .power (by decide) (number 3 '3' rfl none) none
      (.binary .power (by decide) (number 3 '1' rfl space) none (number 2 '4' rfl none)))
  have sum : Written 0 _ _ := .binary .plus (by decide) (.number half none) none
    (.parens none (.parens none (number 0 '7' rfl none) space) none)
  have w : Written 0 e _ := .binary .minus (by decide)
    (.binary .minus (by decide) (number 0 '8' rfl space) space product) none
    (.parens space sum none)
  exact expressions_read_back.1 _ e [' '] _ space w

end Descent.Arithmetic
