import Descent.Proofs.Markup
import Descent.Proofs.Provenance

/-!
The documents behind the texts that are accepted as documents.
Main statement: every accepted text is a written form of the document that is its value, so what
opening tags there are have closing tags of the same name.
-/

namespace Descent.Markup

open Term

variable {s : Store} {n : Nat} {p : Term} {stands : Standing Value}
  {text more rest blank inner : List Char} {v : Value}

/-! Tags -/

theorem explains_char (x : Char) :
    (built (.char x)).Explains s n fun v text _ => v = .char x ∧ text = [x] := by
  refine (Explains.satisfy (.exactly x)).of_value ?_
  rintro _ _ _ ⟨y, rfl, same, rfl⟩
  obtain rfl : y = x := beq_iff_eq.mp same
  exact ⟨rfl, rfl⟩

theorem explains_tag (hp : p.Explains s n stands) :
    (enclosed p).Explains s n fun v text rest => ∃ lead inner blank,
      Blank lead ∧ text = lead ++ tagged inner blank ∧
      stands v inner (['>'] ++ (blank ++ rest)) ∧ Blank blank ∧ Solid rest := by
  have blanks : (built blanks).Explains s n _ := .word .whitespace
  have whole := (((blanks.ignoreThen (explains_char '<')).ignoreThen hp).thenIgnore
    (explains_char '>')).thenIgnore blanks
  refine whole.of_value ?_
  rintro v _ rest ⟨_, _, blank, rfl, ⟨_, _, _, rfl, ⟨_, _, inner, rfl,
    ⟨_, lead, _, rfl, ⟨_, before, _⟩, _, rfl⟩, value⟩, _, rfl⟩, _, behind, solid⟩
  exact ⟨lead, inner, blank, before, by simp only [tagged, List.append_assoc], value, behind, solid⟩

theorem explains_name : (built name).Explains s n fun v text _ =>
    ∃ x : TagName, v = .str (.ofList x.text) ∧ text = x.text := by
  have letter (k : CharClass) (known : ∀ x, k.test x = true → isNameRest x = true) :
      (leaf (.satisfy k)).Explains s n fun v text _ =>
        ∃ x, v = .char x ∧ isNameRest x = true ∧ text = [x] := by
    refine (Explains.satisfy k).of_value ?_
    rintro _ _ _ ⟨x, rfl, matched, rfl⟩
    exact ⟨x, rfl, known x matched, rfl⟩
  refine Explains.identifier (.or (.or (letter .letterOrDigit fun x h => ?_)
    (letter (.exactly '-') fun x h => ?_)) (letter (.exactly '_') fun x h => ?_))
  · have h : CharSet.isLetterOrDigit x = true := h
    rw [isNameRest, h]
    rfl
  · obtain rfl : x = '-' := beq_iff_eq.mp h
    decide
  · obtain rfl : x = '_' := beq_iff_eq.mp h
    decide

/-- The closing tag has the name that the variable stands for. -/
theorem explains_closing : (builtIn v closing).Explains s n fun _ text rest =>
    ∃ (x : TagName) (lead blank : List Char), v = .str (.ofList x.text) ∧ Blank lead ∧
      text = lead ++ tagged (['/'] ++ x.text) blank ∧ Blank blank ∧ Solid rest := by
  have inner := (explains_char (s := s) (n := n) '/').ignoreThen
    (explains_name.filter (Test.run (scope.bindValue "name" v).vars (.equalsVariable "name")))
  refine (explains_tag inner).of_value ?_
  rintro _ _ rest ⟨lead, _, blank, before, rfl, ⟨_, _, _, rfl, ⟨_, rfl⟩, same, x, rfl, rfl⟩,
    behind, solid⟩
  exact ⟨x, lead, blank, (of_decide_eq_true same).symm, before, rfl, behind, solid⟩

/-! Elements -/

/-- A document, behind which no whitespace is left. -/
def Documented : Standing Value := fun v text rest =>
  ∃ d : Document, v = d.value ∧ d.children.Apart ∧ d.Written text ∧ Solid rest

/-- Items that stand next to each other, as a part of an element. -/
def Itemized : Standing (List Value) := fun vs text rest =>
  ∃ t : Items, vs = t.values ∧ t.Apart ∧ Markup.Written t text ∧ Solid rest

/-- An item behind a tag or behind another item, where no whitespace is left. -/
def ItemAt : Standing Value := fun v text rest => Solid (text ++ rest) →
  (∃ x : Content, v = .tagged "Content" (.str (.ofList x.text)) ∧ text = x.text ∧
    Misses (· != '<') rest) ∨
  ∃ (x : TagName) (children : Items),
    v = .tagged "Node" (.pair (.str (.ofList x.text)) (.list children.values)) ∧ children.Apart ∧
    Markup.Written (.element x children .done) text ∧ Solid rest

theorem explains_short : (built short).Explains s n Documented := by
  have inner := (explains_name (s := s) (n := n)).thenIgnore (explains_char '/')
  refine (explains_tag inner).map _ ?_
  rintro _ _ rest ⟨lead, _, blank, before, rfl, ⟨_, _, _, rfl, ⟨x, rfl, rfl⟩, _, rfl⟩,
    behind, solid⟩
  refine ⟨⟨x, .done⟩, rfl, trivial, ⟨lead, _, before, .short x behind .done, ?_⟩, solid⟩
  rw [List.append_nil]

/-- No blank is left before what begins with no blank. -/
theorem eq_nil_of_solid (blank : Blank inner) (solid : Solid (inner ++ rest)) : inner = [] := by
  cases inner with
  | nil => rfl
  | cons x xs =>
    have space : CharSet.isWhitespace x = true := blank x (List.mem_cons_self ..)
    rw [solid x rfl] at space
    cases space

theorem explains_item (element : (built (.rule "node")).Explains s n Documented) :
    (built item).Explains s n ItemAt := by
  have chars : (built (.apply .text (.apply .atLeastOnce
      (.satisfy ⟨(· != '<'), "content"⟩)))).Explains s n fun v text rest =>
        v = .str (.ofList text) ∧ text ≠ [] ∧ Spelled (· != '<') text ∧ Misses (· != '<') rest := by
    refine Explains.text ((Explains.proper_word _).of_value ?_)
    rintro _ text rest ⟨proper, rfl, spelled, missed⟩
    exact ⟨rfl, proper, spelled, missed⟩
  refine .or (element.map _ ?_) (chars.map _ ?_)
  · rintro _ text rest ⟨⟨x, children⟩, rfl, apart, ⟨lead, body, before, w, rfl⟩, behind⟩ solid
    rw [List.append_assoc] at solid
    obtain rfl := eq_nil_of_solid before solid
    exact .inr ⟨x, children, rfl, apart, w, behind⟩
  · rintro _ text rest ⟨rfl, proper, spelled, missed⟩ solid
    refine .inl ⟨⟨text, proper, spelled, fun c mem => solid c ?_⟩, rfl, rfl, missed⟩
    cases text with
    | nil => cases mem
    | cons c more => exact mem

/-- An element is written in front of other items. -/
theorem Written.followed {x : TagName} {children others : Items}
    (w : Markup.Written (.element x children .done) text) (after : Markup.Written others more) :
    Markup.Written (.element x children others) (text ++ more) := by
  cases w with
  | short x behind last =>
    cases last
    rw [List.append_nil]
    exact .short x behind after
  | full x behind within behind' last =>
    cases last
    rw [List.append_nil]
    exact .full x behind within behind' after

/-- Where a text has ended, no other text begins. -/
theorem Written.not_content {t : Items} (w : Markup.Written t text)
    (missed : Misses (· != '<') (text ++ rest)) : t.isContent = false := by
  cases w with
  | content x after =>
    obtain ⟨chars, proper, spelled, _⟩ := x
    cases chars with
    | nil => exact absurd rfl proper
    | cons c more =>
      have bracket : (c != '<') = false := missed c rfl
      have other : (c != '<') = true := spelled c (List.mem_cons_self ..)
      cases bracket.symm.trans other
  | _ => rfl

theorem solid_of_bracket {xs : List Char} (missed : Misses (· != '<') xs) : Solid xs := by
  intro x mem
  have bracket : x = '<' := by simpa using missed x mem
  subst bracket
  decide

/-- Pieces that are items make up the items of an element. -/
theorem itemized {vs : List Value} (pieces : Pieces ItemAt vs text rest)
    (solid : Solid (text ++ rest)) : Itemized vs text rest := by
  induction pieces with
  | nil => exact ⟨.done, rfl, trivial, .done, solid⟩
  | cons first others ih =>
    rw [List.append_assoc] at solid
    obtain ⟨x, rfl, rfl, missed⟩ | ⟨x, children, rfl, apart, w, behind⟩ := first solid
    · obtain ⟨t, rfl, apart, after, solid⟩ := ih (solid_of_bracket missed)
      exact ⟨.content x t, rfl, ⟨after.not_content missed, apart⟩, .content x after, solid⟩
    · obtain ⟨t, rfl, apart', after, solid⟩ := ih behind
      exact ⟨.element x children t, rfl, ⟨apart, apart'⟩, w.followed after, solid⟩

/-- What follows an opening tag ends with the closing tag of the same name. -/
theorem explains_body (items : (built item).Explains s n ItemAt) :
    (bodyOf v).Explains s n fun w text rest => Solid (text ++ rest) →
      ∃ (x : TagName) (t : Items) (inner blank : List Char), v = .str (.ofList x.text) ∧
        w = .pair v (.list t.values) ∧ t.Apart ∧ Markup.Written t inner ∧
        text = inner ++ tagged (['/'] ++ x.text) blank ∧ Blank blank ∧ Solid rest := by
  have many : (builtIn v (.apply .many item)).Explains s n _ := items.many
  refine (many.thenIgnore explains_closing).map _ ?_
  rintro _ _ rest ⟨_, inner, _, rfl, ⟨vs, rfl, pieces⟩, x, lead, blank, rfl, before, rfl, behind,
    solid⟩ start
  rw [List.append_assoc] at start
  obtain ⟨t, rfl, apart, w, clear⟩ := itemized pieces start
  rw [List.append_assoc] at clear
  obtain rfl := eq_nil_of_solid before clear
  exact ⟨x, t, inner, blank, rfl, rfl, apart, w, rfl, behind, solid⟩

theorem explains_node (element : (built (.rule "node")).Explains s n Documented) :
    (built node).Explains s n Documented := by
  have inert (v : Value) (t : Store) : body.build scope v t = (bodyOf v, t) := rfl
  refine .or (.attempt explains_short) (.bind (explains_tag explains_name) inert fun v =>
    (explains_body (explains_item element)).of_value ?_)
  rintro w _ rest close _ ⟨lead, _, blank, before, rfl, ⟨x, rfl, rfl⟩, behind, solid⟩
  obtain ⟨y, t, inner, blank', same, rfl, apart, within, rfl, behind', solid'⟩ := close solid
  obtain rfl : x = y := Name.text_injective (String.ofList_injective (Value.str.inj same))
  refine ⟨⟨x, t⟩, rfl, apart, ⟨lead, _, before, .full x behind within behind' .done, ?_⟩, solid'⟩
  simp only [List.append_assoc, List.append_nil]

theorem explains_rule (defined : s.definition? ⟨0⟩ = some (built node)) (owning : Bool) (n : Nat) :
    (Term.rule ⟨⟨0⟩, owning⟩).Explains s n Documented := by
  induction n using Nat.strongRecOn generalizing owning with
  | _ n ih => exact .rule defined fun m less => explains_node (ih m less false)

theorem Items.values_injective : Function.Injective Items.values := by
  intro t
  induction t with
  | done => intro t' same; cases t' <;> first | rfl | cases same
  | content x more ih =>
    intro t' same
    cases t' with
    | content y more' =>
      simp only [values, List.cons.injEq, Value.tagged.injEq, Value.str.injEq, true_and] at same
      rw [Content.ext (String.ofList_injective same.1), ih same.2]
    | _ => simp [values] at same
  | element x children more ihc ihm =>
    intro t' same
    cases t' with
    | element y children' more' =>
      simp only [values, List.cons.injEq, Value.tagged.injEq, Value.pair.injEq, Value.str.injEq,
        Value.list.injEq, true_and] at same
      rw [Name.text_injective (String.ofList_injective same.1.1), ihc same.1.2, ihm same.2]
    | _ => simp [values] at same

theorem Document.value_injective : Function.Injective Document.value := by
  rintro ⟨x, t⟩ ⟨y, t'⟩ same
  obtain ⟨names, children⟩ := Value.pair.inj same
  obtain rfl : x = y := Name.text_injective (String.ofList_injective (Value.str.inj names))
  obtain rfl : t = t' := Items.values_injective (Value.list.inj children)
  rfl

theorem rule_defined : (document.build .empty).2.definition? ⟨0⟩ = some (built node) := rfl

/-- A document is read back from each of its written forms, and every text that is accepted is a
written form of the document that is its value. -/
theorem documents_read_back :
    (∀ (d : Document) (text : List Char), d.children.Apart → d.Written text →
      document.Reads text d.value) ∧
    (∀ (text : List Char) (n : Nat) (v : Value) (r : Cursor),
      ((document.build .empty).1.parse n (.start text) (document.build .empty).2).1 =
        .ok (.success v r) →
      r.rest = [] ∧ ∃ d : Document, v = d.value ∧ d.children.Apart ∧ d.Written text) ∧
    Function.Injective Document.value := by
  refine ⟨fun d text apart w => Grammar.reads_of_takes ?_, fun text n v r outcome => ?_,
    Document.value_injective⟩
  · exact takes_complete (takes_rule rule_defined (Document.taken rule_defined w apart))
  · obtain ⟨text', whole, ended, d, rfl, apart, w, -⟩ :=
      Explains.parse (fun m => (explains_rule rule_defined true m).complete) outcome
    rw [ended, List.append_nil] at whole
    obtain rfl : text = text' := whole
    exact ⟨ended, d, rfl, apart, w⟩

/-- An element with a short one, a text and an empty one in it. -/
theorem nested_document_reads_back :
    let name (x : Char) (h : CharSet.isLetter x = true) : TagName := ⟨x, [], h, nofun⟩
    let x : Content := ⟨['x', ' '], nofun, by simp [Spelled], misses_cons (by decide)⟩
    let d : Document := ⟨name 'a' rfl, .element (name 'b' rfl) .done
      (.content x (.element (name 'c' rfl) .done .done))⟩
    let text := " <a><b/>\nx <c></c>\n</a>".toList
    document.Reads text d.value ∧
      ∃ d' : Document, d.value = d'.value ∧ d'.children.Apart ∧ d'.Written text := by
  intro name x d text
  have line : Blank ['\n'] := by simp only [Spelled, List.mem_singleton, forall_eq]; decide
  have space : Blank [' '] := by simp only [Spelled, List.mem_singleton, forall_eq]; decide
  have none : Blank [] := nofun
  have empty : Written (.element (name 'c' rfl) .done .done) _ := .full _ none .done line .done
  have items : Written d.children _ := .short _ line (.content x empty)
  have written : d.Written text := ⟨[' '], _, space, .full _ none items none .done, rfl⟩
  have reads := documents_read_back.1 d text ⟨trivial, rfl, trivial, trivial⟩ written
  obtain ⟨n, settled⟩ := reads
  exact ⟨⟨n, settled⟩, (documents_read_back.2.1 text n d.value _ (settled n (Nat.le_refl n))).2⟩

end Descent.Markup
