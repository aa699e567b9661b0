import Descent.Proofs.Reading

/-!
Templates: text with directives behind number signs, where the body of an iteration is a template.
Main statement: a template is read back from the form it is written in.
-/

namespace Descent.Template

/-- Text that stands for itself. -/
@[ext]
structure Text where
  text : List Char
  proper : text ≠ []
  spelled : Spelled (· != '#') text

abbrev Identifier := Name CharSet.isLetterOrDigit

/-- The nodes of a template in order. -/
inductive Nodes
  | done
  | literal (text : Text) (more : Nodes)
  /-- A number sign that stands for itself. -/
  | sign (more : Nodes)
  | member (name : Identifier) (more : Nodes)
  | iteration (name : Identifier) (body more : Nodes)

namespace Nodes

/-- The form that a template is written in. -/
def written : Nodes → List Char
  | done => []
  | literal x more => x.text ++ more.written
  | sign more => ['#'] ++ ['#'] ++ more.written
  | member name more => ['#'] ++ (['{'] ++ (name.text ++ ['}'])) ++ more.written
  | iteration name body more =>
    ['#'] ++ ((['{'] ++ (['|'] ++ name.text ++ ['}'])) ++ body.written ++ ['#', '.']) ++
      more.written

def isLiteral : Nodes → Bool
  | literal _ _ => true
  | _ => false

/-- No two texts stand next to each other. -/
def Apart : Nodes → Prop
  | done => True
  | literal _ more => more.isLiteral = false ∧ more.Apart
  | sign more => more.Apart
  | member _ more => more.Apart
  | iteration _ body more => body.Apart ∧ more.Apart

def values : Nodes → List Value
  | done => []
  | literal x more => .tagged "Literal" (.str (.ofList x.text)) :: more.values
  | sign more => .tagged "Literal" (.str "#") :: more.values
  | member name more => .tagged "Member" (.str (.ofList name.text)) :: more.values
  | iteration name body more =>
    .tagged "Iteration" (.pair (.str (.ofList name.text)) (.list body.values)) :: more.values

end Nodes

section Grammar

def name : Node := .identifier (.satisfy .letterOrDigit)

/-- In braces or without them. -/
def delimited (p : Node) : Node :=
  .binary .xor (.between (.char '{') p (.apply (.named "closing brace") (.char '}'))) p

def escaped : Node :=
  .apply (.named "escaped '#' character")
    (.apply (.giving (.tagged "Literal" (.str "#"))) (.char '#'))

def symbol : Node :=
  .apply (.named "replacement directive") (delimited (.map (.tagged "Member") name))

def iteration : Node :=
  .apply (.named "iteration directive") (.map (.tagged "Iteration") (.binary .thenIgnore
    (.binary .both (delimited (.binary .ignoreThen (.char '|') name)) (.rule "aggregate"))
    (.literal "#.")))

def directive : Node :=
  .binary .ignoreThen (.char '#') (.binary .or (.binary .or escaped iteration) symbol)

def literal : Node :=
  .map (.tagged "Literal")
    (.apply .text (.apply .atLeastOnce (.binary .except (.satisfy .any) (.char '#'))))

def element : Node := .binary .xor literal directive

def template : Grammar := ⟨[], .apply .complete (.recursive "aggregate" (.apply .many element))⟩

end Grammar

/-! Directives -/

/-- A grammar built where the name of the recursive rule is known. -/
def built (p : Node) : Term := (p.build ⟨[("aggregate", ⟨⟨0⟩, false⟩)], []⟩ .empty).1

/-- The built form of `delimited`. -/
def enclosed (p : Term) : Term :=
  .binary .xor (.between (built (.char '{')) p
    (built (.apply (.named "closing brace") (.char '}')))) p

open Term

variable {s : Store} {xs ys zs : List Char} {v : Value} {p : Term}

theorem takes_name (x : Identifier) (missed : Misses CharSet.isLetterOrDigit ys) :
    Takes s (built name).bare x.text ys (.str (.ofList x.text)) :=
  takes_identifier (spells_satisfy .letterOrDigit) x missed

theorem takes_enclosed (inner : Takes s p.bare xs (['}'] ++ ys) v) :
    Takes s (enclosed p).bare (['{'] ++ (xs ++ ['}'])) ys v := by
  have close : Takes s (built (.apply (.named "closing brace") (.char '}'))).bare ['}'] ys _ :=
    takes_named (takes_char '}')
  exact takes_binary ((takes_between (takes_char '{') inner close).xor nofun)

/-- Neither with braces nor without them. -/
theorem fails_enclosed (bare : Fails s p.bare xs)
    (inner : ∀ ys, xs = '{' :: ys → Fails s p.bare ys) : Fails s (enclosed p).bare xs := by
  refine fails_binary (.xor ?_ bare)
  by_cases brace : Misses (· == '{') xs
  · exact (refuses_between (refuses_satisfy brace)).fails
  · obtain ⟨ys, rfl⟩ : ∃ ys, xs = '{' :: ys := by
      match xs, brace with
      | [], brace => exact absurd nofun brace
      | x :: rest, brace =>
        refine ⟨rest, ?_⟩
        rw [Decidable.by_contra fun other => brace (misses_cons (beq_false_of_ne other))]
    have brace : Takes s (built (.char '{')).bare ['{'] ys (.char '{') := takes_char '{'
    exact fails_between brace (inner ys rfl)

theorem fails_escaped (missed : Misses (· == '#') xs) : Fails s (built escaped).bare xs :=
  fails_named (refuses_giving (refuses_satisfy missed)).fails

/-- Only a bar begins an iteration, in braces or without them. -/
theorem fails_iteration (bare : Misses (· == '|') xs)
    (inner : ∀ ys, xs = '{' :: ys → Misses (· == '|') ys) : Fails s (built iteration).bare xs := by
  have begins {xs : List Char} (missed : Misses (· == '|') xs) :
      Fails s (built (.binary .ignoreThen (.char '|') name)).bare xs :=
    (refuses_ignoreThen (refuses_satisfy missed)).fails
  have head := fails_enclosed (begins bare) fun ys eq => begins (inner ys eq)
  exact fails_named (fails_map (fails_thenIgnore (fails_both head)))

/-- A letter begins a replacement, in braces or without them. -/
theorem fails_symbol (bare : Misses CharSet.isLetter xs) (brace : Misses (· == '{') xs) :
    Fails s (built symbol).bare xs := by
  refine fails_named (fails_enclosed (fails_map (refuses_identifier bare).fails) ?_)
  rintro ys rfl
  exact absurd (brace '{' rfl) (by decide)

theorem takes_escaped : Takes s (built escaped).bare ['#'] ys (.tagged "Literal" (.str "#")) :=
  takes_named (takes_giving (takes_char '#'))

theorem takes_symbol (x : Identifier) :
    Takes s (built symbol).bare (['{'] ++ (x.text ++ ['}'])) ys
      (.tagged "Member" (.str (.ofList x.text))) :=
  takes_named (takes_enclosed (takes_map _ (takes_name x (misses_cons (by decide)))))

theorem takes_iteration (x : Identifier) {v : Value}
    (body : Takes s (built (.rule "aggregate")).bare xs (['#', '.'] ++ ys) v) :
    Takes s (built iteration).bare ((['{'] ++ (['|'] ++ x.text ++ ['}'])) ++ xs ++ ['#', '.']) ys
      (.tagged "Iteration" (.pair (.str (.ofList x.text)) v)) := by
  have head : Takes s (built (.binary .ignoreThen (.char '|') name)).bare (['|'] ++ x.text)
      (['}'] ++ (xs ++ (['#', '.'] ++ ys))) (.str (.ofList x.text)) :=
    takes_ignoreThen (takes_char '|') (takes_name x (misses_cons (by decide)))
  have both := takes_both (takes_enclosed head) body
  exact takes_named (takes_map _ (takes_thenIgnore both (takes_literal (by decide))))

theorem letter_ne_bar {x : Char} (letter : CharSet.isLetter x = true) : x ≠ '|' := by
  rintro rfl
  exact absurd letter (by decide)

/-! Nodes -/

theorem spells_plain :
    Spells s (built (.binary .except (.satisfy .any) (.char '#'))).bare .char (· != '#') :=
  spells_except (spells_satisfy .any) (spells_satisfy (.exactly '#'))

theorem takes_text_node (x : Text) (missed : Misses (· != '#') ys) :
    Takes s (built literal).bare x.text ys (.tagged "Literal" (.str (.ofList x.text))) :=
  takes_map _ (takes_text (takes_proper_word spells_plain x.proper x.spelled missed))

theorem refuses_text_node (missed : Misses (· != '#') xs) : Refuses s (built literal).bare xs :=
  refuses_map (refuses_text (refuses_proper_word spells_plain missed))

/-- Behind a number sign stands a directive. -/
theorem takes_directive {v : Value}
    (inner : Takes s (built (.binary .or (.binary .or escaped iteration) symbol)).bare xs ys v) :
    Takes s (built element).bare (['#'] ++ xs) ys v :=
  takes_binary (.xor_other (refuses_text_node (misses_cons (by decide)))
    (takes_ignoreThen (takes_char '#') inner))

/-- Where a template ends: at the end of the text or at the end of an iteration. -/
def Ends (ys : List Char) : Prop := ys = [] ∨ ∃ zs, ys = '#' :: '.' :: zs

theorem fails_at_end (ends : Ends ys) : Fails s (built element).bare ys := by
  obtain rfl | ⟨zs, rfl⟩ := ends
  · exact fails_binary (.xor (refuses_text_node misses_nil).fails
      (refuses_ignoreThen (refuses_satisfy misses_nil)).fails)
  · have nothing : Fails s (built (.binary .or (.binary .or escaped iteration) symbol)).bare
        ('.' :: zs) := by
      refine fails_or (fails_or (fails_escaped ?_) (fails_iteration ?_ nofun))
        (fails_symbol ?_ ?_) <;> exact misses_cons (by decide)
    have sign : Takes s (built (.char '#')).bare ['#'] ('.' :: zs) (.char '#') := takes_char '#'
    exact fails_binary (.xor (refuses_text_node (misses_cons (by decide))).fails
      (ignoreThen_fails sign nothing))

/-- A text ends where the nodes behind it begin. -/
theorem misses_nodes {t : Nodes} (no : t.isLiteral = false) (ends : Ends ys) :
    Misses (· != '#') (t.written ++ ys) := by
  cases t with
  | done =>
    obtain rfl | ⟨zs, rfl⟩ := ends
    · exact misses_nil
    · exact misses_cons (by decide)
  | literal text more => cases no
  | _ => exact misses_cons (by decide)

/-- The nodes of a template are taken one after the other, up to where the template ends. -/
theorem takes_nodes (defined : s.definition? ⟨0⟩ = some (built (.apply .many element))) {t : Nodes}
    (apart : t.Apart) (ends : Ends ys) :
    TakesAll s (built element).bare t.values t.written ys := by
  induction t generalizing ys with
  | done => exact .nil (fails_at_end ends)
  | literal x more ih =>
    exact .cons (takes_binary (.xor (takes_text_node x (misses_nodes apart.1 ends)) x.proper))
      (ih apart.2 ends)
  | sign more ih =>
    have sign : Takes s (built (.binary .or (.binary .or escaped iteration) symbol)).bare ['#']
        (more.written ++ ys) _ := takes_or (takes_or takes_escaped nofun) nofun
    exact .cons (takes_directive sign) (ih apart ends)
  | member x more ih =>
    refine .cons (takes_directive (takes_other ?_ (takes_symbol x))) (ih apart ends)
    refine fails_or (fails_escaped (misses_cons (by decide)))
      (fails_iteration (misses_cons (by decide)) fun ys eq => ?_)
    rw [← (List.cons.inj eq).2]
    exact misses_cons (beq_false_of_ne (letter_ne_bar x.letter))
  | iteration x body more ihb ihm =>
    have nodes := takes_many (ihb apart.1 (.inr ⟨more.written ++ ys, rfl⟩))
    have both := takes_iteration x (takes_rule defined nodes)
    refine .cons (takes_directive (takes_or ?_ nofun)) (ihm apart.2 ends)
    exact takes_other (fails_escaped (misses_cons (by decide))) both

theorem Text.text_ne_sign (x : Text) : String.ofList x.text ≠ "#" := by
  intro same
  have text : x.text = ['#'] := String.ofList_injective same
  have other := x.spelled '#' (by rw [text]; exact List.mem_singleton_self _)
  exact absurd other (by decide)

/-- The values of the nodes tell templates apart. -/
theorem Nodes.values_injective : Function.Injective Nodes.values := by
  intro t
  induction t with
  | done => intro t' same; cases t' <;> first | rfl | cases same
  | literal x more ih =>
    intro t' same
    cases t' with
    | literal y more' =>
      simp only [values, List.cons.injEq, Value.tagged.injEq, Value.str.injEq, true_and] at same
      rw [Text.ext (String.ofList_injective same.1), ih same.2]
    | sign more' =>
      simp only [values, List.cons.injEq, Value.tagged.injEq, Value.str.injEq, true_and] at same
      exact absurd same.1 x.text_ne_sign
    | _ => simp [values] at same
  | sign more ih =>
    intro t' same
    cases t' with
    | literal y more' =>
      simp only [values, List.cons.injEq, Value.tagged.injEq, Value.str.injEq, true_and] at same
      exact absurd same.1.symm y.text_ne_sign
    | sign more' =>
      simp only [values, List.cons.injEq, true_and] at same
      rw [ih same]
    | _ => simp [values] at same
  | member x more ih =>
    intro t' same
    cases t' with
    | member y more' =>
      simp only [values, List.cons.injEq, Value.tagged.injEq, Value.str.injEq, true_and] at same
      rw [Name.text_injective (String.ofList_injective same.1), ih same.2]
    | _ => simp [values] at same
  | iteration x body more ihb ihm =>
    intro t' same
    cases t' with
    | iteration y body' more' =>
      simp only [values, List.cons.injEq, Value.tagged.injEq, Value.pair.injEq, Value.str.injEq,
        Value.list.injEq, true_and] at same
      rw [Name.text_injective (String.ofList_injective same.1.1), ihb same.1.2, ihm same.2]
    | _ => simp [values] at same

/-- A template without texts next to each other is read back from its written form: as the list of
the values of its nodes, which tell it from every other template. -/
theorem templates_read_back :
    (∀ t : Nodes, t.Apart → template.Reads t.written (.list t.values)) ∧
    Function.Injective Nodes.values := by
  refine ⟨fun t apart => Grammar.reads_of_takes ?_, Nodes.values_injective⟩
  have defined : (template.build .empty).2.definition? ⟨0⟩ =
    some (built (.apply .many element)) := rfl
  have nodes := takes_many (takes_nodes defined apart (.inl rfl))
  exact takes_complete (takes_rule defined nodes)

/-- An iteration in an iteration, with a text, a member and a number sign in it. -/
theorem nested_iteration_reads_back :
    let name (x : Char) (h : CharSet.isLetter x = true) : Identifier := ⟨x, [], h, nofun⟩
    let text (x : Char) (h : (x != '#') = true) : Text := ⟨[x], nofun, by simpa [Spelled] using h⟩
    let t : Nodes := .literal (text ' ' rfl) (.iteration (name 'r' rfl)
      (.iteration (name 'c' rfl) (.member (name 'c' rfl) (.literal (text ',' rfl) (.sign .done)))
        (.literal (text ';' rfl) .done)) (.sign (.literal (text '!' rfl) .done)))
    template.Reads " #{|r}#{|c}#{c},###.;#.##!".toList (.list t.values) := by
  intro name text t
  exact templates_read_back.1 t ⟨rfl, ⟨⟨rfl, trivial⟩, rfl, trivial⟩, rfl, trivial⟩

end Descent.Template
