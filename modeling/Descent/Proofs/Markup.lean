import Descent.Proofs.Reading

/-!
Documents of nested tags: the closing tag of an element is chosen by the name in its opening tag.
Main statement: a document is read back from every form that it can be written in.
-/

namespace Descent.Markup

/-- What a name may go on with behind its first letter. -/
def isNameRest (x : Char) : Bool := CharSet.isLetterOrDigit x || x == '-' || x == '_'

abbrev TagName := Name isNameRest

/-- Text between tags. It begins with no whitespace, since a tag takes the whitespace behind it. -/
@[ext]
structure Content where
  text : List Char
  proper : text ≠ []
  spelled : Spelled (· != '<') text
  solid : Solid text

/-- The items of an element in order. -/
inductive Items
  | done
  | content (x : Content) (more : Items)
  | element (name : TagName) (children more : Items)

namespace Items

def isContent : Items → Bool
  | content _ _ => true
  | _ => false

/-- No two texts stand next to each other. -/
def Apart : Items → Prop
  | done => True
  | content _ more => more.isContent = false ∧ more.Apart
  | element _ children more => children.Apart ∧ more.Apart

def values : Items → List Value
  | done => []
  | content x more => .tagged "Content" (.str (.ofList x.text)) :: more.values
  | element name children more =>
    .tagged "Node" (.pair (.str (.ofList name.text)) (.list children.values)) :: more.values

end Items

/-- One element with all that is in it. -/
structure Document where
  name : TagName
  children : Items

def Document.value (d : Document) : Value :=
  .pair (.str (.ofList d.name.text)) (.list d.children.values)

/-- A tag, with the whitespace behind it. -/
def tagged (inner blank : List Char) : List Char := ['<'] ++ inner ++ ['>'] ++ blank

/-- Ways to write items. Whitespace may stand behind every tag, and an element without children has
one tag or two. -/
inductive Written : Items → List Char → Prop
  | done : Written .done []
  | content (x : Content) {more : Items} {text : List Char} (after : Written more text) :
    Written (.content x more) (x.text ++ text)
  | short (name : TagName) {more : Items} {blank text : List Char} (behind : Blank blank)
    (after : Written more text) :
    Written (.element name .done more) (tagged (name.text ++ ['/']) blank ++ text)
  | full (name : TagName) {children more : Items} {blank inner blank' text : List Char}
    (behind : Blank blank) (within : Written children inner) (behind' : Blank blank')
    (after : Written more text) :
    Written (.element name children more)
      (tagged name.text blank ++ (inner ++ tagged (['/'] ++ name.text) blank') ++ text)

/-- A document may also have whitespace before it. -/
def Document.Written (d : Document) (text : List Char) : Prop :=
  ∃ lead body, Blank lead ∧ Markup.Written (.element d.name d.children .done) body ∧
    text = lead ++ body

section Grammar

def blanks : Node := .apply .many (.satisfy .whitespace)

def tag (p : Node) : Node :=
  .binary .thenIgnore (.binary .thenIgnore
    (.binary .ignoreThen (.binary .ignoreThen blanks (.char '<')) p) (.char '>')) blanks

def name : Node :=
  .identifier (.binary .or (.binary .or (.satisfy .letterOrDigit) (.char '-')) (.char '_'))

def content : Node :=
  .map (.tagged "Content") (.apply .text (.apply .atLeastOnce (.satisfy ⟨(· != '<'), "content"⟩)))

def item : Node := .binary .or (.map (.tagged "Node") (.rule "node")) content

/-- The closing tag of the element that the variable names. -/
def closing : Node :=
  tag (.binary .ignoreThen (.char '/') (.filter (.equalsVariable "name") name))

def short : Node :=
  .apply (.map fun v => .pair v (.list [])) (tag (.binary .thenIgnore name (.char '/')))

/-- What follows an opening tag. -/
def body : Chooser :=
  .bindTo "name" (.map (.withVariable "name") (.binary .thenIgnore (.apply .many item) closing))

def node : Node := .binary .or (.apply .attempt short) (.bind (tag name) body)

def document : Grammar := ⟨[], .apply .complete (.recursive "node" node)⟩

end Grammar

/-! Tags -/

def scope : Scope := ⟨[("node", ⟨⟨0⟩, false⟩)], []⟩

/-- A grammar built where the name of the recursive rule is known. -/
def built (p : Node) : Term := (p.build scope .empty).1

/-- The same where a variable stands for the name of the element. -/
def builtIn (name : Value) (p : Node) : Term := (p.build (scope.bindValue "name" name) .empty).1

/-- The built form of `body`. -/
def bodyOf (name : Value) : Term :=
  builtIn name (.map (.withVariable "name") (.binary .thenIgnore (.apply .many item) closing))

/-- The built form of `tag`. -/
def enclosed (p : Term) : Term :=
  .binary .thenIgnore (.binary .thenIgnore
    (.binary .ignoreThen (.binary .ignoreThen (built blanks) (built (.char '<'))) p)
    (built (.char '>'))) (built blanks)

open Term

variable {s : Store} {xs ys zs lead blank : List Char} {v : Value} {p : Term}

theorem takes_blanks (blank : Blank xs) (solid : Solid ys) :
    Takes s (built blanks).bare xs ys (.word xs) :=
  takes_word (spells_satisfy .whitespace) blank solid

theorem takes_tag (before : Blank lead) (inner : Takes s p.bare xs (['>'] ++ (blank ++ ys)) v)
    (behind : Blank blank) (solid : Solid ys) :
    Takes s (enclosed p).bare (lead ++ tagged xs blank) ys v := by
  have start : Takes s (built (.binary .ignoreThen blanks (.char '<'))).bare (lead ++ ['<'])
      (xs ++ (['>'] ++ (blank ++ ys))) (.char '<') :=
    takes_ignoreThen (takes_blanks before (misses_cons (by decide))) (takes_char '<')
  have text : lead ++ tagged xs blank = lead ++ ['<'] ++ xs ++ ['>'] ++ blank := by
    simp only [tagged, List.append_assoc]
  rw [text]
  exact takes_thenIgnore (takes_thenIgnore (takes_ignoreThen start inner) (takes_char '>'))
    (takes_blanks behind solid)

/-- A tag with other contents is none of the kind. -/
theorem fails_tag (before : Blank lead) (inner : Fails s p.bare xs) :
    Fails s (enclosed p).bare (lead ++ (['<'] ++ xs)) := by
  have start : Takes s (built (.binary .ignoreThen blanks (.char '<'))).bare (lead ++ ['<']) xs
      (.char '<') :=
    takes_ignoreThen (takes_blanks before (misses_cons (by decide))) (takes_char '<')
  rw [← List.append_assoc]
  exact fails_thenIgnore (fails_thenIgnore (ignoreThen_fails start inner))

/-- No tag begins where neither whitespace nor an angle bracket stands. -/
theorem fails_no_tag (solid : Solid xs) (missed : Misses (· == '<') xs) :
    Fails s (enclosed p).bare xs := by
  have nothing := ignoreThen_fails (q := built (.char '<')) (takes_blanks (s := s) blank_nil solid)
    (refuses_satisfy missed).fails
  exact fails_thenIgnore (fails_thenIgnore (fails_ignoreThen nothing))

theorem takes_name (x : TagName) (missed : Misses isNameRest ys) :
    Takes s (built name).bare x.text ys (.str (.ofList x.text)) :=
  takes_identifier (spells_or (spells_or (spells_satisfy .letterOrDigit)
    (spells_satisfy (.exactly '-'))) (spells_satisfy (.exactly '_'))) x missed

theorem takes_short (x : TagName) (before : Blank lead) (behind : Blank blank) (solid : Solid ys) :
    Takes s (built short).bare (lead ++ tagged (x.text ++ ['/']) blank) ys
      (.pair (.str (.ofList x.text)) (.list [])) := by
  have slash : Takes s (built (.char '/')).bare ['/'] (['>'] ++ (blank ++ ys)) _ := takes_char '/'
  have inner := takes_thenIgnore (takes_name x (misses_cons (by decide))) slash
  exact takes_map _ (takes_tag before inner behind solid)

/-- An opening tag is no tag of an element without children. -/
theorem fails_short (x : TagName) (before : Blank lead) :
    Fails s (built short).bare (lead ++ (['<'] ++ (x.text ++ '>' :: ys))) := by
  have none : Fails s (built (.char '/')).bare ('>' :: ys) :=
    (refuses_satisfy (misses_cons (by decide))).fails
  exact fails_map (fails_tag before
    (thenIgnore_fails (takes_name x (misses_cons (by decide))) none))

/-- The closing tag is that of the element. -/
theorem takes_closing (x : TagName) (behind : Blank blank) (solid : Solid ys) :
    Takes s (builtIn (.str (.ofList x.text)) closing).bare (tagged (['/'] ++ x.text) blank) ys
      (.str (.ofList x.text)) := by
  have same : Test.run (scope.bindValue "name" (.str (.ofList x.text))).vars
      (.equalsVariable "name") (.str (.ofList x.text)) = true := decide_eq_true rfl
  have name : Takes s (builtIn (.str (.ofList x.text)) name).bare x.text
      (['>'] ++ (blank ++ ys)) (.str (.ofList x.text)) := takes_name x (misses_cons (by decide))
  exact takes_tag blank_nil (takes_ignoreThen (takes_char '/') (takes_filter same name)) behind
    solid

/-! Elements -/

theorem fails_node (short : Fails s (built short).bare xs)
    (opening : Fails s (built (tag name)).bare xs) : Fails s (built node).bare xs :=
  fails_or (fails_attempt short) (fails_bind opening)

/-- No element begins with a closing tag. -/
theorem fails_node_at_end : Fails s (built node).bare ('<' :: '/' :: ys) := by
  have none : Fails s (built name).bare ('/' :: ys) :=
    (refuses_identifier (misses_cons (by decide))).fails
  exact fails_node (fails_map (fails_tag blank_nil (fails_thenIgnore none)))
    (fails_tag blank_nil none)

theorem takes_node_short (x : TagName) (before : Blank lead) (behind : Blank blank)
    (solid : Solid ys) :
    Takes s (built node).bare (lead ++ tagged (x.text ++ ['/']) blank) ys
      (.pair (.str (.ofList x.text)) (.list [])) := by
  refine takes_or (takes_attempt (takes_short x before behind solid)) ?_
  exact List.append_ne_nil_of_right_ne_nil lead nofun

/-- An element with two tags, whose items are taken up to the closing one. -/
theorem takes_node_full (x : TagName) {vs : List Value} {inner blank' : List Char}
    (before : Blank lead) (behind : Blank blank)
    (start : Solid (inner ++ tagged (['/'] ++ x.text) blank' ++ ys))
    (within : TakesAll s (built item).bare vs inner (tagged (['/'] ++ x.text) blank' ++ ys))
    (behind' : Blank blank') (solid : Solid ys) :
    Takes s (built node).bare
      (lead ++ tagged x.text blank ++ (inner ++ tagged (['/'] ++ x.text) blank')) ys
      (.pair (.str (.ofList x.text)) (.list vs)) := by
  have other : Fails s (built short).bare
      (lead ++ tagged x.text blank ++ (inner ++ tagged (['/'] ++ x.text) blank') ++ ys) := by
    have failed : Fails s (built short).bare (lead ++ (['<'] ++ (x.text ++ '>' :: (blank ++
        (inner ++ tagged (['/'] ++ x.text) blank' ++ ys))))) := fails_short x before
    simpa only [tagged, List.append_assoc, List.cons_append, List.nil_append] using failed
  have opening : Takes s (built (tag name)).bare (lead ++ tagged x.text blank)
      (inner ++ tagged (['/'] ++ x.text) blank' ++ ys) (.str (.ofList x.text)) :=
    takes_tag before (takes_name x (misses_cons (by decide))) behind start
  have items : Takes s (builtIn (.str (.ofList x.text)) (.apply .many item)).bare inner
      (tagged (['/'] ++ x.text) blank' ++ ys) (.list vs) := takes_many within
  have rest : Takes s (bodyOf (.str (.ofList x.text))).bare
      (inner ++ tagged (['/'] ++ x.text) blank') ys (.pair (.str (.ofList x.text)) (.list vs)) :=
    takes_map (fun children => .pair (.str (.ofList x.text)) children)
      (takes_thenIgnore items (takes_closing x behind' solid))
  have inert (v : Value) (t : Store) : body.build scope v t = (bodyOf v, t) := rfl
  exact takes_other (fails_attempt other) (takes_bind inert opening rest)

/-! Items -/

theorem Written.begins {t : Items} {text : List Char} (w : Markup.Written t text)
    (no : t.isContent = false) : text = [] ∨ ∃ zs, text = '<' :: zs := by
  cases w with
  | done => exact .inl rfl
  | content x after => cases no
  | _ => exact .inr ⟨_, rfl⟩

theorem Written.solid {t : Items} {text : List Char} (w : Markup.Written t text)
    (solid : Solid ys) : Solid (text ++ ys) := by
  cases w with
  | done => exact solid
  | content x after =>
    obtain ⟨chars, proper, -, first⟩ := x
    cases chars with
    | nil => exact absurd rfl proper
    | cons c rest => exact misses_cons (first c rfl)
  | _ => exact misses_cons (by decide)

theorem spells_content :
    Spells s (built (.satisfy ⟨(· != '<'), "content"⟩)).bare .char (· != '<') :=
  spells_satisfy _

theorem takes_content (x : Content) (missed : Misses (· != '<') ys) :
    Takes s (built content).bare x.text ys (.tagged "Content" (.str (.ofList x.text))) :=
  takes_map _ (takes_text (takes_proper_word spells_content x.proper x.spelled missed))

theorem Content.begins (x : Content) : Misses (· == '<') (x.text ++ ys) := by
  obtain ⟨chars, proper, spelled, -⟩ := x
  cases chars with
  | nil => exact absurd rfl proper
  | cons c rest =>
    have other : (c != '<') = true := spelled c (List.mem_cons_self ..)
    exact misses_cons ((Bool.not_eq_true' _).mp other)

/-- The items of an element are taken one after the other, up to the closing tag. -/
theorem takes_items (defined : s.definition? ⟨0⟩ = some (built node)) {t : Items}
    {text : List Char} (w : Markup.Written t text) (apart : t.Apart) :
    TakesAll s (built item).bare t.values text ('<' :: '/' :: ys) := by
  have close (zs : List Char) : Solid ('<' :: '/' :: zs) := misses_cons (by decide)
  induction w generalizing ys with
  | done =>
    have missed : Misses (· != '<') ('<' :: '/' :: ys) := misses_cons (by decide)
    have text := refuses_proper_word (s := s) spells_content missed
    exact .nil (fails_or (fails_map (fails_rule defined fails_node_at_end))
      (fails_map (refuses_text text).fails))
  | @content x more text after ih =>
    have solid : Solid (x.text ++ (text ++ '<' :: '/' :: ys)) := by
      have whole := (Written.content x after).solid (close ys)
      rw [List.append_assoc] at whole
      exact whole
    have element := fails_rule (h := ⟨⟨0⟩, false⟩) defined
      (fails_node (fails_map (fails_no_tag solid x.begins)) (fails_no_tag solid x.begins))
    have missed : Misses (· != '<') (text ++ '<' :: '/' :: ys) := by
      obtain rfl | ⟨zs, rfl⟩ := after.begins apart.1 <;> exact misses_cons (by decide)
    exact .cons (takes_other (fails_map element) (takes_content x missed)) (ih apart.2)
  | @short name more blank text behind after ih =>
    have element := takes_node_short (s := s) name blank_nil behind
      (after.solid (close ys))
    exact .cons (takes_or (takes_map _ (takes_rule defined element)) nofun) (ih apart.2)
  | @full name children more blank inner blank' text behind within behind' after ih ih' =>
    have solid :
        Solid (inner ++ tagged (['/'] ++ name.text) blank' ++ (text ++ '<' :: '/' :: ys)) := by
      rw [List.append_assoc]
      exact within.solid (close _)
    have element := takes_node_full (s := s) name blank_nil behind solid (ih apart.1)
      behind' (after.solid (close ys))
    exact .cons (takes_or (takes_map _ (takes_rule defined element)) nofun) (ih' apart.2)

theorem Document.taken (defined : s.definition? ⟨0⟩ = some (built node)) {d : Document}
    {text : List Char} (w : d.Written text) (apart : d.children.Apart) :
    Takes s (built node).bare text [] d.value := by
  obtain ⟨name, children⟩ := d
  obtain ⟨lead, body, before, w, rfl⟩ := w
  cases w with
  | short _ behind after =>
    cases after
    rw [List.append_nil]
    exact takes_node_short name before behind misses_nil
  | full _ behind within behind' after =>
    cases after
    rw [List.append_nil, ← List.append_assoc]
    refine takes_node_full name before behind ?_ (takes_items defined within apart) behind'
      misses_nil
    rw [List.append_nil]
    exact within.solid (misses_cons (by decide))

end Descent.Markup
