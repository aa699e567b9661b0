import Descent.Text.Basic

/-!
Cursors: places between the characters of a text. A cursor is a split of its text, so its
position, its byte offset and its unread text can never disagree.
Main statements: a step keeps the text and adds one to the position, the text together with
the position determines the cursor, and the text between two cursors is what the later one has
passed since the earlier.
-/

namespace Descent

/-- A text split at one place; `before` holds the characters already passed, the last one first.
Cursors that come of one start share a table of the rules being parsed; tables are told apart by
numbers, counted from the table that a parse begins with. -/
structure Cursor where
  before : List Char
  rest : List Char
  table : Nat
deriving DecidableEq

/-- A step that the end of the text does not allow. -/
structure AtEnd where
  position : Nat
deriving DecidableEq

namespace AtEnd

def message (e : AtEnd) : String :=
  "the cursor is already at the end of the source (position " ++ toString e.position ++ ")"

end AtEnd

namespace Cursor

/-- The cursor at the first character of a text. -/
def start (text : List Char) : Cursor := ⟨[], text, 0⟩

/-- The same place over another table. -/
def onTable (c : Cursor) (table : Nat) : Cursor := { c with table }

/-- The cursor in a numbering that has `k` more tables before its own. -/
def raise (k : Nat) (c : Cursor) : Cursor := c.onTable (c.table + k)

def source (c : Cursor) : List Char := c.before.reverseAux c.rest

/-- Number of characters passed. -/
def position (c : Cursor) : Nat := c.before.length

/-- Number of bytes passed, in UTF-8. -/
def offset (c : Cursor) : Nat := Text.byteSize c.before

def atEnd (c : Cursor) : Bool := c.rest.isEmpty

/-- The current character and the cursor after it. -/
def next? : Cursor → Option (Char × Cursor)
  | ⟨_, [], _⟩ => none
  | ⟨before, x :: rest, table⟩ => some (x, ⟨x :: before, rest, table⟩)

def current (c : Cursor) : Except AtEnd Char :=
  match c.next? with
  | some (x, _) => .ok x
  | none => .error ⟨c.position⟩

def advance (c : Cursor) : Except AtEnd Cursor :=
  match c.next? with
  | some (_, d) => .ok d
  | none => .error ⟨c.position⟩

/-- The cursor `n` steps on, all of which have to be possible. -/
def forward : Nat → Cursor → Except AtEnd Cursor
  | 0, c => .ok c
  | n + 1, c => match c.advance with
    | .ok d => forward n d
    | .error e => .error e

/-- The cursor `n` steps on, or the end of the text if that is nearer. -/
def skip : Nat → Cursor → Cursor
  | 0, c => c
  | n + 1, c => match c.next? with
    | some (_, d) => skip n d
    | none => c

/-- Two cursors agree when they stand at the same position of the same text, over whatever
tables. -/
def sameAs (c d : Cursor) : Bool := c.position == d.position && c.source == d.source

/-- What a hash of the cursor covers: the size of its text and its position. -/
def hashKey (c : Cursor) : Nat × Nat := (Text.byteSize c.source, c.position)

/-- The text from `c` up to a byte offset. There is none if the offset lies before `c`, past the end
of the text or inside a character. -/
def textUpTo (c : Cursor) (offset : Nat) : List Char :=
  (Text.takeBytes? c.rest (offset - c.offset)).getD []

/-- The text from `c` up to `d`, which may be a cursor of another text. -/
def textTo (c d : Cursor) : List Char := c.textUpTo d.offset

@[simp] theorem source_start (text : List Char) : (start text).source = text := rfl

@[simp] theorem position_start (text : List Char) : (start text).position = 0 := rfl

@[simp] theorem source_onTable (c : Cursor) (table : Nat) : (c.onTable table).source = c.source :=
  rfl

@[simp] theorem position_onTable (c : Cursor) (table : Nat) :
    (c.onTable table).position = c.position := rfl

@[simp] theorem offset_onTable (c : Cursor) (table : Nat) : (c.onTable table).offset = c.offset :=
  rfl

theorem source_eq_append (c : Cursor) : c.source = c.before.reverse ++ c.rest := by
  simp [source, List.reverseAux_eq]

theorem source_of_next? {c d : Cursor} {x : Char} (h : c.next? = some (x, d)) :
    d.source = c.source := by
  obtain ⟨before, rest, table⟩ := c
  cases rest with
  | nil => cases h
  | cons y rest => cases h; rfl

theorem position_of_next? {c d : Cursor} {x : Char} (h : c.next? = some (x, d)) :
    d.position = c.position + 1 := by
  obtain ⟨before, rest, table⟩ := c
  cases rest with
  | nil => cases h
  | cons y rest => cases h; rfl

theorem table_of_next? {c d : Cursor} {x : Char} (h : c.next? = some (x, d)) :
    d.table = c.table := by
  obtain ⟨before, rest, table⟩ := c
  cases rest with
  | nil => cases h
  | cons y rest => cases h; rfl

theorem rest_of_next? {c d : Cursor} {x : Char} (h : c.next? = some (x, d)) :
    c.rest = x :: d.rest := by
  obtain ⟨before, rest, table⟩ := c
  cases rest with
  | nil => cases h
  | cons y rest => cases h; rfl

theorem rest_of_next?_none {c : Cursor} (h : c.next? = none) : c.rest = [] := by
  obtain ⟨before, rest, table⟩ := c
  cases rest with
  | nil => rfl
  | cons x rest => cases h

theorem position_le (c : Cursor) : c.position ≤ c.source.length := by
  simp [source_eq_append, position]

theorem raise_raise (j k : Nat) (c : Cursor) : (c.raise j).raise k = c.raise (j + k) :=
  congrArg c.onTable (Nat.add_assoc ..)

theorem next?_raise (k : Nat) (c : Cursor) :
    (c.raise k).next? = c.next?.map fun (x, d) => (x, d.raise k) := by
  obtain ⟨before, rest, table⟩ := c
  cases rest <;> rfl

theorem forward_raise (k n : Nat) (c : Cursor) :
    (c.raise k).forward n = (c.forward n).map (raise k) := by
  induction n generalizing c with
  | zero => rfl
  | succ n ih =>
    rw [forward, forward, advance, advance, next?_raise]
    cases c.next? with
    | none => rfl
    | some step => exact ih step.2

theorem skip_raise (k n : Nat) (c : Cursor) : (c.raise k).skip n = (c.skip n).raise k := by
  induction n generalizing c with
  | zero => rfl
  | succ n ih =>
    rw [skip, skip, next?_raise]
    cases c.next? with
    | none => rfl
    | some step => exact ih step.2

/-- The text and the position determine the place. -/
theorem onTable_eq_of_source_of_position {c d : Cursor} (hs : c.source = d.source)
    (hp : c.position = d.position) : c.onTable d.table = d := by
  obtain ⟨b, r, t⟩ := c
  obtain ⟨b', r', t'⟩ := d
  rw [source_eq_append, source_eq_append] at hs
  have parts := List.append_inj hs (by simpa [position] using hp)
  simpa [onTable] using parts

/-- Of two cursors over one text, the text between them is cut from the rest of the earlier one. -/
theorem exists_between {c d : Cursor} (hs : c.source = d.source)
    (hp : c.position ≤ d.position) :
    ∃ middle, c.rest = middle ++ d.rest ∧ d.before = middle.reverse ++ c.before := by
  rw [source_eq_append, source_eq_append] at hs
  rcases List.append_eq_append_iff.mp hs with ⟨m, hd, hc⟩ | ⟨m, hc, hd⟩
  · exact ⟨m, hc, by simpa using congrArg List.reverse hd⟩
  · have none : m = [] := by
      have := congrArg List.length hc
      simp only [List.length_reverse, List.length_append] at this
      exact List.length_eq_zero_iff.mp (by simp only [position] at hp; omega)
    subst none
    exact ⟨[], by simpa using hd.symm, by simpa using (congrArg List.reverse hc).symm⟩

theorem rest_eq_textTo_append {c d : Cursor} (hs : c.source = d.source)
    (hp : c.position ≤ d.position) : c.rest = c.textTo d ++ d.rest := by
  obtain ⟨middle, hc, hd⟩ := exists_between hs hp
  have size : d.offset - c.offset = Text.byteSize middle := by
    simp [offset, hd]
  rw [textTo, textUpTo, size, hc, Text.takeBytes?_append, Option.getD_some]

theorem sameAs_iff {c d : Cursor} : c.sameAs d = true ↔ c.onTable d.table = d := by
  constructor
  · intro h
    simp only [sameAs, Bool.and_eq_true, beq_iff_eq] at h
    exact onTable_eq_of_source_of_position h.2 h.1
  · intro same
    rw [← same]
    simp [sameAs]

end Cursor
end Descent
