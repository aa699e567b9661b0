import Descent.Proofs.Places
import Mathlib.Data.List.DropRight
import Mathlib.Data.List.Forall2
import Mathlib.Data.List.Intervals

/-!
Excerpts of a text around a cursor.
Main statement: an excerpt has the lines around the cursor in order, each behind its number, and
under the marked one a pointer whose caret stands below the character that the cursor stands before.
-/

namespace Descent

namespace Text

/-- What is left of the line when the carriage returns at its end are taken away. -/
structure Trims (line part : List Char) : Prop where
  run : ∃ k, line = part ++ List.replicate k '\r'
  last : part.getLast? ≠ some '\r'

theorem trimReturns_eq_rdropWhile (line : List Char) :
    trimReturns line = line.rdropWhile (· = '\r') := rfl

theorem trims_trimReturns (line : List Char) : Trims line (trimReturns line) := by
  rw [trimReturns_eq_rdropWhile]
  constructor
  · have returns : ∀ x ∈ line.rtakeWhile (· = '\r'), x = '\r' :=
      fun x mem => by simpa using List.mem_rtakeWhile_imp mem
    refine ⟨(line.rtakeWhile (· = '\r')).length, ?_⟩
    rw [← List.eq_replicate_of_mem returns, List.rdropWhile_append_rtakeWhile]
  · intro ends
    have some : line.rdropWhile (· = '\r') ≠ [] := by
      rintro none
      simp [none] at ends
    have last := List.rdropWhile_last_not (· = '\r') line some
    rw [List.getLast?_eq_some_getLast some, Option.some.injEq] at ends
    exact last (decide_eq_true ends)

theorem trimReturns_eq_nil_iff {line : List Char} :
    trimReturns line = [] ↔ ∀ x ∈ line, x = '\r' := by
  rw [trimReturns_eq_rdropWhile, List.rdropWhile_eq_nil_iff]
  simp only [decide_eq_true_eq]

theorem trimReturns_prefix (line : List Char) : trimReturns line <+: line :=
  List.rdropWhile_prefix (· = '\r') line

/-- Carriage returns are taken from a second part first, and from the first part only when nothing
else is left of the second. -/
theorem trimReturns_append (left right : List Char) : trimReturns (left ++ right) =
    if trimReturns right = [] then trimReturns left else left ++ trimReturns right := by
  simp only [trimReturns, List.reverse_append, List.dropWhile_append, List.isEmpty_iff,
    List.reverse_eq_nil_iff]
  split <;> simp

theorem byteSize_eq_length {text : List Char} (h : ∀ c ∈ text, c.utf8Size = 1) :
    byteSize text = text.length := by
  induction text with
  | nil => rfl
  | cons c rest ih =>
    rw [byteSize, h c List.mem_cons_self, ih fun d mem => h d (List.mem_cons_of_mem c mem),
      List.length_cons, Nat.add_comm]

end Text

/-- The cursor stands in the run of carriage returns that its line ends with. -/
def Cursor.AtReturns (c : Cursor) : Prop :=
  ∃ n, c.rest.takeWhile (· != '\n') = List.replicate (n + 1) '\r'

namespace Excerpt

/-- The row shows the line with a number, without the carriage returns at its end, behind its
gutter. -/
def Shows (text : List Char) (marked : Bool) (number : Nat) (row : List Char) : Prop :=
  ∃ line part, 1 ≤ number ∧ (Text.lines text)[number - 1]? = some line ∧ Text.Trims line part ∧
    row = gutter marked number ++ part

/-- What begins the row of the marked line, and no other row. -/
def arrow : List Char := "  > ".toList

/-- How an excerpt around a cursor is laid out: the rows of up to two lines above, the marked row of
the cursor's own line with the pointer under it, and the rows of up to two lines below. -/
structure Frames (c : Cursor) (above : List (List Char)) (marked pointer : List Char)
    (below : List (List Char)) : Prop where
  before : List.Forall₂ (Shows c.source false)
    (List.Ico (max 1 (c.location.line - 2)) c.location.line) above
  line : Shows c.source true c.location.line marked
  caret : pointer = List.replicate ((gutter true c.location.line).length + c.location.column - 1)
    ' ' ++ "^--- here".toList
  after : List.Forall₂ (Shows c.source false)
    (List.Ico (c.location.line + 1)
      (min (Text.lines c.source).length (c.location.line + 2) + 1)) below
  marks : arrow <+: marked
  marked_alone : ∀ other ∈ above ++ pointer :: below, ¬ arrow <+: other
  pointer_alone : ∀ other ∈ above ++ marked :: below, ∀ n,
    other ≠ List.replicate n ' ' ++ "^--- here".toList

/-- The row for a line of a text. -/
def row (text : List Char) (marked : Bool) (number : Nat) : List Char :=
  gutter marked number ++ Text.trimReturns ((Text.lines text)[number - 1]?.getD [])

theorem shows_row {text : List Char} {number : Nat} (marked : Bool) (first : 1 ≤ number)
    (last : number ≤ (Text.lines text).length) :
    Shows text marked number (row text marked number) := by
  have inside : number - 1 < (Text.lines text).length := by omega
  refine ⟨_, _, first, List.getElem?_eq_getElem inside, Text.trims_trimReturns _, ?_⟩
  rw [row, List.getElem?_eq_getElem inside, Option.getD_some]

theorem forall₂_shows_row {text : List Char} {first stop : Nat} (start : 1 ≤ first)
    (inside : stop ≤ (Text.lines text).length + 1) :
    List.Forall₂ (Shows text false) (List.Ico first stop)
      ((List.Ico first stop).map (row text false)) := by
  rw [List.forall₂_map_right_iff, List.forall₂_same]
  intro n mem
  have between := List.Ico.mem.mp mem
  exact shows_row false (by omega) (by omega)

theorem mem_gutter {marked : Bool} {number : Nat} {x : Char} (h : x ∈ gutter marked number) :
    x = ' ' ∨ x = '>' ∨ x = '|' ∨ x.isDigit = true := by
  simp only [gutter, List.mem_append] at h
  rcases h with (mem | mem) | mem
  · cases marked <;> simp at mem <;> tauto
  · exact .inr (.inr (.inr (Nat.isDigit_of_mem_toDigits (by decide) (by decide) mem)))
  · simp at mem
    tauto

theorem newline_notMem_gutter (marked : Bool) (number : Nat) : '\n' ∉ gutter marked number := by
  intro mem
  rcases mem_gutter mem with h | h | h | h <;> revert h <;> decide

/-- A gutter has as many bytes as characters. -/
theorem byteSize_gutter (marked : Bool) (number : Nat) :
    Text.byteSize (gutter marked number) = (gutter marked number).length := by
  refine Text.byteSize_eq_length fun c mem => ?_
  rcases mem_gutter mem with rfl | rfl | rfl | digit
  · rfl
  · rfl
  · rfl
  · simp only [Char.isDigit, Bool.and_eq_true, decide_eq_true_eq] at digit
    rw [Char.utf8Size_eq_one_iff]
    exact Nat.le_trans digit.2 (by decide)

theorem newline_notMem_row (text : List Char) (marked : Bool) (number : Nat) :
    '\n' ∉ row text marked number := by
  rw [row, List.mem_append, not_or]
  refine ⟨newline_notMem_gutter marked number, fun mem => ?_⟩
  have inside := (Text.trimReturns_prefix _).subset mem
  cases found : (Text.lines text)[number - 1]? with
  | none => simp [found] at inside
  | some line =>
    rw [found, Option.getD_some] at inside
    exact Text.newline_notMem_of_mem_lines (List.mem_of_getElem? found) inside

theorem arrow_prefix_gutter (number : Nat) : arrow <+: gutter true number :=
  ⟨Nat.toDigits 10 number ++ " | ".toList, rfl⟩

theorem not_arrow_prefix_row (text : List Char) (number : Nat) :
    ¬ arrow <+: row text false number := by
  simp [arrow, row, gutter]

/-- A pointer begins with at least as many blanks as the arrow has characters. -/
theorem not_arrow_prefix_pointer {width column : Nat} (wide : arrow.length ≤ width)
    (first : 1 ≤ column) : ¬ arrow <+: pointer width column := by
  have four : arrow.length = 4 := rfl
  obtain ⟨n, blanks⟩ : ∃ n, width + column - 1 = n + 3 := ⟨width + column - 4, by omega⟩
  simp [arrow, pointer, blanks, List.replicate_succ]

/-- Rows have a bar behind the number, which pointers have nowhere. -/
theorem row_ne_pointer (text : List Char) (marked : Bool) (number n : Nat) :
    row text marked number ≠ List.replicate n ' ' ++ "^--- here".toList := by
  intro same
  have bar : '|' ∈ row text marked number := by simp [row, gutter]
  rw [same, List.mem_append] at bar
  rcases bar with blank | caret
  · exact absurd (List.eq_of_mem_replicate blank) (by decide)
  · exact absurd caret (by decide)

theorem newline_notMem_pointer (width column : Nat) : '\n' ∉ pointer width column := by
  rw [pointer, List.mem_append, not_or]
  exact ⟨fun mem => absurd (List.eq_of_mem_replicate mem) (by decide), by decide⟩

theorem shown_of_ne {location : Location} {text : List Char} {number : Nat}
    (h : number ≠ location.line) :
    shown location number ((Text.lines text)[number - 1]?.getD []) = [row text false number] := by
  simp [shown, row, h]

theorem shown_of_eq (location : Location) (text : List Char) :
    shown location location.line ((Text.lines text)[location.line - 1]?.getD []) =
      [row text true location.line,
        pointer (gutter true location.line).length location.column] := by
  simp [shown, row]

/-- The window goes through those numbers of the remaining lines that are near the marked one. -/
theorem window_eq_flatMap (location : Location) (number : Nat) (ls : List (List Char)) :
    window location number ls =
      (List.Ico (max number (location.line - context))
        (min (number + ls.length) (location.line + context + 1))).flatMap fun n =>
          shown location n (ls[n - number]?.getD []) := by
  -- The end of the interval stays as the number grows, and its beginning goes along with the number
  -- once the window has begun.
  induction ls generalizing number with
  | nil =>
    rw [List.Ico.eq_nil_of_le (by simp)]
    rfl
  | cons line more ih =>
    have later (n : Nat) (h : number + 1 ≤ n) :
        (line :: more)[n - number]? = more[n - (number + 1)]? := by
      rw [show n - number = n - (number + 1) + 1 by omega, List.getElem?_cons_succ]
    have stop : number + 1 + more.length = number + (line :: more).length := by
      rw [List.length_cons]
      omega
    rw [window, ih, stop]
    by_cases early : number < location.line - context
    · have same : max (number + 1) (location.line - context) =
          max number (location.line - context) := by omega
      rw [if_pos early, same]
      refine List.flatMap_congr fun n mem => ?_
      have inside := List.Ico.mem.mp mem
      rw [later n (by omega)]
    · rw [if_neg early]
      by_cases late : location.line + context < number
      · rw [if_pos late, List.Ico.eq_nil_of_le (by omega), List.flatMap_nil]
      · have here : number <
            min (number + (line :: more).length) (location.line + context + 1) := by
          simp only [List.length_cons]
          omega
        have first : max number (location.line - context) = number := by omega
        have second : max (number + 1) (location.line - context) = number + 1 := by omega
        rw [if_neg late, first, second, List.Ico.eq_cons here, List.flatMap_cons, Nat.sub_self,
          List.getElem?_cons_zero, Option.getD_some]
        refine congrArg _ (List.flatMap_congr fun n mem => ?_)
        rw [later n (List.Ico.mem.mp mem).1]

end Excerpt

namespace Cursor

open Excerpt

variable (c : Cursor)

/-- The rows of up to two lines above the cursor's own. -/
def rowsAbove : List (List Char) :=
  (List.Ico (max 1 (c.location.line - 2)) c.location.line).map (row c.source false)

def markedRow : List Char := row c.source true c.location.line

def pointerRow : List Char :=
  pointer (gutter true c.location.line).length c.location.column

/-- The rows of up to two lines below the cursor's own. -/
def rowsBelow : List (List Char) :=
  (List.Ico (c.location.line + 1)
    (min (Text.lines c.source).length (c.location.line + 2) + 1)).map (row c.source false)

theorem line_in_text : 1 ≤ c.location.line ∧ c.location.line ≤ (Text.lines c.source).length := by
  obtain ⟨above, left, right, below, h⟩ := c.exists_standsIn
  rw [h.line_eq, h.lines_source]
  simp

theorem excerptLines_eq :
    c.excerptLines = c.rowsAbove ++ c.markedRow :: c.pointerRow :: c.rowsBelow := by
  obtain ⟨first, last⟩ := c.line_in_text
  have alone (n : Nat) (h : n ≠ c.location.line) : Excerpt.shown c.location n
      ((Text.lines c.source)[n - 1]?.getD []) = [row c.source false n] := shown_of_ne h
  have stop : min (1 + (Text.lines c.source).length) (c.location.line + context + 1) =
      min (Text.lines c.source).length (c.location.line + 2) + 1 := by
    simp only [context]
    omega
  -- The numbers fall into those before the cursor's line, this line, and those after it.
  rw [excerptLines, window_eq_flatMap, stop, context,
    ← List.Ico.append_consecutive (show max 1 (c.location.line - 2) ≤ c.location.line by omega)
      (show c.location.line ≤ _ by omega),
    List.Ico.eq_cons (show c.location.line < _ by omega), List.flatMap_append, List.flatMap_cons,
    shown_of_eq, rowsAbove, rowsBelow, List.map_eq_flatMap, List.map_eq_flatMap]
  refine congrArg₂ _ (List.flatMap_congr fun n mem => alone n ?_)
    (congrArg _ (List.flatMap_congr fun n mem => alone n ?_))
  · exact Nat.ne_of_lt (List.Ico.mem.mp mem).2
  · exact Nat.ne_of_gt (List.Ico.mem.mp mem).1

/-- What holds of every row for a line and of the rows of the cursor's own line holds throughout. -/
theorem forall_mem_rows {P : List Char → Prop} (own : List (List Char))
    (others : ∀ n, P (row c.source false n)) (inner : ∀ shown ∈ own, P shown) :
    ∀ shown ∈ c.rowsAbove ++ (own ++ c.rowsBelow), P shown := by
  intro shown mem
  rcases List.mem_append.mp mem with above | mem
  · obtain ⟨n, -, rfl⟩ := List.mem_map.mp above
    exact others n
  · rcases List.mem_append.mp mem with mem | below
    · exact inner shown mem
    · obtain ⟨n, -, rfl⟩ := List.mem_map.mp below
      exact others n

/-- The rows of an excerpt are its lines. -/
theorem lines_excerpt : Text.lines c.excerpt.toList = c.excerptLines := by
  have bare : ∀ shown ∈ c.excerptLines, '\n' ∉ shown := by
    rw [excerptLines_eq]
    refine c.forall_mem_rows [c.markedRow, c.pointerRow] (newline_notMem_row _ _) ?_
    intro shown mem
    rcases List.mem_pair.mp mem with rfl | rfl
    · exact newline_notMem_row _ _ _
    · exact newline_notMem_pointer _ _
  refine Text.lines_eq_iff.mpr ⟨?_, bare, ?_⟩
  · rw [excerptLines_eq]
    simp
  · rw [excerpt, String.toList_ofList]

theorem frames : Frames c c.rowsAbove c.markedRow c.pointerRow c.rowsBelow := by
  obtain ⟨first, last⟩ := c.line_in_text
  have pointed : ¬ arrow <+: c.pointerRow :=
    not_arrow_prefix_pointer (arrow_prefix_gutter _).length_le (Nat.le_add_left 1 _)
  constructor
  case before => exact forall₂_shows_row (Nat.le_max_left 1 _) (by omega)
  case line => exact shows_row true first last
  case caret => rfl
  case after => exact forall₂_shows_row (Nat.le_add_left 1 _) (by omega)
  case marks => exact (arrow_prefix_gutter _).trans (List.prefix_append _ _)
  case marked_alone =>
    exact c.forall_mem_rows [c.pointerRow] (not_arrow_prefix_row _)
      (List.forall_mem_singleton.mpr pointed)
  case pointer_alone =>
    exact c.forall_mem_rows [c.markedRow] (row_ne_pointer _ _)
      (List.forall_mem_singleton.mpr (row_ne_pointer _ _ _))

variable {c}

/-- Behind the gutter of the marked row, the column is where the line is cut by the cursor. -/
theorem StandsIn.getElem?_markedRow {above below : List (List Char)} {left right : List Char}
    (h : c.StandsIn above left right below) :
    c.markedRow[(gutter true c.location.line).length + c.location.column - 1]? =
      (Text.trimReturns (left ++ right))[left.length]? := by
  have line : (Text.lines c.source)[c.location.line - 1]? = some (left ++ right) := by
    rw [h.line_eq, h.lines_source]
    simp
  rw [markedRow, row, line, Option.getD_some, h.column_eq, ← Nat.add_assoc, Nat.add_sub_cancel,
    List.getElem?_append_right (by omega), Nat.add_sub_cancel_left]

theorem current_of_prefix {x : Char} {part : List Char} (h : x :: part <+: c.rest) :
    c.current = .ok x := by
  obtain ⟨before, rest, table⟩ := c
  obtain ⟨tail, rfl⟩ := h
  rfl

/-- What is kept of the line behind the cursor begins with the current character, unless this is a
line end or one of the carriage returns that are taken away. -/
theorem StandsIn.trimReturns_eq_nil_iff {above below : List (List Char)} {left right : List Char}
    (h : c.StandsIn above left right below) : Text.trimReturns right = [] ↔
      ∀ x, c.current = .ok x → x = '\n' ∨ c.AtReturns := by
  rw [Text.trimReturns_eq_nil_iff, h.right_eq, AtReturns]
  obtain ⟨before, rest, table⟩ := c
  cases rest with
  | nil => simp [current, next?]
  | cons y rest =>
    have current : current ⟨before, y :: rest, table⟩ = .ok y := rfl
    simp only [current, Except.ok.injEq, forall_eq']
    by_cases ends : y = '\n'
    · simp [ends]
    · have returns : (∀ x ∈ y :: rest.takeWhile (· != '\n'), x = '\r') ↔
          ∃ n, y :: rest.takeWhile (· != '\n') = List.replicate (n + 1) '\r' := by
        constructor
        · exact fun all => ⟨_, List.eq_replicate_of_mem all⟩
        · rintro ⟨n, eq⟩ x mem
          rw [eq] at mem
          exact List.eq_of_mem_replicate mem
      simpa [ends] using returns

/-- Below the marked row the caret stands under the current character, if the row has it. -/
theorem getElem?_markedRow_eq_some_iff {x : Char} :
    c.markedRow[(gutter true c.location.line).length + c.location.column - 1]? = some x ↔
      c.current = .ok x ∧ x ≠ '\n' ∧ ¬ c.AtReturns := by
  obtain ⟨above, left, right, below, h⟩ := c.exists_standsIn
  rw [h.getElem?_markedRow, Text.trimReturns_append]
  cases kept : Text.trimReturns right with
  | nil =>
    have lost := h.trimReturns_eq_nil_iff.mp kept x
    have short : left.length ≥ (Text.trimReturns left).length :=
      (Text.trimReturns_prefix left).length_le
    rw [if_pos rfl, List.getElem?_eq_none short]
    tauto
  | cons y part =>
    have unread : y :: part <+: c.rest := by
      rw [← kept]
      exact (Text.trimReturns_prefix right).trans (h.right_eq ▸ List.takeWhile_prefix _)
    have start := current_of_prefix unread
    have solid : y ≠ '\n' ∧ ¬ c.AtReturns := by
      have some := h.trimReturns_eq_nil_iff.not.mp (kept ▸ List.cons_ne_nil y part)
      simpa [start] using some
    rw [if_neg (List.cons_ne_nil y part), List.getElem?_append_right (Nat.le_refl _),
      Nat.sub_self, List.getElem?_cons_zero, start]
    constructor
    · rintro ⟨⟩
      exact ⟨rfl, solid⟩
    · rintro ⟨⟨⟩, -⟩
      rfl

end Cursor

/-- The lines of an excerpt are, in order, those of the text from two above the cursor's line to two
below it, as far as there are such lines, each behind its gutter and without the carriage returns at
its end. The cursor's own line alone has the arrow, and right under it is the only pointer, whose
caret stands one column behind the gutter for each character of the line that the cursor has passed.
Above the caret is the current character, unless that ends the line or was taken away. -/
theorem excerpts_show_window (c : Cursor) : ∃ above marked pointer below,
    Text.lines c.excerpt.toList = above ++ marked :: pointer :: below ∧
    Excerpt.Frames c above marked pointer below ∧
    Text.byteSize (Excerpt.gutter true c.location.line) =
      (Excerpt.gutter true c.location.line).length ∧
    ∀ x, marked[(Excerpt.gutter true c.location.line).length + c.location.column - 1]? = some x ↔
      c.current = .ok x ∧ x ≠ '\n' ∧ ¬ c.AtReturns :=
  ⟨_, _, _, _, c.lines_excerpt.trans c.excerptLines_eq, c.frames, Excerpt.byteSize_gutter true _,
    fun _ => Cursor.getElem?_markedRow_eq_some_iff⟩

/-- The last letter of a line that ends in a carriage return, below an empty line. -/
example : (Cursor.mk ['n', 'e', '\n'] ['d', '\r'] 0).excerpt =
    "    1 | \n  > 2 | end\n          ^--- here" := by decide

end Descent
