import Descent.Proofs.Counters
import Descent.Proofs.Forward
import Descent.Report
import Mathlib.Data.Nat.SuccPred
import Mathlib.Data.Prod.Lex
import Mathlib.Order.Interval.Set.OrdConnected

/-!
Places in a text by line and column. A cursor cuts the line that it stands in, and everything that
its location says is read off from the lines on either side of the cut.
Main statement: positions and places of a text correspond one to one and in order, and a report of
a failure names the one place that the failure is at.
-/

namespace Descent

namespace Text

/-- Splitting at line ends is the splitting of lists at a separator. -/
theorem lines_eq_splitOn (text : List Char) : lines text = text.splitOn '\n' := by
  induction text with
  | nil => rfl
  | cons c rest ih =>
    obtain ⟨line, more, split⟩ := List.exists_cons_of_ne_nil (lines_ne_nil rest)
    rw [lines, List.splitOn_cons_eq_if_modifyHead, ← ih, split]
    by_cases h : c = '\n' <;> simp [h]

theorem newline_notMem_of_mem_lines {text line : List Char} (h : line ∈ lines text) :
    '\n' ∉ line := by
  induction text generalizing line with
  | nil => simp_all [lines]
  | cons c rest ih =>
    obtain ⟨first, more, split⟩ := List.exists_cons_of_ne_nil (lines_ne_nil rest)
    rw [split] at ih
    by_cases ends : c = '\n'
    · rw [lines, if_pos ends, split, List.mem_cons] at h
      rcases h with rfl | h
      · exact List.not_mem_nil
      · exact ih h
    · simp only [lines, if_neg ends, split, List.mem_cons] at h
      rcases h with rfl | h
      · have kept := ih List.mem_cons_self
        simpa [Ne.symm ends] using kept
      · exact ih (List.mem_cons_of_mem first h)

/-- The lines of a text are the one way to join it from lines that have no line end in them. -/
theorem lines_eq_iff {text : List Char} {ls : List (List Char)} : lines text = ls ↔
    ls ≠ [] ∧ (∀ line ∈ ls, '\n' ∉ line) ∧ ['\n'].intercalate ls = text := by
  constructor
  · rintro rfl
    exact ⟨lines_ne_nil text, fun line => newline_notMem_of_mem_lines, intercalate_lines text⟩
  · rintro ⟨some, bare, rfl⟩
    rw [lines_eq_splitOn, List.splitOn_intercalate '\n' bare some]

theorem length_lines (text : List Char) : (lines text).length = text.count '\n' + 1 := by
  induction text with
  | nil => rfl
  | cons c rest ih =>
    obtain ⟨line, more, split⟩ := List.exists_cons_of_ne_nil (lines_ne_nil rest)
    rw [split] at ih
    by_cases h : c = '\n' <;> simp_all [lines]

/-- Every line counts with the line end behind it, and the text has one line end less. -/
theorem sum_length_lines (text : List Char) :
    ((lines text).map (·.length + 1)).sum = text.length + 1 := by
  induction text with
  | nil => rfl
  | cons c rest ih =>
    obtain ⟨line, more, split⟩ := List.exists_cons_of_ne_nil (lines_ne_nil rest)
    rw [split] at ih
    by_cases h : c = '\n' <;> simp [lines, h, split] at ih ⊢ <;> omega

theorem intercalate_cut (above below : List (List Char)) (left right : List Char) :
    ['\n'].intercalate (above ++ (left ++ right) :: below) =
      ['\n'].intercalate (above ++ [left]) ++ ['\n'].intercalate (right :: below) := by
  induction above with
  | nil => cases below <;> simp
  | cons line above ih =>
    rw [List.cons_append, List.cons_append, List.intercalate_cons_of_ne_nil (by simp),
      List.intercalate_cons_of_ne_nil (by simp), ih]
    simp

/-- Where two texts meet, the last line of the first and the first line of the second become one. -/
theorem lines_append {xs ys left right : List Char} {above below : List (List Char)}
    (hx : lines xs = above ++ [left]) (hy : lines ys = right :: below) :
    lines (xs ++ ys) = above ++ (left ++ right) :: below := by
  obtain ⟨-, bareX, rfl⟩ := lines_eq_iff.mp hx
  obtain ⟨-, bareY, rfl⟩ := lines_eq_iff.mp hy
  refine lines_eq_iff.mpr ⟨by simp, fun line mem => ?_, intercalate_cut above below left right⟩
  rcases List.mem_append.mp mem with mem | mem
  · exact bareX line (List.mem_append_left _ mem)
  · rcases List.mem_cons.mp mem with rfl | mem
    · rw [List.mem_append, not_or]
      exact ⟨bareX left (by simp), bareY right (by simp)⟩
    · exact bareY line (List.mem_cons_of_mem _ mem)

/-- A text can be cut in each of its lines, between any two characters. -/
theorem exists_cut {text left right : List Char} {above below : List (List Char)}
    (h : lines text = above ++ (left ++ right) :: below) :
    ∃ xs ys, xs ++ ys = text ∧ lines xs = above ++ [left] ∧ lines ys = right :: below := by
  obtain ⟨-, bare, joined⟩ := lines_eq_iff.mp h
  have cut : '\n' ∉ left ∧ '\n' ∉ right := by simpa using bare (left ++ right) (by simp)
  refine ⟨_, _, (intercalate_cut above below left right).symm.trans joined,
    lines_eq_iff.mpr ⟨by simp, fun line mem => ?_, rfl⟩,
    lines_eq_iff.mpr ⟨by simp, fun line mem => ?_, rfl⟩⟩
  · rcases List.mem_append.mp mem with mem | mem
    · exact bare line (List.mem_append_left _ mem)
    · rw [List.mem_singleton.mp mem]
      exact cut.1
  · rcases List.mem_cons.mp mem with rfl | mem
    · exact cut.2
    · exact bare line (by simp [mem])

theorem lines_eq_takeWhile_cons (text : List Char) :
    ∃ below, lines text = text.takeWhile (· != '\n') :: below := by
  induction text with
  | nil => exact ⟨[], rfl⟩
  | cons c rest ih =>
    obtain ⟨below, split⟩ := ih
    by_cases h : c = '\n'
    · exact ⟨lines rest, by simp [lines, h]⟩
    · exact ⟨below, by simp [lines, h, split]⟩

/-- The last line of a text is found from its end. -/
theorem lines_reverse_eq_append (before : List Char) :
    ∃ above, lines before.reverse = above ++ [(before.takeWhile (· != '\n')).reverse] := by
  -- What was passed is kept with its last character first, so a further one ends the text.
  induction before with
  | nil => exact ⟨[], rfl⟩
  | cons c before ih =>
    obtain ⟨above, split⟩ := ih
    rw [List.reverse_cons]
    by_cases h : c = '\n'
    · have single : lines [c] = [] :: [[]] := by simp [lines, h]
      have joined := lines_append split single
      exact ⟨above ++ [(before.takeWhile (· != '\n')).reverse], by simpa [h] using joined⟩
    · have single : lines [c] = [c] :: [] := by simp [lines, h]
      exact ⟨above, by simpa [h] using lines_append split single⟩

end Text

/-- Line and column, in the order in which a text is read. -/
def Location.place (l : Location) : Nat ×ₗ Nat := toLex (l.line, l.column)

namespace Text

/-- The places of a text: its lines are counted from one, and so are the columns of a line, which
has a place before each of its characters and one behind the last. -/
def places (text : List Char) : Set (Nat ×ₗ Nat) :=
  {place | ∃ line, 1 ≤ (ofLex place).1 ∧ (lines text)[(ofLex place).1 - 1]? = some line ∧
    1 ≤ (ofLex place).2 ∧ (ofLex place).2 ≤ line.length + 1}

/-- The place of the cursor at a position. -/
def placeAt (text : List Char) (position : Nat) : Nat ×ₗ Nat :=
  ((Cursor.start text).skip position).location.place

/-- Number of characters before a place: all of the lines above with their ends, and the part of
the line before the column. -/
def positionOf (text : List Char) (place : Nat ×ₗ Nat) : Nat :=
  (((lines text).take ((ofLex place).1 - 1)).map (·.length + 1)).sum + ((ofLex place).2 - 1)

end Text

namespace Cursor

variable {c d : Cursor} {above below : List (List Char)} {left right : List Char} {x : Char}

/-- The cursor stands behind `left` and before `right` in a line of its text, with the lines
`above` and `below` around it. -/
structure StandsIn (c : Cursor) (above : List (List Char)) (left right : List Char)
    (below : List (List Char)) : Prop where
  passed : Text.lines c.before.reverse = above ++ [left]
  unread : Text.lines c.rest = right :: below

theorem exists_standsIn (c : Cursor) :
    ∃ above left right below, c.StandsIn above left right below := by
  obtain ⟨above, passed⟩ := Text.lines_reverse_eq_append c.before
  obtain ⟨below, unread⟩ := Text.lines_eq_takeWhile_cons c.rest
  exact ⟨above, _, _, below, passed, unread⟩

/-- Every line of a text can be cut by a cursor anywhere. -/
theorem exists_of_lines {text : List Char}
    (h : Text.lines text = above ++ (left ++ right) :: below) :
    ∃ c : Cursor, c.source = text ∧ c.StandsIn above left right below := by
  obtain ⟨xs, ys, whole, passed, unread⟩ := Text.exists_cut h
  exact ⟨⟨xs.reverse, ys, 0⟩, by simpa [source_eq_append] using whole, by simpa using passed,
    unread⟩

namespace StandsIn

theorem lines_source (h : c.StandsIn above left right below) :
    Text.lines c.source = above ++ (left ++ right) :: below := by
  rw [source_eq_append]
  exact Text.lines_append h.passed h.unread

theorem left_eq (h : c.StandsIn above left right below) :
    left = (c.before.takeWhile (· != '\n')).reverse := by
  obtain ⟨above', passed⟩ := Text.lines_reverse_eq_append c.before
  exact List.singleton_inj.mp (List.append_inj' (h.passed.symm.trans passed) rfl).2

theorem right_eq (h : c.StandsIn above left right below) :
    right = c.rest.takeWhile (· != '\n') := by
  obtain ⟨below', unread⟩ := Text.lines_eq_takeWhile_cons c.rest
  exact (List.cons.inj (h.unread.symm.trans unread)).1

theorem line_eq (h : c.StandsIn above left right below) :
    c.location.line = above.length + 1 := by
  have count := Text.length_lines c.before.reverse
  rw [h.passed, List.count_reverse, List.length_append, List.length_singleton] at count
  exact count.symm

theorem column_eq (h : c.StandsIn above left right below) :
    c.location.column = left.length + 1 := by
  rw [h.left_eq, List.length_reverse]
  rfl

theorem position_eq (h : c.StandsIn above left right below) :
    c.position = (above.map (·.length + 1)).sum + left.length := by
  have total := Text.sum_length_lines c.before.reverse
  rw [h.passed, List.length_reverse] at total
  simp only [List.map_append, List.sum_append, List.map_singleton, List.sum_singleton] at total
  rw [position]
  omega

end StandsIn

theorem place_mem_places (c : Cursor) : c.location.place ∈ Text.places c.source := by
  obtain ⟨above, left, right, below, h⟩ := c.exists_standsIn
  refine ⟨left ++ right, ?_, ?_, ?_, ?_⟩
  · simp [Location.place, h.line_eq]
  · simp [Location.place, h.line_eq, h.lines_source]
  · simp [Location.place, h.column_eq]
  · simp [Location.place, h.column_eq]

/-- The position of a cursor is recovered from its place. -/
theorem positionOf_place (c : Cursor) : Text.positionOf c.source c.location.place = c.position := by
  obtain ⟨above, left, right, below, h⟩ := c.exists_standsIn
  simp [Text.positionOf, Location.place, h.line_eq, h.column_eq, h.lines_source, h.position_eq]

theorem exists_of_mem_places {text : List Char} {place : Nat ×ₗ Nat}
    (h : place ∈ Text.places text) :
    ∃ c : Cursor, c.source = text ∧ c.location.place = place := by
  obtain ⟨line, first, found, start, inside⟩ := h
  obtain ⟨index, split⟩ := List.getElem?_eq_some_iff.mp found
  have cut : Text.lines text = (Text.lines text).take ((ofLex place).1 - 1) ++
      (line.take ((ofLex place).2 - 1) ++ line.drop ((ofLex place).2 - 1)) ::
        (Text.lines text).drop ((ofLex place).1 - 1 + 1) := by
    rw [List.take_append_drop, ← split, ← List.drop_eq_getElem_cons index, List.take_append_drop]
  obtain ⟨c, same, stands⟩ := exists_of_lines cut
  refine ⟨c, same, ?_⟩
  have lineNumber : c.location.line = (ofLex place).1 := by
    rw [stands.line_eq, List.length_take]
    omega
  have columnNumber : c.location.column = (ofLex place).2 := by
    rw [stands.column_eq, List.length_take]
    omega
  rw [Location.place, lineNumber, columnNumber]
  rfl

/-- A step goes on in the line, or to the beginning of the next one. -/
theorem location_of_next? (h : c.next? = some (x, d)) :
    (x = '\n' ∧ d.location = ⟨c.position + 1, c.location.line + 1, 1⟩) ∨
    (x ≠ '\n' ∧ d.location = ⟨c.position + 1, c.location.line, c.location.column + 1⟩) := by
  obtain ⟨before, rest⟩ := c
  cases rest with
  | nil => cases h
  | cons y rest =>
    cases h
    by_cases ends : x = '\n'
    · exact .inl ⟨ends, by simp [location, position, ends]⟩
    · exact .inr ⟨ends, by simp [location, position, ends]⟩

theorem place_lt_of_next? (h : c.next? = some (x, d)) : c.location.place < d.location.place := by
  rw [Location.place, Location.place, Prod.Lex.toLex_lt_toLex]
  rcases location_of_next? h with ⟨-, moved⟩ | ⟨-, moved⟩ <;> simp [moved]

theorem position_of_next?_none (h : c.next? = none) : c.position = c.source.length := by
  simp [source_eq_append, position, rest_of_next?_none h]

theorem position_skip (n : Nat) (c : Cursor) :
    (c.skip n).position = min (c.position + n) c.source.length := by
  induction n generalizing c with
  | zero => simp [skip, c.position_le]
  | succ n ih =>
    rw [skip]
    cases step : c.next? with
    | none =>
      have ended := position_of_next?_none step
      simp only
      omega
    | some found =>
      simp only [ih, position_of_next? step, source_of_next? step]
      omega

/-- Skipping from the start of its text comes to every cursor. -/
theorem skip_start (c : Cursor) : (start c.source).skip c.position = c.onTable 0 := by
  have reaches := Reaches.skip c.position (start c.source)
  have source : ((start c.source).skip c.position).source = c.source := reaches.source
  have arrives : ((start c.source).skip c.position).position = c.position := by
    rw [position_skip, position_start, source_start, Nat.zero_add]
    exact Nat.min_eq_left c.position_le
  rw [← onTable_eq_of_source_of_position source.symm arrives.symm, reaches.table]
  rfl

theorem place_eq_placeAt (c : Cursor) : c.location.place = Text.placeAt c.source c.position := by
  rw [Text.placeAt, skip_start]
  rfl

end Cursor

namespace Text

variable {text : List Char} {n : Nat}

/-- The cursor at a position, and its place. -/
theorem exists_placeAt (h : n ≤ text.length) :
    ∃ c : Cursor, c.source = text ∧ c.position = n ∧ c.location.place = placeAt text n := by
  refine ⟨_, (Cursor.Reaches.skip n (.start text)).1, ?_, rfl⟩
  rw [Cursor.position_skip, Cursor.position_start, Cursor.source_start]
  omega

theorem positionOf_placeAt (h : n ≤ text.length) : positionOf text (placeAt text n) = n := by
  obtain ⟨c, rfl, rfl, place⟩ := exists_placeAt h
  rw [← place, c.positionOf_place]

theorem placeAt_lt_placeAt_succ (h : n + 1 ≤ text.length) :
    placeAt text n < placeAt text (n + 1) := by
  obtain ⟨c, rfl, rfl, place⟩ := exists_placeAt (Nat.le_of_succ_le h)
  cases step : c.next? with
  | none =>
    have ended := Cursor.position_of_next?_none step
    omega
  | some found =>
    have after := found.2.place_eq_placeAt
    rw [Cursor.source_of_next? step, Cursor.position_of_next? step] at after
    rw [← place, ← after]
    exact Cursor.place_lt_of_next? step

theorem placeAt_strictMonoOn (text : List Char) :
    StrictMonoOn (placeAt text) (Set.Iic text.length) :=
  strictMonoOn_of_lt_add_one Set.ordConnected_Iic
    fun _ _ _ inside => placeAt_lt_placeAt_succ inside

theorem placeAt_bijOn (text : List Char) :
    Set.BijOn (placeAt text) (Set.Iic text.length) (places text) := by
  refine ⟨fun n inside => ?_, (placeAt_strictMonoOn text).injOn, fun place inside => ?_⟩
  · obtain ⟨c, rfl, -, place⟩ := exists_placeAt inside
    rw [← place]
    exact c.place_mem_places
  · obtain ⟨c, rfl, rfl⟩ := Cursor.exists_of_mem_places inside
    exact ⟨c.position, c.position_le, c.place_eq_placeAt.symm⟩

end Text

/-- Grammars whose closures do not leave the text. -/
def Fragment.staying (text : List Char) : Fragment := .returning fun c => c.source = text

theorem Term.parse_stays {text : List Char} {t : Term} (inside : t.Within (.staying text))
    {s : Store} (store : s.Within (.staying text)) (n : Nat) {o : Outcome Value}
    (run : (t.parse n (.start text) s).1 = .ok o) : o.cursor.source = text :=
  t.parse_among (fun same step => (Cursor.source_of_next? step).trans same) inside store n rfl run

/-- Cursors of a text stand at its positions, and their locations at its places: each place belongs
to one position, later positions have later places, and the position is counted back from the lines
above and the column. The locations are those that are counted in the bytes before the cursor. If a
grammar that stays in its text fails on it, the report of that names the place of one position
alone, and the failure is at this position. -/
theorem locations_name_places :
    (∀ text : List Char,
      Set.BijOn (Text.placeAt text) (Set.Iic text.length) (Text.places text) ∧
      StrictMonoOn (Text.placeAt text) (Set.Iic text.length) ∧
      (∀ n ≤ text.length, Text.positionOf text (Text.placeAt text n) = n) ∧
      ∀ c : Cursor, c.source = text → c.location.place = Text.placeAt text c.position ∧
        c.location.position = c.position ∧ c.counters.location = c.location) ∧
    (∀ (text : List Char) (t : Term) (s : Store), t.Within (.staying text) →
      s.Within (.staying text) → ∀ n f, (t.parse n (.start text) s).1 = .ok (.failure f) →
        Outcome.result (t.parse n (.start text) s).1 = .error (.mismatch f.report) ∧
        f.failedAt.source = text ∧ f.report.location = f.failedAt.location ∧
        ∀ k ≤ text.length, Text.placeAt text k = f.report.location.place ↔ k = f.position) ∧
    ∀ (text : List Char) (g : Grammar), g.Within (.staying text) →
      (g.build .empty).1.Within (.staying text) ∧ (g.build .empty).2.Within (.staying text) := by
  refine ⟨fun text => ⟨Text.placeAt_bijOn text, Text.placeAt_strictMonoOn text,
    fun n inside => Text.positionOf_placeAt inside, ?_⟩, ?_, fun text g => Grammar.build_within⟩
  · rintro c rfl
    exact ⟨c.place_eq_placeAt, rfl, c.location_counters⟩
  · intro text t s inside store n f run
    have same : f.failedAt.source = text := Term.parse_stays inside store n run
    have place : f.report.location.place = Text.placeAt text f.position := by
      rw [← same]
      exact f.failedAt.place_eq_placeAt
    have reached : f.position ≤ text.length := by
      rw [← same]
      exact f.failedAt.position_le
    refine ⟨by rw [run, Outcome.result], same, rfl, fun k inText => ?_⟩
    rw [place]
    exact (Text.placeAt_bijOn text).injOn.eq_iff inText reached

/-- Behind two line ends and a letter of two bytes, in the third line. -/
theorem failure_in_third_line_named :
    let text := ['a', 'b', '\n', '\n', 'ç', 'd']
    let g : Grammar := ⟨[], .binary .ignoreThen (.custom (Custom.take 5)) (.char 'x')⟩
    let t := (g.build .empty).1
    let s := (g.build .empty).2
    t.Within (.staying text) ∧ s.Within (.staying text) ∧
      ∃ f, (t.parse 3 (.start text) s).1 = .ok (.failure f) ∧ f.failedAt.source = text ∧
        f.report.location = ⟨5, 3, 2⟩ ∧
        Outcome.result (t.parse 3 (.start text) s).1 = .error (.mismatch f.report) ∧
        ∀ k ≤ 6, Text.placeAt text k = toLex (3, 2) ↔ k = 5 := by
  intro text g t s
  have takes : Fragment.atom (.staying text) (.custom (Custom.take 5)) := by
    intro f eq c same
    cases eq
    exact (Custom.take_forward 5 c).1.trans same
  have inside : g.Within (.staying text) :=
    ⟨nofun, trivial, fun _ => takes, fun _ f eq => nomatch eq⟩
  obtain ⟨-, named, built⟩ := locations_name_places
  obtain ⟨term, store⟩ := built text g inside
  obtain ⟨f, run, place⟩ : ∃ f, (t.parse 3 (.start text) s).1 = .ok (.failure f) ∧
      f.report.location = ⟨5, 3, 2⟩ := ⟨_, rfl, by decide⟩
  obtain ⟨reported, same, -, only⟩ := named text t s term store 3 f run
  have position : f.position = 5 := congrArg Location.position place
  refine ⟨term, store, f, run, same, place, reported, fun k inText => ?_⟩
  have unique := only k inText
  rwa [place, position] at unique

end Descent
