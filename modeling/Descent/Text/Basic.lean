/-!
Texts as lists of characters: their size in UTF-8, cuts at a byte offset, and lines.
Main statement: a cut at the size of an initial part gives back that part.
-/

namespace Descent.Text

/-- Number of bytes that a text takes in UTF-8. -/
def byteSize : List Char → Nat
  | [] => 0
  | c :: rest => c.utf8Size + byteSize rest

/-- The initial part of exactly `bytes` bytes. There is none if the text is shorter or the cut
falls inside a character. -/
def takeBytes? : List Char → Nat → Option (List Char)
  | _, 0 => some []
  | [], _ + 1 => none
  | c :: rest, bytes + 1 =>
    if c.utf8Size ≤ bytes + 1 then (takeBytes? rest (bytes + 1 - c.utf8Size)).map (c :: ·)
    else none

/-- Lines of a text, without the `'\n'` that ends each line but the last. -/
def lines : List Char → List (List Char)
  | [] => [[]]
  | c :: rest =>
    if c = '\n' then [] :: lines rest
    else match lines rest with
      | [] => [[c]]
      | line :: more => (c :: line) :: more

/-- A text without the carriage returns at its end. -/
def trimReturns (text : List Char) : List Char :=
  (text.reverse.dropWhile (· = '\r')).reverse

@[simp] theorem byteSize_append (xs ys : List Char) :
    byteSize (xs ++ ys) = byteSize xs + byteSize ys := by
  induction xs with
  | nil => simp [byteSize]
  | cons c rest ih => simp [byteSize, ih, Nat.add_assoc]

@[simp] theorem byteSize_reverse (xs : List Char) : byteSize xs.reverse = byteSize xs := by
  induction xs with
  | nil => rfl
  | cons c rest ih => simp [byteSize, ih, Nat.add_comm]

theorem takeBytes?_append (xs ys : List Char) :
    takeBytes? (xs ++ ys) (byteSize xs) = some xs := by
  induction xs with
  | nil => simp [byteSize, takeBytes?]
  | cons c rest ih =>
    have positive := c.utf8Size_pos
    obtain ⟨n, hn⟩ : ∃ n, byteSize (c :: rest) = n + 1 :=
      ⟨c.utf8Size + byteSize rest - 1, by simp only [byteSize]; omega⟩
    have fits : c.utf8Size ≤ n + 1 := by rw [← hn, byteSize]; omega
    have left : n + 1 - c.utf8Size = byteSize rest := by rw [← hn, byteSize]; omega
    rw [hn, List.cons_append, takeBytes?, if_pos fits, left, ih, Option.map_some]

/-- Whatever a cut gives is an initial part of the text. -/
theorem isPrefix_of_takeBytes? {text part : List Char} {bytes : Nat}
    (h : takeBytes? text bytes = some part) : part <+: text := by
  induction text generalizing bytes part with
  | nil => cases bytes <;> simp_all [takeBytes?]
  | cons c rest ih =>
    cases bytes with
    | zero => simp_all [takeBytes?]
    | succ bytes =>
      simp only [takeBytes?] at h
      split at h
      · obtain ⟨tail, found, rfl⟩ := Option.map_eq_some_iff.mp h
        exact List.prefix_cons_inj c |>.mpr (ih found)
      · cases h

theorem lines_ne_nil (text : List Char) : lines text ≠ [] := by
  cases text with
  | nil => simp [lines]
  | cons c rest =>
    simp only [lines]
    split
    · simp
    · split <;> simp

/-- Joining the lines with line ends gives back the text. -/
theorem intercalate_lines (text : List Char) : ['\n'].intercalate (lines text) = text := by
  induction text with
  | nil => rfl
  | cons c rest ih =>
    obtain ⟨line, more, hl⟩ := List.exists_cons_of_ne_nil (lines_ne_nil rest)
    rw [hl] at ih
    by_cases h : c = '\n'
    · simp [lines, h, hl, List.intercalate] at ih ⊢
      exact ih
    · cases more <;> simp [lines, h, hl, List.intercalate] at ih ⊢ <;> exact ih

end Descent.Text
