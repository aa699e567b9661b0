import Descent.Cursor

/-!
Locations of cursors by line and column, and excerpts of the text around them.
-/

namespace Descent

/-- Line and column count from one, the position from zero, all in characters. -/
structure Location where
  position : Nat
  line : Nat
  column : Nat
deriving DecidableEq

namespace Location

def display (l : Location) : String :=
  "line " ++ toString l.line ++ ", column " ++ toString l.column ++
    " (position " ++ toString l.position ++ ")"

end Location

/-- The line is one more than the line ends passed, and the column one more than the characters
passed since the last of them. -/
def Cursor.location (c : Cursor) : Location where
  position := c.position
  line := c.before.count '\n' + 1
  column := (c.before.takeWhile (· != '\n')).length + 1

namespace Excerpt

/-- Number of lines shown on either side of the marked one. -/
def context : Nat := 2

/-- What stands before the text of a line; only the marked line has an arrow. -/
def gutter (marked : Bool) (number : Nat) : List Char :=
  (if marked then "  > " else "    ").toList ++ Nat.toDigits 10 number ++ " | ".toList

/-- The caret under the character at `column` of a line whose gutter has `width` characters. -/
def pointer (width column : Nat) : List Char :=
  List.replicate (width + column - 1) ' ' ++ "^--- here".toList

def shown (location : Location) (number : Nat) (line : List Char) : List (List Char) :=
  let lead := gutter (number = location.line) number
  let body := lead ++ Text.trimReturns line
  if number = location.line then [body, pointer lead.length location.column] else [body]

/-- The lines of an excerpt: those of the text from `context` lines before the marked one to
`context` lines after it, counted from `number` on. -/
def window (location : Location) : Nat → List (List Char) → List (List Char)
  | _, [] => []
  | number, line :: more =>
    if number < location.line - context then window location (number + 1) more
    else if location.line + context < number then []
    else shown location number line ++ window location (number + 1) more

end Excerpt

def Cursor.excerptLines (c : Cursor) : List (List Char) :=
  Excerpt.window c.location 1 (Text.lines c.source)

def Cursor.excerpt (c : Cursor) : String :=
  .ofList (['\n'].intercalate c.excerptLines)

end Descent
