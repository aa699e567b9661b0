import Descent.Location

/-!
Spans: the part of a text between two cursors. A span is data and takes part in no parse, so it
keeps the places of its cursors and not their tables.
-/

namespace Descent

/-- The span from the cursor `start` to the position `stop`, which is `stopOffset` bytes into the
text that the second cursor belongs to. -/
structure Span where
  start : Cursor
  stop : Nat
  stopOffset : Nat
deriving DecidableEq

namespace Span

def between (c d : Cursor) : Span := ⟨c.onTable 0, d.position, d.offset⟩

/-- Length in characters; a span that runs backward has none. -/
def length (s : Span) : Nat := s.stop - s.start.position

def isEmpty (s : Span) : Bool := s.start.position == s.stop

/-- The text covered, or nothing if the byte range is no part of the text. -/
def text (s : Span) : List Char := s.start.textUpTo s.stopOffset

def location (s : Span) : Location := s.start.location

theorem length_between (c d : Cursor) : (between c d).length = d.position - c.position := rfl

theorem text_between (c d : Cursor) : (between c d).text = c.textTo d := rfl

end Span
end Descent
