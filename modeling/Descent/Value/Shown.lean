import Descent.CharSet.Classes
import Descent.Defect
import Descent.Outcome
import Descent.Value.Basic

/-!
The diagnostic form of values and of what a parse works with: strings are quoted and structures
are written with the names of their fields.
-/

namespace Descent

namespace Text

/-- A code point written as `u` and its hexadecimal digits in braces, in lower case. -/
def escapedCode (c : Char) : List Char :=
  '\\' :: 'u' :: '\x7b' :: Nat.toDigits 16 c.toNat ++ ['\x7d']

/-- Escapes the delimiting quote, the backslash, the common controls, and every character that
has no shape of its own. -/
def escaped (quote c : Char) : List Char :=
  if c = '\x00' then ['\\', '0']
  else if c = '\t' then ['\\', 't']
  else if c = '\r' then ['\\', 'r']
  else if c = '\n' then ['\\', 'n']
  else if c = '\\' ∨ c = quote then ['\\', c]
  else if CharSet.isPrintable c then [c]
  else escapedCode c

def quotedChar (c : Char) : String :=
  .ofList ('\'' :: escaped '\'' c ++ ['\''])

def quoted (s : String) : String :=
  .ofList ('"' :: s.toList.flatMap (escaped '"') ++ ['"'])

end Text

namespace Shown

def list (items : List String) : String := "[" ++ ", ".intercalate items ++ "]"

def set (items : List String) : String := "\x7b" ++ ", ".intercalate items ++ "\x7d"

/-- A structure with its fields; a structure that keeps fields to itself ends in two dots. -/
def record (name : String) (fields : List (String × String)) (hides : Bool) : String :=
  let shown := fields.map fun (field, value) => field ++ ": " ++ value
  name ++ " \x7b " ++ ", ".intercalate (if hides then shown ++ [".."] else shown) ++ " \x7d"

end Shown

def RuleId.shown (rule : RuleId) : String := "RuleId(" ++ toString rule.number ++ ")"

def Cursor.display (c : Cursor) : String := "position " ++ toString c.position

def Cursor.shown (c : Cursor) : String :=
  Shown.record "Cursor"
    [("position", toString c.position), ("offset", toString c.offset),
      ("rest", Text.quoted (.ofList c.rest))] true

def Location.shown (l : Location) : String :=
  Shown.record "SourceLocation"
    [("position", toString l.position), ("line", toString l.line),
      ("column", toString l.column)] false

def Span.shown (s : Span) : String :=
  Shown.record "Span"
    [("source", Text.quoted (.ofList s.start.source)), ("start", toString s.start.position),
      ("end", toString s.stop), ("start_offset", toString s.start.offset),
      ("end_offset", toString s.stopOffset)] false

def Failure.shown (f : Failure) : String :=
  Shown.record "Failure"
    [("failed_at", f.failedAt.shown), ("message", Text.quoted f.message.render),
      ("expectations", Shown.set (f.expectations.toList.map Text.quoted))] false

namespace Value

/-- A part under a name; without a name it stands alone, with the comma of a tuple of one. -/
def shownUnder (name part : String) : String :=
  if name.isEmpty then "(" ++ part ++ ",)" else name ++ "(" ++ part ++ ")"

mutual

def shown : Value → String
  | unit => "()"
  | bool b => if b then "true" else "false"
  | int n => toString n.toInt
  | char c => Text.quotedChar c
  | str s => Text.quoted s
  | list items => Shown.list (shownAll items)
  | pair left right => "(" ++ shown left ++ ", " ++ shown right ++ ")"
  | none => "None"
  | some content => "Some(" ++ shown content ++ ")"
  | tagged name content => shownUnder name (shown content)
  | span s => s.shown

def shownAll : List Value → List String
  | [] => []
  | v :: rest => shown v :: shownAll rest

end

end Value

def Outcome.shown : Outcome Value → String
  | success value remainder =>
    "Success(" ++ Shown.record "Success"
      [("value", value.shown), ("remainder", remainder.shown)] false ++ ")"
  | failure f => "Failure(" ++ f.shown ++ ")"

end Descent
