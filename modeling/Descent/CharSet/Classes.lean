import Descent.CharSet.Alphabetic
import Descent.CharSet.Extender
import Descent.CharSet.Lowercase
import Descent.CharSet.Numeric
import Descent.CharSet.Unprintable
import Descent.CharSet.Uppercase

/-!
The classes of characters that grammars name, and the characters that a quoted text escapes. Tables
follow Unicode 17.
-/

namespace Descent.CharSet

/-- Blanks, line ends and the controls between tab and carriage return: the characters with the
property White_Space. -/
def whitespace : CharSet where
  ranges := [(9, 13), (32, 32), (133, 133), (160, 160), (5760, 5760), (8192, 8202), (8232, 8233),
    (8239, 8239), (8287, 8287), (12288, 12288)]
  ascending := by decide +kernel

/-- Fillers, joiners, variation selectors and format characters, which have no shape: the characters
with the property Default_Ignorable_Code_Point. -/
def ignorable : CharSet where
  ranges := [(173, 173), (847, 847), (1564, 1564), (4447, 4448), (6068, 6069), (6155, 6159),
    (8203, 8207), (8234, 8238), (8288, 8303), (12644, 12644), (65024, 65039), (65279, 65279),
    (65440, 65440), (65520, 65528), (113824, 113827), (119155, 119162), (917504, 921599)]
  ascending := by decide +kernel

def isWhitespace (c : Char) : Bool := whitespace.contains c

/-- The digits `0` to `9` alone; digits of other scripts are numeric. -/
def isDigit (c : Char) : Bool := '0' ≤ c && c ≤ '9'

def isLetter (c : Char) : Bool := alphabetic.contains c

def isNumeric (c : Char) : Bool := numeric.contains c

def isLetterOrDigit (c : Char) : Bool := isLetter c || isNumeric c

def isLower (c : Char) : Bool := lowercase.contains c

def isUpper (c : Char) : Bool := uppercase.contains c

/-- A character with a shape of its own, which can stand in a quoted text as it is. -/
def isPrintable (c : Char) : Bool :=
  !(extender.contains c || ignorable.contains c || unprintable.contains c)

end Descent.CharSet
