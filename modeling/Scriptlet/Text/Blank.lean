import Scriptlet.Text.CodeTable

/-!
# Blank characters

The characters with the property `White_Space`, and the end of a line without them.
-/

namespace Scriptlet.Text

/-- The code points with the property `White_Space`. -/
def whiteSpace : CodeTable :=
  [(0x9, 0xd), (0x20, 0x20), (0x85, 0x85), (0xa0, 0xa0), (0x1680, 0x1680), (0x2000, 0x200a),
   (0x2028, 0x2029), (0x202f, 0x202f), (0x205f, 0x205f), (0x3000, 0x3000)]

/-- Whether a character is white space. -/
def isWhiteSpace (c : Char) : Bool := whiteSpace.contains c.toNat

/-- A text without the white space at its end. -/
def trimEnd (cs : List Char) : List Char := (cs.reverse.dropWhile isWhiteSpace).reverse

end Scriptlet.Text
