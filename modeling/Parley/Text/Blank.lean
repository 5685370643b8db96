import Parley.Text.CodePoints

/-!
# Blanks

The characters with the Unicode property White_Space, and removing them from the
ends of a line.
-/

namespace Parley.Text

/-- The code points with the property White_Space. -/
def blankRanges : CodePoints :=
  [(0x9, 0xd), (0x20, 0x20), (0x85, 0x85), (0xa0, 0xa0), (0x1680, 0x1680), (0x2000, 0x200a),
   (0x2028, 0x2029), (0x202f, 0x202f), (0x205f, 0x205f), (0x3000, 0x3000)]

def isBlank (c : Char) : Bool :=
  blankRanges.contains c

/-- The text without the blanks at its beginning and at its end. -/
def trim (text : String) : String :=
  String.ofList (((text.toList.dropWhile isBlank).reverse.dropWhile isBlank).reverse)

end Parley.Text
