/-!
# Blank characters

The characters of Unicode's `White_Space` property, and texts made of nothing else. Table
and view names must not be blank, and blanks separate the words of a kind of join.
-/

namespace Joinery.Text

/-- The code points with the property `White_Space`, as inclusive ranges. -/
def blankRanges : List (Nat × Nat) :=
  [(0x9, 0xd), (0x20, 0x20), (0x85, 0x85), (0xa0, 0xa0), (0x1680, 0x1680), (0x2000, 0x200a),
    (0x2028, 0x2029), (0x202f, 0x202f), (0x205f, 0x205f), (0x3000, 0x3000)]

/-- Whether a code point lies in one of the ranges, which are inclusive at both ends. -/
def inRanges (ranges : List (Nat × Nat)) (code : Nat) : Bool :=
  ranges.any fun (low, high) => low ≤ code && code ≤ high

/-- Whether a character is white space. -/
def isBlank (c : Char) : Bool :=
  inRanges blankRanges c.toNat

/-- Whether a text holds white space only; so the empty text is blank. -/
def allBlank (text : String) : Bool :=
  text.toList.all isBlank

end Joinery.Text
