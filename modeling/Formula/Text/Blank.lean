import Formula.Text.CharRange

/-!
# Blank characters

The twenty-five characters with the Unicode property `White_Space`.  They may stand between any
two lexemes of a formula.
-/

namespace Formula

/-- The code points of the characters with the property `White_Space`. -/
def blankRanges : List (Nat × Nat) :=
  [(0x9, 0xd), (0x20, 0x20), (0x85, 0x85), (0xa0, 0xa0), (0x1680, 0x1680), (0x2000, 0x200a),
    (0x2028, 0x2029), (0x202f, 0x202f), (0x205f, 0x205f), (0x3000, 0x3000)]

/-- Whether `c` separates lexemes and is otherwise ignored. -/
def isBlank (c : Char) : Bool :=
  inRanges blankRanges c

end Formula
