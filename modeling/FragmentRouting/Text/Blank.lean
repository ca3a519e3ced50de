import FragmentRouting.Text.Ranges

/-!
# Blank characters
-/

namespace FragmentRouting.Text

/-- The characters that separate words: controls that move the cursor, the four information
separators, and every kind of space. -/
def blankRanges : List (Nat × Nat) :=
  [(0x09, 0x0d), (0x1c, 0x20), (0x85, 0x85), (0xa0, 0xa0), (0x1680, 0x1680), (0x2000, 0x200a),
    (0x2028, 0x2029), (0x202f, 0x202f), (0x205f, 0x205f), (0x3000, 0x3000)]

/-- Whether `c` is blank. -/
def isBlank (c : Char) : Bool :=
  inRanges c.toNat blankRanges

end FragmentRouting.Text
