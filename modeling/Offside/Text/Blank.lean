/-!
# Blank characters

The code points with the Unicode property `White_Space`, twenty-five in all.
-/

namespace Offside.Text

def blankRanges : List (Nat × Nat) :=
  [(0x9, 0xd), (0x20, 0x20), (0x85, 0x85), (0xa0, 0xa0), (0x1680, 0x1680), (0x2000, 0x200a),
    (0x2028, 0x2029), (0x202f, 0x202f), (0x205f, 0x205f), (0x3000, 0x3000)]

def isBlank (c : Char) : Bool :=
  blankRanges.any fun range => range.1 ≤ c.toNat && c.toNat ≤ range.2

/-- A blank that does not end a line. -/
def isInlineBlank (c : Char) : Bool := c != '\n' && isBlank c

theorem isInlineBlank_lineFeed : isInlineBlank '\n' = false := rfl

end Offside.Text
