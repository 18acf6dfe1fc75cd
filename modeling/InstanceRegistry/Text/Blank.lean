/-!
Blank texts: white space is the Unicode property `White_Space`, and a text is blank when it holds
nothing else, the empty text included.

* `whiteRanges`, `isWhite`: the twenty-five characters of the property;
* `isBlank`: the texts that count as missing.
-/

namespace InstanceRegistry

/-- The code points of `White_Space`, as closed ranges in rising order. -/
def whiteRanges : List (Nat × Nat) :=
  [(0x09, 0x0D), (0x20, 0x20), (0x85, 0x85), (0xA0, 0xA0), (0x1680, 0x1680),
   (0x2000, 0x200A), (0x2028, 0x2029), (0x202F, 0x202F), (0x205F, 0x205F), (0x3000, 0x3000)]

/-- Membership of a character in `White_Space`. -/
def isWhite (c : Char) : Bool :=
  whiteRanges.any fun range => range.1 ≤ c.toNat && c.toNat ≤ range.2

/-- A text is blank when each of its characters is white space. -/
def isBlank (text : String) : Bool :=
  text.toList.all isWhite

end InstanceRegistry
