/-!
# Blank characters

Which characters count as blank, and what is left of a text once the blanks at its ends are
taken off.  Blank are the separators and control characters that Unicode calls white space,
together with the four information separators `U+001C` to `U+001F`; the zero-width characters
are not.
-/

namespace ApiStubs.Text

/-- The blank characters as ranges of code points, ends included. -/
def blankRanges : List (Nat × Nat) :=
  [(0x09, 0x0D), (0x1C, 0x20), (0x85, 0x85), (0xA0, 0xA0), (0x1680, 0x1680), (0x2000, 0x200A),
   (0x2028, 0x2029), (0x202F, 0x202F), (0x205F, 0x205F), (0x3000, 0x3000)]

/-- Whether a code point lies in one of the ranges. -/
def inRanges (ranges : List (Nat × Nat)) (c : Char) : Bool :=
  ranges.any fun r => r.1 ≤ c.toNat && c.toNat ≤ r.2

def isBlank (c : Char) : Bool :=
  inRanges blankRanges c

def isBlankText (cs : List Char) : Bool :=
  cs.all isBlank

def trimEnd (cs : List Char) : List Char :=
  (cs.reverse.dropWhile isBlank).reverse

/-- The text without the blanks at either end. -/
def trim (cs : List Char) : List Char :=
  trimEnd (cs.dropWhile isBlank)

end ApiStubs.Text
