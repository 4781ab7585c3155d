/-!
# Splitting at a character

The parts of a text between the occurrences of a character, one more than there are of it.
-/

namespace ApiStubs.Text

/-- The parts of a text whose first part starts with the characters of `part`, last one first. -/
def splitFrom (separator : Char) (part : List Char) : List Char → List (List Char)
  | [] => [part.reverse]
  | c :: rest =>
    if c = separator then part.reverse :: splitFrom separator [] rest
    else splitFrom separator (c :: part) rest

/-- The parts of a text. -/
def splitAtEach (separator : Char) (cs : List Char) : List (List Char) :=
  splitFrom separator [] cs

end ApiStubs.Text
